import Vyakarana.Proofs.State

/-!
# Transforms that only give another value

Guṇa, vṛddhi, samprasāraṇa, the replacement of single sounds and most substitutions leave everything
about a term but its value. The one exception that the rules make is an augment, which is also
recorded in the parts of the term.
-/

namespace Vyakarana.Term

/-- The terms differ in their values at most. -/
def Revalued (a b : Term) : Prop := b = a.withValue b.value

variable {a b : Term}

theorem Revalued.refl (a : Term) : Revalued a a := rfl

theorem Revalued.tags (h : Revalued a b) : b.tags = a.tags := by
  rw [h]
  rfl

theorem Revalued.clean (h : Revalued a b) : b.clean = a.clean := by
  rw [h]
  rfl

theorem revalued_withValue (a : Term) (value : Text) : Revalued a (a.withValue value) := rfl

theorem revalued_setAntya (a : Term) (replacement : Text) :
    Revalued a (a.setAntya replacement) := by
  unfold setAntya
  split
  · exact Revalued.refl a
  · exact revalued_withValue a _

theorem revalued_setUpadha (a : Term) (replacement : Text) :
    Revalued a (a.setUpadha replacement) := by
  unfold setUpadha
  split
  · exact revalued_withValue a _
  · exact Revalued.refl a

theorem revalued_lopa (a : Term) : Revalued a a.lopa := revalued_withValue a []

theorem revalued_guna (a : Term) : Revalued a a.guna := by
  unfold guna
  split
  · exact Revalued.refl a
  · split
    · exact revalued_setAntya a _
    · split
      · exact Revalued.refl a
      · split
        · exact revalued_setUpadha a _
        · exact Revalued.refl a

theorem revalued_vrddhi (a : Term) : Revalued a a.vrddhi := by
  unfold vrddhi
  split
  · exact Revalued.refl a
  · split
    · exact revalued_setAntya a _
    · split
      · exact revalued_setUpadha a _
      · exact Revalued.refl a

theorem revalued_samprasarana (a : Term) : Revalued a a.samprasarana := by
  unfold samprasarana
  split
  · exact revalued_withValue a _
  · exact Revalued.refl a

theorem revalued_alTasya (a : Term) (target result : SoundClass) :
    Revalued a (a.alTasya target result) := by
  unfold alTasya
  split
  · exact Revalued.refl a
  · split
    · exact revalued_withValue a _
    · exact Revalued.refl a

/-- Without a marker of an augment an upadeśa only gives another value. -/
theorem revalued_tasya (a : Term) {u : Upadesha} (hkit : Marker.kit ∉ u.markers)
    (hwit : Marker.wit ∉ u.markers) (hmit : Marker.mit ∉ u.markers) : Revalued a (a.tasya u) := by
  unfold tasya
  rw [if_neg hkit, if_neg hwit, if_neg hmit]
  split
  · exact revalued_setAntya a _
  · split
    · exact revalued_withValue a _
    · exact revalued_setAntya a _

theorem tasya_of_kit (a : Term) {u : Upadesha} (h : Marker.kit ∈ u.markers) :
    a.tasya u = a.withPart (a.value ++ u.value) u := by
  unfold tasya
  rw [if_pos h]

end Vyakarana.Term
