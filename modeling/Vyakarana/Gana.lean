import Vyakarana.Text.Blank

/-!
# Root lists

Some rules hold of listed roots only. A list (gaṇa) names roots by their value as taught.
-/

namespace Vyakarana

/-- The lists of roots that the stem rules consult. -/
structure Gana where
  /-- Samprasāraṇa before kit (6.1.15). -/
  vac : List Text := ["vac", "svap", "yaj", "vap", "vah", "vas", "ve", "vye", "hve", "vad",
    "Svi"].map String.toList
  /-- Samprasāraṇa before kit and ṅit (6.1.16). -/
  grah : List Text := ["grah", "jyA", "vay", "vyaD", "vaS", "vyac", "vraSc", "pracC",
    "Brasj"].map String.toList
  /-- Optional e-substitution in liṭ (6.4.125). -/
  phan : List Text := ["PaR", "rAj", "BrAj", "BrAS", "BlAS", "syam", "svan"].map String.toList
deriving DecidableEq, Repr

namespace Gana

/-- The list for kit names the root. -/
def inVac (g : Gana) (clean : Text) : Bool := g.vac.contains clean

/-- The list for kit and ṅit names the root. -/
def inGrah (g : Gana) (clean : Text) : Bool := g.grah.contains clean

/-- The list for liṭ names the root. -/
def inPhan (g : Gana) (clean : Text) : Bool := g.phan.contains clean

end Gana

end Vyakarana
