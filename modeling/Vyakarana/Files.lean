import Vyakarana.Text.Blank

/-!
# Files

What the program sees of the file system: what reading a path gives, and whether a path can be
opened to append to.
-/

namespace Vyakarana

/-- Why a file cannot be used. -/
inductive FileFault where
  | notFound | isDirectory | denied
  /-- The file is read but is not UTF-8. -/
  | notText
  /-- Any other reason, in words. -/
  | other (reason : String)
deriving DecidableEq, Repr

/-- The wording of the error. -/
def FileFault.message : FileFault → String
  | notFound => "No such file or directory (os error 2)"
  | isDirectory => "Is a directory (os error 21)"
  | denied => "Permission denied (os error 13)"
  | notText => "stream did not contain valid UTF-8"
  | other reason => reason

/-- The file system, as far as the program asks it. -/
structure Files where
  /-- The bytes of the file at a path. -/
  read : Text → Except FileFault ByteArray
  /-- Whether the file at a path can be appended to. -/
  append : Text → Except FileFault Unit

/-- The text of the file at a path. -/
def Files.readText (files : Files) (path : Text) : Except FileFault Text :=
  match files.read path with
  | .error fault => .error fault
  | .ok bytes =>
    match String.fromUTF8? bytes with
    | some s => .ok s.toList
    | none => .error .notText

/-- What is read at a path once it was opened to append to. A file that was not there is empty. -/
def Files.contentsOnceOpened (files : Files) (path : Text) : Except FileFault ByteArray :=
  match files.read path with
  | .error .notFound => .ok .empty
  | contents => contents

/-- Open a path to append to. -/
def Files.openToAppend (files : Files) (path : Text) : Except FileFault Files :=
  (files.append path).map fun () =>
    { files with read := fun q => if q = path then files.contentsOnceOpened path else files.read q }

end Vyakarana
