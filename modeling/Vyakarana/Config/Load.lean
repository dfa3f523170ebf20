import Vyakarana.Config.Toml
import Vyakarana.Files

/-!
# Loading configurations

A configuration comes from a file if a path is given, and is the default one otherwise.
-/

namespace Vyakarana.Config

/-- Why a configuration cannot be loaded. -/
inductive LoadFault where
  | unreadable (path : Text) (fault : FileFault)
  /-- The file is not TOML, or not that of a configuration. -/
  | malformed (path : Text)
  | unacceptable (fault : Fault)
deriving DecidableEq, Repr

/-- The wording of the error. What the `toml` library says is wrong with a malformed file is not told
apart: `not a configuration` stands for its text. -/
def LoadFault.message : LoadFault → String
  | unreadable path fault =>
    "failed to read config " ++ String.ofList path ++ ": " ++ fault.message
  | malformed path =>
    "failed to parse TOML config " ++ String.ofList path ++ ": not a configuration"
  | unacceptable fault => fault.message

/-- The wording of the error, followed by that of the error behind it if there is one. The text of
the `toml` library, which is behind the error of a malformed file, is stood for once only. -/
def LoadFault.chain : LoadFault → String
  | unreadable path fault => (unreadable path fault).message ++ ": " ++ fault.message
  | fault => fault.message

/-- Load and check the configuration at a path. -/
def load (files : Files) (path : Text) : Except LoadFault Config :=
  match files.readText path with
  | .error fault => .error (.unreadable path fault)
  | .ok t =>
    match ofToml? t with
    | none => .error (.malformed path)
    | some c =>
      match c.validate with
      | .error fault => .error (.unacceptable fault)
      | .ok () => .ok c

/-- Load the configuration at a path if one is given; the default needs no check. -/
def loadOrDefault (files : Files) : Option Text → Except LoadFault Config
  | none => .ok {}
  | some path => load files path

end Vyakarana.Config
