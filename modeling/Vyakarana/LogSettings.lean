import Vyakarana.Event

/-!
# Log settings

Where the reports of a run go and which of them are kept.
-/

namespace Vyakarana

/-- The layout of log lines. -/
inductive LogFormat where
  | pretty | compact | json
deriving DecidableEq, Repr

/-- Every layout. -/
def LogFormat.all : List LogFormat := [.pretty, .compact, .json]

/-- The name of a layout. -/
def LogFormat.name : LogFormat → String
  | pretty => "pretty"
  | compact => "compact"
  | json => "json"

/-- Every level, the most important first. -/
def Level.all : List Level := [.error, .warn, .info, .debug, .trace]

/-- The name of a level. -/
def Level.name : Level → String
  | error => "error"
  | warn => "warn"
  | info => "info"
  | debug => "debug"
  | trace => "trace"

/-- How many levels are at least as important. -/
def Level.rank : Level → Nat
  | error => 1
  | warn => 2
  | info => 3
  | debug => 4
  | trace => 5

/-- The least important level that is kept; `none` keeps nothing. -/
abbrev LevelFilter := Option Level

namespace LevelFilter

/-- The name of a filter. -/
def name : LevelFilter → String
  | none => "off"
  | some level => level.name

/-- The filter with a name. -/
def ofName? (t : Text) : Option LevelFilter :=
  (none :: Level.all.map some : List LevelFilter).find? fun f => (name f).toList == t

/-- The filter that keeps the `n` most important levels. -/
def ofRank (n : Nat) : LevelFilter :=
  match n with
  | 0 => none
  | n => (Level.all[n - 1]?).or (some .trace)

/-- The filter keeps reports of this level. -/
def keeps (f : LevelFilter) (level : Level) : Bool := f.any fun least => level.rank ≤ least.rank

end LevelFilter

/-- How reports are logged. -/
structure LogSettings where
  filter : LevelFilter := some .warn
  /-- The environment may replace the filter. -/
  envFilter : Bool := true
  timestamps : Bool := false
  /-- Name the module of each report. -/
  target : Bool := false
  /-- Report the end of spans, in JSON. -/
  spans : Bool := true
  ansi : Bool := true
  format : LogFormat := .pretty
  /-- The file that logs are appended to, instead of the error stream. -/
  file : Option Text := none
deriving DecidableEq, Repr

namespace LogSettings

/-- The directives of a filter: it holds for the program's own parts, and everything else stays
at warnings. -/
def directives (f : LevelFilter) : String :=
  "warn,prakriya_cli=" ++ f.name ++ ",prakriya_core=" ++ f.name ++ ",prakriya_model=" ++ f.name

end LogSettings

end Vyakarana
