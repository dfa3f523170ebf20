import Vyakarana.LogSettings
import Vyakarana.Vocabulary

/-!
# Command line options

The options of the command line, where each may stand, and how its value is read.

## Levels

The options before the subcommand and those after it are two levels of their own. Global options
may stand at either; given at both, the one after the subcommand counts.
-/

namespace Vyakarana.CommandLine

/-! ## What the command line asks for -/

/-- Why a command line is not carried out. -/
inductive UsageFault where
  /-- The value spells no member of a vocabulary. -/
  | valueValidation
  /-- The value is missing, empty, or not one of a few. -/
  | invalidValue
  | missingRequiredArgument
  | unknownArgument
  | invalidSubcommand
  /-- Two options exclude each other, or one was given twice. -/
  | argumentConflict
  /-- A value was attached to an option that takes none. -/
  | tooManyValues
  | missingSubcommand
  | displayHelp
  | displayVersion
  /-- Nothing was given at all. -/
  | displayHelpOnMissingArgumentOrSubcommand
deriving DecidableEq, Repr

/-- The name of the error. -/
def UsageFault.name : UsageFault → String
  | valueValidation => "ValueValidation"
  | invalidValue => "InvalidValue"
  | missingRequiredArgument => "MissingRequiredArgument"
  | unknownArgument => "UnknownArgument"
  | invalidSubcommand => "InvalidSubcommand"
  | argumentConflict => "ArgumentConflict"
  | tooManyValues => "TooManyValues"
  | missingSubcommand => "MissingSubcommand"
  | displayHelp => "DisplayHelp"
  | displayVersion => "DisplayVersion"
  | displayHelpOnMissingArgumentOrSubcommand => "DisplayHelpOnMissingArgumentOrSubcommand"

/-- The layout of results. -/
inductive OutputFormat where
  | text | json
deriving DecidableEq, Repr

/-- When to use colours. -/
inductive ColorChoice where
  | auto | always | never
deriving DecidableEq, Repr

/-! ## Options -/

/-- An option. -/
inductive Opt where
  | lakshana | marker | tag | trace | format | logLevel | logFormat | logFile | config | verbose
  | quiet | color | help | version
deriving DecidableEq, Repr

/-- Where arguments stand. -/
inductive Scope where
  /-- Before the subcommand. -/
  | root
  | derive
  /-- After `rules` or `config`, which take options only. -/
  | listing
deriving DecidableEq, Repr

namespace Opt

/-- The name after two dashes. -/
def long : Opt → String
  | lakshana => "lakshana"
  | marker => "marker"
  | tag => "tag"
  | trace => "trace"
  | format => "format"
  | logLevel => "log-level"
  | logFormat => "log-format"
  | logFile => "log-file"
  | config => "config"
  | verbose => "verbose"
  | quiet => "quiet"
  | color => "color"
  | help => "help"
  | version => "version"

/-- The letter after one dash. -/
def short? : Opt → Option Char
  | lakshana => some 'l'
  | marker => some 'm'
  | tag => some 't'
  | verbose => some 'v'
  | quiet => some 'q'
  | help => some 'h'
  | version => some 'V'
  | _ => none

/-- The option takes a value. -/
def takesValue : Opt → Bool
  | trace | verbose | quiet | help | version => false
  | _ => true

/-- The options that may stand at either level. -/
def globals : List Opt := [logLevel, logFormat, logFile, config, verbose, quiet, color]

end Opt

/-- The options that may stand in a place. -/
def Scope.options : Scope → List Opt
  | root => Opt.globals ++ [.help, .version]
  | derive => [.lakshana, .marker, .tag, .trace, .format] ++ Opt.globals ++ [.help]
  | listing => Opt.globals ++ [.help]

/-- The option with a name, in a place. -/
def Scope.ofLong? (s : Scope) (name : Text) : Option Opt :=
  s.options.find? fun o => o.long.toList == name

/-- The option with a letter, in a place. -/
def Scope.ofShort? (s : Scope) (letter : Char) : Option Opt :=
  s.options.find? fun o => o.short? == some letter

/-! ## Values -/

/-- The global options of one level, as far as they were given. -/
structure Globals where
  /-- How often `-v` was given. -/
  verbose : Option Nat := none
  /-- How often `-q` was given. -/
  quiet : Option Nat := none
  color : Option ColorChoice := none
  logLevel : Option Level := none
  logFormat : Option LogFormat := none
  logFile : Option Text := none
  config : Option Text := none
deriving DecidableEq, Repr

/-- The options of both levels together. -/
def Globals.under (sub root : Globals) : Globals where
  verbose := sub.verbose.or root.verbose
  quiet := sub.quiet.or root.quiet
  color := sub.color.or root.color
  logLevel := sub.logLevel.or root.logLevel
  logFormat := sub.logFormat.or root.logFormat
  logFile := sub.logFile.or root.logFile
  config := sub.config.or root.config

/-- What was given at one level. -/
structure Given where
  globals : Globals := {}
  lakshana : List Lakshana := []
  markers : List Marker := []
  tags : List Tag := []
  trace : Bool := false
  format : Option OutputFormat := none
  dhatu : Option Text := none
  suffix : Option Text := none
deriving DecidableEq, Repr

/-- Read a member of a vocabulary. -/
def readWord {α : Type} [Vocabulary α] (value : Text) : Except UsageFault α :=
  (Vocabulary.read value).mapError fun _ => .valueValidation

/-- Read one of a few names. -/
def readChoice {α : Type} (choices : List (String × α)) (value : Text) : Except UsageFault α :=
  match choices.find? fun c => c.1.toList == value with
  | some c => .ok c.2
  | none => .error .invalidValue

/-- Read a path, which must not be empty. -/
def readPath (value : Text) : Except UsageFault Text :=
  if value.isEmpty then .error .invalidValue else .ok value

/-- A value for something that has at most one. -/
def once {α : Type} (old : Option α) (read : Text → Except UsageFault α) (value : Text) :
    Except UsageFault (Option α) :=
  match old with
  | some _ => .error .argumentConflict
  | none => (read value).map some

/-- Take note of a global option with its value. -/
def Globals.setOption (g : Globals) (o : Opt) (value : Text) : Except UsageFault Globals :=
  match o with
  | .logLevel =>
    (once g.logLevel (readChoice (Level.all.map fun l => (l.name, l))) value).map fun v =>
      { g with logLevel := v }
  | .logFormat =>
    (once g.logFormat (readChoice (LogFormat.all.map fun f => (f.name, f))) value).map fun v =>
      { g with logFormat := v }
  | .color =>
    (once g.color (readChoice [("auto", .auto), ("always", .always), ("never", .never)])
      value).map fun v => { g with color := v }
  | .logFile => (once g.logFile readPath value).map fun v => { g with logFile := v }
  | .config => (once g.config readPath value).map fun v => { g with config := v }
  | _ => .error .tooManyValues

/-- Take note of an option with its value. -/
def Given.setOption (g : Given) (o : Opt) (value : Text) : Except UsageFault Given :=
  match o with
  | .lakshana => (readWord value).map fun v => { g with lakshana := g.lakshana ++ [v] }
  | .marker => (readWord value).map fun v => { g with markers := g.markers ++ [v] }
  | .tag => (readWord value).map fun v => { g with tags := g.tags ++ [v] }
  | .format =>
    (once g.format (readChoice [("text", .text), ("json", .json)]) value).map fun v =>
      { g with format := v }
  | o => (g.globals.setOption o value).map fun v => { g with globals := v }

/-- Take note of an option without a value. -/
def Given.setFlag (g : Given) (o : Opt) : Except UsageFault Given :=
  match o with
  | .trace => if g.trace then .error .argumentConflict else .ok { g with trace := true }
  | .verbose =>
    .ok { g with globals := { g.globals with verbose := some (g.globals.verbose.getD 0 + 1) } }
  | .quiet =>
    .ok { g with globals := { g.globals with quiet := some (g.globals.quiet.getD 0 + 1) } }
  | .help => .error .displayHelp
  | .version => .error .displayVersion
  | _ => .error .invalidValue

end Vyakarana.CommandLine
