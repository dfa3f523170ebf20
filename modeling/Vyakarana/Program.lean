import Vyakarana.BoxTable
import Vyakarana.CommandLine.Parse
import Vyakarana.Config.Load
import Vyakarana.Grammar
import Vyakarana.LogLine
import Vyakarana.Report

/-!
# The program

What a command line prints, as a function of its arguments and of the files it names.
-/

namespace Vyakarana.Program

open CommandLine

/-! ## Faults -/

/-- Why a command fails. -/
inductive Fault where
  | config (fault : Config.LoadFault)
  | grammar (fault : Grammar.Fault)
  | dhatu (fault : Upadesha.Silent)
  | suffix (fault : Upadesha.Silent)
deriving DecidableEq

/-- What failed, followed by why. -/
def Fault.message : Fault → String
  | config fault => "load config: " ++ fault.chain
  | grammar fault => "build grammar: " ++ fault.message
  | dhatu fault => "invalid dhatu " ++ String.ofList fault.raw.quoted ++ ": " ++ fault.message
  | suffix fault => "invalid suffix " ++ String.ofList fault.raw.quoted ++ ": " ++ fault.message

/-! ## Deriving -/

/-- The root and the suffix, each read strictly, with all that was asked for on the suffix. -/
def startState (r : DeriveRequest) : Except Fault State := do
  let root ← (Upadesha.parseStrict r.dhatu .dhatu).mapError .dhatu
  let ending ← (Upadesha.parseStrict r.suffix .vibhakti).mapError .suffix
  let dhatu := (Term.ofUpadesha root).withTags Term.dhatuTags
  let suffix := ((((Term.ofUpadesha ending).withTags Term.tinTags).withTags r.tags).withMarkers
    r.markers).withLakshana r.lakshana
  return .ofTerms [dhatu, suffix]

/-- Both forms are read, and the root stands before the suffix. -/
theorem startState_eq_ok {r : DeriveRequest} {start : State} (h : startState r = .ok start) :
    ∃ root ending, Upadesha.parseStrict r.dhatu .dhatu = .ok root
      ∧ Upadesha.parseStrict r.suffix .vibhakti = .ok ending
      ∧ start = .ofTerms [(Term.ofUpadesha root).withTags Term.dhatuTags,
        ((((Term.ofUpadesha ending).withTags Term.tinTags).withTags r.tags).withMarkers
          r.markers).withLakshana r.lakshana] := by
  unfold startState at h
  cases hroot : Upadesha.parseStrict r.dhatu .dhatu with
  | error fault =>
    rw [hroot] at h
    cases h
  | ok root =>
    cases hending : Upadesha.parseStrict r.suffix .vibhakti with
    | error fault =>
      rw [hroot, hending] at h
      cases h
    | ok ending =>
      rw [hroot, hending] at h
      exact ⟨root, ending, rfl, rfl, (Except.ok.inj h).symm⟩

/-- The report on what was asked for. -/
def reportOf (g : Grammar) (r : DeriveRequest) : Except Fault Report := do
  let start ← startState r
  return .ofOutcome r.dhatu r.suffix (r.lakshana.map fun l => (Vocabulary.spelling l).toList)
    r.trace (g.derive start)

/-- A report in the layout asked for. -/
def writeReport (format : OutputFormat) (report : Report) : Text :=
  match format with
  | .text => report.text
  | .json => report.json.pretty

/-! ## Listing the rules -/

/-- Operations with commas between them, or a dash. -/
def opsCell (ops : List Operation) : Text :=
  match ops with
  | [] => ['-']
  | ops => ", ".toList.intercalate (ops.map fun op => (Vocabulary.spelling op).toList)

/-- The stages of a grammar. -/
def stageTable (g : Grammar) : BoxTable where
  columns := [("#".toList, .right), ("Stage".toList, .left), ("Requires".toList, .left),
    ("Produces".toList, .left)]
  rows := (g.pipeline.stages.zipIdx 1).map fun (stage, number) =>
    [Nat.toDigits 10 number, stage.name.toList, opsCell stage.requires, opsCell stage.produces]

/-- The window rules of a grammar. -/
def windowTable (g : Grammar) : BoxTable where
  columns := [("Stage".toList, .left), ("Id".toList, .right), ("Rule".toList, .left)]
  rows := g.ruleSets.flatMap fun (stage, set) =>
    set.rules.map fun r => [stage.toList, '#' :: Nat.toDigits 10 r.id, r.name.toList]

/-- The stages and the window rules, in the order of registration. -/
def writeRules (g : Grammar) : Text :=
  (stageTable g).draw ++ ['\n'] ++ (windowTable g).draw ++ ['\n']

/-! ## Commands -/

/-- What a command prints under a grammar. -/
def carryOut (g : Grammar) : Command → Except Fault Text
  | .derive r => (reportOf g r).map (writeReport r.format)
  | .rules => .ok (writeRules g)
  | .config => .ok g.config.toToml

/-- The grammar of the configuration that a command line names. -/
def grammarOf (files : Files) (inv : Invocation) : Except Fault Grammar := do
  let c ← (Config.loadOrDefault files inv.globals.config).mapError .config
  (Grammar.ofConfig c).mapError .grammar

/-- What a command line prints. -/
def output (files : Files) (inv : Invocation) : Except Fault Text := do
  carryOut (← grammarOf files inv) inv.command

/-! ## Logging -/

/-- The filter that a command line asks for: a level by name, else one more than warnings for
each `-v` and one less for each `-q`. -/
def logFilter (g : Globals) : LevelFilter :=
  match g.logLevel with
  | some level => some level
  | none => .ofRank (Level.warn.rank + g.verbose.getD 0 - g.quiet.getD 0)

/-- The log may be coloured: it was asked for, or the log goes to a terminal. -/
def logColoured (g : Globals) (terminal : Bool) : Bool :=
  match g.color.getD .auto with
  | .always => true
  | .never => false
  | .auto => g.logFile.isNone && terminal

/-- The log settings of a command line; `terminal` tells whether the error stream is one. A
filter that was asked for is not replaced by the environment's. -/
def logSettings (g : Globals) (terminal : Bool) : LogSettings where
  filter := logFilter g
  envFilter := g.logLevel.isNone && g.verbose.isNone && g.quiet.isNone
  ansi := logColoured g terminal
  format := g.logFormat.getD .pretty
  file := g.logFile

/-- What is reported while a command is carried out under a grammar. -/
def reports (g : Grammar) : Command → List Event
  | .derive r =>
    match startState r with
    | .ok start => g.events start
    | .error _ => []
  | .rules => []
  | .config => []

/-- What a command line writes to its log. -/
def log (files : Files) (inv : Invocation) (terminal : Bool) : Text :=
  match grammarOf files inv with
  | .error _ => []
  | .ok g => (logSettings inv.globals terminal).write (reports g inv.command)

/-! ## The process -/

/-- How a process ends. -/
structure Result where
  code : Nat
  stdout : Text := []
  stderr : Text := []
deriving DecidableEq, Repr

/-- The text with a line end at its end. -/
def closeLine (t : Text) : Text := if t.getLast? == some '\n' then t else t ++ ['\n']

/-- The name and version of the program. -/
def versionLine : Text := "prakriya 0.1.0\n".toList

/-- The line that reports an error. -/
def errorLine (message : String) : Text := "error: ".toList ++ message.toList ++ ['\n']

/-- A short help text. -/
def helpText : Text :=
  "Derive Sanskrit verb stems by rule

Usage: prakriya [OPTIONS] <COMMAND>

Commands:
  derive  Derive every form of a dhātu before a suffix
  rules   List the pipeline stages and window rules in registration order
  config  Print the effective configuration as TOML

derive <DHATU> <SUFFIX>:
  -l, --lakshana <L>  Lakāra or other origin of the suffix, li~w if none is given
  -m, --marker <M>    Extra it-marker on the suffix
  -t, --tag <T>       Extra category on the suffix
      --trace         Show every step of each derivation
      --format <F>    text or json

Options:
  -v, --verbose            Log more
  -q, --quiet              Log less
      --color <WHEN>       auto, always or never
      --log-level <LEVEL>  error, warn, info, debug or trace
      --log-format <F>     pretty, compact or json
      --log-file <PATH>    Write logs to a file
      --config <PATH>      Read limits and root lists from a TOML file
  -h, --help               Print help
  -V, --version            Print version
".toList

/-- How the program ends on a command line that is not carried out. -/
def usageResult : UsageFault → Result
  | .displayHelp => { code := 0, stdout := helpText }
  | .displayVersion => { code := 0, stdout := versionLine }
  | .displayHelpOnMissingArgumentOrSubcommand => { code := 2, stderr := helpText }
  | fault => { code := 2, stderr := errorLine fault.name }

/-- The files as they are once the log file is opened, if there is one. -/
def openLog (files : Files) : Option Text → Except FileFault Files
  | none => .ok files
  | some path => files.openToAppend path

/-- How the program ends on a command line that can be carried out. The log file is opened
first. -/
def resultOf (files : Files) (inv : Invocation) : Result :=
  match openLog files inv.globals.logFile with
  | .error fault =>
    { code := 1, stderr := errorLine ("failed to initialize logging: " ++ fault.message) }
  | .ok files =>
    match output files inv with
    | .ok t => { code := 0, stdout := closeLine t }
    | .error fault => { code := 1, stderr := errorLine fault.message }

/-- How the program ends. -/
def run (files : Files) (args : List Text) : Result :=
  match parse args with
  | .error fault => usageResult fault
  | .ok inv => resultOf files inv

end Vyakarana.Program
