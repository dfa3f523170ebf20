import Vyakarana.CommandLine.Options

/-!
# Reading the command line

Arguments are read from left to right. A value that stands in an argument of its own is only
checked when the next option or positional argument is taken up, or at the end of the level, so
an error further on may be found before it. This is how the third-party `clap` library goes about
it, which reads the command line.

## Order of errors

1. Whatever is found while the arguments of the subcommand are read.
2. What a subcommand lacks, or gives together and must not.
3. A value left over before the subcommand, and what stands together there and must not.
-/

namespace Vyakarana.CommandLine

/-! ## One level -/

/-- A value that is not checked yet. -/
inductive Pending where
  /-- An option without its value. -/
  | awaiting (o : Opt)
  | option (o : Opt) (value : Text)
  | dhatu (value : Text)
  | suffix (value : Text)
deriving DecidableEq, Repr

/-- How far a level was read. -/
structure Progress where
  given : Given := {}
  pending : Option Pending := none
  /-- `--` was met: all that follows is positional. -/
  trailing : Bool := false
  /-- The positional arguments met. -/
  positionals : Nat := 0
deriving DecidableEq, Repr

namespace Progress

/-- Take note of the pending value. -/
def settle (p : Progress) : Except UsageFault Progress :=
  match p.pending with
  | none => .ok p
  | some (.awaiting _) => .error .invalidValue
  | some (.option o value) => do
    return { p with given := ← p.given.setOption o value, pending := none }
  | some (.dhatu value) =>
    .ok { p with given := { p.given with dhatu := some value }, pending := none }
  | some (.suffix value) =>
    .ok { p with given := { p.given with suffix := some value }, pending := none }

/-- Take up an option whose value is attached. -/
def takeAttached (p : Progress) (o : Opt) (value : Text) : Except UsageFault Progress := do
  let p ← p.settle
  return { p with given := ← p.given.setOption o value }

/-- Take up an option whose value is the next argument. -/
def takeAwaiting (p : Progress) (o : Opt) : Except UsageFault Progress := do
  let p ← p.settle
  return { p with pending := some (.awaiting o) }

/-- Take up an option without a value. -/
def takeFlag (p : Progress) (o : Opt) : Except UsageFault Progress := do
  let p ← p.settle
  return { p with given := ← p.given.setFlag o }

/-- Take up what follows two dashes. -/
def takeLong (scope : Scope) (p : Progress) (body : Text) : Except UsageFault Progress :=
  let name := body.takeWhile (· != '=')
  let value := (body.dropWhile (· != '=')).tail?
  match scope.ofLong? name, value with
  | none, _ => .error .unknownArgument
  | some o, some value => if o.takesValue then p.takeAttached o value else .error .tooManyValues
  | some o, none => if o.takesValue then p.takeAwaiting o else p.takeFlag o

/-- Take up the letters that follow one dash. The first that takes a value has the letters after
it as the value, an equals sign between them being passed over. -/
def takeShort (scope : Scope) : Progress → Text → Except UsageFault Progress
  | p, [] => .ok p
  | p, letter :: rest =>
    match scope.ofShort? letter with
    | none => .error .unknownArgument
    | some o =>
      if o.takesValue then
        match rest with
        | [] => p.takeAwaiting o
        | '=' :: value => p.takeAttached o value
        | value => p.takeAttached o value
      else
        match p.takeFlag o with
        | .error fault => .error fault
        | .ok p => takeShort scope p rest

/-- Take up a positional argument. Only `derive` has any: a root and a suffix. -/
def takePositional (scope : Scope) (p : Progress) (arg : Text) : Except UsageFault Progress :=
  match scope, p.positionals with
  | .derive, 0 => do
    let p ← p.settle
    return { p with pending := some (.dhatu arg), positionals := 1 }
  | .derive, 1 => do
    let p ← p.settle
    return { p with pending := some (.suffix arg), positionals := 2 }
  | .root, _ => .error .invalidSubcommand
  | _, _ => .error .unknownArgument

/-- Take up an argument that is no subcommand. -/
def take (scope : Scope) (p : Progress) (arg : Text) : Except UsageFault Progress :=
  if p.trailing then takePositional scope p arg
  else
    match arg, p.pending with
    | ['-', '-'], _ => .ok { p with trailing := true }
    | '-' :: '-' :: body, _ => takeLong scope p body
    | '-' :: letter :: letters, _ => takeShort scope p (letter :: letters)
    | _, some (.awaiting o) => .ok { p with pending := some (.option o arg) }
    | _, _ => takePositional scope p arg

/-- Check that the options of a level may stand together. -/
def checkConflicts (p : Progress) : Except UsageFault Unit :=
  if p.given.globals.verbose.isSome && p.given.globals.quiet.isSome then .error .argumentConflict
  else .ok ()

end Progress

/-! ## Subcommands -/

/-- What to derive. -/
structure DeriveRequest where
  dhatu : Text
  suffix : Text
  lakshana : List Lakshana := [.liW]
  markers : List Marker := []
  tags : List Tag := []
  trace : Bool := false
  format : OutputFormat := .text
deriving DecidableEq, Repr

/-- What to do. -/
inductive Command where
  | derive (request : DeriveRequest)
  | rules
  | config
deriving DecidableEq, Repr

/-- A command line that can be carried out. -/
structure Invocation where
  command : Command
  globals : Globals
deriving DecidableEq, Repr

/-- The name of a subcommand. -/
inductive Subcommand where
  | derive | rules | config | help
deriving DecidableEq, Repr

/-- The subcommand with a name. -/
def Subcommand.ofName? (arg : Text) : Option Subcommand :=
  if arg == "derive".toList then some .derive
  else if arg == "rules".toList then some .rules
  else if arg == "config".toList then some .config
  else if arg == "help".toList then some .help
  else none

/-- The derivation that a level asks for. Without a lakṣaṇa it is liṭ. -/
def requestOf (g : Given) : Except UsageFault DeriveRequest :=
  match g.dhatu, g.suffix with
  | some dhatu, some suffix => .ok {
      dhatu
      suffix
      lakshana := if g.lakshana.isEmpty then [.liW] else g.lakshana
      markers := g.markers
      tags := g.tags
      trace := g.trace
      format := g.format.getD .text }
  | _, _ => .error .missingRequiredArgument

/-- Read all arguments of a level without subcommands. -/
def readLevel (scope : Scope) (args : List Text) : Except UsageFault Given := do
  let p ← args.foldlM (Progress.take scope) {}
  let p ← p.settle
  p.checkConflicts
  return p.given

/-- Show help on the subcommands named, if there are such. -/
def readHelp : List Text → UsageFault
  | [] => .displayHelp
  | [name] => if (Subcommand.ofName? name).isSome then .displayHelp else .invalidSubcommand
  | _ => .invalidSubcommand

/-- Read the arguments after the name of a subcommand. -/
def readSubcommand (s : Subcommand) (args : List Text) : Except UsageFault (Command × Globals) := do
  match s with
  | .derive =>
    let g ← readLevel .derive args
    return (.derive (← requestOf g), g.globals)
  | .rules => return (.rules, (← readLevel .listing args).globals)
  | .config => return (.config, (← readLevel .listing args).globals)
  | .help => .error (readHelp args)

/-- Finish a command line without a subcommand. -/
def withoutSubcommand (p : Progress) : UsageFault :=
  match p.settle with
  | .error fault => fault
  | .ok p =>
    if p.given = {} then .displayHelpOnMissingArgumentOrSubcommand else .missingSubcommand

/-- An argument before the subcommand can be the subcommand: it is not positional by `--` and not
the value of an option. -/
def mayBeSubcommand (p : Progress) : Bool :=
  !p.trailing &&
    match p.pending with
    | some (.awaiting _) => false
    | _ => true

/-- Read on before the subcommand. -/
def readRoot : Progress → List Text → Except UsageFault Invocation
  | p, [] => .error (withoutSubcommand p)
  | p, arg :: rest =>
    match Subcommand.ofName? arg with
    | some s =>
      if mayBeSubcommand p then do
        let (command, globals) ← readSubcommand s rest
        let p ← p.settle
        p.checkConflicts
        return ⟨command, globals.under p.given.globals⟩
      else if p.trailing then .error .unknownArgument
      else do readRoot (← p.take .root arg) rest
    | none => do readRoot (← p.take .root arg) rest

/-- Read a command line, without the name of the program. -/
def parse (args : List Text) : Except UsageFault Invocation := readRoot {} args

end Vyakarana.CommandLine
