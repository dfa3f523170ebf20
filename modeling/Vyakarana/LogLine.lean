import Vyakarana.Json
import Vyakarana.LogSettings

/-!
# Log lines

How a report is written to a log. A report is kept if the filter keeps its level. The lines are laid
out here in a way of their own; they do not follow the third-party `tracing_subscriber` library.
-/

namespace Vyakarana

/-! ## Colours -/

/-- The terminal code of the colour of a level. -/
def Level.colour : Level → String
  | error => "31"
  | warn => "33"
  | info => "32"
  | debug => "34"
  | trace => "35"

/-- The name of a level in capitals, in five columns. -/
def Level.label : Level → String
  | error => "ERROR"
  | warn => " WARN"
  | info => " INFO"
  | debug => "DEBUG"
  | trace => "TRACE"

/-- The label, in its colour if the terminal shows colours. -/
def Level.mark (ansi : Bool) (level : Level) : Text :=
  if ansi then ("\x1b[" ++ level.colour ++ "m" ++ level.label ++ "\x1b[0m").toList
  else level.label.toList

/-! ## Layouts -/

/-- A recorded value with its name. -/
def fieldText (field : String × Text) : Text := field.1.toList ++ '=' :: field.2

/-- An object of strings on one line. -/
def JsonValue.flatObject (fields : List (String × Text)) : Text :=
  '\x7b' :: [','].intercalate (fields.map fun (name, value) =>
    writeString name.toList ++ ':' :: writeString value) ++ ['\x7d']

namespace Event

/-- The report in a layout: the values under the message, after it, or as members of an
object. -/
def line (format : LogFormat) (ansi : Bool) (e : Event) : Text :=
  let head := e.level.mark ansi ++ ' ' :: e.message.toList
  match format with
  | .pretty => head ++ e.fields.flatMap fun f => "\n      ".toList ++ fieldText f
  | .compact => head ++ e.fields.flatMap fun f => ' ' :: fieldText f
  | .json =>
    JsonValue.flatObject ([("level", e.level.name.toList), ("message", e.message.toList)] ++
      e.fields)

end Event

/-- The lines of the reports that are kept. -/
def LogSettings.write (s : LogSettings) (events : List Event) : Text :=
  (events.filter (s.filter.keeps ·.level)).flatMap fun e => e.line s.format s.ansi ++ ['\n']

example : LogSettings.write { ansi := false } [.started [], .resultLimit 1] =
    " WARN result limit reached\n      max_results=1\n".toList := by decide

end Vyakarana
