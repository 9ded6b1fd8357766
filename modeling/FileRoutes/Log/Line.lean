import FileRoutes.Diagnostic
import FileRoutes.Json.Written
import FileRoutes.Log.Filter

/-!
# Log lines

How an event is written. For a person, characters that a terminal would act on are written
as escapes; in JSON the message is a string like any other.

## The model

* `Event` — a level, the part of the program it comes from, and a message.
* `Event.written` — its lines, for a given time.
-/

namespace FileRoutes.Log

/-- Something that is told in the log. -/
structure Event where
  /-- How grave it is. -/
  level : Level
  /-- The part of the program that tells it. -/
  part : String
  /-- What is told. -/
  message : String
deriving DecidableEq, Inhabited

/-- The part of the program that reports diagnostics. -/
def diagnosticsPart : String := "autoapi::diagnostics"

/-- The part of the program that carries out a command line. -/
def mainPart : String := "autoapi"

/-- The part of the program that watches. -/
def watchPart : String := "autoapi::watch"

/-- The level of a severity. -/
def Level.ofSeverity : Severity → Level
  | .error => .error
  | .warning => .warn
  | .info => .info

/-- The event that tells a diagnostic. -/
def Event.ofDiagnostic (d : Diagnostic) : Event := ⟨.ofSeverity d.severity, diagnosticsPart, d.message⟩

/-- Whether a terminal would act on a character. -/
def isActive (c : Char) : Bool :=
  c = '\x1b' || c = '\x07' || c = '\x08' || c = '\x0c' || c = '\x7f' ||
    (0x80 ≤ c.toNat && c.toNat ≤ 0x9f)

/-- The characters a character is written with for a person. -/
def shownCharacter (c : Char) : List Char :=
  if !isActive c then [c]
  else
    let digits := [Json.hexDigit (c.toNat / 16), Json.hexDigit c.toNat]
    if c.toNat < 0x80 then ['\\', 'x'] ++ digits else ['\\', 'u', '\x7b'] ++ digits ++ ['\x7d']

/-- A message for a person. -/
def shownMessage (s : String) : String := String.ofList (s.toList.flatMap shownCharacter)

/-- A level in five columns, at the right. -/
def levelColumn (l : Level) : String :=
  String.ofList (List.replicate (5 - l.word.length) ' ') ++ l.word

namespace Event

/-- An event on one line for a person. -/
def compact (time : String) (e : Event) : String :=
  time ++ " " ++ levelColumn e.level ++ " " ++ shownMessage e.message ++ "\n"

/-- An event with an empty line behind it for a person. -/
def pretty (time : String) (e : Event) : String :=
  "  " ++ time ++ " " ++ levelColumn e.level ++ "  " ++ shownMessage e.message ++ "\n\n"

/-- An event as a JSON object. -/
def json (time : String) (e : Event) : String :=
  Json.writtenObject [
    Json.writtenMember "timestamp" (Json.writtenText time),
    Json.writtenMember "level" (Json.writtenText e.level.word),
    Json.writtenMember "fields"
      (Json.writtenObject [Json.writtenMember "message" (Json.writtenText e.message)]),
    Json.writtenMember "target" (Json.writtenText e.part)] ++ "\n"

/-- An event as it is written in a format. -/
def written (format : Format) (time : String) (e : Event) : String :=
  match format with
  | .compact => e.compact time
  | .pretty => e.pretty time
  | .json => e.json time

end Event

/-- What is logged of some events. -/
def logged (f : Filter) (events : List Event) : List Event :=
  events.filter fun e => f.admits e.part e.level

end FileRoutes.Log
