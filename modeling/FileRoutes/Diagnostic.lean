import FileRoutes.Text.Split

/-!
# Diagnostics

Scanning and generating never stop at a problem: a file that cannot be read is skipped, a
folder without endpoints is left out. What happened is told by diagnostics, kept in the
order in which they were reported.
-/

namespace FileRoutes

/-- How much a diagnostic matters. -/
inductive Severity where
  /-- What was asked for did not happen. -/
  | error
  /-- It happened, with something else in place of what could not be used. -/
  | warning
  /-- It happened. -/
  | info
deriving DecidableEq, Inhabited

namespace Severity

/-- The word for a severity. -/
def word : Severity → String
  | error => "error"
  | warning => "warning"
  | info => "info"

/-- All severities, the gravest first. -/
def all : List Severity := [error, warning, info]

/-- The severity that a word stands for. -/
def ofWord? (s : String) : Option Severity := all.find? fun v => v.word == s

theorem ofWord_word (v : Severity) : ofWord? v.word = some v := by cases v <;> decide

end Severity

/-- One message. -/
structure Diagnostic where
  /-- How much it matters. -/
  severity : Severity
  /-- What it says. -/
  message : String
deriving DecidableEq, Inhabited

namespace Diagnostic

/-- The message with its severity in front. -/
def render (d : Diagnostic) : String := "[" ++ d.severity.word ++ "] " ++ d.message

/-- An error. -/
def error (message : String) : Diagnostic := ⟨.error, message⟩

/-- A warning. -/
def warning (message : String) : Diagnostic := ⟨.warning, message⟩

/-- Progress. -/
def info (message : String) : Diagnostic := ⟨.info, message⟩

/-- The messages of one severity, in order. -/
def messages (log : List Diagnostic) (severity : Severity) : List String :=
  (log.filter fun d => d.severity = severity).map Diagnostic.message

/-- Whether some message of this severity holds the text. -/
def mentions (log : List Diagnostic) (severity : Severity) (needle : String) : Bool :=
  (messages log severity).any fun m => Text.holds m.toList needle.toList

end Diagnostic

end FileRoutes
