import FileRoutes.Text.Blank

/-!
# Logging settings

How much is logged and in which shape, as chosen by environment variables. A word that
names no level or no shape stands for the default one.
-/

namespace FileRoutes.Log

/-- The variables of an environment that are set, with their values. -/
abbrev Environment := List (String × String)

/-- The shape of a log line. -/
inductive Format where
  /-- One line for a person to read. -/
  | compact
  /-- Several lines for a person to read. -/
  | pretty
  /-- One JSON object on a line. -/
  | json
deriving DecidableEq, Inhabited

namespace Format

/-- The word for a shape. -/
def word : Format → String
  | compact => "compact"
  | pretty => "pretty"
  | json => "json"

/-- The shape that a word stands for, in any case. -/
def parse (s : String) : Format :=
  let s := Text.lower s
  if s = "pretty" then pretty else if s = "json" then json else compact

end Format

/-- How grave an event has to be to be logged. -/
inductive Level where
  | error
  | warn
  | info
  | debug
  | trace
deriving DecidableEq, Inhabited

namespace Level

/-- The word for a level, in capitals. -/
def word : Level → String
  | error => "ERROR"
  | warn => "WARN"
  | info => "INFO"
  | debug => "DEBUG"
  | trace => "TRACE"

/-- The level that a word stands for, in any case. -/
def parse? (s : String) : Option Level :=
  [error, warn, info, debug, trace].find? fun l => l.word == Text.upper s

/-- The position of a level, the gravest first. -/
def rank : Level → Nat
  | error => 1
  | warn => 2
  | info => 3
  | debug => 4
  | trace => 5

end Level

/-- The settings of the log. -/
structure Settings where
  /-- The word chosen for the level. -/
  levelWord : String := "info"
  /-- The shape of a line. -/
  format : Format := .compact
  /-- Whether a line tells where in the program it comes from. -/
  includeLocation : Bool := false
deriving DecidableEq, Inhabited

namespace Settings

/-- The variable that chooses the level. -/
def levelVariable : String := "AUTOAPI_LOG_LEVEL"

/-- The variable that chooses the shape. -/
def formatVariable : String := "AUTOAPI_LOG_FORMAT"

/-- The variable that asks for the place in the program. -/
def locationVariable : String := "AUTOAPI_LOG_INCLUDE_LOCATION"

/-- The settings that an environment chooses. -/
def ofEnvironment (env : Environment) : Settings where
  levelWord := (env.lookup levelVariable).getD ({} : Settings).levelWord
  format := Format.parse ((env.lookup formatVariable).getD "")
  includeLocation := env.lookup locationVariable == some "true"

/-- The level that is chosen; a word that names none chooses `info`. -/
def level (s : Settings) : Level := (Level.parse? s.levelWord).getD .info

end Settings

/-- What is said where a log is started and one has been started before. -/
def startedTwice : String := "Failed to initialize logging"

end FileRoutes.Log
