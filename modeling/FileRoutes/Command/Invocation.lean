import FileRoutes.Command.Options
import FileRoutes.Log.Settings
import FileRoutes.Path.Basic

/-!
# Invocations

What a command line asks for. The options of the log may stand before the subcommand and
behind it, where they count more; without them the environment decides.

## The model

* `Task`, `Invocation` — what is to be done, and how it is logged.
* `Invocation.parse` — the invocation that a command line spells.
-/

namespace FileRoutes.Command

/-- What is to be done. -/
inductive Task where
  /-- Generate once. -/
  | generate (root : Path) (out : Option Path)
  /-- Generate, and again after each change. -/
  | watch (root : Path) (out : Option Path) (quietMilliseconds : UInt64)
deriving DecidableEq, Inhabited

/-- A task and the settings of the log. -/
structure Invocation where
  /-- The task. -/
  task : Task
  /-- The settings of the log. -/
  log : Log.Settings
deriving DecidableEq, Inhabited

/-! ### Options -/

/-- The level of the log. -/
def levelOption : OptionSpec := ⟨"log-level", none, .word⟩

/-- The shape of the log. -/
def formatOption : OptionSpec := ⟨"log-format", none, .word⟩

/-- The root of the project. -/
def rootOption : OptionSpec := ⟨"root", some 'r', .path⟩

/-- The output directory. -/
def outOption : OptionSpec := ⟨"out", some 'o', .path⟩

/-- The quiet period that ends a batch of changes, in milliseconds. -/
def quietOption : OptionSpec := ⟨"debounce-ms", none, .number⟩

/-- The options of the log. -/
def logOptions : List OptionSpec := [levelOption, formatOption]

/-- The root of a project where none is given. -/
def defaultRoot : String := "."

/-- The quiet period where none is given. -/
def defaultQuiet : UInt64 := 300

/-- The subcommand that generates once. -/
def generateName : String := "generate"

/-- The subcommand that watches. -/
def watchName : String := "watch"

/-- The subcommand that gives help. -/
def helpName : String := "help"

/-- The start of a command line. -/
def startLevel : Level := ⟨logOptions, [generateName, watchName, helpName]⟩

/-- The options of a task. -/
def taskOptions (name : String) : List OptionSpec :=
  [rootOption, outOption] ++ (if name = watchName then [quietOption] else []) ++ logOptions

/-! ### Reading -/

/-- What a request for help on some subcommands comes to. -/
def helpOutcome : List String → UsageError
  | [] => .help
  | [name] => if name ∈ startLevel.subcommands then .help else .unknownSubcommand
  | _ => .unknownSubcommand

/-- Reads the options of a task. -/
def readTask (name : String) (arguments : List String) : Except UsageError Values := do
  let (r, _) ← Level.read ⟨taskOptions name, []⟩ {} arguments
  return (← r.settle).values

/-- The task of a subcommand with its options. -/
def taskOf (name : String) (values : Values) : Task :=
  let root : Path := ⟨(values.lookup rootOption.name).getD defaultRoot⟩
  let out := (values.lookup outOption.name).map Path.mk
  if name = watchName then
    .watch root out (((values.lookup quietOption.name).bind number?).getD defaultQuiet)
  else .generate root out

/-- The settings of the log: from the options, the last ones first, or from the environment. -/
def logSettings (env : Log.Environment) (inner outer : Values) : Log.Settings :=
  let fromEnvironment := Log.Settings.ofEnvironment env
  let given (o : OptionSpec) : Option String := (inner.lookup o.name).or (outer.lookup o.name)
  { fromEnvironment with
    levelWord := (given levelOption).getD fromEnvironment.levelWord
    format := ((given formatOption).map Log.Format.parse).getD fromEnvironment.format }

/-- What is wrong with a command line without a subcommand. -/
def withoutTask (env : Log.Environment) (values : Values) : UsageError :=
  let names := [Log.Settings.levelVariable, Log.Settings.formatVariable]
  if values = [] ∧ names.all fun v => (env.lookup v).isNone then .nothingAsked
  else .noSubcommand

/-- The invocation that the arguments spell, with the variables of the environment. -/
def Invocation.parse (env : Log.Environment) (arguments : List String) :
    Except UsageError Invocation := do
  match ← startLevel.read {} arguments with
  | (r, none) => throw (withoutTask env (← r.settle).values)
  | (r, some (name, rest)) =>
    if name = helpName then throw (helpOutcome rest)
    let inner ← readTask name rest
    let outer := (← r.settle).values
    return ⟨taskOf name inner, logSettings env inner outer⟩

end FileRoutes.Command
