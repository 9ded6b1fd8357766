import FileRoutes.Decimal.Digits
import FileRoutes.Text.Split

/-!
# Options

A command line is read one argument after the other. An option is written with two dashes
and its name, or with one dash and its letter, and takes one value: behind an equals sign,
right behind the letter, or as the next argument. That value is looked at when the next
option comes or at the end, so that what is wrong with an argument behind it is told first.

## The model

* `OptionSpec`, `Level` — an option; the options and the subcommands that are known at some
  point of the command line.
* `UsageError` — what can be wrong with a command line, or be asked for instead.
* `Level.read` — reading the arguments of one level, up to a subcommand.
-/

namespace FileRoutes.Command

/-- What kind of value an option takes. -/
inductive ValueKind where
  /-- Any text. -/
  | word
  /-- A path, which is not empty. -/
  | path
  /-- A number of 64 bits. -/
  | number
deriving DecidableEq, Inhabited

/-- An option. -/
structure OptionSpec where
  /-- Its name behind two dashes. -/
  name : String
  /-- Its letter behind one dash, if it has one. -/
  letter : Option Char
  /-- What it takes. -/
  kind : ValueKind
deriving DecidableEq, Inhabited

/-- Why a command line is not carried out. -/
inductive UsageError where
  /-- Help is asked for. -/
  | help
  /-- Nothing is asked for, so that help is given. -/
  | nothingAsked
  /-- An argument that nothing takes. -/
  | unknownArgument
  /-- A subcommand that is none. -/
  | unknownSubcommand
  /-- There is no subcommand. -/
  | noSubcommand
  /-- An option without a value, or with an empty one that must not be. -/
  | noValue
  /-- A value of the wrong kind. -/
  | wrongValue
  /-- A value for something that takes none. -/
  | unneededValue
  /-- An option that is given twice. -/
  | repeatedOption
deriving DecidableEq, Inhabited

/-- What is known at some point of a command line. -/
structure Level where
  /-- The options. -/
  options : List OptionSpec
  /-- The names of the subcommands. -/
  subcommands : List String
deriving DecidableEq, Inhabited

/-- The values of options, by name. -/
abbrev Values := List (String × String)

/-- The option that waits to be taken, with its value if that has been read. -/
structure Pending where
  /-- The option. -/
  spec : OptionSpec
  /-- Its value. -/
  value : Option String
deriving DecidableEq, Inhabited

/-- What has been read of a level. -/
structure Reading where
  /-- The options that have been taken. -/
  values : Values := []
  /-- The option that has not yet been taken. -/
  pending : Option Pending := none
  /-- Whether two dashes alone have been read, behind which nothing is an option. -/
  plain : Bool := false
deriving DecidableEq, Inhabited

/-! ### Values -/

/-- The number that a text spells, if it has 64 bits at most. -/
def number? (s : String) : Option UInt64 :=
  let digits := match s.toList with
    | '+' :: ds => ds
    | ds => ds
  let n := Decimal.valueOf 10 digits
  if digits ≠ [] ∧ digits.all Char.isDigit ∧ n < Nat.pow 2 64 then some (UInt64.ofNat n) else none

/-- Whether a value is of a kind; the empty path counts as no value. -/
def ValueKind.check : ValueKind → String → Except UsageError Unit
  | word, _ => .ok ()
  | path, s => if s = "" then .error .noValue else .ok ()
  | number, s => if (number? s).isSome then .ok () else .error .wrongValue

namespace Reading

/-- Takes an option with its value. -/
def take (r : Reading) (spec : OptionSpec) (value : String) : Except UsageError Reading := do
  if (r.values.lookup spec.name).isSome then throw .repeatedOption
  spec.kind.check value
  return { r with values := r.values ++ [(spec.name, value)] }

/-- Takes the option that is pending. -/
def settle (r : Reading) : Except UsageError Reading :=
  match r.pending with
  | none => .ok r
  | some ⟨_, none⟩ => .error .noValue
  | some ⟨spec, some value⟩ => { r with pending := none }.take spec value

/-- Whether the next argument may be the value of an option. -/
def isWaiting (r : Reading) : Bool :=
  match r.pending with
  | some ⟨_, none⟩ => true
  | _ => false

/-- The reading with an option, whose value may come with it. -/
def option (r : Reading) (spec : OptionSpec) (attached : Option String) :
    Except UsageError Reading := do
  let r ← r.settle
  match attached with
  | some value => r.take spec value
  | none => return { r with pending := some ⟨spec, none⟩ }

/-- The end of a reading at a request for help. -/
def help (r : Reading) : Except UsageError Reading := do
  let _ ← r.settle
  throw .help

end Reading

/-! ### Arguments -/

/-- An argument as it is written. -/
inductive Argument where
  /-- Two dashes alone. -/
  | dashes
  /-- Two dashes, a name, and what stands behind an equals sign. -/
  | long (name : String) (attached : Option String)
  /-- A dash, a letter, and what stands behind it. -/
  | short (letter : Char) (attached : Option String)
  /-- Anything else. -/
  | plain
deriving DecidableEq, Inhabited

/-- The value that stands behind the letter of an option, an equals sign left out. -/
def attachedToLetter : List Char → Option String
  | [] => none
  | '=' :: cs => some (String.ofList cs)
  | cs => some (String.ofList cs)

/-- How an argument is written. -/
def Argument.ofText (s : String) : Argument :=
  match s.toList with
  | ['-', '-'] => dashes
  | '-' :: '-' :: cs =>
    match cs.dropWhile (· ≠ '=') with
    | [] => long (String.ofList cs) none
    | _ :: behind => long (String.ofList (cs.takeWhile (· ≠ '='))) (some (String.ofList behind))
  | '-' :: c :: cs => short c (attachedToLetter cs)
  | _ => plain

namespace Level

/-- What is wrong with an argument that is in nobody's place. -/
def stray (l : Level) (r : Reading) (argument : String) : UsageError :=
  if l.subcommands = [] ∨ (r.plain ∧ argument ∈ l.subcommands) then .unknownArgument
  else .unknownSubcommand

/-- The reading with an option by its name. -/
def long (l : Level) (r : Reading) (name : String) (attached : Option String) :
    Except UsageError Reading :=
  match l.options.find? fun o => o.name = name with
  | some spec => r.option spec attached
  | none =>
    if name = "help" then (if attached.isSome then .error .unneededValue else r.help)
    else .error .unknownArgument

/-- The reading with an option by its letter. -/
def short (l : Level) (r : Reading) (letter : Char) (attached : Option String) :
    Except UsageError Reading :=
  match l.options.find? fun o => o.letter = some letter with
  | some spec => r.option spec attached
  | none => if letter = 'h' then r.help else .error .unknownArgument

/-- The reading with an argument that names no subcommand. -/
def argument (l : Level) (r : Reading) (s : String) : Except UsageError Reading :=
  if r.plain then .error (l.stray r s)
  else
    match Argument.ofText s with
    | .dashes => .ok { r with plain := true }
    | .long name attached => l.long r name attached
    | .short letter attached => l.short r letter attached
    | .plain =>
      match r.pending with
      | some ⟨spec, none⟩ => .ok { r with pending := some ⟨spec, some s⟩ }
      | _ => .error (l.stray r s)

/-- Whether an argument is taken as a subcommand. -/
def isSubcommand (l : Level) (r : Reading) (s : String) : Bool :=
  !r.plain && !r.isWaiting && s ∈ l.subcommands

/-- Reads arguments up to a subcommand, which is given with those behind it. -/
def read (l : Level) (r : Reading) :
    List String → Except UsageError (Reading × Option (String × List String))
  | [] => .ok (r, none)
  | s :: rest =>
    if l.isSubcommand r s then .ok (r, some (s, rest))
    else do l.read (← l.argument r s) rest

end Level

end FileRoutes.Command
