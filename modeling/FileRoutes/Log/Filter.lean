import FileRoutes.Log.Settings
import FileRoutes.Text.Blank
import FileRoutes.Text.Split

/-!
# Filters

Which events are logged. A variable of the environment may hold a list of directives, each
of which sets the level of the events from the parts of the program whose name starts in a
certain way; the longest such name decides. Without the variable, or where one of its
directives cannot be read, the level of the settings holds for everything.

## The model

* `Threshold` — a level, or nothing at all.
* `Directive`, `Directive.parse?` — what one directive says.
* `Filter`, `Filter.admits` — the directives, and whether an event is logged.
-/

namespace FileRoutes.Log

/-- The gravest level that is still left out is one less grave than this; `none` leaves out
everything. -/
abbrev Threshold := Option Level

/-- Whether a threshold lets events of a level through. -/
def Threshold.admits (t : Threshold) (l : Level) : Bool := t.any fun limit => l.rank ≤ limit.rank

/-- The threshold that a word stands for. Levels are also numbered, and no word at all is the
gravest level. -/
def threshold? (s : String) : Option Threshold :=
  let digits := match s.toList with
    | '+' :: ds => ds
    | ds => ds
  if digits ≠ [] ∧ digits.all Char.isDigit then
    match (String.ofList digits).toNat? with
    | some 0 => some none
    | some n =>
      ([Level.error, .warn, .info, .debug, .trace].find? fun l => l.rank = n).map some
    | none => none
  else if s = "" then some (some .error)
  else if Text.lower s = "off" then some none
  else (Level.parse? s).map some

/-- What one directive says. -/
structure Directive where
  /-- How the names of the parts it is about start; every name starts with no text. -/
  target : Option String
  /-- The threshold for those parts. -/
  threshold : Threshold
  /-- Whether it is about certain contexts only, in which no event of the program is. -/
  contextual : Bool := false
deriving DecidableEq, Inhabited

namespace Directive

/-- Whether a directive may start with a character. -/
def canStart (c : Char) : Bool :=
  c == '-' || c == ':' || c == '_' || c == '[' || c.isAlphanum || 128 ≤ c.toNat

/-- The threshold behind an equals sign, where nothing lets everything through. -/
def levelPart? (s : String) : Option Threshold := if s = "" then some (some .trace) else threshold? s

/-- The directive about a context, its bracket open; what follows the bracket may set a level. -/
def contextual? (target : Option String) (inside : List Char) : Option Directive :=
  match inside.dropWhile (· ≠ ']') with
  | [] => none
  | _ :: behind =>
    match behind.dropWhile (· ≠ '=') with
    | [] => some ⟨target, some .trace, true⟩
    | _ :: level => (levelPart? (String.ofList level)).map fun t => ⟨target, t, true⟩

/-- The directive that a text spells. Blanks at its ends are no part of it when it is cut, but
they are not left out of the pieces. -/
def parse? (s : String) : Option Directive :=
  let cs := (Text.trim s).toList
  let cut := (cs.takeWhile fun c => c ≠ '=' && c ≠ '[').length
  let name := String.ofList (s.toList.take cut)
  let behind := s.toList.drop (cut + 1)
  if !cs.head?.any canStart then none
  else match cs.drop cut with
    | [] =>
      match threshold? s with
      | some t => some ⟨none, t, false⟩
      | none => some ⟨some s, some .trace, false⟩
    | c :: _ =>
      if c = '=' then (levelPart? (String.ofList behind)).map fun t => ⟨some name, t, false⟩
      else contextual? (if name = "" then none else some name) behind

/-- Whether a directive is about a part of the program. -/
def concerns (d : Directive) (part : String) : Bool :=
  !d.contextual && d.target.all fun t => t.toList.isPrefixOf part.toList

/-- How specific a directive is. -/
def weight (d : Directive) : Nat := (d.target.map fun t => t.utf8ByteSize + 1).getD 0

end Directive

/-- The directives of a log. -/
abbrev Filter := List Directive

namespace Filter

/-- The directive that decides among some: the most specific one, and of equal ones the last. -/
def decisive? (ds : List Directive) : Option Directive :=
  ds.foldl (fun best d => if best.all fun b => b.weight ≤ d.weight then some d else best) none

/-- Whether an event of a part of the program is logged. -/
def admits (f : Filter) (part : String) (l : Level) : Bool :=
  (decisive? (f.filter fun d => d.concerns part)).any fun d => d.threshold.admits l

/-- The filter of a level. -/
def ofLevel (l : Level) : Filter := [⟨none, some l, false⟩]

/-- The filter that a list of directives spells; an empty one lets errors through. -/
def parse? (s : String) : Option Filter := do
  let ds ← ((Text.split ',' s).filter (· ≠ "")).mapM Directive.parse?
  if ds = [] then return ofLevel .error else return ds

/-- The variable that holds directives. -/
def filterVariable : String := "RUST_LOG"

/-- The filter of some settings in an environment. -/
def ofSettings (env : Environment) (s : Settings) : Filter :=
  ((env.lookup filterVariable).bind parse?).getD (ofLevel s.level)

end Filter

end FileRoutes.Log
