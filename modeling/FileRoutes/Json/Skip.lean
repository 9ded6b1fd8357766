import FileRoutes.Json.Text
import FileRoutes.Json.Number

/-!
# Skipping JSON

A member of an object that nobody asks for is skipped: its text has to be JSON, but a
number may be out of range, and half of a surrogate pair may stand alone. The brackets that
are open are kept in a list, so that a value may be nested as deeply as it likes.
-/

namespace FileRoutes.Json

/-- A bracket that is open. -/
inductive Bracket where
  /-- The bracket of a list. -/
  | square
  /-- The bracket of an object. -/
  | curly
deriving DecidableEq, Inhabited

namespace Bracket

/-- The character that closes a bracket. -/
def closing : Bracket → Char
  | square => ']'
  | curly => '\x7d'

/-- What is wrong where the text ends inside a bracket. -/
def endCause : Bracket → Cause
  | square => .endInList
  | curly => .endInObject

/-- What is wrong where neither a comma nor the end follows a value. -/
def commaCause : Bracket → Cause
  | square => .noListComma
  | curly => .noObjectComma

end Bracket

namespace Reader

/-- Moves over a colon between a name and its value. -/
def colon : Reader Unit := do
  match ← peekToken with
  | some ':' => skip
  | some _ => failAhead .noColon
  | none => failAhead .endInObject

/-- Moves over digits, of which one at least has to be there. -/
def skipDigits : Reader Unit := do
  if (← digits) = [] then failAhead .invalidNumber

/-- Moves over an exponent, if there is one. -/
def skipExponent : Reader Unit := do
  match ← peek with
  | some 'e' | some 'E' =>
    skip
    let _ ← exponentSign
    skipDigits
  | _ => pure ()

/-- Moves over a number, its first digit ahead. -/
def skipUnsigned : Reader Unit := do
  match ← peek with
  | some '0' =>
    skip
    match ← peek with
    | some c => if isDigit c then failAhead .invalidNumber
    | none => pure ()
  | _ => skipDigits
  match ← peek with
  | some '.' =>
    skip
    skipDigits
  | _ => pure ()
  skipExponent

/-- Moves over a name and the colon behind it. -/
def skipName : Reader Unit := do
  match ← peekToken with
  | some '"' => skipQuoted
  | some _ => failAhead .nameNoText
  | none => failAhead .endInObject
  colon

/-- Moves to where the next value starts inside an open bracket. -/
def enter : Bracket → Reader Unit
  | .square => pure ()
  | .curly => skipName

/-- Moves on behind a value, or behind an opening bracket: closes the brackets that close here
and moves to the next value inside the innermost one that does not. Gives the brackets that
are open then; with none of them, the outermost value is over. -/
def afterValue : List Bracket → Bool → Reader (List Bracket)
  | [], _ => return []
  | bracket :: outer, isOpening => do
    match ← peekToken with
    | none => failAhead bracket.endCause
    | some c =>
      if c = bracket.closing then
        skip
        afterValue outer false
      else if isOpening then
        enter bracket
        return bracket :: outer
      else if c = ',' then
        skip
        enter bracket
        return bracket :: outer
      else failAhead bracket.commaCause

/-- Moves over a value or the start of one; gives the bracket it opens, if it does. -/
def valueStart : Reader (Option Bracket) := do
  match ← peekToken with
  | none => failAhead .endBeforeValue
  | some 'n' =>
    skip
    restOfWord "ull".toList
    return none
  | some 't' =>
    skip
    restOfWord "rue".toList
    return none
  | some 'f' =>
    skip
    restOfWord "alse".toList
    return none
  | some '-' =>
    skip
    skipUnsigned
    return none
  | some '"' =>
    skipQuoted
    return none
  | some '[' =>
    skip
    return some .square
  | some '\x7b' =>
    skip
    return some .curly
  | some c =>
    if isDigit c then
      skipUnsigned
      return none
    else failAhead .noValue

/-- Moves over values until the open brackets are closed; `fuel` bounds the number of values. -/
def skipWithin : Nat → List Bracket → Reader Unit
  | 0, _ => failAhead .endBeforeValue
  | fuel + 1, outer => do
    let isOpen ←
      match ← valueStart with
      | some bracket => afterValue (bracket :: outer) true
      | none => afterValue outer false
    if isOpen ≠ [] then skipWithin fuel isOpen

/-- Moves over a value. -/
def skipValue : Reader Unit := do skipWithin (← stepBound) []

end Reader

end FileRoutes.Json
