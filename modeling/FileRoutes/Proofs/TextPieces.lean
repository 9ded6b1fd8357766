import FileRoutes.Proofs.LiteralGrammar
import FileRoutes.Script.Quoted
import Mathlib.Data.List.Induction
import Mathlib.Tactic.SplitIfs

/-!
# The pieces of a text

The language gives a text a row of UTF-16 units, piece by piece: plain characters, escapes and
lines that go on. What the reader cuts out of the text it decodes into characters, escape by
escape. Here the two are compared, wherever the text stands.

## The model

* `unitsOf`, `utf16` — the units of a number and of characters.
* `Piece`, `Piece.units` — the pieces of a text and the units they denote in the language.
* `SourceText` — a text or template without holes, as strict code may hold it.
* `kept`, `Piece.read` — the pieces that are not lost, and the characters that are read for them.
* `Renders` — whether parts are decoded as the pieces are read.
* `SourceText.Faithful` — no escape is half of a pair, no line of a template ends with a carriage
  return, and no escape takes the end of a line that stands behind it along.

## What is proved

* `utf16_injective` — the units of characters tell the characters.
* `writtenAll_injective` — what is written tells the pieces.
* `exists_escape` — where an escape ends for the reader, and what it is decoded as.
* `flatMap_characters_eq_iff` — when what is read is what is denoted.
* `decodeParts_renders_iff` — parts that are decoded as the pieces are read give the string that is
  denoted exactly if the text is faithful.
-/

namespace FileRoutes.Script

/-! ### UTF-16 -/

/-- The units of a number: the number itself, or a pair of surrogates where it takes two. -/
def unitsOf (n : Nat) : List Nat :=
  if n < 0x10000 then [n] else [0xD800 + (n - 0x10000) / 0x400, 0xDC00 + (n - 0x10000) % 0x400]

/-- The units of some characters. -/
def utf16 (cs : List Char) : List Nat := cs.flatMap fun c => unitsOf c.toNat

/-- Whether a number is that of a surrogate, half of a pair. -/
def IsSurrogate (n : Nat) : Prop := 0xD800 ≤ n ∧ n ≤ 0xDFFF

/-- No character has the number of a surrogate, or one beyond the last plane. -/
theorem toNat_range (c : Char) : ¬ IsSurrogate c.toNat ∧ c.toNat ≤ 0x10FFFF := by
  have hvalid : c.toNat < 0xD800 ∨ 0xDFFF < c.toNat ∧ c.toNat < 0x110000 := c.valid
  unfold IsSurrogate
  omega

theorem utf16_append (cs ds : List Char) : utf16 (cs ++ ds) = utf16 cs ++ utf16 ds :=
  List.flatMap_append

/-- The first units of a row tell its first character. -/
theorem unitsOf_append_inj {m n : Nat} {us vs : List Nat} (hm : ¬ IsSurrogate m ∧ m ≤ 0x10FFFF)
    (hn : ¬ IsSurrogate n ∧ n ≤ 0x10FFFF) (h : unitsOf m ++ us = unitsOf n ++ vs) :
    m = n ∧ us = vs := by
  unfold IsSurrogate at hm hn
  unfold unitsOf at h
  split at h <;> split at h <;> simp only [List.cons_append, List.nil_append, List.cons.injEq] at h
  · exact h
  · omega
  · omega
  · obtain ⟨hhigh, hlow, hrest⟩ := h
    exact ⟨by omega, hrest⟩

/-- The units of characters tell the characters. -/
theorem utf16_injective {cs ds : List Char} (h : utf16 cs = utf16 ds) : cs = ds := by
  have hpos : ∀ n, unitsOf n ≠ [] := by
    intro n
    unfold unitsOf
    split <;> simp
  induction cs generalizing ds with
  | nil =>
    cases ds with
    | nil => rfl
    | cons d ds => simp [utf16, hpos] at h
  | cons c cs ih =>
    cases ds with
    | nil => simp [utf16, hpos] at h
    | cons d ds =>
      obtain ⟨hcd, hrest⟩ := unitsOf_append_inj (toNat_range c) (toNat_range d) h
      rw [Char.toNat_inj.1 hcd, ih hrest]

/-! ### Texts as the language has them -/

/-- What a text stands between. -/
inductive Quote where
  /-- Single quotes. -/
  | single
  /-- Double quotes. -/
  | double
  /-- Backticks, as around a template. -/
  | tick
deriving DecidableEq

/-- The character of a quote. -/
def Quote.char : Quote → Char
  | single => '\''
  | double => '"'
  | tick => '\x60'

/-- How the end of a line is written. -/
inductive LineEnd where
  /-- A line feed. -/
  | feed
  /-- A carriage return. -/
  | carriage
  /-- A carriage return and a line feed. -/
  | both
  /-- The separator of lines. -/
  | line
  /-- The separator of paragraphs. -/
  | paragraph
deriving DecidableEq

/-- The characters of the end of a line. -/
def LineEnd.written : LineEnd → List Char
  | feed => ['\n']
  | carriage => ['\r']
  | both => ['\r', '\n']
  | line => ['\u2028']
  | paragraph => ['\u2029']

/-- A piece of a text. -/
inductive Piece where
  /-- A character that stands for itself. -/
  | plain (c : Char)
  /-- The end of a line of a template that is written with a carriage return, and with a line feed
  behind it or without. -/
  | carriage (feed : Bool)
  /-- A backslash before a character that starts no number and ends no line. -/
  | simple (c : Char)
  /-- `\x` and two digits. -/
  | byte (digits : List Char)
  /-- `\u` and four digits. -/
  | unit (digits : List Char)
  /-- `\u` and digits between braces. -/
  | braced (digits : List Char)
  /-- A backslash before the end of a line. -/
  | continuation (e : LineEnd)
deriving DecidableEq

namespace Piece

/-- What a piece has behind its backslash, if it is an escape. -/
def body : Piece → List Char
  | plain _ | carriage _ => []
  | simple c => [c]
  | byte digits => 'x' :: digits
  | unit digits => 'u' :: digits
  | braced digits => 'u' :: '\x7b' :: (digits ++ ['\x7d'])
  | continuation e => e.written

/-- A piece as it is written. -/
def written : Piece → List Char
  | plain c => [c]
  | carriage feed => '\r' :: (if feed then ['\n'] else [])
  | p => '\\' :: p.body

/-- The character that a character with a backslash stands for. -/
def simpleCharacter : Char → Char
  | 'n' => '\n'
  | 't' => '\t'
  | 'r' => '\r'
  | 'b' => '\x08'
  | 'f' => '\x0c'
  | 'v' => '\x0b'
  | '0' => '\x00'
  | c => c

/-- The number that an escape by number spells. -/
def number? : Piece → Option Nat
  | byte digits | unit digits | braced digits => some (Decimal.valueOf 16 digits)
  | _ => none

/-- The units that a piece denotes. However the end of a line of a template is written, it
denotes a line feed. -/
def units : Piece → List Nat
  | plain c => unitsOf c.toNat
  | carriage _ => unitsOf '\n'.toNat
  | simple c => unitsOf (simpleCharacter c).toNat
  | byte digits | unit digits | braced digits => unitsOf (Decimal.valueOf 16 digits)
  | continuation _ => []

/-- Whether a piece may stand between quotes before a character. An octal escape is none of strict
code, and a carriage return and a line feed are one end of a line. -/
def Fits (quote : Quote) (next : Char) : Piece → Prop
  | plain c => c ≠ quote.char ∧ c ≠ '\\' ∧ c ≠ '\r' ∧
      if quote = .tick then ¬ (c = '$' ∧ next = '\x7b') else c ≠ '\n'
  | carriage feed => quote = .tick ∧ (feed = false → next ≠ '\n')
  | simple c => c ≠ 'x' ∧ c ≠ 'u' ∧ isCommentEnd c = false ∧
      (c.isDigit → c = '0' ∧ next.isDigit = false)
  | byte digits => digits.length = 2 ∧ digits.all isHexDigit
  | unit digits => digits.length = 4 ∧ digits.all isHexDigit
  | braced digits => digits ≠ [] ∧ digits.all isHexDigit ∧ Decimal.valueOf 16 digits ≤ 0x10FFFF
  | continuation e => e = .carriage → next ≠ '\n'

end Piece

/-- Some pieces as they are written. -/
def writtenAll (ps : List Piece) : List Char := ps.flatMap Piece.written

/-- The first character of some pieces; that of the closing quote where there are none. -/
def firstOf (quote : Quote) (ps : List Piece) : Char := (writtenAll ps).headD quote.char

/-- Whether pieces may stand between quotes, one after the other. -/
def FitAll (quote : Quote) : List Piece → Prop
  | [] => True
  | p :: ps => p.Fits quote (firstOf quote ps) ∧ FitAll quote ps

/-- A text or a template without holes, as strict code may hold it. -/
structure SourceText where
  /-- What it stands between. -/
  quote : Quote
  /-- Its pieces. -/
  pieces : List Piece
  /-- The pieces are such that they may stand there. -/
  fit : FitAll quote pieces

namespace SourceText

/-- A text as it is written, with its quotes. -/
def written (t : SourceText) : List Char :=
  t.quote.char :: (writtenAll t.pieces ++ [t.quote.char])

/-- The units that a text denotes. -/
def units (t : SourceText) : List Nat := t.pieces.flatMap Piece.units

end SourceText

/-! ### What is read of the pieces -/

namespace Piece

/-- Whether a piece is written with a backslash. -/
def isEscape : Piece → Bool
  | plain _ | carriage _ => false
  | _ => true

/-- Whether an escape is read together with the end of a line that stands behind it. -/
def isGreedy : Piece → Bool
  | simple c => c == '?'
  | continuation e => e == .carriage
  | _ => false

/-- Whether a piece ends a line and is no escape. -/
def isBreak : Piece → Bool
  | plain c => isLineBreak c
  | _ => false

/-- Whether a piece is the end of a line with a carriage return. -/
def isCarriage : Piece → Bool
  | carriage _ => true
  | _ => false

/-- Whether a piece is read together with the piece behind it. -/
def swallows (p q : Piece) : Bool := p.isGreedy && q.isBreak

/-- Whether a piece denotes characters: an escape by number is no half of a pair. -/
def Denotes (p : Piece) : Prop := ∀ n ∈ p.number?, ¬ IsSurrogate n

/-- The characters that a piece denotes in the language, if it denotes characters. -/
def characters : Piece → List Char
  | plain c => [c]
  | carriage _ => ['\n']
  | simple c => [simpleCharacter c]
  | byte digits | unit digits | braced digits => [Char.ofNat (Decimal.valueOf 16 digits)]
  | continuation _ => []

/-- The characters that are read for a piece. -/
def read : Piece → List Char
  | carriage feed => (carriage feed).written
  | p => p.characters

end Piece

/-- The pieces that are left where the end of a line behind a greedy escape is lost. -/
def kept : List Piece → List Piece
  | [] => []
  | [p] => [p]
  | p :: q :: ps => if p.swallows q then p :: kept ps else p :: kept (q :: ps)

/-- Whether parts are decoded as the pieces are read. -/
def Renders (parts : List TextPart) (ps : List Piece) : Prop :=
  ∀ cs, decodeParts parts = .ok cs ↔
    (∀ p ∈ ps, p.Denotes) ∧ cs = (kept ps).flatMap Piece.read

theorem isHexDigit_iff {c : Char} :
    isHexDigit c ↔ (48 ≤ c.toNat ∧ c.toNat ≤ 57) ∨ (97 ≤ c.toNat ∧ c.toNat ≤ 102) ∨
      (65 ≤ c.toNat ∧ c.toNat ≤ 70) := by
  simp only [isHexDigit, Char.isDigit, Bool.or_eq_true, Bool.and_eq_true, decide_eq_true_eq,
    Char.le_def, UInt32.le_iff_toNat_le, or_assoc, ge_iff_le]
  rfl

theorem digitValue_lt {c : Char} (h : isHexDigit c) : (Decimal.digitValue? c).getD 0 < 16 := by
  rw [isHexDigit_iff] at h
  have hle : ∀ a b : Char, a ≤ b ↔ a.toNat ≤ b.toNat := fun _ _ => Iff.rfl
  simp only [Decimal.digitValue?, hle, Char.reduceToNat]
  split_ifs <;> simp only [Option.getD_some, Option.getD_none] <;> omega

theorem valueOf_lt {digits : List Char} (h : digits.all isHexDigit) :
    Decimal.valueOf 16 digits < 16 ^ digits.length := by
  induction digits using List.reverseRecOn with
  | nil => decide
  | append_singleton digits c ih =>
    simp only [List.all_append, List.all_cons, List.all_nil, Bool.and_true, Bool.and_eq_true] at h
    have hdigits := ih h.1
    have hc := digitValue_lt h.2
    simp only [Decimal.valueOf, List.foldl_append, List.foldl_cons, List.foldl_nil,
      List.length_append, List.length_singleton, Nat.pow_succ] at hdigits ⊢
    omega

/-- Digits end at a brace. -/
theorem takeWhile_digits {digits : List Char} (hall : digits.all isHexDigit) (rest : List Char) :
    (digits ++ '\x7d' :: rest).takeWhile isHexDigit = digits := by
  rw [List.takeWhile_append_of_pos (List.all_eq_true.1 hall),
    List.takeWhile_cons_of_neg (by decide), List.append_nil]

/-- No digit is a brace. -/
theorem append_ne_brace {digits : List Char} (hlength : 0 < digits.length)
    (hall : digits.all isHexDigit) (tail cs : List Char) : digits ++ tail ≠ '\x7b' :: cs := by
  intro hcs
  cases digits with
  | nil => contradiction
  | cons d ds =>
    obtain ⟨rfl, -⟩ := List.cons.inj hcs
    simp [isHexDigit] at hall

namespace Piece

variable {p : Piece} {quote : Quote} {next : Char}

/-- A piece that is no escape by number denotes characters. -/
theorem denotes_of_number (h : p.number? = none) : p.Denotes := by
  intro n hn
  rw [h] at hn
  contradiction

/-- The number of an escape is at most that of the last plane. -/
theorem number_le (h : p.Fits quote next) : ∀ n ∈ p.number?, n ≤ 0x10FFFF := by
  have hshort : ∀ digits : List Char, digits.length ≤ 4 → digits.all isHexDigit →
      Decimal.valueOf 16 digits ≤ 0x10FFFF := by
    intro digits hlength hall
    calc Decimal.valueOf 16 digits
      _ ≤ 16 ^ digits.length := (valueOf_lt hall).le
      _ ≤ 16 ^ 4 := Nat.pow_le_pow_right (by decide) hlength
      _ ≤ 0x10FFFF := by decide
  cases p with
  | byte digits | unit digits =>
    rintro n ⟨⟩
    exact hshort digits (by simp [h.1]) h.2
  | braced digits =>
    rintro n ⟨⟩
    exact h.2.2
  | _ => rintro n ⟨⟩

theorem isDigit_of_isOctalDigit {c : Char} (h : isOctalDigit c = true) : c.isDigit = true := by
  simp only [isOctalDigit, Char.isDigit, Bool.and_eq_true, decide_eq_true_eq, Char.le_def,
    UInt32.le_iff_toNat_le, ge_iff_le] at h ⊢
  exact ⟨h.1, h.2.trans (by decide)⟩

/-- A character behind a backslash that starts no number is taken alone, or with the end of a line
behind it. -/
theorem escapeLength_of_ne {c : Char} (hx : c ≠ 'x') (hu : c ≠ 'u')
    (hoctal : isOctalDigit c = true → isOctalDigit next = false) (tail : List Char) :
    escapeLength? (c :: next :: tail) =
      some (if (c = '\r' ∨ c = '?') ∧ isLineBreak next then 2 else 1) := by
  rw [escapeLength?.eq_5 _ _ hx (fun _ h _ => hu h) hu]
  simp only [List.head?_cons, Option.any_some, List.take_succ_cons, List.takeWhile_cons]
  split_ifs with hgreedy hc hnext
  · rfl
  · simp [hoctal hc] at hnext
  · rfl
  · rfl

/-- An escape is as long as it is written, or by the end of a line longer. -/
theorem escapeLength_body (hescape : p.isEscape) (h : p.Fits quote next) (tail : List Char) :
    escapeLength? (p.body ++ next :: tail) =
      some (p.body.length + if p.isGreedy && isLineBreak next then 1 else 0) := by
  cases p with
  | plain c => contradiction
  | carriage feed => contradiction
  | simple c =>
    obtain ⟨hx, hu, hend, hdigit⟩ := h
    have hoctal : isOctalDigit c = true → isOctalDigit next = false := by
      intro hc
      have hnext := (hdigit (isDigit_of_isOctalDigit hc)).2
      exact Bool.eq_false_iff.2 fun hoctal => by
        simp [isDigit_of_isOctalDigit hoctal] at hnext
    have hcr : c ≠ '\r' := by
      rintro rfl
      contradiction
    simp only [body, List.cons_append, List.nil_append, escapeLength_of_ne hx hu hoctal, isGreedy]
    by_cases hc : c = '?' <;> cases isLineBreak next <;> simp [hc, hcr]
  | byte digits =>
    obtain ⟨hlength, hall⟩ := h
    simp [body, escapeLength?, hexLength?, isGreedy, hlength, hall]
  | unit digits =>
    obtain ⟨hlength, hall⟩ := h
    rw [body, List.cons_append, escapeLength?.eq_4 _ (append_ne_brace (by simp [hlength]) hall _)]
    simp [hexLength?, isGreedy, hlength, hall]
  | braced digits =>
    obtain ⟨hne, hall, -⟩ := h
    simp [body, escapeLength?, isGreedy, takeWhile_digits hall, hne]
  | continuation e =>
    cases e with
    | both => rfl
    | feed | carriage | line | paragraph =>
      simp only [body, LineEnd.written, List.cons_append, List.nil_append, isGreedy]
      rw [escapeLength_of_ne (by decide) (by decide) (fun h => by contradiction)]
      cases isLineBreak next <;> decide

/-- An escape by number is decoded exactly if it is no half of a pair. -/
theorem decodeEscape_number {digits : List Char} (hbody : escapeDigits? p.body = some digits)
    (hnumber : p.number? = some (Decimal.valueOf 16 digits))
    (hread : p.read = [Char.ofNat (Decimal.valueOf 16 digits)]) (h : p.Fits quote next)
    (cs : List Char) : decodeEscape p.body = .ok cs ↔ p.Denotes ∧ cs = p.read := by
  have hle := number_le h _ hnumber
  have hvalid : (Decimal.valueOf 16 digits).isValidChar ↔ p.Denotes := by
    simp only [Denotes, hnumber, Option.mem_some_iff, forall_eq', IsSurrogate, Nat.isValidChar]
    omega
  rw [decodeEscape_of_digits hbody, ← hvalid, hread, characterOf?, Char.ofNat]
  by_cases hv : (Decimal.valueOf 16 digits).isValidChar
  · rw [dif_pos hv, dif_pos hv, and_iff_right hv]
    exact ⟨fun he => (Except.ok.inj he).symm, fun he => congrArg Except.ok he.symm⟩
  · rw [dif_neg hv]
    exact iff_of_false (by rintro ⟨⟩) fun he => hv he.1

/-- An escape is decoded exactly if it is no half of a pair. -/
theorem decodeEscape_body (hescape : p.isEscape) (h : p.Fits quote next) (cs : List Char) :
    decodeEscape p.body = .ok cs ↔ p.Denotes ∧ cs = p.read := by
  cases p with
  | plain c => contradiction
  | carriage feed => contradiction
  | byte digits => exact decodeEscape_number rfl rfl rfl h cs
  | unit digits =>
    have hbrace := append_ne_brace (by simp [h.1]) h.2 []
    rw [List.append_nil] at hbrace
    exact decodeEscape_number (p := unit digits) (escapeDigits?.eq_3 _ hbrace) rfl rfl h cs
  | braced digits => exact decodeEscape_number (by simp [body, escapeDigits?]) rfl rfl h cs
  | simple c =>
    have hdenotes : (simple c).Denotes := denotes_of_number rfl
    obtain ⟨hx, hu, hend, -⟩ := h
    have hdecode : decodeEscape [c] = .ok [simpleCharacter c] := by
      unfold simpleCharacter
      split
      any_goals rfl
      rw [decodeEscape.eq_def]
      simp [isCommentEnd, isLineBreak, isSeparator] at hend
      grind
    simp [hdenotes, body, hdecode, read, characters, eq_comm]
  | continuation e =>
    have hdenotes : (continuation e).Denotes := denotes_of_number rfl
    cases e <;> simp [hdenotes, body, LineEnd.written, decodeEscape, read, characters, eq_comm]

/-- The character that a greedy escape takes along is lost. -/
theorem decodeEscape_greedy (hgreedy : p.isGreedy) (c : Char) (cs : List Char) :
    decodeEscape (p.body ++ [c]) = .ok cs ↔ p.Denotes ∧ cs = p.read := by
  have hdecode : decodeEscape (p.body ++ [c]) = .ok p.read ∧ p.Denotes := by
    cases p with
    | simple mark =>
      obtain rfl : mark = '?' := by simpa [isGreedy] using hgreedy
      exact ⟨rfl, denotes_of_number rfl⟩
    | continuation e =>
      obtain rfl : e = .carriage := by simpa [isGreedy] using hgreedy
      exact ⟨rfl, denotes_of_number rfl⟩
    | _ => contradiction
  simp [hdecode.1, hdecode.2, eq_comm]

end Piece

/-! ### From pieces to parts -/

theorem kept_cons {p : Piece} {ps : List Piece} (h : ∀ q ∈ ps.head?, p.swallows q = false) :
    kept (p :: ps) = p :: kept ps := by
  cases ps with
  | nil => rfl
  | cons q ps => rw [kept, h q rfl, if_neg (by decide)]

theorem kept_cons_cons {p q : Piece} {ps : List Piece} (h : p.swallows q = true) :
    kept (p :: q :: ps) = p :: kept ps := by
  rw [kept, if_pos h]

theorem kept_cons_of_not_escape {p : Piece} {ps : List Piece} (h : p.isEscape = false) :
    kept (p :: ps) = p :: kept ps := by
  refine kept_cons fun q _ => ?_
  cases p <;> first | rfl | contradiction

/-- The first character tells whether an end of a line comes first. -/
theorem isLineBreak_firstOf (quote : Quote) (ps : List Piece) :
    isLineBreak (firstOf quote ps) = ps.head?.any Piece.isBreak := by
  cases ps with
  | nil => cases quote <;> rfl
  | cons p ps => cases p <;> rfl

/-- What is written from some pieces on starts with their first character. -/
theorem exists_firstOf_cons (quote : Quote) (ps : List Piece) (rest : List Char) :
    ∃ tail, writtenAll ps ++ quote.char :: rest = firstOf quote ps :: tail := by
  unfold firstOf
  cases writtenAll ps with
  | nil => exact ⟨rest, rfl⟩
  | cons c cs => exact ⟨cs ++ quote.char :: rest, rfl⟩

namespace Renders

variable {parts rest : List TextPart} {ps : List Piece}

theorem nil : Renders [] [] := by
  intro cs
  simp [decodeParts, kept, eq_comm]

/-- Plain characters are read as they are written. -/
theorem plain {p : Piece} (hplain : p.isEscape = false) (h : Renders rest ps)
    (hparts : decodeParts parts = (p.written ++ ·) <$> decodeParts rest) :
    Renders parts (p :: ps) := by
  intro cs
  have hread : p.Denotes ∧ p.read = p.written := by
    cases p with
    | plain c => exact ⟨Piece.denotes_of_number rfl, rfl⟩
    | carriage feed => exact ⟨Piece.denotes_of_number rfl, rfl⟩
    | _ => contradiction
  rw [hparts, map_ok_iff, kept_cons_of_not_escape hplain, List.flatMap_cons, hread.2]
  simp only [h _, List.forall_mem_cons, hread.1, true_and]
  constructor
  · rintro ⟨ds, ⟨hps, rfl⟩, rfl⟩
    exact ⟨hps, rfl⟩
  · rintro ⟨hps, rfl⟩
    exact ⟨_, ⟨hps, rfl⟩, rfl⟩

/-- An escape is read as its body is decoded. What stands behind the escape may lose pieces that
denote characters. -/
theorem escape {p : Piece} {body : List Char} {whole : List Piece} (h : Renders rest ps)
    (hdecode : ∀ cs, decodeEscape body = .ok cs ↔ p.Denotes ∧ cs = p.read)
    (hwhole : (∀ q ∈ whole, q.Denotes) ↔ ∀ q ∈ ps, q.Denotes)
    (hkept : kept (p :: whole) = p :: kept ps) : Renders (.escape body :: rest) (p :: whole) := by
  intro cs
  rw [hkept, decodeParts_escape_ok_iff, List.flatMap_cons]
  simp only [h _, hdecode, List.forall_mem_cons, hwhole]
  constructor
  · rintro ⟨_, _, ⟨hp, rfl⟩, ⟨hps, rfl⟩, rfl⟩
    exact ⟨⟨hp, hps⟩, rfl⟩
  · rintro ⟨⟨hp, hps⟩, rfl⟩
    exact ⟨_, _, ⟨hp, rfl⟩, ⟨hps, rfl⟩, rfl⟩

end Renders

theorem FitAll.of_append {quote : Quote} {qs ps : List Piece} (h : FitAll quote (qs ++ ps)) :
    FitAll quote ps := by
  induction qs with
  | nil => exact h
  | cons q qs ih => exact ih h.2

theorem Piece.written_of_isEscape {p : Piece} (h : p.isEscape) : p.written = '\\' :: p.body := by
  cases p <;> first | rfl | contradiction

/-- What is read of an escape: its body, and the end of a line behind a greedy one. -/
theorem exists_escape {p : Piece} {quote : Quote} {ps : List Piece} (hescape : p.isEscape)
    (hfit : p.Fits quote (firstOf quote ps)) (rest : List Char) :
    ∃ qs ps' body, ps = qs ++ ps' ∧
      p.body ++ (writtenAll ps ++ quote.char :: rest) =
        body ++ (writtenAll ps' ++ quote.char :: rest) ∧
      escapeLength? (body ++ (writtenAll ps' ++ quote.char :: rest)) = some body.length ∧
      ∀ parts, Renders parts ps' → Renders (.escape body :: parts) (p :: ps) := by
  obtain ⟨tail, htail⟩ := exists_firstOf_cons quote ps rest
  have hlength := Piece.escapeLength_body hescape hfit tail
  rw [← htail] at hlength
  cases hgreedy : p.isGreedy && isLineBreak (firstOf quote ps) with
  | false =>
    refine ⟨[], ps, p.body, rfl, rfl, by simpa [hgreedy] using hlength, fun parts h => ?_⟩
    refine h.escape (p.decodeEscape_body hescape hfit) Iff.rfl (kept_cons fun q hq => ?_)
    rw [isLineBreak_firstOf, hq] at hgreedy
    exact hgreedy
  | true =>
    rw [hgreedy, if_pos rfl] at hlength
    rw [isLineBreak_firstOf, Bool.and_eq_true, Option.any_eq_true] at hgreedy
    obtain ⟨hgreedy, q, hq, hbreak⟩ := hgreedy
    obtain ⟨ps', rfl⟩ : ∃ ps', ps = q :: ps' := List.head?_eq_some_iff.1 hq
    obtain ⟨c, rfl⟩ : ∃ c, q = .plain c := by
      cases q <;> first | exact ⟨_, rfl⟩ | contradiction
    have hcons : p.body ++ (writtenAll (.plain c :: ps') ++ quote.char :: rest) =
        (p.body ++ [c]) ++ (writtenAll ps' ++ quote.char :: rest) := by
      simp [writtenAll, Piece.written]
    refine ⟨[.plain c], ps', p.body ++ [c], rfl, hcons, ?_, fun parts h => ?_⟩
    · rw [← hcons, hlength, List.length_append, List.length_singleton]
    · have hdenotes : (Piece.plain c).Denotes := Piece.denotes_of_number rfl
      have hswallows : p.swallows (.plain c) = true := by
        rw [Piece.swallows, hgreedy, hbreak, Bool.and_self]
      exact h.escape (p.decodeEscape_greedy hgreedy c) (by simp [hdenotes])
        (kept_cons_cons hswallows)

/-! ### The language and the reader -/

namespace Piece

/-- Where a piece denotes characters, its units are theirs. -/
theorem units_eq {p : Piece} {quote : Quote} {next : Char} (hfit : p.Fits quote next)
    (h : p.Denotes) : p.units = utf16 p.characters := by
  have hnumber : ∀ n ∈ p.number?, unitsOf n = utf16 [Char.ofNat n] := by
    intro n hn
    have hle := number_le hfit n hn
    have hwhole := h n hn
    have hvalid : n.isValidChar := by
      unfold IsSurrogate at hwhole
      unfold Nat.isValidChar
      omega
    have hchar : (Char.ofNat n).toNat = n := by
      rw [Char.ofNat, dif_pos hvalid]
      rfl
    simp [utf16, hchar]
  cases p with
  | byte digits | unit digits | braced digits => exact hnumber _ rfl
  | continuation e => rfl
  | _ => exact (List.append_nil _).symm

/-- A carriage return at the end of a line of a template is read, though the language knows only a
line feed there. -/
theorem count_read (p : Piece) :
    p.read.count '\r' = p.characters.count '\r' + if p.isCarriage then 1 else 0 := by
  cases p with
  | carriage feed => cases feed <;> rfl
  | _ => rfl

end Piece

theorem units_flatMap {quote : Quote} {ps : List Piece} (hfit : FitAll quote ps)
    (h : ∀ p ∈ ps, p.Denotes) : ps.flatMap Piece.units = utf16 (ps.flatMap Piece.characters) := by
  induction ps with
  | nil => rfl
  | cons p ps ih =>
    rw [List.forall_mem_cons] at h
    rw [List.flatMap_cons, List.flatMap_cons, utf16_append, Piece.units_eq hfit.1 h.1,
      ih hfit.2 h.2]

theorem exists_plain_of_swallows {p q : Piece} (h : p.swallows q = true) :
    ∃ c, q = .plain c ∧ c ≠ '\r' := by
  obtain ⟨-, hbreak⟩ := Bool.and_eq_true_iff.1 h
  cases q with
  | plain c =>
    refine ⟨c, rfl, ?_⟩
    rintro rfl
    contradiction
  | _ => contradiction

theorem count_kept (ps : List Piece) :
    ((kept ps).flatMap Piece.read).count '\r' =
      (ps.flatMap Piece.characters).count '\r' + ps.countP Piece.isCarriage := by
  induction ps using kept.induct with
  | case1 => rfl
  | case2 p => simp [kept, Piece.count_read, List.countP_cons]
  | case3 p q ps h ih =>
    obtain ⟨c, rfl, hc⟩ := exists_plain_of_swallows h
    rw [kept_cons_cons h]
    simp only [List.flatMap_cons, List.count_append, Piece.count_read, ih, Piece.characters,
      List.count_singleton, List.countP_cons, Piece.isCarriage]
    simp [hc]
    omega
  | case4 p q ps h ih =>
    rw [kept, if_neg h]
    simp only [List.flatMap_cons, List.count_append, Piece.count_read, ih, List.countP_cons]
    omega

theorem Piece.read_eq_characters {p : Piece} (h : p.isCarriage = false) :
    p.read = p.characters := by
  cases p <;> first | rfl | contradiction

theorem length_kept {ps : List Piece} (h : ∀ p ∈ ps, p.isCarriage = false) :
    ((kept ps).flatMap Piece.read).length + ps.length =
      (ps.flatMap Piece.characters).length + (kept ps).length := by
  have hread : ∀ p ∈ ps, p.read = p.characters := fun p hp => (h p hp |> p.read_eq_characters)
  clear h
  induction ps using kept.induct with
  | case1 => rfl
  | case2 p => simp [kept, hread]
  | case3 p q ps h ih =>
    obtain ⟨c, rfl, -⟩ := exists_plain_of_swallows h
    rw [List.forall_mem_cons, List.forall_mem_cons] at hread
    have ih := ih hread.2.2
    rw [kept_cons_cons h]
    simp only [List.flatMap_cons, List.length_append, List.length_cons, hread.1, Piece.characters,
      List.length_nil]
    omega
  | case4 p q ps h ih =>
    rw [List.forall_mem_cons] at hread
    have ih := ih hread.2
    rw [kept, if_neg h]
    simp only [List.flatMap_cons, List.length_append, List.length_cons, hread.1] at ih ⊢
    omega

theorem kept_sublist (ps : List Piece) : (kept ps).Sublist ps := by
  induction ps using kept.induct with
  | case1 | case2 => exact .refl _
  | case3 p q ps h ih =>
    rw [kept_cons_cons h]
    exact (ih.cons q).cons_cons p
  | case4 p q ps h ih =>
    rw [kept, if_neg h]
    exact ih.cons_cons p

/-- No piece is lost exactly if none is read together with the piece before it. -/
theorem kept_eq_iff (ps : List Piece) :
    kept ps = ps ↔ ps.IsChain fun p q => p.swallows q = false := by
  induction ps using kept.induct with
  | case1 | case2 => simp [kept]
  | case3 p q ps h ih =>
    have hshort : kept ps ≠ q :: ps := by
      intro heq
      have hlength := (kept_sublist ps).length_le
      rw [heq, List.length_cons] at hlength
      omega
    rw [kept_cons_cons h, List.isChain_cons_cons]
    simp [h, hshort]
  | case4 p q ps h ih =>
    rw [kept, if_neg h, List.isChain_cons_cons, ← ih]
    simp [h]

/-- The characters that are read are those that are denoted exactly if no line of a template ends
with a carriage return and no piece is lost. -/
theorem flatMap_characters_eq_iff (ps : List Piece) :
    ps.flatMap Piece.characters = (kept ps).flatMap Piece.read ↔
      (∀ p ∈ ps, p.isCarriage = false) ∧ ps.IsChain fun p q => p.swallows q = false := by
  rw [← kept_eq_iff]
  constructor
  · intro h
    have hcount := count_kept ps
    rw [← h] at hcount
    have hnone : ∀ p ∈ ps, p.isCarriage = false := by
      have hzero : ps.countP Piece.isCarriage = 0 := by omega
      simpa [List.countP_eq_zero] using hzero
    have hlength := length_kept hnone
    rw [← h] at hlength
    exact ⟨hnone, (kept_sublist ps).eq_of_length (by omega)⟩
  · rintro ⟨hnone, hkept⟩
    rw [hkept, List.flatMap_def, List.flatMap_def]
    exact congrArg _ (List.map_congr_left fun p hp => (p.read_eq_characters (hnone p hp)).symm)

/-! ### One reading -/

/-- The escape whose backslash stands before some characters. -/
def escapeAt : List Char → Piece
  | 'x' :: cs => .byte (cs.take 2)
  | 'u' :: '\x7b' :: cs => .braced (cs.takeWhile isHexDigit)
  | 'u' :: cs => .unit (cs.take 4)
  | '\r' :: '\n' :: _ => .continuation .both
  | c :: _ =>
    if c = '\r' then .continuation .carriage
    else if c = '\n' then .continuation .feed
    else if c = '\u2028' then .continuation .line
    else if c = '\u2029' then .continuation .paragraph
    else .simple c
  | [] => .simple '\x00'

/-- The piece at the start of some characters. -/
def pieceAt : List Char → Piece
  | '\\' :: cs => escapeAt cs
  | '\r' :: '\n' :: _ => .carriage true
  | c :: _ => if c = '\r' then .carriage false else .plain c
  | [] => .plain '\x00'

/-- The body of an escape tells the escape. -/
theorem escapeAt_body {p : Piece} {quote : Quote} {rest : List Char} (hescape : p.isEscape)
    (h : p.Fits quote (rest.headD quote.char)) : escapeAt (p.body ++ rest) = p := by
  cases p with
  | plain c => contradiction
  | carriage feed => contradiction
  | simple c =>
    obtain ⟨hx, hu, hend, -⟩ := h
    have hne : ∀ d, isCommentEnd d = true → c ≠ d := by
      rintro d hd rfl
      rw [hd] at hend
      contradiction
    rw [Piece.body, List.singleton_append, escapeAt.eq_5 _ _ hx (fun _ hc _ => hu hc) hu
      fun _ hc _ => hne '\r' (by decide) hc, if_neg (hne '\r' (by decide)),
      if_neg (hne '\n' (by decide)), if_neg (hne '\u2028' (by decide)),
      if_neg (hne '\u2029' (by decide))]
  | byte digits =>
    obtain ⟨hlength, -⟩ := h
    simp [Piece.body, escapeAt, ← hlength]
  | unit digits =>
    obtain ⟨hlength, hall⟩ := h
    rw [Piece.body, List.cons_append, escapeAt.eq_3 _ (append_ne_brace (by simp [hlength]) hall _)]
    simp [← hlength]
  | braced digits =>
    obtain ⟨-, hall, -⟩ := h
    simp [Piece.body, escapeAt, takeWhile_digits hall]
  | continuation e =>
    cases e with
    | carriage =>
      cases rest with
      | nil => rfl
      | cons next rest =>
        have hnext : next ≠ '\n' := h rfl
        simp [Piece.body, LineEnd.written, escapeAt, hnext]
    | _ => rfl

/-- What is written tells the piece that was written first. -/
theorem pieceAt_written {p : Piece} {quote : Quote} {rest : List Char}
    (h : p.Fits quote (rest.headD quote.char)) : pieceAt (p.written ++ rest) = p := by
  cases hescape : p.isEscape with
  | true =>
    rw [p.written_of_isEscape hescape]
    exact escapeAt_body hescape h
  | false =>
    cases p with
    | plain c =>
      obtain ⟨-, hbs, hcr, -⟩ := h
      rw [Piece.written, List.singleton_append, pieceAt.eq_3 _ _ hbs fun _ hc _ => hcr hc,
        if_neg hcr]
    | carriage feed =>
      cases feed with
      | true => rfl
      | false =>
        cases rest with
        | nil => rfl
        | cons next rest =>
          have hnext : next ≠ '\n' := h.2 rfl
          simp [Piece.written, pieceAt, hnext]
    | _ => contradiction

/-- What is written tells the pieces, whatever the quotes around them are. -/
theorem writtenAll_injective {quote quote' : Quote} {ps qs : List Piece} (hps : FitAll quote ps)
    (hqs : FitAll quote' qs) (h : writtenAll ps = writtenAll qs) : ps = qs := by
  have hne : ∀ (p : Piece) (rest : List Char), p.written ++ rest ≠ [] := by
    intro p rest
    cases p <;> simp [Piece.written]
  induction ps generalizing qs with
  | nil =>
    cases qs with
    | nil => rfl
    | cons q qs => exact absurd h.symm (hne q _)
  | cons p ps ih =>
    cases qs with
    | nil => exact absurd h (hne p _)
    | cons q qs =>
      have hpq : p = q := by
        rw [← pieceAt_written hps.1, ← pieceAt_written hqs.1]
        exact congrArg pieceAt h
      subst hpq
      rw [ih hps.2 hqs.2 (List.append_cancel_left h)]

theorem length_le_writtenAll (ps : List Piece) : ps.length ≤ (writtenAll ps).length := by
  have hone : ∀ p : Piece, 1 ≤ p.written.length := by
    intro p
    cases p <;> simp [Piece.written]
  induction ps with
  | nil => exact Nat.zero_le _
  | cons p ps ih =>
    have := hone p
    simp only [writtenAll, List.flatMap_cons, List.length_append, List.length_cons] at ih ⊢
    omega

/-! ### Faithful texts -/

/-- Whether a text is read as the language has it. -/
structure SourceText.Faithful (t : SourceText) : Prop where
  /-- No escape is half of a pair. -/
  whole : ∀ p ∈ t.pieces, p.Denotes
  /-- No line of a template ends with a carriage return. -/
  fed : ∀ p ∈ t.pieces, p.isCarriage = false
  /-- No escape takes the end of a line behind it along. -/
  apart : t.pieces.IsChain fun p q => p.swallows q = false

/-- Where a text denotes a string, its parts are decoded as this string exactly if the text is
faithful. -/
theorem decodeParts_renders_iff {t : SourceText} {s : String} {parts : List TextPart}
    (h : Renders parts t.pieces) (hs : utf16 s.toList = t.units) :
    decodeParts parts = .ok s.toList ↔ t.Faithful := by
  have hcharacters : (∀ p ∈ t.pieces, p.Denotes) → s.toList = t.pieces.flatMap Piece.characters :=
    fun hwhole => utf16_injective (hs.trans (units_flatMap t.fit hwhole))
  rw [h]
  constructor
  · rintro ⟨hwhole, hread⟩
    obtain ⟨hfed, hapart⟩ :=
      (flatMap_characters_eq_iff _).1 ((hcharacters hwhole).symm.trans hread)
    exact ⟨hwhole, hfed, hapart⟩
  · rintro ⟨hwhole, hfed, hapart⟩
    exact ⟨hwhole, (hcharacters hwhole).trans ((flatMap_characters_eq_iff _).2 ⟨hfed, hapart⟩)⟩

end FileRoutes.Script
