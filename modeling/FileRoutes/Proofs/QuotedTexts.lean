import FileRoutes.Emit.Quoted
import FileRoutes.Proofs.TextLiterals

/-!
# Quoted texts read back

A text that is written between quotes is a text of the language: it ends at its last quote, and
the language gives it the string it was written for. So does the reader, which has a smaller set of
escapes to decode than the language and a larger one than the writer needs.

## The model

* `mark?`, `quotedPiece` — the letter a character is written with behind a backslash, and the piece
  it is written as.
* `Divides` — how the grammar of the language divides what stands between the quotes into maximal
  runs of plain characters and escapes.
* `quotedParts` — the parts of a quoted text.

## What is proved

* `quotedText`, `written_quotedText`, `units_quotedText` — the text of the language, and what it
  denotes.
* `divides_iff` — the grammar divides it in one way only.
* `textParts_quoted` — the reader divides it in the same way.
* `decodeParts_quotedParts` — its parts are decoded as the string.

The main statement is `evaluate_quoted`.

## Honest scope

A source that holds the character with the number zero is not read at all, whatever stands there;
what is shown of it is that its text is divided and decoded as that of every other string is.
-/

namespace FileRoutes.Script

open Emit (escape quoted)

/-! ### The pieces of a quoted text -/

/-- The letter that a character is written with behind a backslash, if it is. -/
def mark? : Char → Option Char
  | '\\' => some '\\'
  | '\'' => some '\''
  | '\n' => some 'n'
  | '\r' => some 'r'
  | _ => none

theorem escape_of_mark {c e : Char} (h : mark? c = some e) : escape c = ['\\', e] := by
  unfold mark? at h
  split at h <;> cases h <;> rfl

theorem escape_of_plain {c : Char} (h : mark? c = none) : escape c = [c] := by
  unfold mark? at h
  split at h <;> simp_all [escape]

/-- What is written without a backslash may stand between the quotes. -/
theorem isPlain_iff (c : Char) : isPlain '\'' c = true ↔ mark? c = none := by
  unfold mark?
  split <;> simp_all [isPlain]

/-- A backslash and its letter stand for the character. -/
theorem simpleCharacter_of_mark {c e : Char} (h : mark? c = some e) :
    Piece.simpleCharacter e = c := by
  unfold mark? at h
  split at h <;> cases h <;> rfl

theorem decodeEscape_of_mark {c e : Char} (h : mark? c = some e) :
    decodeEscape [e] = .ok [c] := by
  unfold mark? at h
  split at h <;> cases h <;> rfl

/-- A letter is all that its backslash takes. -/
theorem escapeLength_of_mark {c e : Char} (h : mark? c = some e) (cs : List Char) :
    escapeLength? (e :: cs) = some 1 := by
  unfold mark? at h
  split at h <;> cases h <;> simp [escapeLength?, isOctalDigit]

/-- The piece that a character is written as. -/
def quotedPiece (c : Char) : Piece :=
  match mark? c with
  | some e => .simple e
  | none => .plain c

theorem written_quotedPiece (c : Char) : (quotedPiece c).written = escape c := by
  unfold quotedPiece
  cases h : mark? c with
  | some e => exact (escape_of_mark h).symm
  | none => exact (escape_of_plain h).symm

theorem units_quotedPiece (c : Char) : (quotedPiece c).units = unitsOf c.toNat := by
  unfold quotedPiece
  cases h : mark? c with
  | none => rfl
  | some e => exact congrArg (fun d : Char => unitsOf d.toNat) (simpleCharacter_of_mark h)

theorem fits_quotedPiece (c next : Char) : (quotedPiece c).Fits .single next := by
  unfold quotedPiece
  cases h : mark? c with
  | none =>
    have hplain := (isPlain_iff c).2 h
    simp only [isPlain, Bool.and_eq_true, bne_iff_ne] at hplain
    obtain ⟨⟨⟨hquote, hbackslash⟩, hcarriage⟩, hfeed⟩ := hplain
    exact ⟨hquote, hbackslash, hcarriage, by rwa [if_neg (by decide)]⟩
  | some e =>
    have hall : e ≠ 'x' ∧ e ≠ 'u' ∧ isCommentEnd e = false ∧ e.isDigit = false := by
      unfold mark? at h
      split at h <;> cases h <;> decide
    obtain ⟨hx, hu, hend, hdigit⟩ := hall
    exact ⟨hx, hu, hend, fun hd => absurd hd (by simp [hdigit])⟩

/-- A string as a text between single quotes. -/
def quotedText (s : String) : SourceText where
  quote := .single
  pieces := s.toList.map quotedPiece
  fit := by
    induction s.toList with
    | nil => trivial
    | cons c cs ih => exact ⟨fits_quotedPiece c _, ih⟩

theorem written_quotedText (s : String) : (quotedText s).written = (quoted s).toList := by
  have hpieces : writtenAll (s.toList.map quotedPiece) = s.toList.flatMap escape := by
    simp only [writtenAll, List.flatMap_map, written_quotedPiece]
  rw [SourceText.written, quotedText, hpieces]
  simp [quoted, Quote.char]

/-- The language gives a quoted text the string it was written for. -/
theorem units_quotedText (s : String) : (quotedText s).units = utf16 s.toList := by
  simp only [SourceText.units, quotedText, List.flatMap_map, units_quotedPiece, utf16]

/-! ### Maximal runs and escapes -/

/-- How the grammar of the language divides what stands between single quotes: into runs of plain
characters, each as long as it can be, and escapes. -/
inductive Divides : List Char → List TextPart → Prop where
  /-- There is nothing left. -/
  | nil : Divides [] []
  /-- A run of plain characters, behind which there is none. -/
  | run {w rest : List Char} {parts : List TextPart} (hne : w ≠ [])
      (hplain : ∀ c ∈ w, isPlain '\'' c = true)
      (hmost : ∀ c ∈ rest.head?, isPlain '\'' c = false) (h : Divides rest parts) :
      Divides (w ++ rest) (.plain w :: parts)
  /-- An escape that may stand before what is behind it. -/
  | escape {p : Piece} {rest : List Char} {parts : List TextPart} (hescape : p.isEscape = true)
      (hfit : p.Fits .single (rest.headD '\'')) (h : Divides rest parts) :
      Divides ('\\' :: (p.body ++ rest)) (.escape p.body :: parts)

/-- The parts of a text that is written between quotes for some characters. -/
def quotedParts : List Char → List TextPart
  | [] => []
  | c :: cs =>
    match mark? c with
    | some e => .escape [e] :: quotedParts cs
    | none => TextPart.consPlain c (quotedParts cs)

theorem quotedParts_of_mark {c e : Char} (h : mark? c = some e) (cs : List Char) :
    quotedParts (c :: cs) = .escape [e] :: quotedParts cs := by
  rw [quotedParts, h]

theorem quotedParts_of_plain {c : Char} (h : mark? c = none) (cs : List Char) :
    quotedParts (c :: cs) = TextPart.consPlain c (quotedParts cs) := by
  rw [quotedParts, h]

/-- The parts are decoded as the characters they were written for. -/
theorem decodeParts_quotedParts (cs : List Char) : decodeParts (quotedParts cs) = .ok cs := by
  induction cs with
  | nil => rfl
  | cons c cs ih =>
    cases h : mark? c with
    | some e =>
      rw [quotedParts_of_mark h, decodeParts, decodeEscape_of_mark h, ih]
      rfl
    | none =>
      rw [quotedParts_of_plain h, decodeParts_consPlain, ih]
      rfl

/-- The reader cuts a text into these parts, up to its closing quote. -/
theorem quotedParts_flatMap_escape (rest : List Char) :
    (cs : List Char) → (fuel : Nat) → cs.length < fuel →
      quotedParts? '\'' fuel (cs.flatMap escape ++ '\'' :: rest) = some (quotedParts cs, rest)
  | _, 0, h => absurd h (Nat.not_lt_zero _)
  | [], fuel + 1, _ => by simp [quotedParts?, quotedParts]
  | c :: cs, fuel + 1, hfuel => by
    have ih := quotedParts_flatMap_escape rest cs fuel (Nat.lt_of_succ_lt_succ hfuel)
    rw [List.flatMap_cons]
    cases h : mark? c with
    | some e =>
      simp [escape_of_mark h, quotedParts?, escapeLength_of_mark h, ih, quotedParts_of_mark h]
    | none =>
      have hplain := (isPlain_iff c).2 h
      have hne : c ≠ '\'' ∧ c ≠ '\\' := by
        constructor <;> rintro rfl <;> contradiction
      simp [escape_of_plain h, quotedParts?, hne, hplain, ih, quotedParts_of_plain h]

theorem toList_quoted (s : String) :
    (quoted s).toList = '\'' :: (s.toList.flatMap escape ++ ['\'']) := by
  simp [quoted]

theorem length_le_flatMap_escape (cs : List Char) : cs.length ≤ (cs.flatMap escape).length := by
  induction cs with
  | nil => exact Nat.le_refl 0
  | cons c cs ih =>
    have hpos : 0 < (escape c).length := by
      cases h : mark? c with
      | some e => simp [escape_of_mark h]
      | none => simp [escape_of_plain h]
    rw [List.flatMap_cons, List.length_append, List.length_cons]
    omega

/-- The reader divides a quoted text into these parts. -/
theorem textParts_quoted (s : String) :
    Phrase.textParts (quoted s).toList = quotedParts s.toList := by
  have hlength : s.toList.length < (s.toList.flatMap escape ++ ['\'']).length + 1 := by
    have := length_le_flatMap_escape s.toList
    simp only [List.length_append]
    omega
  rw [toList_quoted, Phrase.textParts, quotedParts_flatMap_escape [] _ _ hlength]
  rfl

/-- Two ways to cut off a run that is as long as it can be are one. -/
theorem append_inj_of_most {p : Char → Bool} {v w xs ys : List Char}
    (hv : ∀ c ∈ v, p c = true) (hxs : ∀ c ∈ xs.head?, p c = false)
    (hw : ∀ c ∈ w, p c = true) (hys : ∀ c ∈ ys.head?, p c = false) (h : v ++ xs = w ++ ys) :
    v = w ∧ xs = ys := by
  induction v generalizing w with
  | nil =>
    cases w with
    | nil => exact ⟨rfl, h⟩
    | cons d w =>
      rw [List.nil_append] at h
      simp [h, hw d] at hxs
  | cons c v ih =>
    rw [List.forall_mem_cons] at hv
    cases w with
    | nil =>
      rw [List.nil_append] at h
      simp [← h, hv.1] at hys
    | cons d w =>
      rw [List.forall_mem_cons] at hw
      obtain ⟨rfl, hrest⟩ := List.cons.inj h
      obtain ⟨rfl, rfl⟩ := ih hv.2 hw.2 hrest
      exact ⟨rfl, rfl⟩

namespace Divides

variable {cs : List Char} {parts parts' : List TextPart}

/-- A plain character in front joins the run it meets. -/
theorem consPlain {c : Char} (hc : isPlain '\'' c = true) (h : Divides cs parts) :
    Divides (c :: cs) (TextPart.consPlain c parts) := by
  cases h with
  | nil => exact .run (List.cons_ne_nil c []) (by simpa using hc) nofun .nil
  | run hne hplain hmost h =>
    exact .run (List.cons_ne_nil c _) (List.forall_mem_cons.2 ⟨hc, hplain⟩) hmost h
  | escape hescape hfit h =>
    exact .run (List.cons_ne_nil c []) (by simpa using hc) (by rintro _ ⟨⟩; rfl)
      (.escape hescape hfit h)

/-- The grammar divides no text in two ways. -/
theorem unique (h : Divides cs parts) (h' : Divides cs parts') : parts = parts' := by
  induction h generalizing parts' with
  | nil =>
    generalize hcs : ([] : List Char) = cs at h'
    cases h' with
    | nil => rfl
    | run hne => exact absurd (List.append_eq_nil_iff.1 hcs.symm).1 hne
    | escape => cases hcs
  | @run w rest parts hne hplain hmost _ ih =>
    generalize hcs : w ++ rest = cs at h'
    cases h' with
    | nil => exact absurd (List.append_eq_nil_iff.1 hcs).1 hne
    | run hne' hplain' hmost' h' =>
      obtain ⟨rfl, rfl⟩ := append_inj_of_most hplain hmost hplain' hmost' hcs
      rw [ih h']
    | escape =>
      obtain ⟨c, w, rfl⟩ := List.exists_cons_of_ne_nil hne
      obtain ⟨rfl, -⟩ := List.cons.inj hcs
      exact absurd (hplain _ List.mem_cons_self) (by decide)
  | @escape p rest parts hescape hfit _ ih =>
    generalize hcs : '\\' :: (p.body ++ rest) = cs at h'
    cases h' with
    | nil => cases hcs
    | @run w _ _ hne' hplain' =>
      obtain ⟨c, w, rfl⟩ := List.exists_cons_of_ne_nil hne'
      obtain ⟨rfl, -⟩ := List.cons.inj hcs
      exact absurd (hplain' _ List.mem_cons_self) (by decide)
    | @escape p' rest' _ hescape' hfit' h' =>
      have hbody := (List.cons.inj hcs).2
      obtain rfl : p = p' := calc
        p = escapeAt (p.body ++ rest) := (escapeAt_body hescape hfit).symm
        _ = escapeAt (p'.body ++ rest') := by rw [hbody]
        _ = p' := escapeAt_body hescape' hfit'
      obtain rfl := List.append_cancel_left hbody
      rw [ih h']

end Divides

/-- What is written for characters is divided into these parts. -/
theorem divides_quotedParts (cs : List Char) : Divides (cs.flatMap escape) (quotedParts cs) := by
  induction cs with
  | nil => exact .nil
  | cons c cs ih =>
    rw [List.flatMap_cons]
    cases h : mark? c with
    | some e =>
      have hfit : (Piece.simple e).Fits .single ((cs.flatMap escape).headD '\'') := by
        have hpiece := fits_quotedPiece c ((cs.flatMap escape).headD '\'')
        rwa [quotedPiece, h] at hpiece
      rw [escape_of_mark h, quotedParts_of_mark h]
      exact .escape rfl hfit ih
    | none =>
      rw [escape_of_plain h, quotedParts_of_plain h]
      exact ih.consPlain ((isPlain_iff c).2 h)

/-- The grammar divides it in one way only. -/
theorem divides_iff {cs : List Char} {parts : List TextPart} :
    Divides (cs.flatMap escape) parts ↔ parts = quotedParts cs := by
  constructor
  · exact fun h => h.unique (divides_quotedParts cs)
  · rintro rfl
    exact divides_quotedParts cs

/-! ### Where a quoted text ends -/

/-- The number of backslashes at the end of some characters. -/
def trailing (cs : List Char) : Nat := (cs.reverse.takeWhile fun c => c == '\\').length

/-- An even number of backslashes in front changes nothing. -/
theorem even_trailing_append {xs : List Char} (h : Even (trailing xs)) (ys : List Char) :
    Even (trailing (xs ++ ys)) ↔ Even (trailing ys) := by
  simp only [trailing, List.reverse_append, List.takeWhile_append] at h ⊢
  split
  · next hall => simp [hall, Nat.even_add, h]
  · rfl

theorem even_trailing_escape (c : Char) : Even (trailing (escape c)) := by
  cases h : mark? c with
  | some e =>
    rw [escape_of_mark h]
    unfold mark? at h
    split at h <;> cases h <;> decide
  | none =>
    have hne : c ≠ '\\' := by
      rintro rfl
      contradiction
    rw [escape_of_plain h]
    simp [trailing, hne]

/-- A quote is written behind one backslash. -/
theorem eq_backslash_of_escape {c : Char} {xs ys : List Char}
    (h : escape c = xs ++ '\'' :: ys) : xs = ['\\'] := by
  cases hc : mark? c with
  | some e =>
    rw [escape_of_mark hc] at h
    match xs, h with
    | [], h => simp at h
    | [_], h => rw [(List.cons.inj h).1]
    | _ :: _ :: _, h => simp at h
  | none =>
    rw [escape_of_plain hc] at h
    match xs, h with
    | [], h =>
      obtain ⟨rfl, -⟩ := List.cons.inj h
      contradiction
    | _ :: _, h => simp at h

/-- A quote behind an even number of backslashes is the last character, and no other is. -/
theorem even_trailing_iff {cs xs ys : List Char}
    (h : cs.flatMap escape ++ ['\''] = xs ++ '\'' :: ys) : Even (trailing xs) ↔ ys = [] := by
  induction cs generalizing xs with
  | nil =>
    cases xs with
    | nil => simpa [trailing] using h
    | cons => simp at h
  | cons c cs ih =>
    rw [List.flatMap_cons, List.append_assoc, List.append_eq_append_iff] at h
    obtain ⟨xs', rfl, hrest⟩ | ⟨zs, hxs, hzs⟩ := h
    · rw [even_trailing_append (even_trailing_escape c)]
      exact ih hrest
    · cases zs with
      | nil =>
        rw [List.append_nil] at hxs
        have hend := even_trailing_append (even_trailing_escape c) []
        rw [List.append_nil, hxs] at hend
        rw [hend]
        exact ih hzs.symm
      | cons z zs =>
        obtain ⟨rfl, rfl⟩ := List.cons.inj hzs
        obtain rfl := eq_backslash_of_escape hxs
        have hodd : ¬ Even (trailing ['\\']) := by decide
        simp [hodd]

theorem not_mem_escape (c : Char) : '\n' ∉ escape c ∧ '\r' ∉ escape c := by
  cases h : mark? c with
  | some e =>
    rw [escape_of_mark h]
    unfold mark? at h
    split at h <;> cases h <;> decide
  | none =>
    rw [escape_of_plain h]
    constructor <;> rintro (_ | ⟨_, ⟨⟩⟩) <;> contradiction

/-! ### Writing and reading -/

/-- For every string, what is written between quotes is a text of the language that denotes this
string. It has no end of a line, and a quote of it stands behind an even number of backslashes
exactly if it is the last character. The grammar divides what is between the quotes into maximal
runs and escapes, in one way only, and the value of these parts is the string. So it is where the
text is read, whatever stands behind it: as one lexeme, up to its closing quote. -/
theorem evaluate_quoted (s : String) :
    ∃ inner : List Char, (quoted s).toList = '\'' :: (inner ++ ['\'']) ∧
      (∃ t : SourceText, t.quote = .single ∧ t.written = (quoted s).toList ∧
        t.units = utf16 s.toList) ∧
      '\n' ∉ inner ∧ '\r' ∉ inner ∧
      (∀ xs ys, inner ++ ['\''] = xs ++ '\'' :: ys → (Even (trailing xs) ↔ ys = [])) ∧
      (∀ parts, Divides inner parts ↔ parts = Phrase.textParts (quoted s).toList) ∧
      (∀ parts, Divides inner parts → ∀ span, evaluate (.text span parts) = .ok (.text s)) ∧
      ∀ (d : Dialect) (o : TextOutlook) (offset : Nat) (rest : List Char),
        ∃ span, textPhrase? d o offset ((quoted s).toList ++ rest) =
          some (.lexeme .text span (quoted s).toList) ∧
        ∀ source, evaluate ((Phrase.lexeme .text span (quoted s).toList).toExpr source) =
          .ok (.text s) := by
  have hdivides : ∀ parts, Divides (s.toList.flatMap escape) parts ↔
      parts = Phrase.textParts (quoted s).toList := by
    intro parts
    rw [textParts_quoted]
    exact divides_iff
  have hvalue : ∀ parts, Divides (s.toList.flatMap escape) parts →
      ∀ span, evaluate (.text span parts) = .ok (.text s) := by
    intro parts hparts span
    rw [divides_iff.1 hparts]
    exact evaluate_text_ok_iff.2 (decodeParts_quotedParts s.toList)
  refine ⟨s.toList.flatMap escape, toList_quoted s,
    ⟨quotedText s, rfl, written_quotedText s, units_quotedText s⟩,
    by simp [not_mem_escape], by simp [not_mem_escape], fun xs ys => even_trailing_iff,
    hdivides, hvalue, ?_⟩
  intro d o offset rest
  have hquote : (quotedText s).quote ≠ .tick := nofun
  have hphrase := SourceText.textPhrase_of_ne_tick hquote d o offset rest
  rw [written_quotedText] at hphrase
  exact ⟨_, hphrase, fun source => hvalue _ ((hdivides _).2 rfl) _⟩

/-- What stands between the quotes of `a'` is divided into a plain run and an escape. Their value
is `a'`, and the quote inside stands behind one backslash. -/
theorem evaluate_quoted_sample :
    quoted "a'" = "'a\\''" ∧
    Divides ['a', '\\', '\''] [.plain ['a'], .escape ['\'']] ∧
    evaluate (.text default [.plain ['a'], .escape ['\'']]) = .ok (.text "a'") ∧
    ¬ Even (trailing ['a', '\\']) := by
  have hquoted : quoted "a'" = "'a\\''" := by decide
  have hfit : (Piece.simple '\'').Fits .single '\'' := ⟨by decide, by decide, rfl, by decide⟩
  have hdivides : Divides ['a', '\\', '\''] [.plain ['a'], .escape ['\'']] :=
    .run (w := ['a']) (by decide) (List.forall_mem_singleton.2 rfl) (by rintro _ ⟨⟩; rfl)
      (@Divides.escape (.simple '\'') [] [] rfl hfit .nil)
  obtain ⟨inner, hinner, -, -, -, hends, -, hvalue, -⟩ := evaluate_quoted "a'"
  rw [hquoted] at hinner
  obtain rfl : ['a', '\\', '\''] = inner :=
    List.append_cancel_right (List.cons.inj hinner).2
  exact ⟨hquoted, hdivides, hvalue _ hdivides default,
    fun heven => by simpa using (hends ['a', '\\'] ['\''] rfl).1 heven⟩

end FileRoutes.Script
