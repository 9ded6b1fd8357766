import FileRoutes.Decimal.Shortest
import FileRoutes.Proofs.LiteralConfigs
import FileRoutes.Proofs.TextLiterals

/-!
# The names of properties

A key is a bare word, a numeral or a text, and the language makes the name of a property of it:
the characters that the word denotes, the number in its canonical form, or the string. The reader
takes words and numerals as they are written and decodes texts. `__proto__` before a colon names no
property at all.

## The model

* `numberText`, `numeralName` — the canonical form of a number, and that of what a numeral denotes.
* `Key.Names` — the name that the language makes of a key.
* `Key.Tidy` — no word has an escape, a numeral has its canonical form, a text is faithful, and no
  key is `__proto__`.

## What is proved

* `numeralName_spelled` — an integer that is exact has its digits as its canonical form.
* `Key.tidy_iff` — a key is tidy exactly if the name that is read is one that the language makes.
* `Key.names_iff_of_tidy` — then it is the only one.
-/

namespace FileRoutes.Script

/-! ### Numbers -/

/-- The canonical form of a number without a sign: its digits, with a point or with zeros where the
power of ten is small, and otherwise with an exponent. -/
def numberText (x : Binary64) : String :=
  let w := x.shortest
  let digits := Decimal.digitsOf w.digits
  let power := w.exponent + (digits.length : Int) - 1
  match x.toInt? with
  | some i =>
    if i.natAbs < exactBound then Decimal.spelled i.natAbs
    else if power ≤ 20 then String.ofList (digits ++ List.replicate w.exponent.toNat '0')
    else String.ofList (Decimal.exponential true w)
  | none =>
    if -6 ≤ power then String.ofList (Decimal.positional w)
    else String.ofList (Decimal.exponential true w)

/-- The canonical form of what a numeral denotes. A numeral with a final `n` denotes an integer of
any size, and every other one a floating-point number. -/
def numeralName (written : String) : String :=
  let rounded (significand : Nat) (power : Int) : String :=
    ((Binary64.ofDecimal false significand power).map numberText).getD "Infinity"
  match Numeral.ofText written with
  | .integer n => if written.toList.getLast? = some 'n' then Decimal.spelled n else rounded n 0
  | .decimal significand power => rounded significand power

/-- Digits alone spell a decimal without a fraction. -/
theorem ofText_spelled (n : Nat) : Numeral.ofText (Decimal.spelled n) = .decimal n 0 := by
  have hdigits : ((Decimal.spelled n).toList.filter fun c => c != '_').map Char.toLower =
      Decimal.digitsOf n := by
    rw [Decimal.spelled, String.toList_ofList, map_toLower_digitsOf]
  have hmark : ∀ c ds, Json.Reader.isDigit c = false → Decimal.digitsOf n ≠ '0' :: c :: ds :=
    fun c ds hc he => not_mem_digitsOf hc n (by simp [he])
  have hlast : (Decimal.digitsOf n).getLast? ≠ some 'n' := fun hn =>
    not_mem_digitsOf (by decide) n (List.mem_of_getLast? hn)
  simp only [Numeral.ofText, hdigits]
  split
  · exact absurd ‹_› (hmark 'x' _ (by decide))
  · exact absurd ‹_› (hmark 'o' _ (by decide))
  · exact absurd ‹_› (hmark 'b' _ (by decide))
  · rw [if_neg hlast, decimalOf_digitsOf]

/-- An integer that is exact has its digits as its canonical form. -/
theorem numeralName_spelled {n : Nat} (h : n < exactBound) :
    numeralName (Decimal.spelled n) = Decimal.spelled n := by
  have hnumeral := ofText_spelled n
  obtain ⟨x, hx, hint⟩ := toInt_ofDecimal h
  have hsmall : (n : Int).natAbs < exactBound := h
  simp only [numeralName, hnumeral, hx, Option.map_some, Option.getD_some, numberText, hint,
    if_pos hsmall]
  rfl

/-! ### Words -/

/-- Whether a piece may be part of a word: a character that stands for itself or an escape of one
by its number. -/
def Piece.InWord : Piece → Prop
  | .plain c => c ≠ '\\'
  | .unit digits => digits.length = 4 ∧ digits.all isHexDigit
  | .braced digits => digits ≠ [] ∧ digits.all isHexDigit ∧ Decimal.valueOf 16 digits ≤ 0x10FFFF
  | _ => False

/-! ### Keys -/

/-- The name that no property has, since it sets the prototype. -/
def protoName : String := "__proto__"

/-- Whether the language makes a name of a property of a key: of a word the characters that it
denotes, of a numeral the canonical form of what it denotes, and of a text the string. -/
def Key.Names (name : String) : Key → Prop
  | .name written => name ≠ protoName ∧ ∃ ps : List Piece, (∀ p ∈ ps, p.InWord ∧ p.Denotes) ∧
      writtenAll ps = written.toList ∧ name.toList = ps.flatMap Piece.characters
  | .number written => name = numeralName written
  | .text parts => name ≠ protoName ∧ ∃ t : SourceText, t.quote ≠ .tick ∧
      Phrase.textParts t.written = parts ∧ utf16 name.toList = t.units
  | .other _ => False

/-- Whether the reader takes a key as the language does. -/
def Key.Tidy : Key → Prop
  | .name written => '\\' ∉ written.toList ∧ written ≠ protoName
  | .number written => numeralName written = written
  | .text parts => ∃ t : SourceText, t.quote ≠ .tick ∧ Phrase.textParts t.written = parts ∧
      t.Faithful ∧ t.units ≠ utf16 protoName.toList
  | .other _ => False

/-! ### What is read of a key -/

/-- An escape in a word is longer than the character that it denotes. -/
theorem length_characters_le {ps : List Piece} (hword : ∀ p ∈ ps, p.InWord) :
    (ps.flatMap Piece.characters).length ≤ (writtenAll ps).length ∧
      ('\\' ∈ writtenAll ps → (ps.flatMap Piece.characters).length < (writtenAll ps).length) := by
  induction ps with
  | nil => simp [writtenAll]
  | cons p ps ih =>
    rw [List.forall_mem_cons] at hword
    obtain ⟨hle, hlt⟩ := ih hword.2
    have hcons : writtenAll (p :: ps) = p.written ++ writtenAll ps := rfl
    rw [hcons, List.flatMap_cons, List.length_append, List.length_append, List.mem_append]
    cases p with
    | plain c =>
      have hc : '\\' ∉ (Piece.plain c).written := by simpa [Piece.written] using hword.1.symm
      have hone : (Piece.plain c).characters.length = (Piece.plain c).written.length := rfl
      refine ⟨by omega, ?_⟩
      rintro (hmem | hmem)
      · exact absurd hmem hc
      · have := hlt hmem
        omega
    | unit digits | braced digits =>
      simp only [Piece.written, Piece.body, Piece.characters, List.length_cons,
        List.length_append, List.length_nil]
      exact ⟨by omega, fun _ => by omega⟩
    | _ => exact hword.1.elim

/-- A word is what its pieces denote exactly if it holds no escape. -/
theorem characters_eq_written_iff {ps : List Piece} (hword : ∀ p ∈ ps, p.InWord) :
    ps.flatMap Piece.characters = writtenAll ps ↔ '\\' ∉ writtenAll ps := by
  constructor
  · intro h hmem
    have hlt := (length_characters_le hword).2 hmem
    rw [h] at hlt
    exact absurd hlt (Nat.lt_irrefl _)
  · intro h
    have hplain : ∀ p ∈ ps, p.characters = p.written := by
      intro p hp
      have hmem : '\\' ∉ p.written := fun hc => h (List.mem_flatMap.2 ⟨p, hp, hc⟩)
      have hin := hword p hp
      cases p with
      | plain c => rfl
      | unit digits | braced digits => exact absurd List.mem_cons_self hmem
      | _ => exact hin.elim
    rw [writtenAll, List.flatMap_def, List.flatMap_def, List.map_congr_left hplain]

theorem keyName_text_ok_iff {parts : List TextPart} {name : String} :
    keyName (.text parts) = .ok name ↔ decodeParts parts = .ok name.toList := by
  rw [keyName, map_ok_iff]
  constructor
  · rintro ⟨cs, hcs, rfl⟩
    rwa [String.toList_ofList]
  · exact fun hcs => ⟨_, hcs, String.ofList_toList⟩

/-- A faithful text denotes a string, and its parts are decoded as this string. -/
theorem SourceText.Faithful.exists_name {t : SourceText} (h : t.Faithful)
    (hquote : t.quote ≠ .tick) : ∃ name : String, utf16 name.toList = t.units ∧
      keyName (.text (Phrase.textParts t.written)) = .ok name := by
  have hunits := units_flatMap t.fit h.whole
  refine ⟨String.ofList (t.pieces.flatMap Piece.characters), ?_, ?_⟩
  · rw [String.toList_ofList, ← hunits]
    rfl
  · refine keyName_text_ok_iff.2 ((decodeParts_renders_iff (textParts_written hquote).2 ?_).2 h)
    rw [String.toList_ofList, ← hunits]
    rfl

/-- Texts whose parts are the same denote the same units. -/
theorem SourceText.units_eq_of_textParts {t t' : SourceText} (ht : t.quote ≠ .tick)
    (ht' : t'.quote ≠ .tick) (h : Phrase.textParts t.written = Phrase.textParts t'.written) :
    t.units = t'.units := by
  have hwritten : writtenAll t.pieces = writtenAll t'.pieces := by
    rw [← (textParts_written ht).1, ← (textParts_written ht').1, h]
  rw [units, units, writtenAll_injective t.fit t'.fit hwritten]

/-- Characters other than a backslash are pieces of a word. -/
theorem plain_pieces {cs : List Char} (h : '\\' ∉ cs) :
    (∀ p ∈ cs.map Piece.plain, p.InWord ∧ p.Denotes) ∧ writtenAll (cs.map .plain) = cs ∧
      (cs.map Piece.plain).flatMap Piece.characters = cs := by
  refine ⟨?_, ?_, ?_⟩
  · intro p hp
    obtain ⟨c, hc, rfl⟩ := List.mem_map.1 hp
    exact ⟨fun he => h (he ▸ hc), Piece.denotes_of_number rfl⟩
  · simp [writtenAll, List.flatMap_map, Piece.written]
  · simp [List.flatMap_map, Piece.characters]

namespace Key

/-- The name that the language makes of a tidy key is the one that is read, and no other. -/
theorem names_iff_of_tidy {key : Key} (h : key.Tidy) (name : String) :
    key.Names name ↔ keyName key = .ok name := by
  cases key with
  | name written =>
    obtain ⟨hescape, hproto⟩ := h
    rw [keyName, Except.ok.injEq]
    constructor
    · rintro ⟨-, ps, hps, hwritten, hname⟩
      rw [← hwritten, ← characters_eq_written_iff fun p hp => (hps p hp).1] at hescape
      rw [hescape, hwritten] at hname
      exact (String.toList_injective hname).symm
    · rintro rfl
      obtain ⟨hps, hwritten, hcharacters⟩ := plain_pieces hescape
      exact ⟨hproto, _, hps, hwritten, hcharacters.symm⟩
  | number written =>
    have hname : numeralName written = written := h
    rw [keyName, Except.ok.injEq, Names, hname, eq_comm]
  | text parts =>
    obtain ⟨t, hquote, rfl, hfaithful, hproto⟩ := h
    obtain ⟨read, hread, hkey⟩ := hfaithful.exists_name hquote
    rw [hkey, Except.ok.injEq]
    constructor
    · rintro ⟨-, t', hquote', hparts, hname⟩
      rw [SourceText.units_eq_of_textParts hquote' hquote hparts, ← hread] at hname
      exact String.toList_injective (utf16_injective hname).symm
    · rintro rfl
      refine ⟨?_, t, hquote, rfl, hread⟩
      rintro rfl
      exact hproto hread.symm
  | other span => exact h.elim

/-- A key is tidy exactly if the language makes the name of it that is read. -/
theorem tidy_iff (key : Key) : key.Tidy ↔ ∃ name, keyName key = .ok name ∧ key.Names name := by
  constructor
  · intro h
    have hread : ∃ name, keyName key = .ok name := by
      cases key with
      | name written | number written => exact ⟨written, rfl⟩
      | text parts =>
        obtain ⟨t, hquote, rfl, hfaithful, -⟩ := h
        obtain ⟨name, -, hname⟩ := hfaithful.exists_name hquote
        exact ⟨name, hname⟩
      | other span => exact h.elim
    exact hread.imp fun name hname => ⟨hname, (names_iff_of_tidy h name).2 hname⟩
  · rintro ⟨name, hread, hnames⟩
    cases key with
    | name written =>
      obtain ⟨hproto, ps, hps, hwritten, hname⟩ := hnames
      obtain rfl := Except.ok.inj hread
      refine ⟨?_, hproto⟩
      rw [← hwritten, ← characters_eq_written_iff fun p hp => (hps p hp).1, ← hname, hwritten]
    | number written =>
      obtain rfl := Except.ok.inj hread
      exact hnames.symm
    | text parts =>
      obtain ⟨hproto, t, hquote, rfl, hname⟩ := hnames
      have hrenders := (SourceText.textParts_written hquote).2
      refine ⟨t, hquote, rfl, ?_, ?_⟩
      · exact (decodeParts_renders_iff hrenders hname).1 (keyName_text_ok_iff.1 hread)
      · rw [← hname]
        exact fun he => hproto (String.toList_injective (utf16_injective he))
    | other span => contradiction

end Key

end FileRoutes.Script
