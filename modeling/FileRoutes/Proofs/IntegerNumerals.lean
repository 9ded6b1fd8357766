import FileRoutes.Proofs.LiteralConfigs
import FileRoutes.Proofs.TextPieces
import FileRoutes.Script.Numeral

/-!
# Integers as they are written

An integer is written in one of four notations. Underscores part its digits into groups, the
letters among them and the letter in front of them may be capitals, and a final `n` says that it may
be of any size. The number that it denotes is told here by its digits alone.

## The model

* `Radix`, `Digit` — the notations and their digits.
* `IntegerText` — an integer as it is written, with the number that it denotes.
* `Signed` — an expression in parentheses and with signs in front of it, any number of them.

## What is proved

* `IntegerText.numeralLength_written` — an integer is read as one numeral.
* `IntegerText.ofText_written` — what this numeral spells.
* `numberValue_written`, `numberValue_of_bound_le` — its value is the number it denotes where that
  is below the bound of its notation, and there is none where an exact one is out of range.
* `natAbs_lt_of_evaluate` — an integer that is the value of an expression has an opposite.

The main statement is `evaluate_signed_integer`, which puts these together for signs in front.
-/

namespace FileRoutes.Script

/-! ### Notations and digits -/

/-- The notations of an integer. -/
inductive Radix where
  /-- Behind `0b`. -/
  | binary
  /-- Behind `0o`. -/
  | octal
  /-- With nothing in front. -/
  | decimal
  /-- Behind `0x`. -/
  | hexadecimal
deriving DecidableEq

namespace Radix

/-- The number of digits of a notation. -/
def base : Radix → Nat
  | binary => 2
  | octal => 8
  | decimal => 10
  | hexadecimal => 16

/-- What stands in front of the digits, its letter perhaps a capital. -/
def opening (capital : Bool) : Radix → List Char
  | binary => ['0', if capital then 'B' else 'b']
  | octal => ['0', if capital then 'O' else 'o']
  | decimal => []
  | hexadecimal => ['0', if capital then 'X' else 'x']

theorem base_le (r : Radix) : r.base ≤ 16 := by cases r <;> decide

end Radix

/-- A digit of a notation. -/
structure Digit (r : Radix) where
  /-- The number that the digit stands for. -/
  value : Fin r.base
  /-- Whether the digit is a capital, if it is a letter. -/
  capital : Bool

/-- A number below sixteen as a digit, a letter perhaps a capital. -/
def digitOf (capital : Bool) (n : Nat) : Char :=
  if capital then (Nat.digitChar n).toUpper else Nat.digitChar n

namespace Digit

variable {r : Radix}

/-- A digit as it is written. -/
def char (d : Digit r) : Char := digitOf d.capital d.value

/-- A digit as it is written with a small letter. -/
def small (d : Digit r) : Char := digitOf false d.value

theorem value_lt (d : Digit r) : d.value.val < 16 := Nat.lt_of_lt_of_le d.value.isLt r.base_le

theorem char_ne_underscore (d : Digit r) : d.char ≠ '_' := by
  have hall : ∀ n < 16, ∀ capital, digitOf capital n ≠ '_' := by decide
  exact hall _ d.value_lt _

theorem toLower_char (d : Digit r) : d.char.toLower = d.small := by
  have hall : ∀ n < 16, ∀ capital, (digitOf capital n).toLower = digitOf false n := by decide
  exact hall _ d.value_lt _

theorem digitValue_small (d : Digit r) : Decimal.digitValue? d.small = some d.value.val := by
  have hall : ∀ n < 16, Decimal.digitValue? (digitOf false n) = some n := by decide
  exact hall _ d.value_lt

theorem small_ne_n (d : Digit r) : d.small ≠ 'n' := by
  have hall : ∀ n < 16, digitOf false n ≠ 'n' := by decide
  exact hall _ d.value_lt

end Digit

/-! ### Integers -/

/-- An integer as it is written. -/
structure IntegerText where
  /-- The notation. -/
  radix : Radix
  /-- Whether the letter in front of the digits is a capital. -/
  capital : Bool
  /-- The digits, in groups that are parted by underscores. -/
  groups : List (List (Digit radix))
  /-- Whether an `n` follows. -/
  big : Bool
  /-- There are digits. -/
  groups_ne : groups ≠ []
  /-- There are digits on both sides of an underscore. -/
  group_ne : ∀ g ∈ groups, g ≠ []
  /-- A decimal starts with a zero only where it is one. -/
  no_leading_zero : radix = .decimal → ∀ d ∈ groups.flatten.head?, d.value.val = 0 →
    groups.flatten.length = 1

/-- What follows the digits of an integer. -/
def bigMark (big : Bool) : List Char := if big then ['n'] else []

/-- The number that digits denote. -/
def Digit.number {r : Radix} (ds : List (Digit r)) : Nat :=
  Nat.ofDigits r.base (ds.reverse.map fun d => d.value.val)

namespace IntegerText

variable (t : IntegerText)

/-- The digits of an integer. -/
def digits : List (Digit t.radix) := t.groups.flatten

/-- The digits as they are written, with the underscores between their groups. -/
def writtenDigits : List Char := ['_'].intercalate (t.groups.map (List.map Digit.char))

/-- An integer as it is written. -/
def written : List Char := t.radix.opening t.capital ++ t.writtenDigits ++ bigMark t.big

/-- The number that an integer denotes. -/
def value : Nat := Digit.number t.digits

/-- Whether an integer is taken exactly: all are but decimals without a final `n`. -/
def isExact : Bool := t.radix != .decimal || t.big

/-- The bound below which an integer is its value. -/
def bound : Nat := if t.isExact then 2 ^ 63 else 2 ^ 53

end IntegerText

/-! ### What is read of an integer -/

/-- Without the underscores, the groups of digits stand one behind the other. -/
theorem filter_intercalate {gs : List (List Char)} (h : ∀ g ∈ gs, '_' ∉ g) :
    (['_'].intercalate gs).filter (fun c => c != '_') = gs.flatten := by
  have hkept : ∀ g ∈ gs, g.filter (fun c => c != '_') = g := by
    intro g hg
    refine List.filter_eq_self.2 fun c hc => ?_
    simpa using fun he : c = '_' => h g hg (he ▸ hc)
  clear h
  induction gs with
  | nil => rfl
  | cons g gs ih =>
    rw [List.forall_mem_cons] at hkept
    cases gs with
    | nil => simp [hkept.1]
    | cons g' gs =>
      rw [List.intercalate_cons_cons, List.filter_append, List.filter_append, hkept.1,
        ih hkept.2]
      simp

/-- What is looked at of an integer: no underscores and small letters only. -/
theorem IntegerText.map_toLower_written (t : IntegerText) :
    (t.written.filter fun c => c != '_').map Char.toLower =
      t.radix.opening false ++ t.digits.map Digit.small ++ bigMark t.big := by
  have hgroups : ∀ g ∈ t.groups.map (List.map Digit.char), '_' ∉ g := by
    intro g hg hmem
    obtain ⟨ds, -, rfl⟩ := List.mem_map.1 hg
    obtain ⟨d, -, hd⟩ := List.mem_map.1 hmem
    exact d.char_ne_underscore hd
  have hopening : ((t.radix.opening t.capital).filter fun c => c != '_').map Char.toLower =
      t.radix.opening false := by
    cases t.radix <;> cases t.capital <;> rfl
  have hmark : ((bigMark t.big).filter fun c => c != '_').map Char.toLower = bigMark t.big := by
    cases t.big <;> rfl
  have hdigits : (t.writtenDigits.filter fun c => c != '_').map Char.toLower =
      t.digits.map Digit.small := by
    rw [writtenDigits, filter_intercalate hgroups, ← List.map_flatten, List.map_map, digits]
    exact List.map_congr_left fun d _ => d.toLower_char
  rw [written, List.filter_append, List.filter_append, List.map_append, List.map_append, hopening,
    hdigits, hmark]

section digits

variable {r : Radix} (ds : List (Digit r)) (big : Bool)

/-- The digits denote the number, whichever side they are counted from. -/
theorem valueOf_small :
    Decimal.valueOf r.base (ds.map Digit.small) = Digit.number ds := by
  induction ds using List.reverseRecOn with
  | nil => rfl
  | append_singleton ds d ih =>
    rw [List.map_append, List.map_singleton, valueOf_concat, ih, d.digitValue_small, Digit.number,
      Digit.number, List.reverse_concat, List.map_cons, Nat.ofDigits_cons, Option.getD_some]
    ring

/-- The final `n` is no digit. -/
theorem filter_small :
    (ds.map Digit.small ++ bigMark big).filter (fun c => c != 'n') = ds.map Digit.small := by
  have hdigits : (ds.map Digit.small).filter (fun c => c != 'n') = ds.map Digit.small := by
    refine List.filter_eq_self.2 fun c hc => ?_
    obtain ⟨d, -, rfl⟩ := List.mem_map.1 hc
    simpa using d.small_ne_n
  have hmark : (bigMark big).filter (fun c => c != 'n') = [] := by cases big <;> rfl
  rw [List.filter_append, hdigits, hmark, List.append_nil]

/-- Digits without a letter in front of them are digits of a decimal. -/
theorem isDigit_of_mem_small {ds : List (Digit .decimal)} :
    ∀ c ∈ ds.map Digit.small, Json.Reader.isDigit c = true := by
  have hall : ∀ n < 10, Json.Reader.isDigit (digitOf false n) = true := by decide
  intro c hc
  obtain ⟨d, -, rfl⟩ := List.mem_map.1 hc
  exact hall _ d.value.isLt

/-- No letter that says the radix follows the first digit of a decimal. -/
theorem small_append_mark_ne {ds : List (Digit .decimal)} {c : Char} {cs : List Char}
    (hc : Json.Reader.isDigit c = false) (hn : c ≠ 'n') :
    ds.map Digit.small ++ bigMark big ≠ '0' :: c :: cs := by
  intro he
  have hmem : c ∈ ds.map Digit.small ++ bigMark big := by simp [he]
  rcases List.mem_append.1 hmem with hmem | hmem
  · simp [isDigit_of_mem_small c hmem] at hc
  · cases big <;> simp [bigMark, hn] at hmem

/-- A decimal ends in `n` just where it is marked as exact. -/
theorem getLast?_small_append_mark {ds : List (Digit .decimal)} :
    (ds.map Digit.small ++ bigMark big).getLast? = some 'n' ↔ big = true := by
  cases big with
  | true => simp [bigMark]
  | false =>
    have hnone : ds.map Digit.small ++ bigMark false = ds.map Digit.small := List.append_nil _
    rw [hnone]
    refine ⟨fun hn => ?_, fun h => by cases h⟩
    exact absurd (isDigit_of_mem_small 'n' (List.mem_of_getLast? hn)) (by decide)

/-- What an integer spells that is written with small letters and no underscores. -/
theorem ofText_of_map_toLower {written : List Char}
    (h : (written.filter fun c => c != '_').map Char.toLower =
      r.opening false ++ ds.map Digit.small ++ bigMark big) :
    Numeral.ofText (String.ofList written) =
      if r != .decimal || big then .integer (Digit.number ds)
      else .decimal (Digit.number ds) 0 := by
  have hvalue := valueOf_small ds
  have hfilter := filter_small ds big
  rw [Numeral.ofText, String.toList_ofList]
  cases r with
  | binary | octal | hexadecimal =>
    rw [h]
    simp only [Radix.opening, Radix.base, Bool.false_eq_true, if_false, List.cons_append,
      List.nil_append] at hvalue ⊢
    rw [hfilter, hvalue]
    rfl
  | decimal =>
    rw [show Radix.opening false .decimal = [] from rfl, List.nil_append] at h
    have hlast : (ds.map Digit.small ++ bigMark big).getLast? = some 'n' ↔ big = true :=
      getLast?_small_append_mark big
    rw [h]
    split
    · exact absurd ‹_› (small_append_mark_ne big (by decide) (by decide))
    · exact absurd ‹_› (small_append_mark_ne big (by decide) (by decide))
    · exact absurd ‹_› (small_append_mark_ne big (by decide) (by decide))
    cases big with
    | true =>
      rw [if_pos (hlast.2 rfl)]
      dsimp only
      rw [hfilter, ← hvalue]
      rfl
    | false =>
      have hnone : ds.map Digit.small ++ bigMark false = ds.map Digit.small := List.append_nil _
      rw [if_neg fun hn => Bool.false_ne_true (hlast.1 hn), hnone,
        decimalOf_of_isDigit isDigit_of_mem_small, ← hvalue]
      rfl

end digits

/-! ### The value of an integer -/

section values

variable (t : IntegerText)

/-- An integer spells the number that it denotes, exactly or as a decimal. -/
theorem IntegerText.ofText_written : Numeral.ofText (String.ofList t.written) =
    if t.isExact then .integer t.value else .decimal t.value 0 :=
  ofText_of_map_toLower t.digits t.big t.map_toLower_written

/-- Below the bound of its notation, an integer is its value. -/
theorem numberValue_written (h : t.value < t.bound) :
    numberValue (String.ofList t.written) = .ok (.int t.value) := by
  rw [numberValue_eq, t.ofText_written]
  unfold IntegerText.bound at h
  cases ht : t.isExact with
  | true =>
    rw [ht, if_pos rfl] at h
    exact if_pos h
  | false =>
    rw [ht, if_neg (by decide)] at h
    obtain ⟨x, hx, hint⟩ := toInt_ofDecimal h
    have hsmall : (t.value : Int).natAbs < exactBound := h
    simp only [Bool.false_eq_true, if_false, hx, hint, if_pos hsmall]

/-- An integer that is taken exactly has no value where it is out of range. -/
theorem numberValue_of_bound_le (hexact : t.isExact = true) (h : 2 ^ 63 ≤ t.value) :
    numberValue (String.ofList t.written) = .error (.outOfRange (String.ofList t.written)) := by
  rw [numberValue_eq, t.ofText_written, hexact, if_pos rfl]
  exact if_neg (Nat.not_lt.2 h)

end values

/-! ### Where an integer ends -/

/-- The digits of a notation, as they are told where a numeral is read. -/
def Radix.isDigit : Radix → Char → Bool
  | .binary => fun c => c == '0' || c == '1'
  | .octal => fun c => '0' ≤ c && c ≤ '7'
  | .decimal => Char.isDigit
  | .hexadecimal => isHexDigit

/-- Only a decimal has no letter in front of its digits that tells the notation. -/
theorem Radix.opening_cases (r : Radix) (capital : Bool) : r = .decimal ∨
    ∃ letter, r.opening capital = ['0', letter] ∧ baseDigits? letter = some r.isDigit ∧
      letter ∉ ['.', 'e', 'E'] ∧ ('1' ≤ letter && letter ≤ '9') = false := by
  cases r with
  | decimal => exact .inl rfl
  | binary | octal | hexadecimal =>
    cases capital <;> exact .inr ⟨_, rfl, rfl, by decide, by decide⟩

theorem Digit.isDigit_char {r : Radix} (d : Digit r) : r.isDigit d.char = true := by
  have hall : ∀ r : Radix, ∀ n < r.base, ∀ capital, r.isDigit (digitOf capital n) = true := by
    intro r
    cases r <;> decide
  exact hall r _ d.value.isLt _

/-- Every digit may stand in a word. -/
theorem isWordPart_of_isDigit {r : Radix} {c : Char} (h : r.isDigit c = true) :
    isWordPart c = true := by
  have hall : ∀ n < 128, isHexDigit (Char.ofNat n) = true → isWordPart (Char.ofNat n) = true := by
    decide
  have hhex : isHexDigit c = true := by
    cases r with
    | binary =>
      simp only [Radix.isDigit, Bool.or_eq_true, beq_iff_eq] at h
      rcases h with rfl | rfl <;> rfl
    | octal => simp [isHexDigit, Piece.isDigit_of_isOctalDigit h]
    | decimal => simp [isHexDigit, show c.isDigit = true from h]
    | hexadecimal => exact h
  have hlt : c.toNat < 128 := by
    have := isHexDigit_iff.1 hhex
    omega
  have hc := hall c.toNat hlt
  rw [Char.ofNat_toNat] at hc
  exact hc hhex

section lengths

variable {isDigit : Char → Bool}

theorem digitsLength_cons {c : Char} (hc : c ≠ '_') (cs : List Char) :
    digitsLength isDigit (c :: cs) = if isDigit c then digitsLength isDigit cs + 1 else 0 := by
  rw [digitsLength]
  rintro _ _ rfl
  contradiction

/-- Digits are taken up to their end. -/
theorem digitsLength_append {g : List Char} (h : ∀ c ∈ g, isDigit c = true ∧ c ≠ '_')
    (tail : List Char) :
    digitsLength isDigit (g ++ tail) = g.length + digitsLength isDigit tail := by
  induction g with
  | nil => simp
  | cons c g ih =>
    rw [List.forall_mem_cons] at h
    rw [List.cons_append, digitsLength_cons h.1.2, if_pos h.1.1, ih h.2, List.length_cons]
    omega

theorem intercalate_cons_cons_head {α : Type} (sep : List α) (a : α) (g : List α)
    (gs : List (List α)) : sep.intercalate ((a :: g) :: gs) = a :: sep.intercalate (g :: gs) := by
  cases gs <;> simp

theorem mem_of_mem_intercalate {α : Type} {sep : List α} {gs : List (List α)} {a : α}
    (h : a ∈ sep.intercalate gs) : a ∈ sep ∨ ∃ g ∈ gs, a ∈ g := by
  induction gs with
  | nil => simp at h
  | cons g gs ih =>
    cases gs with
    | nil => exact .inr ⟨g, List.mem_cons_self, by simpa using h⟩
    | cons g' gs =>
      rw [List.intercalate_cons_cons, List.mem_append, List.mem_append] at h
      rcases h with (h | h) | h
      · exact .inr ⟨g, List.mem_cons_self, h⟩
      · exact .inl h
      · rcases ih h with hsep | ⟨g'', hg, hmem⟩
        · exact .inl hsep
        · exact .inr ⟨g'', List.mem_cons_of_mem _ hg, hmem⟩

/-- Groups of digits are taken with the underscores between them. -/
theorem digitsLength_intercalate {gs : List (List Char)}
    (h : ∀ g ∈ gs, g ≠ [] ∧ ∀ c ∈ g, isDigit c = true ∧ c ≠ '_') (tail : List Char) :
    digitsLength isDigit (['_'].intercalate gs ++ tail) =
      (['_'].intercalate gs).length + digitsLength isDigit tail := by
  induction gs with
  | nil => simp
  | cons g gs ih =>
    rw [List.forall_mem_cons] at h
    cases gs with
    | nil => simpa using digitsLength_append h.1.2 tail
    | cons g' gs =>
      have hrest := ih h.2
      obtain ⟨hne, hdigits⟩ := h.2 g' List.mem_cons_self
      obtain ⟨c, ds, rfl⟩ := List.exists_cons_of_ne_nil hne
      obtain ⟨hc, hscore⟩ := hdigits c List.mem_cons_self
      rw [intercalate_cons_cons_head, List.cons_append, digitsLength_cons hscore,
        if_pos hc] at hrest
      rw [List.intercalate_cons_cons, List.append_assoc, List.append_assoc,
        digitsLength_append h.1.2, intercalate_cons_cons_head, List.singleton_append,
        List.cons_append, digitsLength, if_pos hc]
      simp only [List.length_append, List.length_cons, List.length_nil] at hrest ⊢
      omega

/-- Behind a letter the digits of its notation are taken, and then a final `n`. -/
theorem integerLength_of_base {letter : Char} {isDigit : Char → Bool} {cs : List Char} {n : Nat}
    (hbase : baseDigits? letter = some isDigit) (hn : numberLength isDigit cs = n + 1) :
    integerLength ('0' :: letter :: cs) =
      if (cs.drop (n + 1)).head? = some 'n' then n + 4 else n + 3 := by
  simp [integerLength, hbase, hn]

/-- Where no letter of a notation comes, decimal digits are taken, and then a final `n`. -/
theorem integerLength_of_decimal {cs : List Char} {n : Nat}
    (hbase : ∀ letter tail, cs = '0' :: letter :: tail → baseDigits? letter = none)
    (hn : numberLength Char.isDigit cs = n + 1) :
    integerLength cs = if (cs.drop (n + 1)).head? = some 'n' then n + 2 else n + 1 := by
  unfold integerLength
  split
  · next letter tail =>
    simp [hbase letter tail rfl, hn]
  · simp [hn]

/-- The whole part of a decimal has all of its digits, or is a zero. -/
theorem wholeLength_of_decimal {cs : List Char} {n : Nat}
    (hn : numberLength Char.isDigit cs = n + 1) : wholeLength cs = n + 1 ∨ wholeLength cs = 1 := by
  unfold wholeLength
  split
  · split
    · exact .inl hn
    · exact .inr rfl
  · next c _ _ =>
    refine .inl ?_
    cases hc : c.isDigit with
    | true => exact hn
    | false => simp [numberLength, hc] at hn
  · cases hn

/-- What has neither a point nor an exponent behind its whole part is no decimal with a fraction. -/
theorem fractionLength_eq_zero {cs : List Char}
    (h : ∀ c ∈ (cs.drop (wholeLength cs)).head?, c ∉ ['.', 'e', 'E']) :
    fractionLength cs = 0 := by
  have hexponent : ∀ ds : List Char, (∀ c ∈ ds.head?, c ∉ ['.', 'e', 'E']) →
      exponentLength ds = 0 := by
    intro ds hds
    cases ds with
    | nil => rfl
    | cons c ds => simp_all [exponentLength]
  unfold fractionLength
  dsimp only
  generalize hn : wholeLength cs = n at h
  generalize cs.drop n = ds at h
  split
  · exact absurd List.mem_cons_self (h '.' rfl)
  · rfl
  · exact absurd List.mem_cons_self (h '.' rfl)
  · rw [hexponent ds h]
    rfl

/-- Behind a letter a numeral is read to the end of its digits and of a final `n`. -/
theorem numeralLength_of_base {letter : Char} {cs : List Char} {n : Nat}
    (hbase : baseDigits? letter = some isDigit) (hletter : letter ∉ ['.', 'e', 'E'])
    (hno : ('1' ≤ letter && letter ≤ '9') = false) (hn : numberLength isDigit cs = n + 1) :
    numeralLength ('0' :: letter :: cs) =
      if (cs.drop (n + 1)).head? = some 'n' then n + 4 else n + 3 := by
  have hwhole : wholeLength ('0' :: letter :: cs) = 1 := by
    rw [wholeLength, hno]
    rfl
  have hfraction : fractionLength ('0' :: letter :: cs) = 0 := by
    refine fractionLength_eq_zero ?_
    rw [hwhole]
    rintro _ ⟨⟩
    exact hletter
  rw [numeralLength, hfraction, integerLength_of_base hbase hn, Nat.zero_max]

/-- A numeral without a letter of a notation is read to the end of its digits and of a final `n`,
where neither a point nor an exponent is behind its first digit or behind its last one. -/
theorem numeralLength_of_decimal {cs : List Char} {n : Nat}
    (hsecond : ∀ c d tail, cs = c :: d :: tail → baseDigits? d = none ∧ d ∉ ['.', 'e', 'E'])
    (hbehind : ∀ d ∈ (cs.drop (n + 1)).head?, d ∉ ['.', 'e', 'E'])
    (hn : numberLength Char.isDigit cs = n + 1) :
    numeralLength cs = if (cs.drop (n + 1)).head? = some 'n' then n + 2 else n + 1 := by
  have hfraction : fractionLength cs = 0 := by
    refine fractionLength_eq_zero fun d hd => ?_
    rcases wholeLength_of_decimal hn with hwhole | hwhole
    · rw [hwhole] at hd
      exact hbehind d hd
    · rw [hwhole] at hd
      match cs, hd with
      | c :: d :: tail, rfl => exact (hsecond c d tail rfl).2
  rw [numeralLength, hfraction,
    integerLength_of_decimal (fun _ _ hcs => (hsecond _ _ _ hcs).1) hn, Nat.zero_max]

end lengths

namespace IntegerText

variable (t : IntegerText) {rest : List Char}

/-- The groups of digits are not empty and hold digits. -/
theorem isDigit_of_mem_group : ∀ g ∈ t.groups.map (List.map Digit.char),
    g ≠ [] ∧ ∀ c ∈ g, t.radix.isDigit c = true ∧ c ≠ '_' := by
  intro g hg
  obtain ⟨ds, hds, rfl⟩ := List.mem_map.1 hg
  refine ⟨by simpa using t.group_ne ds hds, fun c hc => ?_⟩
  obtain ⟨d, -, rfl⟩ := List.mem_map.1 hc
  exact ⟨d.isDigit_char, d.char_ne_underscore⟩

/-- An integer has a first digit. -/
theorem exists_writtenDigits :
    ∃ c cs, t.writtenDigits = c :: cs ∧ t.radix.isDigit c = true := by
  have hgroups := t.isDigit_of_mem_group
  rw [writtenDigits]
  obtain ⟨g, gs, hg⟩ := List.exists_cons_of_ne_nil t.groups_ne
  rw [hg, List.map_cons] at hgroups ⊢
  obtain ⟨hne, hdigits⟩ := hgroups _ List.mem_cons_self
  obtain ⟨c, ds, hc⟩ := List.exists_cons_of_ne_nil hne
  rw [hc] at hdigits ⊢
  exact ⟨c, _, intercalate_cons_cons_head _ _ _ _, (hdigits c List.mem_cons_self).1⟩

/-- Behind the digits comes no other digit. -/
theorem digitsLength_behind (hrest : ∀ c ∈ rest.head?, isWordPart c = false) :
    digitsLength t.radix.isDigit (bigMark t.big ++ rest) = 0 := by
  have hn : t.radix.isDigit 'n' = false := by cases t.radix <;> decide
  cases t.big with
  | true =>
    rw [bigMark, if_pos rfl, List.singleton_append, digitsLength_cons (by decide), hn]
    rfl
  | false =>
    rw [bigMark, if_neg (by decide), List.nil_append]
    cases rest with
    | nil => rfl
    | cons c rest =>
      have hc : isWordPart c = false := hrest c rfl
      have hscore : c ≠ '_' := by
        rintro rfl
        exact absurd hc (by decide)
      have hdigit : t.radix.isDigit c = false :=
        Bool.eq_false_iff.2 fun hd => by simp [isWordPart_of_isDigit hd] at hc
      rw [digitsLength_cons hscore, hdigit]
      rfl

/-- The digits of an integer are taken up to their end. -/
theorem numberLength_writtenDigits (hrest : ∀ c ∈ rest.head?, isWordPart c = false) :
    numberLength t.radix.isDigit (t.writtenDigits ++ (bigMark t.big ++ rest)) =
      t.writtenDigits.length := by
  obtain ⟨c, cs, hcons, hc⟩ := t.exists_writtenDigits
  have hhead : (t.writtenDigits ++ (bigMark t.big ++ rest)).head?.any t.radix.isDigit = true := by
    rw [hcons, List.cons_append, List.head?_cons, Option.any_some, hc]
  rw [numberLength, if_pos hhead, writtenDigits, digitsLength_intercalate t.isDigit_of_mem_group,
    t.digitsLength_behind hrest, Nat.add_zero]

/-- Behind the digits comes an `n` exactly if it is the final one. -/
theorem head_behind (hrest : ∀ c ∈ rest.head?, isWordPart c = false) :
    (bigMark t.big ++ rest).head? = some 'n' ↔ t.big = true := by
  have hn : rest.head? ≠ some 'n' := fun hn => absurd (hrest 'n' hn) (by decide)
  cases t.big with
  | true => simp [bigMark]
  | false => simpa [bigMark] using hn

/-- What is written of an integer behind its letter is digits, underscores and a final `n`. -/
theorem mem_writtenDigits {c : Char} (hc : c ∈ t.writtenDigits ++ bigMark t.big) :
    t.radix.isDigit c = true ∨ c = '_' ∨ c = 'n' := by
  rcases List.mem_append.1 hc with hc | hc
  · rw [writtenDigits] at hc
    rcases mem_of_mem_intercalate hc with hscore | ⟨g, hg, hmem⟩
    · exact .inr (.inl (List.mem_singleton.1 hscore))
    · exact .inl ((t.isDigit_of_mem_group g hg).2 c hmem).1
  · cases hbig : t.big <;> simp_all [bigMark]

/-- Neither what is written of a decimal nor what may follow it is a letter of a notation, a point
or an exponent. -/
theorem not_mem_of_follows {d : Char}
    (hd : d.isDigit = true ∨ d = '_' ∨ d = 'n' ∨ isWordPart d = false ∧ d ≠ '.') :
    d ∉ ['x', 'X', 'o', 'O', 'b', 'B', '.', 'e', 'E'] := by
  intro hmem
  revert hd
  fin_cases hmem <;> decide

/-- Behind the digits comes no point and no exponent. -/
theorem head_behind_ne (hrest : ∀ c ∈ rest.head?, isWordPart c = false ∧ c ≠ '.') {c : Char}
    (hc : c ∈ (bigMark t.big ++ rest).head?) : c ∉ ['.', 'e', 'E'] := by
  have hmem : c ∉ ['x', 'X', 'o', 'O', 'b', 'B', '.', 'e', 'E'] := by
    refine not_mem_of_follows (.inr (.inr ?_))
    cases hbig : t.big with
    | true =>
      rw [hbig] at hc
      exact .inl (Option.some.inj hc).symm
    | false =>
      rw [hbig] at hc
      exact .inr (hrest c hc)
  exact fun h => hmem (List.mem_append_right ['x', 'X', 'o', 'O', 'b', 'B'] h)

/-- Behind the first character of a decimal comes no letter of a notation, no point and no
exponent. -/
theorem second_of_decimal (hr : t.radix = .decimal)
    (hrest : ∀ c ∈ rest.head?, isWordPart c = false ∧ c ≠ '.') {c d : Char} {tail : List Char}
    (h : t.writtenDigits ++ (bigMark t.big ++ rest) = c :: d :: tail) :
    baseDigits? d = none ∧ d ∉ ['.', 'e', 'E'] := by
  have hd : d.isDigit = true ∨ d = '_' ∨ d = 'n' ∨ isWordPart d = false ∧ d ≠ '.' := by
    obtain ⟨c', cs, hcons, -⟩ := t.exists_writtenDigits
    have hmem := @t.mem_writtenDigits d
    rw [hcons] at h hmem
    rw [hr] at hmem
    rw [List.cons_append, List.cons.injEq, ← List.append_assoc, List.append_eq_cons_iff] at h
    obtain ⟨-, ⟨-, hrest'⟩ | ⟨_, hcs, -⟩⟩ := h
    · exact .inr (.inr (.inr (hrest d (by rw [hrest', List.head?_cons]; rfl))))
    · rcases hmem (by rw [List.cons_append, hcs]; simp) with hdigit | hscore | hn
      · exact .inl hdigit
      · exact .inr (.inl hscore)
      · exact .inr (.inr (.inl hn))
  have hnone := not_mem_of_follows hd
  constructor
  · unfold baseDigits?
    split <;> simp_all
  · exact fun hmem => hnone (List.mem_append_right ['x', 'X', 'o', 'O', 'b', 'B'] hmem)

/-- An integer is read as one numeral, up to what is no part of a word and no point. -/
theorem numeralLength_written (hrest : ∀ c ∈ rest.head?, isWordPart c = false ∧ c ≠ '.') :
    numeralLength (t.written ++ rest) = t.written.length := by
  have hword : ∀ c ∈ rest.head?, isWordPart c = false := fun c hc => (hrest c hc).1
  have hnumber := t.numberLength_writtenDigits hword
  have hdrop : (t.writtenDigits ++ (bigMark t.big ++ rest)).drop t.writtenDigits.length =
      bigMark t.big ++ rest := List.drop_left
  have hmark : (bigMark t.big).length = if t.big then 1 else 0 := by cases t.big <;> rfl
  obtain ⟨n, hn⟩ : ∃ n, t.writtenDigits.length = n + 1 := by
    obtain ⟨c, cs, hcons, -⟩ := t.exists_writtenDigits
    exact ⟨cs.length, by rw [hcons, List.length_cons]⟩
  rw [hn] at hnumber hdrop
  have hlength : t.written.length = (t.radix.opening t.capital).length + (n + 1) +
      if t.big then 1 else 0 := by
    rw [written, List.length_append, List.length_append, hn, hmark]
  have hwritten : t.written ++ rest =
      t.radix.opening t.capital ++ (t.writtenDigits ++ (bigMark t.big ++ rest)) := by
    simp [written]
  have hfinal := t.head_behind hword
  rw [← hdrop] at hfinal
  rw [hwritten, hlength]
  rcases t.radix.opening_cases t.capital with hr | ⟨letter, hopening, hbase, hletter, hno⟩
  · rw [hr] at hnumber
    have hnumeral := numeralLength_of_decimal (fun _ _ _ => t.second_of_decimal hr hrest)
      (fun d hd => t.head_behind_ne hrest (hdrop ▸ hd)) hnumber
    rw [hr, Radix.opening, List.nil_append, hnumeral]
    simp only [hfinal]
    cases t.big <;> simp
  · rw [hopening, List.cons_append, List.cons_append, List.nil_append,
      numeralLength_of_base hbase hletter hno hnumber]
    simp only [hfinal]
    cases t.big <;> simp <;> omega

end IntegerText

/-! ### Signs -/

/-- Whether an expression is another one in parentheses or other wrappers and with signs in front,
any number of them; `negative` tells whether the number of minus signs is odd. -/
inductive Signed (inner : Expr) : (negative : Bool) → Expr → Prop where
  /-- The expression itself. -/
  | bare : Signed inner false inner
  /-- Parentheses around it. -/
  | wrapped {negative : Bool} {span : Span} {e : Expr} (h : Signed inner negative e) :
      Signed inner negative (.wrapped span e)
  /-- A plus sign in front. -/
  | plus {negative : Bool} {span : Span} {e : Expr} (h : Signed inner negative e) :
      Signed inner negative (.unary span .plus e)
  /-- A minus sign in front. -/
  | minus {negative : Bool} {span : Span} {e : Expr} (h : Signed inner negative e) :
      Signed inner (!negative) (.unary span .minus e)

/-- An integer with a sign. -/
def signedInt (negative : Bool) (i : Int) : Int := if negative then -i else i

/-- No integer that is the value of an expression is out of the range of its opposite. -/
theorem natAbs_lt_of_evaluate {e : Expr} {i : Int} (h : evaluate e = .ok (.int i)) :
    i.natAbs < 2 ^ 63 := by
  obtain ⟨v, hv, hnumber⟩ := (numberLiteral_of_evaluate e h (.inl ⟨i, rfl⟩)).evaluate
  obtain rfl : Value.int i = v := Except.ok.inj (h.symm.trans hv)
  cases hnumber
  assumption

/-- So the opposite of a value is never refused. -/
theorem negated_of_evaluate {e : Expr} {i : Int} (h : evaluate e = .ok (.int i)) :
    negated? (.int i) = some (.int (-i)) := by
  have hlt := natAbs_lt_of_evaluate h
  have hne : i ≠ -(integerBound : Int) := by
    rintro rfl
    rw [Int.natAbs_neg, Int.natAbs_natCast, integerBound, Nat.pow_eq] at hlt
    exact absurd hlt (Nat.lt_irrefl _)
  rw [negated?, if_neg hne]

namespace Signed

variable {inner e : Expr} {negative : Bool}

/-- The signs in front of an integer are taken one after the other. -/
theorem evaluate_ok (h : Signed inner negative e) {i : Int} (hi : evaluate inner = .ok (.int i)) :
    evaluate e = .ok (.int (signedInt negative i)) := by
  induction h with
  | bare => exact hi
  | wrapped _ ih => rwa [evaluate]
  | plus _ ih => exact evaluate_unary_ok_iff.2 ⟨_, ih, rfl⟩
  | @minus negative _ _ _ ih =>
    have hopposite : signedInt (!negative) i = -signedInt negative i := by
      cases negative <;> simp [signedInt]
    exact evaluate_unary_ok_iff.2 ⟨_, ih, by rw [hopposite]; exact negated_of_evaluate ih⟩

/-- What has no value has none with signs in front. -/
theorem evaluate_error (h : Signed inner negative e) {fault : EvalError}
    (hf : evaluate inner = .error fault) : evaluate e = .error fault := by
  induction h with
  | bare => exact hf
  | wrapped _ ih => rwa [evaluate]
  | plus _ ih | minus _ ih =>
    rw [evaluate, ih]
    rfl

end Signed

/-! ### Signs in front of an integer -/

/-- An integer is read as one numeral, up to what is no part of a word and no point. With any signs
in front of it and in any parentheses, its value is exactly the number that it denotes, or the
opposite, where that number is below the bound of its notation: 2 ^ 63, or 2 ^ 53 for a decimal
without a final `n`. An integer that is no such decimal has no value from 2 ^ 63 on, and the fault
names it. No integer that is the value of an expression is without an opposite. -/
theorem evaluate_signed_integer :
    (∀ (t : IntegerText) (rest : List Char),
      (∀ c ∈ rest.head?, isWordPart c = false ∧ c ≠ '.') →
        numeralLength (t.written ++ rest) = t.written.length) ∧
    (∀ (t : IntegerText) (span : Span) (negative : Bool) (e : Expr),
      Signed (.number span (String.ofList t.written)) negative e →
        (t.value < t.bound → evaluate e = .ok (.int (signedInt negative t.value))) ∧
        (t.isExact = true → 2 ^ 63 ≤ t.value →
          evaluate e = .error (.outOfRange (String.ofList t.written)))) ∧
    ∀ (e : Expr) (i : Int), evaluate e = .ok (.int i) → negated? (.int i) = some (.int (-i)) := by
  refine ⟨fun t rest hrest => t.numeralLength_written hrest, ?_,
    fun e i h => negated_of_evaluate h⟩
  intro t span negative e hsigned
  constructor
  · intro hbound
    refine hsigned.evaluate_ok ?_
    rw [evaluate]
    exact numberValue_written t hbound
  · intro hexact hbound
    refine hsigned.evaluate_error ?_
    rw [evaluate]
    exact numberValue_of_bound_le t hexact hbound

/-- The integer `0XF_Fn`. -/
def largestByte : IntegerText where
  radix := .hexadecimal
  capital := true
  groups := [[⟨⟨15, by decide⟩, true⟩], [⟨⟨15, by decide⟩, true⟩]]
  big := true
  groups_ne := List.cons_ne_nil _ _
  group_ne := by simp
  no_leading_zero := nofun

/-- The integer `0o1` with 21 zeros behind it. -/
def firstOutOfRange : IntegerText where
  radix := .octal
  capital := false
  groups := [⟨⟨1, by decide⟩, false⟩ :: List.replicate 21 ⟨⟨0, by decide⟩, false⟩]
  big := false
  groups_ne := List.cons_ne_nil _ _
  group_ne := by simp
  no_leading_zero := nofun

/-- In front of a blank `0XF_Fn` is one numeral, and `-(+0XF_Fn)` is -255, which has an opposite;
the opposite of 2 ^ 63 is refused as 2 ^ 63 itself is. -/
theorem evaluate_signed_integer_sample :
    numeralLength ['0', 'X', 'F', '_', 'F', 'n', ' '] = 6 ∧
    evaluate (.unary default .minus (.wrapped default (.unary default .plus
      (.number default "0XF_Fn")))) = .ok (.int (-255)) ∧
    evaluate (.unary default .minus (.number default "0o1000000000000000000000")) =
      .error (.outOfRange "0o1000000000000000000000") ∧
    negated? (.int (-255)) = some (.int 255) := by
  have hbyte : largestByte.value = 255 := rfl
  have hwritten : String.ofList largestByte.written = "0XF_Fn" := rfl
  have hsigned : Signed (.number default (String.ofList largestByte.written)) true
      (.unary default .minus (.wrapped default (.unary default .plus
        (.number default (String.ofList largestByte.written))))) :=
    .minus (.wrapped (.plus .bare))
  have hout : firstOutOfRange.value = 2 ^ 63 := rfl
  have hwritten' : String.ofList firstOutOfRange.written = "0o1000000000000000000000" := rfl
  have hsigned' : Signed (.number default (String.ofList firstOutOfRange.written)) true
      (.unary default .minus (.number default (String.ofList firstOutOfRange.written))) :=
    .minus .bare
  obtain ⟨hlength, hvalue, hopposite⟩ := evaluate_signed_integer
  have hsample := (hvalue largestByte default true _ hsigned).1 (by rw [hbyte]; decide)
  have hrefused := (hvalue firstOutOfRange default true _ hsigned').2 rfl hout.ge
  rw [hwritten, hbyte] at hsample
  rw [hwritten'] at hrefused
  exact ⟨hlength largestByte [' '] (by simp; decide), hsample, hrefused, hopposite _ _ hsample⟩

end FileRoutes.Script
