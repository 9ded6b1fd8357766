import FileRoutes.Proofs.Rounding
import FileRoutes.Script.Literal

/-!
# Which expressions are literals

An expression has a value exactly if it is made of literals alone. The grammar of these
expressions is written down here without evaluating anything: which escapes name a character,
which numerals are in range, and which operands may have a sign are questions of spelling.

## The model

* `Decodable`, `TextPart.Denotes` — the escapes and the parts of texts that stand for characters.
* `Numeral` — what a numeral spells, and whether that is in range.
* `SpellsVerb` — whether a property spells a verb.
* `NumberLiteral`, `Literal` — the expressions that may have a sign, and all that have a value.
* `Inside` — the expressions at the value positions of an expression, at any depth.
* `Expr.bare`, `Expr.unplaced` — an expression without its wrappers, and without its places.
* `EvalError.unplaced`, `unplacedResult` — a fault and a result without the place of the fault.

## What is proved

* `numberValue_ok_iff` — a numeral has a value exactly if it is in range.
* `numberLiteral_iff` — the number literals are the expressions with a number as their value.
* `evaluate_ok_iff` — an expression has a value exactly if it is a literal.
* `Literal.inside` — what stands inside a literal is a literal.
* `evaluate_bare`, `evaluate_unplaced` — wrappers and places do not matter to the value.
* `evaluate_unplaced_eq` — places matter to the place of the fault only.

The main statement is `evaluates_iff_literal`, which puts these together.
-/

namespace FileRoutes.Script

open Binary64 (overflowBound)

section except

variable {ε α β : Type} {x : Except ε α}

theorem bind_ok_iff {f : α → Except ε β} {b : β} :
    x >>= f = .ok b ↔ ∃ a, x = .ok a ∧ f a = .ok b := by
  cases x <;> simp [bind, Except.bind]

theorem map_ok_iff {f : α → β} {b : β} : f <$> x = .ok b ↔ ∃ a, x = .ok a ∧ f a = b := by
  cases x <;> simp [Functor.map, Except.map]

theorem exists_map_ok_iff {f : α → β} : (∃ b, f <$> x = .ok b) ↔ ∃ a, x = .ok a := by
  cases x <;> simp [Functor.map, Except.map]

end except

/-! ### Texts -/

/-- The digits of an escape that names a character by its number. -/
def escapeDigits? : List Char → Option (List Char)
  | 'x' :: digits => some digits
  | 'u' :: '\x7b' :: digits => some digits.dropLast
  | 'u' :: digits => some digits
  | _ => none

/-- Whether an escape stands for characters; `body` is what follows the backslash. An escape by
number names a character that exists; in particular it names no half of a pair. -/
def Decodable (body : List Char) : Prop :=
  body ≠ [] ∧ ∀ digits ∈ escapeDigits? body, (Decimal.valueOf 16 digits).isValidChar

/-- Whether a part of a text stands for characters. -/
def TextPart.Denotes : TextPart → Prop
  | .plain _ => True
  | .escape body => Decodable body
  | .hole _ => False

/-- Whether the name of a member can be told without evaluating anything. -/
def Key.Denotes : Key → Prop
  | .name _ | .number _ => True
  | .text parts => ∀ part ∈ parts, part.Denotes
  | .other _ => False

/-- An escape by number denotes the character with this number. -/
theorem decodeEscape_of_digits {body digits : List Char} (h : escapeDigits? body = some digits) :
    decodeEscape body =
      match characterOf? digits with
      | some c => .ok [c]
      | none => .error (.invalidEscape body) := by
  unfold escapeDigits? at h
  split at h
  · obtain rfl := Option.some.inj h
    rfl
  · obtain rfl := Option.some.inj h
    rfl
  · next tail hbrace =>
    obtain rfl := Option.some.inj h
    cases tail with
    | nil => rfl
    | cons c cs =>
      have hc : c ≠ '\x7b' := fun he => hbrace cs (by rw [he])
      cases hchar : characterOf? (c :: cs) <;> simp only [decodeEscape, hchar]
  · contradiction

/-- Every other escape denotes something. -/
theorem exists_decodeEscape {body : List Char} (hne : body ≠ []) (h : escapeDigits? body = none) :
    ∃ cs, decodeEscape body = .ok cs := by
  unfold decodeEscape
  split
  any_goals exact ⟨_, rfl⟩
  · contradiction
  · simp [escapeDigits?] at h
  · simp [escapeDigits?] at h
  · unfold escapeDigits? at h
    split at h <;> simp_all
  · split <;> exact ⟨_, rfl⟩

theorem decodeEscape_ok_iff (body : List Char) :
    (∃ cs, decodeEscape body = .ok cs) ↔ Decodable body := by
  unfold Decodable
  cases h : escapeDigits? body with
  | none =>
    constructor
    · rintro ⟨cs, hcs⟩
      refine ⟨?_, by simp⟩
      rintro rfl
      contradiction
    · exact fun hd => exists_decodeEscape hd.1 h
  | some digits =>
    have hne : body ≠ [] := by
      rintro rfl
      contradiction
    rw [decodeEscape_of_digits h, characterOf?]
    by_cases hvalid : (Decimal.valueOf 16 digits).isValidChar
    · rw [dif_pos hvalid]
      exact iff_of_true ⟨_, rfl⟩ ⟨hne, by simpa using hvalid⟩
    · rw [dif_neg hvalid]
      simp [hvalid]

theorem decodeParts_plain (written : List Char) (parts : List TextPart) :
    decodeParts (.plain written :: parts) = (written ++ ·) <$> decodeParts parts := by
  rw [decodeParts]
  cases decodeParts parts <;> rfl

theorem decodeParts_escape_ok_iff {body : List Char} {parts : List TextPart} {cs : List Char} :
    decodeParts (.escape body :: parts) = .ok cs ↔
      ∃ decoded rest, decodeEscape body = .ok decoded ∧ decodeParts parts = .ok rest ∧
        cs = decoded ++ rest := by
  rw [decodeParts]
  cases decodeEscape body <;> cases decodeParts parts <;>
    simp [bind, Except.bind, pure, Except.pure, eq_comm]

theorem decodeParts_ok_iff (parts : List TextPart) :
    (∃ cs, decodeParts parts = .ok cs) ↔ ∀ part ∈ parts, part.Denotes := by
  induction parts with
  | nil => simp [decodeParts]
  | cons part parts ih =>
    rw [List.forall_mem_cons, ← ih]
    cases part with
    | plain written => simp [decodeParts_plain, map_ok_iff, TextPart.Denotes]
    | escape body =>
      simp only [decodeParts_escape_ok_iff, TextPart.Denotes, ← decodeEscape_ok_iff]
      constructor
      · rintro ⟨cs, decoded, rest, hdecoded, hrest, -⟩
        exact ⟨⟨decoded, hdecoded⟩, rest, hrest⟩
      · rintro ⟨⟨decoded, hdecoded⟩, rest, hrest⟩
        exact ⟨_, decoded, rest, hdecoded, hrest, rfl⟩
    | hole span => simp [decodeParts, TextPart.Denotes]

theorem keyName_ok_iff (key : Key) : (∃ name, keyName key = .ok name) ↔ key.Denotes := by
  cases key with
  | name written => simp [keyName, Key.Denotes]
  | number written => simp [keyName, Key.Denotes]
  | text parts =>
    rw [Key.Denotes, ← decodeParts_ok_iff, keyName]
    cases decodeParts parts <;> simp
  | other span => simp [keyName, Key.Denotes]

/-! ### Numbers -/

/-- What a numeral spells. -/
inductive Numeral where
  /-- An integer that is taken exactly. -/
  | integer (n : Nat)
  /-- The decimal `significand * 10 ^ power`, which is rounded. -/
  | decimal (significand : Nat) (power : Int)

namespace Numeral

/-- The numeral that is written: an integer behind `0x`, `0o` or `0b` or with a final `n`, and
otherwise a decimal. Underscores say nothing, and the letters may be capitals. -/
def ofText (written : String) : Numeral :=
  let digits := (written.toList.filter fun c => c != '_').map Char.toLower
  let integerIn (base : Nat) (ds : List Char) : Numeral :=
    integer (Decimal.valueOf base (ds.filter fun c => c != 'n'))
  match digits with
  | '0' :: 'x' :: ds => integerIn 16 ds
  | '0' :: 'o' :: ds => integerIn 8 ds
  | '0' :: 'b' :: ds => integerIn 2 ds
  | _ =>
    if digits.getLast? = some 'n' then integerIn 10 digits
    else decimal (decimalOf digits).1 (decimalOf digits).2

/-- Whether a numeral is in range: an integer in that of the integers with 64 bits and a sign, a
decimal in that of the floating-point numbers. -/
def InRange : Numeral → Prop
  | integer n => n < 2 ^ 63
  | decimal significand power =>
    significand * 10 ^ power.toNat < overflowBound * 10 ^ (-power).toNat

end Numeral

/-- A value that is a number, and no integer beyond 64 bits. -/
inductive IsNumber : Value → Prop where
  /-- An integer. -/
  | int {i : Int} (h : i.natAbs < 2 ^ 63) : IsNumber (.int i)
  /-- A floating-point number. -/
  | float (x : Binary64) : IsNumber (.float x)

/-- The value of a numeral by what it spells. -/
theorem numberValue_eq (written : String) :
    numberValue written =
      match Numeral.ofText written with
      | .integer n => integerValue written n
      | .decimal significand power =>
        match Binary64.ofDecimal false significand power with
        | none => .error (.notFinite written)
        | some x =>
          match x.toInt? with
          | some i => if i.natAbs < exactBound then .ok (.int i) else .ok (.float x)
          | none => .ok (.float x) := by
  simp only [numberValue, Numeral.ofText]
  generalize (written.toList.filter fun c => c != '_').map Char.toLower = digits
  split
  · rfl
  · rfl
  · rfl
  · by_cases hlast : digits.getLast? = some 'n'
    · simp only [if_pos hlast]
    · cases hx : Binary64.ofDecimal false (decimalOf digits).1 (decimalOf digits).2 with
      | none => simp only [if_neg hlast, hx]
      | some x => cases hi : x.toInt? <;> simp only [if_neg hlast, hx, hi]

/-- A numeral in range has a number as its value. -/
theorem exists_isNumber {written : String} (h : (Numeral.ofText written).InRange) :
    ∃ v, numberValue written = .ok v ∧ IsNumber v := by
  rw [numberValue_eq]
  cases hn : Numeral.ofText written with
  | integer n =>
    rw [hn] at h
    refine ⟨.int n, ?_, .int h⟩
    exact if_pos (by rwa [integerBound, Nat.pow_eq])
  | decimal significand power =>
    rw [hn, Numeral.InRange, ← Nat.not_le, ← Binary64.ofDecimal_eq_none_iff false] at h
    obtain ⟨x, hx⟩ := Option.ne_none_iff_exists'.1 h
    simp only [hx]
    split
    · split
      · next hi =>
        refine ⟨_, rfl, .int (Nat.lt_of_lt_of_le hi ?_)⟩
        rw [exactBound, Nat.pow_eq]
        exact Nat.pow_le_pow_right (by decide) (by decide)
      · exact ⟨_, rfl, .float x⟩
    · exact ⟨_, rfl, .float x⟩

/-- A numeral has a value exactly if it is in range. -/
theorem numberValue_ok_iff (written : String) :
    (∃ v, numberValue written = .ok v) ↔ (Numeral.ofText written).InRange := by
  refine ⟨fun ⟨v, hv⟩ => ?_, fun h => (exists_isNumber h).imp fun _ => And.left⟩
  rw [numberValue_eq] at hv
  cases hn : Numeral.ofText written with
  | integer n =>
    by_contra hout
    have hbound : ¬ n < integerBound := by rwa [integerBound, Nat.pow_eq]
    simp only [hn, integerValue, if_neg hbound] at hv
    contradiction
  | decimal significand power =>
    rw [Numeral.InRange, ← Nat.not_le, ← Binary64.ofDecimal_eq_none_iff false]
    intro hnone
    simp only [hn, hnone] at hv
    contradiction

/-- A sign in front of a number gives a number. -/
theorem signedValue_of_isNumber {sign : Sign} (hsign : sign ≠ .other) {v : Value}
    (h : IsNumber v) : ∃ w, signedValue? sign v = some w ∧ IsNumber w := by
  cases sign with
  | other => contradiction
  | plus => cases h <;> exact ⟨_, rfl, by constructor <;> assumption⟩
  | minus =>
    cases h with
    | float x => exact ⟨_, rfl, .float _⟩
    | @int i h =>
      have hfits : i ≠ -(integerBound : Int) := by
        rintro rfl
        rw [Int.natAbs_neg, Int.natAbs_natCast, integerBound, Nat.pow_eq] at h
        exact absurd h (Nat.lt_irrefl _)
      exact ⟨.int (-i), by simp [signedValue?, negated?, hfits], .int (by rwa [Int.natAbs_neg])⟩

/-- Only a number has a value with an operator in front of it, and only with a sign. -/
theorem of_signedValue {sign : Sign} {v w : Value} (h : signedValue? sign v = some w) :
    sign ≠ .other ∧ ((∃ i, v = .int i) ∨ ∃ x, v = .float x) := by
  cases sign <;> cases v <;> simp [signedValue?, negated?] at h ⊢

/-! ### Evaluation, one construct at a time -/

theorem evaluate_object (span : Span) (members : Members) :
    evaluate (.object span members) = .object <$> evaluateMembers members [] := by
  rw [evaluate]
  cases evaluateMembers members [] <;> rfl

theorem evaluate_array (span : Span) (elements : Elements) :
    evaluate (.array span elements) = .array <$> evaluateElements elements := by
  rw [evaluate]
  cases evaluateElements elements <;> rfl

theorem evaluate_text (span : Span) (parts : List TextPart) :
    evaluate (.text span parts) = (fun cs => .text (String.ofList cs)) <$> decodeParts parts := by
  rw [evaluate]
  cases decodeParts parts <;> rfl

theorem evaluate_unary_ok_iff {span : Span} {sign : Sign} {operand : Expr} {w : Value} :
    evaluate (.unary span sign operand) = .ok w ↔
      ∃ v, evaluate operand = .ok v ∧ signedValue? sign v = some w := by
  rw [evaluate, bind_ok_iff]
  refine exists_congr fun v => and_congr_right fun _ => ?_
  cases signedValue? sign v <;> simp [pure, Except.pure, throw, throwThe, MonadExceptOf.throw]

theorem evaluateMembers_pair_ok_iff {key : Key} {value : Expr} {rest : Members}
    {before out : List (String × Value)} :
    evaluateMembers (.pair key value rest) before = .ok out ↔
      ∃ name v, keyName key = .ok name ∧ evaluate value = .ok v ∧
        evaluateMembers rest (Value.insert name v before) = .ok out := by
  rw [evaluateMembers, bind_ok_iff]
  refine exists_congr fun name => ?_
  rw [bind_ok_iff, ← exists_and_left]

theorem evaluateElements_item_ok_iff {element : Expr} {rest : Elements} {vs : List Value} :
    evaluateElements (.item element rest) = .ok vs ↔
      ∃ v ws, evaluate element = .ok v ∧ evaluateElements rest = .ok ws ∧ vs = v :: ws := by
  rw [evaluateElements]
  cases evaluate element <;> cases evaluateElements rest <;>
    simp [bind, Except.bind, pure, Except.pure, eq_comm]

/-! ### The grammar -/

/-- Whether a property spells a verb: in any case, blanks around it not counted. -/
def SpellsVerb (property : String) : Prop :=
  ∃ m : Http.Method, Text.upper (Text.trim property) = m.verb

/-- Expressions that may have a sign: numerals in range, with any number of signs and wrappers. -/
inductive NumberLiteral : Expr → Prop where
  /-- A numeral in range. -/
  | number {span : Span} {written : String} (h : (Numeral.ofText written).InRange) :
      NumberLiteral (.number span written)
  /-- A number in a wrapper. -/
  | wrapped {span : Span} {inner : Expr} (h : NumberLiteral inner) :
      NumberLiteral (.wrapped span inner)
  /-- A number with a sign in front. -/
  | signed {span : Span} {sign : Sign} {operand : Expr} (hsign : sign ≠ .other)
      (h : NumberLiteral operand) : NumberLiteral (.unary span sign operand)

mutual

/-- Expressions made of literals alone. -/
inductive Literal : Expr → Prop where
  /-- A literal in a wrapper. -/
  | wrapped {span : Span} {inner : Expr} (h : Literal inner) : Literal (.wrapped span inner)
  /-- An object, all of whose members are pairs with a key and a literal. -/
  | object {span : Span} {members : Members} (h : LiteralMembers members) :
      Literal (.object span members)
  /-- An array of literals. -/
  | array {span : Span} {elements : Elements} (h : LiteralElements elements) :
      Literal (.array span elements)
  /-- A text made of characters and escapes that stand for characters. -/
  | text {span : Span} {parts : List TextPart} (h : ∀ part ∈ parts, part.Denotes) :
      Literal (.text span parts)
  /-- A numeral in range. -/
  | number {span : Span} {written : String} (h : (Numeral.ofText written).InRange) :
      Literal (.number span written)
  /-- `true` or `false`. -/
  | boolean {span : Span} {value : Bool} : Literal (.boolean span value)
  /-- `null`. -/
  | null {span : Span} : Literal (.null span)
  /-- `undefined`. -/
  | undefined {span : Span} : Literal (.undefined span)
  /-- A sign in front of a number. -/
  | signed {span : Span} {sign : Sign} {operand : Expr} (hsign : sign ≠ .other)
      (h : NumberLiteral operand) : Literal (.unary span sign operand)
  /-- A member of a bare name that spells a verb. -/
  | verb {span inner : Span} {written property : String} (h : SpellsVerb property) :
      Literal (.member span (.name inner written) property)

/-- Members that are pairs of a key and a literal. -/
inductive LiteralMembers : Members → Prop where
  /-- No more members. -/
  | nil : LiteralMembers .nil
  /-- One more pair. -/
  | pair {key : Key} {value : Expr} {rest : Members} (hkey : key.Denotes) (hvalue : Literal value)
      (hrest : LiteralMembers rest) : LiteralMembers (.pair key value rest)

/-- Positions that hold literals or nothing. -/
inductive LiteralElements : Elements → Prop where
  /-- No more positions. -/
  | nil : LiteralElements .nil
  /-- A position without an element. -/
  | hole {rest : Elements} (hrest : LiteralElements rest) : LiteralElements (.hole rest)
  /-- A position with a literal. -/
  | item {element : Expr} {rest : Elements} (helement : Literal element)
      (hrest : LiteralElements rest) : LiteralElements (.item element rest)

end

theorem parse_isSome_iff (property : String) :
    (Http.Method.parse? property).isSome ↔ SpellsVerb property := by
  have hall : ∀ m : Http.Method, m ∈ Http.Method.all := by
    intro m
    cases m <;> decide
  rw [Http.Method.parse?, List.find?_isSome]
  constructor
  · rintro ⟨m, -, hm⟩
    exact ⟨m, (beq_iff_eq.1 hm).symm⟩
  · rintro ⟨m, hm⟩
    exact ⟨m, hall m, beq_iff_eq.2 hm.symm⟩

/-- A member has a value exactly if it is that of a bare name and spells a verb. -/
theorem evaluate_member_ok_iff {span : Span} {object : Expr} {property : String} {v : Value} :
    evaluate (.member span object property) = .ok v ↔
      (∃ inner written, object = .name inner written) ∧ SpellsVerb property ∧
        v = .text property := by
  rw [← parse_isSome_iff]
  cases object with
  | name inner written =>
    rw [evaluate]
    cases (Http.Method.parse? property).isSome <;> simp [eq_comm]
  | _ => simp [evaluate]

/-- A number literal has a number as its value. -/
theorem NumberLiteral.evaluate {e : Expr} (h : NumberLiteral e) :
    ∃ v, evaluate e = .ok v ∧ IsNumber v := by
  induction h with
  | number h => exact exists_isNumber h
  | wrapped _ ih => exact ih
  | signed hsign _ ih =>
    obtain ⟨v, hv, hnumber⟩ := ih
    obtain ⟨w, hw, hsigned⟩ := signedValue_of_isNumber hsign hnumber
    exact ⟨w, evaluate_unary_ok_iff.2 ⟨v, hv, hw⟩, hsigned⟩

/-- Only a number literal has a number as its value. -/
theorem numberLiteral_of_evaluate : (e : Expr) → {v : Value} → evaluate e = .ok v →
    ((∃ i, v = .int i) ∨ ∃ x, v = .float x) → NumberLiteral e
  | .wrapped _ inner, _, h, hnumber => .wrapped (numberLiteral_of_evaluate inner h hnumber)
  | .number _ written, v, h, _ => .number ((numberValue_ok_iff written).1 ⟨v, h⟩)
  | .unary _ _ operand, _, h, _ => by
    obtain ⟨v, hv, hsigned⟩ := evaluate_unary_ok_iff.1 h
    obtain ⟨hsign, hnumber⟩ := of_signedValue hsigned
    exact .signed hsign (numberLiteral_of_evaluate operand hv hnumber)
  | .object _ members, v, h, hnumber => by
    rw [evaluate_object, map_ok_iff] at h
    obtain ⟨out, -, rfl⟩ := h
    simp at hnumber
  | .array _ elements, v, h, hnumber => by
    rw [evaluate_array, map_ok_iff] at h
    obtain ⟨out, -, rfl⟩ := h
    simp at hnumber
  | .text _ parts, v, h, hnumber => by
    rw [evaluate_text, map_ok_iff] at h
    obtain ⟨out, -, rfl⟩ := h
    simp at hnumber
  | .boolean _ _, _, h, hnumber | .null _, _, h, hnumber | .undefined _, _, h, hnumber => by
    cases h
    simp at hnumber
  | .member _ object property, v, h, hnumber => by
    obtain ⟨-, -, rfl⟩ := evaluate_member_ok_iff.1 h
    simp at hnumber
  | .name _ _, _, h, _ | .function _ _, _, h, _ | .assignment _ _ _, _, h, _
  | .other _, _, h, _ => by
    rw [evaluate] at h
    contradiction

theorem numberLiteral_iff (e : Expr) :
    NumberLiteral e ↔ ∃ v, evaluate e = .ok v ∧ ((∃ i, v = .int i) ∨ ∃ x, v = .float x) := by
  refine ⟨fun h => ?_, fun ⟨v, hv, hnumber⟩ => numberLiteral_of_evaluate e hv hnumber⟩
  obtain ⟨v, hv, hnumber⟩ := h.evaluate
  refine ⟨v, hv, ?_⟩
  cases hnumber with
  | int _ => exact .inl ⟨_, rfl⟩
  | float x => exact .inr ⟨x, rfl⟩

mutual

/-- An expression has a value exactly if it is a literal. -/
theorem evaluate_ok_iff : (e : Expr) → ((∃ v, evaluate e = .ok v) ↔ Literal e)
  | .wrapped _ inner => by
    rw [evaluate, evaluate_ok_iff inner]
    exact ⟨.wrapped, fun h => by cases h; assumption⟩
  | .object _ members => by
    rw [evaluate_object, exists_map_ok_iff, evaluateMembers_ok_iff members]
    exact ⟨.object, fun h => by cases h; assumption⟩
  | .array _ elements => by
    rw [evaluate_array, exists_map_ok_iff, evaluateElements_ok_iff elements]
    exact ⟨.array, fun h => by cases h; assumption⟩
  | .text _ parts => by
    rw [evaluate_text, exists_map_ok_iff, decodeParts_ok_iff]
    exact ⟨.text, fun h => by cases h; assumption⟩
  | .number _ written => by
    rw [evaluate, numberValue_ok_iff]
    exact ⟨.number, fun h => by cases h; assumption⟩
  | .boolean _ _ => ⟨fun _ => .boolean, fun _ => ⟨_, by rw [evaluate]⟩⟩
  | .null _ => ⟨fun _ => .null, fun _ => ⟨_, by rw [evaluate]⟩⟩
  | .undefined _ => ⟨fun _ => .undefined, fun _ => ⟨_, by rw [evaluate]⟩⟩
  | .unary _ _ operand => by
    simp only [evaluate_unary_ok_iff]
    constructor
    · rintro ⟨w, v, hv, hsigned⟩
      obtain ⟨hsign, hnumber⟩ := of_signedValue hsigned
      exact .signed hsign (numberLiteral_of_evaluate operand hv hnumber)
    · intro h
      cases h with
      | signed hsign hoperand =>
        obtain ⟨v, hv, hnumber⟩ := hoperand.evaluate
        obtain ⟨w, hw, -⟩ := signedValue_of_isNumber hsign hnumber
        exact ⟨w, v, hv, hw⟩
  | .member _ object property => by
    simp only [evaluate_member_ok_iff]
    constructor
    · rintro ⟨v, ⟨inner, written, rfl⟩, hverb, -⟩
      exact .verb hverb
    · intro h
      cases h with
      | verb hverb => exact ⟨_, ⟨_, _, rfl⟩, hverb, rfl⟩
  | .name _ _ | .function _ _ | .assignment _ _ _ | .other _ => by
    rw [evaluate]
    exact ⟨fun ⟨_, h⟩ => by contradiction, fun h => by cases h⟩

/-- Members have values exactly if they are pairs of keys and literals. -/
theorem evaluateMembers_ok_iff : (members : Members) → (before : List (String × Value)) →
    ((∃ out, evaluateMembers members before = .ok out) ↔ LiteralMembers members)
  | .nil, before => by simp [evaluateMembers, LiteralMembers.nil]
  | .other _ rest, before => by
    rw [evaluateMembers]
    exact ⟨fun ⟨_, h⟩ => by contradiction, fun h => by cases h⟩
  | .pair key value rest, before => by
    simp only [evaluateMembers_pair_ok_iff]
    constructor
    · rintro ⟨out, name, v, hname, hv, hout⟩
      exact .pair ((keyName_ok_iff key).1 ⟨name, hname⟩) ((evaluate_ok_iff value).1 ⟨v, hv⟩)
        ((evaluateMembers_ok_iff rest _).1 ⟨out, hout⟩)
    · intro h
      cases h with
      | pair hkey hvalue hrest =>
        obtain ⟨name, hname⟩ := (keyName_ok_iff key).2 hkey
        obtain ⟨v, hv⟩ := (evaluate_ok_iff value).2 hvalue
        obtain ⟨out, hout⟩ := (evaluateMembers_ok_iff rest (Value.insert name v before)).2 hrest
        exact ⟨out, name, v, hname, hv, hout⟩

/-- Positions have values exactly if they hold literals or nothing. -/
theorem evaluateElements_ok_iff : (elements : Elements) →
    ((∃ vs, evaluateElements elements = .ok vs) ↔ LiteralElements elements)
  | .nil => by simp [evaluateElements, LiteralElements.nil]
  | .hole rest => by
    rw [evaluateElements, evaluateElements_ok_iff rest]
    exact ⟨.hole, fun h => by cases h; assumption⟩
  | .item element rest => by
    simp only [evaluateElements_item_ok_iff]
    constructor
    · rintro ⟨vs, v, ws, hv, hws, -⟩
      exact .item ((evaluate_ok_iff element).1 ⟨v, hv⟩) ((evaluateElements_ok_iff rest).1 ⟨ws, hws⟩)
    · intro h
      cases h with
      | item helement hrest =>
        obtain ⟨v, hv⟩ := (evaluate_ok_iff element).2 helement
        obtain ⟨ws, hws⟩ := (evaluateElements_ok_iff rest).2 hrest
        exact ⟨v :: ws, v, ws, hv, hws, rfl⟩

end

/-! ### What is inside an expression -/

/-- The keys and values of the pairs among some members. -/
def Members.pairs : Members → List (Key × Expr)
  | .nil => []
  | .pair key value rest => (key, value) :: rest.pairs
  | .other _ rest => rest.pairs

/-- The elements of an array without its holes. -/
def Elements.items : Elements → List Expr
  | .nil => []
  | .hole rest => rest.items
  | .item element rest => element :: rest.items

/-- Whether an expression stands at a value position of another, at any depth: it is the other
one, or stands inside what is in a wrapper, an operand, the value of a pair or an element. -/
inductive Inside (inner : Expr) : Expr → Prop where
  /-- The expression itself. -/
  | here : Inside inner inner
  /-- Inside a wrapper. -/
  | wrapped {span : Span} {e : Expr} (h : Inside inner e) : Inside inner (.wrapped span e)
  /-- Inside the operand of an operator. -/
  | operand {span : Span} {sign : Sign} {e : Expr} (h : Inside inner e) :
      Inside inner (.unary span sign e)
  /-- Inside the value of a pair. -/
  | value {span : Span} {members : Members} {pair : Key × Expr} (hmem : pair ∈ members.pairs)
      (h : Inside inner pair.2) : Inside inner (.object span members)
  /-- Inside an element. -/
  | element {span : Span} {elements : Elements} {e : Expr} (hmem : e ∈ elements.items)
      (h : Inside inner e) : Inside inner (.array span elements)

theorem NumberLiteral.literal {e : Expr} (h : NumberLiteral e) : Literal e := by
  induction h with
  | number h => exact .number h
  | wrapped _ ih => exact .wrapped ih
  | signed hsign h _ => exact .signed hsign h

theorem LiteralMembers.of_mem : {members : Members} → LiteralMembers members →
    ∀ pair ∈ members.pairs, Literal pair.2
  | .nil, _ => by simp [Members.pairs]
  | .other _ _, h => by cases h
  | .pair _ _ _, h => by
    cases h with
    | pair _ hvalue hrest => exact List.forall_mem_cons.2 ⟨hvalue, hrest.of_mem⟩

theorem LiteralElements.of_mem : {elements : Elements} → LiteralElements elements →
    ∀ e ∈ elements.items, Literal e
  | .nil, _ => by simp [Elements.items]
  | .hole _, h => by
    cases h with
    | hole hrest => exact hrest.of_mem
  | .item _ _, h => by
    cases h with
    | item helement hrest => exact List.forall_mem_cons.2 ⟨helement, hrest.of_mem⟩

/-- What stands inside a literal is a literal. -/
theorem Literal.inside {inner e : Expr} (hinside : Inside inner e) (h : Literal e) :
    Literal inner := by
  induction hinside with
  | here => exact h
  | wrapped _ ih =>
    cases h with
    | wrapped h => exact ih h
  | operand _ ih =>
    cases h with
    | signed _ hoperand => exact ih hoperand.literal
  | value hmem _ ih =>
    cases h with
    | object hmembers => exact ih (hmembers.of_mem _ hmem)
  | element hmem _ ih =>
    cases h with
    | array helements => exact ih (helements.of_mem _ hmem)

/-! ### Wrappers and places -/

mutual

/-- An expression without the wrappers at its value positions. -/
def Expr.bare : Expr → Expr
  | .wrapped _ inner => inner.bare
  | .object span members => .object span members.bare
  | .array span elements => .array span elements.bare
  | .unary span sign operand => .unary span sign operand.bare
  | e => e

/-- Members without the wrappers at their value positions. -/
def Members.bare : Members → Members
  | .nil => .nil
  | .pair key value rest => .pair key value.bare rest.bare
  | .other span rest => .other span rest.bare

/-- Positions without the wrappers at their value positions. -/
def Elements.bare : Elements → Elements
  | .nil => .nil
  | .hole rest => .hole rest.bare
  | .item element rest => .item element.bare rest.bare

end

/-- The place that stands for all places. -/
def noPlace : Span := ⟨0, 0⟩

/-- A part of a text without its place. -/
def TextPart.unplaced : TextPart → TextPart
  | .plain written => .plain written
  | .escape body => .escape body
  | .hole _ => .hole noPlace

/-- A key without its place. -/
def Key.unplaced : Key → Key
  | .name written => .name written
  | .number written => .number written
  | .text parts => .text (parts.map TextPart.unplaced)
  | .other _ => .other noPlace

mutual

/-- An expression without its places. -/
def Expr.unplaced : Expr → Expr
  | .object _ members => .object noPlace members.unplaced
  | .array _ elements => .array noPlace elements.unplaced
  | .text _ parts => .text noPlace (parts.map TextPart.unplaced)
  | .number _ written => .number noPlace written
  | .boolean _ value => .boolean noPlace value
  | .null _ => .null noPlace
  | .undefined _ => .undefined noPlace
  | .unary _ sign operand => .unary noPlace sign operand.unplaced
  | .member _ object property => .member noPlace object.unplaced property
  | .name _ written => .name noPlace written
  | .wrapped _ inner => .wrapped noPlace inner.unplaced
  | .function _ own => .function noPlace own
  | .assignment _ target value => .assignment noPlace target value.unplaced
  | .other _ => .other noPlace

/-- Members without their places. -/
def Members.unplaced : Members → Members
  | .nil => .nil
  | .pair key value rest => .pair key.unplaced value.unplaced rest.unplaced
  | .other _ rest => .other noPlace rest.unplaced

/-- Positions without their places. -/
def Elements.unplaced : Elements → Elements
  | .nil => .nil
  | .hole rest => .hole rest.unplaced
  | .item element rest => .item element.unplaced rest.unplaced

end

mutual

/-- Wrappers at value positions change neither the value nor the fault. -/
theorem evaluate_bare : (e : Expr) → evaluate e.bare = evaluate e
  | .wrapped _ inner => by rw [Expr.bare, evaluate_bare inner, evaluate]
  | .object _ members => by
    rw [Expr.bare, evaluate_object, evaluateMembers_bare members, evaluate_object]
  | .array _ elements => by
    rw [Expr.bare, evaluate_array, evaluateElements_bare elements, evaluate_array]
  | .unary _ _ operand => by rw [Expr.bare, evaluate, evaluate_bare operand, evaluate]
  | .text _ _ | .number _ _ | .boolean _ _ | .null _ | .undefined _ | .member _ _ _ | .name _ _
  | .function _ _ | .assignment _ _ _ | .other _ => rfl

theorem evaluateMembers_bare : (members : Members) → (before : List (String × Value)) →
    evaluateMembers members.bare before = evaluateMembers members before
  | .nil, _ => rfl
  | .other _ _, _ => by rw [Members.bare, evaluateMembers, evaluateMembers]
  | .pair _ value rest, _ => by
    rw [Members.bare, evaluateMembers, evaluate_bare value, evaluateMembers]
    simp only [evaluateMembers_bare rest]

theorem evaluateElements_bare : (elements : Elements) →
    evaluateElements elements.bare = evaluateElements elements
  | .nil => rfl
  | .hole rest => by
    rw [Elements.bare, evaluateElements, evaluateElements_bare rest, evaluateElements]
  | .item element rest => by
    rw [Elements.bare, evaluateElements, evaluate_bare element, evaluateElements_bare rest,
      evaluateElements]

end

/-- A fault without its place. -/
def EvalError.unplaced : EvalError → EvalError
  | .unsupported _ => .unsupported noPlace
  | .invalidEscape body => .invalidEscape body
  | .outOfRange written => .outOfRange written
  | .notFinite written => .notFinite written

/-- A result, its fault without its place. -/
def unplacedResult {α : Type} : Except EvalError α → Except EvalError α :=
  Except.mapError EvalError.unplaced

section unplacedResult

variable {α β : Type} (x : Except EvalError α)

theorem unplacedResult_bind (f : α → Except EvalError β) :
    unplacedResult (x >>= f) = unplacedResult x >>= fun a => unplacedResult (f a) := by
  cases x <;> rfl

theorem unplacedResult_map (f : α → β) :
    unplacedResult (f <$> x) = f <$> unplacedResult x := by
  cases x <;> rfl

theorem unplacedResult_ok_iff {a : α} : unplacedResult x = .ok a ↔ x = .ok a := by
  cases x <;> simp [unplacedResult, Except.mapError]

end unplacedResult

/-- No fault of an escape has a place. -/
theorem unplacedResult_decodeEscape (body : List Char) :
    unplacedResult (decodeEscape body) = decodeEscape body := by
  cases hdigits : escapeDigits? body with
  | some digits =>
    rw [decodeEscape_of_digits hdigits]
    cases characterOf? digits <;> rfl
  | none =>
    cases body with
    | nil => rfl
    | cons c cs =>
      obtain ⟨decoded, hdecoded⟩ := exists_decodeEscape (List.cons_ne_nil c cs) hdigits
      rw [hdecoded]
      rfl

/-- No fault of a numeral has a place. -/
theorem unplacedResult_numberValue (written : String) :
    unplacedResult (numberValue written) = numberValue written := by
  rw [numberValue_eq]
  cases Numeral.ofText written with
  | integer n =>
    dsimp only [integerValue]
    split <;> rfl
  | decimal significand power =>
    dsimp only
    split
    · rfl
    · split
      · split <;> rfl
      · rfl

theorem decodeParts_unplaced (parts : List TextPart) :
    decodeParts (parts.map TextPart.unplaced) = unplacedResult (decodeParts parts) := by
  induction parts with
  | nil => rfl
  | cons part parts ih =>
    cases part with
    | plain written =>
      rw [List.map_cons, TextPart.unplaced, decodeParts_plain, decodeParts_plain, ih,
        unplacedResult_map]
    | escape body =>
      rw [List.map_cons, TextPart.unplaced, decodeParts, decodeParts, ih, unplacedResult_bind,
        unplacedResult_decodeEscape]
      refine congrArg _ (funext fun decoded => ?_)
      rw [unplacedResult_bind]
      rfl
    | hole span => rfl

theorem keyName_unplaced (key : Key) : keyName key.unplaced = unplacedResult (keyName key) := by
  cases key with
  | name written | number written | other span => rfl
  | text parts => rw [Key.unplaced, keyName, decodeParts_unplaced, keyName, unplacedResult_map]

mutual

/-- Where an expression stands matters to the place of its fault only. -/
theorem evaluate_unplaced_eq : (e : Expr) → evaluate e.unplaced = unplacedResult (evaluate e)
  | .wrapped _ inner => by rw [Expr.unplaced, evaluate, evaluate_unplaced_eq inner, evaluate]
  | .object _ members => by
    rw [Expr.unplaced, evaluate_object, evaluateMembers_unplaced members, evaluate_object,
      unplacedResult_map]
  | .array _ elements => by
    rw [Expr.unplaced, evaluate_array, evaluateElements_unplaced elements, evaluate_array,
      unplacedResult_map]
  | .text _ parts => by
    rw [Expr.unplaced, evaluate_text, decodeParts_unplaced, evaluate_text, unplacedResult_map]
  | .unary _ sign operand => by
    rw [Expr.unplaced, evaluate, evaluate_unplaced_eq operand, evaluate, unplacedResult_bind]
    refine congrArg _ (funext fun v => ?_)
    cases signedValue? sign v <;> rfl
  | .member _ object property => by
    cases object with
    | name _ _ =>
      rw [Expr.unplaced, Expr.unplaced, evaluate, evaluate]
      split <;> rfl
    | _ => simp [Expr.unplaced, evaluate, unplacedResult, Except.mapError, EvalError.unplaced]
  | .number _ written => by
    rw [Expr.unplaced, evaluate, evaluate, unplacedResult_numberValue]
  | .boolean _ _ | .null _ | .undefined _ | .name _ _ | .function _ _ | .assignment _ _ _
  | .other _ => by
    rw [Expr.unplaced, evaluate, evaluate]
    rfl

theorem evaluateMembers_unplaced : (members : Members) → (before : List (String × Value)) →
    evaluateMembers members.unplaced before = unplacedResult (evaluateMembers members before)
  | .nil, _ => by rw [Members.unplaced, evaluateMembers]; rfl
  | .other _ _, _ => by rw [Members.unplaced, evaluateMembers, evaluateMembers]; rfl
  | .pair key value rest, before => by
    rw [Members.unplaced, evaluateMembers, evaluateMembers, keyName_unplaced, unplacedResult_bind]
    simp only [evaluate_unplaced_eq value, unplacedResult_bind, evaluateMembers_unplaced rest]

theorem evaluateElements_unplaced : (elements : Elements) →
    evaluateElements elements.unplaced = unplacedResult (evaluateElements elements)
  | .nil => by rw [Elements.unplaced, evaluateElements]; rfl
  | .hole rest => by
    rw [Elements.unplaced, evaluateElements, evaluateElements_unplaced rest, evaluateElements]
  | .item element rest => by
    rw [Elements.unplaced, evaluateElements, evaluateElements, evaluate_unplaced_eq element,
      evaluateElements_unplaced rest]
    simp only [unplacedResult_bind]
    rfl

end

/-- The value of an expression does not depend on where it stands. -/
theorem evaluate_unplaced (e : Expr) {v : Value} :
    evaluate e.unplaced = .ok v ↔ evaluate e = .ok v := by
  rw [evaluate_unplaced_eq, unplacedResult_ok_iff]

/-! ### The main statement -/

/-- An expression has a value exactly if it is a literal. Where anything inside has no value,
the whole has none. Wrappers at value positions, taken away or put in anywhere, change neither
the value nor whether there is one. -/
theorem evaluates_iff_literal (e : Expr) :
    ((∃ v, evaluate e = .ok v) ↔ Literal e) ∧
      (∀ inner, Inside inner e → ¬ Literal inner → ∃ fault, evaluate e = .error fault) ∧
      (∀ e' : Expr, e'.bare.unplaced = e.bare.unplaced →
        ∀ v, evaluate e' = .ok v ↔ evaluate e = .ok v) := by
  refine ⟨evaluate_ok_iff e, fun inner hinside hinner => ?_, fun e' hsame v => ?_⟩
  · cases he : evaluate e with
    | error fault => exact ⟨fault, rfl⟩
    | ok v =>
      have hliteral : Literal e := (evaluate_ok_iff e).1 ⟨v, he⟩
      exact absurd (hliteral.inside hinside) hinner
  · calc evaluate e' = .ok v
      _ ↔ evaluate e'.bare.unplaced = .ok v := by rw [evaluate_unplaced, evaluate_bare]
      _ ↔ evaluate e = .ok v := by rw [hsame, evaluate_unplaced, evaluate_bare]

theorem evaluates_iff_literal_sample :
    (∃ fault, evaluate (.array ⟨0, 6⟩
      (.item (.number ⟨1, 2⟩ "1") (.item (.name ⟨4, 5⟩ "a") .nil))) = .error fault) ∧
    evaluate (.wrapped ⟨0, 8⟩ (.unary ⟨1, 7⟩ .minus (.wrapped ⟨2, 7⟩ (.number ⟨3, 6⟩ "0x1")))) =
      .ok (.int (-1)) :=
  ⟨(evaluates_iff_literal _).2.1 (.name ⟨4, 5⟩ "a") (.element (by simp [Elements.items]) .here)
      (by rintro ⟨⟩),
    ((evaluates_iff_literal (.unary ⟨0, 4⟩ .minus (.number ⟨1, 4⟩ "0x1"))).2.2 _ rfl _).2 rfl⟩

/-- Blanks around a verb do not count, and a property may hold the blank with the number 85 in
hexadecimal: such a member has a value, though its property is no verb in any case. -/
theorem evaluate_verb_before_blank :
    evaluate (.member ⟨0, 15⟩ (.name ⟨0, 10⟩ "HttpMethod") "GET\u0085") =
        .ok (.text "GET\u0085") ∧
      ¬ ∃ m : Http.Method, Text.upper "GET\u0085" = m.verb := by
  refine ⟨evaluate_member_ok_iff.2 ⟨⟨_, _, rfl⟩, ⟨.get, by decide +kernel⟩, rfl⟩, ?_⟩
  rintro ⟨m, hm⟩
  revert hm
  cases m <;> decide +kernel

end FileRoutes.Script
