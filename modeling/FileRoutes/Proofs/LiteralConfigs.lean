import FileRoutes.Proofs.JsonConfigs
import Mathlib

/-!
# Configs read back from literals

The text that a config is written as is JSON, and so it is a literal of a script too. The parser
of scripts is not looked at here: it is assumed to give the text its tree, in which an object is a
list of pairs with texts as keys, an array a list of elements, and a text is cut into plain
characters and escapes in some way.

## The model

* `Json.Tree` — a text in JSON as a tree, with `Tree.written`, its text, and `Tree.value`, what it
  denotes.
* `Expr.spells` — whether an expression is the tree that the parser gives a text.
* `Config.toTree` — a config as a tree; its text is the one the config is written as.
* `ScriptForm` — the four ways in which a script may hold a config.

The main statement is `load_written`: a config is loaded back from its own text, as JSON and as a
literal in each of the four ways.
-/

namespace FileRoutes.Script

open Json (escape simpleEscape? hexDigit)

/-! ### Numbers -/

/-- The number that digits denote is that of all but the last, shifted, and the last. -/
theorem valueOf_concat (base : Nat) (ds : List Char) (c : Char) :
    Decimal.valueOf base (ds ++ [c]) =
      Decimal.valueOf base ds * base + (Decimal.digitValue? c).getD 0 := by
  simp [Decimal.valueOf]

theorem valueOf_digitsOf (n : Nat) : Decimal.valueOf 10 (Decimal.digitsOf n) = n := by
  have hdigit : ∀ d < 10, (Decimal.digitValue? (Nat.digitChar d)).getD 0 = d := by decide
  induction n using Nat.strongRecOn with
  | ind n ih =>
    rw [Json.Reader.digitsOf_eq]
    split
    · simp [Decimal.valueOf, hdigit n ‹_›]
    · rw [valueOf_concat, ih (n / 10) (by omega), hdigit _ (Nat.mod_lt n (by omega))]
      omega

theorem scaledFloor_one (n k : Nat) : Binary64.scaledFloor n 1 (-(k : Int)) = n * 2 ^ k := by
  rw [Binary64.scaledFloor]
  split
  · obtain rfl : k = 0 := by omega
    simp
  · simp [Nat.pow_eq]

theorem scaledRound_one (n k : Nat) : Binary64.scaledRound n 1 (-(k : Int)) = n * 2 ^ k := by
  by_cases hk : k = 0
  · subst hk
    simp [Binary64.scaledRound, Nat.mod_one]
  · simp [Binary64.scaledRound, hk, Nat.mod_one, Nat.pow_eq]

/-- The exponent of a number with at most 53 binary digits makes it one with 53. -/
theorem exponentOf_one {n : Nat} (hpos : n ≠ 0) (h : n.log2 < 53) :
    Binary64.exponentOf n 1 = -((52 - n.log2 : Nat) : Int) := by
  have hfloor : ¬ Binary64.scaledFloor n 1 ((n.log2 : Int) - Nat.log2 1 - 53) < Nat.pow 2 53 := by
    have hexp : (n.log2 : Int) - Nat.log2 1 - 53 = -((53 - n.log2 : Nat) : Int) := by
      rw [show Nat.log2 1 = 0 by decide]
      omega
    rw [hexp, scaledFloor_one, Nat.pow_eq, Nat.not_lt]
    calc 2 ^ 53 = 2 ^ n.log2 * 2 ^ (53 - n.log2) := by rw [← Nat.pow_add]; congr 1; omega
      _ ≤ n * 2 ^ (53 - n.log2) := Nat.mul_le_mul_right _ (Nat.log2_self_le hpos)
  simp only [Binary64.exponentOf, hfloor, if_false, Binary64.leastExponent]
  rw [show Nat.log2 1 = 0 by decide]
  omega

/-- A number of at most 53 binary digits is exact. -/
theorem toInt_ofRatio {n : Nat} (hpos : n ≠ 0) (h : n < exactBound) :
    ∃ x, Binary64.ofRatio false n 1 = some x ∧ x.toInt? = some (n : Int) := by
  have hlog : n.log2 < 53 := (Nat.log2_lt hpos).2 h
  have hscaled : n * 2 ^ (52 - n.log2) < 2 ^ 53 := by
    calc n * 2 ^ (52 - n.log2) < 2 ^ (n.log2 + 1) * 2 ^ (52 - n.log2) :=
          Nat.mul_lt_mul_of_pos_right Nat.lt_log2_self (Nat.two_pow_pos _)
      _ = 2 ^ 53 := by rw [← Nat.pow_add]; congr 1; omega
  generalize hk : 52 - n.log2 = k at *
  refine ⟨⟨false, n * 2 ^ k, -(k : Int)⟩, ?_, ?_⟩
  · have hne : n * 2 ^ k ≠ Nat.pow 2 53 := Nat.ne_of_lt hscaled
    simp only [Binary64.ofRatio, if_neg hpos, exponentOf_one hpos hlog, hk, scaledRound_one,
      if_neg hne, Binary64.greatestExponent]
    exact if_neg (by omega)
  · by_cases hzero : k = 0
    · subst hzero
      simp [Binary64.toInt?]
    · have hdiv : n * 2 ^ k / 2 ^ k = n := Nat.mul_div_cancel _ (Nat.two_pow_pos k)
      simp [Binary64.toInt?, hzero, Nat.pow_eq, hdiv]

theorem toInt_ofDecimal {n : Nat} (h : n < exactBound) :
    ∃ x, Binary64.ofDecimal false n 0 = some x ∧ x.toInt? = some (n : Int) := by
  by_cases hpos : n = 0
  · subst hpos
    exact ⟨⟨false, 0, Binary64.leastExponent⟩, by simp [Binary64.ofDecimal], by decide +kernel⟩
  have hlog : n.log2 < 53 := (Nat.log2_lt hpos).2 h
  obtain ⟨x, hx, hint⟩ := toInt_ofRatio hpos h
  refine ⟨x, ?_, hint⟩
  rw [← hx]
  simp only [Binary64.ofDecimal]
  rw [if_neg (by omega), if_neg (by omega), if_pos (Int.le_refl 0)]
  simp

theorem not_mem_digitsOf {c : Char} (h : Json.Reader.isDigit c = false) (n : Nat) :
    c ∉ Decimal.digitsOf n :=
  fun hm => by simp [Json.Reader.isDigit_of_mem hm] at h

/-- Digits have no capital letters and no underscores. -/
theorem map_toLower_digitsOf (n : Nat) :
    ((Decimal.digitsOf n).filter fun c => c != '_').map Char.toLower = Decimal.digitsOf n := by
  have hlower : ∀ c ∈ Decimal.digitsOf n, c.toLower = c := by
    intro c hc
    have hdigit := Json.Reader.isDigit_of_mem hc
    simp only [Json.Reader.isDigit, Bool.and_eq_true, decide_eq_true_eq, Char.le_def] at hdigit
    rw [Char.toLower, dif_neg]
    rintro ⟨hle, -⟩
    have := UInt32.le_trans hle hdigit.2
    contradiction
  have hkept : (Decimal.digitsOf n).filter (fun c => c != '_') = Decimal.digitsOf n := by
    refine List.filter_eq_self.2 fun c hc => ?_
    simpa using fun he : c = '_' => not_mem_digitsOf (by decide) n (he ▸ hc)
  rw [hkept, List.map_congr_left hlower, List.map_id']

/-- Digits alone have neither a fraction nor an exponent. -/
theorem decimalOf_of_isDigit {ds : List Char} (h : ∀ c ∈ ds, Json.Reader.isDigit c = true) :
    decimalOf ds = (Decimal.valueOf 10 ds, 0) := by
  have hall : ∀ d, Json.Reader.isDigit d = false → ds.takeWhile (fun c => c != d) = ds := by
    intro d hd
    rw [List.takeWhile_eq_self_iff]
    intro c hc
    have hne : c ≠ d := by
      rintro rfl
      rw [h c hc] at hd
      contradiction
    simpa using hne
  simp only [decimalOf, hall 'e' (by decide), hall '.' (by decide), List.drop_length,
    List.drop_nil, List.append_nil]
  rfl

theorem decimalOf_digitsOf (n : Nat) : decimalOf (Decimal.digitsOf n) = (n, 0) := by
  rw [decimalOf_of_isDigit fun c hc => Json.Reader.isDigit_of_mem hc, valueOf_digitsOf]

/-- The digits of a number denote it, where it is exact. -/
theorem numberValue_spelled {n : Nat} (h : n < exactBound) :
    numberValue (Decimal.spelled n) = .ok (.int n) := by
  have hdigits : ((Decimal.spelled n).toList.filter fun c => c != '_').map Char.toLower =
      Decimal.digitsOf n := by
    rw [Decimal.spelled, String.toList_ofList, map_toLower_digitsOf]
  have hlast : (Decimal.digitsOf n).getLast? ≠ some 'n' := fun hn =>
    not_mem_digitsOf (by decide) n (List.mem_of_getLast? hn)
  have hmark : ∀ c ds, Json.Reader.isDigit c = false → Decimal.digitsOf n ≠ '0' :: c :: ds :=
    fun c ds hc he => not_mem_digitsOf hc n (by simp [he])
  obtain ⟨x, hx, hint⟩ := toInt_ofDecimal h
  have hsmall : (n : Int).natAbs < exactBound := h
  simp only [numberValue, hdigits]
  split
  · exact absurd ‹_› (hmark 'x' _ (by decide))
  · exact absurd ‹_› (hmark 'o' _ (by decide))
  · exact absurd ‹_› (hmark 'b' _ (by decide))
  · rw [if_neg hlast]
    simp only [decimalOf_digitsOf, hx, hint, if_pos hsmall]

/-! ### Texts -/

namespace TextPart

/-- The characters that a part of a text is spelled with. -/
def spelling : TextPart → List Char
  | plain written => written
  | escape body => '\\' :: body
  | hole _ => []

/-- Whether a part is plain characters or one whole escape. -/
def isWhole : TextPart → Bool
  | plain written => !written.contains '\\'
  | escape [letter] => letter != 'u'
  | escape [mark, d₁, d₂, d₃, d₄] => mark == 'u' && [d₁, d₂, d₃, d₄].all isHexDigit
  | _ => false

end TextPart

/-- Whether the parts are a text, cut somehow, as it is written inside its quotes. -/
def spellsText (parts : List TextPart) (s : String) : Bool :=
  parts.all TextPart.isWhole && parts.flatMap TextPart.spelling == s.toList.flatMap escape

theorem decodeEscape_letter {letter c : Char} (h : simpleEscape? letter = some c) :
    decodeEscape [letter] = .ok [c] := by
  unfold simpleEscape? at h
  split at h <;> first | (obtain rfl := Option.some.inj h; rfl) | contradiction

theorem decodeEscape_hexDigits {c : Char} (h : c.toNat < 32) :
    decodeEscape ['u', '0', '0', hexDigit (c.toNat / 16), hexDigit c.toNat] = .ok [c] := by
  have hall : ∀ n < 32, decodeEscape ['u', '0', '0', hexDigit (n / 16), hexDigit n] =
      .ok [Char.ofNat n] := by decide
  rw [hall _ h, Char.ofNat_toNat]

/-- Plain characters stand for themselves. -/
theorem exists_append_of_plain {w y cs : List Char} (h : '\\' ∉ w)
    (he : w ++ y = cs.flatMap escape) : ∃ ds, cs = w ++ ds ∧ y = ds.flatMap escape := by
  induction w generalizing cs with
  | nil => exact ⟨cs, rfl, he⟩
  | cons c w ih =>
    cases cs with
    | nil => simp at he
    | cons d ds =>
      rw [List.flatMap_cons] at he
      obtain ⟨hd, -⟩ | ⟨letter, hd, -⟩ | ⟨hd, -⟩ := Json.escape_cases d
      · obtain ⟨rfl, hrest⟩ : c = d ∧ w ++ y = ds.flatMap escape := by simpa [hd] using he
        obtain ⟨es, rfl, hy⟩ := ih (fun hm => h (List.mem_cons_of_mem _ hm)) hrest
        exact ⟨es, rfl, hy⟩
      · obtain ⟨rfl, -⟩ : c = '\\' ∧ _ := by simpa [hd] using he
        simp at h
      · obtain ⟨rfl, -⟩ : c = '\\' ∧ _ := by simpa [hd] using he
        simp at h

theorem TextPart.cases_of_isWhole {body : List Char} (h : (TextPart.escape body).isWhole = true) :
    (∃ d₁ d₂ d₃ d₄, body = ['u', d₁, d₂, d₃, d₄]) ∨ ∃ letter, body = [letter] ∧ letter ≠ 'u' := by
  unfold isWhole at h
  split at h
  · contradiction
  · rename_i he
    exact .inr ⟨_, TextPart.escape.inj he, by simpa using h⟩
  · rename_i he
    obtain ⟨hmark, -⟩ := Bool.and_eq_true_iff.1 h
    rw [beq_iff_eq] at hmark
    exact .inl ⟨_, _, _, _, by rw [TextPart.escape.inj he, hmark]⟩
  · contradiction

/-- A whole escape stands for one character. -/
theorem exists_cons_of_escape {body y cs : List Char} (h : (TextPart.escape body).isWhole = true)
    (he : '\\' :: (body ++ y) = cs.flatMap escape) :
    ∃ c ds, cs = c :: ds ∧ decodeEscape body = .ok [c] ∧ y = ds.flatMap escape := by
  cases cs with
  | nil => simp at he
  | cons c ds =>
    refine ⟨c, ds, rfl, ?_⟩
    rw [List.flatMap_cons] at he
    obtain ⟨hc, -, hslash, -⟩ | ⟨letter, hc, hletter, hsimple⟩ | ⟨hc, hcontrol⟩ :=
      Json.escape_cases c
    · obtain ⟨hs, -⟩ : '\\' = c ∧ _ := by simpa [hc] using he
      exact absurd hs.symm hslash
    · obtain ⟨d₁, d₂, d₃, d₄, rfl⟩ | ⟨other, rfl, -⟩ := TextPart.cases_of_isWhole h
      · obtain ⟨hu, -⟩ : 'u' = letter ∧ _ := by simpa [hc] using he
        exact absurd hu.symm hletter
      · obtain ⟨rfl, hy⟩ : other = letter ∧ y = ds.flatMap escape := by simpa [hc] using he
        exact ⟨decodeEscape_letter hsimple, hy⟩
    · obtain ⟨d₁, d₂, d₃, d₄, rfl⟩ | ⟨other, rfl, hother⟩ := TextPart.cases_of_isWhole h
      · obtain ⟨rfl, rfl, rfl, rfl, hy⟩ : d₁ = '0' ∧ d₂ = '0' ∧ d₃ = hexDigit (c.toNat / 16) ∧
            d₄ = hexDigit c.toNat ∧ y = ds.flatMap escape := by simpa [hc] using he
        exact ⟨decodeEscape_hexDigits hcontrol, hy⟩
      · obtain ⟨hu, -⟩ : other = 'u' ∧ _ := by simpa [hc] using he
        exact absurd hu hother

/-- The parts of a written text denote it, however it is cut. -/
theorem decodeParts_of_spelling {parts : List TextPart} {cs : List Char}
    (hparts : ∀ part ∈ parts, part.isWhole = true)
    (h : parts.flatMap TextPart.spelling = cs.flatMap escape) : decodeParts parts = .ok cs := by
  induction parts generalizing cs with
  | nil =>
    cases cs with
    | nil => rfl
    | cons c ds =>
      simp only [List.flatMap_nil, List.flatMap_cons] at h
      exact absurd (List.append_eq_nil_iff.1 h.symm).1 (Json.escape_ne_nil c)
  | cons part parts ih =>
    have hpart := hparts part List.mem_cons_self
    have hrest := fun p hp => hparts p (List.mem_cons_of_mem part hp)
    rw [List.flatMap_cons] at h
    cases part with
    | plain written =>
      have hplain : '\\' ∉ written := by simpa [TextPart.isWhole] using hpart
      obtain ⟨ds, rfl, hds⟩ := exists_append_of_plain hplain h
      rw [decodeParts, ih hrest hds]
      rfl
    | escape body =>
      obtain ⟨c, ds, rfl, hbody, hds⟩ := exists_cons_of_escape hpart h
      rw [decodeParts, hbody, ih hrest hds]
      rfl
    | hole span => simp [TextPart.isWhole] at hpart

theorem decodeParts_of_spellsText {parts : List TextPart} {s : String}
    (h : spellsText parts s = true) : decodeParts parts = .ok s.toList := by
  obtain ⟨hparts, hspelling⟩ := Bool.and_eq_true_iff.1 h
  exact decodeParts_of_spelling (List.all_eq_true.1 hparts) (by simpa using hspelling)

end FileRoutes.Script

/-! ### Trees -/

namespace FileRoutes.Json

open Script (exactBound)

/-- A text in JSON as a tree, as far as a config needs it. -/
inductive Tree where
  /-- A text. -/
  | text (s : String)
  /-- A number without sign, fraction and exponent that is exact. -/
  | number (n : Fin exactBound)
  /-- An array. -/
  | array (items : List Tree)
  /-- An object, its members in the order in which they are written. -/
  | object (members : List (String × Tree))

namespace Tree

theorem sizeOf_lt_of_mem_items {t : Tree} {items : List Tree} (h : t ∈ items) :
    sizeOf t < sizeOf (array items) := by
  have hitem := List.sizeOf_lt_of_mem h
  rw [array.sizeOf_spec]
  omega

theorem sizeOf_lt_of_mem_members {m : String × Tree} {members : List (String × Tree)}
    (h : m ∈ members) : sizeOf m.2 < sizeOf (object members) := by
  have hmember := List.sizeOf_lt_of_mem h
  obtain ⟨name, t⟩ := m
  rw [Prod.mk.sizeOf_spec] at hmember
  rw [object.sizeOf_spec]
  show sizeOf t < _
  omega

/-- The text of a tree, without blanks. -/
def written : Tree → String
  | text s => writtenText s
  | number n => Decimal.spelled n
  | array items => writtenList (items.map written)
  | object members => writtenObject (members.map fun m => writtenMember m.1 m.2.written)
decreasing_by
  · exact sizeOf_lt_of_mem_items ‹_›
  · exact sizeOf_lt_of_mem_members ‹_›

/-- What a tree denotes. -/
def value : Tree → Value
  | text s => .text s
  | number n => .int n.val
  | array items => .array (items.map value)
  | object members =>
    .object (members.foldl (fun before m => Value.insert m.1 m.2.value before) [])
decreasing_by
  · exact sizeOf_lt_of_mem_items ‹_›
  · exact sizeOf_lt_of_mem_members ‹_›

end Tree

end FileRoutes.Json

namespace FileRoutes.Script

open Json (Tree)

mutual

/-- Whether an expression is the tree that a parser gives the text of a tree in JSON: a text is
cut into parts, and a number and a name are as they are written. -/
def Expr.spells : Expr → Tree → Bool
  | .text _ parts, .text s => spellsText parts s
  | .number _ spelled, .number n => spelled == Decimal.spelled n
  | .array _ elements, .array items => elements.spells items
  | .object _ members, .object pairs => members.spells pairs
  | _, _ => false

/-- The same for the elements of an array, in order. -/
def Elements.spells : Elements → List Tree → Bool
  | .nil, [] => true
  | .item element rest, t :: ts => element.spells t && rest.spells ts
  | _, _ => false

/-- The same for the members of an object, in order. -/
def Members.spells : Members → List (String × Tree) → Bool
  | .nil, [] => true
  | .pair (.text parts) value rest, (name, t) :: ms =>
    spellsText parts name && value.spells t && rest.spells ms
  | _, _ => false

end

mutual

/-- The tree of a text denotes what the text denotes. -/
theorem evaluate_of_spells : ∀ {e : Expr} {t : Tree}, e.spells t = true → evaluate e = .ok t.value
  | .text _ parts, .text s, h => by
    rw [evaluate, Tree.value, decodeParts_of_spellsText h]
    exact congrArg (fun s => Except.ok (Value.text s)) String.ofList_toList
  | .number _ spelled, .number n, h => by
    have hspelled : spelled = Decimal.spelled n := by simpa [Expr.spells] using h
    rw [evaluate, Tree.value, hspelled, numberValue_spelled n.isLt]
  | .array _ elements, .array items, h => by
    rw [evaluate, Tree.value, evaluateElements_of_spells h]
    rfl
  | .object _ members, .object pairs, h => by
    rw [evaluate, Tree.value, evaluateMembers_of_spells [] h]
    rfl

theorem evaluateElements_of_spells : ∀ {es : Elements} {ts : List Tree}, es.spells ts = true →
    evaluateElements es = .ok (ts.map Tree.value)
  | .nil, [], _ => rfl
  | .item element rest, t :: ts, h => by
    obtain ⟨hitem, hrest⟩ := Bool.and_eq_true_iff.1 h
    rw [evaluateElements, evaluate_of_spells hitem, evaluateElements_of_spells hrest]
    rfl

theorem evaluateMembers_of_spells : ∀ {es : Members} {ms : List (String × Tree)}
    (before : List (String × Value)), es.spells ms = true →
    evaluateMembers es before =
      .ok (ms.foldl (fun before m => Value.insert m.1 m.2.value before) before)
  | .nil, [], _, _ => rfl
  | .pair (.text parts) value rest, (name, t) :: ms, before, h => by
    obtain ⟨hpair, hrest⟩ := Bool.and_eq_true_iff.1 h
    obtain ⟨hname, hvalue⟩ := Bool.and_eq_true_iff.1 hpair
    rw [evaluateMembers, keyName, decodeParts_of_spellsText hname, evaluate_of_spells hvalue]
    show evaluateMembers rest (Value.insert (String.ofList name.toList) t.value before) = _
    rw [String.ofList_toList]
    exact evaluateMembers_of_spells _ hrest

end

end FileRoutes.Script

/-! ### Configs as trees -/

namespace FileRoutes

open Json (Tree writtenText writtenTexts writtenList writtenObject writtenMember writtenOptional)

/-- A list of texts as a tree. -/
def textsTree (l : List String) : Tree := .array (l.map .text)

/-- A member that is left out where there is no value. -/
def optionalTree {α : Type} (name : String) (toTree : α → Tree) (value : Option α) :
    List (String × Tree) :=
  (value.map fun a => (name, toTree a)).toList

/-- A folder of handlers as a tree. -/
def ApiFolder.toTree (f : ApiFolder) : Tree :=
  .object ([("directory", .text f.directory), ("api_slug", .text f.slug)] ++
    optionalTree "middleware" textsTree f.middleware)

/-- A port as a number that is exact. -/
def portNumber (p : UInt16) : Fin Script.exactBound :=
  ⟨p.toNat, Nat.lt_trans p.toNat_lt (by decide)⟩

/-- A config as a tree. -/
def Config.toTree (c : Config) : Tree :=
  .object ([("api_folders", .array (c.apiFolders.map ApiFolder.toTree)),
      ("port", .number (portNumber c.port))] ++
    optionalTree "middleware_folder" .text c.middlewareFolder ++
    optionalTree "app_middleware" textsTree c.appMiddleware ++
    optionalTree "pre_run_scripts" .text c.preRunScripts ++
    optionalTree "rollupExternals" textsTree c.externals)

theorem written_textsTree (l : List String) : (textsTree l).written = writtenTexts l := by
  simp [textsTree, writtenTexts, Tree.written, Function.comp_def]

theorem map_optionalTree {α : Type} {name : String} {toTree : α → Tree} {write : α → String}
    (h : ∀ a, (toTree a).written = write a) (value : Option α) :
    (optionalTree name toTree value).map (fun m => writtenMember m.1 m.2.written) =
      writtenOptional name write value := by
  cases value <;> simp [optionalTree, writtenOptional, h]

theorem ApiFolder.written_toTree (f : ApiFolder) : f.toTree.written = f.toJson := by
  simp [ApiFolder.toTree, ApiFolder.toJson, Tree.written, map_optionalTree written_textsTree]

/-- The tree of a config has the text that the config is written as. -/
theorem Config.written_toTree (c : Config) : c.toTree.written = c.toJson := by
  have htext : ∀ s, (Tree.text s).written = writtenText s := fun s => by rw [Tree.written]
  simp [Config.toTree, Config.toJson, Tree.written, map_optionalTree written_textsTree,
    map_optionalTree htext, ApiFolder.written_toTree, portNumber, Function.comp_def]

/-! ### Configs read from values -/

/-- A member that is left out where there is no value, as a value. -/
def optionalValue {α : Type} (name : String) (toValue : α → Value) (value : Option α) :
    List (String × Value) :=
  (value.map fun a => (name, toValue a)).toList

namespace Value.Reader

variable {σ α β : Type}

theorem list_map {item : Value.Reader α} {toValue : α → Value} {l : List α}
    (h : ∀ a, item (toValue a) = .ok a) : list item (.array (l.map toValue)) = .ok l := by
  induction l with
  | nil => rfl
  | cons a l ih =>
    have htail : (l.map toValue).mapM item = .ok l := ih
    show (List.map toValue (a :: l)).mapM item = _
    rw [List.map_cons, List.mapM_cons, h, htail]
    rfl

/-- A member of a field that has to be there is put into the draft. -/
theorem foldlM_required {r : Record Value.Reader σ α} {name : String} {get : σ → Option β}
    {set : σ → β → σ} {read : Value.Reader β} {v : Value} {b : β} {d : σ}
    {ms : List (String × Value)} (hfield : r.field? name = some (requiredField name get set read))
    (hread : read v = .ok b) :
    ((name, v) :: ms).foldlM (member r) d = ms.foldlM (member r) (set d b) := by
  have hmember : member r d (name, v) = .ok (set d b) := by
    simp only [member, hfield]
    show (read >>= fun b => pure (set d b)) v = _
    exact congrArg (fun x : Except ShapeError β => x >>= fun b => pure (set d b)) hread
  rw [List.foldlM_cons, hmember]
  rfl

theorem optional_of_ne {read : Value.Reader β} {v : Value} {b : β} (hne : v ≠ .null)
    (hread : read v = .ok b) : optional read v = .ok (some b) := by
  unfold optional
  split
  · exact absurd rfl hne
  · rw [hread]
    rfl

/-- A member of a field that may be missing is put into the draft where it is there. -/
theorem foldlM_optional {r : Record Value.Reader σ α} {name : String}
    {get : σ → Option (Option β)} {set : σ → Option β → σ} {read : Value.Reader β}
    {toValue : β → Value} {value : Option β} {d : σ} {ms : List (String × Value)}
    (hfield : r.field? name = some (optionalField name get set read))
    (hread : ∀ b, toValue b ≠ .null ∧ read (toValue b) = .ok b) :
    (optionalValue name toValue value ++ ms).foldlM (member r) d =
      ms.foldlM (member r) (value.elim d fun b => set d (some b)) := by
  cases value with
  | none => rfl
  | some b =>
    have hmember : member r d (name, toValue b) = .ok (set d (some b)) := by
      simp only [member, hfield]
      show (optional read >>= fun b => pure (set d b)) (toValue b) = _
      exact congrArg (fun x : Except ShapeError (Option β) => x >>= fun b => pure (set d b))
        (optional_of_ne (hread b).1 (hread b).2)
    show ((name, toValue b) :: ms).foldlM (member r) d = _
    rw [List.foldlM_cons, hmember]
    rfl

end Value.Reader

/-- A list of texts as a value. -/
def textsValue (l : List String) : Value := .array (l.map .text)

theorem value_textsTree (l : List String) : (textsTree l).value = textsValue l := by
  simp [textsTree, textsValue, Tree.value, Function.comp_def]

theorem value_text (s : String) : (Tree.text s).value = .text s := by rw [Tree.value]

/-- The members of a folder, in the order of their names. -/
theorem ApiFolder.value_toTree (f : ApiFolder) : f.toTree.value = .object
    (("api_slug", .text f.slug) :: ("directory", .text f.directory) ::
      (optionalValue "middleware" textsValue f.middleware ++ [])) := by
  obtain ⟨directory, slug, middleware⟩ := f
  rw [ApiFolder.toTree, Tree.value]
  cases middleware <;>
    simp only [optionalTree, optionalValue, Option.map_some, Option.map_none, Option.toList_some,
      Option.toList_none, List.append_nil, List.cons_append, List.nil_append, List.foldl_cons,
      List.foldl_nil, Value.insert, String.reduceEq, String.reduceLT, if_true, if_false,
      value_textsTree, value_text]

/-- The members of a config, in the order of their names. -/
theorem Config.value_toTree (c : Config) : c.toTree.value = .object
    (("api_folders", .array (c.apiFolders.map fun f => f.toTree.value)) ::
      (optionalValue "app_middleware" textsValue c.appMiddleware ++
        (optionalValue "middleware_folder" .text c.middlewareFolder ++
          (("port", .int c.port.toNat) ::
            (optionalValue "pre_run_scripts" .text c.preRunScripts ++
              (optionalValue "rollupExternals" textsValue c.externals ++ [])))))) := by
  obtain ⟨folders, port, middleware, app, scripts, externals⟩ := c
  have hfolders : (Tree.array (folders.map ApiFolder.toTree)).value =
      .array (folders.map fun f => f.toTree.value) := by
    rw [Tree.value, List.map_map]
    rfl
  have hport : (Tree.number (portNumber port)).value = .int port.toNat := by
    rw [Tree.value]
    rfl
  rw [Config.toTree, Tree.value]
  cases middleware <;> cases app <;> cases scripts <;> cases externals <;>
    simp only [optionalTree, optionalValue, Option.map_some, Option.map_none, Option.toList_some,
      Option.toList_none, List.append_nil, List.cons_append, List.nil_append, List.foldl_cons,
      List.foldl_nil, Value.insert, String.reduceEq, String.reduceLT, if_true, if_false,
      value_textsTree, value_text, hfolders, hport]

theorem read_textsValue (l : List String) :
    textsValue l ≠ .null ∧ (textList : Value.Reader (List String)) (textsValue l) = .ok l :=
  ⟨nofun, Value.Reader.list_map fun _ => rfl⟩

theorem read_text (s : String) :
    Value.text s ≠ .null ∧ (DataFormat.text : Value.Reader String) (.text s) = .ok s :=
  ⟨nofun, rfl⟩

/-- A folder is read from what its tree denotes. -/
theorem ApiFolder.read_value (f : ApiFolder) :
    (ApiFolder.read : Value.Reader ApiFolder) f.toTree.value = .ok f := by
  rw [f.value_toTree]
  obtain ⟨directory, slug, middleware⟩ := f
  show (do Value.Reader.finished ApiFolder.record (← _)) = _
  rw [Value.Reader.foldlM_required rfl (read_text _).2,
    Value.Reader.foldlM_required rfl (read_text _).2,
    Value.Reader.foldlM_optional rfl read_textsValue]
  cases middleware <;> rfl

/-- A config is read from what its tree denotes. -/
theorem Config.read_value (c : Config) :
    (Config.read : Value.Reader Config) c.toTree.value = .ok c := by
  have hint : ∀ i, (DataFormat.port : Value.Reader UInt16) (.int i) = portOf i := fun _ => rfl
  have hport := (hint c.port.toNat).trans (Json.Reader.portOf_toNat c.port)
  have hfield : (Config.record : Record Value.Reader Config.Draft Config).field? "port" =
      some (requiredField "port" (·.port) (fun d v => { d with port := some v })
        DataFormat.port) := rfl
  rw [c.value_toTree]
  show (do Value.Reader.finished Config.record (← _)) = _
  rw [Value.Reader.foldlM_required rfl (Value.Reader.list_map ApiFolder.read_value),
    Value.Reader.foldlM_optional rfl read_textsValue,
    Value.Reader.foldlM_optional rfl read_text,
    Value.Reader.foldlM_required hfield hport,
    Value.Reader.foldlM_optional rfl read_text,
    Value.Reader.foldlM_optional rfl read_textsValue]
  obtain ⟨folders, port, middleware, app, scripts, externals⟩ := c
  cases middleware <;> cases app <;> cases scripts <;> cases externals <;> rfl

/-! ### Scripts -/

namespace Config

open Script (Module)

/-- The ways in which a script holds its config. -/
inductive ScriptForm where
  /-- As the exported constant `config`. -/
  | constant
  /-- As the default. -/
  | byDefault
  /-- As `module.exports`. -/
  | exports
  /-- As the member `config` of `module.exports`. -/
  | member
deriving DecidableEq

/-- A script that holds a literal. -/
def ScriptForm.source (literal : String) : ScriptForm → String
  | constant => "export const config = " ++ literal
  | byDefault => "export default " ++ literal
  | exports => "module.exports = " ++ literal
  | member => "module.exports = \x7b config: " ++ literal ++ " \x7d"

/-- Whether a module is the tree that a parser gives such a script, with the tree of the literal
in its place. -/
def ScriptForm.isTree (form : ScriptForm) (m : Module) (t : Tree) : Bool :=
  match form, m.statements with
  | constant, [.exportDeclaration false (.variables [⟨some name, some value⟩])] =>
    name == "config" && value.spells t
  | byDefault, [.exportValue value] => value.spells t
  | exports, [.expression (.assignment _ target value)] =>
    target == "module.exports" && value.spells t
  | member, [.expression (.assignment _ target (.object _ (.pair (.name key) value .nil)))] =>
    target == "module.exports" && key == "config" && value.spells t
  | _, _ => false

theorem unwrapped_toTree (c : Config) : unwrapped c.toTree.value = c.toTree.value := by
  rw [c.value_toTree]
  rfl

/-- What the script holds denotes the config, alone or as a member. -/
theorem exists_expressionOf {form : ScriptForm} {m : Module} {c : Config}
    (h : form.isTree m c.toTree = true) : ∃ e v, expressionOf? m = some e ∧
      Script.evaluate e = .ok v ∧ unwrapped v = c.toTree.value := by
  obtain ⟨statements⟩ := m
  unfold ScriptForm.isTree at h
  split at h
  · obtain ⟨hname, hvalue⟩ := Bool.and_eq_true_iff.1 h
    obtain rfl := beq_iff_eq.1 hname
    simp only at *
    subst_vars
    exact ⟨_, _, rfl, Script.evaluate_of_spells hvalue, unwrapped_toTree c⟩
  · simp only at *
    subst_vars
    exact ⟨_, _, rfl, Script.evaluate_of_spells h, unwrapped_toTree c⟩
  · obtain ⟨htarget, hvalue⟩ := Bool.and_eq_true_iff.1 h
    obtain rfl := beq_iff_eq.1 htarget
    simp only at *
    subst_vars
    exact ⟨_, _, rfl, Script.evaluate_of_spells hvalue, unwrapped_toTree c⟩
  · obtain ⟨hnames, hvalue⟩ := Bool.and_eq_true_iff.1 h
    obtain ⟨htarget, hkey⟩ := Bool.and_eq_true_iff.1 hnames
    obtain rfl := beq_iff_eq.1 htarget
    obtain rfl := beq_iff_eq.1 hkey
    simp only at *
    subst_vars
    refine ⟨_, .object [("config", c.toTree.value)], rfl, ?_, rfl⟩
    rw [Script.evaluate, Script.evaluateMembers, Script.evaluate_of_spells hvalue]
    rfl
  · contradiction

theorem ofScript_source {form : ScriptForm} {language : Script.Language} {m : Module} {c : Config}
    (hparse : language.parse? (form.source c.toJson) = some m) (h : form.isTree m c.toTree = true) :
    ofScript language (form.source c.toJson) = .ok c := by
  obtain ⟨e, v, he, hv, hunwrapped⟩ := exists_expressionOf h
  simp only [ofScript, hparse, he, hv, hunwrapped, ofValue, read_value]

theorem load_of_ofText {fs : FileSystem} {p : Path} {text : String} {format : Format} {c : Config}
    (hread : fs.readText p = .ok text) (hformat : Format.ofPath? p = some format)
    (h : ofText text format = .ok c) : load fs p = .ok c := by
  rw [load, hread]
  simp only [hformat, h]
  rfl

/-- A config is loaded back from the text that it is written as: from a file of JSON, and from a
script that holds the text as a literal in one of the four ways, where the script is parsed as the
tree of the text. -/
theorem load_written (c : Config) (fs : FileSystem) (p : Path) :
    c.toTree.written = c.toJson ∧
    (Format.ofPath? p = some .json → fs.readText p = .ok c.toJson → load fs p = .ok c) ∧
    ∀ (form : ScriptForm) (language : Script.Language) (m : Module),
      Format.ofPath? p = some (.script language) → fs.readText p = .ok (form.source c.toJson) →
      language.parse? (form.source c.toJson) = some m → form.isTree m c.toTree = true →
      load fs p = .ok c := by
  refine ⟨c.written_toTree, fun hformat hread => ?_,
    fun form language m hformat hread hparse htree => ?_⟩
  · refine load_of_ofText hread hformat ?_
    rw [ofText, Json.run_toJson]
    rfl
  · exact load_of_ofText hread hformat (ofScript_source hparse htree)

/-! ### A config with characters that are escaped -/

/-- A config with a quote, a backslash and control characters. -/
def escapedConfig : Config where
  apiFolders := [⟨"a\"b", "/\\\n", some ["é", "\x01"]⟩]
  port := 65535
  middlewareFolder := some ""

/-- The config in a file of its own, as JSON and as a member of what a script exports. -/
def escapedFiles (json script : String) : FileSystem where
  entries := [(["c.json"], .file (.text json)), (["c.cjs"], .file (.text script))]

theorem parse_escapedConfig :
    (Script.Language.javascript.parse? (ScriptForm.member.source escapedConfig.toJson)).any
      (ScriptForm.member.isTree · escapedConfig.toTree) = true := by
  decide +kernel

theorem load_written_escapedConfig :
    let files := escapedFiles escapedConfig.toJson (ScriptForm.member.source escapedConfig.toJson)
    escapedConfig.toTree.written = escapedConfig.toJson ∧
      load files ⟨"/c.json"⟩ = .ok escapedConfig ∧ load files ⟨"/c.cjs"⟩ = .ok escapedConfig := by
  have hjson : ∀ json script, (escapedFiles json script).readText ⟨"/c.json"⟩ = .ok json := by
    intro json script
    cbv
  have hscript : ∀ json script, (escapedFiles json script).readText ⟨"/c.cjs"⟩ = .ok script := by
    intro json script
    cbv
  obtain ⟨m, hm, htree⟩ := (Option.any_eq_true _ _).1 parse_escapedConfig
  intro files
  obtain ⟨hwritten, hload, -⟩ := load_written escapedConfig files ⟨"/c.json"⟩
  obtain ⟨-, -, hforms⟩ := load_written escapedConfig files ⟨"/c.cjs"⟩
  exact ⟨hwritten, hload (by decide +kernel) (hjson _ _),
    hforms .member .javascript m (by decide +kernel) (hscript _ _) hm htree⟩

end Config

end FileRoutes
