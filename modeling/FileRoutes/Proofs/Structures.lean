import FileRoutes.Proofs.PropertyNames

/-!
# What arrays and objects keep

The language gives an array a position for every element and every hole, and an object a property
for every name its keys have, with the value of the last pair of that name. The reader passes over
holes and takes keys as `keyName` does.

## The model

* `Convention` — a way to tell the positions of an array and the names of a key; there is that of
  the reader and that of the language.
* `Mirrors` — whether a value has the structure of an expression under a convention, at every level.
* `IsLast` — whether an expression is the value of the last pair with a name.
* `Convention.Agrees` — whether a convention takes all arrays and keys of an expression as the
  reader does.
* `Expr.Tidy` — no array of an expression has a hole, and all its keys are tidy.

## What is proved

* `Mirrors.of_evaluate` — where a convention agrees with the reader on an expression, its value has
  the structure of the expression under this convention.
* `not_hole_of_mirrors` — an array with a hole never has the structure of the language.

The main statement is `evaluate_mirrors`: a value has the structure of its expression as it is read,
and as the language has it where the expression is tidy.
-/

namespace FileRoutes

namespace Value

/-! ### Members by name -/

theorem member_cons (name : String) (m : String × Value) (members : List (String × Value)) :
    member? name (m :: members) = if m.1 = name then some m.2 else member? name members := by
  by_cases h : m.1 = name <;> simp [member?, h]

/-- A member that is put in is found under its name, and every other one as before. -/
theorem member_insert (name key : String) (v : Value) (members : List (String × Value)) :
    member? name (insert key v members) = if key = name then some v else member? name members := by
  induction members with
  | nil => exact member_cons name (key, v) []
  | cons m members ih =>
    rw [insert]
    split
    · next hkey =>
      subst hkey
      by_cases h : m.1 = name <;> simp [member_cons, h]
    · next hkey =>
      split
      · simp [member_cons]
      · rw [member_cons, ih, member_cons]
        by_cases h : m.1 = name
        · have hne : key ≠ name := fun he => hkey (he.trans h.symm)
          simp [h, hne]
        · simp [h]

theorem mem_insert {key : String} {v : Value} {members : List (String × Value)}
    {m : String × Value} (h : m ∈ insert key v members) : m.1 = key ∨ m ∈ members := by
  induction members with
  | nil =>
    obtain rfl := List.mem_singleton.1 h
    exact .inl rfl
  | cons n members ih =>
    rw [insert] at h
    split at h
    · rcases List.mem_cons.1 h with rfl | h
      · exact .inl rfl
      · exact .inr (List.mem_cons_of_mem _ h)
    · split at h
      · rcases List.mem_cons.1 h with rfl | h
        · exact .inl rfl
        · exact .inr h
      · rcases List.mem_cons.1 h with rfl | h
        · exact .inr List.mem_cons_self
        · exact (ih h).imp id (List.mem_cons_of_mem _)

/-- Names that are in order stay in order. -/
theorem pairwise_insert {members : List (String × Value)} (key : String) (v : Value)
    (h : members.Pairwise fun m n => m.1 < n.1) :
    (insert key v members).Pairwise fun m n => m.1 < n.1 := by
  induction members with
  | nil => exact List.pairwise_singleton _ _
  | cons m members ih =>
    obtain ⟨hm, hmembers⟩ := List.pairwise_cons.1 h
    rw [insert]
    split
    · next hkey =>
      subst hkey
      exact List.pairwise_cons.2 ⟨hm, hmembers⟩
    · next hkey =>
      split
      · next hlt =>
        refine List.pairwise_cons.2 ⟨?_, h⟩
        rintro n hn
        rcases List.mem_cons.1 hn with rfl | hn
        · exact hlt
        · exact hlt.trans (hm n hn)
      · next hlt =>
        refine List.pairwise_cons.2 ⟨fun n hn => ?_, ih hmembers⟩
        rcases mem_insert hn with rfl | hn
        · exact lt_of_le_of_ne (not_lt.1 hlt) (Ne.symm hkey)
        · exact hm n hn

end Value

namespace Script

/-! ### The structure of values -/

/-- The positions of an array; a hole is one without an element. -/
def Elements.positions : Elements → List (Option Expr)
  | .nil => []
  | .hole rest => none :: rest.positions
  | .item element rest => some element :: rest.positions

/-- A way to tell the positions of an array and the names of a key. -/
structure Convention where
  /-- The positions of an array. -/
  positions : Elements → List (Option Expr)
  /-- Whether a key has a name. -/
  names : String → Key → Prop

namespace Convention

/-- The elements without the holes, and the names that are read. -/
def reader : Convention :=
  ⟨fun elements => elements.items.map some, fun name key => keyName key = .ok name⟩

/-- All positions, and the names that the language makes. -/
def language : Convention := ⟨Elements.positions, Key.Names⟩

end Convention

/-- Whether an expression is the value of the last pair with a name. -/
inductive IsLast (names : String → Key → Prop) (name : String) (value : Expr) :
    List (Key × Expr) → Prop where
  /-- No pair behind this one has the name. -/
  | here {key : Key} {after : List (Key × Expr)} (h : names name key)
      (hafter : ∀ pair ∈ after, ¬ names name pair.1) :
      IsLast names name value ((key, value) :: after)
  /-- The pair stands further behind. -/
  | later {pair : Key × Expr} {after : List (Key × Expr)} (h : IsLast names name value after) :
      IsLast names name value (pair :: after)

/-- Whether an expression is no array, no object and in no wrapper. -/
def Expr.isScalar : Expr → Bool
  | .array _ _ | .object _ _ | .wrapped _ _ => false
  | _ => true

/-- Whether a value has the structure of an expression, at every level: an array has one element for
each position, at its index, and null for a hole; an object has each name once, it has the names of
its keys and no others, and under each of them the value of the last pair. -/
inductive Mirrors (c : Convention) : Expr → Value → Prop where
  /-- What is in a wrapper. -/
  | wrapped {span : Span} {inner : Expr} {v : Value} (h : Mirrors c inner v) :
      Mirrors c (.wrapped span inner) v
  /-- An array. -/
  | array {span : Span} {elements : Elements} {vs : List Value}
      (length : vs.length = (c.positions elements).length)
      (hole : ∀ i : Nat, (c.positions elements)[i]? = some none → vs[i]? = some Value.null)
      (item : ∀ (i : Nat) e v, (c.positions elements)[i]? = some (some e) → vs[i]? = some v →
        Mirrors c e v) :
      Mirrors c (.array span elements) (.array vs)
  /-- An object. -/
  | object {span : Span} {members : Members} {properties : List (String × Value)}
      (nodup : (properties.map Prod.fst).Nodup)
      (absent : ∀ name, Value.member? name properties = none →
        ∀ pair ∈ members.pairs, ¬ c.names name pair.1)
      (present : ∀ name v, Value.member? name properties = some v →
        ∃ e, IsLast c.names name e members.pairs)
      (value : ∀ name v e, Value.member? name properties = some v →
        IsLast c.names name e members.pairs → Mirrors c e v) :
      Mirrors c (.object span members) (.object properties)
  /-- Anything else has its value. -/
  | scalar {e : Expr} {v : Value} (hscalar : e.isScalar) (h : evaluate e = .ok v) : Mirrors c e v

/-- Whether the reader takes an expression as the language does, at every level. -/
structure Expr.Tidy (e : Expr) : Prop where
  /-- No array has a hole. -/
  full : ∀ span elements, Inside (.array span elements) e → none ∉ elements.positions
  /-- All keys are tidy. -/
  keys : ∀ span members, Inside (.object span members) e →
    ∀ pair ∈ members.pairs, pair.1.Tidy

/-! ### The structure that is read -/

section

variable {names : String → Key → Prop} {name : String} {pairs : List (Key × Expr)}

theorem IsLast.mem {e : Expr} (h : IsLast names name e pairs) :
    ∃ key, (key, e) ∈ pairs ∧ names name key := by
  induction h with
  | here h _ => exact ⟨_, List.mem_cons_self, h⟩
  | later _ ih => exact ih.imp fun _ hkey => ⟨List.mem_cons_of_mem _ hkey.1, hkey.2⟩

/-- Of the pairs with a name one is the last. -/
theorem exists_isLast (h : ∃ pair ∈ pairs, names name pair.1) :
    ∃ e, IsLast names name e pairs := by
  induction pairs with
  | nil => simp at h
  | cons pair pairs ih =>
    by_cases hrest : ∃ pair ∈ pairs, names name pair.1
    · exact (ih hrest).imp fun _ => .later
    · obtain ⟨pair', hmem, hname⟩ := h
      rcases List.mem_cons.1 hmem with rfl | hmem
      · exact ⟨pair'.2, .here hname fun pair hpair hn => hrest ⟨pair, hpair, hn⟩⟩
      · exact absurd ⟨pair', hmem, hname⟩ hrest

/-- Which pair is the last depends only on the names of the keys. -/
theorem IsLast.congr {names' : String → Key → Prop} {e : Expr}
    (hsame : ∀ pair ∈ pairs, names name pair.1 ↔ names' name pair.1)
    (h : IsLast names name e pairs) : IsLast names' name e pairs := by
  induction h with
  | here h hafter =>
    rw [List.forall_mem_cons] at hsame
    exact .here (hsame.1.1 h) fun pair hpair => (hsame.2 pair hpair).not.1 (hafter pair hpair)
  | later _ ih => exact .later (ih (List.forall_mem_cons.1 hsame).2)

end

/-- The members that are read are those before, and under each name that is read the value of the
last pair. -/
theorem member_evaluateMembers (name : String) : {members : Members} →
    {before out : List (String × Value)} → evaluateMembers members before = .ok out →
    (∀ e, IsLast Convention.reader.names name e members.pairs →
      ∃ v, evaluate e = .ok v ∧ Value.member? name out = some v) ∧
    ((∀ pair ∈ members.pairs, ¬ Convention.reader.names name pair.1) →
      Value.member? name out = Value.member? name before)
  | .nil, _, _, h => by
    obtain rfl := Except.ok.inj h
    refine ⟨fun e he => ?_, fun _ => rfl⟩
    obtain ⟨key, hkey, -⟩ := he.mem
    contradiction
  | .other _ _, _, _, h => by
    rw [evaluateMembers] at h
    contradiction
  | .pair key value rest, before, out, h => by
    obtain ⟨read, v, hread, hv, hrest⟩ := evaluateMembers_pair_ok_iff.1 h
    obtain ⟨hlast, hnone⟩ := member_evaluateMembers name hrest
    refine ⟨fun e he => ?_, fun hno => ?_⟩
    · cases he with
      | here hname hafter =>
        obtain rfl : read = name := Except.ok.inj (hread.symm.trans hname)
        exact ⟨v, hv, by rw [hnone hafter, Value.member_insert, if_pos rfl]⟩
      | later he => exact hlast e he
    · obtain ⟨hkey, hno⟩ := List.forall_mem_cons.1 hno
      have hne : read ≠ name := by
        rintro rfl
        exact hkey hread
      rw [hnone hno, Value.member_insert, if_neg hne]

theorem pairwise_evaluateMembers : {members : Members} → {before out : List (String × Value)} →
    evaluateMembers members before = .ok out → (before.Pairwise fun m n => m.1 < n.1) →
    out.Pairwise fun m n => m.1 < n.1
  | .nil, _, _, h, hbefore => by
    obtain rfl := Except.ok.inj h
    exact hbefore
  | .other _ _, _, _, h, _ => by
    rw [evaluateMembers] at h
    contradiction
  | .pair _ _ _, _, _, h, hbefore => by
    obtain ⟨read, v, -, -, hrest⟩ := evaluateMembers_pair_ok_iff.1 h
    exact pairwise_evaluateMembers hrest (Value.pairwise_insert read v hbefore)

/-- The values that are read of an array are those of its elements, in order. -/
theorem forall_evaluateElements : (elements : Elements) → {vs : List Value} →
    evaluateElements elements = .ok vs →
    List.Forall₂ (fun e v => evaluate e = .ok v) elements.items vs
  | .nil, _, h => by
    obtain rfl := Except.ok.inj h
    exact .nil
  | .hole rest, _, h => forall_evaluateElements rest h
  | .item _ rest, _, h => by
    obtain ⟨v, ws, hv, hws, rfl⟩ := evaluateElements_item_ok_iff.1 h
    exact .cons hv (forall_evaluateElements rest hws)

/-! ### Conventions that agree with the reader -/

/-- Whether a convention takes an expression as the reader does, at every level. -/
structure Convention.Agrees (c : Convention) (e : Expr) : Prop where
  /-- The positions are the elements. -/
  positions : ∀ span elements, Inside (.array span elements) e →
    c.positions elements = elements.items.map some
  /-- The names are those that are read. -/
  names : ∀ span members, Inside (.object span members) e →
    ∀ pair ∈ members.pairs, ∀ name, c.names name pair.1 ↔ keyName pair.1 = .ok name

theorem Inside.trans {a b e : Expr} (hab : Inside a b) (hbe : Inside b e) : Inside a e := by
  induction hbe with
  | here => exact hab
  | wrapped _ ih => exact .wrapped ih
  | operand _ ih => exact .operand ih
  | value hmem _ ih => exact .value hmem ih
  | element hmem _ ih => exact .element hmem ih

theorem Convention.Agrees.inside {c : Convention} {inner e : Expr} (h : c.Agrees e)
    (hinside : Inside inner e) : c.Agrees inner where
  positions span elements hin := h.positions span elements (hin.trans hinside)
  names span members hin := h.names span members (hin.trans hinside)

/-- An array without positions of its own has the values of its elements, in order. -/
theorem Mirrors.array_of_items {c : Convention} {span : Span} {elements : Elements}
    {vs : List Value} (hpositions : c.positions elements = elements.items.map some)
    (h : evaluateElements elements = .ok vs)
    (hitems : ∀ e ∈ elements.items, ∀ {v}, evaluate e = .ok v → Mirrors c e v) :
    Mirrors c (.array span elements) (.array vs) := by
  have hvalues := forall_evaluateElements elements h
  have hposition : ∀ (i : Nat) e, (c.positions elements)[i]? = some e →
      ∃ e', e = some e' ∧ elements.items[i]? = some e' := by
    intro i e hi
    rw [hpositions, List.getElem?_map, Option.map_eq_some_iff] at hi
    obtain ⟨e', hi, rfl⟩ := hi
    exact ⟨e', rfl, hi⟩
  refine .array ?_ ?_ ?_
  · rw [hpositions, List.length_map, hvalues.length_eq]
  · intro i hi
    obtain ⟨e', hnone, -⟩ := hposition i none hi
    contradiction
  · intro i e v hi hv
    obtain ⟨e', ⟨⟩, hi⟩ := hposition i _ hi
    have hmem := List.mem_of_getElem? hi
    obtain ⟨hlt, rfl⟩ := List.getElem?_eq_some_iff.1 hi
    obtain ⟨hlt', rfl⟩ := List.getElem?_eq_some_iff.1 hv
    exact hitems _ hmem (hvalues.get hlt hlt')

/-- An object whose keys have the names that are read has under each of them the value of the last
pair. -/
theorem Mirrors.object_of_pairs {c : Convention} {span : Span} {members : Members}
    {properties : List (String × Value)}
    (hnames : ∀ pair ∈ members.pairs, ∀ name, c.names name pair.1 ↔ keyName pair.1 = .ok name)
    (h : evaluateMembers members [] = .ok properties)
    (hpairs : ∀ pair ∈ members.pairs, ∀ {v}, evaluate pair.2 = .ok v → Mirrors c pair.2 v) :
    Mirrors c (.object span members) (.object properties) := by
  have hlast : ∀ name e, IsLast c.names name e members.pairs →
      ∃ v, evaluate e = .ok v ∧ Value.member? name properties = some v :=
    fun name e he => (member_evaluateMembers name h).1 e
      (he.congr fun pair hpair => hnames pair hpair name)
  refine .object ?_ ?_ ?_ ?_
  · have hsorted := pairwise_evaluateMembers h .nil
    exact List.pairwise_map.2 (hsorted.imp ne_of_lt)
  · intro name habsent pair hpair hname
    obtain ⟨e, he⟩ := exists_isLast ⟨pair, hpair, hname⟩
    obtain ⟨v, -, hv⟩ := hlast name e he
    rw [habsent] at hv
    contradiction
  · intro name v hv
    refine exists_isLast (Classical.not_forall_not.1 fun hno => ?_)
    have hnone := (member_evaluateMembers name h).2 fun pair hpair hread =>
      hno pair ⟨hpair, (hnames pair hpair name).2 hread⟩
    rw [hnone] at hv
    contradiction
  · intro name v e hv he
    obtain ⟨v', hv', hmember⟩ := hlast name e he
    obtain ⟨key, hmem, -⟩ := he.mem
    rw [hv, Option.some.injEq] at hmember
    subst hmember
    exact hpairs _ hmem hv'

mutual

/-- The value of an expression has its structure under every convention that takes the expression
as the reader does. -/
theorem Mirrors.of_evaluate {c : Convention} : (e : Expr) → {v : Value} → c.Agrees e →
    evaluate e = .ok v → Mirrors c e v
  | .wrapped _ inner, _, hagrees, h =>
    .wrapped (of_evaluate inner (hagrees.inside (.wrapped .here)) h)
  | .array span elements, _, hagrees, h => by
    have hitems := of_items elements fun e hmem => hagrees.inside (.element hmem .here)
    rw [evaluate_array, map_ok_iff] at h
    obtain ⟨vs, hvs, rfl⟩ := h
    exact array_of_items (hagrees.positions span elements .here) hvs hitems
  | .object span members, _, hagrees, h => by
    have hpairs := of_pairs members fun pair hmem => hagrees.inside (.value hmem .here)
    rw [evaluate_object, map_ok_iff] at h
    obtain ⟨properties, hproperties, rfl⟩ := h
    exact object_of_pairs (hagrees.names span members .here) hproperties hpairs
  | .text _ _, _, _, h | .number _ _, _, _, h | .boolean _ _, _, _, h | .null _, _, _, h
  | .undefined _, _, _, h | .unary _ _ _, _, _, h | .member _ _ _, _, _, h | .name _ _, _, _, h
  | .function _ _, _, _, h | .assignment _ _ _, _, _, h | .other _, _, _, h => .scalar rfl h

theorem Mirrors.of_items {c : Convention} : (elements : Elements) →
    (∀ e ∈ elements.items, c.Agrees e) →
    ∀ e ∈ elements.items, ∀ {v}, evaluate e = .ok v → Mirrors c e v
  | .nil, _ => by simp [Elements.items]
  | .hole rest, h => of_items rest h
  | .item element rest, h =>
    have ⟨helement, hrest⟩ := List.forall_mem_cons.1 h
    List.forall_mem_cons.2 ⟨of_evaluate element helement, of_items rest hrest⟩

theorem Mirrors.of_pairs {c : Convention} : (members : Members) →
    (∀ pair ∈ members.pairs, c.Agrees pair.2) →
    ∀ pair ∈ members.pairs, ∀ {v}, evaluate pair.2 = .ok v → Mirrors c pair.2 v
  | .nil, _ => by simp [Members.pairs]
  | .other _ rest, h => of_pairs rest h
  | .pair _ value rest, h =>
    have ⟨hvalue, hrest⟩ := List.forall_mem_cons.1 h
    List.forall_mem_cons.2 ⟨of_evaluate value hvalue, of_pairs rest hrest⟩

end

/-! ### The language and the reader -/

/-- Without holes the positions are the elements. -/
theorem positions_eq_items : (elements : Elements) → none ∉ elements.positions →
    elements.positions = elements.items.map some
  | .nil, _ => rfl
  | .hole _, h => absurd List.mem_cons_self h
  | .item element rest, h =>
    congrArg (some element :: ·)
      (positions_eq_items rest fun hmem => h (List.mem_cons_of_mem _ hmem))

/-- A hole is a position more than there are elements. -/
theorem length_items_le (elements : Elements) :
    elements.items.length ≤ elements.positions.length ∧
      (none ∈ elements.positions → elements.items.length < elements.positions.length) := by
  induction elements using Elements.items.induct with
  | case1 => simp [Elements.positions, Elements.items]
  | case2 rest ih =>
    simp only [Elements.positions, Elements.items, List.length_cons]
    exact ⟨by omega, fun _ => by omega⟩
  | case3 element rest ih =>
    simp only [Elements.positions, Elements.items, List.length_cons, List.mem_cons, reduceCtorEq,
      false_or]
    exact ⟨by omega, fun h => Nat.succ_lt_succ (ih.2 h)⟩

/-- The value that is read of an array with a hole has not the structure of the language. -/
theorem not_hole_of_mirrors {span : Span} {elements : Elements} {v : Value}
    (h : evaluate (.array span elements) = .ok v)
    (hv : Mirrors .language (.array span elements) v) : none ∉ elements.positions := by
  rw [evaluate_array, map_ok_iff] at h
  obtain ⟨vs, hvs, rfl⟩ := h
  intro hhole
  have hread : elements.items.length = vs.length := (forall_evaluateElements elements hvs).length_eq
  cases hv with
  | array length _ _ =>
    have hless := (length_items_le elements).2 hhole
    rw [hread, length] at hless
    exact absurd hless (Nat.lt_irrefl _)
  | scalar hscalar _ => contradiction

theorem Expr.Tidy.agrees {e : Expr} (h : e.Tidy) : Convention.language.Agrees e where
  positions span elements hin := positions_eq_items elements (h.full span elements hin)
  names span members hin pair hmem := Key.names_iff_of_tidy (h.keys span members hin pair hmem)

theorem Convention.reader_agrees (e : Expr) : Convention.reader.Agrees e where
  positions _ _ _ := rfl
  names _ _ _ _ _ _ := Iff.rfl

/-- The value of an expression has the structure of the expression as it is read. It has the
structure that the language gives it where no array has a hole and the name that is read of every
key is the one that the language makes. -/
theorem evaluate_mirrors {e : Expr} {v : Value} (h : evaluate e = .ok v) :
    Mirrors .reader e v ∧ (e.Tidy → Mirrors .language e v) :=
  ⟨.of_evaluate e (Convention.reader_agrees e) h, fun htidy => .of_evaluate e htidy.agrees h⟩

theorem evaluate_mirrors_sample :
    Mirrors .language
      (.object ⟨0, 11⟩
        (.pair (.name "a") (.array ⟨4, 10⟩ (.item (.boolean ⟨5, 9⟩ true) .nil)) .nil))
      (.object [("a", .array [.boolean true])]) := by
  refine (evaluate_mirrors rfl).2 ⟨fun span elements h => ?_, fun span members h => ?_⟩
  · cases h with
    | value hmem h =>
      obtain rfl := List.mem_singleton.1 hmem
      cases h with
      | here => simp [Elements.positions]
      | element hmem h =>
        obtain rfl := List.mem_singleton.1 hmem
        cases h
  · cases h with
    | here =>
      intro pair hmem
      obtain rfl := List.mem_singleton.1 hmem
      exact ⟨by decide, by decide⟩
    | value hmem h =>
      obtain rfl := List.mem_singleton.1 hmem
      cases h with
      | element hmem h =>
        obtain rfl := List.mem_singleton.1 hmem
        cases h

/-- A hole shifts what stands behind it, and a numeral is the name of a property as it is
written. -/
theorem evaluate_mirrors_astray :
    (∃ e v, e = .array ⟨0, 13⟩ (.item (.boolean ⟨1, 5⟩ true) (.hole (.item (.null ⟨7, 11⟩) .nil))) ∧
      evaluate e = .ok v ∧ v = .array [.boolean true, .null] ∧ ¬ Mirrors .language e v) ∧
    (∃ e v, e = .object ⟨0, 12⟩ (.pair (.number "0x10") (.boolean ⟨7, 11⟩ true) .nil) ∧
      evaluate e = .ok v ∧ v = .object [("0x10", .boolean true)] ∧ ¬ Mirrors .language e v) := by
  refine ⟨⟨_, _, rfl, rfl, rfl, ?_⟩, ⟨_, _, rfl, rfl, rfl, ?_⟩⟩
  · intro h
    cases h with
    | array length _ _ => contradiction
    | scalar hscalar _ => contradiction
  · intro h
    have hname : "16" = numeralName "0x10" := by decide +kernel
    cases h with
    | object _ absent _ _ => exact absent "16" rfl _ List.mem_cons_self hname
    | scalar hscalar _ => contradiction

end Script

end FileRoutes
