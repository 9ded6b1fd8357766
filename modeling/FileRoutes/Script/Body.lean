import FileRoutes.IndexSet
import FileRoutes.Script.Category
import FileRoutes.Script.Token

/-!
# What phrases are made of

A phrase of a category is a row of lexemes and of phrases inside it. A body says which rows
there are: one after the other, one or the other, any number of them.

A body is read symbol by symbol. What may come first, and what is left of the body behind
it, is its list of heads; reading on is taking the heads of what is left.

## The model

* `Symbol` — a lexeme or a phrase, as the step that a reader takes.
* `Body` — rows of symbols, with `Body.MayBe`, the rows it stands for.
* `Body.nullable`, `Body.heads` — whether a body may be empty, and what it may start with.

## What is proved

`Body.mayBe_nil_iff` and `Body.mayBe_cons_iff`: a body stands for the empty row exactly if
it is nullable, and for any other row exactly if one of its heads starts the row and has
the rest.
-/

namespace FileRoutes.Script

/-- A step in reading a phrase. -/
inductive Symbol where
  /-- A lexeme. -/
  | token (kind : Token)
  /-- A phrase. -/
  | part (category : Category)
deriving DecidableEq, Inhabited

/-- What a phrase may be made of. -/
inductive Body where
  /-- Nothing. -/
  | nothing
  /-- A lexeme. -/
  | token (kind : Token)
  /-- A phrase. -/
  | part (category : Category)
  /-- One body and then another. -/
  | join (first second : Body)
  /-- One body or another. -/
  | either (left right : Body)
  /-- Any number of rows of one body. -/
  | many (inner : Body)
deriving DecidableEq, Inhabited

namespace Body

/-- The rows of symbols that a body stands for. -/
inductive MayBe : Body → List Symbol → Prop where
  /-- Nothing is the empty row. -/
  | nothing : MayBe nothing []
  /-- A lexeme is itself. -/
  | token (kind : Token) : MayBe (token kind) [.token kind]
  /-- A phrase is itself. -/
  | part (category : Category) : MayBe (part category) [.part category]
  /-- Two bodies are the rows of the one and then of the other. -/
  | join {a b : Body} {x y : List Symbol} : MayBe a x → MayBe b y → MayBe (join a b) (x ++ y)
  /-- Either of two bodies may be the first. -/
  | left {a b : Body} {x : List Symbol} : MayBe a x → MayBe (either a b) x
  /-- Either of two bodies may be the second. -/
  | right {a b : Body} {x : List Symbol} : MayBe b x → MayBe (either a b) x
  /-- Any number may be none. -/
  | none {a : Body} : MayBe (many a) []
  /-- Any number may be one more. -/
  | more {a : Body} {x y : List Symbol} : MayBe a x → MayBe (many a) y → MayBe (many a) (x ++ y)

/-- Whether a body may be empty. -/
def nullable : Body → Bool
  | nothing => true
  | token _ | part _ => false
  | join a b => a.nullable && b.nullable
  | either a b => a.nullable || b.nullable
  | many _ => true

/-- A body before another one; rows are kept nested to the right. -/
def before : Body → Body → Body
  | nothing, b => b
  | join x y, b => join x (y.before b)
  | a, b => join a b

/-- What a body may start with, and what is left of it behind that. -/
def heads : Body → List (Symbol × Body)
  | nothing => []
  | token kind => [(.token kind, nothing)]
  | part category => [(.part category, nothing)]
  | join a b =>
    a.heads.map (fun h => (h.1, h.2.before b)) ++ if a.nullable then b.heads else []
  | either a b => a.heads ++ b.heads
  | many a => a.heads.map fun h => (h.1, h.2.before (many a))

/-! ### The rows of each kind of body -/

theorem mayBe_token_iff {kind : Token} {z : List Symbol} :
    MayBe (token kind) z ↔ z = [.token kind] :=
  ⟨fun h => by cases h; rfl, fun h => h ▸ .token kind⟩

theorem mayBe_part_iff {category : Category} {z : List Symbol} :
    MayBe (part category) z ↔ z = [.part category] :=
  ⟨fun h => by cases h; rfl, fun h => h ▸ .part category⟩

theorem mayBe_join_iff {a b : Body} {z : List Symbol} :
    MayBe (join a b) z ↔ ∃ x y, MayBe a x ∧ MayBe b y ∧ z = x ++ y := by
  constructor
  · intro h
    cases h with
    | join hx hy => exact ⟨_, _, hx, hy, rfl⟩
  · rintro ⟨x, y, hx, hy, rfl⟩
    exact .join hx hy

theorem mayBe_either_iff {a b : Body} {z : List Symbol} :
    MayBe (either a b) z ↔ MayBe a z ∨ MayBe b z := by
  constructor
  · intro h
    cases h with
    | left hx => exact .inl hx
    | right hx => exact .inr hx
  · rintro (h | h)
    · exact .left h
    · exact .right h

/-- A row that is not empty, of any number of rows, begins with one of these that is not empty
either. -/
theorem mayBe_many_cons_iff {a : Body} {s : Symbol} {z : List Symbol} :
    MayBe (many a) (s :: z) ↔ ∃ x y, MayBe a (s :: x) ∧ MayBe (many a) y ∧ z = x ++ y := by
  constructor
  · generalize hb : many a = b
    generalize hz : s :: z = w
    intro h
    induction h with
    | @more _ x y hx hy _ ih =>
      obtain rfl := Body.many.inj hb
      cases x with
      | nil => exact ih rfl hz
      | cons t x =>
        rw [List.cons_append, List.cons.injEq] at hz
        obtain ⟨rfl, rfl⟩ := hz
        exact ⟨x, y, hx, hy, rfl⟩
    | none => exact nomatch hz
    | _ => exact nomatch hb
  · rintro ⟨x, y, hx, hy, rfl⟩
    exact .more hx hy

theorem mayBe_before_iff {a b : Body} {z : List Symbol} :
    MayBe (a.before b) z ↔ ∃ x y, MayBe a x ∧ MayBe b y ∧ z = x ++ y := by
  induction a generalizing z with
  | nothing =>
    constructor
    · intro h
      exact ⟨[], z, .nothing, h, rfl⟩
    · rintro ⟨x, y, hx, hy, rfl⟩
      cases hx
      exact hy
  | join p q _ ih =>
    simp only [before, mayBe_join_iff, ih]
    constructor
    · rintro ⟨u, w, hu, ⟨v, y, hv, hy, rfl⟩, rfl⟩
      exact ⟨u ++ v, y, ⟨u, v, hu, hv, rfl⟩, hy, (List.append_assoc u v y).symm⟩
    · rintro ⟨x, y, ⟨u, v, hu, hv, rfl⟩, hy, rfl⟩
      exact ⟨u, v ++ y, hu, ⟨v, y, hv, hy, rfl⟩, List.append_assoc u v y⟩
  | token _ | part _ | either _ _ _ _ | many _ _ => exact mayBe_join_iff

/-! ### What the heads say -/

/-- A body stands for the empty row exactly if it is nullable. -/
theorem mayBe_nil_iff {a : Body} : MayBe a [] ↔ a.nullable = true := by
  induction a with
  | nothing => exact ⟨fun _ => rfl, fun _ => .nothing⟩
  | token _ | part _ => exact ⟨(nomatch ·), (nomatch ·)⟩
  | join p q hp hq =>
    simp only [nullable, Bool.and_eq_true, ← hp, ← hq, mayBe_join_iff]
    constructor
    · rintro ⟨x, y, hx, hy, hz⟩
      obtain ⟨rfl, rfl⟩ := List.append_eq_nil_iff.1 hz.symm
      exact ⟨hx, hy⟩
    · rintro ⟨hx, hy⟩
      exact ⟨[], [], hx, hy, rfl⟩
  | either p q hp hq => simp only [nullable, Bool.or_eq_true, ← hp, ← hq, mayBe_either_iff]
  | many p _ => exact ⟨fun _ => rfl, fun _ => .none⟩

/-- The only head of a single symbol is the symbol, with nothing behind it. -/
theorem exists_mem_single_iff {s t : Symbol} {z : List Symbol} :
    (∃ rest, (s, rest) ∈ [(t, nothing)] ∧ MayBe rest z) ↔ s :: z = [t] := by
  simp only [List.mem_singleton, Prod.mk.injEq, List.cons.injEq]
  constructor
  · rintro ⟨rest, ⟨rfl, rfl⟩, h⟩
    cases h
    exact ⟨rfl, rfl⟩
  · rintro ⟨rfl, rfl⟩
    exact ⟨nothing, ⟨rfl, rfl⟩, .nothing⟩

/-- With a body behind what is left, the heads start rows of both. -/
theorem exists_mem_before_iff {heads : List (Symbol × Body)} {b : Body} {s : Symbol}
    {z : List Symbol} :
    (∃ rest, (s, rest) ∈ heads.map (fun h => (h.1, h.2.before b)) ∧ MayBe rest z) ↔
      ∃ x y, (∃ rest, (s, rest) ∈ heads ∧ MayBe rest x) ∧ MayBe b y ∧ z = x ++ y := by
  simp only [List.mem_map, Prod.mk.injEq, Prod.exists]
  constructor
  · rintro ⟨_, ⟨_, r, hr, rfl, rfl⟩, hm⟩
    obtain ⟨x, y, hx, hy, rfl⟩ := mayBe_before_iff.1 hm
    exact ⟨x, y, ⟨r, hr, hx⟩, hy, rfl⟩
  · rintro ⟨x, y, ⟨r, hr, hx⟩, hy, rfl⟩
    exact ⟨_, ⟨s, r, hr, rfl, rfl⟩, mayBe_before_iff.2 ⟨x, y, hx, hy, rfl⟩⟩

/-- A body stands for a row that is not empty exactly if one of its heads starts the row and
has the rest. -/
theorem mayBe_cons_iff {a : Body} {s : Symbol} {z : List Symbol} :
    MayBe a (s :: z) ↔ ∃ rest, (s, rest) ∈ a.heads ∧ MayBe rest z := by
  induction a generalizing s z with
  | nothing => exact ⟨(nomatch ·), fun ⟨_, h, _⟩ => (nomatch h)⟩
  | token kind => rw [mayBe_token_iff, heads, exists_mem_single_iff]
  | part category => rw [mayBe_part_iff, heads, exists_mem_single_iff]
  | join p q hp hq =>
    simp only [heads, List.mem_append, or_and_right, exists_or, exists_mem_before_iff, ← hp,
      mayBe_join_iff]
    constructor
    · rintro ⟨x, y, hx, hy, hz⟩
      -- the row starts in the first body, unless that is empty here
      cases x with
      | nil =>
        obtain ⟨rest, hr, hm⟩ := hq.1 (hz ▸ hy : MayBe q (s :: z))
        exact .inr ⟨rest, by rwa [if_pos (mayBe_nil_iff.1 hx)], hm⟩
      | cons t x =>
        rw [List.cons_append, List.cons.injEq] at hz
        obtain ⟨rfl, rfl⟩ := hz
        exact .inl ⟨x, y, hx, hy, rfl⟩
    · rintro (⟨x, y, hx, hy, rfl⟩ | ⟨rest, hr, hm⟩)
      · exact ⟨s :: x, y, hx, hy, rfl⟩
      · split at hr
        · next hn => exact ⟨[], s :: z, mayBe_nil_iff.2 hn, hq.2 ⟨rest, hr, hm⟩, rfl⟩
        · exact nomatch hr
  | either p q hp hq =>
    simp only [heads, List.mem_append, or_and_right, exists_or, mayBe_either_iff, hp, hq]
  | many p hp => simp only [heads, exists_mem_before_iff, mayBe_many_cons_iff, hp]

/-! ### Writing bodies down -/

/-- All of the bodies, one after the other. -/
def chain (bodies : List Body) : Body := bodies.foldr before nothing

/-- One of the bodies. -/
def oneOf : List Body → Body
  | [] => nothing
  | [b] => b
  | b :: bodies => either b (oneOf bodies)

/-- A body or nothing. -/
def maybe (b : Body) : Body := either b nothing

/-- At least one row of a body. -/
def several (b : Body) : Body := b.before (many b)

/-- At least one row of a body, with a separator between any two. -/
def separated (separator b : Body) : Body := b.before (many (separator.before b))

instance : Coe Token Body := ⟨token⟩
instance : Coe Category Body := ⟨part⟩

end Body

end FileRoutes.Script
