import FileRoutes.Proofs.Lines
import FileRoutes.Proofs.Names
import Mathlib.Data.List.Basic
import Mathlib.Data.Set.Function
import Mathlib.Data.Nat.Digits.Defs

/-!
# What the text of a module tells

The text of a generated module tells everything about it: the imports with their style, the names
of the middleware, the routes, the slugs, the scripts and the port. No name, route or path can be
spelled so that the text reads like that of another module, since a text in quotes ends exactly
where its quote does.

## The model

* `IsFree` — a usable name that a module does not keep for itself.
* `Generated.WellFormed` — a module whose names are free, and which imports the table where it
  is used.

## What is proved

* `quoted_append_inj` — what is written in quotes can be read back, whatever comes behind it.
* `unlines_inj` — a text can be cut into its lines.
* `Generated.render_injOn` — well-formed modules with one text are equal.
-/

namespace FileRoutes.Emit

/-! ### Quoted texts -/

/-- A character is written as itself, or as a backslash with one of four letters. -/
theorem escape_cases (c : Char) :
    (∃ d, escape c = ['\\', d] ∧ d ≠ '\n' ∧
      ((c = '\\' ∧ d = '\\') ∨ (c = '\'' ∧ d = '\'') ∨ (c = '\n' ∧ d = 'n') ∨ (c = '\r' ∧ d = 'r'))) ∨
    (escape c = [c] ∧ c ≠ '\\' ∧ c ≠ '\'' ∧ c ≠ '\n') := by
  unfold escape
  by_cases h₁ : c = '\\'
  · subst h₁
    exact .inl ⟨'\\', by decide, by decide, by simp⟩
  by_cases h₂ : c = '\''
  · subst h₂
    exact .inl ⟨'\'', by decide, by decide, by simp⟩
  by_cases h₃ : c = '\n'
  · subst h₃
    exact .inl ⟨'n', by decide, by decide, by simp⟩
  by_cases h₄ : c = '\r'
  · subst h₄
    exact .inl ⟨'r', by decide, by decide, by simp⟩
  · exact .inr ⟨by simp [h₁, h₂, h₃, h₄], h₁, h₂, h₃⟩

/-- A character can be read back, whatever comes behind it. -/
theorem escape_append_inj {c d : Char} {x y : List Char} (h : escape c ++ x = escape d ++ y) :
    c = d ∧ x = y := by
  obtain ⟨a, ha, -, hc⟩ | ⟨ha, hc, -⟩ := escape_cases c
  · obtain ⟨b, hb, -, hd⟩ | ⟨hb, hd, -⟩ := escape_cases d
    · obtain ⟨rfl, rfl⟩ : a = b ∧ x = y := by simpa [ha, hb] using h
      refine ⟨?_, rfl⟩
      rcases hc with ⟨rfl, rfl⟩ | ⟨rfl, rfl⟩ | ⟨rfl, rfl⟩ | ⟨rfl, rfl⟩ <;> simp_all
    · obtain ⟨he, -⟩ : '\\' = d ∧ _ := by simpa [ha, hb] using h
      exact absurd he.symm hd
  · obtain ⟨b, hb, -, hd⟩ | ⟨hb, hd, -⟩ := escape_cases d
    · obtain ⟨he, -⟩ : c = '\\' ∧ _ := by simpa [ha, hb] using h
      exact absurd he hc
    · simpa [ha, hb] using h

/-- No character is written like the end of a quoted text. -/
theorem escape_append_ne (c : Char) (x y : List Char) : escape c ++ x ≠ '\'' :: y := by
  obtain ⟨a, ha, -⟩ | ⟨ha, -, hc, -⟩ := escape_cases c
  · simp [ha]
  · simp [ha, hc]

theorem flatMap_escape_append_inj {s t x y : List Char}
    (h : s.flatMap escape ++ '\'' :: x = t.flatMap escape ++ '\'' :: y) : s = t ∧ x = y := by
  induction s generalizing t with
  | nil =>
    cases t with
    | nil => simpa using h
    | cons d t =>
      rw [List.flatMap_cons, List.append_assoc] at h
      exact absurd h.symm (escape_append_ne d _ _)
  | cons c s ih =>
    cases t with
    | nil =>
      rw [List.flatMap_cons, List.append_assoc] at h
      exact absurd h (escape_append_ne c _ _)
    | cons d t =>
      rw [List.flatMap_cons, List.flatMap_cons, List.append_assoc, List.append_assoc] at h
      obtain ⟨rfl, hrest⟩ := escape_append_inj h
      obtain ⟨rfl, rfl⟩ := ih hrest
      exact ⟨rfl, rfl⟩

/-- A quoted text ends where its quote does: it can be read back, whatever comes behind it. -/
theorem quoted_append_inj {s t : String} {x y : List Char}
    (h : (quoted s).toList ++ x = (quoted t).toList ++ y) : s = t ∧ x = y := by
  have h' : s.toList.flatMap escape ++ '\'' :: x = t.toList.flatMap escape ++ '\'' :: y := by
    simpa [quoted] using h
  obtain ⟨hs, hx⟩ := flatMap_escape_append_inj h'
  exact ⟨String.toList_inj.1 hs, hx⟩

/-- A quoted text stays on one line. -/
theorem not_mem_quoted (s : String) : '\n' ∉ (quoted s).toList := by
  have hescape : ∀ c, '\n' ∉ escape c := fun c => by
    obtain ⟨d, hd, hn, -⟩ | ⟨hc, -, -, hn⟩ := escape_cases c
    · simp [hd, hn.symm]
    · simp [hc, hn.symm]
  simp [quoted, hescape]

/-! ### Parts of lists -/

section parts

variable {α β : Type} {as as' bs bs' : List α}

/-- What comes in front of a first separator can be read back. -/
theorem append_cons_inj {a b : α} (h : as ++ a :: bs = as' ++ b :: bs') (has : b ∉ as)
    (has' : a ∉ as') : as = as' ∧ a = b ∧ bs = bs' := by
  induction as generalizing as' with
  | nil =>
    cases as' with
    | nil => simpa using h
    | cons c cs =>
      obtain ⟨rfl, -⟩ : a = c ∧ _ := by simpa using h
      simp at has'
  | cons c cs ih =>
    cases as' with
    | nil =>
      obtain ⟨rfl, -⟩ : c = b ∧ _ := by simpa using h
      simp at has
    | cons d ds =>
      obtain ⟨rfl, hrest⟩ : c = d ∧ cs ++ a :: bs = ds ++ b :: bs' := by simpa using h
      obtain ⟨rfl, hab, hbs⟩ := ih hrest (fun hm => has (List.mem_cons_of_mem _ hm))
        fun hm => has' (List.mem_cons_of_mem _ hm)
      exact ⟨rfl, hab, hbs⟩

/-- Two parts that a property tells apart can be read back from what they make together. -/
theorem append_inj_of_filter (p : α → Bool)
    (h : as ++ bs = as' ++ bs') (has : ∀ a ∈ as, p a = true) (has' : ∀ a ∈ as', p a = true)
    (hbs : ∀ b ∈ bs, p b = false) (hbs' : ∀ b ∈ bs', p b = false) : as = as' ∧ bs = bs' := by
  have hfilter := congrArg (List.filter p) h
  have hbs₀ : bs.filter p = [] := List.filter_eq_nil_iff.2 fun b hb => by simp [hbs b hb]
  have hbs₀' : bs'.filter p = [] := List.filter_eq_nil_iff.2 fun b hb => by simp [hbs' b hb]
  rw [List.filter_append, List.filter_append, List.filter_eq_self.2 has, List.filter_eq_self.2 has',
    hbs₀, hbs₀', List.append_nil, List.append_nil] at hfilter
  subst hfilter
  exact ⟨rfl, List.append_cancel_left h⟩

/-- What each element makes can be read back from what all of them make. -/
theorem map_inj_of_mem {f : α → β} (h : as.map f = bs.map f)
    (hf : ∀ a ∈ as, ∀ b ∈ bs, f a = f b → a = b) : as = bs := by
  induction as generalizing bs with
  | nil => simpa using h.symm
  | cons a as ih =>
    cases bs with
    | nil => simp at h
    | cons b bs =>
      obtain ⟨hab, hrest⟩ : f a = f b ∧ as.map f = bs.map f := by simpa using h
      rw [hf a List.mem_cons_self b List.mem_cons_self hab,
        ih hrest fun x hx y hy => hf x (List.mem_cons_of_mem _ hx) y (List.mem_cons_of_mem _ hy)]

end parts

/-! ### Lines -/

theorem toList_unlines (lines : List String) :
    (unlines lines).toList = lines.flatMap fun l => l.toList ++ ['\n'] := by
  induction lines with
  | nil => rfl
  | cons line rest ih => simp_all [unlines]

/-- A text can be cut into its lines. -/
theorem unlines_inj {lines lines' : List String} (h : ∀ l ∈ lines, '\n' ∉ l.toList)
    (h' : ∀ l ∈ lines', '\n' ∉ l.toList) (he : unlines lines = unlines lines') :
    lines = lines' := by
  replace he := congrArg String.toList he
  rw [toList_unlines, toList_unlines] at he
  induction lines generalizing lines' with
  | nil =>
    cases lines' with
    | nil => rfl
    | cons line rest => simp at he
  | cons line rest ih =>
    cases lines' with
    | nil => simp at he
    | cons line' rest' =>
      simp only [List.flatMap_cons, List.append_assoc, List.singleton_append] at he
      obtain ⟨hline, -, hrest⟩ := append_cons_inj he (h line List.mem_cons_self)
        (h' line' List.mem_cons_self)
      rw [String.toList_inj.1 hline, ih (fun l hl => h l (List.mem_cons_of_mem _ hl))
        (fun l hl => h' l (List.mem_cons_of_mem _ hl)) hrest]

/-! ### Names -/

section names

variable {name : String} (h : Identifier.isSpelled name.toList = true)

include h

theorem exists_letters_of_isSpelled : ∃ c cs, name.toList = c :: cs ∧
    ∀ d ∈ name.toList, Identifier.isLetter d = true := by
  unfold Identifier.isSpelled at h
  split at h
  · cases h
  · next c cs heq =>
    simp only [Bool.and_eq_true] at h
    exact ⟨c, cs, heq, fun d hd => List.all_eq_true.1 h.2 d (heq ▸ hd)⟩

/-- What is no letter is not in a name. -/
theorem not_mem_of_isSpelled {c : Char} (hc : Identifier.isLetter c = false) : c ∉ name.toList := by
  obtain ⟨-, -, -, hall⟩ := exists_letters_of_isSpelled h
  intro hm
  simp [hall c hm] at hc

/-- What starts with a name does not start with anything else. -/
theorem toList_append_ne {c : Char} (hc : Identifier.isLetter c = false) (x y : List Char) :
    name.toList ++ x ≠ c :: y := by
  obtain ⟨d, ds, hd, hall⟩ := exists_letters_of_isSpelled h
  rw [hd, List.cons_append]
  intro he
  obtain rfl := (List.cons.inj he).1
  simp [hall d (by simp [hd])] at hc

end names

/-! ### Lines of modules -/

theorem quoted_inj {s t : String} (h : quoted s = quoted t) : s = t :=
  (quoted_append_inj (x := []) (y := []) (by rw [h])).1

theorem not_mem_defaultLine {name : String} (h : Identifier.isSpelled name.toList = true)
    (path : String) : '\n' ∉ (Import.defaultLine name path).toList := by
  have hname := not_mem_of_isSpelled h (c := '\n') (by decide)
  simp [Import.defaultLine, not_mem_quoted, hname]

theorem defaultLine_inj {name name' path path' : String}
    (h : Identifier.isSpelled name.toList = true) (h' : Identifier.isSpelled name'.toList = true)
    (he : Import.defaultLine name path = Import.defaultLine name' path') :
    name = name' ∧ path = path' := by
  have hname := (reads_defaultLine h path).2
  rw [he, (reads_defaultLine h' path').2] at hname
  obtain rfl := Option.some.inj hname
  refine ⟨rfl, quoted_inj ?_⟩
  simpa [Import.defaultLine, String.append_left_inj, String.append_right_inj] using he

/-- An import can be read back from its line. -/
theorem Import.line_inj {own : String} (hown : ' ' ∉ own.toList) {i j : Import}
    (hi : Identifier.isSpelled i.identifier.toList = true)
    (hj : Identifier.isSpelled j.identifier.toList = true) (h : i.line own = j.line own) :
    i = j := by
  have hname := (reads_line hi hown).2
  rw [h, (reads_line hj hown).2] at hname
  have hstyle : ∀ {i j : Import}, Identifier.isSpelled i.identifier.toList = true →
      i.byDefault = true → j.byDefault = false → i.line own ≠ j.line own := by
    intro i j hi hi' hj' he
    rw [Import.line, Import.line, if_pos hi', if_neg (by simp [hj']), Import.defaultLine] at he
    replace he := congrArg String.toList he
    simp only [String.toList_append, List.append_assoc] at he
    exact toList_append_ne hi (c := '\x7b') (by decide) _ _ (List.append_cancel_left he)
  obtain ⟨name, path, byDefault⟩ := i
  obtain ⟨name', path', byDefault'⟩ := j
  obtain rfl : name' = name := Option.some.inj hname
  cases byDefault <;> cases byDefault'
  · have hquoted : quoted path = quoted path' := by
      simpa [Import.line, String.append_left_inj, String.append_right_inj] using h
    rw [quoted_inj hquoted]
  · exact absurd h.symm (hstyle hj rfl rfl)
  · exact absurd h (hstyle hi rfl rfl)
  · exact congrArg (Import.mk name' · true) (defaultLine_inj hi hi h).2

theorem Import.not_mem_line {own : String} (hown : '\n' ∉ own.toList) {i : Import}
    (hi : Identifier.isSpelled i.identifier.toList = true) : '\n' ∉ (i.line own).toList := by
  have hname := not_mem_of_isSpelled hi (c := '\n') (by decide)
  unfold Import.line
  split
  · exact not_mem_defaultLine hi i.path
  · simp [not_mem_quoted, hname, hown]

/-! ### Imports -/

/-- A usable name that a module does not keep for itself. -/
def IsFree (own : List String) (name : String) : Prop :=
  Identifier.isUsable name = true ∧ name ∉ own

instance (own : List String) (name : String) : Decidable (IsFree own name) :=
  inferInstanceAs (Decidable (_ ∧ _))

theorem IsFree.isSpelled {own : List String} {name : String} (h : IsFree own name) :
    Identifier.isSpelled name.toList = true := Identifier.isSpelled_of_isUsable h.1

section imports

variable {own : String} {names names' : List String} {is js : List Import} {t u : Option String}
  (hnames : "middleware" ∈ names) (his : ∀ i ∈ is, IsFree names i.identifier)
  (hjs : ∀ j ∈ js, IsFree names j.identifier)

include hnames his hjs

/-- The imports of a module and that of its table can be read back from their lines. -/
theorem imports_append_inj (hown : ' ' ∉ own.toList)
    (h : is.map (Import.line own) ++ t.toList.map tableImportLine =
      js.map (Import.line own) ++ u.toList.map tableImportLine) : is = js ∧ t = u := by
  have himport : ∀ {is : List Import}, (∀ i ∈ is, IsFree names i.identifier) →
      ∀ line ∈ is.map (Import.line own),
        decide (declaredName? line ≠ some "middleware") = true := by
    intro is his line hline
    obtain ⟨i, hi, rfl⟩ := List.mem_map.1 hline
    have hne : i.identifier ≠ "middleware" := fun he => (his i hi).2 (he ▸ hnames)
    rw [(reads_line (his i hi).isSpelled hown).2]
    simpa using hne
  have htable : ∀ {t : Option String}, ∀ line ∈ t.toList.map tableImportLine,
      decide (declaredName? line ≠ some "middleware") = false := by
    intro t line hline
    obtain ⟨path, -, rfl⟩ := List.mem_map.1 hline
    have hname : declaredName? (tableImportLine path) = some "middleware" :=
      (reads_defaultLine (by decide) path).2
    simp [hname]
  obtain ⟨himports, htables⟩ :=
    append_inj_of_filter _ h (himport his) (himport hjs) htable htable
  refine ⟨map_inj_of_mem himports fun i hi j hj he =>
    Import.line_inj hown (his i hi).isSpelled (hjs j hj).isSpelled he, ?_⟩
  cases t with
  | none => cases u <;> simp_all
  | some path =>
    cases u with
    | none => simp at htables
    | some path' =>
      have hline : tableImportLine path = tableImportLine path' := by simpa using htables
      rw [(defaultLine_inj (by decide) (by decide) hline).2]

end imports

/-- No import is an empty line. -/
theorem empty_not_mem {lines : List String} (h : ∀ line ∈ lines, isImport line = true) :
    "" ∉ lines := fun hm => by simpa using (show isImport "" = false by decide).symm.trans (h _ hm)

theorem isImport_of_mem {own : String} {names : List String} {is : List Import}
    (hown : ' ' ∉ own.toList) (his : ∀ i ∈ is, IsFree names i.identifier) :
    ∀ line ∈ is.map (Import.line own), isImport line = true := by
  intro line hline
  obtain ⟨i, hi, rfl⟩ := List.mem_map.1 hline
  exact (reads_line (his i hi).isSpelled hown).1

theorem isImport_of_mem_table {t : Option String} :
    ∀ line ∈ t.toList.map tableImportLine, isImport line = true := by
  intro line hline
  obtain ⟨path, -, rfl⟩ := List.mem_map.1 hline
  exact (@reads_defaultLine "middleware" (by decide) path).1

theorem not_mem_of_mem_imports {own : String} {names : List String} {is : List Import}
    (hown : '\n' ∉ own.toList) (his : ∀ i ∈ is, IsFree names i.identifier) :
    ∀ line ∈ is.map (Import.line own), '\n' ∉ line.toList := by
  intro line hline
  obtain ⟨i, hi, rfl⟩ := List.mem_map.1 hline
  exact Import.not_mem_line hown (his i hi).isSpelled

/-! ### Routers -/

theorem toList_join (texts : List String) :
    (String.join texts).toList = texts.flatMap String.toList := by
  induction texts with
  | nil => rfl
  | cons text rest ih => simp_all

/-- The middleware of a route ends where the name of its handler begins. -/
theorem tableEntries_append_inj {ns ns' : List String} {name name' : String} {x x' : List Char}
    (h : Identifier.isSpelled name.toList = true) (h' : Identifier.isSpelled name'.toList = true)
    (he : (String.join (ns.map fun n => tableEntry n ++ ", ")).toList ++ (name.toList ++ ')' :: x) =
      (String.join (ns'.map fun n => tableEntry n ++ ", ")).toList ++ (name'.toList ++ ')' :: x')) :
    ns = ns' ∧ name = name' := by
  have hno : ∀ {name : String}, Identifier.isSpelled name.toList = true → ∀ (x y : List Char),
      name.toList ++ ')' :: x ≠ "middleware".toList ++ '[' :: y := fun h x y he => by
    obtain ⟨-, hc, -⟩ := append_cons_inj he (not_mem_of_isSpelled h (by decide)) (by decide)
    cases hc
  simp only [toList_join, List.flatMap_map, tableEntry, String.toList_append, List.append_assoc]
    at he
  induction ns generalizing ns' with
  | nil =>
    cases ns' with
    | nil =>
      obtain ⟨hname, -⟩ := append_cons_inj he (not_mem_of_isSpelled h (by decide))
        (not_mem_of_isSpelled h' (by decide))
      exact ⟨rfl, String.toList_inj.1 hname⟩
    | cons n ns' =>
      simp only [List.flatMap_nil, List.nil_append, List.flatMap_cons, List.append_assoc] at he
      exact absurd he (hno h _ _)
  | cons n ns ih =>
    cases ns' with
    | nil =>
      simp only [List.flatMap_nil, List.nil_append, List.flatMap_cons, List.append_assoc] at he
      exact absurd he.symm (hno h' _ _)
    | cons n' ns' =>
      simp only [List.flatMap_cons, List.append_assoc] at he
      obtain ⟨rfl, hrest⟩ := quoted_append_inj (List.append_cancel_left he)
      obtain ⟨rfl, hname⟩ := ih (List.append_cancel_left (List.append_cancel_left hrest))
      exact ⟨rfl, hname⟩

/-- A registration can be read back from its line. -/
theorem Registration.line_inj {r s : Registration}
    (hr : Identifier.isSpelled r.identifier.toList = true)
    (hs : Identifier.isSpelled s.identifier.toList = true) (h : r.line = s.line) : r = s := by
  have hmethod : ∀ m : Http.Method, '(' ∉ m.routerMethod.toList := by
    intro m
    cases m <;> decide
  have hinj : ∀ m m' : Http.Method, m.routerMethod = m'.routerMethod → m = m' := by
    intro m m' he
    have hparse := m.parse_routerMethod
    rw [he, m'.parse_routerMethod] at hparse
    exact (Option.some.inj hparse).symm
  obtain ⟨method, route, ns, name⟩ := r
  obtain ⟨method', route', ns', name'⟩ := s
  have hopen : "(".toList = ['('] := rfl
  have hclose : ");".toList = ')' :: [';'] := rfl
  replace h := congrArg String.toList h
  simp only [Registration.line, String.toList_append, List.append_assoc, hopen, hclose,
    List.cons_append, List.nil_append] at h
  obtain ⟨hm, -, hquoted⟩ := append_cons_inj (List.append_cancel_left h) (hmethod _) (hmethod _)
  obtain ⟨rfl, htail⟩ := quoted_append_inj hquoted
  obtain ⟨rfl, rfl⟩ := tableEntries_append_inj hr hs (List.append_cancel_left htail)
  rw [hinj _ _ (String.toList_inj.1 hm)]

theorem tableEntry_inj {a b : String} (h : tableEntry a = tableEntry b) : a = b := by
  simp only [tableEntry, String.append_left_inj, String.append_right_inj] at h
  exact quoted_inj h

theorem not_mem_tableEntry (name : String) : '\n' ∉ (tableEntry name).toList := by
  simp [tableEntry, not_mem_quoted]

namespace Router

/-- The names in a router module are free, and a table that it imports is somewhere. -/
structure WellFormed (r : Router) : Prop where
  /-- The names of the handlers are free. -/
  handlers : ∀ i ∈ r.handlers, IsFree ownNames i.identifier
  /-- The names in the registrations are free. -/
  routes : ∀ route ∈ r.routes, IsFree ownNames route.identifier
  /-- The table is imported from somewhere. -/
  table : r.tableImport ≠ some ""

variable {r s : Router}

theorem tableImportLines_eq (h : r.WellFormed) :
    r.tableImportLines = r.tableImport.toList.map tableImportLine := by
  unfold tableImportLines
  have htable := h.table
  cases hp : r.tableImport with
  | none => rfl
  | some path =>
    have hpath : path ≠ "" := fun he => htable (he ▸ hp)
    simp [hpath]

/-- The lines with the imports of a router module. -/
def importing (r : Router) : List String :=
  Import.defaultLine "express" "express" ::
    (r.handlers.map (Import.line "handler") ++ r.tableImport.toList.map tableImportLine)

/-- The lines with the middleware of its folder. -/
def useLines (r : Router) : List String :=
  r.folderMiddleware.map fun name => "router.use(" ++ tableEntry name ++ ");"

theorem lines_eq (h : r.WellFormed) : r.lines =
    r.importing ++ "" :: "const router = express.Router();" ::
      ((r.useLines ++ r.routes.map Registration.line) ++ ["", "export default router;"]) := by
  simp [lines, tableImportLines_eq h, importing, useLines]

theorem empty_not_mem_importing (h : r.WellFormed) : "" ∉ r.importing :=
  empty_not_mem <| List.forall_mem_cons.2 ⟨by decide, List.forall_mem_append.2
    ⟨isImport_of_mem (by decide) h.handlers, isImport_of_mem_table⟩⟩

/-- How the lines with the middleware begin, and no registration does. -/
theorem isPrefixOf_of_mem_useLines {line : String} (h : line ∈ r.useLines) :
    "router.use(".toList.isPrefixOf line.toList = true := by
  obtain ⟨name, -, rfl⟩ := List.mem_map.1 h
  simp only [String.toList_append, List.append_assoc]
  exact List.isPrefixOf_iff_prefix.2 (List.prefix_append _ _)

theorem not_isPrefixOf_of_mem_routes {line : String} (h : line ∈ r.routes.map Registration.line) :
    "router.use(".toList.isPrefixOf line.toList = false := by
  obtain ⟨route, -, rfl⟩ := List.mem_map.1 h
  rw [Registration.line]
  cases route.method <;> simp [Http.Method.routerMethod, List.isPrefixOf]

/-- A router module can be read back from its lines. -/
theorem lines_inj (hr : r.WellFormed) (hs : s.WellFormed) (h : r.lines = s.lines) : r = s := by
  rw [lines_eq hr, lines_eq hs] at h
  obtain ⟨himports, -, hrest⟩ :=
    append_cons_inj h (empty_not_mem_importing hr) (empty_not_mem_importing hs)
  obtain ⟨hhandlers, htable⟩ := imports_append_inj (by decide) hr.handlers hs.handlers (by decide)
    (List.cons.inj himports).2
  obtain ⟨huse, hroute⟩ := append_inj_of_filter _
    (List.append_cancel_right (List.cons.inj hrest).2) (fun _ => isPrefixOf_of_mem_useLines)
    (fun _ => isPrefixOf_of_mem_useLines) (fun _ => not_isPrefixOf_of_mem_routes)
    fun _ => not_isPrefixOf_of_mem_routes
  have hfolder : r.folderMiddleware = s.folderMiddleware := map_inj_of_mem huse fun a _ b _ he =>
    tableEntry_inj (by simpa [String.append_left_inj, String.append_right_inj] using he)
  have hregistrations : r.routes = s.routes := map_inj_of_mem hroute fun a ha b hb he =>
    Registration.line_inj (hr.routes a ha).isSpelled (hs.routes b hb).isSpelled he
  cases r
  cases s
  simp_all

theorem not_mem_lines (h : r.WellFormed) : ∀ line ∈ r.lines, '\n' ∉ line.toList := by
  have htable : ∀ line ∈ r.tableImport.toList.map tableImportLine, '\n' ∉ line.toList := by
    intro line hline
    obtain ⟨path, -, rfl⟩ := List.mem_map.1 hline
    exact not_mem_defaultLine (by decide) path
  have hroutes : ∀ line ∈ r.routes.map Registration.line, '\n' ∉ line.toList := by
    intro line hline
    obtain ⟨route, hroute, rfl⟩ := List.mem_map.1 hline
    have hname := not_mem_of_isSpelled (h.routes route hroute).isSpelled (c := '\n') (by decide)
    have hmethod : ∀ m : Http.Method, '\n' ∉ m.routerMethod.toList := by
      intro m
      cases m <;> decide
    simp [Registration.line, hmethod, not_mem_quoted, not_mem_tableEntry, hname]
  simp only [lines, tableImportLines_eq h, List.forall_mem_append]
  refine ⟨⟨⟨⟨⟨⟨by decide, not_mem_of_mem_imports (by decide) h.handlers⟩, htable⟩, by decide⟩, ?_⟩,
    hroutes⟩, by decide⟩
  simp [not_mem_tableEntry]

end Router

/-! ### Tables -/

/-- An entry can be read back from its line. -/
theorem TableEntry.line_inj {e f : TableEntry} (h : e.line = f.line) : e = f := by
  obtain ⟨name, identifier⟩ := e
  obtain ⟨name', identifier'⟩ := f
  replace h := congrArg String.toList h
  simp only [TableEntry.line, String.toList_append, List.append_assoc] at h
  obtain ⟨rfl, hrest⟩ := quoted_append_inj (List.append_cancel_left h)
  rw [String.toList_inj.1 (List.append_cancel_left hrest)]

/-- The entries can be read back from their lines. -/
theorem entryLines_inj {es fs : List TableEntry} (h : entryLines es = entryLines fs) : es = fs := by
  induction es using entryLines.induct generalizing fs with
  | case1 =>
    rcases fs with - | ⟨f, - | ⟨g, rest⟩⟩
    · rfl
    · simp [entryLines] at h
    · simp [entryLines] at h
  | case2 e =>
    rcases fs with - | ⟨f, - | ⟨g, rest⟩⟩
    · simp [entryLines] at h
    · rw [TableEntry.line_inj (List.cons.inj h).1]
    · have hlength := congrArg List.length h
      cases rest <;> simp [entryLines] at hlength
  | case3 e f rest ih =>
    rcases fs with - | ⟨g, - | ⟨g', rest'⟩⟩
    · simp [entryLines] at h
    · have hlength := congrArg List.length h
      cases rest <;> simp [entryLines] at hlength
    · rw [entryLines, entryLines] at h
      obtain ⟨hline, hrest⟩ := List.cons.inj h
      rw [TableEntry.line_inj ((String.append_left_inj ",").1 hline), ih hrest]

theorem not_mem_entryLines {es : List TableEntry}
    (h : ∀ e ∈ es, Identifier.isSpelled e.identifier.toList = true) :
    ∀ line ∈ entryLines es, '\n' ∉ line.toList := by
  have hline : ∀ e : TableEntry, Identifier.isSpelled e.identifier.toList = true →
      '\n' ∉ e.line.toList := fun e he => by
    have hname := not_mem_of_isSpelled he (c := '\n') (by decide)
    simp [TableEntry.line, not_mem_quoted, hname]
  induction es using entryLines.induct with
  | case1 => simp [entryLines]
  | case2 e => simpa [entryLines] using hline e (h e (by simp))
  | case3 e f rest ih =>
    rw [entryLines]
    refine List.forall_mem_cons.2 ⟨?_, ih fun g hg => h g (List.mem_cons_of_mem _ hg)⟩
    simpa using hline e (h e (by simp))

namespace MiddlewareTable

/-- The names in a table are free. -/
structure WellFormed (t : MiddlewareTable) : Prop where
  /-- The names of the functions are free. -/
  imports : ∀ i ∈ t.imports, IsFree ownNames i.identifier
  /-- The names in the entries are free. -/
  entries : ∀ e ∈ t.entries, IsFree ownNames e.identifier

variable {t u : MiddlewareTable}

/-- A table can be read back from its lines. -/
theorem lines_inj (ht : t.WellFormed) (hu : u.WellFormed) (h : t.lines = u.lines) : t = u := by
  have hlines : ∀ t : MiddlewareTable, t.lines = t.imports.map (Import.line "middleware") ++
      "" :: "const middleware = \x7b" ::
        (entryLines t.entries ++ ["\x7d;", "", "export default middleware;"]) :=
    fun t => by simp [lines]
  have hempty : ∀ {t : MiddlewareTable}, t.WellFormed →
      "" ∉ t.imports.map (Import.line "middleware") :=
    fun ht => empty_not_mem (isImport_of_mem (by decide) ht.imports)
  rw [hlines, hlines] at h
  obtain ⟨himports, -, hrest⟩ := append_cons_inj h (hempty ht) (hempty hu)
  have himport : t.imports = u.imports := map_inj_of_mem himports fun i hi j hj he =>
    Import.line_inj (by decide) (ht.imports i hi).isSpelled (hu.imports j hj).isSpelled he
  have hentries : t.entries = u.entries :=
    entryLines_inj (List.append_cancel_right (List.cons.inj hrest).2)
  cases t
  cases u
  simp_all

theorem not_mem_lines (h : t.WellFormed) : ∀ line ∈ t.lines, '\n' ∉ line.toList := by
  simp only [lines, List.forall_mem_append]
  exact ⟨⟨⟨not_mem_of_mem_imports (by decide) h.imports, by decide⟩,
    not_mem_entryLines fun e he => (h.entries e he).isSpelled⟩, by decide⟩

end MiddlewareTable

/-! ### Entrypoints -/

/-- Quoted names can be read back from their list. -/
theorem joinQuoted_append_inj {ns ns' : List String} {x x' : List Char} (hne : ns ≠ [])
    (hne' : ns' ≠ []) (h : (Text.join ", " (ns.map quoted)).toList ++ ']' :: x =
      (Text.join ", " (ns'.map quoted)).toList ++ ']' :: x') : ns = ns' := by
  induction ns generalizing ns' with
  | nil => exact absurd rfl hne
  | cons n rest ih =>
    rcases ns' with - | ⟨n', - | ⟨m', rest'⟩⟩
    · exact absurd rfl hne'
    · cases rest with
      | nil => rw [(quoted_append_inj h).1]
      | cons m rest =>
        simp only [List.map_cons, List.map_nil, Text.join, String.toList_append, List.append_assoc]
          at h
        obtain ⟨-, htail⟩ := quoted_append_inj h
        simp at htail
    · cases rest with
      | nil =>
        simp only [List.map_cons, List.map_nil, Text.join, String.toList_append, List.append_assoc]
          at h
        obtain ⟨-, htail⟩ := quoted_append_inj h
        simp at htail
      | cons m rest =>
        simp only [List.map_cons, Text.join, String.toList_append, List.append_assoc] at h
        obtain ⟨rfl, htail⟩ := quoted_append_inj h
        rw [@ih (m' :: rest') (by simp) (by simp) (List.append_cancel_left htail)]

theorem not_mem_joinQuoted (ns : List String) :
    '\n' ∉ (Text.join ", " (ns.map quoted)).toList := by
  induction ns with
  | nil => simp [Text.join]
  | cons n rest ih =>
    cases rest with
    | nil => exact not_mem_quoted n
    | cons m rest =>
      simp only [List.map_cons] at ih
      simp [Text.join, not_mem_quoted, ih]

theorem spelled_inj {m n : Nat} (h : Decimal.spelled m = Decimal.spelled n) : m = n := by
  have hdigits : Nat.toDigits 10 m = Nat.toDigits 10 n := String.ofList_injective h
  rw [← Nat.ofDigitChars_ten_toDigits (n := m), hdigits, Nat.ofDigitChars_ten_toDigits]

theorem not_mem_spelled (n : Nat) : '\n' ∉ (Decimal.spelled n).toList := by
  intro hm
  have hdigit : '\n'.isDigit = true := Nat.isDigit_of_mem_toDigits (b := 10) (n := n)
    (by decide) (by decide) (by simpa [Decimal.spelled, Decimal.digitsOf] using hm)
  exact absurd hdigit (by decide)

namespace Entrypoint

/-- The names in an entrypoint are free, and it imports the table where it is used. -/
structure WellFormed (e : Entrypoint) : Prop where
  /-- The names of the routers are free. -/
  routers : ∀ m ∈ e.routers, IsFree ownNames m.identifier
  /-- The table is imported where there is any middleware. -/
  table : e.tableImport.isSome ↔ e.appMiddleware ≠ []

variable {e f : Entrypoint}

theorem tableImportLines_eq (h : e.WellFormed) :
    e.tableImportLines = .ok (e.tableImport.toList.map tableImportLine) := by
  unfold tableImportLines
  have htable := h.table
  cases hp : e.tableImport with
  | none => simp_all
  | some path => simp_all

/-- A well-formed entrypoint has a text. -/
theorem render_eq (h : e.WellFormed) :
    e.render = .ok (unlines (e.linesWith (e.tableImport.toList.map tableImportLine))) := by
  rw [render, tableImportLines_eq h]
  rfl

theorem appMiddleware_inj (h : e.appMiddlewareLines = f.appMiddlewareLines) :
    e.appMiddleware = f.appMiddleware := by
  unfold appMiddlewareLines at h
  split at h
  · next he =>
    split at h
    · next hf => rw [he, hf]
    · simp at h
  · next he =>
    split at h
    · simp at h
    · next hf =>
      have hline := congrArg String.toList (List.cons.inj h).1
      simp only [String.toList_append, List.append_assoc] at hline
      exact joinQuoted_append_inj he hf (List.append_cancel_left hline)

/-- The place at which a router is mounted can be read back from its line. -/
theorem slug_of_mountLine {m n : Mount} (hline : e.mountLine m = f.mountLine n) :
    m.slug = n.slug := by
  replace hline := congrArg String.toList hline
  simp only [mountLine, String.toList_append, List.append_assoc] at hline
  exact (quoted_append_inj (List.append_cancel_left hline)).1

/-- Routers can be read back from the lines that import them and those that mount them. -/
theorem routers_inj (h : e.appMiddleware = f.appMiddleware) (he : e.WellFormed) (hf : f.WellFormed)
    (himports : e.routers.map (fun m => Import.defaultLine m.identifier m.path) =
      f.routers.map fun m => Import.defaultLine m.identifier m.path)
    (hmounts : e.routers.map e.mountLine = f.routers.map f.mountLine) : e.routers = f.routers := by
  have hmount : f.mountLine = e.mountLine := by
    funext m
    rw [mountLine, mountLine, mountedMiddleware, mountedMiddleware, h]
  rw [hmount] at hmounts
  have hboth := congrArg₂ List.zip himports hmounts
  rw [List.zip_map', List.zip_map'] at hboth
  refine map_inj_of_mem hboth fun m hm n hn hline => ?_
  obtain ⟨himport, hmounted⟩ := Prod.mk.inj hline
  obtain ⟨hname, hpath⟩ := defaultLine_inj (he.routers m hm).isSpelled (hf.routers n hn).isSpelled
    himport
  have hslug := slug_of_mountLine hmounted
  cases m
  cases n
  simp_all

/-- The line that runs a script. -/
def scriptLine (path : String) : String := "import " ++ quoted path ++ ";"

/-- The routers of an entrypoint, as what it imports. -/
def imports (e : Entrypoint) : List Import := e.routers.map fun m => ⟨m.identifier, m.path, true⟩

/-- The lines that import the routers and the table. -/
def importing (e : Entrypoint) : List String :=
  e.imports.map (Import.line "middleware") ++ e.tableImport.toList.map tableImportLine

/-- The lines that start the server. -/
def listening (e : Entrypoint) : List String :=
  ["app.listen(" ++ Decimal.spelled e.port.toNat ++ ", () => \x7b",
    "  console.log('Server listening on port " ++ Decimal.spelled e.port.toNat ++ "');", "\x7d);"]

theorem linesWith_eq (e : Entrypoint) : e.linesWith (e.tableImport.toList.map tableImportLine) =
    (e.preRunScripts.map scriptLine ++ Import.defaultLine "express" "express" :: e.importing) ++
      "" :: "const app = express();" :: (e.appMiddlewareLines ++ "" ::
        (e.routers.map e.mountLine ++ "" :: e.listening)) := by
  simp [linesWith, importing, imports, scriptLine, listening, Import.line, Function.comp_def]

theorem isFree_of_mem_imports (h : e.WellFormed) :
    ∀ i ∈ e.imports, IsFree ownNames i.identifier := by
  intro i hi
  obtain ⟨m, hm, rfl⟩ := List.mem_map.1 hi
  exact h.routers m hm

theorem map_importLine_imports (e : Entrypoint) : e.imports.map (Import.line "middleware") =
    e.routers.map fun m => Import.defaultLine m.identifier m.path := by
  simp [imports, Import.line, Function.comp_def]

/-- No script is run by the line that imports the framework. -/
theorem express_not_mem_scripts :
    Import.defaultLine "express" "express" ∉ e.preRunScripts.map scriptLine := by
  intro hm
  obtain ⟨path, -, he⟩ := List.mem_map.1 hm
  have hname : declaredName? (scriptLine path) = none := (reads_script path).2
  rw [he, (reads_defaultLine (by decide) _).2] at hname
  cases hname

theorem empty_not_mem_head (h : e.WellFormed) :
    "" ∉ e.preRunScripts.map scriptLine ++
      Import.defaultLine "express" "express" :: e.importing := by
  refine empty_not_mem <| List.forall_mem_append.2 ⟨fun line hline => ?_, List.forall_mem_cons.2
    ⟨(reads_defaultLine (by decide) _).1, List.forall_mem_append.2
      ⟨isImport_of_mem (by decide) (isFree_of_mem_imports h), isImport_of_mem_table⟩⟩⟩
  obtain ⟨path, -, rfl⟩ := List.mem_map.1 hline
  exact (reads_script path).1

theorem empty_not_mem_appMiddlewareLines : "" ∉ e.appMiddlewareLines := by
  unfold appMiddlewareLines
  split <;> simp [String.ext_iff]

theorem empty_not_mem_mountLines : "" ∉ e.routers.map e.mountLine := by
  simp [mountLine, String.ext_iff]

/-- The scripts can be read back from their lines. -/
theorem preRunScripts_inj
    (h : e.preRunScripts.map scriptLine = f.preRunScripts.map scriptLine) :
    e.preRunScripts = f.preRunScripts :=
  map_inj_of_mem h fun a _ b _ hline =>
    quoted_inj (by simpa [scriptLine, String.append_left_inj, String.append_right_inj] using hline)

/-- The port can be read back from the lines that start the server. -/
theorem port_inj (h : e.listening = f.listening) : e.port = f.port := by
  have hline := (List.cons.inj h).1
  simp only [String.append_left_inj, String.append_right_inj] at hline
  exact UInt16.toNat_inj.1 (spelled_inj hline)

/-- An entrypoint can be read back from its lines. -/
theorem lines_inj (he : e.WellFormed) (hf : f.WellFormed)
    (h : e.linesWith (e.tableImport.toList.map tableImportLine) =
      f.linesWith (f.tableImport.toList.map tableImportLine)) : e = f := by
  rw [linesWith_eq, linesWith_eq] at h
  -- The parts end at the first empty line, or at the line that imports the framework.
  obtain ⟨hhead, -, hbody⟩ := append_cons_inj h (empty_not_mem_head he) (empty_not_mem_head hf)
  obtain ⟨hscripts, -, himports⟩ :=
    append_cons_inj hhead express_not_mem_scripts express_not_mem_scripts
  obtain ⟨hrouters, htable⟩ := imports_append_inj (by decide) (isFree_of_mem_imports he)
    (isFree_of_mem_imports hf) (by decide) himports
  obtain ⟨happLines, -, hrest⟩ := append_cons_inj (List.cons.inj hbody).2
    empty_not_mem_appMiddlewareLines empty_not_mem_appMiddlewareLines
  obtain ⟨hmounts, -, hlisten⟩ :=
    append_cons_inj hrest empty_not_mem_mountLines empty_not_mem_mountLines
  have happ := appMiddleware_inj happLines
  have hmounted : e.routers = f.routers := by
    refine routers_inj happ he hf ?_ hmounts
    rw [← map_importLine_imports, hrouters, map_importLine_imports]
  have hpaths := preRunScripts_inj hscripts
  have hport := port_inj hlisten
  cases e
  cases f
  simp_all

theorem not_mem_lines (h : e.WellFormed) :
    ∀ line ∈ e.linesWith (e.tableImport.toList.map tableImportLine), '\n' ∉ line.toList := by
  have hname : ∀ m ∈ e.routers, '\n' ∉ m.identifier.toList := fun m hm =>
    not_mem_of_isSpelled (h.routers m hm).isSpelled (by decide)
  have hmiddleware : '\n' ∉ e.mountedMiddleware.toList := by
    unfold mountedMiddleware
    split <;> decide
  have happ : ∀ line ∈ e.appMiddlewareLines, '\n' ∉ line.toList := by
    unfold appMiddlewareLines
    split
    · simp
    · simp [not_mem_joinQuoted]
  simp only [linesWith, List.forall_mem_append]
  refine ⟨⟨⟨⟨⟨⟨⟨⟨?_, by decide⟩, ?_⟩, ?_⟩, by decide⟩, happ⟩, by decide⟩, ?_⟩, ?_⟩
  · simp [not_mem_quoted]
  · intro line hline
    obtain ⟨m, hm, rfl⟩ := List.mem_map.1 hline
    exact not_mem_defaultLine (h.routers m hm).isSpelled m.path
  · intro line hline
    obtain ⟨path, -, rfl⟩ := List.mem_map.1 hline
    exact not_mem_defaultLine (by decide) path
  · intro line hline
    obtain ⟨m, hm, rfl⟩ := List.mem_map.1 hline
    simp [mountLine, not_mem_quoted, hmiddleware, hname m hm]
  · simp [not_mem_spelled]

end Entrypoint

/-! ### Modules -/

namespace Generated

/-- A module whose names are free and which imports the table where it is used. -/
def WellFormed : Generated → Prop
  | router r => r.WellFormed
  | table t => t.WellFormed
  | entrypoint e => e.WellFormed

/-- The lines of a well-formed module. -/
def lines : Generated → List String
  | router r => r.lines
  | table t => t.lines
  | entrypoint e => e.linesWith (e.tableImport.toList.map tableImportLine)

variable {m n : Generated}

theorem render_eq (h : m.WellFormed) : m.render = .ok (unlines m.lines) := by
  cases m with
  | router r => rfl
  | table t => rfl
  | entrypoint e => exact Entrypoint.render_eq h

theorem not_mem_lines (h : m.WellFormed) : ∀ line ∈ m.lines, '\n' ∉ line.toList := by
  cases m with
  | router r => exact Router.not_mem_lines h
  | table t => exact MiddlewareTable.not_mem_lines h
  | entrypoint e => exact Entrypoint.not_mem_lines h

/-- The last line of a module tells its kind. -/
theorem getLast_lines (m : Generated) : m.lines.getLast? = some (match m with
    | router _ => "export default router;"
    | table _ => "export default middleware;"
    | entrypoint _ => "\x7d);") := by
  cases m with
  | router r => exact List.getLast?_append_of_ne_nil _ (by simp)
  | table t => exact List.getLast?_append_of_ne_nil _ (by simp)
  | entrypoint e => exact List.getLast?_append_of_ne_nil _ (by simp)

/-- A well-formed module can be read back from its lines. -/
theorem lines_inj (hm : m.WellFormed) (hn : n.WellFormed) (h : m.lines = n.lines) : m = n := by
  have hlast := congrArg List.getLast? h
  rw [getLast_lines, getLast_lines] at hlast
  cases m with
  | router r =>
    cases n with
    | router s => rw [Router.lines_inj hm hn h]
    | table u => simp at hlast
    | entrypoint f => simp at hlast
  | table t =>
    cases n with
    | router s => simp at hlast
    | table u => rw [MiddlewareTable.lines_inj hm hn h]
    | entrypoint f => simp at hlast
  | entrypoint e =>
    cases n with
    | router s => simp at hlast
    | table u => simp at hlast
    | entrypoint f => rw [Entrypoint.lines_inj hm hn h]

/-- **The text of a module tells everything about it.** A well-formed module has a text, and two
well-formed modules that have the same text are equal. -/
theorem render_injOn : (∀ m : Generated, m.WellFormed → ∃ text, m.render = .ok text) ∧
    Set.InjOn render {m | m.WellFormed} := by
  refine ⟨fun m hm => ⟨_, render_eq hm⟩, fun m hm n hn h => ?_⟩
  rw [render_eq hm, render_eq hn] at h
  exact lines_inj hm hn (unlines_inj (not_mem_lines hm) (not_mem_lines hn) (Except.ok.inj h))

/-- A router module with one handler behind some middleware. -/
def routed (route : String) (middleware : List String) : Generated := .router
  { handlers := [⟨"ping", "./ping.ts", true⟩]
    tableImport := some "./middleware.ts"
    folderMiddleware := []
    routes := [⟨.get, route, middleware, "ping"⟩] }

theorem routed_wellFormed (route : String) (middleware : List String) :
    (routed route middleware).WellFormed := ⟨by simp; decide, by simp; decide, by simp⟩

/-- A route does not end where it pretends to, and so it adds no middleware. -/
theorem render_routed_ne : (routed "/a', middleware['auth" []).render ≠
    (routed "/a" ["auth"]).render := fun h =>
  absurd (render_injOn.2 (routed_wellFormed _ _) (routed_wellFormed _ _) h) (by decide)

end Generated

end FileRoutes.Emit
