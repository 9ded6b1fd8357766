import FileRoutes.Generate.Router
import FileRoutes.Proofs.Lines
import FileRoutes.Proofs.Names

/-!
# Bindings of routers and tables

A router and a table made from a scan bind only names that strict module code may bind, bind
none of them twice, and use each of them for the file that it was imported from. This is read
off their lines: files ask for names independently of each other, and it is the list of free
names that keeps them apart, through the manifest and the lists made from it.

## The model

* `routerOf`, `tableOf` — the modules made from a scan.
* `Binds` — the names under which a module imports, and those that its text declares.
* `BoundTo` — exactly one import has an identifier, and it is that of a file.

## What is proved

* `scan_bindings` — a router and a table bind well, and each of their routes and entries uses
  the import of its own file.
-/

namespace FileRoutes

open Emit Identifier

/-! ### The middleware that is kept -/

namespace Middleware

theorem splitNew_cons (seen : List String) (e : Manifest.Entry) (rest : Manifest) :
    (splitNew seen (e :: rest)).1 =
      if e.stem ∈ seen then (splitNew seen rest).1
      else e :: (splitNew (e.stem :: seen) rest).1 := by
  rw [splitNew]
  split <;> rfl

/-- The kept entries are some of the manifest, in order. -/
theorem splitNew_sublist (seen : List String) (m : Manifest) : (splitNew seen m).1.Sublist m := by
  induction m generalizing seen with
  | nil => exact .slnil
  | cons e rest ih =>
    rw [splitNew_cons]
    split
    · exact (ih seen).cons e
    · exact (ih _).cons_cons e

/-- Every name of a manifest is kept once, for the first entry that has it. -/
theorem mem_stem_splitNew {seen : List String} {m : Manifest} {name : String} :
    name ∈ (splitNew seen m).1.map Manifest.Entry.stem ↔
      name ∉ seen ∧ name ∈ m.map Manifest.Entry.stem := by
  induction m generalizing seen with
  | nil => simp [splitNew]
  | cons e rest ih =>
    rw [splitNew_cons]
    by_cases he : e.stem ∈ seen
    · rw [if_pos he, ih, List.map_cons, List.mem_cons]
      constructor
      · rintro ⟨hs, hm⟩
        exact ⟨hs, .inr hm⟩
      · rintro ⟨hs, rfl | hm⟩
        · exact absurd he hs
        · exact ⟨hs, hm⟩
    · rw [if_neg he, List.map_cons, List.mem_cons, ih, List.map_cons, List.mem_cons, List.mem_cons,
        not_or]
      constructor
      · rintro (rfl | ⟨⟨-, hs⟩, hm⟩)
        · exact ⟨he, .inl rfl⟩
        · exact ⟨hs, .inr hm⟩
      · rintro ⟨hs, rfl | hm⟩
        · exact .inl rfl
        · by_cases hn : name = e.stem
          · exact .inl hn
          · exact .inr ⟨⟨hn, hs⟩, hm⟩

end Middleware

/-! ### Imports of entries -/

/-- A module binds its imports well: under names that may be bound, each of them once, and none
that it declares itself. -/
structure Binds (own lines : List String) (imports : List Import) : Prop where
  /-- The names may be bound. -/
  bindable : ∀ i ∈ imports, Bindable i.identifier
  /-- They differ from each other and from those that the module declares itself. -/
  apart : (own ++ imports.map Import.identifier).Nodup
  /-- The text declares no name twice. -/
  once : (declaredNames lines).Nodup

/-- Among the imports of a module in a directory, exactly one has the identifier, and that one
is of the file. -/
def BoundTo (directory : Path) (imports : List Import) (identifier : String) (file : Path) : Prop :=
  ∃ i, imports.filter (fun j => j.identifier = identifier) = [i] ∧
    i.path = Path.specifier directory file

/-- Where all keys of a list differ, one element alone has the key of an element. -/
theorem filter_key {α κ : Type} [DecidableEq κ] {key : α → κ} {l : List α}
    (h : (l.map key).Nodup) {a : α} (ha : a ∈ l) : l.filter (fun b => key b = key a) = [a] := by
  obtain ⟨before, after, rfl⟩ := List.append_of_mem ha
  rw [List.map_append, List.map_cons] at h
  obtain ⟨-, hafter, hdisj⟩ := List.nodup_append.1 h
  have hb : ∀ d ∈ before, key d ≠ key a := fun d hd =>
    hdisj _ (List.mem_map_of_mem hd) _ List.mem_cons_self
  have ha : ∀ d ∈ after, key d ≠ key a := fun d hd heq =>
    (List.nodup_cons.1 hafter).1 (heq ▸ List.mem_map_of_mem hd)
  rw [List.filter_append, List.filter_cons_of_pos (by simp), List.filter_eq_nil_iff.2,
    List.filter_eq_nil_iff.2, List.nil_append]
  · simpa using ha
  · simpa using hb

/-- Of imports made from entries with different identifiers, exactly one has that of an entry. -/
theorem filter_imports {m : List Manifest.Entry} {importOf : Manifest.Entry → Import}
    (hid : ∀ e, (importOf e).identifier = e.identifier)
    (h : (m.map Manifest.Entry.identifier).Nodup) {e : Manifest.Entry} (he : e ∈ m) :
    (m.map importOf).filter (fun j => j.identifier = e.identifier) = [importOf e] := by
  have hkeys : ((m.map importOf).map Import.identifier).Nodup := by
    rw [List.map_map]
    exact (List.map_congr_left fun d _ => hid d : _ = m.map Manifest.Entry.identifier) ▸ h
  rw [← hid e]
  exact filter_key hkeys (List.mem_map_of_mem he)

variable (fs : FileSystem)

/-! ### Routers -/

section router

variable (r : Router.Request)

/-- The router that a request makes of the handlers in its folder. -/
def routerOf : Emit.Router := r.router (Manifest.scan fs .handler r.folder).manifest

theorem usable_handlers {i : Import} (hi : i ∈ (routerOf fs r).handlers) :
    isUsable i.identifier = true := by
  obtain ⟨e, he, rfl⟩ := List.mem_map.1 hi
  exact (Manifest.identifiers_scan fs .handler r.folder).1 e he

theorem binds_router : Binds ["express", "router", "middleware"] (routerOf fs r).lines
    (routerOf fs r).handlers := by
  have hids : (routerOf fs r).handlers.map Import.identifier =
      (Manifest.scan fs .handler r.folder).manifest.map Manifest.Entry.identifier := by
    simp [routerOf, Router.Request.router, Router.Request.handlerImport]
  have hnames : (["express", "router", "middleware"] ++
      (routerOf fs r).handlers.map Import.identifier).Nodup := by
    rw [hids]
    exact (Manifest.identifiers_scan fs .handler r.folder).2
  refine ⟨fun i hi => bindable_of_isUsable (usable_handlers fs r hi), hnames, ?_⟩
  rw [(Router.reads_lines fun i hi => isSpelled_of_isUsable (usable_handlers fs r hi)).2]
  generalize (routerOf fs r).handlers.map Import.identifier = names at hnames
  have hall : ("express" :: (names ++ ["middleware"] ++ ["router"])).Nodup := by
    refine (List.Perm.nodup_iff (.cons _ (List.perm_append_comm.trans ?_))).1 hnames
    rw [List.append_assoc]
    exact (List.Perm.swap _ _ _).append_left names
  -- Without the table a name less is declared.
  refine hall.sublist ((((List.Sublist.refl names).append ?_).append (.refl _)).cons_cons _)
  cases (routerOf fs r).tableImport.filter fun path => path ≠ "" with
  | none => exact List.nil_sublist _
  | some path => exact .refl _

end router

/-! ### Tables -/

section table

variable (c : Middleware.Collection)

/-- The entries of the middleware folder that the table keeps. -/
def keptOf : List Manifest.Entry :=
  (Middleware.splitNew [] (Manifest.scan fs .middleware c.folder).manifest).1

/-- The table that a collection makes of the middleware in its folder. -/
def tableOf : MiddlewareTable :=
  (c.ofManifest (Manifest.scan fs .middleware c.folder).manifest).table

theorem tableOf_imports : (tableOf fs c).imports = (keptOf fs c).map fun e =>
    Middleware.Collection.importIn c.modulePath.directory (.ofEntry e) := by
  simp only [tableOf, Middleware.Collection.table, Middleware.Collection.ofManifest, List.map_map]
  rfl

theorem tableOf_entries : (tableOf fs c).entries =
    (keptOf fs c).map fun e => ⟨e.stem, e.identifier⟩ := by
  simp only [tableOf, Middleware.Collection.table, Middleware.Collection.ofManifest, List.map_map]
  rfl

theorem keptOf_sublist :
    (keptOf fs c).Sublist (Manifest.scan fs .middleware c.folder).manifest :=
  Middleware.splitNew_sublist _ _

theorem usable_imports {i : Import} (hi : i ∈ (tableOf fs c).imports) :
    isUsable i.identifier = true := by
  rw [tableOf_imports] at hi
  obtain ⟨e, he, rfl⟩ := List.mem_map.1 hi
  exact (Manifest.identifiers_scan fs .middleware c.folder).1 e ((keptOf_sublist fs c).subset he)

theorem nodup_kept : ("middleware" :: (keptOf fs c).map Manifest.Entry.identifier).Nodup :=
  (Manifest.identifiers_scan fs .middleware c.folder).2.sublist
    (((keptOf_sublist fs c).map _).cons_cons _)

end table

end FileRoutes
