import FileRoutes.Proofs.Bindings
import FileRoutes.Proofs.Completion
import FileRoutes.Proofs.Specifiers
import Mathlib.Data.List.Forall2

/-!
# Imports of generated modules

In a project with an absolute root, every specifier in every module that a run writes leads to
the file that it stands for, read from the directory of the module. It does not matter how the
root, the output directory and the configured folders are spelled.

## The model

* `Imports` — what the import of a function stands for.
* `Linked` — what the text of a module of a run imports, and where each specifier leads.

## What is proved

* `linked_of_mem` — every module that a run writes is linked.
-/

namespace FileRoutes.Server.Course

open Emit Path Run

/-- In the module at a place, the import of a function stands for the file of an entry. -/
structure Imports (place : Path) (i : Import) (e : Manifest.Entry) : Prop where
  /-- The function goes by the identifier of the entry. -/
  identifier : i.identifier = e.identifier
  /-- It is imported in the way in which the file exports it. -/
  byDefault : i.byDefault = e.byDefault
  /-- The specifier leads to the file. -/
  leads : LeadsTo place i.path e.sourcePath

/-- A module of a run, with the lines of its text that import other modules: besides express
these are the imports listed here, and the specifier of each leads to the file it stands for. -/
inductive Linked (c : Course) : Path → Generated → Prop
  /-- The table imports the files of the middleware folder, the first one of each name. -/
  | table (folder : String) (t : MiddlewareTable)
      (configured : c.config.middlewareFolder = some folder)
      (lines : importLines t.lines = t.imports.map (Import.line "middleware"))
      (sources : List.Forall₂ (Imports c.tablePath) t.imports
        (Middleware.splitNew [] (Manifest.scan c.opened.files .middleware
          (c.options.resolve folder)).manifest).1) :
      Linked c c.tablePath (.table t)
  /-- The router of a turn imports the files of its folder, and the table where it is used. -/
  | router (t : Turn) (r : Router) (turn : t ∈ c.done)
      (lines : importLines r.lines = Import.defaultLine "express" "express" ::
        (r.handlers.map (Import.line "handler") ++ r.tableImport.toList.map tableImportLine))
      (sources : List.Forall₂ (Imports t.place) r.handlers (Manifest.scan t.start.files .handler
        (c.options.resolve t.folder.directory)).manifest)
      (table : ∀ path ∈ r.tableImport, LeadsTo t.place path c.tablePath) :
      Linked c t.place (.router r)
  /-- The entrypoint imports the scripts, the table where it is used, and for each mounted slug
  the router that was written for the last folder with this slug. -/
  | entrypoint (e : Entrypoint) (text : List String) (rendered : e.render = .ok (unlines text))
      (lines : importLines text =
        (e.preRunScripts.map fun path => "import " ++ quoted path ++ ";") ++
          Import.defaultLine "express" "express" ::
          ((e.routers.map fun m => Import.defaultLine m.identifier m.path) ++
            e.tableImport.toList.map tableImportLine))
      (scripts : List.Forall₂ (LeadsTo (c.place entrypointFile)) e.preRunScripts c.scriptFiles)
      (routers : ∀ m ∈ e.routers, ∃ before t after, c.done = before ++ t :: after ∧
        m.slug = t.folder.slug ∧ (∀ u ∈ after, u.folder.slug ≠ m.slug) ∧
        (t.place, .router t.router) ∈ c.final.written ∧
        LeadsTo (c.place entrypointFile) m.path t.place)
      (table : ∀ path ∈ e.tableImport, LeadsTo (c.place entrypointFile) path c.tablePath) :
      Linked c (c.place entrypointFile) (.entrypoint e)

/-! ### Specifiers in the output directory -/

section specifiers

variable {out target : Path} (hout : out.isAbsolute = true) (htarget : target.isAbsolute = true)
include hout htarget

/-- A specifier made for the directory of a module leads from the module to its target. -/
theorem leadsTo_of_directory {file : String} (h : IsBelow file) :
    LeadsTo (out.child file) (specifier (out.child file).directory target) target := by
  have hd : (out.child file).directory.isAbsolute = true := by
    rw [isAbsolute_directory_child h, hout]
  obtain ⟨name, hname⟩ := landing_directory_child h out []
  exact leadsTo_specifier hd hd htarget hname rfl

/-- A specifier made for the output directory leads to its target from every module right in
there. -/
theorem leadsTo_of_output {file : String} (h : IsBelow file) (hone : segments ⟨file⟩ = [file]) :
    LeadsTo (out.child file) (specifier out target) target := by
  have hd : (out.child file).directory.isAbsolute = true := by
    rw [isAbsolute_directory_child h, hout]
  have hname : landing [] (out.child file) = landing [] out ++ [file] := by
    rw [landing_child h, hone]
  exact leadsTo_specifier hd hout htarget hname (landing_directory_child_of_name h out hone [])

end specifiers

/-! ### Files of a project -/

section project

variable {c : Course} (h : c.options.projectRoot.isAbsolute = true)
include h

theorem isAbsolute_outputPath : c.options.outputPath.isAbsolute = true := isAbsolute_join h _

theorem isAbsolute_place {file : String} (hf : IsBelow file) : (c.place file).isAbsolute = true :=
  (isAbsolute_child hf _).trans (isAbsolute_outputPath h)

theorem isAbsolute_tablePath : c.tablePath.isAbsolute = true := isAbsolute_place h (by decide)

/-- The files that a scan finds lie below an absolute root. -/
theorem isAbsolute_sourcePath {fs : FileSystem} {role : Role} {folder : String}
    {e : Manifest.Entry} (he : e ∈ (Manifest.scan fs role (c.options.resolve folder)).manifest) :
    e.sourcePath.isAbsolute = true := by
  obtain ⟨relative, hs⟩ := Manifest.sourcePath_of_mem_scan he
  rw [hs]
  exact isAbsolute_join (isAbsolute_join h _) _

theorem isAbsolute_of_mem_scriptFiles {p : Path} (hp : p ∈ c.scriptFiles) :
    p.isAbsolute = true := by
  unfold scriptFiles at hp
  split at hp
  · simp at hp
  · split at hp
    · obtain ⟨name, -, rfl⟩ := List.mem_map.1 (List.mem_of_mem_filter hp)
      exact isAbsolute_join (isAbsolute_join h _) _
    · simp at hp

/-! ### Modules of a run -/

theorem linked_table {k : Middleware.Collection} (hk : c.known = some k) :
    c.Linked c.tablePath (.table k.table) := by
  obtain ⟨folder, -, hfolder, rfl, -⟩ := exists_folder_of_known hk
  let found : Middleware.Collection := ⟨c.options.resolve folder, c.tablePath, []⟩
  have husable : ∀ i ∈ (c.middlewareOf folder).table.imports, _ := fun i hi =>
    Identifier.isSpelled_of_isUsable (usable_imports c.opened.files found hi)
  refine .table folder _ hfolder (MiddlewareTable.reads_lines husable).1 ?_
  show List.Forall₂ _ (tableOf c.opened.files found).imports (keptOf c.opened.files found)
  rw [tableOf_imports, List.forall₂_map_left_iff, List.forall₂_same]
  intro e he
  have hsource := isAbsolute_sourcePath h ((keptOf_sublist c.opened.files found).subset he)
  have htable : IsBelow tableFile := by decide
  exact ⟨rfl, rfl, leadsTo_of_directory (isAbsolute_outputPath h) hsource htable⟩

theorem linked_router {t : Turn} (ht : t ∈ c.done) : c.Linked t.place (.router t.router) := by
  obtain ⟨file, hbelow, hplace, hrequest⟩ := request_of_mem_done ht
  have hscanned : t.request.folder = c.options.resolve t.folder.directory := by rw [hrequest]; rfl
  have hleads : ∀ target : Path, target.isAbsolute = true →
      LeadsTo t.place (specifier t.place.directory target) target := fun target htarget => by
    rw [hplace]
    exact leadsTo_of_directory (isAbsolute_outputPath h) htarget hbelow
  have htable : ∀ path ∈ t.router.tableImport, LeadsTo t.place path c.tablePath := by
    intro path hpath
    have hknown : t.request.known = c.known := by rw [hrequest]; rfl
    rw [Turn.router, Router.Request.router] at hpath
    simp only [hknown] at hpath
    rw [tableImport_of_mem hpath]
    exact hleads _ (isAbsolute_tablePath h)
  have husable : ∀ i ∈ t.router.handlers, _ := fun i hi =>
    Identifier.isSpelled_of_isUsable (usable_handlers t.start.files t.request hi)
  refine .router t _ ht ?_ ?_ htable
  · have hfilter : (t.router.tableImport.filter fun path => path ≠ "") = t.router.tableImport := by
      cases hpath : t.router.tableImport with
      | none => rfl
      | some path =>
        have hne : path ≠ "" := (htable path hpath).isWay.ne_empty
        simp [Option.filter, hne]
    rw [← hfilter]
    exact (Router.reads_lines husable).1
  · refine List.forall₂_map_left_iff.2 ?_
    show List.Forall₂ _ (Manifest.scan _ _ t.request.folder).manifest _
    rw [hscanned]
    exact List.forall₂_same.2 fun e he => ⟨rfl, rfl, hleads _ (isAbsolute_sourcePath h he)⟩

theorem linked_entrypoint (hrouted : c.routed.written ⊆ c.final.written) :
    c.Linked (c.place entrypointFile) (.entrypoint c.entrypoint) := by
  have hleads : ∀ target : Path, target.isAbsolute = true →
      LeadsTo (c.place entrypointFile) (specifier c.options.outputPath target) target :=
    fun target htarget =>
      leadsTo_of_output (isAbsolute_outputPath h) htarget (by decide) (by decide)
  refine .entrypoint _ _ c.render_entrypoint ?_ ?_ ?_ ?_
  · exact c.reads_lines.1
  · show List.Forall₂ _ c.scripts c.scriptFiles
    rw [c.scripts_cases.1]
    exact List.forall₂_map_left_iff.2 (List.forall₂_same.2 fun p hp =>
      hleads p (isAbsolute_of_mem_scriptFiles h hp))
  · intro m hm
    obtain ⟨before, t, after, hdone, hafter, rfl⟩ := mem_mounted.1 hm
    have ht : t ∈ c.done := by simp [hdone]
    obtain ⟨file, hbelow, hplace, -⟩ := request_of_mem_done ht
    refine ⟨before, t, after, hdone, rfl, hafter, hrouted ?_, hleads _ ?_⟩
    · rw [written_routed]
      exact List.mem_append_right _ (List.mem_map_of_mem ht)
    · rw [hplace]
      exact isAbsolute_place h hbelow
  · intro path hpath
    rw [tableImport_of_mem (c := c) hpath]
    exact hleads _ (isAbsolute_tablePath h)

end project

/-- **Imports lead to their files.** With an absolute root, in every module that a run writes
every specifier leads to the file that it stands for. -/
theorem linked_of_mem (c : Course) (h : c.options.projectRoot.isAbsolute = true)
    {w : Path × Generated} (hw : w ∈ c.final.written) : c.Linked w.1 w.2 := by
  cases writes_of_mem hw with
  | table k hk => exact linked_table h hk
  | router t ht => exact linked_router h ht
  | entrypoint hrouters => exact linked_entrypoint h (routed_of_mem hw).2

/-- The entrypoint of a small project is linked. -/
theorem linked_sample : sample.options.projectRoot.isAbsolute = true ∧
    (sample.place entrypointFile, .entrypoint sample.entrypoint) ∈ sample.final.written ∧
    sample.Linked (sample.place entrypointFile) (.entrypoint sample.entrypoint) :=
  ⟨by decide, sample_written, linked_of_mem sample (by decide) sample_written⟩

end FileRoutes.Server.Course
