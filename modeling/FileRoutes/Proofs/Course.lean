import FileRoutes.Proofs.Lines
import FileRoutes.Proofs.Names
import FileRoutes.Proofs.Places
import FileRoutes.Proofs.Turns
import Mathlib.Data.List.Nodup

/-!
# The course of a run

A run makes the output directory, collects the middleware, takes the turn of every folder,
lists the scripts and writes the entrypoint. This module names the states in between, and
says which modules a run can write and which places it changes after each of them.

## The model

* `Course` — a run on a project.
* `known`, `turns`, `mounted`, `scripts` — what its parts come to.
* `opened`, `collected`, `routed`, `scripted`, `final` — the states after them.
* `Writes` — the modules that the run can write, each with its place.

## What is proved

* `known_cases` — the middleware that is known is that of the configured folder.
* `final_cases` — how a run ends, and what it has recorded by then.
* `writes_of_mem` — what a run has written it can write.
-/

namespace FileRoutes.Server

open Run

/-- A run on a project: where it reads and writes, what it is configured to do, and the files
that it starts from. -/
structure Course where
  /-- Where the run reads and where it writes. -/
  options : GenerateOptions
  /-- The configuration. -/
  config : Config
  /-- The files at the start. -/
  files : FileSystem
deriving DecidableEq, Inhabited

namespace Course

/-! ### Stages -/

section stages

variable (c : Course)

/-- The place of a generated module. -/
def place (file : String) : Path := c.options.outputPath.child file

/-- The place of the middleware table. -/
def tablePath : Path := c.place tableFile

/-- The folders, each with the file of its router. -/
def folders : List (ApiFolder × String) :=
  c.config.apiFolders.zip (modulePaths (c.config.apiFolders.map ApiFolder.directory))

/-- The state at the start. -/
def start : State := { files := c.files }

/-- The state once the output directory is there. -/
def opened : State := (ensureDirectory c.options.outputPath).after c.start

/-- The middleware that is known. -/
def known : Option Middleware.Collection :=
  (collectMiddleware c.options c.config).result c.opened

/-- The state once the middleware is collected. -/
def collected : State := (collectMiddleware c.options c.config).after c.opened

/-- The turns of the folders. -/
def turns : List Turn := Server.turns c.options c.known c.folders {} c.collected

/-- The turns that succeed. -/
def done : List Turn := c.turns.filter Turn.succeeds

/-- The routers once every folder has had its turn. -/
def mounted : Mounted := (generateRouters c.options c.known c.folders {}).result c.collected

/-- The state once every folder has had its turn. -/
def routed : State := (generateRouters c.options c.known c.folders {}).after c.collected

/-- The specifiers of the scripts that run first. -/
def scripts : List String := (preRunScripts c.options c.config).result c.routed

/-- The state once the scripts are listed. -/
def scripted : State := (preRunScripts c.options c.config).after c.routed

/-- The entrypoint. -/
def entrypoint : Emit.Entrypoint :=
  Server.entrypoint c.options c.config c.known c.mounted c.scripts

/-- The lines of the entrypoint; it imports the table where it has a place to import it from. -/
def lines : List String :=
  c.entrypoint.linesWith (c.entrypoint.tableImport.toList.map Emit.tableImportLine)

/-- The state at the end. -/
def final : State := (generate c.options c.config).after c.start

/-- The middleware of a folder, as it is found once the output directory is there. -/
def middlewareOf (folder : String) : Middleware.Collection :=
  Middleware.Collection.ofManifest ⟨c.options.resolve folder, c.tablePath, []⟩
    (Manifest.scan c.opened.files .middleware (c.options.resolve folder)).manifest

/-- The places that the run writes to once the middleware is collected. -/
def LaterPlace (p : Path) : Prop :=
  ∃ file ∈ entrypointFile :: modulePaths (c.config.apiFolders.map ApiFolder.directory),
    p = c.place file

end stages

/-- The modules that a run can write, each with its place. -/
inductive Writes (c : Course) : Path × Emit.Generated → Prop
  /-- The table of the middleware that is known. -/
  | table (k : Middleware.Collection) (h : c.known = some k) : Writes c (c.tablePath, .table k.table)
  /-- The router of a turn that succeeds. -/
  | router (t : Turn) (h : t ∈ c.done) : Writes c (t.place, .router t.router)
  /-- The entrypoint, where a router is mounted. -/
  | entrypoint (h : c.mounted.routers ≠ []) :
      Writes c (c.place entrypointFile, .entrypoint c.entrypoint)

variable {c : Course}

/-! ### Middleware -/

/-- Without middleware in the folder, collecting it says so and leaves no mapping. -/
theorem collect_of_nil (k : Middleware.Collection) {s : State}
    (hm : (Manifest.scan s.files .middleware k.folder).manifest = []) :
    k.collect.result s = (.failed, { k with mappings := [] }) ∧
      k.collect.after s = { s with
        log := s.log ++ (Manifest.scan s.files .middleware k.folder).diagnostics ++
          [.error ("No middleware found in folder: " ++ k.folder.text)] } := by
  simp only [Middleware.Collection.collect, result_bind, after_bind, result_scan, hm, if_true]
  exact ⟨rfl, rfl⟩

/-- With any middleware in the folder, collecting it comes to writing its table, once what the
scan says and the names that are there before have been reported. -/
theorem collect_eq_writeModule (k : Middleware.Collection) {s : State}
    (hm : (Manifest.scan s.files .middleware k.folder).manifest ≠ []) :
    let scanned := Manifest.scan s.files .middleware k.folder
    let found := k.ofManifest scanned.manifest
    let writing := writeModule found.modulePath (.table found.table)
    let told : State := { s with
      log := s.log ++ scanned.diagnostics ++
        (Middleware.splitNew [] scanned.manifest).2.map
          fun e => .warning (Middleware.duplicateMessage e) }
    k.collect.result s = (writing.result told, found) ∧ k.collect.after s = writing.after told := by
  simp only [Middleware.Collection.collect, result_bind, after_bind, result_scan, hm, if_false]
  exact ⟨rfl, rfl⟩

/-- With any middleware in the folder, collecting it comes to writing its table. -/
theorem collect_of_ne (k : Middleware.Collection) {s : State}
    (hm : (Manifest.scan s.files .middleware k.folder).manifest ≠ []) :
    ∃ s', s'.files = s.files ∧ s'.written = s.written ∧
      let found := k.ofManifest (Manifest.scan s.files .middleware k.folder).manifest
      let writing := writeModule found.modulePath (.table found.table)
      k.collect.result s = (writing.result s', found) ∧ k.collect.after s = writing.after s' := by
  refine ⟨_, ?_, ?_, collect_eq_writeModule k hm⟩
  · rfl
  · rfl

/-- Collecting leaves a collection behind exactly where its table is written. -/
theorem collect_cases (k : Middleware.Collection) (s : State) :
    ((k.collect.result s).1 = .failed ∧ (k.collect.after s).written = s.written) ∨
    ∃ s', s'.files = s.files ∧ s'.written = s.written ∧
      let found := k.ofManifest (Manifest.scan s.files .middleware k.folder).manifest
      k.collect.result s = (.succeeded, found) ∧
        (writeModule found.modulePath (.table found.table)).result s' = .succeeded ∧
        k.collect.after s = (writeModule found.modulePath (.table found.table)).after s' := by
  by_cases hm : (Manifest.scan s.files .middleware k.folder).manifest = []
  · left
    rw [(collect_of_nil k hm).1, (collect_of_nil k hm).2]
    exact ⟨rfl, rfl⟩
  · obtain ⟨s', hf, hw, hresult, hafter⟩ := collect_of_ne k hm
    rw [hresult, hafter]
    generalize k.ofManifest _ = found
    cases hr : (writeModule found.modulePath (.table found.table)).result s' with
    | failed =>
      refine .inl ⟨rfl, ?_⟩
      rw [written_writeModule, hr, hw]
      simp
    | succeeded => exact .inr ⟨s', hf, hw, rfl, hr, rfl⟩

/-- With a folder configured, the middleware that is known is what collecting it comes to. -/
theorem known_of_folder {folder : String} (h : c.config.middlewareFolder = some folder) :
    let k : Middleware.Collection := ⟨c.options.resolve folder, c.tablePath, []⟩
    c.known = (if (k.collect.result c.opened).1 = .succeeded then some (k.collect.result c.opened).2
      else none) ∧ c.collected = k.collect.after c.opened := by
  intro k
  cases hr : k.collect.result c.opened with
  | mk outcome found =>
    have hr' : (Middleware.Collection.collect ⟨c.options.resolve folder,
      c.options.outputPath.child tableFile, []⟩).result c.opened = (outcome, found) := hr
    simp only [known, collected, collectMiddleware, h, result_bind, after_bind, hr']
    cases outcome <;> exact ⟨rfl, rfl⟩

/-- The middleware that is known is that of the configured folder, and its table is the first
module that is written; otherwise none is known. -/
theorem known_cases (c : Course) :
    (c.known = none ∧ c.collected.written = []) ∨
    ∃ folder s, c.config.middlewareFolder = some folder ∧ c.known = some (c.middlewareOf folder) ∧
      s.files = c.opened.files ∧
      (writeModule c.tablePath (.table (c.middlewareOf folder).table)).result s = .succeeded ∧
      c.collected = (writeModule c.tablePath (.table (c.middlewareOf folder).table)).after s ∧
      c.collected.written = [(c.tablePath, .table (c.middlewareOf folder).table)] := by
  have hopened : c.opened.written = [] := written_ensureDirectory _ _
  cases hf : c.config.middlewareFolder with
  | none =>
    left
    have hr : c.known = none ∧ c.collected = c.opened := by
      simp only [known, collected, collectMiddleware, hf]
      exact ⟨rfl, rfl⟩
    exact ⟨hr.1, hr.2 ▸ hopened⟩
  | some folder =>
    obtain ⟨hknown, hcollected⟩ := known_of_folder hf
    rcases collect_cases ⟨c.options.resolve folder, c.tablePath, []⟩ c.opened with
      ⟨hr, hw⟩ | ⟨s, hs, hw, hr, hsucc, hafter⟩
    · left
      rw [hr] at hknown
      exact ⟨hknown, by rw [hcollected, hw, hopened]⟩
    · refine .inr ⟨folder, s, rfl, ?_, hs, hsucc, hcollected.trans hafter, ?_⟩
      · rw [hr] at hknown
        exact hknown
      · rw [hcollected, hafter, written_writeModule, hsucc, hw, hopened]
        rfl

/-- Middleware that is known is that of the configured folder, and its table is written. -/
theorem exists_folder_of_known {k : Middleware.Collection} (h : c.known = some k) :
    ∃ folder s, c.config.middlewareFolder = some folder ∧ k = c.middlewareOf folder ∧
      s.files = c.opened.files ∧
      (writeModule c.tablePath (.table k.table)).result s = .succeeded ∧
      c.collected = (writeModule c.tablePath (.table k.table)).after s ∧
      c.collected.written = [(c.tablePath, .table k.table)] := by
  obtain ⟨hnone, -⟩ | ⟨folder, s, hfolder, hsome, hwritten⟩ := c.known_cases
  · simp [hnone] at h
  · obtain rfl : c.middlewareOf folder = k := Option.some.inj (hsome.symm.trans h)
    exact ⟨folder, s, hfolder, rfl, hwritten⟩

theorem modulePath_of_known {k : Middleware.Collection} (h : c.known = some k) :
    k.modulePath = c.tablePath := by
  obtain ⟨folder, -, -, rfl, -⟩ := exists_folder_of_known h
  rfl

/-- A module that imports the table does so by the specifier made for its directory. -/
theorem tableImport_of_mem {directory : Path} {needed : Bool} {path : String}
    (h : path ∈ Middleware.tableImport c.known directory needed) :
    path = Path.specifier directory c.tablePath := by
  unfold Middleware.tableImport at h
  split at h
  · obtain ⟨k, hk, rfl⟩ := Option.map_eq_some_iff.1 h
    rw [← modulePath_of_known hk]
    rfl
  · simp at h

/-! ### Routers -/

theorem mounted_routers (c : Course) :
    c.mounted.routers =
      mountAll [] (mountsOf c.options.outputPath Emit.Entrypoint.ownNames c.done) :=
  result_generateRouters _ _ _

/-- What is mounted in the end: of the turns with one slug, the router of the last one. -/
theorem mem_mounted {m : Emit.Mount} : m ∈ c.mounted.routers ↔
    ∃ before t after, c.done = before ++ t :: after ∧
      (∀ u ∈ after, u.folder.slug ≠ t.folder.slug) ∧
      m = t.mount c.options.outputPath
        (Identifier.fresh (takenAfter Emit.Entrypoint.ownNames before) t.wanted) := by
  rw [mounted_routers, mem_mountAll_mountsOf]

theorem usable_of_mem_mounted {m : Emit.Mount} (h : m ∈ c.mounted.routers) :
    Identifier.isUsable m.identifier = true := by
  obtain ⟨before, t, after, -, -, rfl⟩ := mem_mounted.1 h
  exact Identifier.isUsable_fresh (Identifier.sanitize_isUsable _) _

/-- The identifiers of the mounted routers differ from each other and from the names that the
entrypoint keeps for itself. -/
theorem nodup_mounted (c : Course) :
    (Emit.Entrypoint.ownNames ++ c.mounted.routers.map Emit.Mount.identifier).Nodup := by
  have hmounts : ((mountsOf c.options.outputPath Emit.Entrypoint.ownNames c.done).map
      Emit.Mount.identifier).Nodup := by
    rw [map_identifier_mountsOf]
    exact Identifier.nodup_freshAll _ _
  have hslugs : (c.mounted.routers.map Emit.Mount.slug).Nodup := by
    rw [mounted_routers]
    exact nodup_slug_mountAll _
  have hmem : ∀ m ∈ c.mounted.routers,
      m ∈ mountsOf c.options.outputPath Emit.Entrypoint.ownNames c.done := by
    intro m hm
    rw [mounted_routers] at hm
    obtain ⟨before, after, he, -⟩ := mem_mountAll.1 hm
    simp [he]
  refine List.nodup_append.2 ⟨by decide, ?_, fun own hown name hname => ?_⟩
  · refine List.Nodup.map_on (fun m hm n hn he => ?_) hslugs.of_map
    exact List.inj_on_of_nodup_map hmounts (hmem m hm) (hmem n hn) he
  · obtain ⟨m, hm, rfl⟩ := List.mem_map.1 hname
    have hid := List.mem_map_of_mem (f := Emit.Mount.identifier) (hmem m hm)
    rw [map_identifier_mountsOf] at hid
    exact fun e => Identifier.not_mem_of_mem_freshAll hid (e ▸ hown)

theorem written_routed (c : Course) : c.routed.written =
    c.collected.written ++ c.done.map fun t => (t.place, .router t.router) :=
  written_generateRouters _ _ _

/-- A turn asks for the router of its folder, at a place below the output directory. -/
theorem request_of_mem_done {t : Turn} (h : t ∈ c.done) : ∃ file, Path.IsBelow file ∧
    t.place = c.place file ∧
    t.request = routerRequest c.options c.known t.folder (c.place file) := by
  obtain ⟨pair, hpair, ht⟩ := exists_pair_of_mem_turns (List.mem_filter.1 h).1
  have hfile : pair.2 ∈ modulePaths (c.config.apiFolders.map ApiFolder.directory) :=
    (List.of_mem_zip (a := pair.1) (b := pair.2) hpair).2
  exact ⟨pair.2, isBelow_of_mem_modulePaths hfile, by rw [ht]; rfl, by rw [ht]; rfl⟩

/-! ### Scripts -/

/-- The files that run first: those of the configured directory, by name. -/
def scriptFiles (c : Course) : List Path :=
  match c.config.preRunScripts with
  | none => []
  | some folder =>
    match c.routed.files.listNames (c.options.resolve folder) with
    | .ok names => filesOf c.routed.files (c.options.resolve folder) names
    | .error _ => []

/-- A directory whose names can be listed is there. -/
theorem holds_of_listNames {fs : FileSystem} {p : Path} {names : List String}
    (h : fs.listNames p = .ok names) : fs.holds p = true := by
  cases hl : fs.resolve p with
  | error e => simp [FileSystem.listNames, hl, bind, Except.bind] at h
  | ok l =>
    cases he : fs.entry? l with
    | none => simp [FileSystem.listNames, hl, he, bind, Except.bind] at h
    | some e =>
      simp [FileSystem.holds, FileSystem.entryAt, hl, he, bind, Except.bind, pure, Except.pure,
        Except.toBool]

/-- The scripts are listed by their specifiers, and nothing is written for that. -/
theorem scripts_cases (c : Course) :
    c.scripts = c.scriptFiles.map (Path.specifier c.options.outputPath) ∧
      c.scripted.written = c.routed.written := by
  have hinfo : ∀ (p : Prop) [Decidable p] (message : String) (l : List String) (s : State),
      (do if p then info message
          return l : Run (List String)).result s = l ∧
      ((do if p then info message
           return l : Run (List String)).after s).written = s.written := by
    intro p _ message l s
    split <;> exact ⟨rfl, rfl⟩
  unfold scripts scripted scriptFiles
  cases hf : c.config.preRunScripts with
  | none =>
    simp only [preRunScripts, hf]
    exact ⟨rfl, rfl⟩
  | some folder =>
    cases hl : c.routed.files.listNames (c.options.resolve folder) with
    | ok names =>
      have hh : c.routed.files.holds (c.options.resolve folder) = true := holds_of_listNames hl
      simp only [preRunScripts, hf, result_bind, after_bind, result_files, after_files, hh, hl,
        Bool.not_true, Bool.false_eq_true, if_false, result_pure, after_pure]
      exact hinfo _ _ _ _
    | error e =>
      simp only [preRunScripts, hf, result_bind, after_bind, result_files, after_files, hl]
      cases c.routed.files.holds (c.options.resolve folder) <;> exact ⟨rfl, rfl⟩

/-! ### The end -/

/-- The entrypoint of a run has a text, in which the table is imported where it is used. -/
theorem render_entrypoint (c : Course) : c.entrypoint.render = .ok (Emit.unlines c.lines) := by
  have hlines : c.entrypoint.tableImportLines =
      .ok (c.entrypoint.tableImport.toList.map Emit.tableImportLine) := by
    unfold Emit.Entrypoint.tableImportLines
    split
    · next hm =>
      have hnone : c.entrypoint.tableImport = none :=
        if_neg (by simpa [entrypoint, Server.entrypoint] using hm)
      rw [hnone]
      rfl
    · next hm =>
      cases hk : c.known with
      | none => exact absurd (by simp [entrypoint, Server.entrypoint, Middleware.available, hk]) hm
      | some k =>
        simp only [entrypoint, Server.entrypoint, hk] at hm
        simp [entrypoint, Server.entrypoint, Middleware.tableImport, hk, hm]
  simp only [Emit.Entrypoint.render, hlines]
  rfl

theorem reaches_routed (c : Course) : Reaches c.LaterPlace c.collected c.routed :=
  reaches_generateRouters _ _ (fun pair hpair =>
    ⟨pair.2, List.mem_cons_of_mem _ (List.of_mem_zip (a := pair.1) (b := pair.2) hpair).2, rfl⟩) _ _

theorem reaches_scripted (c : Course) : Reaches c.LaterPlace c.collected c.scripted :=
  c.reaches_routed.trans (reaches_preRunScripts _ _ _)

/-- What the text of the entrypoint imports and declares. -/
theorem reads_lines (c : Course) :
    Emit.importLines c.lines =
        (c.scripts.map fun path => "import " ++ Emit.quoted path ++ ";") ++
          Emit.Import.defaultLine "express" "express" ::
          ((c.mounted.routers.map fun m => Emit.Import.defaultLine m.identifier m.path) ++
            c.entrypoint.tableImport.toList.map Emit.tableImportLine) ∧
      Emit.declaredNames c.lines =
        "express" :: (c.mounted.routers.map Emit.Mount.identifier ++
          (c.entrypoint.tableImport.toList.map fun _ => "middleware") ++ ["app"] ++
          if c.entrypoint.appMiddleware = [] then [] else ["appMiddleware"]) :=
  Emit.Entrypoint.reads_linesWith fun _ hm =>
    Identifier.isSpelled_of_isUsable (usable_of_mem_mounted hm)

/-- A run gives up at once, or it goes on in the output directory. -/
theorem final_of_opened (c : Course) :
    (∃ message, ¬ (Diagnostic.error message).IsRenderFault ∧
      c.final = (error message).after c.start) ∨
    c.final = c.opened ∨ c.final = (generateInto c.options c.config).after c.opened := by
  unfold final generate
  split
  · refine .inl ⟨mixedMessage c.options, ?_, rfl⟩
    exact not_isRenderFault "Output directory "
      ((prefix_append_three _ _ _ _).trans (prefix_append _ _)) (by decide)
  · right
    simp only [after_bind]
    split
    · exact .inl rfl
    · exact .inr rfl

/-- In the output directory, a run ends without an entrypoint where no router is mounted. -/
theorem after_generateInto (c : Course) : (generateInto c.options c.config).after c.opened =
    if c.mounted.routers = [] then (error noRoutersMessage).after c.routed
    else (writeModule (c.place entrypointFile) (.entrypoint c.entrypoint)).after c.scripted := by
  simp only [generateInto, after_bind]
  rw [← known, ← collected, ← place]
  show (if c.mounted.routers = [] then _ else _ : Run Outcome).after c.routed = _
  by_cases h : c.mounted.routers = []
  · rw [if_pos h, if_pos h, after_bind, after_pure]
  · rw [if_neg h, if_neg h, after_bind]
    rfl

/-- How a run ends. It gives up before the middleware is collected and has written nothing, or
it goes through its folders and writes the entrypoint last, if any router is mounted. -/
theorem final_cases (c : Course) :
    (c.final.written = [] ∧ Reaches c.LaterPlace c.start c.final) ∨
    (c.final.written = c.routed.written ∧ Reaches c.LaterPlace c.collected c.final) ∨
    (c.mounted.routers ≠ [] ∧ Reaches c.LaterPlace c.collected c.final ∧ c.final.written =
      c.routed.written ++
        if (writeModule (c.place entrypointFile) (.entrypoint c.entrypoint)).result c.scripted =
          .succeeded then [(c.place entrypointFile, .entrypoint c.entrypoint)] else []) := by
  obtain ⟨message, hm, h⟩ | h | h := c.final_of_opened
  · rw [h]
    refine .inl ⟨rfl, reaches_report (fun d hd => ?_) _⟩
    rwa [List.mem_singleton.1 hd]
  · rw [h]
    exact .inl ⟨written_ensureDirectory _ _, reaches_ensureDirectory _ _⟩
  · right
    rw [h, after_generateInto]
    split
    · refine .inl ⟨rfl, c.reaches_routed.trans (reaches_report (fun d hd => ?_) _)⟩
      rw [List.mem_singleton.1 hd]
      exact not_isRenderFault noRoutersMessage (List.prefix_refl _) (by decide)
    · next hrouters =>
      have hplace : c.LaterPlace (c.place entrypointFile) :=
        ⟨entrypointFile, List.mem_cons_self, rfl⟩
      have hwritten : Reaches c.LaterPlace c.scripted
          ((writeModule (c.place entrypointFile) (.entrypoint c.entrypoint)).after c.scripted) :=
        reaches_writeModule (m := .entrypoint c.entrypoint) hplace c.render_entrypoint _
      refine .inr ⟨hrouters, c.reaches_scripted.trans hwritten, ?_⟩
      rw [written_writeModule]
      congr 1
      exact c.scripts_cases.2

/-- What a run has written it can write. -/
theorem writes_of_mem {w : Path × Emit.Generated} (h : w ∈ c.final.written) : c.Writes w := by
  have hrouted : w ∈ c.routed.written → c.Writes w := by
    intro hw
    rw [written_routed] at hw
    rcases List.mem_append.1 hw with hw | hw
    · obtain ⟨-, he⟩ | ⟨folder, s, -, hk, -, -, -, he⟩ := c.known_cases
      · simp [he] at hw
      · rw [he] at hw
        obtain rfl := List.mem_singleton.1 hw
        exact .table _ hk
    · obtain ⟨t, ht, rfl⟩ := List.mem_map.1 hw
      exact .router t ht
  obtain ⟨he, -⟩ | ⟨he, -⟩ | ⟨hrouters, -, he⟩ := c.final_cases
  · simp [he] at h
  · exact hrouted (he ▸ h)
  · rw [he] at h
    rcases List.mem_append.1 h with h | h
    · exact hrouted h
    · split at h
      · obtain rfl := List.mem_singleton.1 h
        exact .entrypoint hrouters
      · simp at h

/-- Once anything is written, the routers of all turns that succeed are. -/
theorem routed_of_mem {w : Path × Emit.Generated} (h : w ∈ c.final.written) :
    Reaches c.LaterPlace c.collected c.final ∧ c.routed.written ⊆ c.final.written := by
  obtain ⟨he, -⟩ | ⟨he, hr⟩ | ⟨-, hr, he⟩ := c.final_cases
  · simp [he] at h
  · exact ⟨hr, he ▸ List.Subset.refl _⟩
  · exact ⟨hr, he ▸ List.subset_append_left _ _⟩

end Course

end FileRoutes.Server
