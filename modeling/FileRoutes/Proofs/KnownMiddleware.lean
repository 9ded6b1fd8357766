import FileRoutes.Proofs.Bindings
import FileRoutes.Proofs.Completion
import FileRoutes.Proofs.Specifiers

/-!
# The middleware that a run knows

The modules of a run refer to middleware by name, and take the functions from the table. In a
project without links every name that they refer to is a key of the table as it stands when
the run is over: the table is written first, everything that is written later goes to other
places, and the names that are asked for are narrowed to those in the table. So every module
has a text, too.

## The model

* `offered` — the names that the middleware folder offers, if its table could be written.
* `UsesTable` — what the text of a module has to do with the table.
* `RefersWell` — the names that a module of a run refers to, and the table it takes them from.

## What is proved

* `readText_tablePath` — the table can be read at the end as it was written.
* `refersWell_and_renders` — every module refers well, and no run reports a module without a
  text.
-/

namespace FileRoutes

/-! ### What changes keep -/

namespace Run

open FileSystem.Action (answer filesAfter)

variable {may : Path → Prop} {s s' : State}

/-- A run says of no module that it has no text. -/
theorem Reaches.log (h : Reaches may s s') (hs : ∀ d ∈ s.log, ¬ d.IsRenderFault) :
    ∀ d ∈ s'.log, ¬ d.IsRenderFault := by
  induction h with
  | refl => exact hs
  | tail _ hc ih =>
    cases hc with
    | reports ds h =>
      intro d hd
      rcases List.mem_append.1 hd with hd | hd
      · exact ih d hd
      · exact h d hd
    | makes => exact ih
    | writes => exact ih
    | records => exact ih

/-- Without links the changes of a run are changes of files where its places lead. -/
theorem Reaches.files (h : Reaches may s s') (hn : s.files.NoLinks) :
    FileSystem.Reaches (fun l =>
      (∃ p, may p ∧ l = Path.landing s.files.workingDirectory p) ∨ FileSystem.IsTemporary l)
      s.files s'.files := by
  induction h with
  | refl => exact .refl
  | tail _ hc ih =>
    cases hc with
    | reports => exact ih
    | records => exact ih
    | makes p => exact ih.trans (FileSystem.reaches_ensureDirectory p)
    | writes p m text place rendered =>
      refine ih.trans ((FileSystem.writeFile_spec (ih.noLinks hn) p text).1.mono fun l hl => ?_)
      rcases hl with rfl | hl
      · exact .inl ⟨p, place, by rw [ih.keepsDirectories.here]⟩
      · exact .inr hl

/-- A module that has been written can be read as it was rendered. -/
theorem readText_writeModule {p : Path} {m : Emit.Generated} {text : String}
    (hm : m.render = .ok text) (hn : s.files.NoLinks) (h : (writeModule p m).result s = .succeeded) :
    ((writeModule p m).after s).files.readText p = .ok text := by
  obtain ⟨e, -, hr, -⟩ | ⟨_, -, -, hr, -⟩ | ⟨text', t, ht, hw, rfl, -, ha⟩ :=
    writeModule_cases p m s
  · simp [hr] at h
  · simp [hr] at h
  · obtain rfl : text = text' := Except.ok.inj (hm.symm.trans ht)
    rw [ha]
    show ((writeText p text).after s).files.readText p = .ok text
    obtain ⟨-, hr, -⟩ | ⟨-, hr, hafter⟩ := writeText_cases p text s
    · simp [hr] at hw
    · rw [hafter]
      rw [hr] at hw
      have hreaches : Reaches (fun _ => False) s ((ensureDirectory p.directory).after s) :=
        reaches_ensureDirectory _ _
      have hmade := hreaches.files hn
      obtain ⟨hok, -, hf⟩ | ⟨e, hf, -⟩ :=
        writeFile_cases p text ((ensureDirectory p.directory).after s)
      · rw [hf]
        exact (FileSystem.writeFile_spec (hmade.noLinks hn) p text).2 hok
      · simp [hf] at hw

end Run

namespace Server.Course

open Emit Run

variable (c : Course)

/-! ### The table at the end -/

/-- The names that the middleware folder offers: the stems of its files, if a folder is
configured and its table could be written. -/
def offered : List String :=
  match c.config.middlewareFolder with
  | none => []
  | some folder =>
    let collection : Middleware.Collection := ⟨c.options.resolve folder, c.tablePath, []⟩
    if (collection.collect.result c.opened).1 = .succeeded then
      (Manifest.scan c.opened.files .middleware (c.options.resolve folder)).manifest.map
        Manifest.Entry.stem
    else []

variable {c}

theorem noLinks_opened (h : c.files.NoLinks) : c.opened.files.NoLinks := by
  have hreaches : Reaches (fun _ => False) c.start c.opened := reaches_ensureDirectory _ _
  exact (hreaches.files h).noLinks h

theorem landing_tablePath_ne {p : Path} (hp : c.LaterPlace p) (here : Location) :
    Path.landing here c.tablePath ≠ Path.landing here p := by
  obtain ⟨file, hfile, rfl⟩ := hp
  intro he
  have hnodup := nodup_modulePaths (c.config.apiFolders.map ApiFolder.directory)
  have hbelow : Path.IsBelow file := by
    rcases List.mem_cons.1 hfile with rfl | hfile
    · decide
    · exact isBelow_of_mem_modulePaths hfile
  have htable : Path.IsBelow tableFile := by decide
  obtain rfl := Path.landing_child_inj htable hbelow he
  exact (List.nodup_cons.1 hnodup).1 hfile

/-- What is written later leaves the table alone, so that it can be read at the end. -/
theorem readText_tablePath (h : c.files.NoLinks) {k : Middleware.Collection} (hk : c.known = some k)
    (hr : Reaches c.LaterPlace c.collected c.final) :
    c.final.files.readText c.tablePath = .ok k.table.render := by
  obtain ⟨folder, s, -, rfl, hs, hsucc, hafter, -⟩ := exists_folder_of_known hk
  have hn : s.files.NoLinks := hs ▸ noLinks_opened h
  have hcollected : c.collected.files.NoLinks := by
    have hreaches : Reaches (fun _ => True) s c.collected :=
      hafter ▸ reaches_writeModule trivial rfl s
    exact (hreaches.files hn).noLinks hn
  have hread : c.collected.files.readText c.tablePath =
      .ok (c.middlewareOf folder).table.render := by
    rw [hafter]
    exact readText_writeModule rfl hn hsucc
  have hreaches := hr.files hcollected
  have hfile := ((FileSystem.readText_eq_ok_iff hcollected).1 hread).2
  refine FileSystem.readText_kept hcollected (hreaches.noLinks hcollected) hreaches.keepsDirectories
    hread (hreaches.file_kept ?_ hfile)
  rintro (⟨p, hp, he⟩ | ⟨name, hname, htmp⟩)
  · exact landing_tablePath_ne hp _ he
  · have hsegments : Path.segments ⟨tableFile⟩ = ["middleware.ts"] := by decide
    rw [tablePath, place, Path.landing_child (by decide), hsegments, List.getLast?_concat] at hname
    obtain rfl := Option.some.inj hname
    exact absurd htmp (by decide)

/-! ### Names -/

/-- The names that a collection knows are the stems of the entries that it was made of. -/
theorem mem_names_ofManifest (k : Middleware.Collection) (m : Manifest) (name : String) :
    name ∈ (k.ofManifest m).names ↔ name ∈ m.map Manifest.Entry.stem := by
  have hnames : (k.ofManifest m).names = (Middleware.splitNew [] m).1.map Manifest.Entry.stem := by
    simp only [Middleware.Collection.names, Middleware.Collection.ofManifest, List.map_map]
    rfl
  rw [hnames, Middleware.mem_stem_splitNew]
  simp

/-- The requested names that are known are those that the middleware folder offers. -/
theorem available_known (c : Course) (requested : List String) :
    Middleware.available c.known requested = requested.filter fun name => name ∈ c.offered := by
  have hnone : c.known = none → c.offered = [] → Middleware.available c.known requested =
      requested.filter fun name => name ∈ c.offered := by
    intro hk ho
    rw [hk, ho]
    simp [Middleware.available]
  cases hf : c.config.middlewareFolder with
  | none =>
    obtain ⟨hk, -⟩ | ⟨folder, -, hfolder, -⟩ := c.known_cases
    · exact hnone hk (by simp only [offered, hf])
    · simp [hf] at hfolder
  | some folder =>
    obtain ⟨hknown, -⟩ := known_of_folder hf
    by_cases hs : ((Middleware.Collection.collect
        ⟨c.options.resolve folder, c.tablePath, []⟩).result c.opened).1 = .succeeded
    · have hoffered : c.offered = (Manifest.scan c.opened.files .middleware
          (c.options.resolve folder)).manifest.map Manifest.Entry.stem := by
        simp only [offered, hf, if_pos hs]
      obtain ⟨hk, -⟩ | ⟨folder', -, hfolder, hk, -⟩ := c.known_cases
      · simp [hknown, hs] at hk
      · obtain rfl : folder = folder' := Option.some.inj (hf.symm.trans hfolder)
        rw [hk, hoffered]
        refine List.filter_congr fun name _ => ?_
        exact decide_eq_decide.2 (mem_names_ofManifest _ _ _)
    · exact hnone (by rw [hknown]; exact if_neg hs) (by simp only [offered, hf, if_neg hs])

/-- A name that is available is a key of the table that is known. -/
theorem mem_entries_of_mem_available {requested : List String} {name : String}
    (h : name ∈ Middleware.available c.known requested) :
    ∃ k, c.known = some k ∧ name ∈ k.table.entries.map TableEntry.name := by
  cases hk : c.known with
  | none => simp [hk, Middleware.available] at h
  | some k =>
    refine ⟨k, rfl, ?_⟩
    simp only [hk, Middleware.available, Option.map_some, Option.getD_some] at h
    have hname := (List.mem_filter.1 h).2
    simpa [Middleware.Collection.table, Middleware.Collection.names] using hname

/-! ### Modules of a run -/

/-- What the text of a module in a directory has to do with the table: it imports the table
exactly where it refers to middleware, and all names that it refers to are keys of the table
that can be read when the run is over. -/
structure UsesTable (c : Course) (directory : Path) (lines names : List String) : Prop where
  /-- The table is imported exactly where it is used. -/
  imports : tableImportLine (Path.specifier directory c.tablePath) ∈ lines ↔ names ≠ []
  /-- Every name is a key of the table that is there at the end. -/
  keys : names ≠ [] → ∃ t : MiddlewareTable, (c.tablePath, .table t) ∈ c.final.written ∧
    c.final.files.readText c.tablePath = .ok t.render ∧
    ∀ name ∈ names, name ∈ t.entries.map TableEntry.name

/-- The names that a router refers to. -/
def namesIn (r : Router) : List String :=
  r.folderMiddleware ++ r.routes.flatMap Registration.middleware

/-- A module of a run refers to the names that were asked for and are offered, and takes them
from the table. -/
inductive RefersWell (c : Course) : Path → Generated → Prop
  /-- The table refers to no name. -/
  | table (t : MiddlewareTable) : RefersWell c c.tablePath (.table t)
  /-- The router of a turn refers to the middleware of its folder and of its handlers. -/
  | router (t : Turn) (r : Router) (turn : t ∈ c.done)
      (folder : r.folderMiddleware =
        (t.folder.middleware.getD []).filter fun name => name ∈ c.offered)
      (routes : r.routes.map Registration.middleware =
        (Manifest.scan t.start.files .handler (c.options.resolve t.folder.directory)).manifest.map
          fun e => e.middleware.filter fun name => name ∈ c.offered)
      (uses : UsesTable c t.place.directory r.lines (namesIn r)) :
      RefersWell c t.place (.router r)
  /-- The entrypoint refers to the middleware of the application. -/
  | entrypoint (e : Entrypoint) (lines : List String) (rendered : e.render = .ok (unlines lines))
      (app : e.appMiddleware =
        (c.config.appMiddleware.getD []).filter fun name => name ∈ c.offered)
      (uses : UsesTable c c.options.outputPath lines e.appMiddleware) :
      RefersWell c (c.place entrypointFile) (.entrypoint e)

theorem written_table {k : Middleware.Collection} (hk : c.known = some k)
    (hw : c.routed.written ⊆ c.final.written) :
    (c.tablePath, .table k.table) ∈ c.final.written := by
  obtain ⟨-, -, -, -, -, -, -, hcollected⟩ := exists_folder_of_known hk
  refine hw ?_
  rw [written_routed, hcollected]
  exact List.mem_append_left _ List.mem_cons_self

/-- Names that are available are keys of the table at the end. -/
theorem keys_of_available (h : c.files.NoLinks) {w : Path × Generated} (hw : w ∈ c.final.written)
    {names : List String} (hnames : ∀ name ∈ names, ∃ k, c.known = some k ∧
      name ∈ k.table.entries.map TableEntry.name) (hne : names ≠ []) :
    ∃ t : MiddlewareTable, (c.tablePath, .table t) ∈ c.final.written ∧
      c.final.files.readText c.tablePath = .ok t.render ∧
      ∀ name ∈ names, name ∈ t.entries.map TableEntry.name := by
  obtain ⟨hreaches, hwritten⟩ := routed_of_mem hw
  obtain ⟨first, hfirst⟩ := List.exists_mem_of_ne_nil names hne
  obtain ⟨k, hk, -⟩ := hnames first hfirst
  refine ⟨k.table, written_table hk hwritten, readText_tablePath h hk hreaches, ?_⟩
  intro name hname
  obtain ⟨k', hk', hkey⟩ := hnames name hname
  obtain rfl : k = k' := Option.some.inj (hk.symm.trans hk')
  exact hkey

/-- The table is imported where some of the names that are available are used. -/
theorem tableImport_of_available {directory : Path} {names : List String}
    (hnames : ∀ name ∈ names, ∃ k, c.known = some k ∧
      name ∈ k.table.entries.map TableEntry.name) :
    Middleware.tableImport c.known directory (names ≠ []) =
      if names = [] then none else some (Path.specifier directory c.tablePath) := by
  by_cases hne : names = []
  · simp [Middleware.tableImport, hne]
  · obtain ⟨first, hfirst⟩ := List.exists_mem_of_ne_nil names hne
    obtain ⟨k, hk, -⟩ := hnames first hfirst
    rw [if_neg hne, ← modulePath_of_known hk]
    simp [Middleware.tableImport, hne, hk, Middleware.Collection.specifierIn]

/-- Lines that declare the table only where names are used import it exactly there. -/
theorem mem_lines_iff {lines names : List String} {path : String}
    (hdeclared : "middleware" ∈ declaredNames lines → names ≠ [])
    (himports : names ≠ [] → tableImportLine path ∈ importLines lines) :
    tableImportLine path ∈ lines ↔ names ≠ [] := by
  constructor
  · intro h
    have hname : declaredName? (tableImportLine path) = some "middleware" :=
      (reads_defaultLine (by decide) path).2
    exact hdeclared (List.mem_filterMap.2 ⟨_, h, hname⟩)
  · intro h
    exact (List.mem_filter.1 (himports h)).1

section router

variable {fs : FileSystem} {r : Router.Request} (hr : r.known = c.known)
include hr

theorem folderMiddleware_routerOf :
    (routerOf fs r).folderMiddleware = Middleware.available c.known r.middleware := by
  rw [← hr]
  rfl

theorem routes_routerOf : (routerOf fs r).routes.map Registration.middleware =
    (Manifest.scan fs .handler r.folder).manifest.map
      fun e => Middleware.available c.known e.middleware := by
  rw [← hr]
  simp [routerOf, Router.Request.router, Router.Request.registration]

theorem known_of_mem_namesIn {name : String} (h : name ∈ namesIn (routerOf fs r)) :
    ∃ k, c.known = some k ∧ name ∈ k.table.entries.map TableEntry.name := by
  rcases List.mem_append.1 h with h | h
  · rw [folderMiddleware_routerOf hr] at h
    exact mem_entries_of_mem_available h
  · obtain ⟨route, hroute, h⟩ := List.mem_flatMap.1 h
    have hmem := List.mem_map_of_mem (f := Registration.middleware) hroute
    rw [routes_routerOf hr] at hmem
    obtain ⟨e, -, he⟩ := List.mem_map.1 hmem
    rw [← he] at h
    exact mem_entries_of_mem_available h

theorem tableImport_routerOf : (routerOf fs r).tableImport =
    if namesIn (routerOf fs r) = [] then none
    else some (Path.specifier r.modulePath.directory c.tablePath) := by
  have hneeded : ((routerOf fs r).folderMiddleware ≠ [] ||
      (routerOf fs r).routes.any fun route => route.middleware ≠ []) =
        decide (namesIn (routerOf fs r) ≠ []) := by
    apply Bool.eq_iff_iff.2
    simp [namesIn, List.append_eq_nil_iff, List.flatMap_eq_nil_iff, imp_iff_not_or]
  rw [← tableImport_of_available fun name hname => known_of_mem_namesIn hr hname, ← hneeded, ← hr]
  rfl

/-- The text of a router imports the table exactly where the router refers to middleware. -/
theorem mem_lines_routerOf (hpath : Path.specifier r.modulePath.directory c.tablePath ≠ "") :
    tableImportLine (Path.specifier r.modulePath.directory c.tablePath) ∈ (routerOf fs r).lines ↔
      namesIn (routerOf fs r) ≠ [] := by
  obtain ⟨hi, hd⟩ := Router.reads_lines fun i hi =>
    Identifier.isSpelled_of_isUsable (usable_handlers fs r hi)
  rw [tableImport_routerOf hr] at hi hd
  refine mem_lines_iff (fun hm hnone => ?_) fun hne => ?_
  · have hapart := (List.nodup_append.1 (binds_router fs r).apart).2.2 "middleware" (by simp)
    rw [hd, if_pos hnone] at hm
    have hid : "middleware" ∈ (routerOf fs r).handlers.map Import.identifier := by simpa using hm
    exact hapart _ hid rfl
  · rw [hi, if_neg hne]
    simp [Option.filter, hpath]

end router

theorem refersWell_router (h : c.files.NoLinks) {t : Turn} (ht : t ∈ c.done)
    (hw : (t.place, .router t.router) ∈ c.final.written) :
    c.RefersWell t.place (.router t.router) := by
  obtain ⟨file, hbelow, hplace, hrequest⟩ := request_of_mem_done ht
  have hknown : t.request.known = c.known := by rw [hrequest]; rfl
  have hmiddleware : t.request.middleware = t.folder.middleware.getD [] := by rw [hrequest]; rfl
  have hscanned : t.request.folder = c.options.resolve t.folder.directory := by rw [hrequest]; rfl
  have hpath : Path.specifier t.request.modulePath.directory c.tablePath ≠ "" := by
    refine Path.specifier_ne_empty fun ha => ?_
    rw [← Turn.place, hplace, place, Path.isAbsolute_directory_child hbelow]
    rwa [tablePath, place, Path.isAbsolute_child (by decide)] at ha
  refine .router t _ ht ?_ ?_ ⟨mem_lines_routerOf hknown hpath,
    keys_of_available h hw fun name hname => known_of_mem_namesIn hknown hname⟩
  · rw [← available_known, ← hmiddleware]
    exact folderMiddleware_routerOf hknown
  · simp only [← available_known, ← hscanned]
    exact routes_routerOf hknown

theorem refersWell_entrypoint (h : c.files.NoLinks)
    (hw : (c.place entrypointFile, .entrypoint c.entrypoint) ∈ c.final.written) :
    c.RefersWell (c.place entrypointFile) (.entrypoint c.entrypoint) := by
  have happ : c.entrypoint.appMiddleware =
      Middleware.available c.known (c.config.appMiddleware.getD []) := rfl
  have hnames : ∀ name ∈ c.entrypoint.appMiddleware,
      ∃ k, c.known = some k ∧ name ∈ k.table.entries.map TableEntry.name :=
    fun name hname => mem_entries_of_mem_available (happ ▸ hname)
  have htable : c.entrypoint.tableImport = if c.entrypoint.appMiddleware = [] then none
      else some (Path.specifier c.options.outputPath c.tablePath) :=
    tableImport_of_available hnames
  refine .entrypoint _ _ c.render_entrypoint (happ.trans (available_known c _))
    ⟨?_, keys_of_available h hw hnames⟩
  obtain ⟨hi, hd⟩ := c.reads_lines
  refine mem_lines_iff (fun hm hnone => ?_) fun hne => ?_
  · have hapart := (List.nodup_append.1 c.nodup_mounted).2.2 "middleware" (by decide)
    rw [hd, htable, if_pos hnone] at hm
    have hid : "middleware" ∈ c.mounted.routers.map Mount.identifier := by
      simpa [hnone] using hm
    exact hapart _ hid rfl
  · rw [hi, htable, if_neg hne]
    simp

/-! ### Diagnostics -/

/-- No run says of a module that it has no text. -/
theorem not_isRenderFault_of_mem_log {d : Diagnostic} (h : d ∈ c.final.log) :
    ¬ d.IsRenderFault := by
  have hcollected : ∀ d ∈ c.collected.log, ¬ d.IsRenderFault := by
    have hopened : Reaches (fun _ => True) c.start c.opened := reaches_ensureDirectory _ _
    have hreaches : Reaches (fun _ => True) c.start c.collected :=
      hopened.trans (reaches_collectMiddleware _ _ trivial _)
    exact hreaches.log (by simp [start])
  obtain ⟨-, hr⟩ | ⟨-, hr⟩ | ⟨-, hr, -⟩ := c.final_cases
  · exact hr.log (by simp [start]) d h
  · exact hr.log hcollected d h
  · exact hr.log hcollected d h

/-- **Names of middleware are keys of the table.** In a project without links, every module that
a run writes imports the table exactly where it refers to middleware; the names are those of the
requested ones that are offered, and keys of the table that can be read when the run is over;
and of no module it is said that it has no text. -/
theorem refersWell_and_renders (c : Course) (h : c.files.NoLinks) :
    (∀ w ∈ c.final.written, c.RefersWell w.1 w.2) ∧ ∀ d ∈ c.final.log, ¬ d.IsRenderFault := by
  refine ⟨fun w hw => ?_, fun d hd => not_isRenderFault_of_mem_log hd⟩
  cases writes_of_mem hw with
  | table k hk => exact .table _
  | router t ht => exact refersWell_router h ht hw
  | entrypoint hrouters => exact refersWell_entrypoint h hw

/-- The entrypoint of a small project refers well to its one middleware. -/
theorem refersWell_sample : sample.files.NoLinks ∧ sample.entrypoint.appMiddleware = ["auth"] ∧
    sample.RefersWell (sample.place entrypointFile) (.entrypoint sample.entrypoint) ∧
    ∀ d ∈ sample.final.log, ¬ d.IsRenderFault :=
  ⟨noLinks_sampleFiles, sample_appMiddleware,
    (refersWell_and_renders sample noLinks_sampleFiles).1 _ sample_written,
    (refersWell_and_renders sample noLinks_sampleFiles).2⟩

end Server.Course

end FileRoutes
