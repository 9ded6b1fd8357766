import FileRoutes.Proofs.Course

/-!
# Runs that go through

Each part of a run may fail, and the run then goes on without it or gives up. This module says
what a part needs in order to succeed, and follows a small project from its sources to the
entrypoint that is written for it.

## The model

* `sample` — a run on a project with one folder of handlers and one folder of middleware.
* `sampleAfter` — the files of the project once some modules are written.

## What is proved

* `known_of_writes`, `done_of_single` — when middleware is known, and when a folder is done.
* `mem_written_final` — when the entrypoint is written.
* `sample_written` — the entrypoint of the project is written.
-/

namespace FileRoutes.Server.Course

open Run

variable {c : Course}

/-! ### Parts of a run -/

/-- A folder with middleware is known where its table can be written. -/
theorem known_of_writes {folder : String} (h : c.config.middlewareFolder = some folder)
    (hm : (Manifest.scan c.opened.files .middleware (c.options.resolve folder)).manifest ≠ [])
    (hw : ∀ s : State, s.files = c.opened.files →
      (writeModule c.tablePath (.table (c.middlewareOf folder).table)).result s = .succeeded) :
    c.known = some (c.middlewareOf folder) ∧ ∃ s : State, s.files = c.opened.files ∧
      c.collected = (writeModule c.tablePath (.table (c.middlewareOf folder).table)).after s := by
  obtain ⟨hknown, hcollected⟩ := known_of_folder h
  obtain ⟨s, hfiles, -, hresult, hafter⟩ :=
    collect_of_ne ⟨c.options.resolve folder, c.tablePath, []⟩ hm
  have hr : (Middleware.Collection.collect ⟨c.options.resolve folder, c.tablePath, []⟩).result
      c.opened = (.succeeded, c.middlewareOf folder) :=
    hresult.trans (congrArg (·, c.middlewareOf folder) (hw s hfiles))
  rw [hr] at hknown
  exact ⟨hknown, s, hfiles, hcollected.trans hafter⟩

/-- The turn of the only folder is the only one. -/
theorem done_of_single {pair : ApiFolder × String} (hf : c.folders = [pair])
    (hs : (turnOf c.options c.known pair c.collected).succeeds = true) :
    c.done = [turnOf c.options c.known pair c.collected] ∧ c.routed.files =
      ((turnOf c.options c.known pair c.collected).request.generate.after c.collected).files := by
  obtain ⟨ht, -, ha⟩ := turns_cons_of_succeeds hs [] {}
  constructor
  · rw [done, turns, hf, ht]
    simp [Server.turns, hs]
  · rw [routed, hf, ha]
    exact files_addRouter _ _ _ _ _

/-- A run that can make its directory, mount a router and write the entrypoint does so. -/
theorem mem_written_final (hmixed : isMixed c.options = false)
    (ho : (ensureDirectory c.options.outputPath).result c.start = .succeeded)
    (hrouters : c.mounted.routers ≠ [])
    (hw : (writeModule (c.place entrypointFile) (.entrypoint c.entrypoint)).result c.scripted =
      .succeeded) : (c.place entrypointFile, .entrypoint c.entrypoint) ∈ c.final.written := by
  have hfinal : c.final = (generateInto c.options c.config).after c.opened := by
    simp only [final, generate, hmixed]
    rw [if_neg (by decide), after_bind, ho]
    rfl
  rw [hfinal, after_generateInto, if_neg hrouters, written_writeModule, hw]
  simp

/-! ### A project -/

/-- The sources of a project, each with its folder and its name: a handler in a folder called
`appMiddleware`, and middleware. -/
def sampleSources : List (String × String × String) :=
  [("appMiddleware", "ping.ts", "export default function handler() \x7b\x7d"),
    ("mw", "auth.ts", "export default function middleware() \x7b\x7d")]

/-- The files of the project. -/
def sampleFiles : FileSystem where
  entries := sampleSources.flatMap fun (folder, name, source) =>
    [([folder], .directory), ([folder, name], .file (.text source))]

/-- A run on the project, which uses the middleware everywhere. -/
def sample : Course where
  options := ⟨⟨"/"⟩, ⟨"out"⟩⟩
  config :=
    { apiFolders := [⟨"appMiddleware", "/a", none⟩]
      port := 3000
      middlewareFolder := some "mw"
      appMiddleware := some ["auth"] }
  files := sampleFiles

/-- The files of the project once some modules are written. -/
def sampleAfter (texts : List (String × String)) : FileSystem where
  entries := sampleFiles.entries ++ (["out"], .directory) ::
    texts.map fun m => (["out", m.1], .file (.text m.2))
  temporaries := texts.length

/-- The modules of the project, each behind those that are written before it. -/
def sampleModules : List (List String × String) :=
  [([], "middleware.ts"), (["middleware.ts"], "appMiddleware.ts"),
    (["middleware.ts", "appMiddleware.ts"], "index.ts")]

theorem noLinks_sampleFiles : sampleFiles.NoLinks :=
  FileSystem.noLinks_of_entries (by simp [sampleFiles, sampleSources])

theorem noLinks_sampleAfter (texts : List (String × String)) : (sampleAfter texts).NoLinks := by
  refine FileSystem.noLinks_of_entries fun m hm target he => ?_
  rcases List.mem_append.1 hm with hm | hm
  · have key : ∀ m ∈ sampleFiles.entries, m.2 ≠ .link target := by
      simp [sampleFiles, sampleSources]
    exact key m hm he
  · rcases List.mem_cons.1 hm with rfl | hm
    · cases he
    · obtain ⟨module, -, rfl⟩ := List.mem_map.1 hm
      cases he

theorem sample_opened :
    (ensureDirectory sample.options.outputPath).result sample.start = .succeeded ∧
      sample.opened.files = sampleAfter [] := by
  have houtput : sample.options.outputPath = ⟨"/out"⟩ := by decide
  have hspells : FileSystem.Spells ⟨"/out"⟩ ["out"] := by decide
  obtain ⟨ha, hf⟩ := FileSystem.ensureDirectory_of_free hspells.endsIn_root
    noLinks_sampleFiles rfl (by decide)
  obtain ⟨hr, hafter⟩ := Run.ensureDirectory_of_ok (s := sample.start) (p := ⟨"/out"⟩) ha
  rw [opened, houtput]
  exact ⟨hr, by rw [hafter]; exact hf⟩

/-- Every folder of the project is there. -/
theorem endsIn_sampleAfter {p : Path} {folder name : String} {texts : List (String × String)}
    (h : FileSystem.Spells p [folder, name])
    (hf : FileSystem.entry? (sampleAfter texts) [folder] = some .directory) :
    (sampleAfter texts).EndsIn p [folder] name :=
  h.endsIn_folder hf

theorem entry_sampleAfter {texts : List (String × String)} {name : String}
    (h : name ∉ texts.map Prod.fst) :
    FileSystem.entry? (sampleAfter texts) ["out", name] = none := by
  rw [FileSystem.entry?, if_neg (by simp), Keyed.get_eq_none_iff]
  simpa [sampleAfter, sampleFiles, sampleSources] using h

theorem place_sampleAfter {texts : List (String × String)} {name : String}
    (h : name ∉ texts.map Prod.fst) (text : String) :
    { sampleAfter texts with temporaries := (sampleAfter texts).temporaries + 1 }.place
      ["out", name] (.file (.text text)) = sampleAfter (texts ++ [(name, text)]) := by
  have hget := entry_sampleAfter h
  rw [FileSystem.entry?, if_neg (by simp)] at hget
  rw [FileSystem.place, Keyed.put_of_get_eq_none hget]
  simp [sampleAfter]

theorem spells_of_mem : ∀ m ∈ sampleModules,
    let p := sample.place m.2
    let source := "." ++ m.2 ++ "." ++ "" ++ "." ++ toString m.1.length ++ ".tmp"
    p.directory = ⟨"/out"⟩ ∧ p.fileName? = some m.2 ∧ FileSystem.Spells p ["out", m.2] ∧
      FileSystem.Spells (p.directory.join ⟨source⟩) ["out", source] ∧
      m.2 ∉ m.1 ∧ source ∉ m.1 := by
  decide

/-- The modules of the project can be written one after the other. -/
theorem sample_writes (texts : List (String × String)) (file : String) {m : Emit.Generated}
    {s : State} {text : String} (h : (texts.map Prod.fst, file) ∈ sampleModules)
    (hm : m.render = .ok text) (hs : s.files = sampleAfter texts) :
    (writeModule (sample.place file) m).result s = .succeeded ∧
      ((writeModule (sample.place file) m).after s).files =
        sampleAfter (texts ++ [(file, text)]) := by
  obtain ⟨hdirectory, hfile, hspells, hspellsSource, hnew, hnewSource⟩ := spells_of_mem _ h
  have hn := noLinks_sampleAfter texts
  have hout : FileSystem.Spells ⟨"/out"⟩ ["out"] := by decide
  have hends : (sampleAfter texts).EndsIn ⟨"/out"⟩ [] "out" := hout.endsIn_root
  have hensure := FileSystem.ensureDirectory_of_directory hends hn rfl
  have hlength : (texts.map Prod.fst).length = (sampleAfter texts).temporaries := by
    simp [sampleAfter]
  dsimp only at hspellsSource hnewSource
  rw [hlength] at hspellsSource hnewSource
  obtain ⟨hwrite, hafter⟩ := FileSystem.writeFile_of_free hfile
    (endsIn_sampleAfter hspells rfl) (endsIn_sampleAfter hspellsSource rfl) hn rfl
    (by rw [List.singleton_append, entry_sampleAfter hnew]; simp)
    (entry_sampleAfter hnewSource) text
  obtain ⟨hr, hfiles⟩ := writeModule_of_ok (p := sample.place file) (s := s) hm
    (by rw [hdirectory, hs]; exact hensure) (by rw [hs]; exact hwrite)
  refine ⟨hr, ?_⟩
  rw [hfiles, hs, hafter]
  exact place_sampleAfter hnew text

/-- The path under which a source of the project is visited. -/
def sourceIn (folder name : String) : Path :=
  (sample.options.resolve folder).join (Path.child ⟨""⟩ name)

theorem spells_of_mem_sources : ∀ m ∈ sampleSources,
    let root := sample.options.resolve m.1
    FileSystem.Spells root [m.1] ∧ FileSystem.Spells (sourceIn m.1 m.2.1) [m.1, m.2.1] ∧
      FileSystem.checkPath (root.join ⟨""⟩) = .ok () ∧
      (root.join ⟨""⟩).segments = ["", m.1, ""] := by
  decide

theorem entries_of_mem_sources (texts : List (String × String)) : ∀ m ∈ sampleSources,
    FileSystem.entry? (sampleAfter texts) [m.1] = some .directory ∧
      FileSystem.entry? (sampleAfter texts) [m.1, m.2.1] = some (.file (.text m.2.2)) ∧
      (sampleAfter texts).names [m.1] = [m.2.1] := by
  intro m hm
  simp only [sampleSources, List.mem_cons, List.not_mem_nil, or_false] at hm
  rcases hm with rfl | rfl
  all_goals
    refine ⟨rfl, rfl, ?_⟩
    simp [FileSystem.names, sampleAfter, sampleFiles, sampleSources, FileSystem.nameIn?]

/-- The sources of the project can be read, whatever modules are written. -/
theorem sample_reads (texts : List (String × String)) {folder name source : String}
    (h : (folder, name, source) ∈ sampleSources) :
    let fs := sampleAfter texts
    let root := sample.options.resolve folder
    fs.holds root = true ∧ fs.listNames (root.join ⟨""⟩) = .ok [name] ∧
      fs.isDirectory (sourceIn folder name) = .ok false ∧
      fs.readText (sourceIn folder name) = .ok source := by
  obtain ⟨hroot, hfile, hcheck, hsegments⟩ := spells_of_mem_sources _ h
  obtain ⟨hfolder, hsource, hnames⟩ := entries_of_mem_sources texts _ h
  intro fs root
  have hn : fs.NoLinks := noLinks_sampleAfter texts
  have hspells : FileSystem.Spells root [folder] := hroot
  have hends : fs.EndsIn root [] folder := hspells.endsIn_root
  have hentry : fs.entryAt root = .ok .directory := hends.entryAt_of_entry hn hfolder
  have hentryFile : fs.entryAt (sourceIn folder name) = .ok (.file (.text source)) :=
    (endsIn_sampleAfter hfile hfolder).entryAt_of_entry hn hsource
  have hresolve : fs.resolve (root.join ⟨""⟩) = .ok [folder] := by
    refine FileSystem.resolve_of_locate ((FileSystem.locate_eq_ok_iff hn).2 ⟨hcheck, ?_⟩)
    rw [hsegments, Path.startOf_of_segments hsegments, if_pos (by simp)]
    exact .nothing (by decide) (FileSystem.leads_of_directories [] [folder]
      hroot.2.2 fun k => by
        cases k with
        | zero => rfl
        | succ k => simpa using hfolder)
  refine ⟨?_, ?_, ?_, ?_⟩
  · rw [FileSystem.holds, hentry]
    rfl
  · have hdirectory : fs.entry? [folder] = some .directory := hfolder
    simp only [FileSystem.listNames, hresolve, bind, Except.bind, hdirectory]
    exact congrArg Except.ok hnames
  · simp only [FileSystem.isDirectory, hentryFile, bind, Except.bind]
    rfl
  · simp only [FileSystem.readText, hentryFile, bind, Except.bind]
    rfl

/-- The middleware of the project. -/
def sampleAuth : Manifest.Entry :=
  ⟨"auth.ts", "/auth", ⟨"/mw/auth.ts"⟩, .get, [], "auth", .byDefault⟩

/-- The handler of the project. -/
def samplePing : Manifest.Entry :=
  ⟨"ping.ts", "/ping", ⟨"/appMiddleware/ping.ts"⟩, .get, [], "ping", .byDefault⟩

theorem parse_handler :
    (Script.Language.typescript.parse? "export default function handler() \x7b\x7d").map
      (fun m => (m.functionStyle? Role.handler.exportName, m.config?.isNone)) =
      some (some .byDefault, true) := by
  decide +kernel

theorem parse_middleware :
    (Script.Language.typescript.parse? "export default function middleware() \x7b\x7d").map
      (fun m => (m.functionStyle? Role.middleware.exportName, m.config?.isNone)) =
      some (some .byDefault, true) := by
  decide +kernel

theorem sample_scan (texts : List (String × String)) {role : Role} {folder name source : String}
    (h : (folder, name, source) ∈ sampleSources)
    (hlanguage : Script.Language.ofPath? (sourceIn folder name) = some .typescript)
    (hparse : (Script.Language.typescript.parse? source).map (fun m =>
      (m.functionStyle? role.exportName, m.config?.isNone)) = some (some .byDefault, true)) :
    (Manifest.scan (sampleAfter texts) role (sample.options.resolve folder)).manifest =
      Manifest.withIdentifiers role.ownNames
        [Manifest.entryOf (sourceIn folder name) (Path.child ⟨""⟩ name) .byDefault {}] := by
  obtain ⟨hh, hnames, hfile, hread⟩ := sample_reads texts h
  exact Manifest.scan_of_source _ _ name source rfl rfl hh hnames hfile hread hlanguage hparse

theorem sample_auth (texts : List (String × String)) :
    (Manifest.scan (sampleAfter texts) .middleware (sample.options.resolve "mw")).manifest =
      [sampleAuth] :=
  (sample_scan texts (.tail _ (.head _)) (by decide) parse_middleware).trans
    (by decide)

theorem sample_ping (texts : List (String × String)) :
    (Manifest.scan (sampleAfter texts) .handler (sample.options.resolve "appMiddleware")).manifest =
      [samplePing] :=
  (sample_scan texts (.head _) (by decide) parse_handler).trans (by decide)

theorem sample_known : sample.known = some (sample.middlewareOf "mw") ∧
    (sample.middlewareOf "mw").mappings = [Middleware.Mapping.ofEntry sampleAuth] ∧
    ∃ text, sample.collected.files = sampleAfter [("middleware.ts", text)] := by
  have hopened := sample_opened.2
  have hfolder : sample.config.middlewareFolder = some "mw" := rfl
  have hscan : (Manifest.scan sample.opened.files .middleware
      (sample.options.resolve "mw")).manifest = [sampleAuth] := by
    rw [hopened, sample_auth]
  have hwrite := fun (s : State) (hs : s.files = sample.opened.files) => sample_writes []
    "middleware.ts" (m := .table (sample.middlewareOf "mw").table) (.head _) rfl (hs.trans hopened)
  obtain ⟨hknown, s, hs, hcollected⟩ := known_of_writes hfolder
    (by rw [hscan]; simp) fun s hs => (hwrite s hs).1
  refine ⟨hknown, ?_, (sample.middlewareOf "mw").table.render, ?_⟩
  · rw [middlewareOf, hscan]
    decide
  · exact hcollected ▸ (hwrite s hs).2

theorem sample_done : ∃ t, sample.done = [t] ∧ t.folder = ⟨"appMiddleware", "/a", none⟩ ∧
    ∃ texts, texts.map Prod.fst = ["middleware.ts", "appMiddleware.ts"] ∧
      sample.routed.files = sampleAfter texts := by
  obtain ⟨-, -, text, hcollected⟩ := sample_known
  have hfolders : sample.folders = [(⟨"appMiddleware", "/a", none⟩, "appMiddleware.ts")] := by
    decide
  generalize hturn : turnOf sample.options sample.known (⟨"appMiddleware", "/a", none⟩,
    "appMiddleware.ts") sample.collected = t
  have hstart : t.start = sample.collected := by rw [← hturn]; rfl
  have hscan : (Manifest.scan sample.collected.files .handler t.request.folder).manifest =
      [samplePing] := by
    rw [hcollected, ← hturn]
    exact sample_ping _
  obtain ⟨s', hs', hresult, hafter⟩ := generate_of_ne t.request (s := sample.collected)
    (by rw [hscan]; simp)
  have hplace : t.request.modulePath = sample.place "appMiddleware.ts" := by rw [← hturn]; rfl
  rw [hplace] at hresult hafter
  obtain ⟨hr, hfiles⟩ := sample_writes [("middleware.ts", text)] "appMiddleware.ts"
    (m := .router (t.request.router _)) (s := s') (.tail _ (.head _)) rfl (hs'.trans hcollected)
  have hsucceeds : t.succeeds = true := decide_eq_true (by rw [hstart, hresult]; exact hr)
  obtain ⟨hdone, hrouted⟩ := done_of_single hfolders (by rw [hturn]; exact hsucceeds)
  rw [hturn] at hdone hrouted
  exact ⟨t, hdone, by rw [← hturn]; rfl, _, rfl, by rw [hrouted, hafter]; exact hfiles⟩

/-- The run writes an entrypoint that mounts the router of the folder `appMiddleware`. -/
theorem sample_written :
    (sample.place entrypointFile, .entrypoint sample.entrypoint) ∈ sample.final.written := by
  obtain ⟨t, hdone, -, texts, htexts, hrouted⟩ := sample_done
  have hrouters : sample.mounted.routers ≠ [] :=
    List.ne_nil_of_mem (mem_mounted.2 ⟨[], t, [], hdone, by simp, rfl⟩)
  have hwrite := sample_writes texts entrypointFile
    (m := .entrypoint sample.entrypoint) (s := sample.scripted)
    (by rw [htexts]; exact .tail _ (.tail _ (.head _))) sample.render_entrypoint hrouted
  exact mem_written_final (by decide) sample_opened.1 hrouters hwrite.1

theorem sample_appMiddleware : sample.entrypoint.appMiddleware = ["auth"] := by
  obtain ⟨hknown, hmappings, -⟩ := sample_known
  have hnames : (sample.middlewareOf "mw").names = ["auth"] := by
    rw [Middleware.Collection.names, hmappings]
    decide
  simp only [entrypoint, Server.entrypoint, Middleware.available, hknown, Option.map_some,
    Option.getD_some, Middleware.Collection.available, hnames]
  decide

end FileRoutes.Server.Course
