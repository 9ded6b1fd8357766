import FileRoutes.Proofs.Containment

/-!
# What a run reads

A run reads the sources of its handlers and of its middleware, and it imports scripts. This module
says when such a file keeps what is in it, wherever the project and its output directory are and
however links lead from one to the other: a file changes only where the run puts one of its own
modules, or the temporary file of one.

## The model

* `Attempt.Takes` — an attempt takes the place of what stands at a location.
* `Course.Uses` — the sources and the scripts of a run, each with the files in which it is found.

## What is proved

* `Attempt.kept_after` — an attempt keeps whatever it does not take the place of.
* `kept_final` — so does a run, from the start to the end.
* `uses_kept` — the files that a run uses are kept, except where it takes their place.
-/

namespace FileRoutes

namespace FileSystem

variable {fs : FileSystem} {l : Location} {p : Path}

/-- A path that can be followed to something that is no directory leads to a file. -/
theorem exists_file_of_entryAt (h : fs.Grounded) {e : Entry} (he : fs.entryAt p = .ok e)
    (hd : e ≠ .directory) : ∃ l content, fs.resolve p = .ok l ∧
      fs.entry? l = some (.file content) := by
  unfold entryAt at he
  cases hr : fs.resolve p with
  | error err => simp [hr, bind, Except.bind] at he
  | ok l =>
    have hlink := locate_no_link h (locate_of_resolve hr)
    cases hl : fs.entry? l with
    | none => simp [hr, hl, bind, Except.bind, throw, throwThe, MonadExceptOf.throw] at he
    | some entry =>
      obtain rfl : entry = e := by simpa [hr, hl, bind, Except.bind, pure, Except.pure] using he
      cases entry with
      | directory => exact absurd rfl hd
      | file content => exact ⟨l, content, rfl, hl⟩
      | link target => exact absurd hl (hlink target)

/-- Where a joined path leads anywhere, the first path leads to a directory. -/
theorem passesTo_of_leadsTo_join {q : Path} (hq : q.isAbsolute = false)
    (h : fs.LeadsTo (p.join q) l) : ∃ base, fs.PassesTo p base := by
  obtain ⟨last, place, hplace, -⟩ := h
  obtain ⟨init, hjoin, hiff⟩ := passes_join_iff fs hq p
  have hwalk := (locate_ok_cases hplace).2
  rw [hjoin] at hwalk
  obtain ⟨m, base, hpasses, -⟩ := exists_passes q.segments_ne_nil hwalk
  exact ⟨base, m, (hiff m base).2 hpasses⟩

end FileSystem

namespace Server

open FileSystem
open FileSystem.Action (answer filesAfter)

namespace Attempt

variable {a : Attempt} {l : Location}

/-- An attempt takes the place of what stands at a location: it writes its module there, or its
temporary file, which is put where the temporary path leads and taken away where it stands. -/
def Takes (a : Attempt) (l : Location) : Prop :=
  (a.succeeds = true ∧ a.prepared.IsAt a.place l) ∨
    ∃ name, a.place.fileName? = some name ∧
      a.prepared.LeadsTo (a.prepared.temporaryPath a.place name) l

/-- An attempt keeps whatever it does not take the place of. -/
theorem kept_after (h : a.files.Grounded) :
    a.after.Grounded ∧ ∀ l, ¬ a.Takes l → Kept l a.files a.after := by
  have hgrows : Grows a.files a.prepared := grows_ensureDirectory h _
  have hprepared := hgrows.grounded h
  obtain ⟨-, hafter⟩ | ⟨-, hsucceeds, hafter⟩ := a.after_cases
  · rw [hafter]
    exact ⟨hprepared, fun l _ => hgrows.kept l⟩
  · rw [hafter]
    cases hfile : a.place.fileName? with
    | none =>
      rw [(writeFile_of_no_name hfile a.text).2]
      exact ⟨hprepared, fun l _ => hgrows.kept l⟩
    | some name =>
      have hwriting := writing_writeFile hprepared hfile a.text
      refine ⟨hwriting.grounded hprepared, fun l ht => (hgrows.kept l).trans (.inl ?_)⟩
      exact hwriting.entry_eq hprepared (fun hl => ht (.inr ⟨name, hfile, hl⟩))
        fun hok hat => ht (.inl ⟨hsucceeds.2 hok, hat⟩)

/-- An attempt at a module below a directory without links takes no place outside of it. -/
theorem not_takes_of_outside {output : Path} {base : Location} {file : String}
    (h : Ready output base a.files) (hplace : a.place = output.child file)
    (hf : Path.IsBelow file) (hl : ¬ base <+: l) : ¬ a.Takes l := by
  have hready : Ready output base a.prepared := h.grows (grows_ensureDirectory h.grounded _)
  rintro (⟨-, hat⟩ | ⟨name, hname, hleads⟩)
  · rw [hplace] at hat
    rw [hready.leads.location_child hready.noLinks hf hat.leadsTo] at hl
    exact hl (List.prefix_append _ _)
  · obtain ⟨init, last, hs, hlast⟩ := hf.exists_name
    obtain ⟨before, hjoin⟩ := Path.exists_segments_join hf.not_isAbsolute output
    have hsegments : a.place.segments = (before ++ init) ++ [last] := by
      rw [hplace, Path.child, hjoin, hs, List.append_assoc]
    obtain rfl : last = name :=
      Option.some.inj ((Path.fileName_of_segments hsegments hlast).symm.trans hname)
    obtain ⟨directory, hdirectory⟩ :=
      passesTo_of_leadsTo_join (not_isAbsolute_temporaryName _ _) hleads
    rw [hplace] at hdirectory hleads
    rw [hready.leads.location_temporaryPath hready.noLinks hready.tag hf hs hdirectory hleads,
      List.append_assoc] at hl
    exact hl (List.prefix_append _ _)

end Attempt

namespace Course

variable {c : Course}

/-- The sources that a run accepts and the scripts that it imports, each with the files in which
it is found. -/
inductive Uses (c : Course) : FileSystem → Path → Prop
  /-- A source of middleware. -/
  | middleware (folder : String) (e : Manifest.Entry) (opens : c.opens = true)
      (configured : c.config.middlewareFolder = some folder)
      (accepted : e ∈
        (Manifest.scan c.opened.files .middleware (c.options.resolve folder)).manifest) :
      Uses c c.opened.files e.sourcePath
  /-- A source of a handler. -/
  | handler (t : Turn) (e : Manifest.Entry) (opens : c.opens = true) (turn : t ∈ c.turns)
      (accepted : e ∈ t.manifest) : Uses c t.start.files e.sourcePath
  /-- A script. -/
  | script (p : Path) (opens : c.opens = true) (mounts : c.mounted.routers ≠ [])
      (listed : p ∈ c.scriptFiles) : Uses c c.routed.files p

/-- Before every attempt and at the end, everything stands in a directory. -/
theorem grounded_attempts (hopens : c.opens = true) (hg : c.files.Grounded) :
    ∀ a ∈ c.attempts, a.files.Grounded :=
  ((chain_final hopens).invariant (P := Grounded) ((grows_opened hg).grounded hg)
    fun _ _ h => (Attempt.kept_after h).1).2

/-- Whatever no attempt takes the place of is kept, up to every attempt and to the end. -/
theorem kept_final (hopens : c.opens = true) (hg : c.files.Grounded) {l : Location}
    (h : ∀ a ∈ c.attempts, ¬ a.Takes l) :
    Kept l c.files c.final.files ∧ ∀ a ∈ c.attempts, Kept l c.files a.files :=
  (chain_final hopens).invariant (P := Kept l c.files) ((grows_opened hg).kept l)
    fun a ha hk => hk.trans ((Attempt.kept_after (grounded_attempts hopens hg a ha)).2 l (h a ha))

/-- What a run uses it finds once its output directory is there, or before an attempt. -/
theorem Uses.exists_stage {fs : FileSystem} {p : Path} (h : c.Uses fs p) :
    c.opens = true ∧ (fs = c.opened.files ∨ ∃ a ∈ c.attempts, a.files = fs) := by
  cases h with
  | middleware folder e opens configured accepted => exact ⟨opens, .inl rfl⟩
  | handler t e opens turn accepted =>
    have hattempt : t.attempt ∈ c.turns.flatMap Turn.attempts := by
      refine List.mem_flatMap.2 ⟨t, turn, ?_⟩
      rw [Turn.attempts_of_ne (List.ne_nil_of_mem accepted)]
      exact List.mem_singleton_self _
    refine ⟨opens, .inr ⟨t.attempt, ?_, rfl⟩⟩
    rw [attempts, if_pos opens]
    simp [hattempt]
  | script p opens mounts listed =>
    refine ⟨opens, .inr ⟨c.entrypointAttempt, ?_, rfl⟩⟩
    rw [attempts, if_pos opens, entrypointAttempts_of_ne mounts]
    simp

/-- What a run uses is a file. -/
theorem Uses.exists_file {fs : FileSystem} {p : Path} (h : c.Uses fs p) (hg : fs.Grounded) :
    ∃ l content, fs.resolve p = .ok l ∧ fs.entry? l = some (.file content) := by
  have hread : ∀ source, fs.readText p = .ok source →
      ∃ l content, fs.resolve p = .ok l ∧ fs.entry? l = some (.file content) := by
    intro source hsource
    unfold readText at hsource
    cases he : fs.entryAt p with
    | error err => simp [he, bind, Except.bind] at hsource
    | ok e =>
      refine exists_file_of_entryAt hg he ?_
      rintro rfl
      simp [he, bind, Except.bind, throw, throwThe, MonadExceptOf.throw] at hsource
  cases h with
  | middleware folder e opens configured accepted =>
    obtain ⟨source, hsource⟩ := Manifest.readText_of_mem_scan accepted
    exact hread source hsource
  | handler t e opens turn accepted =>
    obtain ⟨source, hsource⟩ := Manifest.readText_of_mem_scan accepted
    exact hread source hsource
  | script p opens mounts listed =>
    unfold scriptFiles at listed
    split at listed
    · simp at listed
    · split at listed
      · have hfile := (List.mem_filter.1 listed).2
        cases he : c.routed.files.entryAt p with
        | error err => simp [isDirectory, he, bind, Except.bind] at hfile
        | ok e =>
          refine exists_file_of_entryAt hg he ?_
          rintro rfl
          simp [isDirectory, he, bind, Except.bind, pure, Except.pure] at hfile
      · simp at listed

/-- Without links below the output directory, no attempt takes a place outside of it. -/
theorem not_takes_of_outside (hg : c.files.Grounded) (htag : '/' ∉ c.files.processTag.toList)
    (hn : ∀ base, c.opened.files.PassesTo c.options.outputPath base → c.files.NoLinksBelow base)
    {l : Location}
    (hl : ∀ base, c.opened.files.PassesTo c.options.outputPath base → ¬ base <+: l) :
    ∀ a ∈ c.attempts, ¬ a.Takes l := by
  intro a ha
  have hopens := (mem_attempts_cases ha).1
  obtain ⟨base, houtput, hready⟩ := exists_ready hopens hg htag hn
  obtain ⟨-, hall⟩ := ready_of_mem_attempts hopens hready (P := fun _ => True) trivial
    fun _ _ _ _ _ => trivial
  obtain ⟨file, hfile, hplace⟩ := exists_file_of_mem_attempts ha
  exact Attempt.not_takes_of_outside (hall a ha).1 hplace (isBelow_of_mem_artifactFiles hfile)
    (hl base houtput)

/-- **Sources are kept.** Every source that a run accepts and every script that it imports is a
file. It holds at the end what it held at the start and when it was read, unless an attempt of
the run takes its place: unless the run writes one of its own modules there, or the temporary
file of one. -/
theorem uses_kept (hg : c.files.Grounded) {fs : FileSystem} {p : Path} (h : c.Uses fs p) :
    ∃ l content, fs.resolve p = .ok l ∧ fs.entry? l = some (.file content) ∧
      ((∀ a ∈ c.attempts, ¬ a.Takes l) →
        c.files.entry? l = some (.file content) ∧
          c.final.files.entry? l = some (.file content)) := by
  obtain ⟨hopens, hstage⟩ := h.exists_stage
  have hgrounded : fs.Grounded := by
    obtain rfl | ⟨a, ha, rfl⟩ := hstage
    · exact (grows_opened hg).grounded hg
    · exact grounded_attempts hopens hg a ha
  obtain ⟨l, content, hresolve, hentry⟩ := h.exists_file hgrounded
  refine ⟨l, content, hresolve, hentry, fun htakes => ?_⟩
  obtain ⟨hfinal, hattempts⟩ := kept_final hopens hg htakes
  have hkept : Kept l c.files fs := by
    obtain rfl | ⟨a, ha, rfl⟩ := hstage
    · exact (grows_opened hg).kept l
    · exact hattempts a ha
  have hstart := hkept.file_iff.1 hentry
  exact ⟨hstart, hfinal.file_iff.2 hstart⟩

/-- A run on the sample project keeps the source of its middleware. -/
theorem uses_kept_sample : sampleFiles.Grounded ∧
    sample.Uses sample.opened.files ⟨"/mw/auth.ts"⟩ ∧
    sample.final.files.entry? ["mw", "auth.ts"] =
      some (.file (.text "export default function middleware() \x7b\x7d")) := by
  have hg : sample.files.Grounded := (by decide +kernel : sampleFiles.IsTree).toGrounded
  obtain ⟨hmade, hopened⟩ := sample_opened
  have hopens : sample.opens = true := by
    have hok := (Run.ensureDirectory_answer sample.options.outputPath sample.start).1.1 hmade
    have hok' : answer (FileSystem.ensureDirectory sample.options.outputPath) sample.files =
      .ok () := hok
    rw [opens, hok']
    decide
  have huses : sample.Uses sample.opened.files ⟨"/mw/auth.ts"⟩ :=
    .middleware "mw" sampleAuth hopens rfl (by rw [hopened, sample_auth]; simp)
  have hn : (sampleAfter []).NoLinks := noLinks_sampleAfter []
  have hout : FileSystem.Spells ⟨"/out"⟩ ([] ++ ["out"]) := by decide
  have hdirectory : FileSystem.entry? (sampleAfter []) ["out"] = some .directory := by decide
  have hleads : (sampleAfter []).PassesTo ⟨"/out"⟩ ["out"] := passesTo_of_locate
    ((hout.endsIn fun k => by simp; rfl).locate_of_entry hn hdirectory true) hdirectory
  have hresolve : (sampleAfter []).resolve ⟨"/mw/auth.ts"⟩ = .ok ["mw", "auth.ts"] :=
    resolve_of_locate ((endsIn_sampleAfter
      (show FileSystem.Spells ⟨"/mw/auth.ts"⟩ (["mw"] ++ ["auth.ts"]) by decide)
      (by decide)).locate_of_entry hn (e := .file (.text
        "export default function middleware() \x7b\x7d")) (by decide) true)
  obtain ⟨l, content, hl, -, hkept⟩ := uses_kept (c := sample) hg huses
  rw [hopened] at hl
  obtain rfl : ["mw", "auth.ts"] = l := Except.ok.inj (hresolve.symm.trans hl)
  obtain ⟨hstart, hfinal⟩ := hkept (not_takes_of_outside hg (by decide)
    (fun base _ => noLinks_sampleFiles.below base) fun base houtput => by
      rw [hopened] at houtput
      rw [houtput.unique hleads]
      decide)
  have hsource : sampleFiles.entry? ["mw", "auth.ts"] =
    some (.file (.text "export default function middleware() \x7b\x7d")) := by decide
  exact ⟨hg, huses, hfinal.trans (hstart.symm.trans hsource)⟩

/-! ### Sources that are taken -/

/-- A run on a project in the root that has middleware in `/mw` and nothing else. -/
def tableRun (output : String) (files : FileSystem) : Course where
  options := ⟨⟨"/"⟩, ⟨output⟩⟩
  config := { apiFolders := [], port := 3000, middlewareFolder := some "mw" }
  files := files

/-- The files of a project with middleware that is called `middleware`. -/
def ownFiles : FileSystem where
  entries := [(["mw"], .directory), (["mw", "middleware.ts"],
    .file (.text "export default function middleware() \x7b\x7d"))]

/-- The files of a project in which a link to a source has the name of a temporary file. -/
def linkedFiles : FileSystem where
  entries := [(["out"], .directory), (["out", ".middleware.ts..0.tmp"], .link "/mw/auth.ts"),
    (["mw"], .directory),
    (["mw", "auth.ts"], .file (.text "export default function middleware() \x7b\x7d"))]

/-- The text of a table ends with a line break, and so it is not that of the source. -/
theorem render_ne (t : Emit.MiddlewareTable) :
    t.render ≠ "export default function middleware() \x7b\x7d" := by
  have hlines : t.lines = (t.imports.map (Emit.Import.line "middleware") ++
      ["", "const middleware = \x7b"] ++ Emit.entryLines t.entries ++ ["\x7d;", ""]) ++
        ["export default middleware;"] := by
    simp [Emit.MiddlewareTable.lines]
  rw [Emit.MiddlewareTable.render, hlines, Emit.unlines, List.map_append, String.join_append]
  generalize String.join _ = front
  intro he
  have hlast := congrArg (fun s : String => s.toList.getLast?) he
  simp at hlast

/-- A run on such a project writes the table of its middleware and nothing else. -/
theorem tableRun_final {output : String} {files : FileSystem}
    (hopens : (tableRun output files).opens = true)
    (hopened : (tableRun output files).opened.files = files)
    (hm : (Manifest.scan files .middleware ⟨"/mw"⟩).manifest ≠ []) :
    ∃ t : Emit.MiddlewareTable, (tableRun output files).final.files =
      filesAfter (deliver (tableRun output files).tablePath t.render) files := by
  have hroot : GenerateOptions.resolve ⟨⟨"/"⟩, ⟨output⟩⟩ "mw" = ⟨"/mw"⟩ := by
    show Path.join ⟨"/"⟩ ⟨"mw"⟩ = ⟨"/mw"⟩
    decide
  have hattempts :
      (tableRun output files).attempts = [(tableRun output files).tableAttempt "mw"] := by
    have htable : (tableRun output files).tableAttempts =
        [(tableRun output files).tableAttempt "mw"] := by
      show (if (Manifest.scan (tableRun output files).opened.files .middleware
        (GenerateOptions.resolve ⟨⟨"/"⟩, ⟨output⟩⟩ "mw")).manifest = [] then _ else _) = _
      rw [hopened, hroot, if_neg hm]
    have hrouters : (tableRun output files).mounted.routers = [] := rfl
    rw [attempts, if_pos hopens, htable, entrypointAttempts_of_nil hrouters]
    rfl
  have hchain := chain_final hopens
  rw [hattempts] at hchain
  obtain ⟨-, hfinal⟩ := hchain
  refine ⟨((tableRun output files).middlewareOf "mw").table, ?_⟩
  have hafter : ((tableRun output files).tableAttempt "mw").after =
      filesAfter (deliver (tableRun output files).tablePath
        ((tableRun output files).middlewareOf "mw").table.render)
          (tableRun output files).opened.files := by
    unfold Attempt.after tableAttempt
    with_reducible rfl
  rw [hfinal, hafter, hopened]

/-- A run on a project that has its middleware in the output directory opens that directory. -/
theorem tableRun_opened (output : String) (files : FileSystem) {p : Path}
    (houtput : GenerateOptions.outputPath ⟨⟨"/"⟩, ⟨output⟩⟩ = p)
    (hanswer : answer (FileSystem.ensureDirectory p) files = .ok ())
    (hfiles : filesAfter (FileSystem.ensureDirectory p) files = files) :
    (tableRun output files).opens = true ∧ (tableRun output files).opened.files = files := by
  constructor
  · show (!isMixed ⟨⟨"/"⟩, ⟨output⟩⟩ && (answer (FileSystem.ensureDirectory
      (GenerateOptions.outputPath ⟨⟨"/"⟩, ⟨output⟩⟩)) files).toBool) = true
    have hmixed : isMixed ⟨⟨"/"⟩, ⟨output⟩⟩ = false := by
      have hroot : Path.isAbsolute ⟨"/"⟩ = true := by decide
      simp [isMixed, hroot]
    rw [hmixed, houtput, hanswer]
    rfl
  · rw [opened, (Run.ensureDirectory_answer _ _).2]
    show filesAfter (FileSystem.ensureDirectory (GenerateOptions.outputPath ⟨⟨"/"⟩, ⟨output⟩⟩))
      files = files
    rw [houtput]
    exact hfiles

theorem ownFiles_manifest :
    ∃ e ∈ (Manifest.scan ownFiles .middleware ⟨"/mw"⟩).manifest,
      e.sourcePath = ⟨"/mw/middleware.ts"⟩ := by
  rw [Manifest.scan_of_source ⟨"/mw/"⟩ ⟨"/mw/middleware.ts"⟩ "middleware.ts" _ (by decide)
    (by decide) (by cbv) (by cbv) (by cbv) (by cbv) (by decide) parse_middleware]
  decide

theorem linkedFiles_manifest :
    ∃ e ∈ (Manifest.scan linkedFiles .middleware ⟨"/mw"⟩).manifest,
      e.sourcePath = ⟨"/mw/auth.ts"⟩ := by
  rw [Manifest.scan_of_source ⟨"/mw/"⟩ ⟨"/mw/auth.ts"⟩ "auth.ts" _ (by decide)
    (by decide) (by cbv) (by cbv) (by cbv) (by cbv) (by decide) parse_middleware]
  decide

/-- The table is written in place of the source. -/
theorem ownFiles_deliver (text : String) :
    entry? (filesAfter (deliver ⟨"/mw/middleware.ts"⟩ text) ownFiles) ["mw", "middleware.ts"] =
      some (.file (.text text)) := by
  have hn : ownFiles.NoLinks := noLinks_of_entries (by simp [ownFiles])
  have hd : ownFiles.entry? ["mw"] = some .directory := by decide
  have hspells : FileSystem.Spells ⟨"/mw/middleware.ts"⟩ ["mw", "middleware.ts"] := by decide
  have htemporary : FileSystem.Spells ⟨"/mw/.middleware.ts..0.tmp"⟩
      ["mw", ".middleware.ts..0.tmp"] := by decide
  have hjoin : Path.join (Path.directory ⟨"/mw/middleware.ts"⟩)
      ⟨ownFiles.temporaryName "middleware.ts"⟩ = ⟨"/mw/.middleware.ts..0.tmp"⟩ := by decide
  have hdirectory : Path.directory ⟨"/mw/middleware.ts"⟩ = ⟨"/mw"⟩ := by decide
  have hmade : answer (FileSystem.ensureDirectory ⟨"/mw"⟩) ownFiles = .ok () := by cbv
  have hfiles : filesAfter (FileSystem.ensureDirectory ⟨"/mw"⟩) ownFiles = ownFiles := by cbv
  obtain ⟨-, hwritten⟩ := FileSystem.writeFile_of_ok
    (by decide : Path.fileName? ⟨"/mw/middleware.ts"⟩ = some "middleware.ts")
    (hspells.endsIn_folder hd) (by rw [hjoin]; exact htemporary.endsIn_folder hd) hn rfl
    (by decide) (by decide) text
  rw [deliver, Action.filesAfter_bind, hdirectory, hmade, hfiles, hwritten]
  exact entry_place_self _ (by simp) _

/-- The path of the temporary file leads to the source. -/
theorem linkedFiles_locate : linkedFiles.locate true ⟨"/out/.middleware.ts..0.tmp"⟩ =
    .ok (.found ["mw", "auth.ts"]) := by
  have hcheck : checkPath ⟨"/out/.middleware.ts..0.tmp"⟩ = .ok () := by decide
  have hsegments : Path.segments ⟨"/out/.middleware.ts..0.tmp"⟩ =
      ["", "out"] ++ [".middleware.ts..0.tmp"] := by decide
  have htarget : Text.split '/' "/mw/auth.ts" ++ [] = ["", "mw"] ++ ["auth.ts"] := by
    decide
  have hstart : ∀ here, startOf "/out/.middleware.ts..0.tmp" here = [] ∧
      startOf "/mw/auth.ts" here = [] := fun here =>
    ⟨if_pos (by decide), if_pos (by decide)⟩
  have hout : linkedFiles.Passes greatestLinks [] ["", "out"] greatestLinks ["out"] :=
    .nothing (by decide) (.directory (by decide) (by decide) (by decide) .here)
  have hmw : linkedFiles.Passes 39 [] ["", "mw"] 39 ["mw"] :=
    .nothing (by decide) (.directory (by decide) (by decide) (by decide) .here)
  have hlink : linkedFiles.entry? (["out"] ++ [".middleware.ts..0.tmp"]) =
      some (.link "/mw/auth.ts") := by decide
  rw [locate, hcheck, hsegments, (hstart _).1]
  show linkedFiles.walk true greatestLinks [] _ = _
  rw [hout.walk_append (by simp), show greatestLinks = 39 + 1 from rfl,
    walk_link (by decide) (by decide) hlink (by simp), (hstart _).2, htarget,
    hmw.walk_append (by simp)]
  cbv

/-- The temporary file is written where the source is. -/
theorem linkedFiles_deliver (text : String) :
    entry? (filesAfter (deliver ⟨"/out/middleware.ts"⟩ text) linkedFiles) ["mw", "auth.ts"] =
      some (.file (.text text)) := by
  have hdirectory : Path.directory ⟨"/out/middleware.ts"⟩ = ⟨"/out"⟩ := by decide
  have hmade : answer (FileSystem.ensureDirectory ⟨"/out"⟩) linkedFiles = .ok () := by cbv
  have hfiles : filesAfter (FileSystem.ensureDirectory ⟨"/out"⟩) linkedFiles = linkedFiles := by cbv
  have hjoin : Path.join (Path.directory ⟨"/out/middleware.ts"⟩)
      ⟨linkedFiles.temporaryName "middleware.ts"⟩ = ⟨"/out/.middleware.ts..0.tmp"⟩ := by
    decide
  have hsource : linkedFiles.ending ⟨"/out/.middleware.ts..0.tmp"⟩ =
      .ok ⟨["out"], some ".middleware.ts..0.tmp", false⟩ := by cbv
  have htarget : linkedFiles.ending ⟨"/out/middleware.ts"⟩ =
      .ok ⟨["out"], some "middleware.ts", false⟩ := by cbv
  have hcounted : SameFiles linkedFiles { linkedFiles with temporaries := 1 } := ⟨rfl, rfl, rfl⟩
  have hput := FileSystem.putFile_of_locate { linkedFiles with temporaries := 1 }
    ((hcounted.locate true _).trans linkedFiles_locate) rfl (by decide) (.text text)
  simp only [Place.location] at hput
  have hentry : linkedFiles.entry? ["mw", "auth.ts"] =
      some (.file (.text "export default function middleware() \x7b\x7d")) := by decide
  have hways : SameWays { linkedFiles with temporaries := 1 }
      ({ linkedFiles with temporaries := 1 }.place ["mw", "auth.ts"] (.file (.text text))) :=
    .of_place (fun he => by cases hentry.symm.trans he)
      (fun target he => by cases hentry.symm.trans he) (.text text)
  obtain ⟨hmove, hmoved⟩ := FileSystem.moveFile_of_ending _
    (hways.ending ((hcounted.ending _).trans hsource) rfl)
    (hways.ending ((hcounted.ending _).trans htarget) rfl) rfl (e := .link "/mw/auth.ts")
    (by rw [entry_place_of_ne _ (by decide)]; decide)
    (by rw [entry_place_of_ne _ (by decide)]; decide)
  obtain ⟨-, hwritten⟩ := FileSystem.writeFile_of_steps linkedFiles
    (by decide : Path.fileName? ⟨"/out/middleware.ts"⟩ = some "middleware.ts") hjoin hput
    hmove
  rw [deliver, Action.filesAfter_bind, hdirectory, hmade, hfiles]
  dsimp only
  rw [hwritten, hmoved, entry_place_of_ne _ (by decide), entry_remove_of_ne _ (by decide)]
  exact entry_place_self _ (by simp) _

/-- A run can write the table of its middleware in place of a source, and through a link that
has the name of its temporary file. -/
theorem uses_taken_sample :
    (ownFiles.Grounded ∧
      (tableRun "mw" ownFiles).Uses (tableRun "mw" ownFiles).opened.files
        ⟨"/mw/middleware.ts"⟩ ∧
      ownFiles.entry? ["mw", "middleware.ts"] =
        some (.file (.text "export default function middleware() \x7b\x7d")) ∧
      (tableRun "mw" ownFiles).final.files.entry? ["mw", "middleware.ts"] ≠
        some (.file (.text "export default function middleware() \x7b\x7d"))) ∧
    (linkedFiles.Grounded ∧
      (tableRun "out" linkedFiles).Uses (tableRun "out" linkedFiles).opened.files
        ⟨"/mw/auth.ts"⟩ ∧
      linkedFiles.entry? ["mw", "auth.ts"] =
        some (.file (.text "export default function middleware() \x7b\x7d")) ∧
      (tableRun "out" linkedFiles).final.files.entry? ["mw", "auth.ts"] ≠
        some (.file (.text "export default function middleware() \x7b\x7d"))) := by
  have hroot : ∀ output, GenerateOptions.resolve ⟨⟨"/"⟩, ⟨output⟩⟩ "mw" = ⟨"/mw"⟩ := fun _ => by
    show Path.join ⟨"/"⟩ ⟨"mw"⟩ = ⟨"/mw"⟩
    decide +kernel
  constructor
  · obtain ⟨hopens, hopened⟩ := tableRun_opened "mw" ownFiles
      (by decide +kernel : _ = ⟨"/mw"⟩) (by cbv) (by cbv)
    obtain ⟨e, he, hpath⟩ := ownFiles_manifest
    obtain ⟨t, hfinal⟩ := tableRun_final hopens hopened (List.ne_nil_of_mem he)
    refine ⟨(by decide +kernel : ownFiles.IsTree).toGrounded, ?_, by decide, ?_⟩
    · rw [← hpath]
      exact .middleware "mw" e hopens rfl (by rw [hopened]; exact (hroot "mw") ▸ he)
    · rw [hfinal, show (tableRun "mw" ownFiles).tablePath = ⟨"/mw/middleware.ts"⟩ by decide +kernel,
        ownFiles_deliver]
      simpa using render_ne t
  · obtain ⟨hopens, hopened⟩ := tableRun_opened "out" linkedFiles
      (by decide +kernel : _ = ⟨"/out"⟩) (by cbv) (by cbv)
    obtain ⟨e, he, hpath⟩ := linkedFiles_manifest
    obtain ⟨t, hfinal⟩ := tableRun_final hopens hopened (List.ne_nil_of_mem he)
    refine ⟨(by decide +kernel : linkedFiles.IsTree).toGrounded, ?_, by decide, ?_⟩
    · rw [← hpath]
      exact .middleware "mw" e hopens rfl (by rw [hopened]; exact (hroot "out") ▸ he)
    · rw [hfinal, show (tableRun "out" linkedFiles).tablePath = ⟨"/out/middleware.ts"⟩ by
        decide +kernel, linkedFiles_deliver]
      simpa using render_ne t

end Course

end Server

end FileRoutes
