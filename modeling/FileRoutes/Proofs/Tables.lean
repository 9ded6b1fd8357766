import FileRoutes.Proofs.Accounts
import FileRoutes.Proofs.Bindings
import FileRoutes.Proofs.Completion
import FileRoutes.Proofs.Findings
import Mathlib

/-!
# The table of a folder

Files in different directories, or with different extensions, can have one stem between them. The
table of a folder has a key for every stem of a file that exports middleware, and the first of the
files with that stem is imported for it. Each of the other files is left out with a warning, so
that the keys and the warnings together are as many as the files.

## The model

* `Manifest.qualifying` — the files of a folder that export the function of a role, in order.
* `Middleware.TellsOfRepeat` — a warning about a stem that is not new.
* `Middleware.IsTableOf` — what the table of some files looks like.

## What is proved

* `Manifest.map_sourcePath_scan` — the manifest of a folder has an entry for each of these files.
* `Middleware.perm_splitNew`, `Middleware.first_of_mem_splitNew` — every entry is kept or left out,
  and the first of each stem is kept.
* `Middleware.isTableOf_of_succeeded` — the table that is written when the middleware of a folder is
  collected.
-/

namespace FileRoutes

/-! ### Files that qualify -/

namespace Manifest

/-- How the file at a path exports the function of a role, if it is a source that does. -/
def styleAt? (fs : FileSystem) (role : Role) (p : Path) : Option Script.ExportStyle := do
  let language ← Script.Language.ofPath? p
  let text ← (fs.readText p).toOption
  let m ← language.parse? text
  m.functionStyle? role.exportName

/-- The files below a folder that export the function of a role, in the order of the visits. -/
def qualifying (fs : FileSystem) (role : Role) (root : Path) : List Path :=
  (((visits fs root).filterMap Visit.file?).map root.join).filter
    fun p => (styleAt? fs role p).isSome

variable {fs : FileSystem} {role : Role} {root : Path}

/-- A file is an entry where it exports the function. -/
theorem isSome_entry_judgeFile (relative : Path) :
    (Verdict.entry? (judgeFile fs role root relative)).isSome =
      (styleAt? fs role (root.join relative)).isSome := by
  unfold judgeFile styleAt?
  dsimp only
  cases Script.Language.ofPath? (root.join relative) with
  | none => rfl
  | some language =>
    cases fs.readText (root.join relative) with
    | error e => rfl
    | ok text =>
      simp only [inspectSource, Except.toOption, bind, Option.bind]
      cases language.parse? text with
      | none => rfl
      | some m =>
        simp only [inspectModule]
        cases m.functionStyle? role.exportName with
        | none => rfl
        | some style =>
          dsimp only
          cases Settings.ofConfig text m.config? <;> rfl

/-- The manifest of a folder has an entry for each file that qualifies, in order. -/
theorem map_sourcePath_scan (h : fs.holds root = true) :
    (scan fs role root).manifest.map Entry.sourcePath = qualifying fs role root := by
  rw [scan_of_holds h, manifest_judged, map_withIdentifiers (fun _ _ => rfl), qualifying,
    List.filter_map]
  have hstyle : ((fun p => (styleAt? fs role p).isSome) ∘ root.join) =
      fun relative => (Verdict.entry? (judgeFile fs role root relative)).isSome :=
    funext fun relative => (isSome_entry_judgeFile relative).symm
  rw [hstyle]
  apply map_sourcePath_filterMap
  intro relative _ e he
  exact sourcePath_judgeFile he

theorem exists_fileName_of_styleAt {p : Path} (h : (styleAt? fs role p).isSome) :
    ∃ name, p.fileName? = some name := by
  cases hf : p.fileName? with
  | some name => exact ⟨name, rfl⟩
  | none =>
    have hlanguage : Script.Language.ofPath? p = none := by
      rw [Script.Language.ofPath?, Path.extension?, hf]
      rfl
    rw [styleAt?, hlanguage] at h
    cases h

/-- The stem of an entry is that of its file. -/
theorem stem_of_mem_scan {e : Entry} (h : e ∈ (scan fs role root).manifest) :
    e.sourcePath.stem? = some e.stem := by
  obtain ⟨relative, e₀, warning, -, hjudge, he⟩ := judgeFile_of_mem_scan h
  have hstyle : (styleAt? fs role (root.join relative)).isSome := by
    rw [← isSome_entry_judgeFile, hjudge]
    rfl
  obtain ⟨name, hname⟩ := exists_fileName_of_styleAt hstyle
  obtain ⟨style, settings, rfl, -⟩ := judgeFile_entry hjudge
  rw [he]
  simp only [entryOf, Entry.stem, Path.stem?, hname, Option.map_some, Option.getD_some]

end Manifest

/-! ### Stems that are there before -/

namespace Middleware

/-- Every entry is kept or left out. -/
theorem perm_splitNew (seen : List String) (m : Manifest) :
    ((splitNew seen m).1 ++ (splitNew seen m).2).Perm m := by
  fun_induction splitNew seen m with
  | case1 => exact .refl _
  | case2 seen e rest hold new old hsplit ih =>
    rw [hsplit] at ih
    apply List.perm_middle.trans
    exact ih.cons e
  | case3 seen e rest hnew new old hsplit ih =>
    rw [hsplit] at ih
    exact ih.cons e

/-- An entry that is kept is the first with its stem. -/
theorem first_of_mem_splitNew {seen : List String} {m : Manifest} {e : Manifest.Entry}
    (h : e ∈ (splitNew seen m).1) :
    ∃ before after, m = before ++ e :: after ∧ e.stem ∉ seen ∧
      ∀ d ∈ before, d.stem ≠ e.stem := by
  induction m generalizing seen with
  | nil => simp [splitNew] at h
  | cons d rest ih =>
    rw [splitNew_cons] at h
    -- `d` stands before an entry of the rest, whose stem differs from that of `d` in both cases.
    have later {seen' : List String} (hd : d.stem ∈ seen') (hseen : seen ⊆ seen')
        (he : e ∈ (splitNew seen' rest).1) : ∃ before after, d :: rest = before ++ e :: after ∧
          e.stem ∉ seen ∧ ∀ d ∈ before, d.stem ≠ e.stem := by
      obtain ⟨before, after, hm, hnot, hbefore⟩ := ih he
      refine ⟨d :: before, after, by rw [hm, List.cons_append], fun hs => hnot (hseen hs), ?_⟩
      intro c hc
      rcases List.mem_cons.1 hc with rfl | hc
      · intro heq
        exact hnot (heq ▸ hd)
      · exact hbefore c hc
    by_cases hd : d.stem ∈ seen
    · rw [if_pos hd] at h
      exact later hd (List.Subset.refl _) h
    · rw [if_neg hd] at h
      rcases List.mem_cons.1 h with rfl | h
      · exact ⟨[], rest, rfl, hd, by simp⟩
      · exact later List.mem_cons_self (List.subset_cons_self _ _) h

/-- The entries that are kept have different stems. -/
theorem nodup_stem_splitNew (seen : List String) (m : Manifest) :
    ((splitNew seen m).1.map Manifest.Entry.stem).Nodup := by
  induction m generalizing seen with
  | nil => exact .nil
  | cons e rest ih =>
    rw [splitNew_cons]
    split
    · exact ih seen
    · rw [List.map_cons, List.nodup_cons, mem_stem_splitNew]
      refine ⟨?_, ih _⟩
      rintro ⟨hnot, -⟩
      exact hnot List.mem_cons_self

/-! ### Tables -/

/-- What the table of some files looks like, in a directory. -/
structure IsTableOf (directory : Path) (files : List Path) (t : Emit.MiddlewareTable) : Prop where
  /-- No key is there twice. -/
  distinct : (t.entries.map Emit.TableEntry.name).Nodup
  /-- The keys are the stems of the files. -/
  keys : ∀ name, name ∈ t.entries.map Emit.TableEntry.name ↔ ∃ p ∈ files, p.stem? = some name
  /-- A key stands for what is imported from the first file with that stem. -/
  first : ∀ entry ∈ t.entries, ∃ before p after, files = before ++ p :: after ∧
    p.stem? = some entry.name ∧ (∀ q ∈ before, q.stem? ≠ some entry.name) ∧
    BoundTo directory t.imports entry.identifier p
  /-- Every import is used by exactly one entry. -/
  used : ∀ i ∈ t.imports, ∃ entry,
    t.entries.filter (fun e => e.identifier = i.identifier) = [entry]

section table

variable {fs : FileSystem} {c : Collection}

theorem map_name_tableOf : (tableOf fs c).entries.map Emit.TableEntry.name =
    (keptOf fs c).map Manifest.Entry.stem := by
  rw [tableOf_entries, List.map_map]
  rfl

/-- The keys of a table are the stems of the manifest. -/
theorem mem_map_name_tableOf {name : String} :
    name ∈ (tableOf fs c).entries.map Emit.TableEntry.name ↔
      ∃ e ∈ (Manifest.scan fs .middleware c.folder).manifest, e.stem = name := by
  rw [map_name_tableOf, keptOf, mem_stem_splitNew, List.mem_map]
  exact and_iff_right List.not_mem_nil

/-- A key stands for the first entry of the manifest that has it as its stem. -/
theorem first_of_mem_tableOf {entry : Emit.TableEntry} (h : entry ∈ (tableOf fs c).entries) :
    ∃ before e after,
      (Manifest.scan fs .middleware c.folder).manifest = before ++ e :: after ∧
      e.stem = entry.name ∧ (∀ d ∈ before, d.stem ≠ entry.name) ∧
      BoundTo c.modulePath.directory (tableOf fs c).imports entry.identifier e.sourcePath := by
  rw [tableOf_entries] at h
  obtain ⟨e, he, rfl⟩ := List.mem_map.1 h
  obtain ⟨before, after, hm, -, hbefore⟩ := first_of_mem_splitNew he
  refine ⟨before, e, after, hm, rfl, hbefore,
    Collection.importIn c.modulePath.directory (.ofEntry e), ?_, rfl⟩
  rw [tableOf_imports]
  exact filter_imports (fun _ => rfl) (List.nodup_cons.1 (nodup_kept fs c)).2 he

/-- An import is there for one entry of the table. -/
theorem used_of_mem_tableOf {i : Emit.Import} (h : i ∈ (tableOf fs c).imports) :
    ∃ entry, (tableOf fs c).entries.filter (fun e => e.identifier = i.identifier) = [entry] := by
  rw [tableOf_imports] at h
  obtain ⟨e, he, rfl⟩ := List.mem_map.1 h
  have hkeys : ((tableOf fs c).entries.map Emit.TableEntry.identifier).Nodup := by
    rw [tableOf_entries, List.map_map]
    exact (List.nodup_cons.1 (nodup_kept fs c)).2
  have hentry : ⟨e.stem, e.identifier⟩ ∈ (tableOf fs c).entries := by
    rw [tableOf_entries]
    exact List.mem_map_of_mem he
  exact ⟨⟨e.stem, e.identifier⟩, filter_key hkeys hentry⟩

/-- The table made of the middleware in a folder is a table of the files that qualify. -/
theorem isTableOf_tableOf (h : fs.holds c.folder = true) :
    IsTableOf c.modulePath.directory (Manifest.qualifying fs .middleware c.folder)
      (tableOf fs c) where
  distinct := by
    rw [map_name_tableOf]
    exact nodup_stem_splitNew _ _
  keys name := by
    rw [mem_map_name_tableOf, ← Manifest.map_sourcePath_scan h]
    constructor
    · rintro ⟨e, he, rfl⟩
      exact ⟨e.sourcePath, List.mem_map_of_mem he, Manifest.stem_of_mem_scan he⟩
    · rintro ⟨p, hp, hname⟩
      obtain ⟨e, he, rfl⟩ := List.mem_map.1 hp
      exact ⟨e, he, Option.some.inj ((Manifest.stem_of_mem_scan he).symm.trans hname)⟩
  first entry hentry := by
    obtain ⟨before, e, after, hm, hstem, hbefore, hbound⟩ := first_of_mem_tableOf hentry
    have hscan : ∀ d ∈ before ++ e :: after, d.sourcePath.stem? = some d.stem := by
      intro d hd
      rw [← hm] at hd
      exact Manifest.stem_of_mem_scan hd
    refine ⟨before.map Manifest.Entry.sourcePath, e.sourcePath,
      after.map Manifest.Entry.sourcePath, ?_, ?_, ?_, hbound⟩
    · rw [← Manifest.map_sourcePath_scan h, hm, List.map_append, List.map_cons]
    · rw [hscan e (List.mem_append_right _ List.mem_cons_self), hstem]
    · intro q hq heq
      obtain ⟨d, hd, rfl⟩ := List.mem_map.1 hq
      rw [hscan d (List.mem_append_left _ hd)] at heq
      exact hbefore d hd (Option.some.inj heq)
  used _ hi := used_of_mem_tableOf hi

end table

/-! ### What is reported -/

/-- The diagnostic warns of a stem that is not new. -/
structure TellsOfRepeat (d : Diagnostic) : Prop where
  /-- It is a warning. -/
  severity : d.severity = .warning
  /-- It begins with the words of such a warning. -/
  message : "duplicate middleware name '".toList <+: d.message.toList

instance (d : Diagnostic) : Decidable (TellsOfRepeat d) :=
  decidable_of_iff (d.severity = .warning ∧
    "duplicate middleware name '".toList <+: d.message.toList)
    ⟨fun h => ⟨h.1, h.2⟩, fun h => ⟨h.severity, h.message⟩⟩

theorem tellsOfRepeat_duplicateMessage (e : Manifest.Entry) :
    TellsOfRepeat (.warning (duplicateMessage e)) :=
  ⟨rfl, (Run.prefix_append_three _ _ _ _).trans (Run.prefix_append _ _)⟩

/-- What a scan warns of is a config. -/
theorem not_tellsOfRepeat_scan {fs : FileSystem} {role : Role} {root : Path} {d : Diagnostic}
    (h : d ∈ (Manifest.scan fs role root).diagnostics) : ¬ TellsOfRepeat d := by
  intro hrepeat
  cases Manifest.says_of_mem_scan h with
  | unreadable p e => cases hrepeat.severity
  | unparsable p => cases hrepeat.severity
  | unused p cause =>
    have hconfig : "failed to evaluate config in ".toList <+:
        (Diagnostic.warning (Manifest.unusedSettings p cause)).message.toList :=
      Run.prefix_append_three _ _ _ _
    have hagree := Run.all_zip_of_beginnings hrepeat.message hconfig
    exact absurd hagree (by decide)

/-- What is reported about the files of a folder and the table made of them. -/
def reports (c : Collection) (found : Manifest.Findings) : List Diagnostic :=
  found.diagnostics ++
    (splitNew [] found.manifest).2.map (fun e => Diagnostic.warning (duplicateMessage e)) ++
    [Diagnostic.info ("middleware aggregation created at " ++ c.modulePath.text)]

/-- Of what is reported, the warnings about stems that are not new are those about the entries that
are left out. -/
theorem filter_tellsOfRepeat (c : Collection) (fs : FileSystem) (role : Role) (root : Path) :
    let found := Manifest.scan fs role root
    (reports c found).filter (fun d => TellsOfRepeat d) =
      (splitNew [] found.manifest).2.map fun e => Diagnostic.warning (duplicateMessage e) := by
  intro found
  have hscan : ∀ d ∈ found.diagnostics, ¬ decide (TellsOfRepeat d) = true := by
    intro d hd
    rw [decide_eq_true_iff]
    exact not_tellsOfRepeat_scan hd
  have hleft : ∀ d ∈ (splitNew [] found.manifest).2.map
      (fun e => Diagnostic.warning (duplicateMessage e)), decide (TellsOfRepeat d) = true := by
    intro d hd
    obtain ⟨e, -, rfl⟩ := List.mem_map.1 hd
    exact decide_eq_true (tellsOfRepeat_duplicateMessage e)
  have hinfo : ∀ d ∈ [Diagnostic.info ("middleware aggregation created at " ++ c.modulePath.text)],
      ¬ decide (TellsOfRepeat d) = true := by
    intro d hd hrepeat
    obtain rfl := List.mem_singleton.1 hd
    cases (of_decide_eq_true hrepeat).severity
  rw [reports, List.filter_append, List.filter_append, List.filter_eq_nil_iff.2 hscan,
    List.filter_eq_self.2 hleft, List.filter_eq_nil_iff.2 hinfo, List.nil_append, List.append_nil]

/-! ### Collecting -/

/-- Where a folder has a manifest, there is something. -/
theorem holds_of_manifest_ne {fs : FileSystem} {role : Role} {root : Path}
    (h : (Manifest.scan fs role root).manifest ≠ []) : fs.holds root = true := by
  by_contra hholds
  apply h
  rw [Manifest.scan, if_neg hholds]

/-- Collecting the middleware of a folder writes the table made of it, and reports on it. -/
theorem collect_of_succeeded {c : Collection} {s : Run.State}
    (h : (c.collect.result s).1 = .succeeded) :
    s.files.holds c.folder = true ∧ (c.collect.result s).2.table = tableOf s.files c ∧
      (c.collect.after s).written = s.written ++ [(c.modulePath, .table (tableOf s.files c))] ∧
      (c.collect.after s).log =
        s.log ++ reports c (Manifest.scan s.files .middleware c.folder) := by
  by_cases hm : (Manifest.scan s.files .middleware c.folder).manifest = []
  · rw [(Server.Course.collect_of_nil c hm).1] at h
    cases h
  obtain ⟨hresult, hafter⟩ := Server.Course.collect_eq_writeModule c hm
  rw [hresult] at h
  obtain ⟨hwritten, hlog⟩ := Run.writeModule_of_succeeded h
  refine ⟨holds_of_manifest_ne hm, by rw [hresult]; rfl, by rw [hafter, hwritten]; rfl, ?_⟩
  rw [hafter, hlog, reports]
  simp only [List.append_assoc]
  rfl

/-- **The table of a folder.** Where the middleware of a folder is collected, one module is written,
and it is a table of the files of the folder that export middleware: its keys are their stems, each
of them once, and stand for what is imported from the first file with that stem. The manifest has an
entry for each of these files, and every one of them is in the table or is warned of. -/
theorem isTableOf_of_succeeded (c : Collection) {s : Run.State}
    (h : (c.collect.result s).1 = .succeeded) :
    let files := Manifest.qualifying s.files .middleware c.folder
    let manifest := (Manifest.scan s.files .middleware c.folder).manifest
    let table := (c.collect.result s).2.table
    manifest.map Manifest.Entry.sourcePath = files ∧
      IsTableOf c.modulePath.directory files table ∧
      (c.collect.after s).written = s.written ++ [(c.modulePath, .table table)] ∧
      ∃ told, (c.collect.after s).log = s.log ++ told ∧
        (told.filter fun d => TellsOfRepeat d).length + table.entries.length =
          manifest.length := by
  obtain ⟨hholds, htable, hwritten, hlog⟩ := collect_of_succeeded h
  intro files manifest table
  have hcount : (splitNew [] manifest).1.length + (splitNew [] manifest).2.length =
      manifest.length := by
    rw [← List.length_append]
    exact (perm_splitNew [] manifest).length_eq
  have hentries : table.entries.length = (splitNew [] manifest).1.length := by
    rw [show table = tableOf s.files c from htable, tableOf_entries, List.length_map, keptOf]
  have htold := congrArg List.length (filter_tellsOfRepeat c s.files .middleware c.folder)
  rw [List.length_map] at htold
  refine ⟨Manifest.map_sourcePath_scan hholds, ?_, ?_, _, hlog, ?_⟩
  · rw [show table = tableOf s.files c from htable]
    exact isTableOf_tableOf hholds
  · rw [hwritten, show table = tableOf s.files c from htable]
  · rw [htold, hentries, Nat.add_comm]
    exact hcount

/-! ### A stem that is there twice -/

/-- The files of a project with two files of one stem. -/
def repeatedFiles : FileSystem where
  entries := [(["mw"], .directory),
    (["mw", "auth.mts"], .file (.text "export default function middleware() \x7b\x7d")),
    (["mw", "auth.ts"], .file (.text "export default function middleware() \x7b\x7d")),
    (["out"], .directory)]

/-- The middleware of the project. -/
def repeatedCollection : Collection := ⟨⟨"/mw"⟩, ⟨"/out/middleware.ts"⟩, []⟩

theorem repeatedFiles_manifest :
    (Manifest.scan repeatedFiles .middleware ⟨"/mw"⟩).manifest.map Manifest.Entry.stem =
      ["auth", "auth"] := by
  rw [Manifest.scan_of_sources ⟨"/mw/"⟩ ["auth.mts", "auth.ts"]
    [⟨"/mw/auth.mts"⟩, ⟨"/mw/auth.ts"⟩] _ (by decide) (by decide) (by cbv) (by cbv)
    ?_ Server.Course.parse_middleware]
  · decide
  · rw [List.forall_mem_cons, List.forall_mem_singleton]
    exact ⟨⟨by cbv, by cbv, by decide⟩, by cbv, by cbv, by decide⟩

/-- Any table of the project can be written. -/
theorem writes_repeatedFiles (t : Emit.MiddlewareTable) {s : Run.State}
    (hs : s.files = repeatedFiles) :
    (Run.writeModule ⟨"/out/middleware.ts"⟩ (.table t)).result s = .succeeded := by
  have hn : repeatedFiles.NoLinks := FileSystem.noLinks_of_entries (by simp [repeatedFiles])
  have hd : repeatedFiles.entry? ["out"] = some .directory := by decide
  have hspells : FileSystem.Spells ⟨"/out/middleware.ts"⟩ ["out", "middleware.ts"] := by decide
  have htemporary : FileSystem.Spells ⟨"/out/.middleware.ts..0.tmp"⟩
      ["out", ".middleware.ts..0.tmp"] := by decide
  have hjoin : Path.join (Path.directory ⟨"/out/middleware.ts"⟩)
      ⟨repeatedFiles.temporaryName "middleware.ts"⟩ = ⟨"/out/.middleware.ts..0.tmp"⟩ := by
    decide
  have hdirectory : Path.directory ⟨"/out/middleware.ts"⟩ = ⟨"/out"⟩ := by decide
  obtain ⟨hwrite, -⟩ := FileSystem.writeFile_of_free
    (by decide : Path.fileName? ⟨"/out/middleware.ts"⟩ = some "middleware.ts")
    (hspells.endsIn_folder hd) (by rw [hjoin]; exact htemporary.endsIn_folder hd) hn rfl
    (by decide) (by decide) t.render
  refine (Run.writeModule_of_ok rfl ?_ (by rw [hs]; exact hwrite)).1
  rw [hs, hdirectory]
  exact ⟨by cbv, by cbv⟩

/-- The table of the project has one of the two files. -/
theorem isTableOf_repeated :
    let s : Run.State := { files := repeatedFiles }
    (repeatedCollection.collect.result s).1 = .succeeded ∧
      let files := Manifest.qualifying repeatedFiles .middleware ⟨"/mw"⟩
      let manifest := (Manifest.scan repeatedFiles .middleware ⟨"/mw"⟩).manifest
      let table := (repeatedCollection.collect.result s).2.table
      manifest.map Manifest.Entry.sourcePath = files ∧
        IsTableOf (Path.directory ⟨"/out/middleware.ts"⟩) files table ∧
        (repeatedCollection.collect.after s).written = [(⟨"/out/middleware.ts"⟩, .table table)] ∧
        ∃ told, (repeatedCollection.collect.after s).log = told ∧
          (told.filter fun d => TellsOfRepeat d).length + table.entries.length =
            manifest.length := by
  intro s
  have hm : (Manifest.scan repeatedFiles .middleware ⟨"/mw"⟩).manifest ≠ [] := by
    intro hempty
    have hstems := repeatedFiles_manifest
    rw [hempty] at hstems
    cases hstems
  obtain ⟨s', hs, -, hresult, -⟩ := Server.Course.collect_of_ne repeatedCollection (s := s) hm
  have hsucceeded : (repeatedCollection.collect.result s).1 = .succeeded := by
    rw [hresult]
    exact writes_repeatedFiles _ hs
  exact ⟨hsucceeded, isTableOf_of_succeeded repeatedCollection hsucceeded⟩

end Middleware

end FileRoutes
