import FileRoutes.Manifest.Scan

/-!
# What a scan finds

Every entry of a manifest is the entry of one file below the scanned folder, and only its
identifier depends on the other files: the identifiers of a manifest are free names, one for
each entry, and everything else is as the file says.

## What is proved

* `judgeFile_entry`, `judgeFile_fault` — what a file can come to.
* `mem_scan` — an entry has the path of its file, seen through the scanned folder.
* `map_identifier_withIdentifiers` — the identifiers of a manifest, in order.
* `says_of_mem_scan` — what is said in a scan.
-/

namespace FileRoutes.Manifest

/-! ### Files -/

section files

variable {fs : FileSystem} {role : Role} {root relative path : Path} {source : String}

/-- A module that is an entry has the settings it asks for, or the defaults and a warning. -/
theorem inspectModule_entry {m : Script.Module} {e : Entry} {warning : Option String}
    (h : inspectModule role path relative source m = .entry e warning) :
    ∃ style s, e = entryOf path relative style s ∧
      (warning = none ∨ s = {} ∧ ∃ cause, warning = some (unusedSettings path cause)) := by
  cases hf : m.functionStyle? role.exportName with
  | none => simp [inspectModule, hf] at h
  | some style =>
    cases hs : Settings.ofConfig source m.config? with
    | ok s =>
      simp only [inspectModule, hf, hs, Verdict.entry.injEq] at h
      exact ⟨style, s, h.1.symm, .inl h.2.symm⟩
    | error cause =>
      simp only [inspectModule, hf, hs, Verdict.entry.injEq] at h
      exact ⟨style, {}, h.1.symm, .inr ⟨rfl, cause, h.2.symm⟩⟩

theorem inspectModule_ne_fault (m : Script.Module) (message : String) :
    inspectModule role path relative source m ≠ .fault message := by
  cases hf : m.functionStyle? role.exportName with
  | none => simp [inspectModule, hf]
  | some style => cases hs : Settings.ofConfig source m.config? <;> simp [inspectModule, hf, hs]

/-- A file that is an entry is read at its path, seen through the folder. -/
theorem judgeFile_entry {e : Entry} {warning : Option String}
    (h : judgeFile fs role root relative = .entry e warning) :
    ∃ style s, e = entryOf (root.join relative) relative style s ∧
      (warning = none ∨
        s = {} ∧ ∃ cause, warning = some (unusedSettings (root.join relative) cause)) := by
  unfold judgeFile at h
  dsimp only at h
  split at h
  · cases h
  · split at h
    · cases h
    · unfold inspectSource at h
      split at h
      · cases h
      · exact inspectModule_entry h

/-- A file that cannot be judged cannot be read, or is no module of its language. -/
theorem judgeFile_fault {message : String} (h : judgeFile fs role root relative = .fault message) :
    (∃ e, fs.readText (root.join relative) = .error e ∧
      message = unreadableMessage (root.join relative) e) ∨
      message = "Failed to parse " ++ (root.join relative).text ++ ": " ++ Script.syntaxError := by
  unfold judgeFile at h
  dsimp only at h
  split at h
  · cases h
  · split at h
    · next e hread => exact .inl ⟨e, hread, (Verdict.fault.inj h).symm⟩
    · unfold inspectSource at h
      split at h
      · exact .inr (Verdict.fault.inj h).symm
      · exact absurd h (inspectModule_ne_fault _ message)

end files

/-! ### Identifiers -/

/-- The identifiers of a manifest are free names for those that its entries ask for. -/
theorem map_identifier_withIdentifiers (used : List String) (entries : List Entry) :
    (withIdentifiers used entries).map Entry.identifier =
      Identifier.freshAll used (entries.map Entry.identifier) := by
  have key : ∀ (l : List Entry) (names : List String), l.length = names.length →
      (List.zipWith (fun (e : Entry) s => { e with identifier := s }) l names).map
        Entry.identifier = names := by
    intro l
    induction l with
    | nil => intro names h; simp_all [eq_comm]
    | cons e l ih =>
      intro names h
      cases names with
      | nil => simp at h
      | cons s names => simp [ih names (by simpa using h)]
  exact key _ _ (by rw [Identifier.length_freshAll, List.length_map])

/-- What does not depend on the identifiers is the same in a manifest. -/
theorem map_withIdentifiers {α : Type} {g : Entry → α}
    (hg : ∀ (e : Entry) (s : String), g { e with identifier := s } = g e) (used : List String)
    (entries : List Entry) : (withIdentifiers used entries).map g = entries.map g := by
  have key : ∀ (l : List Entry) (names : List String), l.length = names.length →
      (List.zipWith (fun (e : Entry) s => { e with identifier := s }) l names).map g =
        l.map g := by
    intro l
    induction l with
    | nil => simp
    | cons e l ih =>
      intro names h
      cases names with
      | nil => simp at h
      | cons s names => simp [ih names (by simpa using h), hg]
  exact key _ _ (by rw [Identifier.length_freshAll, List.length_map])

/-- An entry of a manifest is the entry of a file under another identifier. -/
theorem mem_withIdentifiers {used : List String} {entries : List Entry} {e : Entry}
    (h : e ∈ withIdentifiers used entries) :
    ∃ e₀ ∈ entries, e = { e₀ with identifier := e.identifier } := by
  obtain ⟨i, hi, rfl⟩ := List.getElem_of_mem h
  have hlen : i < entries.length := by
    have := hi
    rw [withIdentifiers, List.length_zipWith] at this
    exact Nat.lt_of_lt_of_le this (Nat.min_le_left _ _)
  exact ⟨entries[i], List.getElem_mem hlen, by simp [withIdentifiers]⟩

/-! ### Scans -/

theorem scan_of_holds {fs : FileSystem} {root : Path} (h : fs.holds root = true) (role : Role) :
    scan fs role root = .ofJudged role (judged fs role root) := if_pos h

/-- The verdicts put back in order are those of the visits. -/
theorem mem_inOrder {judged : List (Verdict × Nat)} {v : Verdict} :
    v ∈ inOrder judged ↔ ∃ n, (v, n) ∈ judged := by
  simp [inOrder, List.mem_mergeSort]

theorem exists_visit_of_mem_judged {fs : FileSystem} {role : Role} {root : Path}
    {v : Verdict × Nat} (h : v ∈ judged fs role root) :
    ∃ visit ∈ visits fs root, judge fs role root visit = v.1 :=
  List.mem_map.1 (List.fst_mem_of_mem_zipIdx h)

/-- An entry among the verdicts is the verdict on a visited file. -/
theorem judgeFile_of_mem_judged {fs : FileSystem} {role : Role} {root : Path} {e : Entry}
    (h : e ∈ (inOrder (judged fs role root)).filterMap Verdict.entry?) :
    ∃ relative warning, Visit.file relative ∈ visits fs root ∧
      judgeFile fs role root relative = .entry e warning := by
  obtain ⟨v, hv, hentry⟩ := List.mem_filterMap.1 h
  obtain ⟨n, hn⟩ := mem_inOrder.1 hv
  obtain ⟨visit, hvisit, hjudge⟩ := exists_visit_of_mem_judged hn
  cases v with
  | passed => simp [Verdict.entry?] at hentry
  | fault message => simp [Verdict.entry?] at hentry
  | entry e₁ warning =>
    obtain rfl : e₁ = e := by simpa [Verdict.entry?] using hentry
    cases visit with
    | unreadable p e => cases hjudge
    | file relative => exact ⟨relative, warning, hvisit, hjudge⟩

/-- An entry among the verdicts is that of a visited file. -/
theorem entryOf_of_mem_judged {fs : FileSystem} {role : Role} {root : Path} {e : Entry}
    (h : e ∈ (inOrder (judged fs role root)).filterMap Verdict.entry?) :
    ∃ relative style s, Visit.file relative ∈ visits fs root ∧
      e = entryOf (root.join relative) relative style s := by
  obtain ⟨relative, warning, hvisit, hjudge⟩ := judgeFile_of_mem_judged h
  obtain ⟨style, s, rfl, -⟩ := judgeFile_entry hjudge
  exact ⟨relative, style, s, hvisit, rfl⟩

/-- An entry that a scan finds is the verdict on a visited file, under an identifier of the
manifest. -/
theorem judgeFile_of_mem_scan {fs : FileSystem} {role : Role} {root : Path} {e : Entry}
    (h : e ∈ (scan fs role root).manifest) :
    ∃ relative e₀ warning, Visit.file relative ∈ visits fs root ∧
      judgeFile fs role root relative = .entry e₀ warning ∧
      e = { e₀ with identifier := e.identifier } := by
  unfold scan at h
  split at h
  · obtain ⟨e₀, he₀, he⟩ := mem_withIdentifiers h
    obtain ⟨relative, warning, hvisit, hjudge⟩ := judgeFile_of_mem_judged he₀
    exact ⟨relative, e₀, warning, hvisit, hjudge, he⟩
  · simp at h

/-- An entry that a scan finds has the path of its file, seen through the scanned folder. -/
theorem mem_scan {fs : FileSystem} {role : Role} {root : Path} {e : Entry}
    (h : e ∈ (scan fs role root).manifest) :
    ∃ relative style s, Visit.file relative ∈ visits fs root ∧
      e = { entryOf (root.join relative) relative style s with identifier := e.identifier } := by
  obtain ⟨relative, e₀, warning, hvisit, hjudge, he⟩ := judgeFile_of_mem_scan h
  obtain ⟨style, s, rfl, -⟩ := judgeFile_entry hjudge
  exact ⟨relative, style, s, hvisit, he⟩

/-- The source of an entry that a scan finds can be read. -/
theorem readText_of_mem_scan {fs : FileSystem} {role : Role} {root : Path} {e : Entry}
    (h : e ∈ (scan fs role root).manifest) : ∃ source, fs.readText e.sourcePath = .ok source := by
  obtain ⟨relative, e₀, warning, -, hjudge, he⟩ := judgeFile_of_mem_scan h
  have hread : ∃ source, fs.readText (root.join relative) = .ok source := by
    unfold judgeFile at hjudge
    dsimp only at hjudge
    split at hjudge
    · cases hjudge
    · split at hjudge
      · cases hjudge
      · next source hsource => exact ⟨source, hsource⟩
  obtain ⟨style, s, rfl, -⟩ := judgeFile_entry hjudge
  rw [he]
  exact hread

theorem sourcePath_of_mem_scan {fs : FileSystem} {role : Role} {root : Path} {e : Entry}
    (h : e ∈ (scan fs role root).manifest) : ∃ relative, e.sourcePath = root.join relative := by
  obtain ⟨relative, style, s, -, he⟩ := mem_scan h
  exact ⟨relative, by rw [he]; rfl⟩

/-! ### Diagnostics -/

/-- What is said about a visit: that something cannot be read, that a source is no module of its
language, or that a config is not used. -/
inductive Says : Diagnostic → Prop
  /-- Something cannot be read. -/
  | unreadable (p : Path) (e : FileSystem.Error) : Says (.error (unreadableMessage p e))
  /-- A source is no module of its language. -/
  | unparsable (p : Path) :
      Says (.error ("Failed to parse " ++ p.text ++ ": " ++ Script.syntaxError))
  /-- A config is not used. -/
  | unused (p : Path) (cause : String) : Says (.warning (unusedSettings p cause))

theorem says_of_judge {fs : FileSystem} {role : Role} {root : Path} {v : Visit} {d : Diagnostic}
    (h : (judge fs role root v).diagnostic? = some d) : Says d := by
  cases v with
  | unreadable p e =>
    obtain rfl : Diagnostic.error _ = d := Option.some.inj h
    exact .unreadable p e
  | file relative =>
    rw [judge] at h
    cases hj : judgeFile fs role root relative with
    | passed =>
      rw [hj] at h
      cases h
    | fault message =>
      rw [hj] at h
      obtain rfl : Diagnostic.error message = d := Option.some.inj h
      obtain ⟨e, -, rfl⟩ | rfl := judgeFile_fault hj
      · exact .unreadable _ e
      · exact .unparsable _
    | entry e warning =>
      rw [hj] at h
      obtain ⟨message, rfl, rfl⟩ := Option.map_eq_some_iff.1 h
      obtain ⟨_, _, -, hw | ⟨-, cause, hw⟩⟩ := judgeFile_entry hj
      · cases hw
      · obtain rfl := Option.some.inj hw
        exact .unused _ cause

/-- Nothing else is said in a scan. -/
theorem says_of_mem_scan {fs : FileSystem} {role : Role} {root : Path} {d : Diagnostic}
    (h : d ∈ (scan fs role root).diagnostics) : Says d := by
  unfold scan at h
  split at h
  · obtain ⟨v, hv, hd⟩ := List.mem_filterMap.1 h
    obtain ⟨visit, -, hj⟩ := exists_visit_of_mem_judged hv
    exact says_of_judge (hj ▸ hd)
  · cases h

/-! ### Folders of files -/

/-- In a folder that holds files only, these are visited by name. -/
theorem visits_of_files {fs : FileSystem} {root : Path} {names : List String}
    (h : fs.listNames (root.join ⟨""⟩) = .ok names)
    (hf : ∀ name ∈ names, fs.isDirectory (root.join (Path.child ⟨""⟩ name)) = .ok false) :
    visits fs root = names.map fun name => .file (Path.child ⟨""⟩ name) :=
  visitsBelow_of_files h hf 4095

/-- A folder that holds one file is scanned by judging that file. -/
theorem scan_of_file {fs : FileSystem} {role : Role} {root : Path} {name : String} {e : Entry}
    {warning : Option String} (hh : fs.holds root = true)
    (hnames : fs.listNames (root.join ⟨""⟩) = .ok [name])
    (hfile : fs.isDirectory (root.join (Path.child ⟨""⟩ name)) = .ok false)
    (hjudge : judgeFile fs role root (Path.child ⟨""⟩ name) = .entry e warning) :
    (scan fs role root).manifest = withIdentifiers role.ownNames [e] := by
  have hjudged : judged fs role root = [(.entry e warning, 0)] := by
    rw [judged, visits_of_files hnames (by simpa using hfile)]
    simp [judge, hjudge]
  rw [scan_of_holds hh, hjudged]
  simp [Findings.ofJudged, inOrder, Verdict.entry?]

/-- A source without settings that exports a function of the role is an entry. -/
theorem inspectSource_of_parse {role : Role} {language : Script.Language} {source : String}
    {style : Script.ExportStyle}
    (h : (language.parse? source).map (fun m => (m.functionStyle? role.exportName,
      m.config?.isNone)) = some (some style, true)) (path relative : Path) :
    inspectSource role path relative language source =
      .entry (entryOf path relative style {}) none := by
  obtain ⟨m, hm, hfound⟩ := Option.map_eq_some_iff.1 h
  obtain ⟨hstyle, hconfig⟩ := Prod.mk.inj hfound
  rw [Option.isNone_iff_eq_none] at hconfig
  simp only [inspectSource, hm, inspectModule, hstyle, hconfig, Settings.ofConfig]

/-- A file that holds such a source is an entry. -/
theorem judgeFile_of_source {fs : FileSystem} {role : Role} {root relative : Path}
    {style : Script.ExportStyle} {language : Script.Language} {source : String}
    (hread : fs.readText (root.join relative) = .ok source)
    (hlanguage : Script.Language.ofPath? (root.join relative) = some language)
    (hparse : (language.parse? source).map (fun m => (m.functionStyle? role.exportName,
      m.config?.isNone)) = some (some style, true)) :
    judgeFile fs role root relative =
      .entry (entryOf (root.join relative) relative style {}) none := by
  unfold judgeFile
  simp only [hlanguage, hread, inspectSource_of_parse hparse]

/-- A folder that holds one such source is scanned to its entry. -/
theorem scan_of_source {fs : FileSystem} {role : Role} {root : Path} {style : Script.ExportStyle}
    {language : Script.Language} (folder file : Path) (name source : String)
    (hfolder : root.join ⟨""⟩ = folder) (hjoin : root.join (Path.child ⟨""⟩ name) = file)
    (hh : fs.holds root = true) (hnames : fs.listNames folder = .ok [name])
    (hfile : fs.isDirectory file = .ok false) (hread : fs.readText file = .ok source)
    (hlanguage : Script.Language.ofPath? file = some language)
    (hparse : (language.parse? source).map (fun m => (m.functionStyle? role.exportName,
      m.config?.isNone)) = some (some style, true)) :
    (scan fs role root).manifest =
      withIdentifiers role.ownNames [entryOf file (Path.child ⟨""⟩ name) style {}] := by
  subst hfolder hjoin
  exact scan_of_file hh hnames hfile (judgeFile_of_source hread hlanguage hparse)

end FileRoutes.Manifest
