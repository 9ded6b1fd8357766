import FileRoutes.Proofs.Accounts
import FileRoutes.Proofs.Growth

/-!
# What a folder offers

A scan of a folder finds the files below it whose paths are not too long for the system, and a
directory that cannot be listed hides nothing else. So the manifest of a folder is made from a
list of files in order, whatever directories are there, and it stays the same as long as these
files do.

## The model

* `foundBelow` — the files below a folder whose paths are not too long, in order.
* `Offers` — a folder holds a file that is an entry.
* `LeadsDown` — a path leads to a location as soon as a directory is there.
* `Descends` — a path never goes up, or only where it can be followed.

## What is proved

* `filterMap_visitsBelow` — these files are the ones that are met.
* `manifest_scan` — the manifest of a folder is made from them.
* `manifest_ne_nil_iff` — it has an entry where the folder offers one.
* `manifest_kept` — it stays where directories are made and changes are made elsewhere.
* `Descends.leadsDown` — in a tree without links, a path that descends leads down.
-/

namespace FileRoutes.Manifest

open FileSystem (IsName IsTree NoLinksBelow Kept pathBound checkPath)
open FileRoutes.Path (ofNames)

/-! ### Paths that are too long -/

/-- The path of what is at a location below a folder is too long for the system. -/
def IsLong (root : Path) (rel : Location) : Prop :=
  pathBound ≤ (root.join (ofNames rel)).text.utf8ByteSize

instance (root : Path) (rel : Location) : Decidable (IsLong root rel) :=
  inferInstanceAs (Decidable (_ ≤ _))

/-- The length of a joined path grows with that of the second one. -/
theorem utf8ByteSize_join_le {q q' : Path} (hq : q.isAbsolute = false)
    (hq' : q'.isAbsolute = false) (h : q.text.utf8ByteSize ≤ q'.text.utf8ByteSize) (p : Path) :
    (p.join q).text.utf8ByteSize ≤ (p.join q').text.utf8ByteSize := by
  simp only [Path.join, hq, hq', Bool.false_eq_true, if_false]
  by_cases hp : p.text = ""
  · rw [if_pos hp, if_pos hp]
    exact h
  · rw [if_neg hp, if_neg hp]
    by_cases hl : p.text.toList.getLast? = some '/'
    · rw [if_pos hl, if_pos hl]
      simp only [String.utf8ByteSize_append]
      omega
    · rw [if_neg hl, if_neg hl]
      simp only [String.utf8ByteSize_append]
      omega

theorem utf8ByteSize_ofNames_le (rel below : Location) :
    (ofNames rel).text.utf8ByteSize ≤ (ofNames (rel ++ below)).text.utf8ByteSize := by
  by_cases hrel : rel = []
  · subst hrel
    exact Nat.zero_le _
  · induction below using List.reverseRecOn with
    | nil => rw [List.append_nil]
    | append_singleton init last ih =>
      rw [← List.append_assoc, Path.text_ofNames_concat (by simp [hrel]),
        String.utf8ByteSize_append, String.utf8ByteSize_append]
      omega

/-- Everything below a directory with a long path has a long path. -/
theorem IsLong.append {root : Path} {rel below : Location} (h : IsLong root rel)
    (hnames : ∀ s ∈ rel ++ below, IsName s) : IsLong root (rel ++ below) := by
  have hrel := Path.not_isAbsolute_ofNames fun s hs => hnames s (List.mem_append_left _ hs)
  exact Nat.le_trans h (utf8ByteSize_join_le hrel (Path.not_isAbsolute_ofNames hnames)
    (utf8ByteSize_ofNames_le rel below) root)

/-! ### The files that are found -/

/-- The files below a folder whose paths are not too long, in order. -/
def foundBelow (fs : FileSystem) (root : Path) (base : Location) (fuel : Nat) (rel : Location) :
    List Location :=
  (filesBelow fs base fuel rel).filter fun file => ¬ IsLong root file

/-- The file that is visited. -/
def Visit.file? : Visit → Option Path
  | .file relative => some relative
  | .unreadable _ _ => none

/-- An entry has the path of its file, seen through the scanned folder. -/
theorem sourcePath_judgeFile {fs : FileSystem} {role : Role} {root relative : Path} {e : Entry}
    (h : Verdict.entry? (judgeFile fs role root relative) = some e) :
    e.sourcePath = root.join relative := by
  cases hj : judgeFile fs role root relative with
  | passed => simp [hj, Verdict.entry?] at h
  | fault message => simp [hj, Verdict.entry?] at h
  | entry e₁ warning =>
    obtain rfl : e₁ = e := by simpa [hj, Verdict.entry?] using h
    obtain ⟨style, settings, rfl, -⟩ := judgeFile_entry hj
    rfl

/-- A manifest is made from the files that are visited. -/
theorem manifest_judged (fs : FileSystem) (role : Role) (root : Path) :
    (Findings.ofJudged role (judged fs role root)).manifest = withIdentifiers role.ownNames
      (((visits fs root).filterMap Visit.file?).filterMap
        fun relative => Verdict.entry? (judgeFile fs role root relative)) := by
  have hjudge : ∀ v : Visit, Verdict.entry? (judge fs role root v) =
      v.file?.bind fun relative => Verdict.entry? (judgeFile fs role root relative) := by
    intro v
    cases v <;> rfl
  rw [judged, manifest_ofJudged (.refl _), List.filterMap_map, List.filterMap_filterMap]
  simp only [Function.comp_def, hjudge]

/-- A folder that holds such sources only is scanned to their entries. -/
theorem scan_of_sources {fs : FileSystem} {role : Role} {root : Path} {style : Script.ExportStyle}
    {language : Script.Language} (folder : Path) (names : List String) (files : List Path)
    (source : String) (hfolder : root.join ⟨""⟩ = folder)
    (hjoin : names.map (fun name => root.join (Path.child ⟨""⟩ name)) = files)
    (hh : fs.holds root = true) (hnames : fs.listNames folder = .ok names)
    (hfiles : ∀ p ∈ files, fs.isDirectory p = .ok false ∧ fs.readText p = .ok source ∧
      Script.Language.ofPath? p = some language)
    (hparse : (language.parse? source).map (fun m => (m.functionStyle? role.exportName,
      m.config?.isNone)) = some (some style, true)) :
    (scan fs role root).manifest = withIdentifiers role.ownNames (names.map fun name =>
      entryOf (root.join (Path.child ⟨""⟩ name)) (Path.child ⟨""⟩ name) style {}) := by
  subst hfolder hjoin
  have hfile : ∀ name ∈ names, fs.isDirectory (root.join (Path.child ⟨""⟩ name)) = .ok false :=
    fun name hname => (hfiles _ (List.mem_map_of_mem hname)).1
  have hjudge : ∀ name ∈ names, Verdict.entry? (judgeFile fs role root (Path.child ⟨""⟩ name)) =
      some (entryOf (root.join (Path.child ⟨""⟩ name)) (Path.child ⟨""⟩ name) style {}) := by
    intro name hname
    obtain ⟨-, hread, hlanguage⟩ := hfiles _ (List.mem_map_of_mem hname)
    rw [judgeFile_of_source hread hlanguage hparse]
    rfl
  rw [scan_of_holds hh, manifest_judged, visits_of_files hnames hfile, List.filterMap_map,
    List.filterMap_filterMap, ← List.filterMap_eq_map]
  congr 1
  apply List.filterMap_congr
  intro name hname
  exact hjudge name hname

section found

variable {fs : FileSystem} {root : Path} {base rel : Location} (h : fs.IsTree)
  (hcheck : checkPath root = .ok ()) (hroot : fs.PassesTo root base)
  (hlinks : fs.NoLinksBelow base)

include h in
/-- Nothing is found below a directory with a long path. -/
theorem foundBelow_of_long (hlong : IsLong root rel) (fuel : Nat) :
    foundBelow fs root base fuel rel = [] := by
  refine List.filter_eq_nil_iff.2 fun file hfile => ?_
  obtain ⟨below, content, -, rfl, he⟩ := exists_of_mem_filesBelow hfile
  have hnames : ∀ s ∈ rel ++ below, IsName s := fun s hs =>
    h.isName he (List.mem_append_right _ hs)
  simpa using hlong.append hnames

include h hcheck hroot hlinks

/-- The files that are met below a directory are those with paths that are not too long. -/
theorem filterMap_visitsBelow (fuel : Nat) (he : fs.entry? (base ++ rel) = some .directory) :
    (visitsBelow fs root fuel (ofNames rel)).filterMap Visit.file? =
      (foundBelow fs root base fuel rel).map ofNames := by
  induction fuel generalizing rel with
  | zero => rfl
  | succ fuel ih =>
    have hnames : ∀ s ∈ rel, IsName s := fun s hs => h.isName he (List.mem_append_right _ hs)
    by_cases hlong : IsLong root rel
    · rw [foundBelow_of_long h hlong]
      cases hlist : fs.listNames (root.join (ofNames rel)) with
      | error e =>
        rw [visitsBelow_of_error hlist]
        rfl
      | ok names => exact absurd hlong (listNames_below h hcheck hroot hlinks he hlist).2
    · obtain ⟨names, hlist⟩ := exists_listNames_below h hcheck hroot hlinks he hlong
      obtain ⟨rfl, -⟩ := listNames_below h hcheck hroot hlinks he hlist
      rw [visitsBelow_succ hlist, foundBelow, filesBelow, List.filterMap_flatMap,
        List.filter_flatMap, List.map_flatMap]
      refine List.flatMap_congr fun name hname => ?_
      obtain ⟨e, hentry⟩ := h.mem_names_iff.1 hname
      have hname' : IsName name := h.isName hentry (by simp)
      rw [List.append_assoc] at hentry
      have hat := isDirectory_below h hcheck hroot hlinks hentry
      rw [Path.child_ofNames hnames hname']
      cases e with
      | directory =>
        by_cases hlong' : IsLong root (rel ++ [name])
        · simp only [hentry, hat.trans (if_pos hlong')]
          exact (congrArg (List.map ofNames) (foundBelow_of_long h hlong' fuel)).symm
        · simp only [hentry, hat.trans (if_neg hlong'), decide_true]
          exact ih hentry
      | file content =>
        by_cases hlong' : IsLong root (rel ++ [name])
        · simp [hentry, hat.trans (if_pos hlong'), hlong', Visit.file?]
        · simp [hentry, hat.trans (if_neg hlong'), hlong', Visit.file?]
      | link target => exact absurd hentry (hlinks _ target (by simp))

variable (hd : fs.entry? base = some .directory)

include hd

/-- The files that are met in a scan are those whose paths are not too long. -/
theorem filterMap_visits : (visits fs root).filterMap Visit.file? =
    (foundBelow fs root base pathBound []).map ofNames := by
  have hempty : (⟨""⟩ : Path) = ofNames [] := rfl
  rw [← List.append_nil base] at hd
  rw [visits, hempty]
  exact filterMap_visitsBelow h hcheck hroot hlinks pathBound hd

/-- The manifest of a folder is made from the files that are found below it. -/
theorem manifest_scan (role : Role) : (scan fs role root).manifest =
    withIdentifiers role.ownNames ((foundBelow fs root base pathBound []).filterMap
      fun rel => Verdict.entry? (judgeFile fs role root (ofNames rel))) := by
  have hholds : fs.holds root = true := by
    rw [FileSystem.holds, FileSystem.entryAt_of_resolve
      (FileSystem.resolve_of_locate (hroot.locate_eq hcheck)) hd]
    rfl
  rw [scan_of_holds hholds, manifest_judged, filterMap_visits h hcheck hroot hlinks hd,
    List.filterMap_map]
  rfl

omit hcheck hroot hlinks hd in
/-- The files are found in the order of their locations. -/
theorem pairwise_foundBelow (fuel : Nat) (rel : Location) :
    (foundBelow fs root base fuel rel).Pairwise Location.Before :=
  (pairwise_filesBelow h fuel rel).sublist List.filter_sublist

omit hcheck hroot hlinks hd in
theorem nodup_foundBelow (fuel : Nat) (rel : Location) :
    (foundBelow fs root base fuel rel).Nodup :=
  (pairwise_foundBelow h fuel rel).imp fun hlm he => (he ▸ hlm).asymm (he ▸ hlm)

omit hcheck hroot hlinks in
/-- A file below the folder is found unless its path is too long. -/
theorem mem_foundBelow : rel ∈ foundBelow fs root base pathBound [] ↔
    ¬ IsLong root rel ∧ ∃ content, fs.entry? (base ++ rel) = some (.file content) := by
  rw [foundBelow, List.mem_filter, decide_eq_true_iff, and_comm]
  refine and_congr_right fun hshort => ⟨fun hrel => ?_, fun ⟨content, he⟩ => ?_⟩
  · obtain ⟨-, content, -, -, he⟩ := exists_of_mem_filesBelow hrel
    exact ⟨content, he⟩
  · have hne : rel ≠ [] := by
      rintro rfl
      simp [hd] at he
    have hlength := length_lt_of_short
      (fun s hs => h.isName he (List.mem_append_right _ hs)) hshort
    rw [← List.nil_append rel]
    exact mem_filesBelow h hlength.le hne he

end found

/-! ### Entries -/

/-- The folder holds a file that is an entry of the role: a source below it whose path is not too
long, which is a module of its language and exports the function. -/
def Offers (fs : FileSystem) (role : Role) (root : Path) : Prop :=
  ∃ base rel text language m style, fs.resolve root = .ok base ∧ rel ≠ [] ∧
    fs.entry? (base ++ rel) = some (.file (.text text)) ∧ ¬ IsLong root rel ∧
    Script.Language.ofPath? (root.join (ofNames rel)) = some language ∧
    language.parse? text = some m ∧ m.functionStyle? role.exportName = some style

/-- A file is an entry where it is a module that exports the function. -/
theorem Fate.isSome_iff {role : Role} {p relative : Path} {content : Content} {v : Verdict}
    (h : Fate role p relative content v) (hshort : ¬ pathBound ≤ p.text.utf8ByteSize) :
    v.entry?.isSome ↔ ∃ text language m style, content = .text text ∧
      Script.Language.ofPath? p = some language ∧ language.parse? text = some m ∧
      m.functionStyle? role.exportName = some style := by
  cases h with
  | unseen content long => exact absurd long hshort
  | other content short other =>
    refine ⟨fun he => (by cases he), fun ⟨_, l, _, _, _, hl, _⟩ =>
      absurd (isSource_iff.2 ⟨l, hl⟩) other⟩
  | binary bytes short source =>
    exact ⟨fun he => (by cases he), fun ⟨_, _, _, _, hc, _⟩ => (by cases hc)⟩
  | unparsable text short language rejected =>
    refine ⟨fun he => (by cases he), fun ⟨_, _, _, _, hc, hl, hp, _⟩ => ?_⟩
    cases hc
    cases language.symm.trans hl
    cases rejected.symm.trans hp
  | silent text short language parsed none =>
    refine ⟨fun he => (by cases he), fun ⟨_, _, _, _, hc, hl, hp, hs⟩ => ?_⟩
    cases hc
    cases language.symm.trans hl
    cases parsed.symm.trans hp
    cases none.symm.trans hs
  | settled text short language parsed exported settings =>
    exact ⟨fun _ => ⟨text, _, _, _, rfl, language, parsed, exported⟩, fun _ => rfl⟩
  | unsettled text short language parsed exported settings =>
    exact ⟨fun _ => ⟨text, _, _, _, rfl, language, parsed, exported⟩, fun _ => rfl⟩

/-- A file below a folder is an entry where it is a module that exports the function. -/
theorem isSome_judgeFile_iff (role : Role) {fs : FileSystem} {root : Path} {base rel : Location}
    (h : fs.IsTree) (hcheck : checkPath root = .ok ()) (hroot : fs.PassesTo root base)
    (hlinks : fs.NoLinksBelow base) {content : Content} (hshort : ¬ IsLong root rel)
    (he : fs.entry? (base ++ rel) = some (.file content)) :
    (Verdict.entry? (judgeFile fs role root (ofNames rel))).isSome ↔ ∃ text language m style,
      content = .text text ∧ Script.Language.ofPath? (root.join (ofNames rel)) = some language ∧
      language.parse? text = some m ∧ m.functionStyle? role.exportName = some style := by
  have hfate := fate_judge role h hcheck hroot hlinks he
  have hvisit : visitOf root rel = .file (ofNames rel) := if_neg hshort
  rw [hvisit] at hfate
  exact hfate.isSome_iff hshort

theorem withIdentifiers_eq_nil_iff {used : List String} {entries : List Entry} :
    withIdentifiers used entries = [] ↔ entries = [] := by
  rw [← List.map_eq_nil_iff (f := Entry.sourcePath), map_withIdentifiers (fun _ _ => rfl),
    List.map_eq_nil_iff]

/-- A path at which there is no directory has no manifest. -/
theorem manifest_of_not_passes {fs : FileSystem} {root : Path}
    (h : ∀ l, ¬ fs.PassesTo root l) (role : Role) : (scan fs role root).manifest = [] := by
  refine List.eq_nil_iff_forall_not_mem.2 fun e he => ?_
  obtain ⟨relative, e₀, warning, hvisit, -⟩ := judgeFile_of_mem_scan he
  cases hl : fs.listNames (root.join ⟨""⟩) with
  | error err =>
    have hvisits : visits fs root = [.unreadable (root.join ⟨""⟩) err] := by
      rw [visits, show pathBound = 4095 + 1 from rfl, visitsBelow_of_error hl]
    simp [hvisits] at hvisit
  | ok names =>
    unfold FileSystem.listNames at hl
    cases hr : fs.resolve (root.join ⟨""⟩) with
    | error err => simp [hr, bind, Except.bind] at hl
    | ok l =>
      have hd : fs.entry? l = some .directory := by
        cases hentry : fs.entry? l with
        | none => simp [hr, hentry, bind, Except.bind] at hl
        | some entry => cases entry <;> simp_all [bind, Except.bind]
      obtain ⟨m, hpasses⟩ :=
        FileSystem.passesTo_of_locate (FileSystem.locate_of_resolve hr) hd
      obtain ⟨init, hjoin, hiff⟩ := FileSystem.passes_join_iff fs (q := ⟨""⟩) (by decide) root
      have hsegments : Path.segments ⟨""⟩ = [""] := by decide
      rw [hjoin, hsegments, FileSystem.passes_append_saysNothing_iff (by decide)] at hpasses
      exact h l ⟨m, (hiff m l).2 hpasses⟩

/-- A path that the system does not take has no manifest. -/
theorem manifest_of_checkPath {root : Path} {e : FileSystem.Error}
    (h : checkPath root = .error e) (fs : FileSystem) (role : Role) :
    (scan fs role root).manifest = [] := by
  have hholds : fs.holds root = false := by
    simp [FileSystem.holds, FileSystem.entryAt, FileSystem.resolve, FileSystem.locate, h, bind,
      Except.bind, Except.toBool]
  rw [scan, hholds]
  rfl

/-- A file that is found comes to what its content comes to. -/
theorem judgeFile_congr {fs fs' : FileSystem} {role : Role} {root relative : Path}
    (h : fs'.entryAt (root.join relative) = fs.entryAt (root.join relative)) :
    judgeFile fs' role root relative = judgeFile fs role root relative := by
  have hread : fs'.readText (root.join relative) = fs.readText (root.join relative) := by
    rw [FileSystem.readText, FileSystem.readText, h]
  unfold judgeFile
  dsimp only
  rw [hread]

/-! ### Folders -/

/-- The path leads to a directory exactly where one is at the location. -/
def LeadsDown (fs : FileSystem) (root : Path) (base : Location) : Prop :=
  ∀ l, fs.PassesTo root l ↔ l = base ∧ fs.entry? base = some .directory

section folders

variable {fs fs' : FileSystem} {root : Path} {base : Location} {role : Role}

/-- A directory that the path is resolved to is where it leads. -/
theorem LeadsDown.of_resolve (hroot : LeadsDown fs root base) {l : Location}
    (hl : fs.resolve root = .ok l) (hd : fs.entry? l = some .directory) :
    checkPath root = .ok () ∧ fs.entry? base = some .directory := by
  have hlocate := FileSystem.locate_of_resolve hl
  exact ⟨(FileSystem.locate_ok_cases hlocate).1,
    ((hroot l).1 (FileSystem.passesTo_of_locate hlocate hd)).2⟩

/-- A folder that is there has a manifest with entries exactly where it offers any. -/
theorem manifest_ne_nil_iff_of_passes (h : fs.IsTree) (hcheck : checkPath root = .ok ())
    (hpasses : fs.PassesTo root base) (hlinks : fs.NoLinksBelow base)
    (hd : fs.entry? base = some .directory) :
    (scan fs role root).manifest ≠ [] ↔ Offers fs role root := by
  have hbase : fs.resolve root = .ok base :=
    FileSystem.resolve_of_locate (hpasses.locate_eq hcheck)
  rw [manifest_scan h hcheck hpasses hlinks hd, Ne, withIdentifiers_eq_nil_iff]
  constructor
  · intro hne
    obtain ⟨e, he⟩ := List.exists_mem_of_ne_nil _ hne
    obtain ⟨rel, hrel, hsome⟩ := List.mem_filterMap.1 he
    obtain ⟨hshort, content, hfile⟩ := (mem_foundBelow h hd).1 hrel
    obtain ⟨text, language, m, style, rfl, hl, hp, hs⟩ :=
      (isSome_judgeFile_iff role h hcheck hpasses hlinks hshort hfile).1 (by rw [hsome]; rfl)
    refine ⟨base, rel, text, language, m, style, hbase, ?_, hfile, hshort, hl, hp, hs⟩
    rintro rfl
    simp [hd] at hfile
  · rintro ⟨base', rel, text, language, m, style, hl, -, hfile, hshort, hlanguage⟩
    obtain rfl : base = base' := Except.ok.inj (hbase.symm.trans hl)
    obtain ⟨e, he⟩ := Option.isSome_iff_exists.1
      ((isSome_judgeFile_iff role h hcheck hpasses hlinks hshort hfile).2
        ⟨text, language, m, style, rfl, hlanguage⟩)
    exact List.ne_nil_of_mem
      (List.mem_filterMap.2 ⟨rel, (mem_foundBelow h hd).2 ⟨hshort, _, hfile⟩, he⟩)

/-- A folder has a manifest with entries exactly where it offers any. -/
theorem manifest_ne_nil_iff (h : fs.IsTree) (hlinks : fs.NoLinksBelow base)
    (hroot : LeadsDown fs root base) : (scan fs role root).manifest ≠ [] ↔ Offers fs role root := by
  by_cases hgood : checkPath root = .ok () ∧ fs.entry? base = some .directory
  · obtain ⟨hcheck, hd⟩ := hgood
    exact manifest_ne_nil_iff_of_passes h hcheck ((hroot base).2 ⟨rfl, hd⟩) hlinks hd
  · refine iff_of_false (not_not_intro ?_) ?_
    · cases hcheck : checkPath root with
      | error e => exact manifest_of_checkPath hcheck fs role
      | ok u =>
        exact manifest_of_not_passes (fun l hl => hgood ⟨hcheck, ((hroot l).1 hl).2⟩) role
    · rintro ⟨l, rel, text, -, -, -, hl, hrel, hfile, -⟩
      exact hgood (hroot.of_resolve hl (h.directory_of_append hrel hfile))

/-- The same files are found in two folders with the same files. -/
theorem foundBelow_congr (h : fs.IsTree) (h' : fs'.IsTree) (hd : fs.entry? base = some .directory)
    (hd' : fs'.entry? base = some .directory) (hkept : ∀ rel, Kept (base ++ rel) fs fs') :
    foundBelow fs' root base pathBound [] = foundBelow fs root base pathBound [] := by
  refine List.Perm.eq_of_pairwise (fun l m _ _ hlm hml => ?_) (pairwise_foundBelow h' _ _)
    (pairwise_foundBelow h _ _) ?_
  · exact absurd hml (Location.Before.asymm hlm)
  · refine (List.perm_ext_iff_of_nodup (nodup_foundBelow h' _ _)
      (nodup_foundBelow h _ _)).2 fun rel => ?_
    rw [mem_foundBelow h' hd', mem_foundBelow h hd]
    simp only [(hkept rel).file_iff]

/-- No file is found in a folder that is new. -/
theorem foundBelow_of_new (h : fs.IsTree) (h' : fs'.IsTree)
    (hd : fs.entry? base ≠ some .directory) (hd' : fs'.entry? base = some .directory)
    (hkept : ∀ rel, Kept (base ++ rel) fs fs') :
    foundBelow fs' root base pathBound [] = [] := by
  refine List.eq_nil_iff_forall_not_mem.2 fun rel hrel => ?_
  obtain ⟨-, content, he⟩ := (mem_foundBelow h' hd').1 hrel
  have hne : rel ≠ [] := by
    rintro rfl
    simp [hd'] at he
  exact hd (h.directory_of_append hne ((hkept rel).file_iff.1 he))

/-- The manifest of a folder stays where directories are made and changes are made elsewhere. -/
theorem manifest_kept (h : fs.IsTree) (h' : fs'.IsTree) (hlinks : fs.NoLinksBelow base)
    (hlinks' : fs'.NoLinksBelow base) (hroot : LeadsDown fs root base)
    (hroot' : LeadsDown fs' root base) (hkept : ∀ rel, Kept (base ++ rel) fs fs') :
    (scan fs' role root).manifest = (scan fs role root).manifest := by
  cases hcheck : checkPath root with
  | error e => rw [manifest_of_checkPath hcheck, manifest_of_checkPath hcheck]
  | ok u =>
    have hbase : Kept base fs fs' := by
      have := hkept []
      rwa [List.append_nil] at this
    have hnot : fs.entry? base ≠ some .directory → (scan fs role root).manifest = [] := fun hd =>
      manifest_of_not_passes (fun l hl => hd ((hroot l).1 hl).2) role
    by_cases hd' : fs'.entry? base = some .directory
    · have hpasses' : fs'.PassesTo root base := (hroot' base).2 ⟨rfl, hd'⟩
      rw [manifest_scan h' hcheck hpasses' hlinks' hd']
      by_cases hd : fs.entry? base = some .directory
      · have hpasses : fs.PassesTo root base := (hroot base).2 ⟨rfl, hd⟩
        rw [manifest_scan h hcheck hpasses hlinks hd, foundBelow_congr h h' hd hd' hkept]
        congr 1
        refine List.filterMap_congr fun rel hrel => ?_
        obtain ⟨-, content, he⟩ := (mem_foundBelow h hd).1 hrel
        rw [judgeFile_congr]
        rw [entryAt_below h' hcheck hpasses' hlinks' ((hkept rel).file_iff.2 he),
          entryAt_below h hcheck hpasses hlinks he]
      · rw [hnot hd, foundBelow_of_new h h' hd hd' hkept]
        rfl
    · rw [manifest_of_not_passes fun l hl => hd' ((hroot' l).1 hl).2,
        hnot fun hd => hd' (hbase.entry hd)]

end folders

end FileRoutes.Manifest

/-! ### Paths that descend -/

namespace FileRoutes

namespace Path

open FileSystem (saysNothing)

/-- Pieces that never go up lead to a location below where they start. -/
theorem exists_follow_append {ps : List String} (h : ".." ∉ ps) (here : Location) :
    ∃ rel, follow here ps = here ++ rel := by
  induction ps generalizing here with
  | nil => exact ⟨[], (List.append_nil here).symm⟩
  | cons piece rest ih =>
    obtain ⟨hpiece, hrest⟩ : ".." ≠ piece ∧ ".." ∉ rest := by simpa using h
    obtain hs | hu | hdown := piece_cases piece
    · rw [follow_cons_nothing _ _ hs]
      exact ih hrest here
    · exact absurd hu.symm hpiece
    · obtain ⟨rel, hrel⟩ := ih hrest (here ++ [piece])
      rw [follow_cons_down _ _ hdown, hrel]
      exact ⟨piece :: rel, by simp⟩

end Path

namespace FileSystem

open FileRoutes.Path (follow landing)

variable {fs fs' : FileSystem}

/-- In a tree, pieces that never go up lead to every directory that they spell. -/
theorem IsTree.passes_follow (h : fs.IsTree) {ps : List String} (hup : ".." ∉ ps) (n : Nat)
    {l : Location} (hd : fs.entry? (follow l ps) = some .directory) :
    fs.Passes n l ps n (follow l ps) := by
  induction ps generalizing l with
  | nil => exact .here
  | cons piece rest ih =>
    obtain ⟨hpiece, hrest⟩ : ".." ≠ piece ∧ ".." ∉ rest := by simpa using hup
    obtain hs | hu | hdown := Path.piece_cases piece
    · rw [Path.follow_cons_nothing _ _ hs] at hd ⊢
      exact .nothing hs (ih hrest hd)
    · exact absurd hu.symm hpiece
    · rw [Path.follow_cons_down _ _ hdown] at hd ⊢
      obtain ⟨rel, hrel⟩ := Path.exists_follow_append hrest (l ++ [piece])
      have hentry : fs.entry? (l ++ [piece]) = some .directory := by
        by_cases hne : rel = []
        · rwa [hrel, hne, List.append_nil] at hd
        · exact h.directory_of_append hne (hrel ▸ hd)
      exact .directory hdown (h.isName hentry (by simp)).short hentry (ih hrest hd)

/-- After a first part that can be followed, the path never goes up. -/
def Descends (fs : FileSystem) (p : Path) : Prop :=
  ∃ init rest m l, p.segments = init ++ rest ∧ ".." ∉ rest ∧
    fs.Passes greatestLinks (startOf p.text fs.workingDirectory) init m l

theorem descends_of_not_mem {p : Path} (h : ".." ∉ p.segments) : fs.Descends p :=
  ⟨[], p.segments, greatestLinks, _, rfl, h, .here⟩

theorem Descends.kept {p : Path} (h : fs.Descends p) (hk : KeepsWays fs fs') : fs'.Descends p := by
  obtain ⟨init, rest, m, l, hsegments, hup, hpasses⟩ := h
  exact ⟨init, rest, m, l, hsegments, hup, hk.here ▸ hpasses.kept hk⟩

/-- A path that never goes up can be joined to a path that descends. -/
theorem Descends.join {p q : Path} (h : fs.Descends p) (hq : ".." ∉ q.segments) :
    fs.Descends (p.join q) := by
  by_cases ha : q.isAbsolute = true
  · rw [Path.join, if_pos ha]
    exact descends_of_not_mem hq
  · obtain ⟨first, rest, m, l, hsegments, hup, hpasses⟩ := h
    obtain ⟨init, blanks, hjoin, hinit, hblanks, hstart⟩ :=
      Path.exists_join_segments (Bool.eq_false_iff.2 ha) p
    rw [← hstart] at hpasses
    obtain ⟨more, rfl, rfl⟩ | ⟨more, rfl, rfl⟩ :=
      List.append_eq_append_iff.1 (hsegments.symm.trans hinit)
    · refine ⟨first, more ++ q.segments, m, l, by rw [hjoin, List.append_assoc], fun hm => ?_,
        hpasses⟩
      rcases List.mem_append.1 hm with hm | hm
      · exact hup (List.mem_append_left _ hm)
      · exact hq hm
    · -- What is followed ends in blanks, which the joined path leaves out.
      refine ⟨init, q.segments, m, l, hjoin, hq, (passes_append_saysNothing_iff ?_).1 hpasses⟩
      intro b hb
      rw [hblanks b (List.mem_append_left _ hb)]
      decide

/-- In a tree without links, a path that descends leads to a directory exactly where one is at
the location that the path spells. -/
theorem Descends.leadsDown {p : Path} (h : fs.Descends p) (ht : fs.IsTree) (hn : fs.NoLinks) :
    Manifest.LeadsDown fs p (landing fs.workingDirectory p) := by
  intro l
  constructor
  · intro hl
    obtain rfl := hl.eq_landing hn
    exact ⟨rfl, hl.entry_directory ht.toGrounded⟩
  · rintro ⟨rfl, hd⟩
    obtain ⟨init, rest, m, base, hsegments, hup, hpasses⟩ := h
    have hlanding : landing fs.workingDirectory p = follow base rest := by
      rw [landing, hsegments, Path.follow_append, ← hpasses.location hn]
    rw [hlanding] at hd ⊢
    exact ⟨m, hsegments ▸ hpasses.append (ht.passes_follow hup m hd)⟩

end FileSystem

end FileRoutes
