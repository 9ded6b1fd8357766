import FileRoutes.Proofs.Scans
import FileRoutes.Proofs.Successes
import FileRoutes.Proofs.Trees
import Mathlib

/-!
# Every file is accounted for

A scan of a folder of a file tree meets every file below it once, in the order of their
locations, and what it says about a file depends on that file alone. So whatever is found can be
read off an account with one line for each file, and no line is lost or doubled, in whichever
order the files are judged.

## The model

* `filesBelow` — the files below a directory, in order.
* `IsSource`, `Fate` — which files are looked into, and what becomes of a file, one rule for each
  way.
* `Accounts` — findings that say of every file what becomes of it, and nothing else.

## What is proved

* `mem_filesBelow`, `pairwise_filesBelow` — every file is met once, in order.
* `visits_eq` — these are the visits of a scan.
* `fate_judge` — the judge says of a file what becomes of it.
-/

namespace FileRoutes.Manifest

open FileSystem (IsName IsTree PassesTo NoLinksBelow pathBound checkPath)
open FileRoutes.Path (ofNames)

/-! ### The files below a directory -/

/-- The files below a directory of a folder, in order; `fuel` bounds how deep they can be. -/
def filesBelow (fs : FileSystem) (base : Location) : Nat → Location → List Location
  | 0, _ => []
  | fuel + 1, rel => (fs.names (base ++ rel)).flatMap fun name =>
    match fs.entry? (base ++ (rel ++ [name])) with
    | some .directory => filesBelow fs base fuel (rel ++ [name])
    | some (.file _) => [rel ++ [name]]
    | _ => []

section files

variable {fs : FileSystem} {base : Location}

/-- Whatever is found below a directory spells the directory first. -/
theorem exists_of_mem_filesBelow {fuel : Nat} {rel l : Location}
    (h : l ∈ filesBelow fs base fuel rel) :
    ∃ below content, below ≠ [] ∧ l = rel ++ below ∧
      fs.entry? (base ++ l) = some (.file content) := by
  induction fuel generalizing rel with
  | zero => cases h
  | succ fuel ih =>
    obtain ⟨name, -, hl⟩ := List.mem_flatMap.1 h
    split at hl
    · obtain ⟨below, content, -, rfl, he⟩ := ih hl
      exact ⟨name :: below, content, by simp, List.append_cons rel name below ▸ rfl, he⟩
    · next content he =>
      obtain rfl := List.mem_singleton.1 hl
      exact ⟨[name], content, by simp, rfl, he⟩
    · cases hl

/-- Every file below a directory is found that is not too deep. -/
theorem mem_filesBelow (h : fs.IsTree) {fuel : Nat} {rel below : Location} {content : Content}
    (hfuel : below.length ≤ fuel) (hbelow : below ≠ [])
    (he : fs.entry? (base ++ (rel ++ below)) = some (.file content)) :
    rel ++ below ∈ filesBelow fs base fuel rel := by
  induction fuel generalizing rel below with
  | zero => exact absurd (List.eq_nil_of_length_eq_zero (Nat.le_zero.1 hfuel)) hbelow
  | succ fuel ih =>
    obtain ⟨name, rest, rfl⟩ := List.exists_cons_of_ne_nil hbelow
    have hall : rel ++ name :: rest = (rel ++ [name]) ++ rest := List.append_cons rel name rest
    rw [hall] at he ⊢
    by_cases hrest : rest = []
    · subst hrest
      rw [List.append_nil] at he ⊢
      have hname : name ∈ fs.names (base ++ rel) :=
        h.mem_names_iff.2 ⟨_, by rwa [List.append_assoc]⟩
      exact List.mem_flatMap.2 ⟨name, hname, by simp [he]⟩
    · have hd : fs.entry? (base ++ (rel ++ [name])) = some .directory :=
        h.directory_of_append hrest (by rwa [List.append_assoc])
      have hname : name ∈ fs.names (base ++ rel) :=
        h.mem_names_iff.2 ⟨_, by rwa [List.append_assoc]⟩
      refine List.mem_flatMap.2 ⟨name, hname, ?_⟩
      simp only [hd]
      exact ih (Nat.le_of_succ_le_succ hfuel) hrest he

/-- The files below a directory are met in the order of their locations. -/
theorem pairwise_filesBelow (h : fs.IsTree) (fuel : Nat) (rel : Location) :
    (filesBelow fs base fuel rel).Pairwise Location.Before := by
  induction fuel generalizing rel with
  | zero => exact .nil
  | succ fuel ih =>
    have hstart : ∀ name l, l ∈ (match fs.entry? (base ++ (rel ++ [name])) with
        | some .directory => filesBelow fs base fuel (rel ++ [name])
        | some (.file _) => [rel ++ [name]]
        | _ => []) → ∃ rest, l = rel ++ name :: rest := by
      intro name l hl
      split at hl
      · obtain ⟨below, -, -, rfl, -⟩ := exists_of_mem_filesBelow hl
        exact ⟨below, by simp⟩
      · exact ⟨[], List.mem_singleton.1 hl⟩
      · cases hl
    refine List.pairwise_flatMap.2 ⟨fun name _ => ?_, ?_⟩
    · split
      · exact ih _
      · exact List.pairwise_singleton _ _
      · exact .nil
    · refine (h.pairwise_names _).imp fun {s t} hst l hl m hm => ?_
      obtain ⟨rest, rfl⟩ := hstart s l hl
      obtain ⟨rest', rfl⟩ := hstart t m hm
      exact (Location.before_of_lt hst rest rest').append_left rel

end files

/-! ### Visits -/

theorem visitsBelow_step (fs : FileSystem) (root relative : Path) (fuel : Nat) :
    visitsBelow fs root (fuel + 1) relative =
      match fs.listNames (root.join relative) with
      | .error e => [.unreadable (root.join relative) e]
      | .ok names => names.flatMap fun name =>
        match fs.isDirectory (root.join (relative.child name)) with
        | .error e => [.unreadable (root.join (relative.child name)) e]
        | .ok true => visitsBelow fs root fuel (relative.child name)
        | .ok false => [.file (relative.child name)] := by
  exact rfl

/-- What is met below a directory that can be listed. -/
theorem visitsBelow_succ {fs : FileSystem} {root relative : Path} {names : List String}
    (h : fs.listNames (root.join relative) = .ok names) (fuel : Nat) :
    visitsBelow fs root (fuel + 1) relative = names.flatMap fun name =>
      match fs.isDirectory (root.join (relative.child name)) with
      | .error e => [.unreadable (root.join (relative.child name)) e]
      | .ok true => visitsBelow fs root fuel (relative.child name)
      | .ok false => [.file (relative.child name)] := by
  rw [visitsBelow_step, h]

/-- Of a directory that cannot be listed nothing is met but the directory. -/
theorem visitsBelow_of_error {fs : FileSystem} {root relative : Path} {e : FileSystem.Error}
    (h : fs.listNames (root.join relative) = .error e) (fuel : Nat) :
    visitsBelow fs root (fuel + 1) relative = [.unreadable (root.join relative) e] := by
  rw [visitsBelow_step, h]

/-- What has a path that is not too long is not too deep. -/
theorem length_lt_of_short {root : Path} {rel : Location} (hnames : ∀ s ∈ rel, IsName s)
    (hshort : ¬ pathBound ≤ (root.join (ofNames rel)).text.utf8ByteSize) :
    rel.length < pathBound := by
  have hlength := Path.length_le_utf8ByteSize_ofNames hnames
  have hjoin : (ofNames rel).text.utf8ByteSize ≤ (root.join (ofNames rel)).text.utf8ByteSize := by
    unfold Path.join
    split
    · exact Nat.le_refl _
    · split
      · exact Nat.le_refl _
      · split <;> simp only [String.utf8ByteSize_append] <;> omega
  omega

/-- The visit of a file below a folder; the path may be too long for the file to be looked at. -/
def visitOf (root : Path) (rel : Location) : Visit :=
  if pathBound ≤ (root.join (ofNames rel)).text.utf8ByteSize then
    .unreadable (root.join (ofNames rel)) .nameTooLong
  else .file (ofNames rel)

section visits

variable {fs : FileSystem} {root : Path} {base rel : Location} (h : fs.IsTree)
  (hcheck : checkPath root = .ok ()) (hroot : fs.PassesTo root base)
  (hlinks : fs.NoLinksBelow base)

include h hcheck hroot hlinks

/-- Below a folder, a path that is not too long leads to the entry that it spells. -/
theorem entryAt_below {e : FileRoutes.Entry} (he : fs.entry? (base ++ rel) = some e) :
    fs.entryAt (root.join (ofNames rel)) =
      if pathBound ≤ (root.join (ofNames rel)).text.utf8ByteSize then .error .nameTooLong
      else .ok e := by
  have hnames : ∀ s ∈ rel, IsName s := fun s hs => h.isName he (List.mem_append_right _ hs)
  have hlocate := FileSystem.locate_below h hroot hlinks he true
  rw [FileSystem.checkPath_below hcheck hnames] at hlocate
  unfold FileSystem.entryAt FileSystem.resolve
  rw [hlocate]
  split
  · rfl
  · simp [bind, Except.bind, pure, Except.pure, he]

theorem isDirectory_below {e : FileRoutes.Entry} (he : fs.entry? (base ++ rel) = some e) :
    fs.isDirectory (root.join (ofNames rel)) =
      if pathBound ≤ (root.join (ofNames rel)).text.utf8ByteSize then .error .nameTooLong
      else .ok (e = .directory) := by
  rw [FileSystem.isDirectory, entryAt_below h hcheck hroot hlinks he]
  split <;> rfl

/-- A directory below the folder is listed unless its path is too long. -/
theorem listNames_below (he : fs.entry? (base ++ rel) = some .directory) {names : List String}
    (hlist : fs.listNames (root.join (ofNames rel)) = .ok names) :
    names = fs.names (base ++ rel) ∧
      ¬ pathBound ≤ (root.join (ofNames rel)).text.utf8ByteSize := by
  have hnames : ∀ s ∈ rel, IsName s := fun s hs => h.isName he (List.mem_append_right _ hs)
  have hlocate := FileSystem.locate_below h hroot hlinks he true
  rw [FileSystem.checkPath_below hcheck hnames] at hlocate
  unfold FileSystem.listNames FileSystem.resolve at hlist
  rw [hlocate] at hlist
  split at hlist
  · cases hlist
  · next hshort =>
    simp only [bind, Except.bind, pure, Except.pure, he, Except.ok.injEq] at hlist
    exact ⟨hlist.symm, hshort⟩

/-- A directory below the folder is listed where its path is not too long. -/
theorem exists_listNames_below (he : fs.entry? (base ++ rel) = some .directory)
    (hshort : ¬ pathBound ≤ (root.join (ofNames rel)).text.utf8ByteSize) :
    ∃ names, fs.listNames (root.join (ofNames rel)) = .ok names := by
  have hnames : ∀ s ∈ rel, IsName s := fun s hs => h.isName he (List.mem_append_right _ hs)
  have hlocate := FileSystem.locate_below h hroot hlinks he true
  rw [FileSystem.checkPath_below hcheck hnames, if_neg hshort] at hlocate
  refine ⟨fs.names (base ++ rel), ?_⟩
  unfold FileSystem.listNames FileSystem.resolve
  rw [hlocate]
  simp only [bind, Except.bind, pure, Except.pure, he]

variable (hlist : ∀ rel, fs.entry? (base ++ rel) = some .directory →
  ∃ names, fs.listNames (root.join (ofNames rel)) = .ok names)

include hlist

/-- A directory that can be listed is not too deep. -/
theorem length_lt_of_listed (he : fs.entry? (base ++ rel) = some .directory) :
    rel.length < pathBound := by
  obtain ⟨names, hn⟩ := hlist rel he
  exact length_lt_of_short (fun s hs => h.isName he (List.mem_append_right _ hs))
    (listNames_below h hcheck hroot hlinks he hn).2

/-- What is met below a directory are its files. -/
theorem visitsBelow_eq {fuel : Nat} (hfuel : pathBound ≤ rel.length + fuel)
    (he : fs.entry? (base ++ rel) = some .directory) :
    visitsBelow fs root fuel (ofNames rel) = (filesBelow fs base fuel rel).map (visitOf root) := by
  induction fuel generalizing rel with
  | zero => exact absurd (length_lt_of_listed h hcheck hroot hlinks hlist he) (by omega)
  | succ fuel ih =>
    obtain ⟨names, hn⟩ := hlist rel he
    obtain ⟨rfl, -⟩ := listNames_below h hcheck hroot hlinks he hn
    have hnames : ∀ s ∈ rel, IsName s := fun s hs => h.isName he (List.mem_append_right _ hs)
    rw [visitsBelow_succ hn, filesBelow, List.map_flatMap]
    refine List.flatMap_congr fun name hname => ?_
    obtain ⟨e, hentry⟩ := h.mem_names_iff.1 hname
    have hname' : IsName name := h.isName hentry (by simp)
    rw [List.append_assoc] at hentry
    have hat := isDirectory_below h hcheck hroot hlinks hentry
    rw [Path.child_ofNames hnames hname']
    cases e with
    | directory =>
      obtain ⟨below, hb⟩ := hlist _ hentry
      obtain ⟨-, hshort⟩ := listNames_below h hcheck hroot hlinks hentry hb
      simp only [hat, if_neg hshort, hentry, decide_true]
      exact ih (by simp only [List.length_append, List.length_singleton]; omega) hentry
    | file content =>
      simp only [hentry, List.map_singleton, visitOf]
      by_cases hlong : pathBound ≤ (root.join (ofNames (rel ++ [name]))).text.utf8ByteSize
      · simp only [hat, if_pos hlong]
      · simp [hat, if_neg hlong]
    | link target => exact absurd hentry (hlinks _ target (by simp))

variable (hd : fs.entry? base = some .directory)

include hd

/-- The visits of a scan are those of the files below the folder, in order. -/
theorem visits_eq :
    visits fs root = (filesBelow fs base pathBound []).map (visitOf root) := by
  have hfuel : pathBound ≤ ([] : Location).length + pathBound := Nat.le_add_left _ _
  rw [← List.append_nil base] at hd
  rw [visits]
  exact visitsBelow_eq h hcheck hroot hlinks hlist hfuel hd

/-- The files below the folder are those that are met. -/
theorem mem_filesBelow_root :
    rel ∈ filesBelow fs base pathBound [] ↔
      ∃ content, fs.entry? (base ++ rel) = some (.file content) := by
  refine ⟨fun hrel => ?_, fun ⟨content, he⟩ => ?_⟩
  · obtain ⟨-, content, -, -, he⟩ := exists_of_mem_filesBelow hrel
    exact ⟨content, he⟩
  · have hne : rel ≠ [] := by
      rintro rfl
      simp [hd] at he
    -- A file is one name deeper than its directory, which can be listed.
    have hlength : rel.length ≤ pathBound := by
      obtain ⟨init, name, rfl⟩ := List.eq_nil_or_concat rel |>.resolve_left hne
      rw [List.concat_eq_append] at he ⊢
      rw [← List.append_assoc] at he
      have := length_lt_of_listed h hcheck hroot hlinks hlist (h.parents _ _ _ he)
      rw [List.length_append, List.length_singleton]
      omega
    exact mem_filesBelow h hlength hne he

end visits

/-! ### What becomes of a file -/

/-- The file has the extension of a source, in any case. -/
def IsSource (p : Path) : Prop :=
  ∃ extension, p.extension? = some extension ∧
    Text.lower extension ∈ ["ts", "mts", "cts", "tsx", "js", "mjs", "cjs", "jsx"]

theorem isSource_iff {p : Path} : IsSource p ↔ ∃ l, Script.Language.ofPath? p = some l := by
  unfold IsSource Script.Language.ofPath?
  cases p.extension? with
  | none => simp
  | some extension =>
    simp only [Option.some.injEq, exists_eq_left', Option.bind_eq_bind, Option.bind_some,
      Script.Language.ofExtension?]
    generalize Text.lower extension = s
    constructor
    · intro hs
      simp only [List.mem_cons, List.not_mem_nil, or_false] at hs
      rcases hs with rfl | rfl | rfl | rfl | rfl | rfl | rfl | rfl <;> exact ⟨_, rfl⟩
    · rintro ⟨l, hl⟩
      split at hl <;> simp_all

/-- What becomes of a file in a scan, by its path and its content. -/
inductive Fate (role : Role) (p relative : Path) : Content → Verdict → Prop
  /-- The system does not look at a file under a path that is too long. -/
  | unseen (content : Content) (long : pathBound ≤ p.text.utf8ByteSize) :
      Fate role p relative content (.fault (unreadableMessage p .nameTooLong))
  /-- A file that is no source is not looked into. -/
  | other (content : Content) (short : ¬ pathBound ≤ p.text.utf8ByteSize) (other : ¬ IsSource p) :
      Fate role p relative content .passed
  /-- A source that is no text cannot be read. -/
  | binary (bytes : List UInt8) (short : ¬ pathBound ≤ p.text.utf8ByteSize) (source : IsSource p) :
      Fate role p relative (.binary bytes) (.fault (unreadableMessage p .notText))
  /-- A source that is no module of its language cannot be parsed. -/
  | unparsable (text : String) {l : Script.Language} (short : ¬ pathBound ≤ p.text.utf8ByteSize)
      (language : Script.Language.ofPath? p = some l) (rejected : l.parse? text = none) :
      Fate role p relative (.text text)
        (.fault ("Failed to parse " ++ p.text ++ ": " ++ Script.syntaxError))
  /-- A module that does not export the function says nothing. -/
  | silent (text : String) {l : Script.Language} {m : Script.Module}
      (short : ¬ pathBound ≤ p.text.utf8ByteSize) (language : Script.Language.ofPath? p = some l)
      (parsed : l.parse? text = some m) (none : m.functionStyle? role.exportName = none) :
      Fate role p relative (.text text) .passed
  /-- A module that exports the function is an entry with the settings it asks for. -/
  | settled (text : String) {l : Script.Language} {m : Script.Module} {style : Script.ExportStyle}
      {s : Settings} (short : ¬ pathBound ≤ p.text.utf8ByteSize)
      (language : Script.Language.ofPath? p = some l) (parsed : l.parse? text = some m)
      (exported : m.functionStyle? role.exportName = some style)
      (settings : Settings.ofConfig text m.config? = .ok s) :
      Fate role p relative (.text text) (.entry (entryOf p relative style s) none)
  /-- Where the settings cannot be used, it is an entry with the defaults, and a warning. -/
  | unsettled (text : String) {l : Script.Language} {m : Script.Module}
      {style : Script.ExportStyle} {cause : String} (short : ¬ pathBound ≤ p.text.utf8ByteSize)
      (language : Script.Language.ofPath? p = some l) (parsed : l.parse? text = some m)
      (exported : m.functionStyle? role.exportName = some style)
      (settings : Settings.ofConfig text m.config? = .error cause) :
      Fate role p relative (.text text)
        (.entry (entryOf p relative style ⟨.get, []⟩) (some (unusedSettings p cause)))

/-- What becomes of a source that has been read. -/
theorem fate_inspectSource (role : Role) {p : Path} (relative : Path) {l : Script.Language}
    (short : ¬ pathBound ≤ p.text.utf8ByteSize) (language : Script.Language.ofPath? p = some l)
    (text : String) :
    Fate role p relative (.text text) (inspectSource role p relative l text) := by
  cases hp : l.parse? text with
  | none =>
    simp only [inspectSource, hp]
    exact .unparsable text short language hp
  | some m =>
    cases hf : m.functionStyle? role.exportName with
    | none =>
      simp only [inspectSource, hp, inspectModule, hf]
      exact .silent text short language hp hf
    | some style =>
      cases hs : Settings.ofConfig text m.config? with
      | ok s =>
        simp only [inspectSource, hp, inspectModule, hf, hs]
        exact .settled text short language hp hf hs
      | error cause =>
        simp only [inspectSource, hp, inspectModule, hf, hs]
        exact .unsettled text short language hp hf hs

/-- The judge says of a file below a folder what becomes of it. -/
theorem fate_judge (role : Role) {fs : FileSystem} {root : Path} {base rel : Location}
    (h : fs.IsTree) (hcheck : checkPath root = .ok ()) (hroot : fs.PassesTo root base)
    (hlinks : fs.NoLinksBelow base) {content : Content}
    (he : fs.entry? (base ++ rel) = some (.file content)) :
    Fate role (root.join (ofNames rel)) (ofNames rel) content
      (judge fs role root (visitOf root rel)) := by
  have hat := entryAt_below h hcheck hroot hlinks he
  by_cases hlong : pathBound ≤ (root.join (ofNames rel)).text.utf8ByteSize
  · have hvisit : visitOf root rel = .unreadable (root.join (ofNames rel)) .nameTooLong :=
      if_pos hlong
    have hjudge : judge fs role root (.unreadable (root.join (ofNames rel)) .nameTooLong) =
      .fault (unreadableMessage (root.join (ofNames rel)) .nameTooLong) := rfl
    rw [hvisit, hjudge]
    exact .unseen content hlong
  · have hshort := hlong
    have hvisit : visitOf root rel = .file (ofNames rel) := if_neg hshort
    have hjudge : judge fs role root (.file (ofNames rel)) =
      judgeFile fs role root (ofNames rel) := rfl
    rw [if_neg hshort] at hat
    rw [hvisit, hjudge]
    unfold judgeFile
    dsimp only
    cases hl : Script.Language.ofPath? (root.join (ofNames rel)) with
    | none =>
      refine .other content hshort fun hs => ?_
      obtain ⟨l, hl'⟩ := isSource_iff.1 hs
      simp [hl] at hl'
    | some l =>
      cases content with
      | binary bytes =>
        have hread : fs.readText (root.join (ofNames rel)) = .error .notText := by
          simp [FileSystem.readText, hat, bind, Except.bind, throw, throwThe, MonadExceptOf.throw]
        simp only [hread]
        exact .binary bytes hshort (isSource_iff.2 ⟨l, hl⟩)
      | text text =>
        have hread : fs.readText (root.join (ofNames rel)) = .ok text := by
          simp [FileSystem.readText, hat, bind, Except.bind, pure, Except.pure]
        simp only [hread]
        exact fate_inspectSource role _ hshort hl text

/-! ### Findings -/

/-- Verdicts are put back in order, whichever of them is reached first. -/
theorem inOrder_of_perm {verdicts : List Verdict} {completed : List (Verdict × Nat)}
    (h : completed.Perm verdicts.zipIdx) : inOrder completed = verdicts := by
  have hsorted : (completed.mergeSort fun a b => a.2 ≤ b.2).Pairwise fun a b => a.2 ≤ b.2 := by
    refine (@List.pairwise_mergeSort _ (fun a b : Verdict × Nat => decide (a.2 ≤ b.2)) ?_ ?_
      completed).imp fun hab => of_decide_eq_true hab
    · exact fun a b c hab hbc => decide_eq_true
        (Nat.le_trans (of_decide_eq_true hab) (of_decide_eq_true hbc))
    · exact fun a b => by simpa using Nat.le_total a.2 b.2
  have hindex : verdicts.zipIdx.Pairwise fun a b => a.2 ≤ b.2 := by
    have hrange : (verdicts.zipIdx.map Prod.snd).Pairwise (· < ·) := by
      rw [List.zipIdx_map_snd]
      exact List.pairwise_lt_range'
    exact (List.pairwise_map.1 hrange).imp fun hab => Nat.le_of_lt hab
  have hperm : (completed.mergeSort fun a b => a.2 ≤ b.2).Perm verdicts.zipIdx :=
    (List.mergeSort_perm _ _).trans h
  have heq := hperm.eq_of_pairwise (fun a b ha hb hab hba => ?_) hsorted hindex
  · rw [inOrder, heq, List.zipIdx_map_fst]
  · have ha' := List.mem_zipIdx_iff_getElem?.1 (hperm.mem_iff.1 ha)
    have hb' := List.mem_zipIdx_iff_getElem?.1 hb
    have hsnd : a.2 = b.2 := Nat.le_antisymm hab hba
    rw [hsnd, hb'] at ha'
    exact Prod.ext (Option.some.inj ha').symm hsnd

/-- Verdicts reached in any order come to the entries that they come to in order. -/
theorem manifest_ofJudged {role : Role} {verdicts : List Verdict}
    {completed : List (Verdict × Nat)} (h : completed.Perm verdicts.zipIdx) :
    (Findings.ofJudged role completed).manifest =
      withIdentifiers role.ownNames (verdicts.filterMap Verdict.entry?) := by
  rw [Findings.ofJudged, inOrder_of_perm h]

/-- Verdicts reached in any order come to the same diagnostics. -/
theorem diagnostics_ofJudged (role : Role) {verdicts : List Verdict}
    {completed : List (Verdict × Nat)} (h : completed.Perm verdicts.zipIdx) :
    (Findings.ofJudged role completed).diagnostics.Perm
      (verdicts.filterMap Verdict.diagnostic?) := by
  have hperm := h.filterMap fun v => v.1.diagnostic?
  have hverdicts : (verdicts.zipIdx.filterMap fun v => v.1.diagnostic?) =
      verdicts.filterMap Verdict.diagnostic? := by
    rw [← List.zipIdx_map_fst 0 verdicts, List.filterMap_map, List.zipIdx_map_fst]
    rfl
  rwa [hverdicts] at hperm

/-- Findings about a folder that say of every file below it what becomes of it, and nothing else;
the account has a line for each file, with its location below the folder. -/
structure Accounts (fs : FileSystem) (role : Role) (root : Path) (base : Location)
    (account : List (Location × Verdict)) (found : Findings) : Prop where
  /-- The files are in the order of their locations, so that none has two lines. -/
  order : (account.map Prod.fst).Pairwise Location.Before
  /-- The account has a line for a location exactly where a file is. -/
  files : ∀ rel, rel ∈ account.map Prod.fst ↔
    ∃ content, fs.entry? (base ++ rel) = some (.file content)
  /-- Every line says what becomes of the file. -/
  fates : ∀ line ∈ account, ∃ content, fs.entry? (base ++ line.1) = some (.file content) ∧
    Fate role (root.join (ofNames line.1)) (ofNames line.1) content line.2
  /-- The entries are those of the account, under identifiers of their own. -/
  manifest : found.manifest =
    withIdentifiers role.ownNames (account.filterMap fun line => Verdict.entry? line.2)
  /-- The paths of the entries are those of the files that are entries. -/
  paths : found.manifest.map Entry.sourcePath =
    (account.filter fun line => (Verdict.entry? line.2).isSome).map fun line =>
      root.join (ofNames line.1)
  /-- The diagnostics are those of the account, in any order. -/
  diagnostics : found.diagnostics.Perm (account.filterMap fun line => line.2.diagnostic?)

/-- The entry of a file has the path of the file. -/
theorem Fate.sourcePath {role : Role} {p relative : Path} {content : Content} {v : Verdict}
    (h : Fate role p relative content v) {e : Entry} (he : v.entry? = some e) :
    e.sourcePath = p := by
  cases h with
  | unseen | other | binary | unparsable | silent => cases he
  | settled | unsettled =>
    obtain rfl := Option.some.inj he
    rfl

/-- The entries among some verdicts about files have the paths of their files. -/
theorem map_sourcePath_filterMap {α : Type} {files : List α} {verdict : α → Verdict}
    {pathOf : α → Path}
    (h : ∀ rel ∈ files, ∀ e, Verdict.entry? (verdict rel) = some e → e.sourcePath = pathOf rel) :
    (files.filterMap fun rel => Verdict.entry? (verdict rel)).map Entry.sourcePath =
      (files.filter fun rel => (Verdict.entry? (verdict rel)).isSome).map pathOf := by
  induction files with
  | nil => rfl
  | cons rel files ih =>
    have hrest := ih fun r hr => h r (List.mem_cons_of_mem _ hr)
    cases he : Verdict.entry? (verdict rel) with
    | none => simpa [he] using hrest
    | some e => simpa [he] using ⟨h rel List.mem_cons_self e he, hrest⟩

/-- Judged in any order, the files below a folder are accounted for. -/
theorem accounts_of_judged {fs : FileSystem} {role : Role} {root : Path} {base : Location}
    {files : List Location} (hvisits : visits fs root = files.map (visitOf root))
    (horder : files.Pairwise Location.Before)
    (hmem : ∀ rel, rel ∈ files ↔ ∃ content, fs.entry? (base ++ rel) = some (.file content))
    (hfates : ∀ rel ∈ files, ∃ content, fs.entry? (base ++ rel) = some (.file content) ∧
      Fate role (root.join (ofNames rel)) (ofNames rel) content
        (judge fs role root (visitOf root rel)))
    {completed : List (Verdict × Nat)} (hcompleted : completed.Perm (judged fs role root)) :
    Accounts fs role root base (files.map fun rel => (rel, judge fs role root (visitOf root rel)))
      (.ofJudged role completed) := by
  rw [judged, hvisits, List.map_map] at hcompleted
  have hfirst : (files.map fun rel => (rel, judge fs role root (visitOf root rel))).map Prod.fst =
      files := by
    rw [List.map_map]
    exact List.map_id _
  have hmanifest : (Findings.ofJudged role completed).manifest = withIdentifiers role.ownNames
      (files.filterMap fun rel => Verdict.entry? (judge fs role root (visitOf root rel))) := by
    rw [manifest_ofJudged hcompleted, List.filterMap_map]
    rfl
  refine ⟨?_, ?_, fun line hline => ?_, ?_, ?_, ?_⟩
  · rw [hfirst]
    exact horder
  · rw [hfirst]
    exact hmem
  · obtain ⟨rel, hrel, rfl⟩ := List.mem_map.1 hline
    exact hfates rel hrel
  · rw [hmanifest, List.filterMap_map]
    rfl
  · rw [hmanifest, map_withIdentifiers (fun _ _ => rfl), List.filter_map, List.map_map]
    refine map_sourcePath_filterMap fun rel hrel e he => ?_
    obtain ⟨content, -, hfate⟩ := hfates rel hrel
    exact hfate.sourcePath he
  · have hperm := diagnostics_ofJudged role hcompleted
    rw [List.filterMap_map] at hperm ⊢
    exact hperm

/-- **Every file is accounted for.** In a file tree, a scan of a folder without links below it,
all of whose directories can be listed, says of every file below the folder what becomes of it,
and nothing else. Its entries are in the order of their locations below the folder. It does not
matter in which order the files are judged. -/
theorem scan_accounts {fs : FileSystem} {root : Path} {base : Location} (role : Role)
    (htree : fs.IsTree) (hroot : fs.resolve root = .ok base)
    (hd : fs.entry? base = some .directory) (hlinks : fs.NoLinksBelow base)
    (hlist : ∀ rel, fs.entry? (base ++ rel) = some .directory →
      ∃ names, fs.listNames (root.join (ofNames rel)) = .ok names) :
    scan fs role root = .ofJudged role (judged fs role root) ∧
    ∃ account, ∀ completed, completed.Perm (judged fs role root) →
      Accounts fs role root base account (.ofJudged role completed) := by
  have hlocate := FileSystem.locate_of_resolve hroot
  have hpasses := FileSystem.passesTo_of_locate hlocate hd
  have hcheck := (FileSystem.locate_ok_cases hlocate).1
  have hholds : fs.holds root = true := by
    rw [FileSystem.holds, FileSystem.entryAt_of_resolve hroot hd]
    rfl
  have hmem : ∀ rel, rel ∈ filesBelow fs base pathBound [] ↔
      ∃ content, fs.entry? (base ++ rel) = some (.file content) :=
    fun _ => mem_filesBelow_root htree hcheck hpasses hlinks hlist hd
  refine ⟨scan_of_holds hholds role, _, fun completed hcompleted =>
    accounts_of_judged (visits_eq htree hcheck hpasses hlinks hlist hd)
      (pairwise_filesBelow htree _ _) hmem (fun rel hrel => ?_) hcompleted⟩
  obtain ⟨content, he⟩ := (hmem rel).1 hrel
  exact ⟨content, he, fate_judge role htree hcheck hpasses hlinks he⟩

/-- A folder with a handler in a directory and one next to it. -/
def nestedFiles : FileSystem where
  entries := [(["api"], .directory), (["api", "a"], .directory),
    (["api", "a", "x.ts"], .file (.text "export default function handler() \x7b\x7d")),
    (["api", "a.ts"], .file (.text "export default function handler() \x7b\x7d"))]

/-- The files of a small folder are accounted for. -/
theorem scan_accounts_sample : nestedFiles.IsTree ∧ nestedFiles.resolve ⟨"api"⟩ = .ok ["api"] ∧
    ∃ account, ∀ completed, completed.Perm (judged nestedFiles .handler ⟨"api"⟩) →
      Accounts nestedFiles .handler ⟨"api"⟩ ["api"] account (.ofJudged .handler completed) := by
  have htree : nestedFiles.IsTree := by decide +kernel
  have hroot : nestedFiles.resolve ⟨"api"⟩ = .ok ["api"] := by cbv
  have hd : nestedFiles.entry? ["api"] = some .directory := by decide
  have hlinks : nestedFiles.NoLinksBelow ["api"] :=
    (FileSystem.noLinks_of_entries (by simp [nestedFiles])).below _
  have hlocate := FileSystem.locate_of_resolve hroot
  refine ⟨htree, hroot, (scan_accounts .handler htree hroot hd hlinks fun rel he => ?_).2⟩
  refine exists_listNames_below htree (FileSystem.locate_ok_cases hlocate).1
    (FileSystem.passesTo_of_locate hlocate hd) hlinks he ?_
  have hmem := FileSystem.mem_entries_of_entry (by simp) he
  obtain rfl | rfl : rel = [] ∨ rel = ["a"] := by simpa [nestedFiles] using hmem
  · decide +kernel
  · decide +kernel

/-! ### Files with long paths -/

/-- A scan reports of a file that its path is too long, whether or not it is a source. -/
theorem error_mem_scan_of_long {fs : FileSystem} {root : Path} {base rel : Location} (role : Role)
    (htree : fs.IsTree) (hroot : fs.resolve root = .ok base)
    (hd : fs.entry? base = some .directory) (hlinks : fs.NoLinksBelow base)
    (hlist : ∀ rel, fs.entry? (base ++ rel) = some .directory →
      ∃ names, fs.listNames (root.join (ofNames rel)) = .ok names)
    {content : Content} (he : fs.entry? (base ++ rel) = some (.file content))
    (hlong : pathBound ≤ (root.join (ofNames rel)).text.utf8ByteSize) :
    .error (unreadableMessage (root.join (ofNames rel)) .nameTooLong) ∈
      (scan fs role root).diagnostics := by
  have hlocate := FileSystem.locate_of_resolve hroot
  have hpasses := FileSystem.passesTo_of_locate hlocate hd
  have hcheck := (FileSystem.locate_ok_cases hlocate).1
  have hholds : fs.holds root = true := by
    rw [FileSystem.holds, FileSystem.entryAt_of_resolve hroot hd]
    rfl
  have hmem := List.mem_map_of_mem (f := visitOf root)
    ((mem_filesBelow_root htree hcheck hpasses hlinks hlist hd).2 ⟨content, he⟩)
  have hvisit : visitOf root rel = .unreadable (root.join (ofNames rel)) .nameTooLong :=
    if_pos hlong
  rw [← visits_eq htree hcheck hpasses hlinks hlist hd, hvisit] at hmem
  have hjudged := List.mem_map_of_mem (f := judge fs role root) hmem
  rw [← List.zipIdx_map_fst 0 ((visits _ _).map _)] at hjudged
  obtain ⟨v, hv, hfst⟩ := List.mem_map.1 hjudged
  rw [scan_of_holds hholds]
  exact List.mem_filterMap.2 ⟨v, hv, by rw [hfst]; rfl⟩

/-- Slashes at the end of a text cut off nothing but empty pieces. -/
theorem split_append_slashes (s : String) (n : Nat) :
    Text.split '/' (s ++ String.ofList (List.replicate n '/')) =
      Text.split '/' s ++ List.replicate n "" := by
  induction n with
  | zero => simp
  | succ n ih =>
    have hslash : String.ofList (List.replicate (n + 1) '/') =
        String.ofList (List.replicate n '/') ++ "/" ++ "" := by
      apply String.toList_inj.1
      simp [List.replicate_succ']
    have hempty : Text.split '/' "" = [""] := by decide
    rw [hslash, ← String.append_assoc, ← String.append_assoc, Text.split_append, ih, hempty,
      List.append_assoc, ← List.replicate_succ']

theorem utf8ByteSize_slashes (n : Nat) :
    (String.ofList (List.replicate n '/')).utf8ByteSize = n := by
  induction n with
  | zero => rfl
  | succ n ih =>
    have hslash : String.ofList (List.replicate (n + 1) '/') =
        String.ofList (List.replicate n '/') ++ "/" := by
      apply String.toList_inj.1
      simp [List.replicate_succ']
    rw [hslash, String.utf8ByteSize_append, ih]
    rfl

/-- A folder that holds a note and no source. -/
def noteFiles : FileSystem where
  entries := [(["api"], .directory), (["api", "notes.txt"], .file (.text ""))]

/-- The path of the folder with slashes behind it. -/
def slashedFolder (n : Nat) : Path := ⟨"api" ++ String.ofList (List.replicate n '/')⟩

theorem utf8ByteSize_slashedFolder (n : Nat) : (slashedFolder n).text.utf8ByteSize = 3 + n := by
  rw [slashedFolder, String.utf8ByteSize_append, utf8ByteSize_slashes]
  rfl

theorem text_slashedFolder_ne (n : Nat) : (slashedFolder n).text ≠ "" := by
  simp [slashedFolder]

theorem join_slashedFolder (n : Nat) {q : Path} (hq : q.isAbsolute = false) :
    (slashedFolder (n + 1)).join q = ⟨(slashedFolder (n + 1)).text ++ q.text⟩ := by
  have hlast : (slashedFolder (n + 1)).text.toList.getLast? = some '/' := by
    simp only [slashedFolder, String.toList_append, List.replicate_succ', String.toList_ofList,
      ← List.append_assoc, List.getLast?_concat]
  rw [Path.join, if_neg (by simp [hq]), if_neg (text_slashedFolder_ne _), if_pos hlast]

theorem resolve_slashedFolder {n : Nat} (hn : n + 3 < pathBound) :
    noteFiles.resolve (slashedFolder n) = .ok ["api"] := by
  have hapi : Text.split '/' "api" = ["api"] := by decide
  have hsegments : (slashedFolder n).segments = "api" :: List.replicate n "" := by
    rw [Path.segments, slashedFolder, split_append_slashes, hapi]
    rfl
  have hstart : FileSystem.startOf (slashedFolder n).text noteFiles.workingDirectory = [] := by
    rw [Path.startOf_of_segments hsegments, if_neg (by simp)]
    rfl
  have hpasses : noteFiles.Passes FileSystem.greatestLinks [] (slashedFolder n).segments
      FileSystem.greatestLinks ["api"] := by
    rw [hsegments]
    exact .directory (by decide) (by decide) (by decide)
      (FileSystem.passes_saysNothing _ _ fun p hp => by rw [List.eq_of_mem_replicate hp]; decide)
  have hcheck : checkPath (slashedFolder n) = .ok () := by
    unfold checkPath
    rw [if_neg (by simp [slashedFolder]), if_neg (text_slashedFolder_ne n), if_neg]
    rw [utf8ByteSize_slashedFolder]
    omega
  rw [FileSystem.resolve, FileSystem.locate, hcheck, hstart]
  simp only [bind, Except.bind, hpasses.walk, pure, Except.pure]

/-- Though a folder holds no source, a scan can report an error about one of its files. -/
theorem scan_unseen_sample : noteFiles.IsTree ∧
    noteFiles.resolve (slashedFolder 4087) = .ok ["api"] ∧ noteFiles.NoLinksBelow ["api"] ∧
    (∀ rel, noteFiles.entry? (["api"] ++ rel) = some .directory →
      ∃ names, noteFiles.listNames ((slashedFolder 4087).join (ofNames rel)) = .ok names) ∧
    (∀ rel content, noteFiles.entry? (["api"] ++ rel) = some (.file content) →
      ¬ IsSource ((slashedFolder 4087).join (ofNames rel))) ∧
    .error (unreadableMessage ((slashedFolder 4087).join (ofNames ["notes.txt"])) .nameTooLong) ∈
      (scan noteFiles .handler (slashedFolder 4087)).diagnostics := by
  have htree : noteFiles.IsTree := by decide +kernel
  have hlinks : noteFiles.NoLinksBelow ["api"] :=
    (FileSystem.noLinks_of_entries (by simp [noteFiles])).below _
  have hd : noteFiles.entry? ["api"] = some .directory := by decide
  have hfile : noteFiles.entry? (["api"] ++ ["notes.txt"]) = some (.file (.text "")) := by decide
  have hresolve := resolve_slashedFolder (n := 4087) (by decide)
  have hlocate := FileSystem.locate_of_resolve hresolve
  have hpasses := FileSystem.passesTo_of_locate hlocate hd
  have hcheck := (FileSystem.locate_ok_cases hlocate).1
  have hlist : ∀ rel, noteFiles.entry? (["api"] ++ rel) = some .directory →
      ∃ names, noteFiles.listNames ((slashedFolder 4087).join (ofNames rel)) = .ok names := by
    intro rel he
    have hmem := FileSystem.mem_entries_of_entry (by simp) he
    obtain rfl : rel = [] := by simpa [noteFiles] using hmem
    refine exists_listNames_below htree hcheck hpasses hlinks hd ?_
    rw [join_slashedFolder _ (by decide), String.utf8ByteSize_append, utf8ByteSize_slashedFolder]
    decide +kernel
  refine ⟨htree, hresolve, hlinks, hlist, fun rel content he => ?_, ?_⟩
  · have hmem := FileSystem.mem_entries_of_entry (by simp) he
    obtain ⟨rfl, -⟩ : rel = ["notes.txt"] ∧ _ := by simpa [noteFiles] using hmem
    obtain ⟨init, hsegments⟩ :=
      Path.exists_segments_join (q := ofNames ["notes.txt"]) (by decide) (slashedFolder 4087)
    have hlast : ((slashedFolder 4087).join (ofNames ["notes.txt"])).segments =
        init ++ ["notes.txt"] := hsegments
    have hname := Path.fileName_of_segments hlast (by decide)
    rintro ⟨extension, hextension, hs⟩
    rw [Path.extension?, hname] at hextension
    obtain rfl : "txt" = extension := Option.some.inj hextension
    exact absurd hs (by decide)
  · refine error_mem_scan_of_long .handler htree hresolve hd hlinks hlist hfile ?_
    rw [join_slashedFolder _ (by decide), String.utf8ByteSize_append, utf8ByteSize_slashedFolder]
    decide +kernel

end FileRoutes.Manifest
