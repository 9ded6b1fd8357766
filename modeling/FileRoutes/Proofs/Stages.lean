import FileRoutes.Proofs.Findings
import FileRoutes.Proofs.Sources

/-!
# The stages of a run

In a tree without links, a run leaves the files a tree at every stage, and changes nothing
outside of its output directory but for new directories. So a folder that is apart from the
output directory has the same manifest whenever its turn comes, and a module that has been
written can be read at the end as it was written.

## The model

* `Apart` — neither of two locations is at or below the other one.
* `Course.Separate` — a run whose sources are apart from its output.
* `Course.Stage` — what holds of the files at every stage of a run.

## What is proved

* `stage_turns` — every turn begins with a stage.
* `readText_final` — a module that has been written can be read at the end.
* `manifest_of_mem_turns` — a turn finds what the folder offers at the start.
-/

namespace FileRoutes.Server

open FileSystem
open FileSystem.Action (answer filesAfter)
open FileRoutes.Path (IsBelow landing segments)

/-! ### Attempts without links -/

namespace Attempt

variable {a : Attempt}

/-- Without links, an attempt changes files at the place of its module and at locations of
temporary files. -/
theorem reaches (h : a.files.NoLinks) :
    Reaches (fun l => l = landing a.files.workingDirectory a.place ∨ IsTemporary l)
      a.files a.after := by
  have hmade : Reaches (fun l => l = landing a.files.workingDirectory a.place ∨ IsTemporary l)
    a.files a.prepared := reaches_ensureDirectory _
  obtain ⟨-, hafter⟩ | ⟨-, -, hafter⟩ := a.after_cases
  · rwa [hafter]
  · rw [hafter]
    have hwritten := (writeFile_spec (hmade.noLinks h) a.place a.text).1
    rw [hmade.keepsDirectories.here] at hwritten
    exact hmade.trans hwritten

/-- Without links, a module that has been written can be read. -/
theorem readText_after (h : a.files.NoLinks) (hs : a.succeeds = true) :
    a.after.readText a.place = .ok a.text := by
  have hmade : Reaches (fun _ => False) a.files a.prepared := reaches_ensureDirectory _
  obtain ⟨hfailed, -⟩ | ⟨-, hsucceeds, hafter⟩ := a.after_cases
  · simp [hs] at hfailed
  · rw [hafter]
    exact (writeFile_spec (hmade.noLinks h) a.place a.text).2 (hsucceeds.1 hs)

/-- Below a directory without links, an attempt leaves a tree a tree. -/
theorem isTree_after {output : Path} {base : Location} {file : String}
    (h : Ready output base a.files) (hplace : a.place = output.child file) (hf : IsBelow file)
    (ht : a.files.IsTree) : a.after.IsTree := by
  obtain ⟨hgrows, ⟨-, hsame⟩ | ⟨t, -, hno, hcases⟩⟩ := Attempt.after_below h hplace hf
  · exact hsame.isTree (hgrows.isTree ht)
  · have hremoved := (hgrows.isTree ht).remove hno
    obtain ⟨-, hsame⟩ | ⟨-, htarget, ⟨directory, name, hl, hname, hd⟩, hsame⟩ := hcases
    · exact hsame.isTree hremoved
    · rw [hl] at htarget hsame
      refine hsame.isTree (hremoved.place hname (directory_remove hno hd) fun he => ?_)
      by_cases heq : directory ++ [name] = t
      · rw [heq, entry_remove_self _ (ne_root_of_entry hno)] at he
        cases he
      · rw [entry_remove_of_ne _ heq] at he
        exact absurd he htarget

end Attempt

namespace Course

variable {c : Course}

/-! ### Places of attempts -/

theorem map_fst_folders (c : Course) : c.folders.map Prod.fst = c.config.apiFolders :=
  List.map_fst_zip (by rw [length_modulePaths, List.length_map])

theorem map_snd_folders (c : Course) :
    c.folders.map Prod.snd = modulePaths (c.config.apiFolders.map ApiFolder.directory) :=
  List.map_snd_zip (by rw [length_modulePaths, List.length_map])

/-- Every folder has its turn at its place, in order. -/
theorem map_turns (c : Course) : c.turns.map (fun t => (t.folder, t.place)) =
    c.folders.map fun pair => (pair.1, c.place pair.2) := Server.map_turns c.folders {} c.collected

theorem map_place_turns (c : Course) : c.turns.map Turn.place =
    (modulePaths (c.config.apiFolders.map ApiFolder.directory)).map c.place := by
  have hmap := congrArg (List.map Prod.snd) c.map_turns
  rw [List.map_map, List.map_map] at hmap
  rw [← map_snd_folders, List.map_map]
  exact hmap

theorem sublist_attempts_turns (turns : List Turn) :
    ((turns.flatMap Turn.attempts).map Attempt.place).Sublist (turns.map Turn.place) := by
  induction turns with
  | nil => exact .slnil
  | cons t turns ih =>
    rw [List.flatMap_cons, List.map_append, List.map_cons]
    obtain hnil | hone := t.attempts_cases
    · rw [hnil]
      exact ih.cons _
    · rw [hone]
      exact ih.cons_cons _

/-- The places of the table, the routers and the entrypoint are different. -/
theorem nodup_artifactPlaces (c : Course) : ([c.tablePath] ++ (c.turns.map Turn.place ++
    [c.place entrypointFile])).Nodup := by
  have hperm : (tableFile :: (modulePaths (c.config.apiFolders.map ApiFolder.directory) ++
      [entrypointFile])).Perm c.artifactFiles := List.Perm.cons _ (List.perm_append_singleton _ _)
  have hplaces := (hperm.nodup_iff.2 (nodup_modulePaths _)).map_on fun file hfile other hother he =>
    file_eq_of_place_eq (hperm.mem_iff.1 hfile) (hperm.mem_iff.1 hother) he
  rw [List.map_cons, List.map_append, ← map_place_turns] at hplaces
  exact hplaces

/-- The table, the routers and the entrypoint are each tried at most once, at different places. -/
theorem nodup_places (c : Course) : (c.attempts.map Attempt.place).Nodup := by
  refine c.nodup_artifactPlaces.sublist ?_
  have htable : (c.tableAttempts.map Attempt.place).Sublist [c.tablePath] := by
    obtain hnil | ⟨folder, hone⟩ := c.tableAttempts_cases
    · simp [hnil]
    · rw [hone]
      exact .refl _
  have hentry : (c.entrypointAttempts.map Attempt.place).Sublist [c.place entrypointFile] := by
    obtain hnil | hone := c.entrypointAttempts_cases
    · simp [hnil]
    · rw [hone]
      exact .refl _
  unfold attempts
  split
  · rw [List.map_append, List.map_append]
    exact htable.append ((sublist_attempts_turns _).append hentry)
  · exact List.nil_sublist _

/-! ### Modules at the end -/

/-- Without links, every attempt of a run finds no links, and relative paths start where they
did. -/
theorem noLinks_attempts (hopens : c.opens = true) (hn : c.files.NoLinks) :
    ∀ a ∈ c.attempts, a.files.NoLinks := by
  have hopened : c.opened.files.NoLinks := by
    rw [opened, (Run.ensureDirectory_answer c.options.outputPath c.start).2]
    have hreaches : Reaches (fun _ => False) c.files _ :=
      reaches_ensureDirectory c.options.outputPath
    exact hreaches.noLinks hn
  exact ((chain_final hopens).invariant (P := NoLinks) hopened
    fun _ _ h => (Attempt.reaches h).noLinks h).2

/-- No module is put at a location of temporary files. -/
theorem not_isTemporary_place {file : String} (h : file ∈ c.artifactFiles) (here : Location) :
    ¬ IsTemporary (landing here (c.place file)) := by
  rintro ⟨name, hname, hsuffix⟩
  obtain ⟨init, stem, hsegments⟩ := exists_segments_of_mem_artifactFiles h
  rw [place, Path.landing_child (isBelow_of_mem_artifactFiles h), hsegments, ← List.append_assoc,
    List.getLast?_concat] at hname
  obtain rfl := Option.some.inj hname
  obtain ⟨front, hfront⟩ := hsuffix
  have hlast := congrArg List.getLast? hfront
  simp at hlast

/-- Without links, a module that has been written can be read at the end as it was written. -/
theorem readText_final (hn : c.files.NoLinks) {a : Attempt} (ha : a ∈ c.attempts)
    (hs : a.succeeds = true) : c.final.files.readText a.place = .ok a.text := by
  have hopens := (mem_attempts_cases ha).1
  have hlinks := noLinks_attempts hopens hn
  obtain ⟨file, hfile, hplace⟩ := exists_file_of_mem_attempts ha
  obtain ⟨before, later, hattempts⟩ := List.append_of_mem ha
  have hother : ∀ b ∈ later, b.place ≠ a.place := fun b hb he => by
    have hnodup := c.nodup_places
    rw [hattempts, List.map_append, List.map_cons] at hnodup
    have hrest := (List.nodup_cons.1 (List.nodup_append.1 hnodup).2.1).1
    exact hrest (he ▸ List.mem_map_of_mem hb)
  have hchain := chain_final hopens
  rw [hattempts] at hchain
  obtain ⟨fs, -, -, hlater⟩ := hchain.split
  have hread := Attempt.readText_after (hlinks a ha) hs
  have hlast := hlater.invariant
    (P := fun fs => fs.NoLinks ∧ fs.readText a.place = .ok a.text)
    ⟨(Attempt.reaches (hlinks a ha)).noLinks (hlinks a ha), hread⟩ fun b hb ⟨hnb, hreadb⟩ => by
    have hreaches := Attempt.reaches hnb
    have hentry := ((readText_eq_ok_iff hnb).1 hreadb).2
    refine ⟨hreaches.noLinks hnb, readText_kept hnb (hreaches.noLinks hnb)
      hreaches.keepsDirectories hreadb (hreaches.file_kept ?_ hentry)⟩
    rw [hplace]
    rintro (he | htemporary)
    · have hb' : b ∈ c.attempts := by
        rw [hattempts]
        exact List.mem_append_right _ (List.mem_cons_of_mem _ hb)
      obtain ⟨other, hother', hplace'⟩ := exists_file_of_mem_attempts hb'
      rw [hplace'] at he
      have hsame := Path.landing_child_inj (isBelow_of_mem_artifactFiles hfile)
        (isBelow_of_mem_artifactFiles hother') he
      exact hother b hb (by rw [hplace, hplace', hsame])
    · exact not_isTemporary_place hfile _ htemporary
  exact hlast.1.2

end Course

/-! ### Sources apart from the output -/

/-- Neither of two locations is at or below the other one. -/
def Apart (l m : Location) : Prop := ¬ l <+: m ∧ ¬ m <+: l

instance (l m : Location) : Decidable (Apart l m) := inferInstanceAs (Decidable (_ ∧ _))

/-- Nothing at or below the first location is at or below the second one. -/
theorem Apart.not_isPrefix {l m : Location} (h : Apart l m) (rel : Location) :
    ¬ m <+: l ++ rel := fun hm =>
  (List.prefix_or_prefix_of_prefix hm (List.prefix_append l rel)).elim h.2 h.1

namespace Course

/-- The directories that the config of a run names. -/
def directories (c : Course) : List String :=
  c.config.apiFolders.map ApiFolder.directory ++
    (c.config.middlewareFolder.toList ++ c.config.preRunScripts.toList)

/-- Where a path leads by its text when the run starts. -/
def site (c : Course) (p : Path) : Location := landing c.files.workingDirectory p

/-- A run on a tree without links whose sources are apart from its output: the configured
directories do not go up, and none of them is at, above or below the output directory. The
project root is absolute, and it does not go up either or is there. -/
structure Separate (c : Course) : Prop where
  /-- The files form a tree. -/
  tree : c.files.IsTree
  /-- No entry is a link. -/
  noLinks : c.files.NoLinks
  /-- The word for the process can be part of a name. -/
  tag : '/' ∉ c.files.processTag.toList
  /-- The project root is absolute. -/
  root : c.options.projectRoot.isAbsolute = true
  /-- After a first part that can be followed, it does not go up. -/
  descends : c.files.Descends c.options.projectRoot
  /-- The configured directories do not go up. -/
  noUp : ∀ d ∈ c.directories, ".." ∉ segments ⟨d⟩
  /-- They are apart from the output directory. -/
  apart : ∀ d ∈ c.directories, Apart (c.site (c.options.resolve d)) (c.site c.options.outputPath)

/-! ### What holds at every stage -/

/-- What holds of the files at every stage of a run on a tree without links, once its output
directory is there. -/
structure Stage (c : Course) (fs : FileSystem) : Prop
    extends Ready c.options.outputPath (c.site c.options.outputPath) fs where
  /-- The files form a tree. -/
  tree : fs.IsTree
  /-- No entry is a link. -/
  plain : fs.NoLinks
  /-- The directories of the start are still there. -/
  ways : KeepsDirectories c.files fs
  /-- What is outside of the output directory stays. -/
  kept : ∀ l, ¬ c.site c.options.outputPath <+: l → Kept l c.files fs

variable {c : Course}

theorem stage_opened (hopens : c.opens = true) (ht : c.files.IsTree) (hn : c.files.NoLinks)
    (htag : '/' ∉ c.files.processTag.toList) : c.Stage c.opened.files := by
  have hgrows := grows_opened ht.toGrounded
  have hplain := hgrows.noLinks hn
  obtain ⟨base, houtput, hready⟩ :=
    exists_ready hopens ht.toGrounded htag fun base _ => hn.below base
  have hbase : base = c.site c.options.outputPath := by
    rw [houtput.eq_landing hplain, site, hgrows.workingDirectory]
  rw [hbase] at hready
  exact ⟨hready, hgrows.isTree ht, hplain, hgrows.keepsWays.toKeepsDirectories,
    fun l _ => hgrows.kept l⟩

/-- Every attempt of a run leads from one stage to the next. -/
theorem Stage.after {a : Attempt} {file : String} (h : c.Stage a.files)
    (hfile : file ∈ c.artifactFiles) (hplace : a.place = c.place file) : c.Stage a.after := by
  have hbelow := isBelow_of_mem_artifactFiles hfile
  have hreaches := Attempt.reaches h.plain
  have hways := hreaches.keepsDirectories
  refine ⟨(h.toReady.after hplace hbelow).1, Attempt.isTree_after h.toReady hplace hbelow h.tree,
    hreaches.noLinks h.plain, ⟨hways.here.trans h.ways.here, fun l hl =>
      hways.directories l (h.ways.directories l hl)⟩, fun l hl => ?_⟩
  exact (h.kept l hl).trans ((Attempt.kept_after h.tree.toGrounded).2 l
    (Attempt.not_takes_of_outside h.toReady hplace hbelow hl))

theorem Stage.after_of_mem {a : Attempt} (h : c.Stage a.files) (ha : a ∈ c.attempts) :
    c.Stage a.after := by
  obtain ⟨file, hfile, hplace⟩ := exists_file_of_mem_attempts ha
  exact h.after hfile hplace

theorem attempts_of_opens (hopens : c.opens = true) : c.attempts =
    c.tableAttempts ++ (c.turns.flatMap Turn.attempts ++ c.entrypointAttempts) := if_pos hopens

theorem mem_attempts_of_mem_turns (hopens : c.opens = true) {t : Turn} (ht : t ∈ c.turns)
    {a : Attempt} (ha : a ∈ t.attempts) : a ∈ c.attempts := by
  rw [attempts_of_opens hopens]
  exact List.mem_append_right _ (List.mem_append_left _ (List.mem_flatMap.2 ⟨t, ht, ha⟩))

/-- Every turn begins with a stage, and so does the entrypoint. -/
theorem stage_turns (hopens : c.opens = true) (h : c.Stage c.opened.files) :
    (∀ t ∈ c.turns, c.Stage t.start.files) ∧ c.Stage c.routed.files := by
  have hcollected : c.Stage c.collected.files := by
    refine (c.chain_collected.1.invariant (P := c.Stage) h fun a ha hs => hs.after_of_mem ?_).1
    rw [attempts_of_opens hopens]
    exact List.mem_append_left _ ha
  exact invariant_turns c.folders {} c.collected hcollected fun t ht a ha hs =>
    hs.after_of_mem (mem_attempts_of_mem_turns hopens ht ha)

theorem stage_final (hopens : c.opens = true) (h : c.Stage c.opened.files) :
    c.Stage c.final.files :=
  ((chain_final hopens).invariant (P := c.Stage) h fun _ ha hs => hs.after_of_mem ha).1

/-! ### Folders at every stage -/

/-- At every stage, a configured directory leads to where its text does, if that is there. -/
theorem Stage.leadsDown {fs : FileSystem} (hs : c.Stage fs) (h : c.Separate) {d : String}
    (hd : d ∈ c.directories) :
    Manifest.LeadsDown fs (c.options.resolve d) (c.site (c.options.resolve d)) := by
  have hways : KeepsWays c.files fs := ⟨hs.ways, fun l target he => absurd he (h.noLinks l target)⟩
  have hdown := ((h.descends.join (h.noUp d hd)).kept hways).leadsDown hs.tree hs.plain
  rw [hs.ways.here] at hdown
  exact hdown

/-- At every stage, the manifest of a configured folder is that of the start. -/
theorem Stage.manifest_eq {fs : FileSystem} (hs : c.Stage fs) (h : c.Separate) {d : String}
    (hd : d ∈ c.directories) (role : Role) :
    (Manifest.scan fs role (c.options.resolve d)).manifest =
      (Manifest.scan c.files role (c.options.resolve d)).manifest :=
  Manifest.manifest_kept h.tree hs.tree (h.noLinks.below _) (hs.plain.below _)
    ((h.descends.join (h.noUp d hd)).leadsDown h.tree h.noLinks) (hs.leadsDown h hd)
    fun rel => hs.kept _ ((h.apart d hd).not_isPrefix rel)

theorem mem_directories_of_mem_folders {pair : ApiFolder × String} (h : pair ∈ c.folders) :
    pair.1.directory ∈ c.directories :=
  List.mem_append_left _ (List.mem_map_of_mem (List.of_mem_zip (a := pair.1) h).1)

theorem exists_pair_of_mem_turns {t : Turn} (ht : t ∈ c.turns) :
    ∃ pair ∈ c.folders, t = turnOf c.options c.known pair t.start :=
  Server.exists_pair_of_mem_turns ht

/-- A turn finds what the folder holds at the start. -/
theorem manifest_of_mem_turns (h : c.Separate) (hopens : c.opens = true) {t : Turn}
    (ht : t ∈ c.turns) : t.manifest =
      (Manifest.scan c.files .handler (c.options.resolve t.folder.directory)).manifest := by
  obtain ⟨pair, hpair, hturn⟩ := exists_pair_of_mem_turns ht
  have hstage := (stage_turns hopens (stage_opened hopens h.tree h.noLinks h.tag)).1 t ht
  have hmanifest := hstage.manifest_eq h (mem_directories_of_mem_folders hpair) .handler
  rw [hturn]
  exact hmanifest

end Course

end FileRoutes.Server
