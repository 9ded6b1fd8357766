import FileRoutes.Proofs.Companions
import FileRoutes.Proofs.Mounting
import FileRoutes.Proofs.Repeats

/-!
# Running again

A run on a tree without links whose sources are apart from its output can be run again on the
files that it has left: every module is written where it has been written, or fails as it has
failed. The second run comes to the same, reports the same, and leaves the files as they are.

## The model

* `Course.left`, `Course.again` — the files that a run has left, and the run on them.
* `Course.Clear` — nothing is in the way of the temporary files of the two runs.
* `Course.Echo` — how the states of the two runs are related.

## What is proved

* `Course.run_again` — the second run comes to the same and leaves every entry as it is.
* `Course.not_idempotent` — runs that come to something else when they are run again.
-/

namespace FileRoutes.Server

open FileSystem
open FileSystem.Action (answer filesAfter)
open FileRoutes.Path (IsBelow StaysIn landing segments)

namespace Course

/-! ### The second run -/

/-- The files that a run leaves, as a process finds them that has a word of its own and has named
some temporary files. -/
def left (c : Course) (tag : String) (n : Nat) : FileSystem :=
  { c.final.files with processTag := tag, temporaries := n }

/-- The run on the files that it leaves. -/
def again (c : Course) (tag : String) (n : Nat) : Course := { c with files := c.left tag n }

/-- The number of the temporary file of an attempt, if the run begins with another number. -/
def renumbered (c : Course) (n : Nat) (a : Attempt) : Nat :=
  n + (a.files.temporaries - c.files.temporaries)

/-- Nothing is in the way of the temporary files of a run and of the run on the files that it
leaves. -/
structure Clear (c : Course) (tag : String) (n : Nat) : Prop where
  /-- The word of the second process can be part of a name. -/
  word : '/' ∉ tag.toList
  /-- Nothing is where the first run puts a temporary file. -/
  first : ∀ a ∈ c.attempts, ∀ file l, a.place = c.place file →
    IsTemporaryFor c.files.processTag a.files.temporaries (c.site c.options.outputPath) file l →
      a.prepared.entry? l = none
  /-- Nothing is where the second run puts a temporary file. -/
  second : ∀ a ∈ c.attempts, ∀ file l, a.place = c.place file →
    IsTemporaryFor tag (c.renumbered n a) (c.site c.options.outputPath) file l →
      c.final.files.entry? l = none
  /-- The system says the same to the names of both. -/
  names : ∀ a ∈ c.attempts, ∀ name, a.place.fileName? = some name →
    admitsTemporary a.place name c.files.processTag a.files.temporaries =
      admitsTemporary a.place name tag (c.renumbered n a)

variable {c : Course} {tag : String} {n : Nat}

theorem not_isMixed (h : c.options.projectRoot.isAbsolute = true) : isMixed c.options = false := by
  simp [isMixed, h]

/-- A run that does not get its output directory ends there. -/
theorem final_of_closed (hm : isMixed c.options = false) (hopens : c.opens = false) :
    c.final = c.opened := by
  have hfailed : (Run.ensureDirectory c.options.outputPath).result c.start = .failed := by
    cases hr : (Run.ensureDirectory c.options.outputPath).result c.start with
    | failed => rfl
    | succeeded => simp [opens_iff.2 ⟨hm, hr⟩] at hopens
  rw [final, generate, hm, if_neg (by decide), Run.after_bind, hfailed]
  rfl

/-! ### Attempts of the first run -/

/-- A stage is followed by a stage where directories are made below the output directory. -/
theorem Stage.grows {fs fs' : FileSystem} (h : c.Stage fs) (hg : Grows fs fs') : c.Stage fs' :=
  ⟨h.toReady.grows hg, hg.isTree h.tree, hg.noLinks h.plain,
    ⟨hg.workingDirectory.trans h.ways.here, fun l hl => hg.entry_kept (h.ways.directories l hl)⟩,
    fun l hl => (h.kept l hl).trans (hg.kept l)⟩

section attempts

variable (h : c.Separate) (hr : c.files.refusals = [])
include h hr

/-- Every attempt finds a stage, and so does who comes after the run. -/
theorem stage_attempts (hopens : c.opens = true) :
    let P fs := c.Stage fs ∧ fs.processTag = c.files.processTag ∧ fs.refusals = []
    P c.final.files ∧ ∀ a ∈ c.attempts, P a.files := by
  intro P
  have hgrows := grows_opened h.tree.toGrounded
  refine (chain_final hopens).invariant (P := P) ⟨stage_opened hopens h.tree h.noLinks h.tag,
    hgrows.processTag, refusals_of_grows hgrows hr⟩ fun a ha ⟨hs, htag, hra⟩ => ?_
  obtain ⟨hprocess, hrefusals⟩ := (Attempt.reaches hs.plain).process
  exact ⟨hs.after_of_mem ha, hprocess.trans htag, hrefusals hra⟩

variable (hclear : c.Clear tag n)
include hclear

theorem unhindered_of_mem {a : Attempt} (ha : a ∈ c.attempts) : ∃ file ∈ c.artifactFiles,
    a.Unhindered c.options.outputPath (c.site c.options.outputPath) file := by
  obtain ⟨file, hfile, hplace⟩ := exists_file_of_mem_attempts ha
  obtain ⟨hs, htag, hra⟩ := (stage_attempts h hr (mem_attempts_cases ha).1).2 a ha
  exact ⟨file, hfile, hs.toReady, hplace, isBelow_of_mem_artifactFiles hfile,
    Path.isAbsolute_join h.root _, hs.tree, hs.plain, hra,
    htag ▸ fun l hl => hclear.first a ha file l hplace hl⟩

/-- Outside of its output directory a run changes nothing once it has that. -/
theorem entry_final_outside (hopens : c.opens = true) {l : Location}
    (hl : ¬ c.site c.options.outputPath <+: l) :
    c.final.files.entry? l = c.opened.files.entry? l := by
  refine ((chain_final hopens).invariant (P := fun fs => fs.entry? l = c.opened.files.entry? l) rfl
    fun a ha he => ?_).1
  obtain ⟨file, -, hfree⟩ := unhindered_of_mem h hr hclear ha
  exact (hfree.entry_outside hl).trans he

/-- Whatever is there once an attempt has made its directory is there at the end. -/
theorem later_final {a : Attempt} (ha : a ∈ c.attempts) : Later a.prepared c.final.files := by
  obtain ⟨before, others, hattempts⟩ := List.append_of_mem ha
  have hchain := chain_final (mem_attempts_cases ha).1
  rw [hattempts] at hchain
  obtain ⟨fs, -, -, hothers⟩ := hchain.split
  obtain ⟨file, -, hfree⟩ := unhindered_of_mem h hr hclear ha
  refine (hothers.invariant (P := Later a.prepared) hfree.later fun b hb hlater => ?_).1
  have hb : b ∈ c.attempts := by
    rw [hattempts]
    exact List.mem_append_right _ (List.mem_cons_of_mem _ hb)
  obtain ⟨other, -, hother⟩ := unhindered_of_mem h hr hclear hb
  exact (hlater.trans (.of_grows hother.grows)).trans hother.later

end attempts

/-! ### The files that are left -/

theorem keepsWays_left (c : Course) (tag : String) (n : Nat) :
    KeepsWays c.final.files (c.left tag n) := ⟨⟨rfl, fun _ => id⟩, fun _ _ => id⟩

theorem isTree_left (h : c.final.files.IsTree) : (c.left tag n).IsTree :=
  ⟨⟨h.parents, h.here⟩, h.nodup, h.names⟩

theorem ready_left (h : c.Stage c.final.files) (htag : '/' ∉ tag.toList) :
    Ready c.options.outputPath (c.site c.options.outputPath) (c.left tag n) :=
  ⟨(isTree_left h.tree).toGrounded, h.leads.kept (c.keepsWays_left tag n), h.noLinks, htag⟩

/-- Whatever is there once an attempt has made its directory is there in the second run. -/
theorem later_left (h : c.Separate) (hr : c.files.refusals = []) (hclear : c.Clear tag n)
    {a : Attempt} (ha : a ∈ c.attempts) (k : Nat) : Later a.prepared (c.left tag k) :=
  (later_final h hr hclear ha).trans
    ⟨(c.keepsWays_left tag k).toKeepsDirectories, fun _ content hl => ⟨content, hl⟩⟩

/-! ### States of the two runs -/

/-- The states of a run and of the run on the files that it leaves: the first is at a stage, and
outside of the output directory it has come to the end already; the second has changed nothing but
the number of temporary files. They have reported and recorded the same. -/
structure Echo (c : Course) (tag : String) (n : Nat) (s s' : Run.State) : Prop where
  /-- The first run is at a stage. -/
  stage : c.Stage s.files
  /-- Outside of the output directory it has come to the end. -/
  outside : ∀ l, ¬ c.site c.options.outputPath <+: l →
    s.files.entry? l = c.final.files.entry? l
  /-- Both have named equally many temporary files, and the second has changed nothing else. -/
  files : ∃ i, s.files.temporaries = c.files.temporaries + i ∧ s'.files = c.left tag (n + i)
  /-- The same has been reported. -/
  log : s.log = s'.log
  /-- The same has been recorded. -/
  written : s.written = s'.written

theorem reports_echo (c : Course) (tag : String) (n : Nat) : Reports (c.Echo tag n) where
  report h ds := { h with log := congrArg (· ++ ds) h.log }
  record h w := { h with written := congrArg (· ++ [w]) h.written }

section echo

variable (h : c.Separate) (hr : c.files.refusals = [])
include h hr

/-- A configured directory looks alike in both states. -/
theorem Echo.looksAlike {s s' : Run.State} (hs : c.Echo tag n s s') (hopens : c.opens = true)
    {d : String} (hd : d ∈ c.directories) :
    LooksAlike s.files s'.files (c.options.resolve d) := by
  have hfinal := (stage_attempts h hr hopens).1.1
  obtain ⟨i, -, hfiles⟩ := hs.files
  have hentry : ∀ l, s'.files.entry? l = c.final.files.entry? l := fun l => by rw [hfiles]; rfl
  have habsolute : (c.options.resolve d).isAbsolute = true := Path.isAbsolute_join h.root _
  have hway := (h.descends.join (h.noUp d hd)).staysIn h.noLinks h.tree.toGrounded habsolute
  have hsite : c.site (c.options.resolve d) = landing [] (c.options.resolve d) :=
    hway.landing_eq _
  have hapart := h.apart d hd
  rw [hsite] at hapart
  refine ⟨hs.stage.tree, hfiles ▸ isTree_left hfinal.tree,
    fun l => s.files.entry? l = s'.files.entry? l, ⟨fun l => id, hs.stage.plain, ?_⟩,
    ⟨habsolute, fun front hf => ?_⟩, fun rel => ?_⟩
  · exact fun l target => hentry l ▸ hfinal.plain l target
  · rw [hentry]
    obtain hdirectory | hprefix := hway.through front hf
    · rw [hs.stage.ways.directories _ hdirectory, hfinal.ways.directories _ hdirectory]
    · exact hs.outside _ fun hl => hapart.2 (hl.trans hprefix)
  · exact (hs.outside _ (hapart.not_isPrefix rel)).trans (hentry _).symm

theorem companions_echo (hopens : c.opens = true) :
    Companions c.config c.options (c.Echo tag n) where
  toReports := c.reports_echo tag n
  looks hs d hd := by
    have hmem : c.options.resolve d ∈ c.directories.map c.options.resolve := by
      rw [directories, List.map_append, List.map_map]
      exact hd
    obtain ⟨other, hother, he⟩ := List.mem_map.1 hmem
    exact he ▸ hs.looksAlike h hr hopens hother

omit h hr in
/-- At the end a module that has been written has its text. -/
theorem entry_final_of_succeeds (hn : c.files.NoLinks) (hfinal : c.Stage c.final.files)
    {a : Attempt} (ha : a ∈ c.attempts) {file : String} (hplace : a.place = c.place file)
    (hf : IsBelow file) (hs : a.succeeds = true) : c.final.files.entry?
      (c.site c.options.outputPath ++ segments ⟨file⟩) = some (.file (.text a.text)) := by
  have hread := readText_final hn ha hs
  have hentry := ((readText_eq_ok_iff hfinal.plain).1 hread).2
  rw [hplace, place, Path.landing_child hf, hfinal.ways.here] at hentry
  exact hentry

omit h hr in
/-- A change that the second run makes again, without an effect of its own, keeps the states of the
two runs related. -/
theorem Echo.change {s s' : Run.State} (hs : c.Echo tag n s s') {action : Action Unit} {i : Nat}
    (hagain : ExceptT.run action s'.files = (answer action s.files, c.left tag (n + i)))
    (hnamed : (filesAfter action s.files).temporaries = c.files.temporaries + i)
    (hstage : c.Stage (filesAfter action s.files))
    (houtside : ∀ l, ¬ c.site c.options.outputPath <+: l →
      entry? (filesAfter action s.files) l = s.files.entry? l) :
    Together (c.Echo tag n) (Run.change action) (Run.change action) s s' := by
  refine ⟨?_, ?_, fun l hl => ?_, ⟨i, ?_, ?_⟩, hs.log, hs.written⟩
  · rw [Run.result_change, Run.result_change]
    exact (congrArg Prod.fst hagain).symm
  · exact hstage
  · exact (houtside l hl).trans (hs.outside l hl)
  · exact hnamed
  · exact congrArg Prod.snd hagain

section modules

variable {a : Attempt} {s s' : Run.State}
variable (hclear : c.Clear tag n) (ha : a ∈ c.attempts) (hs : c.Echo tag n s s')
include hclear ha hs

/-- The directory of a module is made alike. -/
theorem Echo.prepared (hfiles : s.files = a.files) :
    Together (c.Echo tag n) (Run.change (ensureDirectory a.place.directory))
      (Run.change (ensureDirectory a.place.directory)) s s' := by
  obtain ⟨file, -, hfree⟩ := unhindered_of_mem h hr hclear ha
  obtain ⟨hfinal, -, hrefusals⟩ := (stage_attempts h hr (mem_attempts_cases ha).1).1
  obtain ⟨i, hnamed, hleft⟩ := hs.files
  have hagain := hfree.ensureDirectory_again (ready_left hfinal hclear.word) hfinal.plain hrefusals
    (later_left h hr hclear ha (n + i))
  have hprepared : filesAfter (ensureDirectory a.place.directory) s.files = a.prepared := by
    rw [hfiles, Attempt.prepared]
  rw [← hleft, ← hfiles] at hagain
  refine hs.change (hagain.trans (by rw [hleft])) ?_ ?_ fun l hl => ?_
  · rw [hprepared, hfree.grows.temporaries, ← hfiles, hnamed]
  · rw [hprepared]
    exact hs.stage.grows (hfiles ▸ hfree.grows)
  · rw [hprepared, hfree.entry_prepared_outside hl, hfiles]

/-- The text of a module is written alike. -/
theorem Echo.written_again (hfiles : s.files = a.prepared)
    (hmade : answer (ensureDirectory a.place.directory) a.files = .ok ()) :
    Together (c.Echo tag n) (Run.change (writeFile a.place a.text))
      (Run.change (writeFile a.place a.text)) s s' := by
  obtain ⟨file, -, hfree⟩ := unhindered_of_mem h hr hclear ha
  obtain ⟨⟨hfinal, -, hrefusals⟩, hall⟩ := stage_attempts h hr (mem_attempts_cases ha).1
  obtain ⟨hstage, htag, -⟩ := hall a ha
  obtain ⟨i, hnamed, hleft⟩ := hs.files
  rw [hfiles, hfree.grows.temporaries] at hnamed
  have hnumber : c.renumbered n a = n + i := by
    rw [renumbered, hnamed, Nat.add_sub_cancel_left]
  obtain ⟨hagain, hcounted⟩ := hfree.writeFile_again (ready_left hfinal hclear.word) hfinal.plain
    hrefusals (later_left h hr hclear ha (n + i)) hmade
    (fun l hl => hclear.second a ha file l hfree.place (hnumber ▸ hl))
    (fun name hname => by rw [htag, hclear.names a ha name hname, hnumber]; rfl)
    (entry_final_of_succeeds h.noLinks hfinal ha hfree.place hfree.below)
  have hafter : filesAfter (writeFile a.place a.text) s.files = a.after := by
    rw [hfiles, Attempt.after_of_made hmade, Attempt.prepared]
  rw [← hleft, ← hfiles] at hagain
  refine hs.change (i := i + 1) (hagain.trans (by rw [hleft]; rfl)) ?_ ?_ fun l hl => ?_
  · rw [hfiles, hcounted, hnamed]
    rfl
  · rw [hafter]
    exact hstage.after_of_mem ha
  · rw [hafter, hfiles, hfree.entry_outside hl, hfree.entry_prepared_outside hl]

end modules

/-- Every module that the first run tries to write is written alike. -/
theorem writtenTogether_echo (hclear : c.Clear tag n) :
    WrittenTogether (c.Echo tag n) c.attempts := by
  intro a ha s s' hfiles hs
  refine together_writeModule_of_changes (c.reports_echo tag n) hs
    (hs.prepared h hr hclear ha hfiles) fun text hm hmade t t' ht hs => ?_
  obtain rfl : text = a.text := Except.ok.inj (hm.symm.trans a.rendered)
  rw [hfiles] at hmade ht
  exact hs.written_again h hr hclear ha ht hmade

/-! ### Two runs -/

/-- The states of the two runs once the first has its output directory. -/
theorem echo_opened (hclear : c.Clear tag n) (hopens : c.opens = true)
    {s' : Run.State} (hfiles : s'.files = c.left tag n) (hlog : c.opened.log = s'.log)
    (hwritten : c.opened.written = s'.written) : c.Echo tag n c.opened s' :=
  ⟨stage_opened hopens h.tree h.noLinks h.tag,
    fun _ hl => (entry_final_outside h hr hclear hopens hl).symm,
    ⟨0, (grows_opened h.tree.toGrounded).temporaries, hfiles⟩, hlog, hwritten⟩

/-- At the output directory the second run comes to the same, and it changes nothing there. -/
theorem ensureDirectory_left (tag : String) (n : Nat)
    (ho : c.opens = true ∨ c.files.Descends c.options.outputPath) :
    ExceptT.run (ensureDirectory c.options.outputPath) (c.left tag n) =
      (answer (ensureDirectory c.options.outputPath) c.files, c.left tag n) := by
  have habsolute : c.options.outputPath.isAbsolute = true := Path.isAbsolute_join h.root _
  have hmixed := not_isMixed h.root
  cases hopens : c.opens with
  | true =>
    obtain ⟨hfinal, -, hrefusals⟩ := (stage_attempts h hr hopens).1
    have hmade : answer (ensureDirectory c.options.outputPath) c.files = .ok () :=
      (Run.ensureDirectory_answer c.options.outputPath c.start).1.1 (opens_iff.1 hopens).2
    have hcheck := checkPath_of_ensureDirectory (text_ne_of_isAbsolute habsolute) hmade
    rw [hmade]
    exact ensureDirectory_of_passesTo hfinal.plain (isTree_left hfinal.tree).toGrounded hrefusals
      habsolute hcheck (hfinal.leads.kept (c.keepsWays_left tag n))
  | false =>
    have hdown := ho.resolve_left (by simp [hopens])
    have hgrows := grows_opened h.tree.toGrounded
    have hopened : c.opened.files = filesAfter (ensureDirectory c.options.outputPath) c.files :=
      (Run.ensureDirectory_answer c.options.outputPath c.start).2
    rw [← final_of_closed hmixed hopens] at hgrows hopened
    have hplain := hgrows.noLinks h.noLinks
    exact ensureDirectory_twice h.tree h.noLinks hr habsolute hdown
      (hopened ▸ ⟨fun _ _ => rfl, hplain, hplain⟩) (isTree_left (hgrows.isTree h.tree)).toGrounded
      (refusals_of_grows hgrows hr : c.final.files.refusals = []) hgrows.workingDirectory

end echo

/-! ### The small project again -/

/-- None of the files of the small project is a temporary one, if none of its modules is. -/
theorem entry_sampleAfter_of_isTemporary {texts : List (String × String)}
    (h : ∀ m ∈ texts, ¬ ".tmp".toList <:+ m.1.toList) {l : Location} (hl : IsTemporary l) :
    FileSystem.entry? (sampleAfter texts) l = none := by
  obtain ⟨name, hname, hsuffix⟩ := hl
  cases he : FileSystem.entry? (sampleAfter texts) l with
  | none => rfl
  | some e =>
    have hne : l ≠ [] := by
      rintro rfl
      cases hname
    have hlast := List.mem_of_getLast? hname
    have key : ∀ m ∈ sampleFiles.entries, ∀ s ∈ m.1, ¬ ".tmp".toList <:+ s.toList := by
      decide
    rcases List.mem_append.1 (mem_entries_of_entry hne he) with hmem | hmem
    · exact absurd hsuffix (key _ hmem name hlast)
    · rcases List.mem_cons.1 hmem with hmem | hmem
      · obtain ⟨rfl, -⟩ := Prod.mk.inj hmem
        obtain rfl : name = "out" := List.mem_singleton.1 hlast
        exact absurd hsuffix (by decide)
      · obtain ⟨m, hm, hmem⟩ := List.mem_map.1 hmem
        obtain ⟨rfl, -⟩ := Prod.mk.inj hmem
        obtain rfl : m.1 = name := Option.some.inj hname
        exact absurd hsuffix (h m hm)

/-- The names of the modules of the small project are none of temporary files. -/
theorem not_suffix_of_mem_sampleModules : ∀ m ∈ sampleModules,
    ¬ ".tmp".toList <:+ m.2.toList ∧ ∀ name ∈ m.1, ¬ ".tmp".toList <:+ name.toList := by
  decide

theorem admitsTemporary_of_mem_sampleModules : ∀ m ∈ sampleModules,
    (sample.place m.2).fileName? = some m.2 ∧
      admitsTemporary (sample.place m.2) m.2 "" m.1.length =
        admitsTemporary (sample.place m.2) m.2 "" (3 + (m.1.length - 0)) := by
  decide

/-- The files of the small project at the end are those of some modules. -/
theorem sample_left : ∃ texts, sample.final.files = sampleAfter texts ∧
    ∀ m ∈ texts, ¬ ".tmp".toList <:+ m.1.toList := by
  have hopened := sample_opened.2
  refine ((chain_final sample_opens).invariant (P := fun fs => ∃ texts, fs = sampleAfter texts ∧
    ∀ m ∈ texts, ¬ ".tmp".toList <:+ m.1.toList) ⟨[], hopened, by simp⟩ fun a ha _ => ?_).1
  obtain ⟨texts, file, hfiles, hplace, hmem⟩ := sample_attempts a ha
  obtain ⟨hfile, htexts⟩ := not_suffix_of_mem_sampleModules _ hmem
  refine ⟨_, (sample_attempt hfiles hplace hmem).2, fun m hm => ?_⟩
  rcases List.mem_append.1 hm with hm | hm
  · exact htexts _ (List.mem_map_of_mem hm)
  · rw [List.mem_singleton.1 hm]
    exact hfile

theorem sample_clear : sample.Clear "" 3 where
  word := by decide
  first a ha file l _ hl := by
    obtain ⟨texts, file, hfiles, hplace, hmem⟩ := sample_attempts a ha
    obtain ⟨hdirectory, -⟩ := spells_of_mem _ hmem
    have hout : FileSystem.Spells ⟨"/out"⟩ ["out"] := by decide
    have hends : (sampleAfter texts).EndsIn ⟨"/out"⟩ [] "out" := hout.endsIn_root
    obtain ⟨-, hsame⟩ :=
      FileSystem.ensureDirectory_of_directory hends (noLinks_sampleAfter texts) rfl
    have hprepared : a.prepared = sampleAfter texts := by
      rw [Attempt.prepared, hplace, hfiles, hdirectory]
      exact hsame
    rw [hprepared]
    refine entry_sampleAfter_of_isTemporary (fun m hm => ?_) hl.isTemporary
    exact (not_suffix_of_mem_sampleModules _ hmem).2 _ (List.mem_map_of_mem hm)
  second a ha file l _ hl := by
    obtain ⟨texts, hfinal, htexts⟩ := sample_left
    rw [hfinal]
    exact entry_sampleAfter_of_isTemporary htexts hl.isTemporary
  names a ha name hname := by
    obtain ⟨texts, file, hfiles, hplace, hmem⟩ := sample_attempts a ha
    obtain ⟨hfile, hadmits⟩ := admitsTemporary_of_mem_sampleModules _ hmem
    have hcount : a.files.temporaries = (texts.map Prod.fst).length := by
      rw [hfiles, List.length_map]
      rfl
    rw [hplace] at hname
    obtain rfl : file = name := Option.some.inj (hfile.symm.trans hname)
    rw [renumbered, hplace, hcount]
    exact hadmits

/-! ### Running again -/

/-- The second run has reported and recorded what the first one has, and it has changed nothing but
the number of temporary files. -/
structure Repeated (c : Course) (tag : String) (s s' : Run.State) : Prop where
  /-- The same has been reported. -/
  log : s.log = s'.log
  /-- The same has been recorded. -/
  written : s.written = s'.written
  /-- The files are those that the first run leaves. -/
  files : ∃ k, s'.files = c.left tag k

theorem reports_repeated (c : Course) (tag : String) : Reports (c.Repeated tag) where
  report h ds := { h with log := congrArg (· ++ ds) h.log }
  record h w := { h with written := congrArg (· ++ [w]) h.written }

/-- A run and the run on the files that it leaves stay together. -/
theorem together_again (h : c.Separate) (hr : c.files.refusals = [])
    (ho : c.opens = true ∨ c.files.Descends c.options.outputPath) (hclear : c.Clear tag n) :
    Together (c.Repeated tag) (generate c.options c.config) (generate c.options c.config) c.start
      (c.again tag n).start := by
  have hleft := ensureDirectory_left h hr tag n ho
  have hmade : Together (c.Repeated tag) (Run.ensureDirectory c.options.outputPath)
      (Run.ensureDirectory c.options.outputPath) c.start (c.again tag n).start :=
    together_ensureDirectory (c.reports_repeated tag)
      ⟨(congrArg Prod.fst hleft).symm, rfl, rfl, n, congrArg Prod.snd hleft⟩
  have hmixed := not_isMixed h.root
  rw [generate, if_neg (by simp [hmixed])]
  refine .bind hmade ?_
  split
  · exact .pure hmade.related _
  · next hsucceeded =>
    have hopens : c.opens = true := opens_iff.2 ⟨hmixed, hsucceeded⟩
    have hfiles : ((Run.ensureDirectory c.options.outputPath).after (c.again tag n).start).files =
        c.left tag n :=
      (Run.ensureDirectory_answer _ (c.again tag n).start).2.trans (congrArg Prod.snd hleft)
    have hecho := echo_opened h hr hclear hopens hfiles hmade.related.log hmade.related.written
    have hrun := together_generateInto (companions_echo h hr hopens) hecho hopens
      (writtenTogether_echo h hr hclear)
    obtain ⟨i, -, hleft⟩ := hrun.related.files
    exact ⟨hrun.results, hrun.related.log, hrun.related.written, n + i, hleft⟩

/-- **Running again changes nothing.** A run on a tree without links whose sources are apart from
its output, and of which the system refuses nothing, is run again on the files that it leaves,
whatever it comes to. If nothing is in the way of the temporary files, the second run comes to the
same, reports the same, writes the same modules and leaves the files as they are; all it changes
is the number of temporary files that have been named. -/
theorem run_again (h : c.Separate) (hr : c.files.refusals = [])
    (ho : c.opens = true ∨ c.files.Descends c.options.outputPath) (hclear : c.Clear tag n) :
    (c.again tag n).outcome = c.outcome ∧ (c.again tag n).final.log = c.final.log ∧
      (c.again tag n).final.written = c.final.written ∧
      ∃ k, (c.again tag n).final.files = c.left tag k := by
  have hrun := together_again h hr ho hclear
  exact ⟨hrun.results.symm, hrun.related.log.symm, hrun.related.written.symm, hrun.related.files⟩

/-- The small project is generated again by the same process, which has named three temporary
files. -/
theorem run_again_sample : sample.Separate ∧ sample.files.refusals = [] ∧ sample.opens = true ∧
    sample.Clear "" 3 ∧ (sample.again "" 3).outcome = sample.outcome ∧
    (sample.again "" 3).final.log = sample.final.log ∧
    ∃ k, (sample.again "" 3).final.files = sample.left "" k := by
  obtain ⟨houtcome, hlog, -, hfiles⟩ :=
    run_again sample_separate rfl (.inl sample_opens) sample_clear
  exact ⟨sample_separate, rfl, sample_opens, sample_clear, houtcome, hlog, hfiles⟩

/-! ### Runs that differ when they are run again -/

/-- A run on a tree without links from an absolute root, whose configured directories do not go up
and are apart from the output directory. -/
structure Arranged (c : Course) : Prop where
  /-- The files form a tree. -/
  tree : c.files.IsTree
  /-- No entry is a link. -/
  noLinks : c.files.NoLinks
  /-- The project root is absolute. -/
  root : c.options.projectRoot.isAbsolute = true
  /-- The configured directories do not go up, and they are apart from the output directory. -/
  directories : ∀ d ∈ c.directories, ".." ∉ segments ⟨d⟩ ∧
    Apart (c.site (c.options.resolve d)) (c.site c.options.outputPath)

/-- The run on the files that it leaves, by the same process, comes to the same, reports the same
in some order, and leaves the files as they are. -/
def Idempotent (c : Course) : Prop :=
  let twice : Course := { c with files := c.final.files }
  twice.outcome = c.outcome ∧ twice.final.log.Perm c.final.log ∧
    ∀ l, twice.final.files.entry? l = c.final.files.entry? l

/-- A run on such files. -/
def detourOn (files : FileSystem) : Course := { detour with files := files }

section detourOn

variable {made : List (Location × Entry)} (hn : (detourAfter made 3).NoLinks)
  (hout : FileSystem.entry? (detourAfter made 3) ["out"] = some .directory)
include hn hout

/-- Its output directory is there. -/
theorem detourOn_opened : (detourOn (detourAfter made 3)).opens = true ∧
    (detourOn (detourAfter made 3)).opened.files = detourAfter made 3 := by
  have houtput : detour.options.outputPath = ⟨"/out"⟩ := by decide
  have hmixed : isMixed detour.options = false := by decide
  have hspells : FileSystem.Spells ⟨"/out"⟩ ["out"] := by decide
  obtain ⟨hmade, hsame⟩ := FileSystem.ensureDirectory_of_directory
    hspells.endsIn_root hn hout
  generalize hc : detourOn (detourAfter made 3) = c
  have hoptions : c.options = detour.options := by rw [← hc]; rfl
  have hfiles : c.start.files = detourAfter made 3 := by rw [← hc]; rfl
  obtain ⟨hresult, hafter⟩ := Run.ensureDirectory_answer ⟨"/out"⟩ c.start
  rw [hfiles] at hresult hafter
  rw [opens_iff, opened, hoptions, houtput, hafter, hsame]
  exact ⟨⟨hmixed, hresult.2 hmade⟩, rfl⟩

/-- Its first attempt is that at the router of the first folder, once the way to the root is
there. -/
theorem detourOn_attempt
    (hm : (Manifest.scan (detourAfter made 3) .handler ⟨"/out/x/../../p/api"⟩).manifest ≠ []) :
    ∃ a ∈ (detourOn (detourAfter made 3)).attempts, a.files = detourAfter made 3 ∧
      a.place = ⟨"/out/" ++ "api.ts"⟩ := by
  have houtput : detour.options.outputPath = ⟨"/out"⟩ := by decide
  have hroot : detour.options.resolve "api" = ⟨"/out/x/../../p/api"⟩ := by decide
  have hfolders : detour.folders = [(⟨"api", "/a", none⟩, "api.ts"),
      (⟨"/x/y", "/b", none⟩, "x/y.ts"), (⟨"api", "/c", none⟩, "api_router.ts")] := by
    decide
  obtain ⟨hopens, hopened⟩ := detourOn_opened hn hout
  generalize hc : detourOn (detourAfter made 3) = c at hopens hopened
  have hoptions : c.options = detour.options := by rw [← hc]; rfl
  have hcollected : c.collected.files = detourAfter made 3 := by
    rw [← hopened, ← hc]
    rfl
  obtain ⟨_, _, hturns, -⟩ := turns_cons c.options c.known (⟨"api", "/a", none⟩, "api.ts")
    [(⟨"/x/y", "/b", none⟩, "x/y.ts"), (⟨"api", "/c", none⟩, "api_router.ts")] {} c.collected
  generalize ht : turnOf c.options c.known (⟨"api", "/a", none⟩, "api.ts") c.collected = u
    at hturns
  have hu : u ∈ c.turns := by
    have hsame : c.folders = detour.folders := by rw [← hc]; rfl
    rw [turns, hsame, hfolders, hturns]
    exact List.mem_cons_self
  have hmanifest : u.manifest ≠ [] := by
    rw [← ht]
    show (Manifest.scan c.collected.files .handler (c.options.resolve "api")).manifest ≠ []
    rwa [hoptions, hroot, hcollected]
  refine ⟨u.attempt, mem_attempts_of_mem_turns hopens hu ?_, ?_, ?_⟩
  · rw [Turn.attempts_of_ne hmanifest]
    exact List.mem_singleton_self _
  · rw [← ht]
    exact hcollected
  · rw [← ht]
    show Path.child c.options.outputPath "api.ts" = _
    rw [hoptions, houtput]
    decide

/-- Once the way to its root is there, the run writes the router of the first folder. -/
theorem detourOn_entry (hname : FileSystem.entry? (detourAfter made 3) ["out", "api.ts"] = none)
    (hfree : FileSystem.entry? (detourAfter made 3) ["out", ".api.ts..3.tmp"] = none)
    (hm : (Manifest.scan (detourAfter made 3) .handler ⟨"/out/x/../../p/api"⟩).manifest ≠ []) :
    (detourOn (detourAfter made 3)).final.files.entry? ["out", "api.ts"] ≠ none := by
  obtain ⟨hopens, hopened⟩ := detourOn_opened hn hout
  obtain ⟨a, ha, hfiles, hplace⟩ := detourOn_attempt hn hout hm
  obtain ⟨hsucceeds, -⟩ := detour_writes_output "api.ts" hn hfiles hplace (by decide) hout
    hname hfree
  generalize hc : detourOn (detourAfter made 3) = c at *
  have hnfinal : c.final.files.NoLinks := ((chain_final hopens).invariant (P := NoLinks)
    (by rw [hopened]; exact hn) fun _ _ h => (Attempt.reaches h).noLinks h).1
  have hread := readText_final (c := c) (by rw [← hc]; exact hn) ha hsucceeds
  have hentry := ((readText_eq_ok_iff hnfinal).1 hread).2
  have hlanding : landing c.final.files.workingDirectory a.place = ["out", "api.ts"] := by
    rw [hplace, landing, Path.startOf_of_isAbsolute (by decide)]
    decide
  rw [← hlanding, hentry]
  simp

end detourOn

/-- A root that is made in the course of a run is there in the next one, and the router of a
folder in it is written that was not written before. -/
theorem not_idempotent_detour : detour.Arranged ∧ ¬ detour.Idempotent := by
  refine ⟨⟨(by decide : (detourAfter [] 0).IsTree), noLinks_detourAfter 0 (by simp),
    by decide, by decide⟩, ?_⟩
  rintro ⟨-, -, hentries⟩
  obtain ⟨-, -, -, text, text', text'', hfinal⟩ := detour_final
  have hentry := hentries ["out", "api.ts"]
  have hfree : detour.final.files.entry? ["out", "api.ts"] = none := by
    rw [hfinal]
    rfl
  rw [hfree, hfinal] at hentry
  exact detourOn_entry (noLinks_detourAfter 3 (by simp)) rfl rfl rfl
    (detour_scan (by cbv) (by cbv) (by cbv) (by cbv)) hentry

/-- A run on a project in the root that has nothing to generate. -/
def bareRun (output : String) (files : FileSystem) : Course where
  options := ⟨⟨"/"⟩, ⟨output⟩⟩
  config := { apiFolders := [], port := 3000 }
  files := files

/-- The files of a project with one file. -/
def oneFile : FileSystem where
  entries := [(["f"], .file (.text ""))]

theorem arranged_bareRun (output : String) (files : FileSystem) (ht : files.IsTree)
    (hn : files.NoLinks) : (bareRun output files).Arranged :=
  ⟨ht, hn, (by decide : Path.isAbsolute ⟨"/"⟩ = true), by simp [directories, bareRun]⟩

/-- A run that does not get its output directory reports why. -/
theorem final_of_error {e : Error} (hm : isMixed c.options = false)
    (h : answer (ensureDirectory c.options.outputPath) c.files = .error e) :
    c.final.log = [.error ("Error creating the directory: " ++ c.options.outputPath.text ++ ": " ++
      e.message)] ∧
      c.final.files = filesAfter (ensureDirectory c.options.outputPath) c.files := by
  have hopens : c.opens = false := by
    rw [opens, h]
    simp [Except.toBool]
  have hanswer : answer (ensureDirectory c.options.outputPath) c.start.files = .error e := h
  rw [final_of_closed hm hopens, opened]
  simp only [Run.ensureDirectory, Run.after_bind, Run.result_change, hanswer]
  exact ⟨rfl, rfl⟩

/-- A run that has nothing to generate makes its output directory. -/
theorem files_bareRun {output : String} {files : FileSystem} {p : Path}
    (hp : (bareRun output files).options.outputPath = p)
    (h : answer (ensureDirectory p) files = .ok ()) :
    (bareRun output files).final.files = filesAfter (ensureDirectory p) files := by
  obtain ⟨hresult, hopened⟩ := Run.ensureDirectory_answer p (bareRun output files).start
  have hopens : (bareRun output files).opens = true := by
    rw [opens_iff, hp]
    exact ⟨not_isMixed (by decide : Path.isAbsolute ⟨"/"⟩ = true), hresult.2 h⟩
  have hchain := chain_final hopens
  have hattempts : (bareRun output files).attempts = [] := by
    have hrouters : (bareRun output files).mounted.routers = [] := rfl
    rw [attempts_of_opens hopens, entrypointAttempts_of_nil hrouters]
    rfl
  rw [hattempts, opened, hp, hopened] at hchain
  exact hchain

/-- An output directory is reached by way of a directory that is missing, and a file is above it.
Once the missing directory has been made, the file is in the way for another reason. -/
theorem not_idempotent_astray : (bareRun "x/../f/z" oneFile).Arranged ∧
    ¬ (bareRun "x/../f/z" oneFile).Idempotent := by
  generalize hc : bareRun "x/../f/z" oneFile = c
  have hoptions : (bareRun "x/../f/z" oneFile).options.outputPath = ⟨"/x/../f/z"⟩ := by
    decide
  have hmixed : isMixed (bareRun "x/../f/z" oneFile).options = false := by decide
  have hfirst : answer (ensureDirectory ⟨"/x/../f/z"⟩) oneFile = .error .alreadyExists := by cbv
  have harranged := arranged_bareRun "x/../f/z" oneFile (by decide)
    (noLinks_of_entries (by simp [oneFile]))
  rw [hc] at hoptions hmixed harranged
  refine ⟨harranged, ?_⟩
  rintro ⟨-, hlog, -⟩
  obtain ⟨hlog₁, hfinal⟩ := final_of_error (e := .alreadyExists) hmixed (by
    rw [hoptions, ← hc]
    exact hfirst)
  have hsecond : answer (ensureDirectory ⟨"/x/../f/z"⟩) c.final.files = .error .notDirectory := by
    rw [hfinal, hoptions, ← hc]
    show answer (ensureDirectory ⟨"/x/../f/z"⟩)
      (filesAfter (ensureDirectory ⟨"/x/../f/z"⟩) oneFile) = _
    cbv
  obtain ⟨hlog₂, -⟩ := final_of_error (c := { c with files := c.final.files }) hmixed
    (e := .notDirectory) (hoptions ▸ hsecond)
  rw [hlog₁, hlog₂, List.singleton_perm_singleton] at hlog
  dsimp only at hlog
  rw [hoptions] at hlog
  exact absurd hlog (by decide)

/-- The system refuses to make the output directory for a reason of its own, and later it does
not. -/
def fullDisk : FileSystem where
  refusals := [some .noSpace]

theorem not_idempotent_refused :
    (bareRun "out" fullDisk).Arranged ∧ ¬ (bareRun "out" fullDisk).Idempotent := by
  generalize hc : bareRun "out" fullDisk = c
  have hoptions : (bareRun "out" fullDisk).options.outputPath = ⟨"/out"⟩ := by decide
  have hmixed : isMixed (bareRun "out" fullDisk).options = false := by decide
  have harranged := arranged_bareRun "out" fullDisk (by decide)
    (noLinks_of_entries (by simp [fullDisk]))
  have hfirst : answer (ensureDirectory ⟨"/out"⟩) fullDisk = .error .noSpace ∧
      filesAfter (ensureDirectory ⟨"/out"⟩) fullDisk = {} := by
    constructor <;> cbv
  rw [hc] at hoptions hmixed harranged
  refine ⟨harranged, ?_⟩
  rintro ⟨-, -, hentries⟩
  obtain ⟨-, hfinal⟩ := final_of_error (e := .noSpace) hmixed (by
    rw [hoptions, ← hc]
    exact hfirst.1)
  have hempty : c.final.files = {} := by
    rw [hfinal, hoptions, ← hc]
    exact hfirst.2
  have htwice : ({ c with files := c.final.files } : Course) = bareRun "out" {} := by
    rw [hempty, ← hc]
    rfl
  have hmade : answer (ensureDirectory ⟨"/out"⟩) ({} : FileSystem) = .ok () ∧
      entry? (filesAfter (ensureDirectory ⟨"/out"⟩) ({} : FileSystem)) ["out"] =
        some .directory := by
    constructor <;> cbv
  have hentry := hentries ["out"]
  rw [htwice, hempty, files_bareRun (by decide) hmade.1, hmade.2] at hentry
  cases hentry

/-- The files of a project with middleware in which a file has the name of a temporary file, once
some entries have been made. -/
def crowdedFiles (made : List (Location × Entry)) (temporaries : Nat) : FileSystem where
  entries := [(["mw"], .directory),
    (["mw", "auth.ts"], .file (.text "export default function middleware() \x7b\x7d")),
    (["out"], .directory), (["out", ".middleware.ts..1.tmp"], .file (.text ""))] ++ made
  temporaries := temporaries

theorem noLinks_crowdedFiles (made : List (Location × Entry)) (n : Nat)
    (h : ∀ m ∈ made, ∀ target, m.2 ≠ .link target) : (crowdedFiles made n).NoLinks := by
  refine noLinks_of_entries fun m hm => ?_
  rcases List.mem_append.1 hm with hm | hm
  · have key : ∀ target, ∀ m ∈ (crowdedFiles [] 0).entries, m.2 ≠ .link target := by
      simp [crowdedFiles]
    exact fun target => key target m hm
  · exact h m hm

/-- The table of such a project is written, and the temporary file for it is gone. -/
theorem crowdedFiles_deliver {made : List (Location × Entry)} {n : Nat} (source : String)
    (hsource : Spells (Path.join ⟨"/out"⟩ ⟨temporaryNameOf "" "middleware.ts" n⟩) ["out", source])
    (hn : (crowdedFiles made n).NoLinks)
    (hplace : FileSystem.entry? (crowdedFiles made n) ["out", "middleware.ts"] ≠ some .directory)
    (hfree : FileSystem.entry? (crowdedFiles made n) ["out", source] ≠ some .directory)
    (text : String) :
    filesAfter (deliver ⟨"/out/middleware.ts"⟩ text) (crowdedFiles made n) =
      ((crowdedFiles made (n + 1)).remove ["out", source]).place ["out", "middleware.ts"]
        (.file (.text text)) := by
  have hdirectory : Path.directory ⟨"/out/middleware.ts"⟩ = ⟨"/out"⟩ := by decide
  have hout : FileSystem.entry? (crowdedFiles made n) ["out"] = some .directory := rfl
  have houtput : Spells ⟨"/out"⟩ ["out"] := by decide
  obtain ⟨hmade, hsame⟩ := ensureDirectory_of_directory houtput.endsIn_root hn
    hout
  have hspells : Spells ⟨"/out/middleware.ts"⟩ ["out", "middleware.ts"] := by decide
  have hends : (crowdedFiles made n).EndsIn (Path.join (Path.directory ⟨"/out/middleware.ts"⟩)
      ⟨(crowdedFiles made n).temporaryName "middleware.ts"⟩) ["out"] source := by
    rw [hdirectory]
    exact hsource.endsIn_folder hout
  obtain ⟨-, hwritten⟩ := writeFile_of_ok
    (by decide : Path.fileName? ⟨"/out/middleware.ts"⟩ = some "middleware.ts")
    (hspells.endsIn_folder hout) hends hn rfl hplace hfree text
  rw [deliver, Action.filesAfter_bind, hdirectory, hmade, hsame, hwritten]
  rfl

/-- The middleware of such a project is found. -/
theorem crowdedFiles_scan {made : List (Location × Entry)} {n : Nat}
    (hh : (crowdedFiles made n).holds ⟨"/mw"⟩ = true)
    (hnames : (crowdedFiles made n).listNames ⟨"/mw/"⟩ = .ok ["auth.ts"])
    (hfile : (crowdedFiles made n).isDirectory ⟨"/mw/auth.ts"⟩ = .ok false)
    (hread : (crowdedFiles made n).readText ⟨"/mw/auth.ts"⟩ =
      .ok "export default function middleware() \x7b\x7d") :
    (Manifest.scan (crowdedFiles made n) .middleware ⟨"/mw"⟩).manifest ≠ [] := by
  rw [Manifest.scan_of_source ⟨"/mw/"⟩ ⟨"/mw/auth.ts"⟩ "auth.ts" _ (by decide)
    (by decide) hh hnames hfile hread (by decide) parse_middleware]
  decide

/-- A run on such a project writes the table and nothing else. -/
theorem crowdedFiles_final {made : List (Location × Entry)} {n : Nat}
    (hn : (crowdedFiles made n).NoLinks)
    (hm : (Manifest.scan (crowdedFiles made n) .middleware ⟨"/mw"⟩).manifest ≠ []) :
    ∃ text, (tableRun "out" (crowdedFiles made n)).final.files =
      filesAfter (deliver ⟨"/out/middleware.ts"⟩ text) (crowdedFiles made n) := by
  have houtput : Spells ⟨"/out"⟩ ["out"] := by decide
  obtain ⟨hmade, hsame⟩ := ensureDirectory_of_directory houtput.endsIn_root hn
    (rfl : FileSystem.entry? (crowdedFiles made n) ["out"] = some .directory)
  obtain ⟨hopens, hopened⟩ := tableRun_opened "out" (crowdedFiles made n) (by decide) hmade hsame
  obtain ⟨t, hfinal⟩ := tableRun_final hopens hopened hm
  have htable : (tableRun "out" (crowdedFiles made n)).tablePath = ⟨"/out/middleware.ts"⟩ := by
    show Path.child (GenerateOptions.outputPath ⟨⟨"/"⟩, ⟨"out"⟩⟩) tableFile = _
    decide
  exact ⟨t.render, by rw [hfinal, htable]⟩

/-- A file has the name that a temporary file gets in the second run, which takes it away. -/
theorem not_idempotent_crowded : (tableRun "out" (crowdedFiles [] 0)).Arranged ∧
    ¬ (tableRun "out" (crowdedFiles [] 0)).Idempotent := by
  refine ⟨⟨(by decide : (crowdedFiles [] 0).IsTree),
    noLinks_crowdedFiles [] 0 (by simp), (by decide : Path.isAbsolute ⟨"/"⟩ = true),
    by decide⟩, ?_⟩
  rintro ⟨-, -, hentries⟩
  obtain ⟨text, hfirst⟩ := crowdedFiles_final
    (noLinks_crowdedFiles [] 0 (by simp))
    (crowdedFiles_scan (by cbv) (by cbv) (by cbv) (by cbv))
  rw [crowdedFiles_deliver ".middleware.ts..0.tmp" (by decide)
    (noLinks_crowdedFiles [] 0 (by simp)) (by decide) (by decide)] at hfirst
  have hleft : (tableRun "out" (crowdedFiles [] 0)).final.files =
      crowdedFiles [(["out", "middleware.ts"], .file (.text text))] 1 := hfirst
  have hentry := hentries ["out", ".middleware.ts..1.tmp"]
  rw [hleft] at hentry
  have hn := noLinks_crowdedFiles [(["out", "middleware.ts"], .file (.text text))] 1
    (by simp)
  obtain ⟨text', hsecond⟩ := crowdedFiles_final hn
    (crowdedFiles_scan (by cbv) (by cbv) (by cbv) (by cbv))
  rw [crowdedFiles_deliver ".middleware.ts..1.tmp" (by decide) hn
    (fun he => by cases show some (Entry.file (.text text)) = _ from he)
    (fun he => by cases show some (Entry.file (.text "")) = _ from he)] at hsecond
  have htwice := hentry.symm.trans
    (congrArg (fun fs => FileSystem.entry? fs ["out", ".middleware.ts..1.tmp"]) hsecond)
  rw [entry_place_of_ne _ (by decide), entry_remove_self _ (by simp)] at htwice
  cases htwice

/-- Neither what is made in the course of a run, nor what the system refuses, nor what has the name
of a temporary file can be left out: each of these runs differs when it is run again. -/
theorem not_idempotent : (detour.Arranged ∧ ¬ detour.Idempotent) ∧
    ((bareRun "x/../f/z" oneFile).Arranged ∧ ¬ (bareRun "x/../f/z" oneFile).Idempotent) ∧
    ((bareRun "out" fullDisk).Arranged ∧ ¬ (bareRun "out" fullDisk).Idempotent) ∧
    ((tableRun "out" (crowdedFiles [] 0)).Arranged ∧
      ¬ (tableRun "out" (crowdedFiles [] 0)).Idempotent) :=
  ⟨not_idempotent_detour, not_idempotent_astray, not_idempotent_refused, not_idempotent_crowded⟩

end Course

end FileRoutes.Server
