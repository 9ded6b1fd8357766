import FileRoutes.Proofs.Companions

/-!
# What a run depends on

A run is told apart from another one only by the files that a watcher of the project looks at:
what is at or below the source folders and the output directory, and the directories on the way
there. So a change elsewhere never matters, and no change that matters is missed.

## The model

* `Watch.Covers` — a location on the way of a path, or at or below where it leads.
* `Watch.Feeds` — the locations that a run on a project depends on.
* `Twin` — two states of runs on the same project that cannot be told apart there.

## What is proved

* `companions_twin` — in such states the source folders look alike.
* `together_generate` — runs on the same project stay together.
* `Course.run_watched` — files elsewhere have no influence on a run.
-/

namespace FileRoutes

open FileSystem
open FileSystem.Action (answer filesAfter)
open FileRoutes.Path (IsBelow StaysBelow StaysIn follow landing segments)

/-! ### Watched locations -/

namespace Watch

/-- The location is on the way of an absolute path, or at or below where the path leads. -/
def Covers (p : Path) (l : Location) : Prop :=
  (∃ front, front <+: p.segments ∧ follow [] front = l) ∨ landing [] p <+: l

instance (p : Path) (l : Location) : Decidable (Covers p l) :=
  decidable_of_iff ((∃ front ∈ p.segments.inits, follow [] front = l) ∨ landing [] p <+: l)
    (by simp only [Covers, List.mem_inits])

/-- A run on a project depends on the location: a path of a source folder or of the output
directory covers it. -/
def Feeds (config : Config) (options : GenerateOptions) (l : Location) : Prop :=
  ∃ p ∈ options.outputPath :: targets config options, Covers p l

instance (config : Config) (options : GenerateOptions) (l : Location) :
    Decidable (Feeds config options l) := inferInstanceAs (Decidable (∃ p ∈ _, Covers p l))

variable {config : Config} {options : GenerateOptions} {p : Path} {d : String}

section paths

variable (h : p ∈ options.outputPath :: targets config options)
include h

theorem feeds_below (rel : Location) : Feeds config options (landing [] p ++ rel) :=
  ⟨p, h, .inr (List.prefix_append _ _)⟩

theorem staysIn_feeds (hp : p.isAbsolute = true) : StaysIn (Feeds config options) p :=
  ⟨hp, fun front hf => ⟨p, h, .inl ⟨front, hf, rfl⟩⟩⟩

end paths

end Watch

open Watch (Feeds)

namespace Server

/-! ### Two runs -/

/-- Two states of runs whose files agree and that have reported and recorded the same. -/
structure Even (d : Location → Prop) (s s' : Run.State) : Prop where
  /-- The files agree. -/
  agree : Agree d s.files s'.files
  /-- The same has been reported. -/
  log : s.log = s'.log
  /-- The same has been recorded. -/
  written : s.written = s'.written

section even

variable {d : Location → Prop} {s s' : Run.State} {p : Path}

theorem reports_even (d : Location → Prop) : Reports (Even d) where
  report h ds := ⟨h.agree, congrArg (· ++ ds) h.log, h.written⟩
  record h w := ⟨h.agree, h.log, congrArg (· ++ [w]) h.written⟩

/-- Files that are changed in step stay in agreement. -/
theorem Even.change {α : Type} {x : Action α} (h : Even d s s')
    (hx : InStep d x x s.files s'.files) :
    Together (Even d) (Run.change x) (Run.change x) s s' :=
  ⟨hx.answers, hx.agree, h.log, h.written⟩

/-- A module is written alike where the files agree on its place and below its directory. -/
theorem even_writeModule (h : Even d s s') (hp : StaysIn d p) (hdirectory : StaysIn d p.directory)
    (hbelow : ∀ rel, d (landing [] p.directory ++ rel)) (m : Emit.Generated)
    (hg : s.files.Grounded) (htag : '/' ∉ s.files.processTag.toList) :
    Together (Even d) (Run.writeModule p m) (Run.writeModule p m) s s' := by
  refine together_writeModule_of_changes (reports_even d) h
    (h.change (inStep_ensureDirectory h.agree hdirectory)) fun text _ _ t t' ht hR => ?_
  refine hR.change (inStep_writeFile hR.agree hp text hdirectory hbelow ?_)
  rw [ht, (grows_ensureDirectory hg p.directory).processTag]
  exact htag

end even

/-! ### Runs on watched files -/

/-- Two states of runs on one project, with the output directory there, that cannot be told apart
where the project is watched: in trees without links, the files agree there, and the runs have
reported and recorded the same. -/
structure Twin (config : Config) (options : GenerateOptions) (s s' : Run.State) : Prop
    extends Even (Feeds config options) s s' where
  /-- The output directory of the first run is there. -/
  ready : Ready options.outputPath (landing [] options.outputPath) s.files
  /-- The output directory of the second run is there. -/
  ready' : Ready options.outputPath (landing [] options.outputPath) s'.files
  /-- The files of the first run form a tree. -/
  tree : s.files.IsTree
  /-- The files of the second run form a tree. -/
  tree' : s'.files.IsTree

/-- Writing a module below the output directory leaves that directory and the tree. -/
theorem ready_writeModule {output : Path} {base : Location} {file : String} {s : Run.State}
    (h : Ready output base s.files) (ht : s.files.IsTree) (hf : IsBelow file) (m : Emit.Generated) :
    Ready output base ((Run.writeModule (output.child file) m).after s).files ∧
      ((Run.writeModule (output.child file) m).after s).files.IsTree := by
  cases hm : m.render with
  | error e =>
    have hsame : ((Run.writeModule (output.child file) m).after s).files = s.files := by
      unfold Run.writeModule
      rw [hm]
      rfl
    rw [hsame]
    exact ⟨h, ht⟩
  | ok text =>
    rw [(Run.writeModule_answer hm s).2]
    let a : Attempt := ⟨s.files, output.child file, m, text, hm⟩
    exact ⟨(h.after (a := a) rfl hf).1, Attempt.isTree_after (a := a) h rfl hf ht⟩

section twin

variable {config : Config} {options : GenerateOptions} {s s' : Run.State}

/-- In such states the source folders look alike. -/
theorem companions_twin (hroot : options.projectRoot.isAbsolute = true) :
    Companions config options (Twin config options) where
  report h ds := { h with toEven := (reports_even _).report h.toEven ds }
  record h w := { h with toEven := (reports_even _).record h.toEven w }
  looks h d hd := by
    have hmem := List.mem_cons_of_mem options.outputPath hd
    exact ⟨h.tree, h.tree', _, h.agree.toAlike,
      Watch.staysIn_feeds hmem (Path.isAbsolute_join hroot _), Watch.feeds_below hmem⟩

/-- A module below the output directory is written alike. -/
theorem together_writeModule (hroot : options.projectRoot.isAbsolute = true)
    (h : Twin config options s s') {file : String} (hf : IsBelow file) (m : Emit.Generated) :
    Together (Twin config options) (Run.writeModule (options.outputPath.child file) m)
      (Run.writeModule (options.outputPath.child file) m) s s' := by
  have hmem : options.outputPath ∈ options.outputPath :: Watch.targets config options :=
    List.mem_cons_self
  have houtput := Watch.staysIn_feeds hmem (Path.isAbsolute_join hroot _)
  have hunder := Watch.feeds_below hmem
  have hplace := houtput.join (.of_isBelow hf) hunder
  have hdirectory : StaysIn (Feeds config options) (options.outputPath.child file).directory :=
    hplace.directory ((Path.isAbsolute_directory_child hf _).trans houtput.absolute)
  have hbelow : ∀ rel,
      Feeds config options (landing [] (options.outputPath.child file).directory ++ rel) := by
    intro rel
    obtain ⟨init, name, hsegments, -⟩ := hf.exists_name
    obtain ⟨last, hlast⟩ := Path.landing_directory_child hf options.outputPath []
    rw [Path.landing_child hf, hsegments, ← List.append_assoc] at hlast
    rw [← (List.append_inj' hlast rfl).1, List.append_assoc]
    exact hunder _
  have heven := even_writeModule h.toEven hplace hdirectory hbelow m h.tree.toGrounded h.ready.tag
  obtain ⟨hready, htree⟩ := ready_writeModule h.ready h.tree hf m
  obtain ⟨hready', htree'⟩ := ready_writeModule h.ready' h.tree' hf m
  exact ⟨heven.results, heven.related, hready, hready', htree, htree'⟩

end twin

namespace Course

variable {c : Course} {files' : FileSystem}

/-- In a tree without links, a run that gets its output directory has it where its path leads. -/
theorem ready_opened (hroot : c.options.projectRoot.isAbsolute = true) (ht : c.files.IsTree)
    (hn : c.files.NoLinks) (htag : '/' ∉ c.files.processTag.toList) (hopens : c.opens = true) :
    Ready c.options.outputPath (landing [] c.options.outputPath) c.opened.files ∧
      c.opened.files.IsTree := by
  have hstage := stage_opened hopens ht hn htag
  have hsite : c.site c.options.outputPath = landing [] c.options.outputPath := by
    have habsolute : c.options.outputPath.isAbsolute = true := Path.isAbsolute_join hroot _
    rw [site, landing, landing, Path.startOf_of_isAbsolute habsolute,
      Path.startOf_of_isAbsolute habsolute]
  rw [← hsite]
  exact ⟨hstage.toReady, hstage.tree⟩

/-- Runs on trees without links that agree where the project is watched stay in agreement. -/
theorem together_generate (hroot : c.options.projectRoot.isAbsolute = true) (ht : c.files.IsTree)
    (ht' : files'.IsTree) (htag : '/' ∉ c.files.processTag.toList)
    (h : Agree (Feeds c.config c.options) c.files files') :
    Together (Even (Feeds c.config c.options)) (generate c.options c.config)
      (generate c.options c.config) c.start (start { c with files := files' }) := by
  have hstart : Even (Feeds c.config c.options) c.start (start { c with files := files' }) :=
    ⟨h, rfl, rfl⟩
  unfold generate
  have hreports := reports_even (Feeds c.config c.options)
  split
  · exact together_reporting hreports hstart _ _
  · next hmixed =>
    have hmixed := Bool.eq_false_iff.2 hmixed
    have houtput : StaysIn (Feeds c.config c.options) c.options.outputPath :=
      Watch.staysIn_feeds List.mem_cons_self (Path.isAbsolute_join hroot _)
    have hmade := together_ensureDirectory hreports
      (hstart.change (inStep_ensureDirectory hstart.agree houtput))
    refine .bind hmade ?_
    split
    · exact .pure hmade.related _
    · next hsucceeded =>
      have hopens : c.opens = true := opens_iff.2 ⟨hmixed, hsucceeded⟩
      have hopens' : opens { c with files := files' } = true :=
        opens_iff.2 ⟨hmixed, hmade.results.symm.trans hsucceeded⟩
      obtain ⟨hready, htree⟩ := ready_opened hroot ht h.noLinks htag hopens
      obtain ⟨hready', htree'⟩ := ready_opened (c := { c with files := files' }) hroot ht'
        h.noLinks' (h.tag ▸ htag) hopens'
      have htwin : Twin c.config c.options c.opened _ :=
        ⟨hmade.related, hready, hready', htree, htree'⟩
      have hrun := together_generateInto (companions_twin hroot) htwin hopens
        fun a ha s s' _ hs => by
          obtain ⟨file, hfile, hplace⟩ := exists_file_of_mem_attempts ha
          rw [hplace]
          exact together_writeModule hroot hs (isBelow_of_mem_artifactFiles hfile) a.module
      exact ⟨hrun.results, hrun.related.toEven⟩

/-- **Watching misses no input.** Two trees without links that agree on everything at or below
the paths that a watcher of the project looks at, on everything at or below the output directory,
and on the directories on the way there, give the same outcome, the same diagnostics and the same
content below the output directory, whatever is elsewhere. -/
theorem run_watched (hroot : c.options.projectRoot.isAbsolute = true) (ht : c.files.IsTree)
    (ht' : files'.IsTree) (htag : '/' ∉ c.files.processTag.toList)
    (h : Agree (Feeds c.config c.options) c.files files') :
    c.outcome = outcome { c with files := files' } ∧
      c.final.log = (final { c with files := files' }).log ∧
      ∀ l, landing [] c.options.outputPath <+: l →
        c.final.files.entry? l = (final { c with files := files' }).files.entry? l := by
  obtain ⟨hresult, hrelated⟩ := together_generate hroot ht ht' htag h
  refine ⟨hresult, hrelated.log, fun l hl => hrelated.agree.entries l ?_⟩
  obtain ⟨rel, rfl⟩ := hl
  exact Watch.feeds_below List.mem_cons_self rel

/-- A file beside the folders of the sample project has no influence on its run. -/
theorem run_watched_sample :
    let files' := sampleFiles.place ["notes.txt"] (.file (.text "nothing"))
    sample.options.projectRoot.isAbsolute = true ∧ sampleFiles.IsTree ∧ files'.IsTree ∧
      '/' ∉ sampleFiles.processTag.toList ∧
      Agree (Feeds sample.config sample.options) sampleFiles files' ∧
      sample.outcome = outcome { sample with files := files' } ∧
      sample.final.log = (final { sample with files := files' }).log := by
  intro files'
  have hroot : sample.options.projectRoot.isAbsolute = true := by decide
  have ht : sampleFiles.IsTree := by decide +kernel
  have ht' : files'.IsTree := by decide +kernel
  have htag : '/' ∉ sampleFiles.processTag.toList := by decide
  have haside : ¬ Feeds sample.config sample.options ["notes.txt"] := by decide +kernel
  have hagree : Agree (Feeds sample.config sample.options) sampleFiles files' := by
    refine ⟨⟨fun l hl => ?_, noLinks_sampleFiles, ?_⟩, rfl, rfl, rfl⟩
    · rw [entry_place_of_ne]
      rintro rfl
      exact haside hl
    · exact noLinks_sampleFiles.place _ fun target => by simp
  obtain ⟨houtcome, hlog, -⟩ := run_watched (c := sample) hroot ht ht' htag hagree
  exact ⟨hroot, ht, ht', htag, hagree, houtcome, hlog⟩

end Course

end Server

end FileRoutes
