import FileRoutes.Proofs.Atomic
import FileRoutes.Proofs.Course

/-!
# The attempts of a run

Apart from making its output directory, a run changes files only where it tries to write a
module. This module lists these attempts, each with the files it finds: every attempt finds what
the one before it has left, and the files at the end are what the last one has left. What a run
does to files is then proved against a single attempt, whether or not that succeeds.

## The model

* `deliver` — writing a text, with the directory it goes into.
* `Attempt` — a module that a run tries to write, its text, and the files it finds.
* `Chain` — attempts one after the other.
* `Course.attempts` — those of a run: the table, a router for every folder with handlers, and
  the entrypoint.

## What is proved

* `Course.chain_final` — the files at the end are those that the attempts leave.
* `Course.written_final` — a run records the attempts that succeed.
* `Course.outcome_eq_succeeded_iff` — a run succeeds where its entrypoint is written.
* `Chain.invariant` — what every attempt keeps is kept by all of them.
-/

namespace FileRoutes

namespace FileSystem

/-- Writes a text, with the directory it goes into. -/
def deliver (p : Path) (text : String) : Action Unit := do
  ensureDirectory p.directory
  writeFile p text

end FileSystem

open FileSystem (deliver)
open FileSystem.Action (answer filesAfter answer_bind filesAfter_bind)

namespace Run

theorem ensureDirectory_answer (p : Path) (s : State) :
    ((ensureDirectory p).result s = .succeeded ↔
      answer (FileSystem.ensureDirectory p) s.files = .ok ()) ∧
      ((ensureDirectory p).after s).files = filesAfter (FileSystem.ensureDirectory p) s.files := by
  cases h : answer (FileSystem.ensureDirectory p) s.files with
  | ok u =>
    obtain ⟨hr, ha⟩ := ensureDirectory_of_ok h
    exact ⟨by simp [hr], by rw [ha]⟩
  | error e =>
    simp only [ensureDirectory, result_bind, after_bind, result_change, h]
    exact ⟨iff_of_false (by simp) (by simp), rfl⟩

theorem writeFile_answer (p : Path) (text : String) (s : State) :
    ((writeFile p text).result s = .succeeded ↔
      answer (FileSystem.writeFile p text) s.files = .ok ()) ∧
      ((writeFile p text).after s).files = filesAfter (FileSystem.writeFile p text) s.files := by
  cases h : answer (FileSystem.writeFile p text) s.files with
  | ok u =>
    obtain ⟨hr, ha⟩ := writeFile_of_ok h
    exact ⟨by simp [hr], by rw [ha]⟩
  | error e =>
    simp only [writeFile, result_bind, after_bind, result_change, h]
    exact ⟨iff_of_false (by simp) (by simp), rfl⟩

theorem writeText_answer (p : Path) (text : String) (s : State) :
    ((writeText p text).result s = .succeeded ↔ answer (deliver p text) s.files = .ok ()) ∧
      ((writeText p text).after s).files = filesAfter (deliver p text) s.files := by
  obtain ⟨hanswer, hfiles⟩ := ensureDirectory_answer p.directory s
  rw [deliver, answer_bind, filesAfter_bind]
  obtain ⟨hd, hr, ha⟩ | ⟨hd, hr, ha⟩ := writeText_cases p text s
  · rw [hr, ha]
    cases h : answer (FileSystem.ensureDirectory p.directory) s.files with
    | ok u => simp [hd, h] at hanswer
    | error e => exact ⟨iff_of_false (by simp) (by simp), hfiles⟩
  · rw [hr, ha, hanswer.1 hd, ← hfiles]
    exact writeFile_answer p text _

/-- Writing a module is delivering its text. -/
theorem writeModule_answer {p : Path} {m : Emit.Generated} {text : String}
    (hm : m.render = .ok text) (s : State) :
    ((writeModule p m).result s = .succeeded ↔ answer (deliver p text) s.files = .ok ()) ∧
      ((writeModule p m).after s).files = filesAfter (deliver p text) s.files := by
  obtain ⟨hanswer, hfiles⟩ := writeText_answer p text s
  obtain ⟨e, he, -⟩ | ⟨text', ht, hw, hr, ha⟩ | ⟨text', t, ht, hw, rfl, hr, ha⟩ :=
    writeModule_cases p m s
  · simp [hm] at he
  · obtain rfl : text = text' := Except.ok.inj (hm.symm.trans ht)
    exact ⟨by rw [hr, ← hanswer, hw], by rw [ha, hfiles]⟩
  · obtain rfl : text = text' := Except.ok.inj (hm.symm.trans ht)
    exact ⟨by rw [hr, ← hanswer, hw], by rw [ha]; exact hfiles⟩

end Run

namespace Server

open Run

/-! ### Attempts -/

/-- A module that a run tries to write. -/
structure Attempt where
  /-- The files that the attempt finds. -/
  files : FileSystem
  /-- Where the module goes. -/
  place : Path
  /-- The module. -/
  module : Emit.Generated
  /-- Its text. -/
  text : String
  /-- The text is that of the module. -/
  rendered : module.render = .ok text

namespace Attempt

/-- Whether the module is written. -/
def succeeds (a : Attempt) : Bool := (answer (deliver a.place a.text) a.files).toBool

/-- The files once the directory of the module has been made. -/
def prepared (a : Attempt) : FileSystem :=
  filesAfter (FileSystem.ensureDirectory a.place.directory) a.files

/-- The files that the attempt leaves. -/
def after (a : Attempt) : FileSystem := filesAfter (deliver a.place a.text) a.files

/-- What is recorded of an attempt that succeeds. -/
def record (a : Attempt) : Path × Emit.Generated := (a.place, a.module)

theorem succeeds_iff (a : Attempt) :
    a.succeeds = true ↔ answer (deliver a.place a.text) a.files = .ok () := by
  unfold succeeds
  cases answer (deliver a.place a.text) a.files <;> simp [Except.toBool]

/-- Writing the module of an attempt comes to what the attempt comes to. -/
theorem writeModule_eq (a : Attempt) {s : State} (hs : s.files = a.files) :
    ((writeModule a.place a.module).result s = .succeeded ↔ a.succeeds = true) ∧
      ((writeModule a.place a.module).after s).files = a.after ∧
      ((writeModule a.place a.module).after s).written =
        s.written ++ ([a].filter succeeds).map record := by
  obtain ⟨hanswer, hfiles⟩ := writeModule_answer a.rendered (p := a.place) s
  rw [hs] at hanswer hfiles
  have hsucceeds := hanswer.trans a.succeeds_iff.symm
  refine ⟨hsucceeds, hfiles, ?_⟩
  rw [written_writeModule, List.filter_singleton]
  by_cases h : a.succeeds = true
  · rw [if_pos (hsucceeds.2 h), h]
    rfl
  · rw [if_neg fun hr => h (hsucceeds.1 hr), Bool.eq_false_iff.2 h]
    rfl

/-- An attempt fails at its directory, or it comes to writing the file. -/
theorem after_cases (a : Attempt) :
    (a.succeeds = false ∧ a.after = a.prepared) ∨
    (answer (FileSystem.ensureDirectory a.place.directory) a.files = .ok () ∧
      (a.succeeds = true ↔ answer (FileSystem.writeFile a.place a.text) a.prepared = .ok ()) ∧
      a.after = filesAfter (FileSystem.writeFile a.place a.text) a.prepared) := by
  rw [succeeds_iff, Bool.eq_false_iff, Ne, succeeds_iff, after, prepared, deliver, answer_bind,
    filesAfter_bind]
  cases answer (FileSystem.ensureDirectory a.place.directory) a.files with
  | error e => exact .inl ⟨by simp, rfl⟩
  | ok u => exact .inr ⟨rfl, Iff.rfl, rfl⟩

/-- With its directory made, an attempt leaves what writing its file leaves. -/
theorem after_of_made {a : Attempt}
    (hmade : answer (FileSystem.ensureDirectory a.place.directory) a.files = .ok ()) :
    a.after = filesAfter (FileSystem.writeFile a.place a.text) a.prepared := by
  rw [after, deliver, filesAfter_bind, hmade]
  rfl

/-- An attempt comes to what making its directory and then writing its file come to. -/
theorem after_of_ok {a : Attempt} {written : FileSystem}
    (hmade : answer (FileSystem.ensureDirectory a.place.directory) a.files = .ok ())
    (hwrite : answer (FileSystem.writeFile a.place a.text) a.prepared = .ok ())
    (hfiles : filesAfter (FileSystem.writeFile a.place a.text) a.prepared = written) :
    a.succeeds = true ∧ a.after = written := by
  obtain ⟨hfailed, -⟩ | ⟨-, hsucceeds, hafter⟩ := a.after_cases
  · have hs : a.succeeds = true := a.succeeds_iff.2 (by
      rw [deliver, answer_bind, hmade]
      exact hwrite)
    simp [hfailed] at hs
  · exact ⟨hsucceeds.2 hwrite, hafter.trans hfiles⟩

end Attempt

/-- Attempts one after the other: each finds the files that the one before it has left. -/
def Chain : FileSystem → List Attempt → FileSystem → Prop
  | fs, [], fs' => fs' = fs
  | fs, a :: rest, fs' => a.files = fs ∧ Chain a.after rest fs'

namespace Chain

variable {fs fs' fs'' : FileSystem} {as bs : List Attempt}

theorem append (h : Chain fs as fs') (h' : Chain fs' bs fs'') : Chain fs (as ++ bs) fs'' := by
  induction as generalizing fs with
  | nil =>
    obtain rfl := h
    exact h'
  | cons a as ih => exact ⟨h.1, ih h.2⟩

/-- What every attempt keeps holds before each of them and at the end. -/
theorem invariant {P : FileSystem → Prop} (h : Chain fs as fs') (hfs : P fs)
    (hstep : ∀ a ∈ as, P a.files → P a.after) : P fs' ∧ ∀ a ∈ as, P a.files := by
  induction as generalizing fs with
  | nil =>
    obtain rfl := h
    exact ⟨hfs, by simp⟩
  | cons a as ih =>
    obtain ⟨rfl, hrest⟩ := h
    obtain ⟨hlast, hall⟩ := ih hrest (hstep a List.mem_cons_self hfs)
      fun b hb => hstep b (List.mem_cons_of_mem _ hb)
    exact ⟨hlast, List.forall_mem_cons.2 ⟨hfs, hall⟩⟩

/-- Attempts come to a first part of them and the rest. -/
theorem split (h : Chain fs (as ++ bs) fs'') :
    ∃ fs', Chain fs as fs' ∧ Chain fs' bs fs'' := by
  induction as generalizing fs with
  | nil => exact ⟨fs, rfl, h⟩
  | cons a as ih =>
    obtain ⟨hfs, hrest⟩ := h
    obtain ⟨fs', hfirst, hlast⟩ := ih hrest
    exact ⟨fs', ⟨hfs, hfirst⟩, hlast⟩

end Chain

/-! ### Turns -/

/-- The attempt at the router of a folder. -/
def Turn.attempt (t : Turn) : Attempt where
  files := t.start.files
  place := t.place
  module := .router t.router
  text := t.router.render
  rendered := rfl

/-- What is tried in the turn of a folder: to write its router, if it has any handlers. -/
def Turn.attempts (t : Turn) : List Attempt := if t.manifest = [] then [] else [t.attempt]

theorem Turn.attempts_of_ne {t : Turn} (h : t.manifest ≠ []) : t.attempts = [t.attempt] := if_neg h

theorem Turn.attempts_cases (t : Turn) : t.attempts = [] ∨ t.attempts = [t.attempt] := by
  by_cases h : t.manifest = []
  · exact .inl (if_pos h)
  · exact .inr (if_neg h)

theorem Turn.eq_of_mem_attempts {t : Turn} {a : Attempt} (h : a ∈ t.attempts) : a = t.attempt := by
  obtain hnil | hone := t.attempts_cases
  · simp [hnil] at h
  · simpa [hone] using h

theorem Turn.chain (t : Turn) :
    Chain t.start.files t.attempts (t.request.generate.after t.start).files ∧
      (t.succeeds = true ↔ ∃ a ∈ t.attempts, a.succeeds = true) ∧
      (if t.succeeds then [(t.place, Emit.Generated.router t.router)] else []) =
        (t.attempts.filter Attempt.succeeds).map Attempt.record := by
  unfold attempts
  by_cases hm : t.manifest = []
  · have hm' : (Manifest.scan t.start.files .handler t.request.folder).manifest = [] := hm
    have hgenerate : t.request.generate.result t.start = .failed ∧
        (t.request.generate.after t.start).files = t.start.files := by
      simp only [Router.Request.generate, result_bind, after_bind, result_scan, hm']
      exact ⟨rfl, rfl⟩
    rw [if_pos hm, hgenerate.2]
    simp [Chain, succeeds, hgenerate.1]
  · obtain ⟨s, hs, hr, ha⟩ := generate_of_ne t.request hm
    obtain ⟨hsucceeds, hfiles, -⟩ := t.attempt.writeModule_eq hs
    have hiff : t.succeeds = true ↔ t.attempt.succeeds = true := by
      rw [← hsucceeds, succeeds, decide_eq_true_iff, hr]
      exact Iff.rfl
    rw [if_neg hm, ha, Bool.eq_iff_iff.2 hiff, List.filter_singleton]
    refine ⟨⟨rfl, hfiles⟩, by simp, ?_⟩
    cases t.attempt.succeeds <;> rfl

variable {options : GenerateOptions} {known : Option Middleware.Collection}

variable (options known) in
/-- The turn of the first folder comes first, and the other turns begin with what it leaves. -/
theorem turns_cons (pair : ApiFolder × String) (rest : List (ApiFolder × String))
    (mounted : Mounted) (s : State) : ∃ mounted' s',
    turns options known (pair :: rest) mounted s =
        turnOf options known pair s :: turns options known rest mounted' s' ∧
      Chain s.files (turnOf options known pair s).attempts s'.files ∧
      (generateRouters options known (pair :: rest) mounted).after s =
        (generateRouters options known rest mounted').after s' := by
  obtain ⟨hturn, -⟩ := (turnOf options known pair s).chain
  cases hs : (turnOf options known pair s).succeeds with
  | false =>
    obtain ⟨ht, -, ha⟩ := turns_cons_of_failed hs rest mounted
    exact ⟨_, _, ht, hturn, ha⟩
  | true =>
    obtain ⟨ht, -, ha⟩ := turns_cons_of_succeeds hs rest mounted
    refine ⟨_, _, ht, ?_, ha⟩
    rw [files_addRouter]
    exact hturn

theorem chain_generateRouters (pairs : List (ApiFolder × String)) (mounted : Mounted) (s : State) :
    Chain s.files ((turns options known pairs mounted s).flatMap Turn.attempts)
      ((generateRouters options known pairs mounted).after s).files := by
  induction pairs generalizing mounted s with
  | nil => rfl
  | cons pair rest ih =>
    obtain ⟨mounted', s', ht, hturn, ha⟩ :=
      turns_cons options known pair rest mounted s
    rw [ht, ha, List.flatMap_cons]
    exact hturn.append (ih _ _)

/-- What every attempt of some turns keeps holds when each turn begins and at the end. -/
theorem invariant_turns {P : FileSystem → Prop} (pairs : List (ApiFolder × String))
    (mounted : Mounted) (s : State) (hs : P s.files)
    (hstep : ∀ t ∈ turns options known pairs mounted s, ∀ a ∈ t.attempts, P a.files → P a.after) :
    (∀ t ∈ turns options known pairs mounted s, P t.start.files) ∧
      P ((generateRouters options known pairs mounted).after s).files := by
  induction pairs generalizing mounted s with
  | nil => exact ⟨by simp [turns], hs⟩
  | cons pair rest ih =>
    obtain ⟨mounted', s', ht, hturn, ha⟩ :=
      turns_cons options known pair rest mounted s
    rw [ht] at hstep ⊢
    rw [ha]
    obtain ⟨hrest, hlast⟩ := ih mounted' s'
      (hturn.invariant hs (hstep _ List.mem_cons_self)).1
      fun t ht => hstep t (List.mem_cons_of_mem _ ht)
    exact ⟨List.forall_mem_cons.2 ⟨hs, hrest⟩, hlast⟩

/-! ### Runs -/

namespace Course

/-- The files of the modules that a run may write, as seen from the output directory. -/
def artifactFiles (c : Course) : List String :=
  tableFile :: entrypointFile :: modulePaths (c.config.apiFolders.map ApiFolder.directory)

/-- What the run comes to. -/
def outcome (c : Course) : Outcome := (generate c.options c.config).result c.start

/-- Whether the run gets its output directory. -/
def opens (c : Course) : Bool :=
  !isMixed c.options &&
    (answer (FileSystem.ensureDirectory c.options.outputPath) c.files).toBool

/-- The attempt at the middleware table of a folder. -/
def tableAttempt (c : Course) (folder : String) : Attempt where
  files := c.opened.files
  place := c.tablePath
  module := .table (c.middlewareOf folder).table
  text := (c.middlewareOf folder).table.render
  rendered := rfl

/-- The attempt at the entrypoint. -/
def entrypointAttempt (c : Course) : Attempt where
  files := c.routed.files
  place := c.place entrypointFile
  module := .entrypoint c.entrypoint
  text := Emit.unlines c.lines
  rendered := c.render_entrypoint

/-- What is tried of the middleware: to write its table, if the configured folder has any. -/
def tableAttempts (c : Course) : List Attempt :=
  match c.config.middlewareFolder with
  | none => []
  | some folder =>
    if (Manifest.scan c.opened.files .middleware (c.options.resolve folder)).manifest = [] then []
    else [c.tableAttempt folder]

/-- What is tried in the end: to write the entrypoint, if there is any router to mount. -/
def entrypointAttempts (c : Course) : List Attempt :=
  if c.mounted.routers = [] then [] else [c.entrypointAttempt]

/-- The attempts of a run that gets its output directory, in order. -/
def attempts (c : Course) : List Attempt :=
  if c.opens then
    c.tableAttempts ++ (c.turns.flatMap Turn.attempts ++ c.entrypointAttempts)
  else []

variable {c : Course}

theorem tableAttempts_cases (c : Course) :
    c.tableAttempts = [] ∨ ∃ folder, c.tableAttempts = [c.tableAttempt folder] := by
  unfold tableAttempts
  split
  · exact .inl rfl
  · split
    · exact .inl rfl
    · exact .inr ⟨_, rfl⟩

theorem eq_of_mem_tableAttempts {a : Attempt} (h : a ∈ c.tableAttempts) :
    ∃ folder, a = c.tableAttempt folder := by
  obtain hnil | ⟨folder, hone⟩ := c.tableAttempts_cases
  · simp [hnil] at h
  · exact ⟨folder, by simpa [hone] using h⟩

theorem entrypointAttempts_of_ne (h : c.mounted.routers ≠ []) :
    c.entrypointAttempts = [c.entrypointAttempt] := if_neg h

theorem entrypointAttempts_of_nil (h : c.mounted.routers = []) : c.entrypointAttempts = [] :=
  if_pos h

theorem entrypointAttempts_cases (c : Course) :
    c.entrypointAttempts = [] ∨ c.entrypointAttempts = [c.entrypointAttempt] := by
  by_cases h : c.mounted.routers = []
  · exact .inl (entrypointAttempts_of_nil h)
  · exact .inr (entrypointAttempts_of_ne h)

theorem eq_of_mem_entrypointAttempts {a : Attempt} (h : a ∈ c.entrypointAttempts) :
    a = c.entrypointAttempt := by
  obtain hnil | hone := c.entrypointAttempts_cases
  · simp [hnil] at h
  · simpa [hone] using h

/-- Collecting the middleware is the attempt at its table. -/
theorem chain_collected (c : Course) : Chain c.opened.files c.tableAttempts c.collected.files ∧
    c.collected.written = (c.tableAttempts.filter Attempt.succeeds).map Attempt.record := by
  have hopened : c.opened.written = [] := written_ensureDirectory _ _
  unfold tableAttempts
  cases hf : c.config.middlewareFolder with
  | none =>
    have hcollected : c.collected = c.opened := by
      simp only [collected, collectMiddleware, hf]
      rfl
    exact ⟨congrArg State.files hcollected, by rw [hcollected, hopened]; rfl⟩
  | some folder =>
    obtain ⟨-, hcollected⟩ := known_of_folder hf
    dsimp only
    split
    · next hm =>
      have hc : (Middleware.Collection.collect ⟨c.options.resolve folder, c.tablePath, []⟩).after
          c.opened = (error ("No middleware found in folder: " ++
            (c.options.resolve folder).text)).after ((scan .middleware
              (c.options.resolve folder)).after c.opened) := by
        simp only [Middleware.Collection.collect, after_bind, result_scan, hm]
        rfl
      rw [hcollected, hc]
      exact ⟨rfl, hopened⟩
    · next hm =>
      obtain ⟨s, hs, hw, -, hafter⟩ := Course.collect_of_ne
        ⟨c.options.resolve folder, c.tablePath, []⟩ hm
      obtain ⟨-, hfiles, hwritten⟩ := (c.tableAttempt folder).writeModule_eq hs
      have hc : c.collected = (writeModule (c.tableAttempt folder).place
          (c.tableAttempt folder).module).after s := hcollected.trans hafter
      rw [hc]
      exact ⟨⟨rfl, hfiles⟩, by rw [hwritten, hw, hopened, List.nil_append]⟩

theorem files_scripted (c : Course) : c.scripted.files = c.routed.files := by
  have hinfo : ∀ (p : Prop) [Decidable p] (message : String) (l : List String) (s : State),
      ((do if p then info message
           return l : Run (List String)).after s).files = s.files := by
    intro p _ message l s
    split <;> rfl
  unfold scripted
  cases hf : c.config.preRunScripts with
  | none =>
    simp only [preRunScripts, hf]
    rfl
  | some folder =>
    cases hl : c.routed.files.listNames (c.options.resolve folder) with
    | ok names =>
      have hh : c.routed.files.holds (c.options.resolve folder) = true := holds_of_listNames hl
      simp only [preRunScripts, hf, after_bind, result_files, after_files, hh, hl, Bool.not_true,
        Bool.false_eq_true, if_false, result_pure, after_pure]
      exact hinfo _ _ _ _
    | error e =>
      simp only [preRunScripts, hf, after_bind, result_files, after_files, hl]
      cases c.routed.files.holds (c.options.resolve folder) <;> rfl

/-- What a run tries once it has its output directory. -/
theorem chain_generateInto (c : Course) :
    Chain c.opened.files
        (c.tableAttempts ++ (c.turns.flatMap Turn.attempts ++ c.entrypointAttempts))
        ((generateInto c.options c.config).after c.opened).files ∧
      ((generateInto c.options c.config).result c.opened = .succeeded ↔
        ∃ a ∈ c.entrypointAttempts, a.succeeds = true) := by
  have hresult : (generateInto c.options c.config).result c.opened =
      if c.mounted.routers = [] then .failed
      else (writeModule (c.place entrypointFile) (.entrypoint c.entrypoint)).result c.scripted := by
    simp only [generateInto, result_bind]
    rw [← known, ← collected, ← place]
    show (if c.mounted.routers = [] then _ else _ : Run Outcome).result c.routed = _
    by_cases h : c.mounted.routers = []
    · rw [if_pos h, if_pos h]
      rfl
    · rw [if_neg h, if_neg h]
      rfl
  have hrouted : Chain c.opened.files (c.tableAttempts ++ c.turns.flatMap Turn.attempts)
      c.routed.files := c.chain_collected.1.append (chain_generateRouters c.folders {} c.collected)
  rw [hresult, after_generateInto, ← List.append_assoc]
  unfold entrypointAttempts
  by_cases h : c.mounted.routers = []
  · rw [if_pos h, if_pos h, if_pos h, List.append_nil]
    exact ⟨hrouted, by simp⟩
  · obtain ⟨hsucceeds, hfiles, -⟩ := c.entrypointAttempt.writeModule_eq c.files_scripted
    rw [if_neg h, if_neg h, if_neg h]
    refine ⟨hrouted.append ⟨rfl, hfiles⟩, hsucceeds.trans ?_⟩
    simp

/-- A run that does not get its output directory ends there; one that does goes on. -/
theorem final_of_opens (c : Course) :
    (c.opens = false ∧ c.outcome = .failed ∧ c.final.written = [] ∧
      (c.final.files = c.files ∨ c.final.files = c.opened.files)) ∨
    (c.opens = true ∧ c.final = (generateInto c.options c.config).after c.opened ∧
      c.outcome = (generateInto c.options c.config).result c.opened) := by
  unfold opens outcome final generate
  cases hm : isMixed c.options with
  | true => exact .inl ⟨rfl, rfl, rfl, .inl rfl⟩
  | false =>
    obtain ⟨hanswer, -⟩ := ensureDirectory_answer c.options.outputPath c.start
    simp only [Bool.false_eq_true, if_false, result_bind, after_bind]
    cases ha : answer (FileSystem.ensureDirectory c.options.outputPath) c.files with
    | error e =>
      have hr : (ensureDirectory c.options.outputPath).result c.start = .failed := by
        cases hr : (ensureDirectory c.options.outputPath).result c.start with
        | failed => rfl
        | succeeded => cases ha.symm.trans (hanswer.1 hr)
      rw [hr]
      exact .inl ⟨rfl, rfl, written_ensureDirectory _ _, .inr rfl⟩
    | ok u =>
      rw [hanswer.2 ha]
      exact .inr ⟨rfl, rfl, rfl⟩

/-- A run goes on where its paths are of one kind and it gets its output directory. -/
theorem opens_iff : c.opens = true ↔ isMixed c.options = false ∧
    (ensureDirectory c.options.outputPath).result c.start = .succeeded := by
  have hanswer : answer (FileSystem.ensureDirectory c.options.outputPath) c.start.files =
      answer (FileSystem.ensureDirectory c.options.outputPath) c.files := rfl
  rw [(ensureDirectory_answer c.options.outputPath c.start).1, hanswer, opens]
  cases answer (FileSystem.ensureDirectory c.options.outputPath) c.files <;> simp [Except.toBool]

/-- The files at the end are those that the attempts leave. -/
theorem chain_final (h : c.opens = true) : Chain c.opened.files c.attempts c.final.files := by
  obtain ⟨hno, -⟩ | ⟨-, hf, -⟩ := c.final_of_opens
  · simp [h] at hno
  · rw [hf, attempts, if_pos h]
    exact c.chain_generateInto.1

/-- A run succeeds exactly where its entrypoint is written. -/
theorem outcome_eq_succeeded_iff (c : Course) :
    c.outcome = .succeeded ↔ c.opens = true ∧ ∃ a ∈ c.entrypointAttempts, a.succeeds = true := by
  obtain ⟨hno, hr, -⟩ | ⟨hyes, -, hr⟩ := c.final_of_opens
  · simp [hno, hr]
  · rw [hr, c.chain_generateInto.2]
    simp [hyes]

/-- A run records the attempts that succeed. -/
theorem written_final (c : Course) :
    c.final.written = (c.attempts.filter Attempt.succeeds).map Attempt.record := by
  have hturns : ∀ ts : List Turn,
      ((ts.filter Turn.succeeds).map fun t => (t.place, Emit.Generated.router t.router)) =
        ((ts.flatMap Turn.attempts).filter Attempt.succeeds).map Attempt.record := by
    intro ts
    induction ts with
    | nil => rfl
    | cons t ts ih =>
      rw [List.flatMap_cons, List.filter_append, List.map_append, ← ih, ← t.chain.2.2]
      by_cases h : t.succeeds = true
      · rw [List.filter_cons_of_pos h, if_pos h]
        rfl
      · rw [List.filter_cons_of_neg h, if_neg h]
        rfl
  have hrouted : c.routed.written = ((c.tableAttempts ++ c.turns.flatMap Turn.attempts).filter
      Attempt.succeeds).map Attempt.record := by
    rw [written_routed, c.chain_collected.2, List.filter_append, List.map_append, ← hturns]
    rfl
  unfold attempts
  obtain ⟨hno, -, hw, -⟩ | ⟨hyes, hf, -⟩ := c.final_of_opens
  · rw [hw, hno]
    rfl
  · rw [hf, hyes, if_pos rfl, after_generateInto, ← List.append_assoc, List.filter_append,
      List.map_append, ← hrouted, entrypointAttempts]
    by_cases h : c.mounted.routers = []
    · rw [if_pos h, if_pos h]
      exact (List.append_nil _).symm
    · rw [if_neg h, if_neg h, ← c.scripts_cases.2]
      exact (c.entrypointAttempt.writeModule_eq c.files_scripted).2.2

theorem mem_written_final_iff {w : Path × Emit.Generated} : w ∈ c.final.written ↔
    ∃ a ∈ c.attempts, a.succeeds = true ∧ a.record = w := by
  simp [written_final, and_assoc]

/-! ### Places -/

theorem isBelow_of_mem_artifactFiles {file : String} (h : file ∈ c.artifactFiles) :
    Path.IsBelow file := by
  rcases List.mem_cons.1 h with rfl | h
  · decide
  · rcases List.mem_cons.1 h with rfl | h
    · decide
    · exact isBelow_of_mem_modulePaths h

/-- An attempt is at the table, at the router of a turn, or at the entrypoint. -/
theorem mem_attempts_cases {a : Attempt} (h : a ∈ c.attempts) : c.opens = true ∧
    ((a ∈ c.tableAttempts ∧ a.place = c.place tableFile) ∨
      (∃ t ∈ c.turns, a ∈ t.attempts ∧
        ∃ file ∈ modulePaths (c.config.apiFolders.map ApiFolder.directory), a.place = c.place file) ∨
      (a ∈ c.entrypointAttempts ∧ a.place = c.place entrypointFile)) := by
  unfold attempts at h
  split at h
  · next hopens =>
    refine ⟨hopens, ?_⟩
    rcases List.mem_append.1 h with h | h
    · refine .inl ⟨h, ?_⟩
      obtain ⟨folder, rfl⟩ := eq_of_mem_tableAttempts h
      rfl
    · rcases List.mem_append.1 h with h | h
      · obtain ⟨t, ht, ha⟩ := List.mem_flatMap.1 h
        obtain ⟨pair, hpair, hturn⟩ := exists_pair_of_mem_turns ht
        refine .inr (.inl ⟨t, ht, ha, pair.2, (List.of_mem_zip (a := pair.1) hpair).2, ?_⟩)
        have hplace : t.place = c.place pair.2 := by
          rw [hturn]
          rfl
        rw [Turn.eq_of_mem_attempts ha]
        exact hplace
      · refine .inr (.inr ⟨h, ?_⟩)
        rw [eq_of_mem_entrypointAttempts h]
        rfl
  · simp at h

/-- Every attempt is at the place of a module below the output directory. -/
theorem exists_file_of_mem_attempts {a : Attempt} (h : a ∈ c.attempts) :
    ∃ file ∈ c.artifactFiles, a.place = c.place file := by
  obtain ⟨-, ⟨-, hp⟩ | ⟨-, -, -, file, hfile, hp⟩ | ⟨-, hp⟩⟩ := mem_attempts_cases h
  · exact ⟨tableFile, by simp [artifactFiles], hp⟩
  · exact ⟨file, by simp [artifactFiles, hfile], hp⟩
  · exact ⟨entrypointFile, by simp [artifactFiles], hp⟩

/-- Different files have different places. -/
theorem file_eq_of_place_eq {file other : String} (h : file ∈ c.artifactFiles)
    (ho : other ∈ c.artifactFiles) (he : c.place file = c.place other) : file = other :=
  Path.landing_child_inj (isBelow_of_mem_artifactFiles h) (isBelow_of_mem_artifactFiles ho)
    (congrArg (Path.landing []) he)

/-- An attempt at the place of the entrypoint is the attempt at the entrypoint. -/
theorem mem_entrypointAttempts {a : Attempt} (h : a ∈ c.attempts)
    (hp : a.place = c.place entrypointFile) : a ∈ c.entrypointAttempts := by
  have hentry : entrypointFile ∈ c.artifactFiles := by simp [artifactFiles]
  have hnodup := nodup_modulePaths (c.config.apiFolders.map ApiFolder.directory)
  obtain ⟨-, ⟨-, hplace⟩ | ⟨-, -, -, file, hfile, hplace⟩ | ⟨hmem, -⟩⟩ := mem_attempts_cases h
  · have htable := file_eq_of_place_eq hentry (by simp [artifactFiles]) (hp.symm.trans hplace)
    exact absurd htable (by decide)
  · have he := file_eq_of_place_eq hentry (by simp [artifactFiles, hfile]) (hp.symm.trans hplace)
    rw [he] at hnodup
    exact absurd hfile (List.nodup_cons.1 (List.nodup_cons.1 hnodup).2).1
  · exact hmem

end Course

end Server

end FileRoutes
