import FileRoutes.Generate.Server
import FileRoutes.Proofs.Scans
import FileRoutes.Proofs.Successes

/-!
# Runs step by step

A step of a run has a result and leaves a state behind. This module says what these are for
the steps that everything else is made of, and which changes of the state a run is made of:
it reports, makes directories, writes the texts of modules, and records what it wrote. Every
invariant of runs is proved against these changes and not against the steps.

## The model

* `Run.result`, `Run.after` — what a step comes to, and the state after it.
* `Change` — one change of the state; `may` are the places where modules may be written.
* `Reaches` — any number of changes.

## What is proved

* `writeModule_cases` — how writing a module can end.
* `reaches_generateRouters` and its like — every step is made of changes at the places of its
  modules, and nothing that it reports is about a module without a text.
-/

namespace FileRoutes

/-- The diagnostic is about a module that has no text. -/
def Diagnostic.IsRenderFault (d : Diagnostic) : Prop :=
  "Failed to render ".toList <+: d.message.toList

namespace Run

open FileSystem.Action (answer filesAfter)

variable {α β : Type}

/-! ### Results and states -/

/-- What a step comes to. -/
def result (x : Run α) (s : State) : α := (x.run s).1

/-- The state after a step. -/
def after (x : Run α) (s : State) : State := (x.run s).2

@[simp] theorem result_pure (a : α) (s : State) : (pure a : Run α).result s = a := rfl

@[simp] theorem after_pure (a : α) (s : State) : (pure a : Run α).after s = s := rfl

@[simp] theorem result_bind (x : Run α) (f : α → Run β) (s : State) :
    (x >>= f).result s = (f (x.result s)).result (x.after s) := rfl

@[simp] theorem after_bind (x : Run α) (f : α → Run β) (s : State) :
    (x >>= f).after s = (f (x.result s)).after (x.after s) := rfl

@[simp] theorem after_report (ds : List Diagnostic) (s : State) :
    (report ds).after s = { s with log := s.log ++ ds } := rfl

@[simp] theorem after_error (message : String) (s : State) :
    (error message).after s = { s with log := s.log ++ [.error message] } := rfl

@[simp] theorem after_warning (message : String) (s : State) :
    (warning message).after s = { s with log := s.log ++ [.warning message] } := rfl

@[simp] theorem after_info (message : String) (s : State) :
    (info message).after s = { s with log := s.log ++ [.info message] } := rfl

@[simp] theorem result_files (s : State) : files.result s = s.files := rfl

@[simp] theorem after_files (s : State) : files.after s = s := rfl

@[simp] theorem result_scan (role : Role) (folder : Path) (s : State) :
    (scan role folder).result s = (Manifest.scan s.files role folder).manifest := rfl

@[simp] theorem after_scan (role : Role) (folder : Path) (s : State) :
    (scan role folder).after s =
      { s with log := s.log ++ (Manifest.scan s.files role folder).diagnostics } := rfl

@[simp] theorem result_change (action : FileSystem.Action α) (s : State) :
    (change action).result s = answer action s.files := rfl

@[simp] theorem after_change (action : FileSystem.Action α) (s : State) :
    (change action).after s = { s with files := filesAfter action s.files } := rfl

theorem ensureDirectory_of_ok {p : Path} {s : State}
    (h : answer (FileSystem.ensureDirectory p) s.files = .ok ()) :
    (ensureDirectory p).result s = .succeeded ∧ (ensureDirectory p).after s =
      { s with files := filesAfter (FileSystem.ensureDirectory p) s.files } := by
  simp only [ensureDirectory, result_bind, after_bind, result_change, after_change, h]
  exact ⟨rfl, rfl⟩

/-- Making a directory succeeds, or the fault is reported. -/
theorem ensureDirectory_cases (p : Path) (s : State) :
    (answer (FileSystem.ensureDirectory p) s.files = .ok () ∧
      (ensureDirectory p).result s = .succeeded ∧
      (ensureDirectory p).after s =
        { s with files := filesAfter (FileSystem.ensureDirectory p) s.files }) ∨
    (∃ e : FileSystem.Error, (ensureDirectory p).result s = .failed ∧
      (ensureDirectory p).after s =
        { s with
          files := filesAfter (FileSystem.ensureDirectory p) s.files
          log := s.log ++
            [.error ("Error creating the directory: " ++ p.text ++ ": " ++ e.message)] }) := by
  cases h : answer (FileSystem.ensureDirectory p) s.files with
  | ok u => exact .inl ⟨rfl, ensureDirectory_of_ok h⟩
  | error e =>
    refine .inr ⟨e, ?_⟩
    simp only [ensureDirectory, result_bind, after_bind, result_change, h]
    exact ⟨rfl, rfl⟩

theorem writeFile_of_ok {p : Path} {text : String} {s : State}
    (h : answer (FileSystem.writeFile p text) s.files = .ok ()) :
    (writeFile p text).result s = .succeeded ∧ (writeFile p text).after s =
      { s with files := filesAfter (FileSystem.writeFile p text) s.files } := by
  simp only [writeFile, result_bind, after_bind, result_change, after_change, h]
  exact ⟨rfl, rfl⟩

/-- Writing a file succeeds, or the fault is reported. -/
theorem writeFile_cases (p : Path) (text : String) (s : State) :
    (answer (FileSystem.writeFile p text) s.files = .ok () ∧
      (writeFile p text).result s = .succeeded ∧
      (writeFile p text).after s =
        { s with files := filesAfter (FileSystem.writeFile p text) s.files }) ∨
    (∃ e : FileSystem.Error, (writeFile p text).result s = .failed ∧
      (writeFile p text).after s =
        { s with
          files := filesAfter (FileSystem.writeFile p text) s.files
          log := s.log ++
            [.error ("Error writing the file: " ++ p.text ++ ": " ++ e.message)] }) := by
  cases h : answer (FileSystem.writeFile p text) s.files with
  | ok u => exact .inl ⟨rfl, writeFile_of_ok h⟩
  | error e =>
    refine .inr ⟨e, ?_⟩
    simp only [writeFile, result_bind, after_bind, result_change, h]
    exact ⟨rfl, rfl⟩

/-- Writing a text is writing its file, where the directory can be made. -/
theorem writeText_cases (p : Path) (text : String) (s : State) :
    ((ensureDirectory p.directory).result s = .failed ∧ (writeText p text).result s = .failed ∧
      (writeText p text).after s = (ensureDirectory p.directory).after s) ∨
    ((ensureDirectory p.directory).result s = .succeeded ∧
      (writeText p text).result s =
        (writeFile p text).result ((ensureDirectory p.directory).after s) ∧
      (writeText p text).after s =
        (writeFile p text).after ((ensureDirectory p.directory).after s)) := by
  cases h : (ensureDirectory p.directory).result s with
  | failed =>
    left
    simp only [writeText, result_bind, after_bind, h]
    exact ⟨trivial, rfl, rfl⟩
  | succeeded =>
    right
    simp only [writeText, result_bind, after_bind, h]
    exact ⟨trivial, trivial, trivial⟩

/-- Writing a module fails for want of a text, fails at the files, or records the module. -/
theorem writeModule_cases (p : Path) (m : Emit.Generated) (s : State) :
    (∃ e, m.render = .error e ∧ (writeModule p m).result s = .failed ∧
      (writeModule p m).after s = (error (unrenderedMessage p e)).after s) ∨
    (∃ text, m.render = .ok text ∧ (writeText p text).result s = .failed ∧
      (writeModule p m).result s = .failed ∧
      (writeModule p m).after s = (writeText p text).after s) ∨
    (∃ text t, m.render = .ok text ∧ (writeText p text).result s = .succeeded ∧
      t = (writeText p text).after s ∧ (writeModule p m).result s = .succeeded ∧
      (writeModule p m).after s =
        { t with written := t.written ++ [(p, m)], log := t.log ++ [.info (m.message p.text)] }) := by
  cases hm : m.render with
  | error e => exact .inl ⟨e, rfl, by simp only [writeModule, hm]; exact ⟨rfl, rfl⟩⟩
  | ok text =>
    right
    cases hw : (writeText p text).result s with
    | failed =>
      refine .inl ⟨text, rfl, hw, ?_, ?_⟩
      · simp only [writeModule, hm, result_bind, hw]
        rfl
      · simp only [writeModule, hm, after_bind, hw]
        rfl
    | succeeded =>
      refine .inr ⟨text, _, rfl, hw, rfl, ?_, ?_⟩
      · simp only [writeModule, hm, result_bind, hw]
        rfl
      · simp only [writeModule, hm, after_bind, hw]
        rfl

theorem written_ensureDirectory (p : Path) (s : State) :
    ((ensureDirectory p).after s).written = s.written := by
  obtain ⟨-, -, ha⟩ | ⟨e, -, ha⟩ := ensureDirectory_cases p s <;> rw [ha]

theorem written_writeText (p : Path) (text : String) (s : State) :
    ((writeText p text).after s).written = s.written := by
  obtain ⟨-, -, ha⟩ | ⟨-, -, ha⟩ := writeText_cases p text s
  · rw [ha, written_ensureDirectory]
  · rw [ha, ← written_ensureDirectory p.directory s]
    obtain ⟨-, -, hb⟩ | ⟨e, -, hb⟩ := writeFile_cases p text ((ensureDirectory p.directory).after s)
      <;> rw [hb]

/-- A module is recorded exactly where writing it succeeds. -/
theorem written_writeModule (p : Path) (m : Emit.Generated) (s : State) :
    ((writeModule p m).after s).written = s.written ++
      if (writeModule p m).result s = .succeeded then [(p, m)] else [] := by
  obtain ⟨e, -, hr, ha⟩ | ⟨text, -, -, hr, ha⟩ | ⟨text, t, -, -, rfl, hr, ha⟩ :=
    writeModule_cases p m s
  · simp [hr, ha]
  · simp [hr, ha, written_writeText]
  · simp [hr, ha, written_writeText]

/-- Writing a text is reported where it fails only. -/
theorem log_writeText_of_succeeded {p : Path} {text : String} {s : State}
    (h : (writeText p text).result s = .succeeded) : ((writeText p text).after s).log = s.log := by
  obtain ⟨-, hr, -⟩ | ⟨hd, hr, ha⟩ := writeText_cases p text s
  · rw [hr] at h
    cases h
  · obtain ⟨-, -, hmade⟩ | ⟨e, hfailed, -⟩ := ensureDirectory_cases p.directory s
    · rw [hr] at h
      obtain ⟨-, -, hwritten⟩ | ⟨e, hfailed, -⟩ :=
        writeFile_cases p text ((ensureDirectory p.directory).after s)
      · rw [ha, hwritten, hmade]
      · rw [hfailed] at h
        cases h
    · rw [hfailed] at hd
      cases hd

/-- A module that is written is recorded and reported. -/
theorem writeModule_of_succeeded {p : Path} {m : Emit.Generated} {s : State}
    (h : (writeModule p m).result s = .succeeded) :
    ((writeModule p m).after s).written = s.written ++ [(p, m)] ∧
      ((writeModule p m).after s).log = s.log ++ [.info (m.message p.text)] := by
  obtain ⟨e, -, hr, -⟩ | ⟨text, -, -, hr, -⟩ | ⟨text, t, -, htext, rfl, -, ha⟩ :=
    writeModule_cases p m s
  · rw [hr] at h
    cases h
  · rw [hr] at h
    cases h
  · rw [ha]
    exact ⟨congrArg (· ++ _) (written_writeText p text s),
      congrArg (· ++ _) (log_writeText_of_succeeded htext)⟩

/-- Without its directory no module is written. -/
theorem writeModule_of_directory_failed {p : Path} {m : Emit.Generated} {s : State}
    (h : (ensureDirectory p.directory).result s = .failed) :
    (writeModule p m).result s = .failed := by
  obtain ⟨e, -, hr, -⟩ | ⟨text, -, -, hr, -⟩ | ⟨text, t, -, htext, -, -, -⟩ :=
    writeModule_cases p m s
  · exact hr
  · exact hr
  · obtain ⟨-, hr, -⟩ | ⟨hd, -, -⟩ := writeText_cases p text s
    · rw [hr] at htext
      cases htext
    · rw [h] at hd
      cases hd

/-- A module is written where its directory is there and its file can be written. -/
theorem writeModule_of_ok {p : Path} {m : Emit.Generated} {text : String} {s : State}
    (hm : m.render = .ok text)
    (hd : answer (FileSystem.ensureDirectory p.directory) s.files = .ok () ∧
      filesAfter (FileSystem.ensureDirectory p.directory) s.files = s.files)
    (hw : answer (FileSystem.writeFile p text) s.files = .ok ()) :
    (writeModule p m).result s = .succeeded ∧
      ((writeModule p m).after s).files = filesAfter (FileSystem.writeFile p text) s.files := by
  obtain ⟨hdirectory, hdirectoryAfter⟩ := ensureDirectory_of_ok hd.1
  rw [hd.2] at hdirectoryAfter
  obtain ⟨hfile, hfileAfter⟩ := writeFile_of_ok hw
  simp only [writeModule, hm, writeText, result_bind, after_bind, hdirectory, hdirectoryAfter,
    hfile, hfileAfter]
  exact ⟨rfl, rfl⟩

/-! ### What a run is made of -/

/-- One change of the state of a run; `may` are the places where modules may be written. -/
inductive Change (may : Path → Prop) : State → State → Prop
  /-- Something is reported, and it is not that a module has no text. -/
  | reports (s : State) (ds : List Diagnostic) (h : ∀ d ∈ ds, ¬ d.IsRenderFault) :
      Change may s { s with log := s.log ++ ds }
  /-- A directory is made. -/
  | makes (s : State) (p : Path) :
      Change may s { s with files := filesAfter (FileSystem.ensureDirectory p) s.files }
  /-- The text of a module is written. -/
  | writes (s : State) (p : Path) (m : Emit.Generated) (text : String) (place : may p)
      (rendered : m.render = .ok text) :
      Change may s { s with files := filesAfter (FileSystem.writeFile p text) s.files }
  /-- A module is recorded. -/
  | records (s : State) (w : Path × Emit.Generated) :
      Change may s { s with written := s.written ++ [w] }

/-- Any number of changes. -/
abbrev Reaches (may : Path → Prop) : State → State → Prop := Relation.ReflTransGen (Change may)

/-! ### Messages -/

/-- Two beginnings of one text agree as far as both of them go. -/
theorem all_zip_of_beginnings {as bs cs : List Char} (ha : as <+: cs) (hb : bs <+: cs) :
    (as.zip bs).all (fun m => m.1 = m.2) = true := by
  induction as generalizing bs cs with
  | nil => simp
  | cons a as ih =>
    cases bs with
    | nil => simp
    | cons b bs =>
      obtain ⟨cs, rfl⟩ := ha
      obtain ⟨rfl, hbs⟩ := List.cons_prefix_cons.1 hb
      simpa using ih (List.prefix_append as cs) hbs

/-- A text that starts with words of its own is not about a module without a text. -/
theorem not_isRenderFault (start : String) {d : Diagnostic}
    (h : start.toList <+: d.message.toList)
    (hs : ("Failed to render ".toList.zip start.toList).all (fun m => m.1 = m.2) = false) :
    ¬ d.IsRenderFault := by
  intro hd
  rw [all_zip_of_beginnings hd h] at hs
  exact Bool.noConfusion hs

theorem prefix_append (a b : String) : a.toList <+: (a ++ b).toList := by simp

/-- A message about a place tells a cause behind it. -/
theorem prefix_append_three (a b c d : String) : a.toList <+: (a ++ b ++ c ++ d).toList := by
  simp [List.append_assoc]

/-- What is said in a scan is not about a module without a text. -/
theorem not_isRenderFault_scan {fs : FileSystem} {role : Role} {root : Path} {d : Diagnostic}
    (h : d ∈ (Manifest.scan fs role root).diagnostics) : ¬ d.IsRenderFault := by
  cases Manifest.says_of_mem_scan h with
  | unreadable p e =>
    exact not_isRenderFault "Failed to read " (prefix_append_three _ _ _ _) (by decide)
  | unparsable p =>
    exact not_isRenderFault "Failed to parse " (prefix_append_three _ _ _ _) (by decide)
  | unused p cause =>
    exact not_isRenderFault "failed to evaluate config in " (prefix_append_three _ _ _ _)
      (by decide)

/-! ### Steps -/

section steps

variable {may : Path → Prop}

theorem reaches_report {ds : List Diagnostic} (h : ∀ d ∈ ds, ¬ d.IsRenderFault) (s : State) :
    Reaches may s ((report ds).after s) := .single (.reports s ds h)

theorem reaches_scan (role : Role) (folder : Path) (s : State) :
    Reaches may s ((scan role folder).after s) :=
  .single (.reports s _ fun _ => not_isRenderFault_scan)

theorem reaches_ensureDirectory (p : Path) (s : State) :
    Reaches may s ((ensureDirectory p).after s) := by
  obtain ⟨-, -, ha⟩ | ⟨e, -, ha⟩ := ensureDirectory_cases p s
  · rw [ha]
    exact .single (.makes s p)
  · rw [ha]
    refine .tail (.single (.makes s p)) (.reports _ _ fun d hd => ?_)
    rw [List.mem_singleton.1 hd]
    exact not_isRenderFault "Error creating the directory: "
      (prefix_append_three _ _ _ _) (by decide)

theorem reaches_writeFile {p : Path} {m : Emit.Generated} {text : String} (hp : may p)
    (hm : m.render = .ok text) (s : State) : Reaches may s ((writeFile p text).after s) := by
  obtain ⟨-, -, ha⟩ | ⟨e, -, ha⟩ := writeFile_cases p text s
  · rw [ha]
    exact .single (.writes s p m text hp hm)
  · rw [ha]
    refine .tail (.single (.writes s p m text hp hm)) (.reports _ _ fun d hd => ?_)
    rw [List.mem_singleton.1 hd]
    exact not_isRenderFault "Error writing the file: "
      (prefix_append_three _ _ _ _) (by decide)

theorem reaches_writeText {p : Path} {m : Emit.Generated} {text : String} (hp : may p)
    (hm : m.render = .ok text) (s : State) : Reaches may s ((writeText p text).after s) := by
  obtain ⟨-, -, ha⟩ | ⟨-, -, ha⟩ := writeText_cases p text s
  · rw [ha]
    exact reaches_ensureDirectory _ s
  · rw [ha]
    exact (reaches_ensureDirectory _ s).trans (reaches_writeFile hp hm _)

theorem not_isRenderFault_message (m : Emit.Generated) (place : String) :
    ¬ (Diagnostic.info (m.message place)).IsRenderFault := by
  cases m with
  | router r => exact not_isRenderFault "generated endpoints: " (prefix_append _ _) (by decide)
  | table t =>
    exact not_isRenderFault "middleware aggregation created at " (prefix_append _ _) (by decide)
  | entrypoint e =>
    exact not_isRenderFault "generated server entrypoint: " (prefix_append _ _) (by decide)

theorem reaches_writeModule {p : Path} {m : Emit.Generated} {text : String} (hp : may p)
    (hm : m.render = .ok text) (s : State) : Reaches may s ((writeModule p m).after s) := by
  obtain ⟨e, he, -⟩ | ⟨text', ht, -, -, ha⟩ | ⟨text', t, ht, -, rfl, -, ha⟩ :=
    writeModule_cases p m s
  · simp [hm] at he
  · rw [ha]
    exact reaches_writeText hp ht s
  · rw [ha]
    have hrecorded := (reaches_writeText hp ht s).tail (.records _ (p, m))
    refine hrecorded.tail (.reports _ _ fun d hd => ?_)
    rw [List.mem_singleton.1 hd]
    exact not_isRenderFault_message m p.text

end steps

end Run

/-! ### Middleware, routers and the server -/

open Run

variable {may : Path → Prop}

theorem Middleware.Collection.reaches_collect (c : Collection) (h : may c.modulePath) (s : State) :
    Reaches may s (c.collect.after s) := by
  simp only [Collection.collect, after_bind]
  refine (reaches_scan .middleware c.folder s).trans ?_
  split
  · refine .single (.reports _ _ fun d hd => ?_)
    rw [List.mem_singleton.1 hd]
    exact not_isRenderFault "No middleware found in folder: " (prefix_append _ _) (by decide)
  · simp only [after_bind]
    refine .trans (reaches_report (fun d hd => ?_) _) (reaches_writeModule h rfl _)
    obtain ⟨e, -, rfl⟩ := List.mem_map.1 hd
    exact not_isRenderFault "duplicate middleware name '"
      ((prefix_append_three _ _ _ _).trans (prefix_append _ _)) (by decide)

theorem Router.Request.reaches_generate (r : Request) (h : may r.modulePath) (s : State) :
    Reaches may s (r.generate.after s) := by
  simp only [Request.generate, after_bind]
  refine (reaches_scan .handler r.folder s).trans ?_
  split
  · refine .single (.reports _ _ fun d hd => ?_)
    rw [List.mem_singleton.1 hd]
    exact not_isRenderFault "No endpoints found to map for " (prefix_append _ _) (by decide)
  · exact reaches_writeModule h rfl _

namespace Server

theorem reaches_addRouter (output : Path) (folder : ApiFolder) (place : Path) (mounted : Mounted)
    (s : State) : Reaches may s ((addRouter output folder place mounted).after s) := by
  simp only [addRouter]
  split
  · refine .single (.reports _ _ fun d hd => ?_)
    rw [List.mem_singleton.1 hd]
    exact not_isRenderFault "duplicate api_slug '"
      ((prefix_append_three _ _ _ _).trans (prefix_append _ _)) (by decide)
  · exact .refl

theorem reaches_generateRouters (options : GenerateOptions) (known : Option Middleware.Collection)
    {pairs : List (ApiFolder × String)}
    (h : ∀ pair ∈ pairs, may (options.outputPath.child pair.2)) (mounted : Mounted) (s : State) :
    Reaches may s ((generateRouters options known pairs mounted).after s) := by
  induction pairs generalizing mounted s with
  | nil => exact .refl
  | cons pair rest ih =>
    have hrest : ∀ pair ∈ rest, may (options.outputPath.child pair.2) := fun q hq =>
      h q (List.mem_cons_of_mem _ hq)
    simp only [generateRouters, after_bind]
    let r := routerRequest options known pair.1 (options.outputPath.child pair.2)
    refine (Router.Request.reaches_generate r (h pair List.mem_cons_self) s).trans ?_
    split
    · exact ih hrest _ _
    · simp only [after_bind]
      exact (reaches_addRouter _ _ _ _ _).trans (ih hrest _ _)

theorem reaches_collectMiddleware (options : GenerateOptions) (config : Config)
    (h : may (options.outputPath.child tableFile)) (s : State) :
    Reaches may s ((collectMiddleware options config).after s) := by
  unfold collectMiddleware
  split
  · exact .refl
  · next folder _ =>
    let start : Middleware.Collection :=
      { folder := options.resolve folder, modulePath := options.outputPath.child tableFile }
    simp only [after_bind]
    refine (Middleware.Collection.reaches_collect start h s).trans ?_
    split <;> exact .refl

theorem reaches_preRunScripts (options : GenerateOptions) (config : Config) (s : State) :
    Reaches may s ((preRunScripts options config).after s) := by
  have hnone : ∀ (p : Path) (c : Prop) [Decidable c] (l : List String) (s : State),
      Reaches may s ((do
        if c then info ("No pre-run scripts found in: " ++ p.text)
        return l : Run (List String)).after s) := fun p c _ l s => by
    split
    · refine .single (.reports _ _ fun d hd => ?_)
      rw [List.mem_singleton.1 hd]
      exact not_isRenderFault "No pre-run scripts found in: " (prefix_append _ _)
        (by decide)
    · exact .refl
  unfold preRunScripts
  split
  · exact .refl
  · simp only [after_bind]
    split
    · refine .single (.reports _ _ fun d hd => ?_)
      rw [List.mem_singleton.1 hd]
      exact not_isRenderFault "The directory for prescripts does not exist: "
        (prefix_append _ _) (by decide)
    · split
      · exact hnone _ _ _ _
      · next folder _ _ _ e _ =>
        have hwarning : ¬ (Diagnostic.warning
            (Manifest.unreadableMessage (options.resolve folder) e)).IsRenderFault :=
          not_isRenderFault "Failed to read " (prefix_append_three _ _ _ _) (by decide)
        have hreport : Reaches may s
            ((warning (Manifest.unreadableMessage (options.resolve folder) e)).after s) :=
          .single (.reports s _ (by simpa using hwarning))
        rw [after_bind (warning _), after_bind (pure _)]
        exact hreport.trans (hnone _ _ _ _)

end Server

end FileRoutes
