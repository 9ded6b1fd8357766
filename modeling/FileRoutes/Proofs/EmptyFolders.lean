import FileRoutes.Proofs.Attempts
import FileRoutes.Proofs.Completion

/-!
# Folders without endpoints

A folder in which a scan finds no handler takes nothing from the others: no identifier, no place,
no position among the routers. A run on the other folders alone does the same with the files and
mounts the same routers, and it reports the same except for what is said about the folders that
are left out.

## The model

* `Run.Adds` — a step that adds to what has been reported and never looks at it.
* `Turn.isEmpty`, `Turn.missed` — a turn that finds no handler, and what it reports.
* `plainFile` — the file of a router where nothing else claims it.
* `Course.trimmed` — the run on the folders that are not empty.

## What is proved

* `Run.Adds.bind` and its like — every step of a run adds to the report only.
* `generateRouters_found` — the turns of the other folders come to the same.
* `modulePaths_sublist` — the other folders keep their places.
* `Course.trimmed_run` — the run on the other folders does the same.
-/

namespace FileRoutes

open Run

namespace Run

variable {α β : Type} {s s' : State}

/-! ### Reports -/

/-- The state with nothing reported. -/
def State.silent (s : State) : State := { s with log := [] }

/-- What a step reports. -/
def said (x : Run α) (s : State) : List Diagnostic := (x.after s.silent).log

/-- A step that adds to what has been reported and never looks at it. -/
structure Adds (x : Run α) : Prop where
  /-- The result does not depend on what has been reported. -/
  result : ∀ s, x.result s = x.result s.silent
  /-- Neither does the state afterwards, in which what the step reports comes last. -/
  after : ∀ s, x.after s = { x.after s.silent with log := s.log ++ x.said s }

namespace Adds

theorem pure (a : α) : Adds (pure a) :=
  ⟨fun _ => rfl, fun s => by simp [said, State.silent]⟩

theorem report (ds : List Diagnostic) : Adds (report ds) :=
  ⟨fun _ => rfl, fun s => by simp [said, State.silent]⟩

theorem change (action : FileSystem.Action α) : Adds (change action) :=
  ⟨fun _ => rfl, fun s => by simp [said, State.silent]⟩

theorem files : Adds files :=
  ⟨fun _ => rfl, fun s => by simp [said, State.silent]⟩

theorem record (w : Path × Emit.Generated) :
    Adds (modify fun s : State => { s with written := s.written ++ [w] }) :=
  ⟨fun _ => rfl, fun s => by
    show ({ s with written := s.written ++ [w] } : State) = { s with
      written := s.written ++ [w]
      log := s.log ++ [] }
    rw [List.append_nil]⟩

/-- What is reported in states that are told apart only by what has been reported before. -/
theorem said_eq {x : Run α} (h : s.silent = s'.silent) : x.said s = x.said s' := by
  rw [said, said, h]

theorem result_eq {x : Run α} (hx : Adds x) (h : s.silent = s'.silent) :
    x.result s = x.result s' := by
  rw [hx.result s, hx.result s', h]

theorem silent_after {x : Run α} (hx : Adds x) (h : s.silent = s'.silent) :
    (x.after s).silent = (x.after s').silent := by
  rw [hx.after s, hx.after s', h]
  rfl

theorem log_after {x : Run α} (hx : Adds x) (s : State) : (x.after s).log = s.log ++ x.said s := by
  rw [hx.after s]

theorem bind {x : Run α} {f : α → Run β} (hx : Adds x) (hf : ∀ a, Adds (f a)) :
    Adds (x >>= f) := by
  have hsilent (s : State) : s.silent = s.silent.silent := rfl
  constructor
  · intro s
    rw [result_bind, result_bind, hx.result_eq (hsilent s)]
    exact (hf _).result_eq (hx.silent_after (hsilent s))
  · intro s
    have hstates : (x.after s).silent = (x.after s.silent).silent := hx.silent_after (hsilent s)
    have hsaid : (x >>= f).said s = x.said s ++ (f (x.result s)).said (x.after s) := by
      rw [said, after_bind, ← hx.result, (hf _).log_after, said_eq hstates.symm]
      rfl
    rw [hsaid, after_bind, after_bind, ← hx.result, (hf _).after (x.after s),
      (hf _).after (x.after s.silent), hx.log_after, hstates, List.append_assoc]

theorem scan (role : Role) (folder : Path) : Adds (scan role folder) :=
  files.bind fun _ => (report _).bind fun _ => pure _

theorem ensureDirectory (p : Path) : Adds (ensureDirectory p) := by
  refine (change _).bind fun answer => ?_
  cases answer with
  | ok _ => exact pure _
  | error _ => exact (report _).bind fun _ => pure _

theorem writeFile (p : Path) (text : String) : Adds (writeFile p text) := by
  refine (change _).bind fun answer => ?_
  cases answer with
  | ok _ => exact pure _
  | error _ => exact (report _).bind fun _ => pure _

theorem writeText (p : Path) (text : String) : Adds (writeText p text) := by
  refine (ensureDirectory _).bind fun outcome => ?_
  cases outcome with
  | failed => exact pure _
  | succeeded => exact writeFile p text

theorem writeModule (p : Path) (m : Emit.Generated) : Adds (writeModule p m) := by
  unfold Run.writeModule
  split
  · exact (report _).bind fun _ => pure _
  · refine (writeText _ _).bind fun outcome => ?_
    cases outcome with
    | failed => exact pure _
    | succeeded => exact (record _).bind fun _ => (report _).bind fun _ => pure _

end Adds

end Run

theorem Router.Request.adds_generate (r : Request) : Adds r.generate := by
  refine (Adds.scan .handler r.folder).bind fun m => ?_
  split
  · exact (Adds.report _).bind fun _ => .pure _
  · exact .writeModule _ _

namespace Server

theorem adds_addRouter (output : Path) (folder : ApiFolder) (place : Path) (mounted : Mounted) :
    Adds (addRouter output folder place mounted) := by
  unfold addRouter
  dsimp only
  split
  · exact (Adds.report _).bind fun _ => .pure _
  · exact .pure _

theorem adds_preRunScripts (options : GenerateOptions) (config : Config) :
    Adds (preRunScripts options config) := by
  have hlast (folder : Path) (scripts : List Path) : Adds (do
      if scripts = [] then info ("No pre-run scripts found in: " ++ folder.text)
      return scripts.map (Path.specifier options.outputPath)) := by
    split
    · exact (Adds.report _).bind fun _ => .pure _
    · exact .pure _
  unfold preRunScripts
  split
  · exact .pure _
  · refine Adds.files.bind fun fs => ?_
    split
    · exact (Adds.report _).bind fun _ => .pure _
    · split
      · exact (Adds.pure _).bind fun _ => hlast _ _
      · exact (Adds.report _).bind fun _ => (Adds.pure _).bind fun _ => hlast _ _

/-! ### Turns -/

namespace Turn

/-- Whether no handler is found in the turn. -/
def isEmpty (t : Turn) : Bool := t.manifest = []

/-- What is reported in a turn that finds no handler: whatever is wrong with the files of the
folder, and that there are no endpoints. -/
def missed (t : Turn) : List Diagnostic :=
  (Manifest.scan t.start.files .handler t.request.folder).diagnostics ++
    [.error ("No endpoints found to map for " ++ t.request.folder.text)]

/-- A turn that finds no handler fails and changes nothing. -/
theorem generate_of_isEmpty {t : Turn} (h : t.isEmpty = true) :
    t.request.generate.result t.start = .failed ∧ t.request.generate.after t.start =
      { t.start with log := t.start.log ++ t.missed } := by
  have hm : (Manifest.scan t.start.files .handler t.request.folder).manifest = [] :=
    of_decide_eq_true h
  constructor
  · simp only [Router.Request.generate, result_bind, result_scan, hm]
    rfl
  · simp only [Router.Request.generate, after_bind, result_scan, hm, missed, ← List.append_assoc]
    rfl

end Turn

section turns

variable {options : GenerateOptions} {known : Option Middleware.Collection} {s s' : State}

theorem adds_takeTurn (pair : ApiFolder × String) (mounted : Mounted) :
    Adds (takeTurn options known pair mounted) := by
  refine (Router.Request.adds_generate _).bind fun outcome => ?_
  cases outcome with
  | failed => exact .pure _
  | succeeded => exact adds_addRouter _ _ _ _

/-- The turn of an empty folder mounts nothing and says what is wrong. -/
theorem takeTurn_of_isEmpty {pair : ApiFolder × String}
    (h : (turnOf options known pair s).isEmpty = true) (mounted : Mounted) :
    (takeTurn options known pair mounted).result s = mounted ∧
      (takeTurn options known pair mounted).after s =
        { s with log := s.log ++ (turnOf options known pair s).missed } := by
  obtain ⟨hr, ha⟩ := Turn.generate_of_isEmpty h
  have hr' : (routerRequest options known pair.1 (options.outputPath.child pair.2)).generate.result
    s = .failed := hr
  simp only [takeTurn, result_bind, after_bind, hr']
  exact ⟨rfl, ha⟩

/-! ### Folders left out -/

/-- The file of the router of a folder where nothing else claims it. -/
def plainFile (folder : String) : String := moduleStem folder ++ ".ts"

/-- Some folders, each with its plain file. -/
def plainPairs (folders : List ApiFolder) : List (ApiFolder × String) :=
  folders.map fun folder => (folder, plainFile folder.directory)

theorem plainPairs_cons (folder : ApiFolder) (folders : List ApiFolder) :
    plainPairs (folder :: folders) = (folder, plainFile folder.directory) :: plainPairs folders :=
  rfl

/-- The folders of the turns that find a handler. -/
def foldersFound (turns : List Turn) : List ApiFolder :=
  (turns.filter fun t => !t.isEmpty).map Turn.folder

theorem foldersFound_cons_of_isEmpty {t : Turn} (h : t.isEmpty = true) (turns : List Turn) :
    foldersFound (t :: turns) = foldersFound turns := by
  rw [foldersFound, List.filter_cons_of_neg (by simp [h])]
  rfl

theorem foldersFound_cons {t : Turn} (h : t.isEmpty = false) (turns : List Turn) :
    foldersFound (t :: turns) = t.folder :: foldersFound turns := by
  rw [foldersFound, List.filter_cons_of_pos (by simp [h])]
  rfl

/-- What is reported in some turns, each with its turn: about an empty folder, what is wrong with
it. -/
def Tells (told : List (Turn × List Diagnostic)) : Prop :=
  ∀ m ∈ told, m.1.isEmpty = true → m.2 = m.1.missed

/-- What is reported about the folders that are not empty. -/
def toldFound (told : List (Turn × List Diagnostic)) : List Diagnostic :=
  (told.filter fun m => !m.1.isEmpty).flatMap Prod.snd

/-- Two runs through folders, one of them without those that are empty: it starts in `s'` and the
other in `s`, and they end in `e'` and `e`. -/
def Trimmed (ts : List Turn) (s s' e e' : State) : Prop :=
  e.silent = e'.silent ∧ ∃ told, told.map Prod.fst = ts ∧ Tells told ∧
    e.log = s.log ++ told.flatMap Prod.snd ∧ e'.log = s'.log ++ toldFound told

theorem Trimmed.nil (h : s.silent = s'.silent) : Trimmed [] s s' s s' :=
  ⟨h, [], rfl, fun m hm => by simp at hm, (List.append_nil _).symm, (List.append_nil _).symm⟩

/-- The turn of an empty folder comes first. -/
theorem Trimmed.cons_of_isEmpty {t : Turn} {ts : List Turn} {s₁ e e' : State}
    (ht : t.isEmpty = true) (hlog : s₁.log = s.log ++ t.missed) (h : Trimmed ts s₁ s' e e') :
    Trimmed (t :: ts) s s' e e' := by
  obtain ⟨hstates, told, hmap, htells, he, he'⟩ := h
  refine ⟨hstates, (t, t.missed) :: told, ?_, List.forall_mem_cons.2 ⟨fun _ => rfl, htells⟩, ?_, ?_⟩
  · rw [List.map_cons, hmap]
  · rw [he, hlog, List.flatMap_cons, List.append_assoc]
  · rw [he', toldFound, toldFound, List.filter_cons_of_neg (by simp [ht])]

/-- The turn of a folder that is not empty comes first in both runs. -/
theorem Trimmed.cons {t : Turn} {ts : List Turn} {s₁ s₁' e e' : State} {ds : List Diagnostic}
    (ht : t.isEmpty = false) (hlog : s₁.log = s.log ++ ds) (hlog' : s₁'.log = s'.log ++ ds)
    (h : Trimmed ts s₁ s₁' e e') : Trimmed (t :: ts) s s' e e' := by
  obtain ⟨hstates, told, hmap, htells, he, he'⟩ := h
  refine ⟨hstates, (t, ds) :: told, ?_, List.forall_mem_cons.2 ⟨fun hm => ?_, htells⟩, ?_, ?_⟩
  · rw [List.map_cons, hmap]
  · exact absurd hm (by simp [ht])
  · rw [he, hlog, List.flatMap_cons, List.append_assoc]
  · rw [he', hlog', toldFound, toldFound, List.filter_cons_of_pos (by simp [ht]),
      List.flatMap_cons, List.append_assoc]

/-- The folders that are not empty come to the same without the others: they mount the same
routers and leave the same files behind, and about them the same is reported. -/
theorem generateRouters_found (options : GenerateOptions) (known : Option Middleware.Collection)
    (folders : List ApiFolder) (mounted : Mounted) (h : s.silent = s'.silent) :
    let ts := turns options known (plainPairs folders) mounted s
    let all := generateRouters options known (plainPairs folders) mounted
    let found := generateRouters options known (plainPairs (foldersFound ts)) mounted
    all.result s = found.result s' ∧ Trimmed ts s s' (all.after s) (found.after s') := by
  induction folders generalizing mounted s s' with
  | nil => exact ⟨rfl, .nil h⟩
  | cons folder rest ih =>
    generalize hturn : turnOf options known (folder, plainFile folder.directory) s = t
    generalize hstep : takeTurn options known (folder, plainFile folder.directory) mounted = step
    have hadds : Adds step := hstep ▸ adds_takeTurn _ mounted
    have hcons (fs : List (ApiFolder × String)) (s : State) := generateRouters_cons options known
      (folder, plainFile folder.directory) fs mounted s
    rw [hstep] at hcons
    obtain ⟨hturns, hresult, hafter⟩ := hcons (plainPairs rest) s
    rw [hturn] at hturns
    dsimp only
    rw [plainPairs_cons, hturns, hresult, hafter]
    cases hempty : t.isEmpty with
    | true =>
      obtain ⟨hr, ha⟩ := takeTurn_of_isEmpty (hturn ▸ hempty) mounted
      rw [hstep] at hr ha
      rw [hturn] at ha
      rw [foldersFound_cons_of_isEmpty hempty, hr]
      have hstates : (step.after s).silent = s'.silent := by rw [ha]; exact h
      obtain ⟨hresults, htrimmed⟩ := ih mounted hstates
      exact ⟨hresults, htrimmed.cons_of_isEmpty hempty (by rw [ha])⟩
    | false =>
      have hfolder : t.folder = folder := by rw [← hturn]; rfl
      rw [foldersFound_cons hempty, hfolder, plainPairs_cons]
      obtain ⟨-, hresult', hafter'⟩ := hcons (plainPairs (foldersFound (turns options known
        (plainPairs rest) (step.result s) (step.after s)))) s'
      obtain ⟨hresults, htrimmed⟩ := ih (step.result s) (hadds.silent_after h)
      rw [hresult', hafter', ← hadds.result_eq h]
      exact ⟨hresults, htrimmed.cons hempty (hadds.log_after s) (Adds.said_eq h ▸ hadds.log_after s')⟩

end turns

/-! ### Places of the others -/

/-- Where nothing else claims them, the routers get their plain files. -/
theorem modulePathsFrom_eq_iff {taken folders : List String} :
    modulePathsFrom taken folders = folders.map plainFile ↔
      (folders.map plainFile).Nodup ∧ ∀ folder ∈ folders, plainFile folder ∉ taken := by
  constructor
  · intro h
    obtain ⟨hnew, hnodup⟩ := modulePathsFrom_spec taken folders
    rw [h] at hnew hnodup
    exact ⟨hnodup, fun folder hf => (hnew _ (List.mem_map_of_mem hf)).2⟩
  · induction folders generalizing taken with
    | nil => exact fun _ => rfl
    | cons folder rest ih =>
      rintro ⟨hnodup, hfree⟩
      rw [List.map_cons, List.nodup_cons] at hnodup
      have hhead : modulePath taken folder = plainFile folder := by
        have hf : plainFile folder ∉ taken := hfree folder List.mem_cons_self
        rw [modulePath, candidatePaths, List.find?_cons_of_pos (by simpa [plainFile] using hf)]
        rfl
      rw [modulePathsFrom, List.map_cons, hhead]
      refine congrArg _ (ih ⟨hnodup.2, fun other ho => ?_⟩)
      rw [List.mem_cons, not_or]
      exact ⟨fun e => hnodup.1 (e ▸ List.mem_map_of_mem ho), hfree other (List.mem_cons_of_mem _ ho)⟩

/-- Without some of the folders the others keep their plain files. -/
theorem modulePaths_sublist {some all : List String} (h : List.Sublist some all)
    (hplain : modulePaths all = all.map plainFile) : modulePaths some = some.map plainFile := by
  obtain ⟨hnodup, hfree⟩ := modulePathsFrom_eq_iff.1 hplain
  exact modulePathsFrom_eq_iff.2 ⟨hnodup.sublist (h.map _), fun folder hf => hfree _ (h.subset hf)⟩

/-! ### Runs -/

namespace Course

/-- Every folder of the run has its plain file. -/
def IsPlain (c : Course) : Prop :=
  modulePaths (c.config.apiFolders.map ApiFolder.directory) =
    (c.config.apiFolders.map ApiFolder.directory).map plainFile

instance (c : Course) : Decidable c.IsPlain := inferInstanceAs (Decidable (_ = _))

/-- The run on the folders in which a handler is found. -/
def trimmed (c : Course) : Course :=
  { c with config := { c.config with apiFolders := foldersFound c.turns } }

variable {c : Course}

theorem folders_of_isPlain (h : c.IsPlain) : c.folders = plainPairs c.config.apiFolders := by
  have hzip (l : List ApiFolder) : l.zip (l.map (plainFile ∘ ApiFolder.directory)) =
      plainPairs l := by
    induction l with
    | nil => rfl
    | cons folder l ih => rw [List.map_cons, List.zip_cons_cons, ih]; rfl
  rw [folders, show modulePaths _ = _ from h, List.map_map, hzip]

theorem foldersFound_sublist (h : c.IsPlain) :
    List.Sublist (foldersFound c.turns) c.config.apiFolders := by
  have hturns : c.turns.map Turn.folder = c.config.apiFolders := by
    have hpairs := congrArg (List.map Prod.fst)
      (show c.turns.map (fun t => (t.folder, t.place)) = _ from map_turns _ _ _)
    rw [List.map_map, List.map_map, folders_of_isPlain h, plainPairs, List.map_map] at hpairs
    exact hpairs.trans (List.map_id _)
  exact hturns ▸ List.filter_sublist.map _

theorem isPlain_trimmed (h : c.IsPlain) : c.trimmed.IsPlain :=
  modulePaths_sublist ((foldersFound_sublist h).map _) h

/-- Once every folder has had its turn, nothing is different but what has been reported. -/
theorem trimmed_routed (h : c.IsPlain) : c.mounted = c.trimmed.mounted ∧
    Trimmed c.turns c.collected c.collected c.routed c.trimmed.routed := by
  have hfound := generateRouters_found c.options c.known c.config.apiFolders {} (s := c.collected)
    rfl
  rw [← folders_of_isPlain h] at hfound
  rw [mounted, routed, mounted, routed, folders_of_isPlain (isPlain_trimmed h)]
  exact hfound

/-- What a run comes to once every folder has had its turn. -/
def finish (c : Course) (mounted : Mounted) : Run Outcome := do
  if mounted.routers = [] then
    Run.error noRoutersMessage
    return .failed
  else
    let scripts ← preRunScripts c.options c.config
    Run.writeModule (c.place entrypointFile)
      (.entrypoint (Server.entrypoint c.options c.config c.known mounted scripts))

theorem adds_finish (c : Course) (mounted : Mounted) : Adds (c.finish mounted) := by
  unfold finish
  split
  · exact (Adds.report _).bind fun _ => .pure _
  · exact (adds_preRunScripts _ _).bind fun _ => .writeModule _ _

/-- A run that gets its output directory ends as its last part does. -/
theorem final_of_finish (h : c.opens = true) :
    c.outcome = (c.finish c.mounted).result c.routed ∧
      c.final = (c.finish c.mounted).after c.routed := by
  obtain ⟨hno, -⟩ | ⟨-, hfinal, houtcome⟩ := c.final_of_opens
  · simp [h] at hno
  · exact ⟨houtcome, hfinal⟩

/-- A run that does not get its output directory has not looked at its folders. -/
theorem trimmed_of_not_opens (h : c.opens = false) :
    c.trimmed.outcome = c.outcome ∧ c.trimmed.final = c.final := by
  unfold outcome final generate
  cases hm : isMixed c.options with
  | true =>
    rw [show isMixed c.trimmed.options = true from hm]
    exact ⟨rfl, rfl⟩
  | false =>
    have hfailed : (ensureDirectory c.options.outputPath).result c.start = .failed := by
      cases hr : (ensureDirectory c.options.outputPath).result c.start with
      | failed => rfl
      | succeeded => simp [opens_iff.2 ⟨hm, hr⟩] at h
    rw [show isMixed c.trimmed.options = false from hm]
    simp only [Bool.false_eq_true, if_false, result_bind, after_bind]
    rw [hfailed, show (ensureDirectory c.trimmed.options.outputPath).result c.trimmed.start = .failed
      from hfailed]
    exact ⟨rfl, rfl⟩

/-! ### A project with a folder that is not there -/

/-- A run on the project, with one more folder configured. -/
def sparse : Course :=
  { sample with
    config :=
      { sample.config with
        apiFolders := [⟨"missing", "/m", none⟩, ⟨"appMiddleware", "/a", none⟩] } }

/-- Nothing is found in a folder that is not there. -/
theorem sparse_missing (texts : List (String × String)) :
    (Manifest.scan (sampleAfter texts) .handler (sample.options.resolve "missing")).manifest =
      [] := by
  have hspells : FileSystem.Spells (sample.options.resolve "missing") ["missing"] := by
    decide
  have hends : (sampleAfter texts).EndsIn (sample.options.resolve "missing") [] "missing" :=
    hspells.endsIn_root
  have hfree : FileSystem.entry? (sampleAfter texts) ([] ++ ["missing"]) = none := by
    rw [FileSystem.entry?, if_neg (by simp), Keyed.get_eq_none_iff]
    simp [sampleAfter, sampleFiles, sampleSources]
  have hlocate := hends.locate_of_free (noLinks_sampleAfter texts) hfree true
  have hholds : (sampleAfter texts).holds (sample.options.resolve "missing") = false := by
    simp [FileSystem.holds, FileSystem.entryAt, FileSystem.resolve, hlocate, bind, Except.bind,
      throw, throwThe, MonadExceptOf.throw, Except.toBool]
  rw [Manifest.scan, if_neg (by simp [hholds])]

/-- What is left is the run on the project. -/
theorem sparse_trimmed : sparse.trimmed = sample := by
  obtain ⟨-, -, text, hcollected⟩ := sample_known
  have hcons (pair : ApiFolder × String) (rest : List (ApiFolder × String)) (s : State) :=
    (generateRouters_cons sample.options sample.known pair rest {} s).1
  have hfolders : sparse.folders = [(⟨"missing", "/m", none⟩, "missing.ts"),
      (⟨"appMiddleware", "/a", none⟩, "appMiddleware.ts")] := by
    decide
  have hfirst : (turnOf sample.options sample.known (⟨"missing", "/m", none⟩, "missing.ts")
      sample.collected).isEmpty = true := by
    refine decide_eq_true ?_
    show (Manifest.scan sample.collected.files .handler (sample.options.resolve "missing")).manifest
      = []
    rw [hcollected, sparse_missing]
  obtain ⟨hresult, hafter⟩ := takeTurn_of_isEmpty hfirst {}
  have hsecond (s : State) (hs : s.files = sample.collected.files) :
      (turnOf sample.options sample.known (⟨"appMiddleware", "/a", none⟩, "appMiddleware.ts")
        s).isEmpty = false := by
    refine decide_eq_false ?_
    show ¬ (Manifest.scan s.files .handler (sample.options.resolve "appMiddleware")).manifest = []
    rw [hs, hcollected, sample_ping]
    simp
  have hturns : foldersFound sparse.turns = [⟨"appMiddleware", "/a", none⟩] := by
    show foldersFound (Server.turns sample.options sample.known sparse.folders {} sample.collected)
      = _
    rw [hfolders, hcons, foldersFound_cons_of_isEmpty hfirst, hresult, hcons,
      foldersFound_cons (hsecond _ (by rw [hafter]))]
    rfl
  rw [trimmed, hturns]
  rfl

/-- Folders without endpoints can be left out of the configuration, where every folder has its
plain file: the outcome, the files, the modules and the routers with their order and identifiers
stay the same, and only what is reported about these folders is left out. -/
theorem trimmed_run (h : c.IsPlain) :
    c.trimmed.outcome = c.outcome ∧ c.trimmed.final.files = c.final.files ∧
      c.trimmed.final.written = c.final.written ∧
      c.trimmed.mounted.routers = c.mounted.routers ∧
      ∃ before told rest, told.map Prod.fst = (if c.opens then c.turns else []) ∧ Tells told ∧
        c.final.log = before ++ told.flatMap Prod.snd ++ rest ∧
        c.trimmed.final.log = before ++ toldFound told ++ rest := by
  obtain ⟨hmounted, hsilent, told, hmap, htells, hlog, hlog'⟩ := trimmed_routed h
  cases hopens : c.opens with
  | false =>
    obtain ⟨houtcome, hfinal⟩ := trimmed_of_not_opens hopens
    rw [houtcome, hfinal, ← hmounted]
    exact ⟨rfl, rfl, rfl, rfl, c.final.log, [], [], rfl, by simp [Tells], by simp,
      by simp [toldFound]⟩
  | true =>
    have hadds := c.adds_finish c.mounted
    obtain ⟨houtcome, hfinal⟩ := final_of_finish hopens
    obtain ⟨houtcome', hfinal'⟩ := final_of_finish (c := c.trimmed) hopens
    have hfinish : c.trimmed.finish c.trimmed.mounted = c.finish c.mounted := by
      rw [← hmounted]
      rfl
    rw [hfinish] at houtcome' hfinal'
    have hend := hadds.silent_after hsilent
    rw [← hfinal, ← hfinal'] at hend
    refine ⟨?_, ?_, ?_, by rw [hmounted], c.collected.log, told, (c.finish c.mounted).said c.routed,
      hmap, htells, ?_, ?_⟩
    · rw [houtcome, houtcome', hadds.result_eq hsilent]
    · exact (congrArg State.files hend).symm
    · exact (congrArg State.written hend).symm
    · rw [hfinal, hadds.log_after, hlog]
    · rw [hfinal', hadds.log_after, hlog', Adds.said_eq hsilent]

/-- The project and one more folder that is not there. -/
theorem sparse_run : sparse.IsPlain ∧ sample.outcome = sparse.outcome ∧
    sample.final.files = sparse.final.files ∧ sample.final.written = sparse.final.written ∧
    sample.mounted.routers = sparse.mounted.routers ∧
    ∃ before told rest, told.map Prod.fst = (if sparse.opens then sparse.turns else []) ∧
      Tells told ∧ sparse.final.log = before ++ told.flatMap Prod.snd ++ rest ∧
      sample.final.log = before ++ toldFound told ++ rest := by
  have hplain : sparse.IsPlain := by decide +kernel
  have h := trimmed_run hplain
  rw [sparse_trimmed] at h
  exact ⟨hplain, h⟩

end Course

end Server

end FileRoutes
