import FileRoutes.Proofs.Agreement
import FileRoutes.Proofs.Stages
import FileRoutes.Watch

/-!
# Two runs side by side

Two runs on one project stay together as long as they find their source folders alike and every
module that the first one tries to write is written alike. This module takes a run apart once and
for all relations between the states of two runs.

## The model

* `Together` — two steps with one result that leave related states behind.
* `LooksAlike` — two trees that cannot be told apart at or below a path.
* `Companions` — a relation of states in which the source folders of a project look alike.

## What is proved

* `together_generateInto` — runs whose attempts are made together stay together.
-/

namespace FileRoutes

open FileSystem
open FileSystem.Action (answer filesAfter)
open FileRoutes.Path (StaysIn landing)

/-! ### Folders that look alike -/

/-- Two trees cannot be told apart at or below a path. -/
structure LooksAlike (fs fs' : FileSystem) (root : Path) : Prop where
  /-- The first files form a tree. -/
  tree : fs.IsTree
  /-- The second files form a tree. -/
  tree' : fs'.IsTree
  /-- They agree on the way of the path and below it. -/
  domain : ∃ d, Alike d fs fs' ∧ StaysIn d root ∧ ∀ rel, d (landing [] root ++ rel)

namespace LooksAlike

variable {fs fs' : FileSystem} {root : Path} (h : LooksAlike fs fs' root)
include h

theorem scan (role : Role) : Manifest.scan fs role root = Manifest.scan fs' role root := by
  obtain ⟨d, halike, hroot, hbelow⟩ := h.domain
  exact Manifest.scan_alike halike h.tree h.tree' hroot hbelow role

theorem holds : fs.holds root = fs'.holds root := by
  obtain ⟨d, halike, hroot, -⟩ := h.domain
  exact halike.holds hroot

theorem listNames : fs.listNames root = fs'.listNames root := by
  obtain ⟨d, halike, hroot, hbelow⟩ := h.domain
  exact halike.listNames h.tree h.tree' hroot hbelow

/-- The files of a directory are the same. -/
theorem filesOf {names : List String} (hnames : ∀ name ∈ names, IsName name) :
    Server.filesOf fs root names = Server.filesOf fs' root names := by
  obtain ⟨d, halike, hroot, hbelow⟩ := h.domain
  refine List.filter_congr fun p hp => ?_
  obtain ⟨name, hm, rfl⟩ := List.mem_map.1 hp
  have hchild : StaysIn d (root.child name) := hroot.join (.of_isName (hnames name hm)) hbelow
  rw [halike.isDirectory hchild]

end LooksAlike

namespace Server

/-! ### Two steps -/

/-- Two steps come to the same in two states, and leave related states behind. -/
structure Together {α : Type} (R : Run.State → Run.State → Prop) (x y : Run α)
    (s s' : Run.State) : Prop where
  /-- Their results are the same. -/
  results : x.result s = y.result s'
  /-- The states after them are related. -/
  related : R (x.after s) (y.after s')

namespace Together

variable {α β : Type} {R : Run.State → Run.State → Prop} {s s' : Run.State}

theorem pure (h : R s s') (a : α) : Together R (pure a) (pure a) s s' := ⟨rfl, h⟩

theorem bind {x y : Run α} {f g : α → Run β} (h : Together R x y s s')
    (hf : Together R (f (x.result s)) (g (x.result s)) (x.after s) (y.after s')) :
    Together R (x >>= f) (y >>= g) s s' := by
  constructor
  · rw [Run.result_bind, Run.result_bind, ← h.results]
    exact hf.results
  · rw [Run.after_bind, Run.after_bind, ← h.results]
    exact hf.related

/-- What follows may depend on the files as they are. -/
theorem bind_files {f g : FileSystem → Run α} (h : Together R (f s.files) (g s'.files) s s') :
    Together R (Run.files >>= f) (Run.files >>= g) s s' := ⟨h.results, h.related⟩

end Together

/-! ### Writing a module -/

/-- A relation between states of two runs that reports and records do not break. -/
structure Reports (R : Run.State → Run.State → Prop) : Prop where
  /-- What is reported in both states leaves them related. -/
  report : ∀ {s s'}, R s s' → ∀ ds, R ((Run.report ds).after s) ((Run.report ds).after s')
  /-- What is recorded in both states leaves them related. -/
  record : ∀ {s s'}, R s s' → ∀ w,
    R { s with written := s.written ++ [w] } { s' with written := s'.written ++ [w] }

section reports

variable {R : Run.State → Run.State → Prop} (hR : Reports R) {s s' : Run.State} {p : Path}
include hR

theorem together_report (h : R s s') (ds : List Diagnostic) :
    Together R (Run.report ds) (Run.report ds) s s' := ⟨rfl, hR.report h ds⟩

theorem together_reporting {α : Type} (h : R s s') (ds : List Diagnostic) (a : α) :
    Together R (do Run.report ds; return a) (do Run.report ds; return a) s s' :=
  .bind (together_report hR h ds) (.pure (hR.report h ds) a)

theorem together_ensureDirectory (h : Together R (Run.change (FileSystem.ensureDirectory p))
      (Run.change (FileSystem.ensureDirectory p)) s s') :
    Together R (Run.ensureDirectory p) (Run.ensureDirectory p) s s' := by
  refine .bind h ?_
  split
  · exact .pure h.related _
  · exact together_reporting hR h.related _ _

theorem together_writeFile {text : String}
    (h : Together R (Run.change (FileSystem.writeFile p text))
      (Run.change (FileSystem.writeFile p text)) s s') :
    Together R (Run.writeFile p text) (Run.writeFile p text) s s' := by
  refine .bind h ?_
  split
  · exact .pure h.related _
  · exact together_reporting hR h.related _ _

/-- A module is written together where its directory is made together and then its text is written
together. -/
theorem together_writeModule_of_changes {m : Emit.Generated} (h : R s s')
    (hmade : Together R (Run.change (FileSystem.ensureDirectory p.directory))
      (Run.change (FileSystem.ensureDirectory p.directory)) s s')
    (hwritten : ∀ text, m.render = .ok text →
      answer (FileSystem.ensureDirectory p.directory) s.files = .ok () → ∀ t t' : Run.State,
        t.files = filesAfter (FileSystem.ensureDirectory p.directory) s.files → R t t' →
          Together R (Run.change (FileSystem.writeFile p text))
            (Run.change (FileSystem.writeFile p text)) t t') :
    Together R (Run.writeModule p m) (Run.writeModule p m) s s' := by
  unfold Run.writeModule
  split
  · exact together_reporting hR h _ _
  · next text hm =>
    have htext : Together R (Run.writeText p text) (Run.writeText p text) s s' := by
      have hensured := together_ensureDirectory hR hmade
      obtain ⟨hanswer, hfiles⟩ := Run.ensureDirectory_answer p.directory s
      refine .bind hensured ?_
      split
      · exact .pure hensured.related _
      · next hsucceeded =>
        exact together_writeFile hR
          (hwritten text hm (hanswer.1 hsucceeded) _ _ hfiles hensured.related)
    refine .bind htext ?_
    split
    · exact .pure htext.related _
    · have hrecorded := hR.record htext.related (p, m)
      exact .bind ⟨rfl, hrecorded⟩ (together_reporting hR hrecorded _ _)

end reports

/-! ### Runs on one project -/

/-- A relation between states of two runs on one project in which the folders that feed a run look
alike. -/
structure Companions (config : Config) (options : GenerateOptions)
    (R : Run.State → Run.State → Prop) : Prop extends Reports R where
  /-- The folders look alike. -/
  looks : ∀ {s s'}, R s s' → ∀ d, options.resolve d ∈ Watch.targets config options →
    LooksAlike s.files s'.files (options.resolve d)

/-- The modules of some attempts are written together. -/
def WrittenTogether (R : Run.State → Run.State → Prop) (as : List Attempt) : Prop :=
  ∀ a ∈ as, ∀ s s' : Run.State, s.files = a.files → R s s' →
    Together R (Run.writeModule a.place a.module) (Run.writeModule a.place a.module) s s'

section companions

variable {config : Config} {options : GenerateOptions} {R : Run.State → Run.State → Prop}
  (hR : Companions config options R) {s s' : Run.State} (h : R s s')
include hR h

/-- A folder that feeds a run is scanned together. -/
theorem together_scan (role : Role) {d : String}
    (hd : options.resolve d ∈ Watch.targets config options) :
    Together R (Run.scan role (options.resolve d)) (Run.scan role (options.resolve d)) s s' := by
  have hscan := (hR.looks h d hd).scan role
  refine .bind_files ?_
  rw [← hscan]
  exact together_reporting hR.toReports h _ _

theorem together_addRouter (output : Path) (folder : ApiFolder) (place : Path) (mounted : Mounted) :
    Together R (addRouter output folder place mounted) (addRouter output folder place mounted)
      s s' := by
  unfold addRouter
  dsimp only
  split
  · exact together_reporting hR.toReports h _ _
  · exact .pure h _

theorem together_preRunScripts :
    Together R (preRunScripts options config) (preRunScripts options config) s s' := by
  unfold preRunScripts
  split
  · exact .pure h _
  · next d hd =>
    have hmem : options.resolve d ∈ Watch.targets config options :=
      List.mem_append_right _ (List.mem_map_of_mem (by simp [hd]))
    have hlooks := hR.looks h d hmem
    have hrest : ∀ (scripts : List Path) {t t' : Run.State}, R t t' →
        Together R
          (do
            if scripts = [] then
              Run.info ("No pre-run scripts found in: " ++ (options.resolve d).text)
            return scripts.map (Path.specifier options.outputPath))
          (do
            if scripts = [] then
              Run.info ("No pre-run scripts found in: " ++ (options.resolve d).text)
            return scripts.map (Path.specifier options.outputPath)) t t' := by
      intro scripts t t' ht
      split
      · exact together_reporting hR.toReports ht _ _
      · exact .pure ht _
    refine .bind_files ?_
    dsimp only
    rw [← hlooks.holds, ← hlooks.listNames]
    split
    · exact together_reporting hR.toReports h _ _
    · cases hnames : s.files.listNames (options.resolve d) with
      | ok names =>
        refine .bind (.pure h names) ?_
        have hfiles := hlooks.filesOf fun name => hlooks.tree.isName_of_listNames hnames
        simp only [Run.result_pure, Run.after_pure, ← hfiles]
        exact hrest _ h
      | error e =>
        have hreported := together_report hR.toReports h
          [.warning (Manifest.unreadableMessage (options.resolve d) e)]
        exact .bind hreported (.bind (.pure hreported.related []) (hrest [] hreported.related))

/-- A folder has its turn together. -/
theorem together_takeTurn (known : Option Middleware.Collection) {pair : ApiFolder × String}
    (hpair : pair.1 ∈ config.apiFolders) (mounted : Mounted)
    (hwritten : WrittenTogether R (turnOf options known pair s).attempts) :
    Together R (takeTurn options known pair mounted) (takeTurn options known pair mounted)
      s s' := by
  have hgenerated : Together R (turnOf options known pair s).request.generate
      (turnOf options known pair s).request.generate s s' := by
    have hscan := together_scan hR h .handler
      (List.mem_append_left _ (List.mem_map_of_mem hpair))
    refine .bind hscan ?_
    split
    · exact together_reporting hR.toReports hscan.related _ _
    · next hm =>
      rw [Turn.attempts_of_ne hm] at hwritten
      exact hwritten _ List.mem_cons_self _ _ rfl hscan.related
  refine .bind hgenerated ?_
  split
  · exact .pure hgenerated.related _
  · exact together_addRouter hR hgenerated.related _ _ _ _

/-- The folders have their turns together. -/
theorem together_generateRouters (known : Option Middleware.Collection)
    {pairs : List (ApiFolder × String)} (hpairs : ∀ pair ∈ pairs, pair.1 ∈ config.apiFolders)
    (mounted : Mounted)
    (hwritten : WrittenTogether R ((turns options known pairs mounted s).flatMap Turn.attempts)) :
    Together R (generateRouters options known pairs mounted)
      (generateRouters options known pairs mounted) s s' := by
  induction pairs generalizing mounted s s' with
  | nil => exact .pure h _
  | cons pair rest ih =>
    obtain ⟨hturns, hresult, hafter⟩ := generateRouters_cons options known pair rest mounted s
    obtain ⟨-, hresult', hafter'⟩ := generateRouters_cons options known pair rest mounted s'
    rw [hturns, List.flatMap_cons] at hwritten
    have hturn := together_takeTurn hR h known (hpairs pair List.mem_cons_self) mounted
      fun a ha => hwritten a (List.mem_append_left _ ha)
    have hrest := ih hturn.related (fun p hp => hpairs p (List.mem_cons_of_mem _ hp)) _
      fun a ha => hwritten a (List.mem_append_right _ ha)
    constructor
    · rw [hresult, hresult', ← hturn.results]
      exact hrest.results
    · rw [hafter, hafter', ← hturn.results]
      exact hrest.related

end companions

namespace Course

variable {c : Course} {R : Run.State → Run.State → Prop} {s' : Run.State}
  (hR : Companions c.config c.options R) (h : R c.opened s')
include hR h

/-- The middleware is collected together. -/
theorem together_collectMiddleware (hwritten : WrittenTogether R c.tableAttempts) :
    Together R (collectMiddleware c.options c.config) (collectMiddleware c.options c.config)
      c.opened s' := by
  unfold collectMiddleware
  split
  · exact .pure h _
  · next d hd =>
    have hmem : c.options.resolve d ∈ Watch.targets c.config c.options :=
      List.mem_append_right _ (List.mem_map_of_mem (by simp [hd]))
    have hscan := together_scan hR h .middleware hmem
    have hcollected : Together R
        (Middleware.Collection.collect ⟨c.options.resolve d, c.tablePath, []⟩)
        (Middleware.Collection.collect ⟨c.options.resolve d, c.tablePath, []⟩) c.opened s' := by
      refine .bind hscan ?_
      split
      · exact together_reporting hR.toReports hscan.related _ _
      · next hm =>
        have hreported := together_report hR.toReports hscan.related ((Middleware.splitNew [] (
          (Run.scan .middleware (c.options.resolve d)).result c.opened)).2.map fun e =>
            .warning (Middleware.duplicateMessage e))
        have hfound : ¬ (Manifest.scan c.opened.files .middleware (c.options.resolve d)).manifest =
          [] := hm
        have hmem : c.tableAttempt d ∈ c.tableAttempts := by
          simp only [tableAttempts, hd, if_neg hfound]
          exact List.mem_cons_self
        have htable := hwritten _ hmem _ _ (by rfl) hreported.related
        exact .bind hreported (.bind htable (.pure htable.related _))
    refine .bind hcollected ?_
    split
    · exact .pure hcollected.related _
    · exact .pure hcollected.related _

/-- Runs that are together once the first one has its output directory stay together, if the
modules that the first one tries to write are written together. -/
theorem together_generateInto (hopens : c.opens = true) (hwritten : WrittenTogether R c.attempts) :
    Together R (generateInto c.options c.config) (generateInto c.options c.config) c.opened s' := by
  rw [attempts_of_opens hopens] at hwritten
  have hknown := together_collectMiddleware hR h fun a ha =>
    hwritten a (List.mem_append_left _ ha)
  refine .bind hknown ?_
  have hmounted : Together R (generateRouters c.options c.known c.folders {})
      (generateRouters c.options c.known c.folders {}) c.collected
        ((collectMiddleware c.options c.config).after s') :=
    together_generateRouters hR hknown.related c.known
      (fun pair hp => (List.of_mem_zip (a := pair.1) hp).1) {}
      fun a ha => hwritten a (List.mem_append_right _ (List.mem_append_left _ ha))
  refine .bind hmounted ?_
  split
  · exact together_reporting hR.toReports hmounted.related _ _
  · next hrouters =>
    have hscripts := together_preRunScripts hR hmounted.related
    have hmounts : ¬ c.mounted.routers = [] := hrouters
    have hentry : c.entrypointAttempt ∈ c.entrypointAttempts := by
      rw [entrypointAttempts_of_ne hmounts]
      exact List.mem_cons_self
    exact .bind hscripts (hwritten _ (List.mem_append_right _ (List.mem_append_right _ hentry))
      _ _ c.files_scripted hscripts.related)

end Course

end Server

end FileRoutes
