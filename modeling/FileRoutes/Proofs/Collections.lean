import FileRoutes.Proofs.Completion
import Mathlib

/-!
# What a collection remembers

A collection is asked for the middleware that there is, and answers from the mappings that it
remembers. They are documented to be those of the last time that the middleware was collected with
success, or none where nothing was found since then. But the mappings are replaced before the table
is written, so that a call that fails afterwards is remembered as well: the collection then answers
with names that are in no table, and the two agree again only where the call finds what was
remembered before.

## The model

* `Event`, `Session` — what happens to a collection and to the files of its project.
* `Call`, `Session.calls` — the calls that are made in the course of some events.
* `remembered`, `documented` — the mappings of the last call, and of the last one that counts.

## What is proved

* `mappings_run` — the collection remembers what the last call has found.
* `mappings_eq_documented_iff` — when that is what is documented.
-/

namespace FileRoutes.Middleware

open Run

/-! ### Events -/

/-- What can happen to a collection. -/
inductive Event where
  /-- The middleware is collected. -/
  | collect
  /-- The files are changed from outside. -/
  | change (files : FileSystem)
deriving DecidableEq, Inhabited

/-- A collection and the state that it works on. -/
structure Session where
  /-- The collection. -/
  collection : Collection
  /-- The state. -/
  state : State
deriving DecidableEq, Inhabited

/-- A time at which the middleware is collected. -/
structure Call where
  /-- What is found in the folder. -/
  found : Manifest
  /-- How the call ends. -/
  outcome : Outcome
deriving DecidableEq, Inhabited

namespace Session

/-- The session after an event. -/
def after (x : Session) : Event → Session
  | .collect => ⟨(x.collection.collect.result x.state).2, x.collection.collect.after x.state⟩
  | .change files => { x with state := { x.state with files := files } }

/-- The session after some events. -/
def run (x : Session) (events : List Event) : Session := events.foldl after x

/-- What a call comes to. -/
def call (x : Session) : Call where
  found := (Manifest.scan x.state.files .middleware x.collection.folder).manifest
  outcome := (x.collection.collect.result x.state).1

/-- The calls in the course of some events. -/
def calls (x : Session) : List Event → List Call
  | [] => []
  | .collect :: events => x.call :: (x.after .collect).calls events
  | .change files :: events => (x.after (.change files)).calls events

end Session

/-! ### Mappings -/

/-- The mappings of a manifest. -/
def mappingsOf (m : Manifest) : List Mapping := (splitNew [] m).1.map Mapping.ofEntry

/-- The call counts for what is documented: it succeeds, or it finds nothing. -/
def Call.Counts (call : Call) : Prop := call.outcome = .succeeded ∨ call.found = []

instance (call : Call) : Decidable call.Counts := inferInstanceAs (Decidable (_ ∨ _))

/-- The mappings of the last of some calls; without any they are what they were. -/
def remembered (start : List Mapping) (calls : List Call) : List Mapping :=
  (calls.getLast?.map fun call => mappingsOf call.found).getD start

/-- The mappings that are documented: those of the last call that counts. -/
def documented (start : List Mapping) (calls : List Call) : List Mapping :=
  remembered start (calls.filter fun call => call.Counts)

@[simp] theorem remembered_concat (start : List Mapping) (calls : List Call) (call : Call) :
    remembered start (calls ++ [call]) = mappingsOf call.found := by
  simp [remembered]

theorem remembered_cons (start : List Mapping) (call : Call) (calls : List Call) :
    remembered start (call :: calls) = remembered (mappingsOf call.found) calls := by
  induction calls using List.reverseRecOn with
  | nil => rfl
  | append_singleton calls last =>
    rw [← List.cons_append, remembered_concat, remembered_concat]

theorem documented_concat (start : List Mapping) (calls : List Call) (call : Call) :
    documented start (calls ++ [call]) =
      if call.Counts then mappingsOf call.found else documented start calls := by
  rw [documented, List.filter_append]
  split
  · next h => rw [List.filter_cons_of_pos (by simpa using h), List.filter_nil, remembered_concat]
  · next h => rw [List.filter_cons_of_neg (by simpa using h), List.filter_nil, List.append_nil,
      documented]

/-! ### What a session remembers -/

namespace Session

/-- A call is remembered, however it ends. -/
theorem mappings_after_collect (x : Session) :
    (x.after .collect).collection.mappings = mappingsOf x.call.found := by
  show (x.collection.collect.result x.state).2.mappings = mappingsOf (Manifest.scan _ _ _).manifest
  by_cases hm : (Manifest.scan x.state.files .middleware x.collection.folder).manifest = []
  · rw [(Server.Course.collect_of_nil x.collection hm).1, hm]
    rfl
  · rw [(Server.Course.collect_eq_writeModule x.collection hm).1]
    rfl

/-- The collection remembers what the last call has found. -/
theorem mappings_run (x : Session) (events : List Event) :
    (x.run events).collection.mappings = remembered x.collection.mappings (x.calls events) := by
  induction events generalizing x with
  | nil => rfl
  | cons e events ih =>
    rw [run, List.foldl_cons, ← run, ih]
    cases e with
    | collect => rw [mappings_after_collect, calls, remembered_cons]
    | change files => rfl

/-- **What a collection remembers.** Whatever happens to the files in between, a collection
remembers what the last call has found, however that call ended, and tells of the requested names
those that are remembered. This is what is documented exactly where the last call succeeds, finds
nothing, or finds what is documented without it. -/
theorem mappings_eq_documented_iff (x : Session) (events : List Event) :
    let start := x.collection.mappings
    let calls := x.calls events
    let c := (x.run events).collection
    c.mappings = remembered start calls ∧
      (∀ requested, c.available requested =
        requested.filter fun name => name ∈ (remembered start calls).map Mapping.name) ∧
      (c.mappings = documented start calls ↔
        ∀ before call, calls = before ++ [call] → ¬ call.Counts →
          mappingsOf call.found = documented start before) := by
  intro start calls c
  have hmappings : c.mappings = remembered start calls := mappings_run x events
  refine ⟨hmappings, ?_, ?_⟩
  · intro requested
    rw [← hmappings]
    rfl
  · rw [hmappings]
    clear hmappings
    -- Only the last call matters: where it does not count, what is documented is that of the others.
    generalize calls = calls
    induction calls using List.reverseRecOn with
    | nil =>
      refine ⟨fun _ before call h => ?_, fun _ => rfl⟩
      simp at h
    | append_singleton before call =>
      rw [remembered_concat, documented_concat]
      constructor
      · intro heq before' call' happend hnot
        obtain ⟨rfl, rfl⟩ := List.append_inj' happend rfl |>.imp_right List.singleton_inj.1
        rwa [if_neg hnot] at heq
      · intro h
        split
        · rfl
        · next hnot => exact h before call rfl hnot

/-! ### A table that cannot be written -/

/-- The files of a project with a file where the directory of the table should be. -/
def blockedFiles : FileSystem where
  entries := [(["blocked"], .file (.text "x")), (["mw"], .directory),
    (["mw", "auth.ts"], .file (.text "export default function middleware() \x7b\x7d"))]

/-- The middleware of the project, before it is collected. -/
def blocked : Session := ⟨⟨⟨"/mw"⟩, ⟨"/blocked/middleware.ts"⟩, []⟩, { files := blockedFiles }⟩

theorem blocked_found : blocked.call.found = [Server.Course.sampleAuth] := by
  show (Manifest.scan blockedFiles .middleware ⟨"/mw"⟩).manifest = _
  rw [Manifest.scan_of_source ⟨"/mw/"⟩ ⟨"/mw/auth.ts"⟩ "auth.ts" _ (by decide)
    (by decide) (by cbv) (by cbv) (by cbv) (by cbv) (by decide)
    Server.Course.parse_middleware]
  decide

/-- The directory of the table cannot be made. -/
theorem blocked_directory {s : State} (hs : s.files = blockedFiles) :
    (ensureDirectory (Path.directory ⟨"/blocked/middleware.ts"⟩)).result s = .failed := by
  have hdirectory : Path.directory ⟨"/blocked/middleware.ts"⟩ = ⟨"/blocked"⟩ := by decide
  have hanswer : FileSystem.Action.answer (FileSystem.ensureDirectory ⟨"/blocked"⟩) s.files =
      .error .alreadyExists := by
    rw [hs]
    cbv
  rw [hdirectory]
  simp only [ensureDirectory, result_bind, result_change, hanswer]
  rfl

theorem blocked_outcome : blocked.call.outcome = .failed := by
  have hm : (Manifest.scan blocked.state.files .middleware blocked.collection.folder).manifest ≠
      [] := by
    show blocked.call.found ≠ []
    rw [blocked_found]
    simp
  show (blocked.collection.collect.result blocked.state).1 = .failed
  obtain ⟨s', hfiles, -, hresult, -⟩ := Server.Course.collect_of_ne blocked.collection hm
  rw [hresult]
  exact writeModule_of_directory_failed (blocked_directory hfiles)

/-- A call that fails because there is no directory for the table is remembered: the middleware is
available, though no call has succeeded. -/
theorem blocked_astray :
    blocked.call.outcome = .failed ∧
      (blocked.run [.collect]).collection.available ["auth"] = ["auth"] ∧
      (blocked.run [.collect]).collection.mappings ≠
        documented blocked.collection.mappings (blocked.calls [.collect]) := by
  have hmappings : (blocked.run [.collect]).collection.mappings =
      [.ofEntry Server.Course.sampleAuth] := by
    show (blocked.after .collect).collection.mappings = _
    rw [mappings_after_collect, blocked_found]
    rfl
  have hdocumented : documented blocked.collection.mappings (blocked.calls [.collect]) = [] := by
    have hnot : ¬ blocked.call.Counts := by
      rw [Call.Counts, blocked_outcome, blocked_found]
      simp
    show documented [] ([] ++ [blocked.call]) = []
    rw [documented_concat, if_neg hnot]
    rfl
  refine ⟨blocked_outcome, ?_, ?_⟩
  · rw [Collection.available, Collection.names, hmappings]
    decide
  · rw [hmappings, hdocumented]
    simp

end Session

end FileRoutes.Middleware
