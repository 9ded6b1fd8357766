import FileRoutes.Proofs.Runs
import Mathlib.Data.List.Induction

/-!
# The turns of a run

A run goes through its folders one after the other. This module writes down what happens: the
turn of each folder begins in a state of its own, and from the turns that succeed follow the
routers that are mounted and the modules that are recorded.

## The model

* `Turn`, `turns` — the turn of a folder, and the turns of some folders in order.
* `takeTurn` — one turn with what it comes to.
* `mountsOf` — the mounts of successful turns, each under an identifier of its own.
* `mountAll` — the routers that are left when all of them have been mounted.

## What is proved

* `generateRouters_cons` — the folders have their turns one after the other.
* `result_generateRouters` — the routers of a run are those of its successful turns.
* `written_generateRouters` — the modules that are recorded are theirs, in order.
* `mem_mountAll` — a router stays mounted exactly where no later one has its slug.
* `map_slug_mountAll` — the slugs keep the places of their first routers.
-/

namespace FileRoutes.Server

open Run

/-! ### Turns -/

/-- The turn of a folder in a run. -/
structure Turn where
  /-- The folder. -/
  folder : ApiFolder
  /-- What its router is made from. -/
  request : Router.Request
  /-- The state in which the turn begins. -/
  start : State

namespace Turn

/-- The handlers that are found in the turn. -/
def manifest (t : Turn) : Manifest :=
  (Manifest.scan t.start.files .handler t.request.folder).manifest

/-- The router of the turn. -/
def router (t : Turn) : Emit.Router := t.request.router t.manifest

/-- The place of the router. -/
def place (t : Turn) : Path := t.request.modulePath

/-- Whether the router is written. -/
def succeeds (t : Turn) : Bool := t.request.generate.result t.start = .succeeded

/-- The identifier that the router asks for. -/
def wanted (t : Turn) : String := routerIdentifier t.folder.directory

/-- The mount of the router under an identifier. -/
def mount (output : Path) (t : Turn) (identifier : String) : Emit.Mount :=
  ⟨identifier, Path.specifier output t.place, t.folder.slug⟩

end Turn

/-- The turns of some folders, in order. -/
def turns (options : GenerateOptions) (known : Option Middleware.Collection) :
    List (ApiFolder × String) → Mounted → State → List Turn
  | [], _, _ => []
  | (folder, file) :: rest, mounted, s =>
    let turn : Turn :=
      ⟨folder, routerRequest options known folder (options.outputPath.child file), s⟩
    let s := turn.request.generate.after s
    turn ::
      if turn.succeeds then
        let add := addRouter options.outputPath folder turn.place mounted
        turns options known rest (add.result s) (add.after s)
      else turns options known rest mounted s

/-- The mounts of successful turns; `used` are the identifiers that are taken. -/
def mountsOf (output : Path) (used : List String) (done : List Turn) : List Emit.Mount :=
  List.zipWith (Turn.mount output) done (Identifier.freshAll used (done.map Turn.wanted))

/-- The routers after some more have been mounted. -/
def mountAll (routers : List Emit.Mount) (mounts : List Emit.Mount) : List Emit.Mount :=
  mounts.foldl (fun routers m => mount m routers) routers

theorem result_addRouter (output : Path) (folder : ApiFolder) (place : Path) (mounted : Mounted)
    (s : State) :
    (addRouter output folder place mounted).result s =
      { routers := mount ⟨Identifier.fresh mounted.identifiers (routerIdentifier folder.directory),
          Path.specifier output place, folder.slug⟩ mounted.routers
        identifiers := Identifier.fresh mounted.identifiers (routerIdentifier folder.directory) ::
          mounted.identifiers } := by
  simp only [addRouter]
  split <;> rfl

theorem written_addRouter (output : Path) (folder : ApiFolder) (place : Path) (mounted : Mounted)
    (s : State) : ((addRouter output folder place mounted).after s).written = s.written := by
  simp only [addRouter]
  split <;> rfl

theorem files_addRouter (output : Path) (folder : ApiFolder) (place : Path) (mounted : Mounted)
    (s : State) : ((addRouter output folder place mounted).after s).files = s.files := by
  simp only [addRouter]
  split <;> rfl

variable {options : GenerateOptions} {known : Option Middleware.Collection}

/-- The turn of a folder at its place. -/
def turnOf (options : GenerateOptions) (known : Option Middleware.Collection)
    (pair : ApiFolder × String) (s : State) : Turn :=
  ⟨pair.1, routerRequest options known pair.1 (options.outputPath.child pair.2), s⟩

/-- A failed turn leaves the mounted routers as they were. -/
theorem turns_cons_of_failed {pair : ApiFolder × String} {s : State}
    (h : (turnOf options known pair s).succeeds = false) (rest : List (ApiFolder × String))
    (mounted : Mounted) :
    let turn := turnOf options known pair s
    let s' := turn.request.generate.after s
    turns options known (pair :: rest) mounted s = turn :: turns options known rest mounted s' ∧
      (generateRouters options known (pair :: rest) mounted).result s =
        (generateRouters options known rest mounted).result s' ∧
      (generateRouters options known (pair :: rest) mounted).after s =
        (generateRouters options known rest mounted).after s' := by
  have hr : (routerRequest options known pair.1 (options.outputPath.child pair.2)).generate.result s
      = .failed := by
    cases hc : (routerRequest options known pair.1 (options.outputPath.child pair.2)).generate.result s
    · exact absurd hc (of_decide_eq_false h)
    · rfl
  refine ⟨?_, ?_, ?_⟩
  · simp only [turns]
    rw [if_neg (by simpa [turnOf] using h)]
    rfl
  · simp only [generateRouters, result_bind, hr]
    rfl
  · simp only [generateRouters, after_bind, hr]
    rfl

/-- A successful turn mounts its router. -/
theorem turns_cons_of_succeeds {pair : ApiFolder × String} {s : State}
    (h : (turnOf options known pair s).succeeds = true) (rest : List (ApiFolder × String))
    (mounted : Mounted) :
    let turn := turnOf options known pair s
    let add := addRouter options.outputPath pair.1 turn.place mounted
    let s' := turn.request.generate.after s
    turns options known (pair :: rest) mounted s =
        turn :: turns options known rest (add.result s') (add.after s') ∧
      (generateRouters options known (pair :: rest) mounted).result s =
        (generateRouters options known rest (add.result s')).result (add.after s') ∧
      (generateRouters options known (pair :: rest) mounted).after s =
        (generateRouters options known rest (add.result s')).after (add.after s') := by
  have hr : (routerRequest options known pair.1 (options.outputPath.child pair.2)).generate.result s
      = .succeeded := of_decide_eq_true h
  refine ⟨?_, ?_, ?_⟩
  · simp only [turns]
    rw [if_pos (by simpa [turnOf] using h)]
    rfl
  · simp only [generateRouters, result_bind, hr]
    rfl
  · simp only [generateRouters, after_bind, hr]
    rfl

/-- One turn with what it comes to: the routers once that of the folder is mounted, if it is
written. -/
def takeTurn (options : GenerateOptions) (known : Option Middleware.Collection)
    (pair : ApiFolder × String) (mounted : Mounted) : Run Mounted := do
  let place := options.outputPath.child pair.2
  match ← (routerRequest options known pair.1 place).generate with
  | .failed => return mounted
  | .succeeded => addRouter options.outputPath pair.1 place mounted

/-- The folders have their turns one after the other. -/
theorem generateRouters_cons (options : GenerateOptions) (known : Option Middleware.Collection)
    (pair : ApiFolder × String) (rest : List (ApiFolder × String))
    (mounted : Mounted) (s : State) :
    let next := (takeTurn options known pair mounted).result s
    let s' := (takeTurn options known pair mounted).after s
    turns options known (pair :: rest) mounted s =
        turnOf options known pair s :: turns options known rest next s' ∧
      (generateRouters options known (pair :: rest) mounted).result s =
        (generateRouters options known rest next).result s' ∧
      (generateRouters options known (pair :: rest) mounted).after s =
        (generateRouters options known rest next).after s' := by
  cases hs : (turnOf options known pair s).succeeds with
  | false =>
    have hr : (turnOf options known pair s).request.generate.result s = .failed := by
      cases hr : (turnOf options known pair s).request.generate.result s with
      | failed => rfl
      | succeeded => exact absurd hr (of_decide_eq_false hs)
    have hturn : (takeTurn options known pair mounted).result s = mounted ∧
        (takeTurn options known pair mounted).after s =
          (turnOf options known pair s).request.generate.after s := by
      simp only [takeTurn, result_bind, after_bind]
      rw [show (routerRequest options known pair.1 (options.outputPath.child pair.2)).generate.result
        s = .failed from hr]
      exact ⟨rfl, rfl⟩
    dsimp only
    rw [hturn.1, hturn.2]
    exact turns_cons_of_failed hs rest mounted
  | true =>
    have hr : (turnOf options known pair s).request.generate.result s = .succeeded :=
      of_decide_eq_true hs
    let add := addRouter options.outputPath pair.1 (turnOf options known pair s).place mounted
    let generated := (turnOf options known pair s).request.generate.after s
    have hturn : (takeTurn options known pair mounted).result s = add.result generated ∧
        (takeTurn options known pair mounted).after s = add.after generated := by
      simp only [takeTurn, result_bind, after_bind]
      rw [show (routerRequest options known pair.1 (options.outputPath.child pair.2)).generate.result
        s = .succeeded from hr]
      exact ⟨rfl, rfl⟩
    dsimp only
    rw [hturn.1, hturn.2]
    exact turns_cons_of_succeeds hs rest mounted

/-- Every turn is that of one of the folders. -/
theorem exists_pair_of_mem_turns {pairs : List (ApiFolder × String)} {mounted : Mounted} {s : State}
    {t : Turn} (h : t ∈ turns options known pairs mounted s) :
    ∃ pair ∈ pairs, t = turnOf options known pair t.start := by
  induction pairs generalizing mounted s with
  | nil => simp [turns] at h
  | cons pair rest ih =>
    cases hs : (turnOf options known pair s).succeeds with
    | false =>
      rw [(turns_cons_of_failed hs rest mounted).1] at h
      rcases List.mem_cons.1 h with rfl | h
      · exact ⟨pair, List.mem_cons_self, rfl⟩
      · obtain ⟨q, hq, ht⟩ := ih h
        exact ⟨q, List.mem_cons_of_mem _ hq, ht⟩
    | true =>
      rw [(turns_cons_of_succeeds hs rest mounted).1] at h
      rcases List.mem_cons.1 h with rfl | h
      · exact ⟨pair, List.mem_cons_self, rfl⟩
      · obtain ⟨q, hq, ht⟩ := ih h
        exact ⟨q, List.mem_cons_of_mem _ hq, ht⟩

/-- Every folder has its turn, in order. -/
theorem map_turns (pairs : List (ApiFolder × String)) (mounted : Mounted) (s : State) :
    (turns options known pairs mounted s).map (fun t => (t.folder, t.place)) =
      pairs.map fun pair => (pair.1, options.outputPath.child pair.2) := by
  induction pairs generalizing mounted s with
  | nil => rfl
  | cons pair rest ih =>
    cases hs : (turnOf options known pair s).succeeds with
    | false =>
      rw [(turns_cons_of_failed hs rest mounted).1, List.map_cons, ih]
      rfl
    | true =>
      rw [(turns_cons_of_succeeds hs rest mounted).1, List.map_cons, ih]
      rfl

/-- The routers of some folders are those of their successful turns. -/
theorem result_generateRouters (pairs : List (ApiFolder × String)) (mounted : Mounted) (s : State) :
    ((generateRouters options known pairs mounted).result s).routers =
      mountAll mounted.routers (mountsOf options.outputPath mounted.identifiers
        ((turns options known pairs mounted s).filter Turn.succeeds)) := by
  induction pairs generalizing mounted s with
  | nil => rfl
  | cons pair rest ih =>
    cases hs : (turnOf options known pair s).succeeds with
    | false =>
      obtain ⟨ht, hr, -⟩ := turns_cons_of_failed hs rest mounted
      rw [hr, ht, ih, List.filter_cons_of_neg (by simp [hs])]
    | true =>
      obtain ⟨ht, hr, -⟩ := turns_cons_of_succeeds hs rest mounted
      rw [hr, ht, ih, List.filter_cons_of_pos hs, result_addRouter]
      rfl

theorem written_generate (r : Router.Request) (s : State) :
    (r.generate.after s).written = s.written ++
      if r.generate.result s = .succeeded then
        [(r.modulePath, .router (r.router (Manifest.scan s.files .handler r.folder).manifest))]
      else [] := by
  simp only [Router.Request.generate, after_bind, result_bind]
  split
  · exact (List.append_nil _).symm
  · rw [written_writeModule]
    rfl

/-- With any handler in the folder, making its router comes to writing it. -/
theorem generate_of_ne (r : Router.Request) {s : State}
    (h : (Manifest.scan s.files .handler r.folder).manifest ≠ []) :
    ∃ s', s'.files = s.files ∧
      let router := r.router (Manifest.scan s.files .handler r.folder).manifest
      let writing := writeModule r.modulePath (.router router)
      r.generate.result s = writing.result s' ∧ r.generate.after s = writing.after s' := by
  simp only [Router.Request.generate, after_bind, result_bind, result_scan, h, if_false]
  generalize hs : (scan _ _).after s = s'
  exact ⟨s', by rw [← hs]; rfl, rfl, rfl⟩

/-- A turn records its router exactly where it succeeds. -/
theorem Turn.written_after (t : Turn) :
    (t.request.generate.after t.start).written =
      t.start.written ++ if t.succeeds then [(t.place, .router t.router)] else [] := by
  rw [written_generate]
  cases hs : t.succeeds with
  | false => rw [if_neg (of_decide_eq_false hs)]; rfl
  | true => rw [if_pos (of_decide_eq_true hs)]; rfl

/-- The routers of the successful turns are written, in order. -/
theorem written_generateRouters (pairs : List (ApiFolder × String)) (mounted : Mounted)
    (s : State) :
    ((generateRouters options known pairs mounted).after s).written = s.written ++
      ((turns options known pairs mounted s).filter Turn.succeeds).map
        fun t => (t.place, .router t.router) := by
  induction pairs generalizing mounted s with
  | nil => simp [generateRouters, turns]
  | cons pair rest ih =>
    cases hs : (turnOf options known pair s).succeeds with
    | false =>
      obtain ⟨ht, -, ha⟩ := turns_cons_of_failed hs rest mounted
      have hw := (turnOf options known pair s).written_after
      rw [hs] at hw
      rw [ha, ht, ih, List.filter_cons_of_neg (by simp [hs])]
      exact congrArg (· ++ _) (hw.trans (List.append_nil _))
    | true =>
      obtain ⟨ht, -, ha⟩ := turns_cons_of_succeeds hs rest mounted
      have hw := (turnOf options known pair s).written_after
      rw [hs] at hw
      rw [ha, ht, ih, List.filter_cons_of_pos hs, written_addRouter, List.map_cons]
      exact (congrArg (· ++ _) hw).trans (List.append_assoc _ _ _)

/-! ### Mounting -/

theorem map_slug_mount (m : Emit.Mount) (routers : List Emit.Mount) :
    (mount m routers).map Emit.Mount.slug =
      if m.slug ∈ routers.map Emit.Mount.slug then routers.map Emit.Mount.slug
      else routers.map Emit.Mount.slug ++ [m.slug] := by
  induction routers with
  | nil => simp [mount]
  | cons r rest ih =>
    by_cases h : r.slug = m.slug
    · simp [mount, h]
    · have hm : m.slug ∈ r.slug :: rest.map Emit.Mount.slug ↔
          m.slug ∈ rest.map Emit.Mount.slug := by
        rw [List.mem_cons, or_iff_right (Ne.symm h)]
      rw [mount, if_neg h, List.map_cons, ih, List.map_cons]
      by_cases hs : m.slug ∈ rest.map Emit.Mount.slug
      · rw [if_pos hs, if_pos (hm.2 hs)]
      · rw [if_neg hs, if_neg (fun e => hs (hm.1 e)), List.cons_append]

theorem nodup_slug_mount {m : Emit.Mount} {routers : List Emit.Mount}
    (h : (routers.map Emit.Mount.slug).Nodup) :
    ((mount m routers).map Emit.Mount.slug).Nodup := by
  rw [map_slug_mount]
  split
  · exact h
  · next hm => exact List.nodup_append.2 ⟨h, by simp, fun a ha b hb e => hm (by simp_all)⟩

/-- Mounting a router leaves those with other slugs. -/
theorem mem_mount {m x : Emit.Mount} {routers : List Emit.Mount}
    (h : (routers.map Emit.Mount.slug).Nodup) :
    x ∈ mount m routers ↔ x = m ∨ x ∈ routers ∧ x.slug ≠ m.slug := by
  induction routers with
  | nil => simp [mount]
  | cons r rest ih =>
    rw [List.map_cons] at h
    obtain ⟨hr, hrest⟩ := List.nodup_cons.1 h
    by_cases hs : r.slug = m.slug
    · have hne : x ∈ rest → x.slug ≠ m.slug := fun hx e =>
        hr (hs ▸ e ▸ List.mem_map_of_mem hx)
      rw [mount, if_pos hs, List.mem_cons, List.mem_cons]
      constructor
      · rintro (hx | hx)
        · exact .inl hx
        · exact .inr ⟨.inr hx, hne hx⟩
      · rintro (hx | ⟨rfl | hx, hxs⟩)
        · exact .inl hx
        · exact absurd hs hxs
        · exact .inr hx
    · rw [mount, if_neg hs, List.mem_cons, List.mem_cons, ih hrest]
      constructor
      · rintro (rfl | hx | ⟨hx, hxs⟩)
        · exact .inr ⟨.inl rfl, hs⟩
        · exact .inl hx
        · exact .inr ⟨.inr hx, hxs⟩
      · rintro (hx | ⟨hx | hx, hxs⟩)
        · exact .inr (.inl hx)
        · exact .inl hx
        · exact .inr (.inr ⟨hx, hxs⟩)

theorem mountAll_concat (routers mounts : List Emit.Mount) (m : Emit.Mount) :
    mountAll routers (mounts ++ [m]) = mount m (mountAll routers mounts) := by
  simp [mountAll]

theorem nodup_slug_mountAll (mounts : List Emit.Mount) :
    ((mountAll [] mounts).map Emit.Mount.slug).Nodup := by
  induction mounts using List.reverseRecOn with
  | nil => simp [mountAll]
  | append_singleton mounts m ih =>
    rw [mountAll_concat]
    exact nodup_slug_mount ih

/-- The slugs that are mounted are those of the routers, each in the place of its first one. -/
theorem map_slug_mountAll (mounts : List Emit.Mount) :
    (mountAll [] mounts).map Emit.Mount.slug = (mounts.map Emit.Mount.slug).eraseDups := by
  induction mounts using List.reverseRecOn with
  | nil => rfl
  | append_singleton mounts m ih =>
    rw [mountAll_concat, map_slug_mount, ih, List.map_append, List.map_singleton,
      List.eraseDups_append]
    generalize mounts.map Emit.Mount.slug = slugs
    by_cases hm : m.slug ∈ slugs
    · rw [if_pos (List.mem_eraseDups.2 hm)]
      simp [List.removeAll, hm]
    · rw [if_neg fun h => hm (List.mem_eraseDups.1 h)]
      simp [List.removeAll, hm, List.eraseDups_cons]

/-- A router stays mounted where no later one has its slug. -/
theorem mem_mountAll {mounts : List Emit.Mount} {x : Emit.Mount} :
    x ∈ mountAll [] mounts ↔
      ∃ before after, mounts = before ++ x :: after ∧ ∀ m ∈ after, m.slug ≠ x.slug := by
  induction mounts using List.reverseRecOn with
  | nil => simp [mountAll]
  | append_singleton mounts m ih =>
    rw [mountAll_concat, mem_mount (nodup_slug_mountAll mounts), ih]
    constructor
    · rintro (rfl | ⟨⟨before, after, rfl, h⟩, hs⟩)
      · exact ⟨mounts, [], rfl, by simp⟩
      · refine ⟨before, after ++ [m], by simp, fun y hy => ?_⟩
        rcases List.mem_append.1 hy with hy | hy
        · exact h y hy
        · rw [List.mem_singleton.1 hy]
          exact Ne.symm hs
    · rintro ⟨before, after, he, h⟩
      rcases List.eq_nil_or_concat after with rfl | ⟨after, y, rfl⟩
      · exact .inl (by simpa using (List.append_inj' he rfl).2.symm)
      · rw [List.concat_eq_append, ← List.cons_append, ← List.append_assoc] at he
        obtain ⟨rfl, hm⟩ := List.append_inj' he rfl
        obtain rfl : m = y := by simpa using hm
        refine .inr ⟨⟨before, after, rfl, fun z hz => h z (by simp [hz])⟩, ?_⟩
        exact Ne.symm (h m (by simp))

/-! ### Mounts of turns -/

/-- The identifiers that are taken once some turns have succeeded. -/
def takenAfter (used : List String) (before : List Turn) : List String :=
  (Identifier.freshAll used (before.map Turn.wanted)).reverse ++ used

theorem length_mountsOf (output : Path) (used : List String) (done : List Turn) :
    (mountsOf output used done).length = done.length := by
  simp [mountsOf, Identifier.length_freshAll]

theorem mountsOf_append (output : Path) (used : List String) (before : List Turn) (t : Turn)
    (after : List Turn) :
    mountsOf output used (before ++ t :: after) = mountsOf output used before ++
      t.mount output (Identifier.fresh (takenAfter used before) t.wanted) ::
        mountsOf output (takenAfter used (before ++ [t])) after := by
  have htaken : takenAfter used (before ++ [t]) =
      Identifier.fresh (takenAfter used before) t.wanted :: takenAfter used before := by
    simp [takenAfter, Identifier.freshAll_append, Identifier.freshAll]
  rw [mountsOf, List.map_append, Identifier.freshAll_append,
    List.zipWith_append (by simp [Identifier.length_freshAll]), List.map_cons, Identifier.freshAll,
    List.zipWith_cons_cons, htaken]
  rfl

theorem map_slug_mountsOf (output : Path) (used : List String) (done : List Turn) :
    (mountsOf output used done).map Emit.Mount.slug = done.map fun t => t.folder.slug := by
  induction done using List.reverseRecOn with
  | nil => rfl
  | append_singleton done t ih =>
    rw [mountsOf_append, List.map_append, ih, List.map_append]
    rfl

theorem map_identifier_mountsOf (output : Path) (used : List String) (done : List Turn) :
    (mountsOf output used done).map Emit.Mount.identifier =
      Identifier.freshAll used (done.map Turn.wanted) := by
  induction done using List.reverseRecOn with
  | nil => rfl
  | append_singleton done t ih =>
    rw [mountsOf_append, List.map_append, ih, List.map_append,
      Identifier.freshAll_append]
    rfl

/-- What is mounted in the end: of the turns with one slug, the last one. -/
theorem mem_mountAll_mountsOf {output : Path} {used : List String} {done : List Turn}
    {x : Emit.Mount} :
    x ∈ mountAll [] (mountsOf output used done) ↔
      ∃ before t after, done = before ++ t :: after ∧
        (∀ u ∈ after, u.folder.slug ≠ t.folder.slug) ∧
        x = t.mount output (Identifier.fresh (takenAfter used before) t.wanted) := by
  rw [mem_mountAll]
  constructor
  · rintro ⟨pre, post, he, hpost⟩
    have hlen : pre.length < done.length := by
      rw [← length_mountsOf output used done, he]
      simp
    obtain ⟨before, t, after, rfl, hbefore⟩ : ∃ before t after, done = before ++ t :: after ∧
        before.length = pre.length :=
      ⟨done.take pre.length, done[pre.length], done.drop (pre.length + 1),
        by rw [List.getElem_cons_drop, List.take_append_drop], by
          rw [List.length_take]; omega⟩
    rw [mountsOf_append] at he
    obtain ⟨-, hx⟩ := List.append_inj he (by rw [length_mountsOf, hbefore])
    obtain ⟨rfl, rfl⟩ := List.cons_eq_cons.1 hx
    refine ⟨before, t, after, rfl, fun u hu => ?_, rfl⟩
    have hmem : u.folder.slug ∈ (mountsOf output (takenAfter used (before ++ [t])) after).map
        Emit.Mount.slug := by
      rw [map_slug_mountsOf]
      exact List.mem_map_of_mem hu
    obtain ⟨m, hm, hs⟩ := List.mem_map.1 hmem
    exact hs ▸ hpost m hm
  · rintro ⟨before, t, after, rfl, hafter, rfl⟩
    refine ⟨_, _, mountsOf_append output used before t after, fun m hm => ?_⟩
    have hmem := List.mem_map_of_mem (f := Emit.Mount.slug) hm
    rw [map_slug_mountsOf] at hmem
    obtain ⟨u, hu, hs⟩ := List.mem_map.1 hmem
    exact hs ▸ hafter u hu

end FileRoutes.Server
