import FileRoutes.Path.Normal
import FileRoutes.Proofs.Beginnings
import FileRoutes.Proofs.FirstFree
import FileRoutes.Proofs.Places

/-!
# Places that are handed out to routers

A router has its place below the output directory, named for the folder that it serves. Folders
that are spelled differently may ask for the same place, and the place with a suffix that one of
them gets in its stead may be the one that another asks for. Two places are the same where their
components are, so it is the components that are handed out here.

## The model

* `routerPlace` — the places that a router may have, as one sequence.
* `componentsOf` — what is compared of a place.
* `IsNested` — a place that only goes down from the directory that it is joined to.

## What is proved

* `resolved_append_names` — names behind a path stay behind its normal form.
* `isNested_of_isBelow` — the files below a directory are nested.
* `firstFree_modulePath` — a router gets the first of its places that is free.
* `handsOut_modulePathsFrom` — the places of the routers are those that are handed out.

The main statement is `modulePaths_handsOut`.
-/

namespace FileRoutes

/-! ### Places that go down -/

namespace Path

/-- What is compared of a place. -/
def componentsOf (file : String) : List Component := components ⟨file⟩

/-- A place that consists of names: joined to a directory it lies below it, both as it is spelled
and once what is spelled is resolved. -/
structure IsNested (file : String) (names : List String) : Prop where
  /-- There is a name. -/
  ne_nil : names ≠ []
  /-- There is nothing but names. -/
  components : componentsOf file = names.map .name
  /-- The place is below every directory that it is joined to. -/
  below : ∀ directory : Path,
    (directory.child file).components = directory.components ++ names.map .name
  /-- And it stays there. -/
  resolved : ∀ directory : Path, resolved (directory.child file).components =
    resolved directory.components ++ names.map .name

/-- Names behind a path stay behind its normal form. -/
theorem resolved_append_names (cs : List Component) (names : List String) :
    resolved (cs ++ names.map .name) = resolved cs ++ names.map .name := by
  have hkept : ∀ kept, (names.map Component.name).foldl resolveOnto kept =
      (names.map Component.name).reverse ++ kept := by
    induction names with
    | nil => exact fun kept => rfl
    | cons name rest ih =>
      intro kept
      rw [List.map_cons, List.foldl_cons, ih]
      simp [resolveOnto]
  unfold resolved
  rw [List.foldl_append, hkept, List.reverse_append, List.reverse_reverse]

section below

variable {file other : String} (h : IsBelow file)
include h

theorem componentsOf_of_isBelow : componentsOf file = (segments ⟨file⟩).map .name := by
  have hroot : (child ⟨""⟩ file).components = (segments ⟨file⟩).map .name := components_child h ⟨""⟩
  have hchild : child ⟨""⟩ file = ⟨file⟩ := by
    rw [child, join, if_neg (by simp [h.not_isAbsolute]), if_pos rfl]
  rwa [hchild] at hroot

theorem isNested_of_isBelow : IsNested file (segments ⟨file⟩) where
  ne_nil := segments_ne_nil ⟨file⟩
  components := componentsOf_of_isBelow h
  below := components_child h
  resolved directory := by
    rw [components_child h]
    exact resolved_append_names _ _

/-- Different files below a directory have different components. -/
theorem componentsOf_inj (ho : IsBelow other) (he : componentsOf file = componentsOf other) :
    file = other := by
  rw [componentsOf_of_isBelow h, componentsOf_of_isBelow ho] at he
  have hs : segments ⟨file⟩ = segments ⟨other⟩ :=
    List.map_injective_iff.2 (fun _ _ hc => by simpa using hc) he
  rw [← Text.join_split file, ← Text.join_split other]
  exact congrArg (Text.join "/") hs

end below

end Path

/-! ### Places of routers -/

namespace Server

open FileRoutes.Path (IsBelow IsNested componentsOf componentsOf_inj isNested_of_isBelow)

/-- The places that a router may have: named for its folder, then with `_router`, and then with
one number after the other. -/
def routerPlace (stem : String) : Nat → String
  | 0 => stem ++ ".ts"
  | 1 => stem ++ "_router.ts"
  | k + 2 => stem ++ "_router_" ++ toString (k + 1) ++ ".ts"

/-- The places that are tried are the first ones. -/
theorem candidatePaths_eq_map (stem : String) (n : Nat) :
    candidatePaths stem n = (List.range (n + 2)).map (routerPlace stem) := by
  rw [List.range_succ_eq_map, List.range_succ_eq_map, List.map_cons, List.map_cons, List.map_cons,
    List.map_map, List.map_map]
  rfl

theorem isBelow_routerPlace (folder : String) (k : Nat) :
    IsBelow (routerPlace (moduleStem folder) k) := by
  have hmem : routerPlace (moduleStem folder) k ∈ candidatePaths (moduleStem folder) k := by
    rw [candidatePaths_eq_map]
    exact List.mem_map.2 ⟨k, List.mem_range.2 (by omega), rfl⟩
  obtain ⟨suffix, hp, hlen, hslash⟩ := exists_suffix_of_mem_candidatePaths hmem
  rw [hp]
  exact isBelow_moduleStem_append hlen hslash folder

/-- A router gets the first of its places that is free. -/
theorem firstFree_modulePath (taken : List String) (folder : String) :
    FirstFree (routerPlace (moduleStem folder)) taken.toFinset (modulePath taken folder) := by
  obtain ⟨hmem, hfree⟩ := modulePath_spec taken folder
  apply firstFree_of_find (n := taken.length + 2)
  rw [← candidatePaths_eq_map]
  have hpath : modulePath taken folder =
      ((candidatePaths (moduleStem folder) taken.length).find? fun p => p ∉ taken).getD
        (moduleStem folder ++ ".ts") := rfl
  cases hf : (candidatePaths (moduleStem folder) taken.length).find? fun p => p ∉ taken with
  | some p => rw [hpath, hf, Option.getD_some]
  | none =>
    have htaken := List.find?_eq_none.1 hf _ hmem
    exact absurd (by simpa using htaken) hfree

/-- The places of routers are handed out, by their components, from the first folder on. -/
theorem handsOut_modulePathsFrom (folders : List String) {taken : List String}
    (htaken : ∀ t ∈ taken, IsBelow t) :
    HandsOut (fun folder k => componentsOf (routerPlace (moduleStem folder) k))
      (taken.map componentsOf).toFinset folders ((modulePathsFrom taken folders).map componentsOf)
      ((taken.map componentsOf).toFinset ∪
        ((modulePathsFrom taken folders).map componentsOf).toFinset) := by
  induction folders generalizing taken with
  | nil => simpa [modulePathsFrom] using HandsOut.nil
  | cons folder rest ih =>
    have hnext : ∀ t ∈ modulePath taken folder :: taken, IsBelow t := by
      intro t ht
      rcases List.mem_cons.1 ht with rfl | ht
      · exact isBelow_modulePath taken folder
      · exact htaken t ht
    have hfirst : FirstFree (fun k => componentsOf (routerPlace (moduleStem folder) k))
        (taken.map componentsOf).toFinset (componentsOf (modulePath taken folder)) := by
      have himage : (taken.map componentsOf).toFinset = taken.toFinset.image componentsOf := by
        ext c
        simp
      rw [himage]
      apply (firstFree_modulePath taken folder).image
      intro k t ht he
      exact componentsOf_inj (htaken t (List.mem_toFinset.1 ht)) (isBelow_routerPlace folder k) he
    have hrest := ih hnext
    rw [List.map_cons, List.toFinset_cons] at hrest
    rw [modulePathsFrom, List.map_cons, List.toFinset_cons, Finset.union_insert,
      ← Finset.insert_union]
    exact .cons (search_iff_firstFree.2 hfirst) hrest

/-- The places of the other generated modules. -/
def fixedPlaces : List String := [tableFile, entrypointFile]

/-- **Places are handed out to routers.** Whatever the folders are called, there is one way to hand
out places to their routers in order while the places of the other generated modules are taken, and
it gives the routers their places. These differ from each other and from those of the other
modules. Each consists of names only, so it lies below every output directory that it is joined to,
and it is the first of the places for its folder that is none of the other modules' and of no
router before it. -/
theorem modulePaths_handsOut (folders : List String) :
    (∀ found final, HandsOut (fun folder k => componentsOf (routerPlace (moduleStem folder) k))
        (fixedPlaces.map componentsOf).toFinset folders found final ↔
      found = (modulePaths folders).map componentsOf ∧
        final = (fixedPlaces.map componentsOf).toFinset ∪
          ((modulePaths folders).map componentsOf).toFinset) ∧
    ((fixedPlaces ++ modulePaths folders).map componentsOf).Nodup ∧
    (∀ file ∈ modulePaths folders, ∃ names, IsNested file names) ∧
    ∀ i folder, folders[i]? = some folder → ∃ file, (modulePaths folders)[i]? = some file ∧
      FirstFree (fun k => componentsOf (routerPlace (moduleStem folder) k))
        ((fixedPlaces ++ (modulePaths folders).take i).map componentsOf).toFinset
        (componentsOf file) := by
  have hfixed : ∀ t ∈ fixedPlaces, IsBelow t := by decide
  have hout := handsOut_modulePathsFrom folders hfixed
  refine ⟨fun found final => hout.iff_eq, ?_, ?_, ?_⟩
  · rw [List.map_append]
    apply List.nodup_append.2
    refine ⟨by decide, hout.nodup, ?_⟩
    rintro c hc d hd rfl
    exact hout.not_mem hd (List.mem_toFinset.2 hc)
  · intro file hfile
    exact ⟨_, isNested_of_isBelow (isBelow_of_mem_modulePaths hfile)⟩
  · intro i folder hfolder
    obtain ⟨c, hc, hfree⟩ := hout.firstFree hfolder
    rw [List.getElem?_map, Option.map_eq_some_iff] at hc
    obtain ⟨file, hfile, rfl⟩ := hc
    refine ⟨file, hfile, ?_⟩
    rw [List.map_append, List.toFinset_append, List.map_take]
    exact hfree

/-- Three spellings of one folder, and one that is called like the places that they get. -/
example : modulePaths ["v1/x", "./v1/x_router", "../v1//x/", "/v1/x", "index"] =
    ["v1/x.ts", "v1/x_router.ts", "v1/x_router_1.ts", "v1/x_router_2.ts", "index_router.ts"] := by
  decide

end Server

end FileRoutes
