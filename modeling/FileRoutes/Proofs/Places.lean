import FileRoutes.Generate.Server
import FileRoutes.Proofs.Landing

/-!
# Places of generated modules

The files of the generated modules lie below the output directory, whatever the configured
folders are called, and no two of them are the same. So the modules of a run lead to
different locations, and each lies in the directory that its specifiers are made for.

## The model

* `IsBelow` — a file that only goes down from the directory it is placed in.

## What is proved

* `landing_child` — where a file below a directory leads.
* `isBelow_of_mem_modulePaths`, `nodup_modulePaths` — the files of the routers are below the
  output directory, and they differ from each other and from the other generated modules.
-/

namespace FileRoutes

/-! ### Files below a directory -/

namespace Path

open FileSystem (saysNothing)

/-- A file that only goes down from where it is placed. -/
def IsBelow (file : String) : Prop := ∀ s ∈ segments ⟨file⟩, GoesDown s

instance (file : String) : Decidable (IsBelow file) :=
  inferInstanceAs (Decidable (∀ s ∈ segments ⟨file⟩, GoesDown s))

/-- The last piece of a file below a directory is its name. -/
theorem IsBelow.exists_name {file : String} (h : IsBelow file) :
    ∃ init name, segments ⟨file⟩ = init ++ [name] ∧ GoesDown name := by
  obtain ⟨init, name, hs⟩ := List.eq_nil_or_concat (segments ⟨file⟩) |>.resolve_left
    (Text.split_ne_nil file)
  rw [List.concat_eq_append] at hs
  exact ⟨init, name, hs, h name (by simp [hs])⟩

theorem IsBelow.not_isAbsolute {file : String} (h : IsBelow file) :
    isAbsolute ⟨file⟩ = false := by
  obtain ⟨s, rest, hs⟩ := List.exists_cons_of_ne_nil (Text.split_ne_nil file)
  refine Bool.eq_false_iff.2 fun ha => ?_
  obtain ⟨rfl, -⟩ := (isAbsolute_iff_segments (p := ⟨file⟩) hs).1 ha
  have hdown : GoesDown "" := h "" (by rw [segments, hs]; exact List.mem_cons_self)
  exact absurd hdown.1 (by decide)

/-- The pieces of a path with a relative path joined to it end with those of the latter. -/
theorem exists_segments_join {q : Path} (h : q.isAbsolute = false) (p : Path) :
    ∃ init, (p.join q).segments = init ++ q.segments := by
  unfold join
  rw [if_neg (by simp [h])]
  split
  · exact ⟨[], rfl⟩
  · split
    · next hl =>
      obtain ⟨t, ht⟩ := exists_of_getLast_slash hl
      exact ⟨Text.split '/' t, by rw [segments, ht, Text.split_append]; rfl⟩
    · exact ⟨p.segments, by rw [segments, Text.split_append]; rfl⟩

section child

variable {file : String} (h : IsBelow file) (p : Path)
include h

theorem isAbsolute_child : (p.child file).isAbsolute = p.isAbsolute :=
  isAbsolute_join_of_relative h.not_isAbsolute p

/-- A file below a directory leads from there down to its name. -/
theorem landing_child (here : Location) :
    landing here (p.child file) = landing here p ++ segments ⟨file⟩ := by
  rw [child, landing_join h.not_isAbsolute, follow_goesDown h]

/-- The directory of a file below a directory leads to where the file leads, without its
name. -/
theorem landing_directory_child (here : Location) :
    ∃ name, landing here (p.child file) = landing here (p.child file).directory ++ [name] := by
  obtain ⟨init, name, hs, hname⟩ := h.exists_name
  obtain ⟨before, hb⟩ := exists_segments_join h.not_isAbsolute p
  have hsegments : (p.child file).segments = (before ++ init) ++ name :: [] := by
    rw [child, hb, hs, List.append_assoc]
  exact ⟨name, landing_directory hsegments hname (by simp) here⟩

theorem isAbsolute_directory_child : (p.child file).directory.isAbsolute = p.isAbsolute := by
  obtain ⟨init, name, hs, hname⟩ := h.exists_name
  obtain ⟨before, hb⟩ := exists_segments_join h.not_isAbsolute p
  rw [← isAbsolute_child h p]
  have hsegments : (p.child file).segments = (before ++ init) ++ name :: [] := by
    rw [child, hb, hs, List.append_assoc]
  exact isAbsolute_directory hsegments hname.1 (by simp)

/-- The directory of a file right below a directory leads to where the directory leads. -/
theorem landing_directory_child_of_name (hone : segments ⟨file⟩ = [file]) (here : Location) :
    landing here (p.child file).directory = landing here p := by
  obtain ⟨name, hn⟩ := landing_directory_child h p here
  rw [landing_child h, hone] at hn
  exact (List.append_inj' hn rfl).1.symm

end child

/-- Different files below a directory lead to different locations. -/
theorem landing_child_inj {file other : String} (h : IsBelow file) (ho : IsBelow other)
    {here : Location} {p : Path} (he : landing here (p.child file) = landing here (p.child other)) :
    file = other := by
  rw [landing_child h, landing_child ho] at he
  have hs := List.append_cancel_left he
  rw [← Text.join_split file, ← Text.join_split other]
  exact congrArg (Text.join "/") hs

/-! ### Names in a path -/

/-- The names of a path go down and hold no slash. -/
theorem mem_names {p : Path} {s : String} (h : s ∈ p.names) : GoesDown s ∧ '/' ∉ s.toList := by
  obtain ⟨c, hc, hn⟩ := List.mem_filterMap.1 h
  obtain rfl : c = .name s := by cases c <;> simp_all [Component.name?]
  have hseg : ∃ q ∈ p.segments, componentOf? q = some (.name s) := by
    unfold components at hc
    split at hc
    · exact List.mem_filterMap.1 ((List.mem_cons.1 hc).resolve_left (by simp))
    · split at hc
      · simp at hc
      · next q rest hq =>
        rcases List.mem_append.1 hc with hc | hc
        · split at hc <;> simp at hc
        · rw [hq]
          exact List.mem_filterMap.1 hc
  obtain ⟨q, hq, hqs⟩ := hseg
  unfold componentOf? at hqs
  split at hqs
  · cases hqs
  · next hnothing =>
    split at hqs
    · cases hqs
    · next hup =>
      obtain rfl : q = s := by simpa using hqs
      exact ⟨⟨by simpa [saysNothing] using hnothing, hup⟩, not_mem_of_mem_segments hq⟩

/-- The name of a path is its last piece, if that leads down. -/
theorem fileName_of_segments {p : Path} {init : List String} {name : String}
    (h : p.segments = init ++ [name]) (hdown : GoesDown name) : p.fileName? = some name := by
  have hname : componentOf? name = some (.name name) := by
    rw [componentOf?, if_neg (by simpa [saysNothing] using hdown.1), if_neg hdown.2]
  have hlast : ∀ cs : List Component,
      (cs ++ (init ++ [name]).filterMap componentOf?).getLast? = some (.name name) := by
    intro cs
    simp [List.filterMap_append, hname, ← List.append_assoc]
  have hcomponents : ∃ cs, p.components = cs ++ (init ++ [name]).filterMap componentOf? := by
    unfold components
    rw [h]
    split
    · exact ⟨[.root], rfl⟩
    · split
      · next he => simp at he
      · next s rest he => exact ⟨_, by rw [he]⟩
  obtain ⟨cs, hcs⟩ := hcomponents
  rw [fileName?, hcs, hlast]
  rfl

end Path

/-! ### Files of routers -/

namespace Server

open FileRoutes.Path (GoesDown IsBelow goesDown_append segments)

/-- The place of a router without its extension, cut before its last name. -/
theorem exists_moduleStem (folder : String) :
    ∃ init last, moduleStem folder = Text.join "/" (init ++ [last]) ∧
      ∀ s ∈ init ++ [last], GoesDown s ∧ '/' ∉ s.toList := by
  unfold moduleStem
  split
  · exact ⟨[], defaultStem, rfl, by decide⟩
  · next h =>
    obtain ⟨init, last, hs⟩ := List.eq_nil_or_concat (Path.names ⟨folder⟩) |>.resolve_left h
    rw [List.concat_eq_append] at hs
    exact ⟨init, last, by rw [hs], fun s hm => Path.mem_names (hs ▸ hm)⟩

/-- The place of a router with an ending behind it is below the output directory. -/
theorem isBelow_moduleStem_append {suffix : String} (hlen : 2 < suffix.toList.length)
    (hslash : '/' ∉ suffix.toList) (folder : String) : IsBelow (moduleStem folder ++ suffix) := by
  obtain ⟨init, last, hs, hdown⟩ := exists_moduleStem folder
  have hmem : ∀ s ∈ init ++ [last ++ suffix], GoesDown s ∧ '/' ∉ s.toList := by
    intro s hm
    rcases List.mem_append.1 hm with hm | hm
    · exact hdown s (List.mem_append_left _ hm)
    · obtain rfl := List.mem_singleton.1 hm
      have hlast := (hdown last (by simp)).2
      exact ⟨goesDown_append hlen last, by simp [hlast, hslash]⟩
  rw [IsBelow, hs, Text.join_concat_append, Path.segments_join (by simp) fun s hm => (hmem s hm).2]
  exact fun s hm => (hmem s hm).1

/-- The endings that a router may have. -/
theorem exists_suffix_of_mem_candidatePaths {stem p : String} {n : Nat}
    (h : p ∈ candidatePaths stem n) :
    ∃ suffix, p = stem ++ suffix ∧ 2 < suffix.toList.length ∧ '/' ∉ suffix.toList := by
  rcases List.mem_cons.1 h with rfl | h
  · exact ⟨".ts", rfl, by decide, by decide⟩
  · rcases List.mem_cons.1 h with rfl | h
    · exact ⟨"_router.ts", rfl, by decide, by decide⟩
    · obtain ⟨k, -, rfl⟩ := List.mem_map.1 h
      refine ⟨"_router_" ++ toString (k + 1) ++ ".ts", by simp [String.append_assoc], ?_, ?_⟩
      · simp only [String.toList_append, List.length_append]
        have : (".ts" : String).toList.length = 3 := by decide
        omega
      · simp only [String.toList_append, List.mem_append, not_or]
        exact ⟨⟨by decide, Text.slash_not_mem_toString _⟩, by decide⟩

theorem nodup_candidatePaths (stem : String) (n : Nat) : (candidatePaths stem n).Nodup := by
  have hnumber : ∀ k : Nat, stem ++ "_router_" ++ toString k ++ ".ts" =
      Identifier.suffixed (stem ++ "_router") k ++ ".ts" := fun k => by
    have hu : "_router_" = "_router" ++ "_" := by decide
    simp only [Identifier.suffixed, hu, String.append_assoc]
  have hplain : ∀ k : Nat, stem ++ ".ts" ≠ stem ++ "_router_" ++ toString k ++ ".ts" := by
    intro k h
    have := congrArg String.toList h
    simp [String.toList_append] at this
  have hrouter : ∀ k : Nat, stem ++ "_router.ts" ≠ stem ++ "_router_" ++ toString k ++ ".ts" := by
    intro k h
    have := congrArg String.toList h
    simp [String.toList_append] at this
  have htwo : stem ++ ".ts" ≠ stem ++ "_router.ts" := by
    intro h
    have := congrArg String.toList h
    simp [String.toList_append] at this
  refine List.nodup_cons.2 ⟨?_, List.nodup_cons.2 ⟨?_, ?_⟩⟩
  · intro h
    rcases List.mem_cons.1 h with h | h
    · exact htwo h
    · obtain ⟨k, -, h⟩ := List.mem_map.1 h
      exact hplain _ h.symm
  · intro h
    obtain ⟨k, -, h⟩ := List.mem_map.1 h
    exact hrouter _ h.symm
  · refine List.Pairwise.map _ ?_ List.nodup_range
    intro j k hne h
    rw [hnumber, hnumber] at h
    have := Identifier.suffixed_inj ((String.append_left_inj ".ts").1 h)
    omega

/-- The file of a router is one of its candidates, and it is not taken. -/
theorem modulePath_spec (taken : List String) (folder : String) :
    modulePath taken folder ∈ candidatePaths (moduleStem folder) taken.length ∧
      modulePath taken folder ∉ taken := by
  have hlen : taken.length < (candidatePaths (moduleStem folder) taken.length).length := by
    simp only [candidatePaths, List.length_cons, List.length_map, List.length_range]
    omega
  obtain ⟨s, hs, hfree⟩ := Identifier.exists_free (nodup_candidatePaths _ _) hlen
  cases hf : (candidatePaths (moduleStem folder) taken.length).find? fun p => p ∉ taken with
  | none => exact absurd (by simpa using hfree) (by simpa using List.find?_eq_none.1 hf s hs)
  | some p =>
    have hp : modulePath taken folder = p := by
      simp only [modulePath, hf]
      rfl
    rw [hp]
    exact ⟨List.mem_of_find?_eq_some hf, by simpa using List.find?_some hf⟩

theorem isBelow_modulePath (taken : List String) (folder : String) :
    IsBelow (modulePath taken folder) := by
  obtain ⟨suffix, hp, hlen, hslash⟩ :=
    exists_suffix_of_mem_candidatePaths (modulePath_spec taken folder).1
  rw [hp]
  exact isBelow_moduleStem_append hlen hslash folder

theorem modulePathsFrom_spec (taken folders : List String) :
    (∀ file ∈ modulePathsFrom taken folders, IsBelow file ∧ file ∉ taken) ∧
      (modulePathsFrom taken folders).Nodup := by
  induction folders generalizing taken with
  | nil => simp [modulePathsFrom]
  | cons folder rest ih =>
    obtain ⟨hbelow, hnodup⟩ := ih (modulePath taken folder :: taken)
    refine ⟨fun file h => ?_, List.nodup_cons.2 ⟨fun h => ?_, hnodup⟩⟩
    · rcases List.mem_cons.1 h with rfl | h
      · exact ⟨isBelow_modulePath _ _, (modulePath_spec _ _).2⟩
      · exact ⟨(hbelow file h).1, fun ht => (hbelow file h).2 (List.mem_cons_of_mem _ ht)⟩
    · exact (hbelow _ h).2 List.mem_cons_self

theorem isBelow_of_mem_modulePaths {folders : List String} {file : String}
    (h : file ∈ modulePaths folders) : IsBelow file :=
  ((modulePathsFrom_spec _ _).1 file h).1

/-- The files of the generated modules differ from each other. -/
theorem nodup_modulePaths (folders : List String) :
    (tableFile :: entrypointFile :: modulePaths folders).Nodup := by
  obtain ⟨hnew, hnodup⟩ := modulePathsFrom_spec [tableFile, entrypointFile] folders
  refine List.nodup_cons.2 ⟨fun h => ?_, List.nodup_cons.2 ⟨fun h => ?_, hnodup⟩⟩
  · rcases List.mem_cons.1 h with h | h
    · exact absurd h (by decide)
    · exact (hnew _ h).2 (by simp)
  · exact (hnew _ h).2 (by simp)

/-- Every folder has a file for its router. -/
theorem length_modulePaths (folders : List String) :
    (modulePaths folders).length = folders.length := by
  have key : ∀ taken, (modulePathsFrom taken folders).length = folders.length := by
    induction folders with
    | nil => exact fun _ => rfl
    | cons folder rest ih => exact fun taken => congrArg (· + 1) (ih _)
  exact key _

end Server

end FileRoutes
