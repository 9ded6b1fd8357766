import FileRoutes.Proofs.Ways
import FileRoutes.Watch

/-!
# What a path begins with

A watcher ignores the paths that begin with the output directory, component by component. This
module says which components a file below a directory has, and those of the directory of a file:
so everything that is placed below a directory begins with it, however the directory is spelled.

## What is proved

* `components_eq` — the components of a path, read off its pieces.
* `components_child`, `components_directory` — those of a file and of its directory.
* `startsWith_child`, `startsWith_directory_child` — a file below a directory begins with it, and
  so does everything beside that file.
-/

namespace FileRoutes.Path

open FileSystem (saysNothing)

variable {p : Path} {file name : String} {init blanks : List String}

/-- What stands before the pieces that are components. -/
def heading (p : Path) : List Component :=
  if p.isAbsolute then [.root] else if p.segments.head? = some "." then [.here] else []

theorem components_eq (p : Path) :
    p.components = p.heading ++ p.segments.filterMap componentOf? := by
  unfold components heading
  by_cases ha : p.isAbsolute = true
  · rw [if_pos ha, if_pos ha]
    rfl
  · rw [if_neg ha, if_neg ha]
    cases hs : p.segments with
    | nil => rfl
    | cons s rest => simp

theorem componentOf_of_goesDown (h : GoesDown name) : componentOf? name = some (.name name) := by
  rw [componentOf?, if_neg (by simpa [saysNothing] using h.1), if_neg h.2]

theorem filterMap_componentOf_of_goesDown (h : ∀ s ∈ init, GoesDown s) :
    init.filterMap componentOf? = init.map .name := by
  induction init with
  | nil => rfl
  | cons s rest ih =>
    rw [List.filterMap_cons_some (componentOf_of_goesDown (h s List.mem_cons_self)),
      ih fun t ht => h t (List.mem_cons_of_mem _ ht), List.map_cons]

theorem filterMap_componentOf_of_saysNothing (h : ∀ s ∈ blanks, saysNothing s = true) :
    blanks.filterMap componentOf? = [] := by
  rw [List.filterMap_eq_nil_iff]
  intro s hs
  rw [componentOf?, if_pos (by simpa [saysNothing] using h s hs)]

/-- A file below a directory has the components of the directory and then its own names. -/
theorem components_child (h : IsBelow file) (p : Path) :
    (p.child file).components = p.components ++ (segments ⟨file⟩).map .name := by
  obtain ⟨init, blanks, hjoin, hp, hblanks, -⟩ := exists_join_segments h.not_isAbsolute p
  have hsegments : (p.child file).segments = init ++ segments ⟨file⟩ := hjoin
  have hheading : (p.child file).heading = p.heading := by
    rw [heading, heading, isAbsolute_child h, hsegments, hp]
    cases init with
    | cons s init => rfl
    | nil =>
      -- Nothing stands before the file: its first piece goes down, and the path is empty.
      obtain ⟨s, rest, hs⟩ := List.exists_cons_of_ne_nil (segments_ne_nil ⟨file⟩)
      obtain ⟨b, more, hb⟩ := List.exists_cons_of_ne_nil (hp ▸ segments_ne_nil p)
      have hdown : s ≠ "." := by
        rintro rfl
        exact absurd (h "." (by simp [hs])) (by decide)
      rw [List.nil_append] at hb
      have hempty : b = "" := hblanks b (by simp [hb])
      rw [List.nil_append, List.nil_append, hb, hs]
      simp [hdown, hempty]
  have hnothing := filterMap_componentOf_of_saysNothing fun b (hb : b ∈ blanks) => by
    rw [hblanks b hb]
    decide
  rw [components_eq, components_eq p, hheading, hsegments, hp, List.filterMap_append,
    List.filterMap_append, hnothing, List.append_nil, filterMap_componentOf_of_goesDown h,
    List.append_assoc]

/-- The directory of a path has the components of the path but for the last one. -/
theorem components_directory (h : p.segments = init ++ name :: blanks) (hname : GoesDown name)
    (hb : ∀ b ∈ blanks, saysNothing b = true) :
    p.components = p.directory.components ++ [.name name] := by
  have habsolute := isAbsolute_directory h hname.1 hb
  have hlast : (init ++ name :: blanks).filterMap componentOf? =
      init.filterMap componentOf? ++ [.name name] := by
    rw [List.filterMap_append, List.filterMap_cons_some (componentOf_of_goesDown hname),
      filterMap_componentOf_of_saysNothing hb]
  rw [components_eq, components_eq p.directory, heading, heading, habsolute, h, hlast,
    ← List.append_assoc]
  congr 1
  cases init with
  | nil =>
    have hdot : name ≠ "." := by
      rintro rfl
      exact absurd hname (by decide)
    have hdirectory : p.directory.segments = [""] := by
      rw [directory_of_name h hname.1 hb]
      decide
    simp [hdirectory, hdot, componentOf?]
  | cons s init =>
    have hdirectory := segments_directory (s := s) h hname.1 hb
    obtain ⟨blanks', hinit, hblanks'⟩ := exists_blanks init
    have htrim : (trimEnd init).filterMap componentOf? = init.filterMap componentOf? := by
      conv => rhs; rw [hinit]
      rw [List.filterMap_append, filterMap_componentOf_of_saysNothing hblanks', List.append_nil]
    by_cases hs : s = "" ∧ trimEnd init = []
    · rw [if_pos hs] at hdirectory
      rw [hs.2] at htrim
      simp [hdirectory, hs.1, ← htrim, componentOf?]
    · rw [if_neg hs] at hdirectory
      simp [hdirectory, List.filterMap_cons, htrim]

/-- A file below a directory begins with the directory. -/
theorem startsWith_child (h : IsBelow file) (p : Path) : (p.child file).startsWith p = true := by
  rw [startsWith, components_child h, List.isPrefixOf_iff_prefix]
  exact List.prefix_append _ _

/-- So does everything that is placed beside the file. -/
theorem startsWith_directory_child {other : String} (h : IsBelow file) (ho : IsBelow other)
    (p : Path) : ((p.child file).directory.child other).startsWith p = true := by
  obtain ⟨init, name, hs, hname⟩ := h.exists_name
  obtain ⟨before, hjoin⟩ := exists_segments_join h.not_isAbsolute p
  have hsegments : (p.child file).segments = (before ++ init) ++ name :: [] := by
    rw [child, hjoin, hs, List.append_assoc]
  have hcomponents := components_directory hsegments hname (by simp)
  rw [components_child h, hs, List.map_append, ← List.append_assoc] at hcomponents
  rw [startsWith, components_child ho, List.isPrefixOf_iff_prefix,
    ← (List.append_inj' hcomponents rfl).1, List.append_assoc]
  exact List.prefix_append _ _

end FileRoutes.Path
