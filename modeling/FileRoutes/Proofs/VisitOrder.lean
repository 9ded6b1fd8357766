import FileRoutes.Proofs.Beginnings
import FileRoutes.Proofs.Descents
import FileRoutes.Proofs.Findings

/-!
# The order of visits

The names in a directory are gone through in order, so that everything that is met behind one of
them comes before everything behind the next one, however deep it is and whatever links are on the
way. So the paths of visits are in the order of their names. No path is visited twice, and nothing
is visited below a path that is visited itself.

## The model

* `Location.PartsBefore` — the order of two locations neither of which is at or below the other.
* `Manifest.Visit.path` — the path that a visit is about.
* `Manifest.InNameOrder` — visits whose paths are in this order.

## What is proved

* `names_child` — the names of the path of an entry are those of its directory and its own.
* `Meets.inNameOrder` — what is met is in the order of the names.
-/

namespace FileRoutes

/-! ### The names of a path -/

namespace Path

/-- The name that a piece of a path says. -/
def nameOf? (segment : String) : Option String := (componentOf? segment).bind Component.name?

theorem names_eq (p : Path) : p.names = p.segments.filterMap nameOf? := by
  have hheading : p.heading.filterMap Component.name? = [] := by
    unfold heading
    split
    · rfl
    · split <;> rfl
  rw [names, components_eq, List.filterMap_append, hheading, List.nil_append,
    List.filterMap_filterMap]
  rfl

/-- The names of a relative path come behind those of the path that it is joined to. -/
theorem names_join {q : Path} (hq : q.isAbsolute = false) (p : Path) :
    (p.join q).names = p.names ++ q.names := by
  obtain ⟨init, blanks, hjoin, hp, hblanks, -⟩ := exists_join_segments hq p
  have hnothing : blanks.filterMap nameOf? = [] :=
    List.filterMap_eq_nil_iff.2 fun b hb => by rw [hblanks b hb]; rfl
  rw [names_eq, names_eq, names_eq, hjoin, hp, List.filterMap_append, List.filterMap_append,
    hnothing, List.append_nil]

theorem names_child {name : String} (h : FileSystem.IsName name) (p : Path) :
    (p.child name).names = p.names ++ [name] := by
  have hname : nameOf? name = some name := by
    rw [nameOf?, componentOf_of_goesDown h.down]
    rfl
  rw [child, names_join (not_isAbsolute_of_isName h), names_eq ⟨name⟩, segments_of_isName h,
    List.filterMap_cons_some hname]
  rfl

end Path

/-! ### Locations that part -/

namespace Location

/-- Two locations part at a name, which comes first in the first one. -/
def PartsBefore (l m : Location) : Prop :=
  ∃ start s t, s < t ∧ start ++ [s] <+: l ∧ start ++ [t] <+: m

variable {l m : Location}

theorem PartsBefore.before (h : PartsBefore l m) : Before l m := by
  obtain ⟨start, s, t, hst, ⟨rest, rfl⟩, ⟨rest', rfl⟩⟩ := h
  rw [List.append_assoc, List.append_assoc]
  exact (before_of_lt hst rest rest').append_left start

/-- Neither of them is at or below the other one. -/
theorem PartsBefore.apart (h : PartsBefore l m) : ¬ l <+: m ∧ ¬ m <+: l := by
  obtain ⟨start, s, t, hst, ⟨rest, rfl⟩, ⟨rest', rfl⟩⟩ := h
  rw [List.append_assoc, List.append_assoc, List.prefix_append_right_inj,
    List.prefix_append_right_inj]
  constructor
  · intro h
    exact hst.ne (List.cons_prefix_cons.1 h).1
  · intro h
    exact hst.ne' (List.cons_prefix_cons.1 h).1

end Location

/-! ### Visits in order -/

namespace Manifest

open FileSystem (IsName)

/-- The path that a visit is about. -/
def Visit.path (root : Path) : Visit → Path
  | .file relative => root.join relative
  | .unreadable path _ => path

/-- An entry has the path that its visit is about. -/
theorem sourcePath_of_judge {fs : FileSystem} {role : Role} {root : Path} {v : Visit} {e : Entry}
    (h : Verdict.entry? (judge fs role root v) = some e) : e.sourcePath = v.path root := by
  cases v with
  | unreadable q e => cases h
  | file relative => exact sourcePath_judgeFile h

/-- Visits that are about paths with some names in front, in the order of the names behind. -/
structure InNameOrder (root : Path) (start : List String) (vs : List Visit) : Prop where
  /-- The names of earlier paths part before those of later ones. -/
  order : vs.Pairwise fun v w => Location.PartsBefore (v.path root).names (w.path root).names
  /-- Every path begins with the names. -/
  below : ∀ v ∈ vs, start <+: (v.path root).names

theorem inNameOrder_singleton (root : Path) (v : Visit) :
    InNameOrder root (v.path root).names [v] where
  order := List.pairwise_singleton _ _
  below := by
    intro w hw
    rw [List.mem_singleton.1 hw]

/-- What is met behind one name comes before what is met behind the next one. -/
theorem InNameOrder.flatMap {root : Path} {start names : List String}
    {below : String → List Visit} (hsorted : names.Pairwise (· < ·))
    (h : ∀ name ∈ names, InNameOrder root (start ++ [name]) (below name)) :
    InNameOrder root start (names.flatMap below) where
  order := by
    apply List.pairwise_flatMap.2
    constructor
    · intro name hm
      exact (h name hm).order
    · apply hsorted.imp_of_mem
      intro s t hs ht hst v hv w hw
      exact ⟨start, s, t, hst, (h s hs).below v hv, (h t ht).below w hw⟩
  below := by
    intro v hv
    obtain ⟨name, hm, hv⟩ := List.mem_flatMap.1 hv
    exact (List.prefix_append _ _).trans ((h name hm).below v hv)

/-- What is met is in the order of the names, whether or not links are on the way. -/
theorem Meets.inNameOrder {fs : FileSystem} (h : fs.IsTree) {root p : Path} {vs : List Visit}
    (hmeets : Meets fs.system root p vs) : InNameOrder root (root.join p).names vs := by
  induction hmeets with
  | @unlisted p e _ => exact inNameOrder_singleton root (.unreadable (root.join p) e)
  | @listed p names below lists refused file _ ih =>
    have hnames : ∀ name ∈ names, IsName name := fun name hm => h.isName_of_listNames lists hm
    obtain ⟨l, -, -, rfl⟩ := FileSystem.listNames_eq_ok lists
    apply InNameOrder.flatMap (h.pairwise_names l)
    intro name hm
    rw [← Path.names_child (hnames name hm), ← Path.join_child (hnames name hm)]
    cases hd : fs.isDirectory (root.join (p.child name)) with
    | error e =>
      rw [refused name hm e hd]
      exact inNameOrder_singleton root (.unreadable _ e)
    | ok directory =>
      cases directory with
      | false =>
        rw [file name hm hd]
        exact inNameOrder_singleton root (.file (p.child name))
      | true => exact ih name hm hd

end Manifest

end FileRoutes
