import FileRoutes.Proofs.Completion

/-!
# The names of the entrypoint

The entrypoint imports every router under a name made from the name of its folder. It keeps
three names from them: `app`, `express` and `middleware`. Its text also declares
`appMiddleware`, where the application has middleware, and calls `console`, and these two it
does not keep: a folder called like one of them has its router imported under that name.

## The model

* `NamesApart` — every name is declared once, and `console` is not.
* `MountsFolder` — the router of the first folder with some name is mounted.

## What is proved

* `mem_identifiers_iff` — a router is imported under a plain name exactly where a folder with
  that name is mounted.
* `namesApart_lines_iff` — the three names that are kept never clash.
* `namesApart_iff` — when the names of an entrypoint are apart.
-/

namespace FileRoutes.Server

/-- The last name in the path of the folder of a turn. -/
def Turn.folderName? (t : Turn) : Option String := (Path.names ⟨t.folder.directory⟩).getLast?

/-- A turn asks for a plain name exactly where its folder has that name. -/
theorem Turn.wanted_eq_iff {t : Turn} {name : String} (hu : Identifier.isUsable name = true)
    (h : '_' ∉ name.toList) (hd : name ≠ defaultStem) :
    t.wanted = name ↔ t.folderName? = some name := by
  rw [Turn.wanted, routerIdentifier, Identifier.sanitize_eq_iff hu h, Turn.folderName?]
  cases (Path.names ⟨t.folder.directory⟩).getLast? with
  | none => simp [hd.symm]
  | some last => simp

namespace Course

open Emit (declaredNames)

/-- A text declares every name once, and leaves `console` to the global scope. -/
def NamesApart (lines : List String) : Prop :=
  (declaredNames lines).Nodup ∧ "console" ∉ declaredNames lines

instance (lines : List String) : Decidable (NamesApart lines) :=
  inferInstanceAs (Decidable (_ ∧ _))

variable {c : Course}

/-- A folder with this name is mounted: of the folders with the name it is the first one that
has a router, and no later router takes its slug. -/
def MountsFolder (c : Course) (name : String) : Prop :=
  ∃ before t after, c.done = before ++ t :: after ∧ t.folderName? = some name ∧
    (∀ u ∈ before, u.folderName? ≠ some name) ∧ ∀ u ∈ after, u.folder.slug ≠ t.folder.slug

/-- A plain name that the entrypoint does not keep goes to the first folder with that name. -/
theorem mem_identifiers_iff {name : String} (hu : Identifier.isUsable name = true)
    (h : '_' ∉ name.toList) (hd : name ≠ defaultStem) (hown : name ∉ Emit.Entrypoint.ownNames) :
    name ∈ c.mounted.routers.map Emit.Mount.identifier ↔ c.MountsFolder name := by
  have hfresh : ∀ (before : List Turn) (t : Turn),
      Identifier.fresh (takenAfter Emit.Entrypoint.ownNames before) t.wanted = name ↔
        t.folderName? = some name ∧ ∀ u ∈ before, u.folderName? ≠ some name := by
    intro before t
    have hfree : name ∉ takenAfter Emit.Entrypoint.ownNames before ↔
        ∀ u ∈ before, u.folderName? ≠ some name := by
      simp [takenAfter, Identifier.mem_freshAll_iff h, hown, Turn.wanted_eq_iff hu h hd]
    rw [Identifier.fresh_eq_iff h, Turn.wanted_eq_iff hu h hd, hfree]
  constructor
  · intro hm
    obtain ⟨m, hm, hid⟩ := List.mem_map.1 hm
    obtain ⟨before, t, after, hdone, hafter, rfl⟩ := mem_mounted.1 hm
    obtain ⟨hname, hbefore⟩ := (hfresh before t).1 hid
    exact ⟨before, t, after, hdone, hname, hbefore, hafter⟩
  · rintro ⟨before, t, after, hdone, hname, hbefore, hafter⟩
    exact List.mem_map.2 ⟨_, mem_mounted.2 ⟨before, t, after, hdone, hafter, rfl⟩,
      (hfresh before t).2 ⟨hname, hbefore⟩⟩

/-- The three names that are kept never clash: whether the names are apart depends on the two
others. -/
theorem namesApart_lines_iff (c : Course) : NamesApart c.lines ↔
    "console" ∉ c.mounted.routers.map Emit.Mount.identifier ∧
    (c.entrypoint.appMiddleware ≠ [] →
      "appMiddleware" ∉ c.mounted.routers.map Emit.Mount.identifier) := by
  have hkept := c.nodup_mounted
  have htable : c.entrypoint.tableImport.toList.map (fun _ => "middleware") = [] ∨
      c.entrypoint.tableImport.toList.map (fun _ => "middleware") = ["middleware"] := by
    cases c.entrypoint.tableImport
    · exact .inl rfl
    · exact .inr rfl
  rw [NamesApart, c.reads_lines.2]
  generalize c.entrypoint.tableImport.toList.map (fun _ => "middleware") = table at htable ⊢
  generalize c.mounted.routers.map Emit.Mount.identifier = names at hkept ⊢
  simp only [Emit.Entrypoint.ownNames, List.cons_append, List.nil_append, List.nodup_cons,
    List.mem_cons, not_or] at hkept
  obtain ⟨⟨-, -, happ⟩, ⟨-, hexpress⟩, hmiddleware, hnames⟩ := hkept
  have hnodup : ∀ own : List String, ("express" :: own).Nodup →
      (("express" :: (names ++ own)).Nodup ↔ ∀ name ∈ own, name ∉ names) := by
    intro own hown
    obtain ⟨hexpressOwn, hown⟩ := List.nodup_cons.1 hown
    constructor
    · intro h name ho hn
      exact (List.nodup_append.1 (List.nodup_cons.1 h).2).2.2 name hn name ho rfl
    · intro h
      refine List.nodup_cons.2 ⟨fun hm => (List.mem_append.1 hm).elim hexpress hexpressOwn, ?_⟩
      exact List.nodup_append.2 ⟨hnames, hown, fun name hn other ho e => h other ho (e ▸ hn)⟩
  rw [List.append_assoc, List.append_assoc]
  by_cases hm : c.entrypoint.appMiddleware = []
  · rcases htable with rfl | rfl <;> rw [if_pos hm, hnodup _ (by decide)] <;>
      simp [hm, happ, hmiddleware]
  · rcases htable with rfl | rfl <;> rw [if_neg hm, hnodup _ (by decide)] <;>
      simp [hm, happ, hmiddleware, and_comm]

/-- The entrypoint that a run writes: the routers are imported under different names, none of
which is `app`, `express` or `middleware`; the name `appMiddleware` or `console` is taken
exactly where a folder called like it is mounted; and its text declares every name once and
leaves `console` alone exactly where no folder called `console` is mounted, nor, with
middleware of the application, one called `appMiddleware`. -/
theorem namesApart_iff (c : Course) {p : Path} {e : Emit.Entrypoint}
    (h : (p, .entrypoint e) ∈ c.final.written) :
    ∃ lines, e.render = .ok (Emit.unlines lines) ∧
      (Emit.Entrypoint.ownNames ++ e.routers.map Emit.Mount.identifier).Nodup ∧
      (∀ name ∈ ["appMiddleware", "console"],
        name ∈ e.routers.map Emit.Mount.identifier ↔ c.MountsFolder name) ∧
      (NamesApart lines ↔ ¬ c.MountsFolder "console" ∧
        (e.appMiddleware ≠ [] → ¬ c.MountsFolder "appMiddleware")) := by
  obtain rfl : e = c.entrypoint := by
    cases writes_of_mem h
    rfl
  have hiff : ∀ name ∈ ["appMiddleware", "console"],
      name ∈ c.mounted.routers.map Emit.Mount.identifier ↔ c.MountsFolder name := by
    intro name hname
    have hplain : ∀ name ∈ ["appMiddleware", "console"], Identifier.isUsable name = true ∧
        '_' ∉ name.toList ∧ name ≠ defaultStem ∧ name ∉ Emit.Entrypoint.ownNames := by decide
    obtain ⟨hu, hplain, hd, hown⟩ := hplain name hname
    exact mem_identifiers_iff hu hplain hd hown
  refine ⟨c.lines, c.render_entrypoint, c.nodup_mounted, hiff, ?_⟩
  rw [namesApart_lines_iff, hiff "console" (by simp), hiff "appMiddleware" (by simp)]

/-! ### A clash -/

theorem mountsFolder_sample : sample.MountsFolder "appMiddleware" := by
  obtain ⟨t, hdone, hfolder, -⟩ := sample_done
  refine ⟨[], t, [], hdone, ?_, by simp, by simp⟩
  rw [Turn.folderName?, hfolder]
  decide

/-- In a small project whose folder is called `appMiddleware`, the names are not apart. -/
theorem namesApart_iff_sample :
    (sample.place entrypointFile, .entrypoint sample.entrypoint) ∈ sample.final.written ∧
    ∃ lines, sample.entrypoint.render = .ok (Emit.unlines lines) ∧
      (NamesApart lines ↔ ¬ sample.MountsFolder "console" ∧
        (sample.entrypoint.appMiddleware ≠ [] → ¬ sample.MountsFolder "appMiddleware")) := by
  obtain ⟨lines, hrender, -, -, hiff⟩ := namesApart_iff sample sample_written
  exact ⟨sample_written, lines, hrender, hiff⟩

/-- The entrypoint of this project declares `appMiddleware` twice: it imports a router under the
name, and lists the middleware of the application under it. -/
theorem clash_sample :
    (sample.place entrypointFile, .entrypoint sample.entrypoint) ∈ sample.final.written ∧
    ∃ lines, sample.entrypoint.render = .ok (Emit.unlines lines) ∧
      "appMiddleware" ∈ sample.entrypoint.routers.map Emit.Mount.identifier ∧
      ¬ (declaredNames lines).Nodup := by
  have hmem : "appMiddleware" ∈ sample.mounted.routers.map Emit.Mount.identifier :=
    (mem_identifiers_iff (by decide) (by decide) (by decide) (by decide)).2 mountsFolder_sample
  refine ⟨sample_written, sample.lines, sample.render_entrypoint, hmem, fun hnodup => ?_⟩
  rw [sample.reads_lines.2, sample_appMiddleware] at hnodup
  have happ := (List.nodup_append.1 (List.nodup_cons.1 hnodup).2).2.2 "appMiddleware"
    (List.mem_append_left _ (List.mem_append_left _ hmem)) "appMiddleware" (by simp)
  exact happ rfl

end Course

end FileRoutes.Server
