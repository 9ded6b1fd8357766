import FileRoutes.Proofs.Directories
import FileRoutes.Proofs.Overwriting
import FileRoutes.Proofs.Stages

/-!
# Attempts made again

An attempt that nothing hinders can be made again at any later time, when no directory is gone and
every file that was there still is one. Its directory is there, or what was in the way still is;
its file has its text, or cannot be written for the same reason. So the attempt comes to the same
and leaves every entry as it is.

## The model

* `admitsTemporary` — what the system says to the name of a temporary file.
* `Attempt.Unhindered` — nothing is in the way of an attempt but directories and files of names.

## What is proved

* `Attempt.Unhindered.ensureDirectory_again`, `Attempt.Unhindered.writeFile_again` — the two parts
  of an attempt that is made again.
* `Attempt.Unhindered.entry_outside` — outside of the output directory an attempt changes nothing.
-/

namespace FileRoutes

namespace FileSystem

open FileRoutes.Path (IsBelow StaysIn Through follow landing segments)
open FileSystem.Action

variable {fs : FileSystem} {p : Path} {l : Location}

/-! ### Paths that lead to a directory -/

/-- Pieces that can be passed lead through directories. -/
theorem Passes.through {n m : Nat} {here : Location} {ps : List String}
    (h : fs.Passes n here ps m l) (hn : fs.NoLinks) (hg : fs.Grounded)
    (hd : fs.entry? here = some .directory) :
    Through (fun l => fs.entry? l = some .directory) here ps := by
  rintro front ⟨rest, rfl⟩
  obtain ⟨k, x, hfront, -⟩ := h.split
  rw [← hfront.location hn]
  exact hfront.entry_directory hg hd

theorem PassesTo.staysIn (h : fs.PassesTo p l) (hn : fs.NoLinks) (hg : fs.Grounded)
    (hp : p.isAbsolute = true) : StaysIn (fun l => fs.entry? l = some .directory) p := by
  obtain ⟨m, hpasses⟩ := h
  rw [Path.startOf_of_isAbsolute hp] at hpasses
  exact ⟨hp, hpasses.through hn hg rfl⟩

/-- A path that descends leads through directories first, and then to where it leads. -/
theorem Descends.staysIn (h : fs.Descends p) (hn : fs.NoLinks) (hg : fs.Grounded)
    (hp : p.isAbsolute = true) :
    StaysIn (fun l => fs.entry? l = some .directory ∨ l <+: landing [] p) p := by
  obtain ⟨init, rest, m, base, hsegments, hup, hpasses⟩ := h
  rw [Path.startOf_of_isAbsolute hp] at hpasses
  refine ⟨hp, ?_⟩
  rw [landing, Path.startOf_of_isAbsolute hp, hsegments]
  refine Path.Through.append (fun front hf => .inl (hpasses.through hn hg rfl front hf)) ?_
  rintro front ⟨more, rfl⟩
  obtain ⟨rel, hrel⟩ := Path.exists_follow_append (fun hm => hup (List.mem_append_right _ hm))
    (follow (follow [] init) front)
  right
  rw [Path.follow_append, Path.follow_append, hrel]
  exact List.prefix_append _ _

theorem PassesTo.descends (h : fs.PassesTo p l) : fs.Descends p := by
  obtain ⟨m, hpasses⟩ := h
  exact ⟨p.segments, [], m, l, by simp, by simp, hpasses⟩

/-- The directory of a path that descends descends. -/
theorem Descends.directory (h : fs.Descends p) (hp : p.directory.isAbsolute = true)
    (ha : p.isAbsolute = true) : fs.Descends p.directory ∧
      (core p.directory).getLast? ≠ some "." := by
  cases hq : p.parent? with
  | none =>
    rw [Path.directory, hq] at hp
    simp [Path.isAbsolute] at hp
  | some q =>
    rw [Path.directory, hq]
    exact ⟨h.parent ha hq, getLast_core_parent ha hq⟩

/-- A directory can only be made where its path is well-formed. -/
theorem checkPath_of_ensureDirectory (hp : p.text ≠ "")
    (h : answer (ensureDirectory p) fs = .ok ()) : checkPath p = .ok () := by
  cases hc : checkPath p with
  | ok u => rfl
  | error x =>
    have hno : ∀ fs : FileSystem, answer (makeOrKeep p) fs = .error x := fun fs => by
      have hdirectory : fs.isDirectory p ≠ .ok true := fun hd => by
        rw [(passesTo_of_isDirectory hd).1] at hc
        cases hc
      have hmake : ExceptT.run (makeDirectory p) fs = (.error x, fs) :=
        makeDirectory_of_error (ending_of_checkPath hc)
      have hrun := run_makeOrKeep_of_error hmake
      rw [if_neg hdirectory] at hrun
      exact congrArg Prod.fst hrun
    have hfirst := run_ensureFirst_cons hp
      ((p.parent?.map (ancestors p.text.length)).getD []) fs
    rw [hno] at hfirst
    dsimp only at hfirst
    have hok := (congrArg Prod.fst hfirst).symm.trans h
    split at hok
    · split at hok
      · exact absurd hok (by rw [← answer, hno]; simp)
      · cases hok
    · cases hok

/-! ### Names of temporary files -/

/-- What the system says to the name of the temporary file of a process, with its number, for a
file with this name. -/
def admitsTemporary (p : Path) (name tag : String) (n : Nat) : Except Error Unit :=
  admits (p.directory.join ⟨temporaryNameOf tag name n⟩) (temporaryNameOf tag name n)

/-- Putting an entry where it stands changes nothing. -/
theorem place_of_entry {e : Entry} (hl : l ≠ []) (h : fs.entry? l = some e) :
    fs.place l e = fs := by
  rw [FileSystem.entry?, if_neg hl] at h
  rw [place, Keyed.put_of_get_eq_some h]

theorem Grows.temporaries {fs' : FileSystem} (h : Grows fs fs') :
    fs'.temporaries = fs.temporaries := by
  induction h with
  | refl => rfl
  | tail _ hstep ih => cases hstep <;> exact ih

end FileSystem

namespace Server

open FileSystem
open FileSystem.Action (answer filesAfter)
open FileRoutes.Path (GoesDown IsBelow StaysIn landing segments)

variable {output : Path} {base l : Location} {file name : String} {init : List String}
  {a : Attempt}

/-! ### Writing below an output directory -/

namespace Ready

variable {fs : FileSystem} (h : Ready output base fs) (hf : IsBelow file)
  (hs : segments ⟨file⟩ = init ++ [name]) {directory : Location}
  (hd : fs.PassesTo (output.child file).directory directory)
include h hf hs hd

/-- The place of a module and that of its temporary file are names in one directory. -/
theorem named : directory = base ++ init ∧ (output.child file).fileName? = some name ∧
    fs.NamedIn (output.child file) directory name ∧
    fs.NamedIn (fs.temporaryPath (output.child file) name) directory
      (temporaryNameOf fs.processTag name fs.temporaries) := by
  have hdown : ∀ s ∈ init ++ [name], GoesDown s := fun s hm => hf s (hs ▸ hm)
  have hname := hdown name (by simp)
  have hslash : '/' ∉ name.toList := Path.not_mem_of_mem_segments (p := ⟨file⟩) (by simp [hs])
  obtain ⟨before, hjoin, -⟩ := passes_join_iff fs hf.not_isAbsolute output
  have hsegments : (output.child file).segments = (before ++ init) ++ [name] := by
    rw [Path.child, hjoin, hs, List.append_assoc]
  obtain ⟨m, hpasses⟩ := (passesTo_directory_iff hsegments hname.1 (by simp)).1 hd
  obtain ⟨htemporary, hbelow⟩ := isBelow_temporaryNameOf h.tag hslash fs.temporaries
  obtain ⟨front, hfront, hiff⟩ :=
    passes_join_iff fs hbelow.not_isAbsolute (output.child file).directory
  obtain ⟨k, hdirectory⟩ := hd
  refine ⟨h.leads.location_directory_child h.noLinks hf hs ⟨k, hdirectory⟩,
    Path.fileName_of_segments hsegments hname, ⟨⟨_, m, hsegments, hpasses⟩, hname⟩,
    ⟨⟨front, k, ?_, (hiff k directory).1 hdirectory⟩, hbelow _ ?_⟩⟩
  · exact hfront.trans (congrArg _ htemporary)
  · rw [htemporary]
    exact List.mem_singleton_self _

/-- What writing a module comes to where nothing has the name of its temporary file: its file is
all that changes. -/
theorem writeFile_eq (hn : fs.NoLinks) (hr : fs.refusals = [])
    (hfree : ∀ l, IsTemporaryFor fs.processTag fs.temporaries base file l → fs.entry? l = none)
    (text : String) :
    let verdict := writingAnswer
      (admitsTemporary (output.child file) name fs.processTag fs.temporaries)
      (admits (output.child file) name) ( fs.entry? (base ++ segments ⟨file⟩))
    let counted := { fs with temporaries := fs.temporaries + 1 }
    answer (writeFile (output.child file) text) fs = verdict ∧
      filesAfter (writeFile (output.child file) text) fs =
        if verdict = .ok () then counted.place (base ++ segments ⟨file⟩) (.file (.text text))
        else counted := by
  obtain ⟨rfl, hfile, hplace, htemporary⟩ := h.named hf hs hd
  have hsegments : base ++ segments ⟨file⟩ = base ++ init ++ [name] := by
    rw [hs, List.append_assoc]
  rw [hsegments]
  exact writeFile_of_clear hfile hplace htemporary hn hr (hfree _ ⟨init, name, hs, rfl⟩) text

end Ready

/-! ### Attempts that nothing hinders -/

/-- An attempt at a module below the output directory, in a tree without links, of which the
system refuses nothing, and with nothing in the place of its temporary file. -/
structure Attempt.Unhindered (output : Path) (base : Location) (file : String) (a : Attempt) :
    Prop extends Ready output base a.files where
  /-- The module goes below the output directory. -/
  place : a.place = output.child file
  /-- It does so without going up. -/
  below : IsBelow file
  /-- The path of the output directory is absolute. -/
  absolute : output.isAbsolute = true
  /-- The files form a tree. -/
  tree : a.files.IsTree
  /-- No entry is a link. -/
  plain : a.files.NoLinks
  /-- The system refuses nothing. -/
  allows : a.files.refusals = []
  /-- Nothing is in the place of its temporary file. -/
  free : ∀ l, IsTemporaryFor a.files.processTag a.files.temporaries base file l →
    a.prepared.entry? l = none

namespace Attempt.Unhindered

variable (h : a.Unhindered output base file)
include h

theorem grows : Grows a.files a.prepared := grows_ensureDirectory h.grounded _

theorem isAbsolute_directory : a.place.directory.isAbsolute = true := by
  rw [h.place]
  exact (Path.isAbsolute_directory_child h.below _).trans h.absolute

theorem descends : a.files.Descends a.place.directory ∧
    (core a.place.directory).getLast? ≠ some "." := by
  refine Descends.directory ?_ h.isAbsolute_directory ?_
  · rw [h.place]
    exact h.leads.descends.join fun hm => (h.below _ hm).2 rfl
  · rw [h.place]
    exact Path.isAbsolute_join h.absolute _

/-- The directory of the module is reached through directories and below the output directory. -/
theorem staysIn : StaysIn (fun l => base <+: l ∨ a.files.entry? l = some .directory)
    a.place.directory := by
  have houtput := h.leads.staysIn h.plain h.grounded h.absolute
  have hbase : landing [] output = base := by
    rw [h.leads.eq_landing h.plain, houtput.landing_eq a.files.workingDirectory]
  have hplace : StaysIn (fun l => base <+: l ∨ a.files.entry? l = some .directory) a.place := by
    rw [h.place]
    refine Path.StaysIn.join ⟨h.absolute, fun front hf => .inr (houtput.through front hf)⟩
      (.of_isBelow h.below) fun rel => .inl ?_
    rw [hbase]
    exact List.prefix_append _ _
  exact hplace.directory h.isAbsolute_directory

/-- Outside of the output directory no directory is made. -/
theorem entry_prepared_outside (hl : ¬ base <+: l) : a.prepared.entry? l = a.files.entry? l := by
  by_cases hd : a.files.entry? l = some .directory
  · rw [hd]
    exact h.grows.entry_kept hd
  · exact entry_ensureDirectory h.plain (fun hc => hc.elim hl hd) h.staysIn

/-- Outside of the output directory nothing changes. -/
theorem entry_outside (hl : ¬ base <+: l) : a.after.entry? l = a.files.entry? l := by
  have hother : ∀ rel, l ≠ base ++ rel := fun rel he => hl (he ▸ List.prefix_append _ _)
  obtain ⟨-, ⟨-, hsame⟩ | ⟨t, ht, -, hcases⟩⟩ := Attempt.after_below h.toReady h.place h.below
  · rw [hsame.entry, h.entry_prepared_outside hl]
  · obtain ⟨rel, -, rfl⟩ := ht.exists_below
    obtain ⟨-, hsame⟩ | ⟨-, -, -, hsame⟩ := hcases
    · rw [hsame.entry, entry_remove_of_ne _ (hother rel), h.entry_prepared_outside hl]
    · rw [hsame.entry, entry_place_of_ne _ (hother _), entry_remove_of_ne _ (hother rel),
        h.entry_prepared_outside hl]

/-- The directory of the module can be made, or something is in the way of it. -/
theorem ensureDirectory_ne_notFound :
    answer (ensureDirectory a.place.directory) a.files ≠ .error .notFound := by
  have habsolute := h.isAbsolute_directory
  obtain ⟨hdown, hdot⟩ := h.descends
  exact FileSystem.ensureDirectory_ne_notFound h.tree h.plain h.allows habsolute hdown hdot

/-- Every directory and every file is there after the attempt that is there when its own directory
has been made. -/
theorem later : Later a.prepared a.after := by
  have hways := (Attempt.reaches h.plain).keepsDirectories
  refine ⟨⟨hways.here.trans h.grows.workingDirectory.symm, fun l hd =>
    Attempt.directory_after h.toReady h.place h.below hd⟩, fun l content hl => ?_⟩
  obtain ⟨-, ⟨-, hsame⟩ | ⟨t, ht, -, hcases⟩⟩ := Attempt.after_below h.toReady h.place h.below
  · exact ⟨content, (hsame.entry l).trans hl⟩
  · have hne : l ≠ t := by
      rintro rfl
      rw [h.grows.temporaries] at ht
      rw [h.free l ht] at hl
      cases hl
    obtain ⟨-, hsame⟩ | ⟨-, htarget, -, hsame⟩ := hcases
    · exact ⟨content, by rw [hsame.entry, entry_remove_of_ne _ hne, hl]⟩
    · by_cases hplace : l = base ++ segments ⟨file⟩
      · subst hplace
        exact ⟨_, by rw [hsame.entry, entry_place_self _ (ne_root_of_entry htarget)]⟩
      · exact ⟨content, by
          rw [hsame.entry, entry_place_of_ne _ hplace, entry_remove_of_ne _ hne, hl]⟩

section again

variable {fs : FileSystem} (hready : Ready output base fs) (hn : fs.NoLinks)
  (hr : fs.refusals = []) (hlater : Later a.prepared fs)
include hready hn hr hlater

/-- At a later time, making the directory of the module comes to the same and changes nothing. -/
theorem ensureDirectory_again : ExceptT.run (ensureDirectory a.place.directory) fs =
    (answer (ensureDirectory a.place.directory) a.files, fs) :=
  FileSystem.ensureDirectory_again hn hready.grounded hr h.isAbsolute_directory h.tree h.plain
    h.allows h.descends.1 hlater h.ensureDirectory_ne_notFound

variable (hmade : answer (ensureDirectory a.place.directory) a.files = .ok ())
  (hfree : ∀ l, IsTemporaryFor fs.processTag fs.temporaries base file l → fs.entry? l = none)
  (hadmits : ∀ name, a.place.fileName? = some name →
    admitsTemporary a.place name a.files.processTag a.files.temporaries =
      admitsTemporary a.place name fs.processTag fs.temporaries)
  (hwritten : a.succeeds = true →
    fs.entry? (base ++ segments ⟨file⟩) = some (.file (.text a.text)))
include hmade hfree hadmits hwritten

/-- At a later time, writing the module comes to the same and changes no entry. -/
theorem writeFile_again :
    ExceptT.run (writeFile a.place a.text) fs =
      (answer (writeFile a.place a.text) a.prepared,
        { fs with temporaries := fs.temporaries + 1 }) ∧
    (filesAfter (writeFile a.place a.text) a.prepared).temporaries = a.files.temporaries + 1 := by
  have hprepared : a.prepared.NoLinks := h.grows.noLinks h.plain
  obtain ⟨init, name, hs, -⟩ := h.below.exists_name
  obtain ⟨directory, hdirectory⟩ := passesTo_ensureDirectory h.grounded hmade
  change a.prepared.PassesTo _ _ at hdirectory
  have hdirectory' := hlater.passesTo hprepared hdirectory
  have hsucceeds (hok : answer (writeFile a.place a.text) a.prepared = .ok ()) :
    a.succeeds = true := (Attempt.after_of_ok hmade hok rfl).1
  rw [h.place] at hdirectory hdirectory' hadmits hsucceeds ⊢
  have hgrown := h.toReady.grows h.grows
  obtain ⟨-, hfile, -⟩ := hgrown.named h.below hs hdirectory
  obtain ⟨hanswer, hafter⟩ := hgrown.writeFile_eq h.below hs hdirectory hprepared
    (refusals_of_grows h.grows h.allows)
    (by rw [h.grows.processTag, h.grows.temporaries]; exact h.free) a.text
  obtain ⟨hanswer', hafter'⟩ := hready.writeFile_eq h.below hs hdirectory' hn hr hfree a.text
  rw [h.grows.processTag, h.grows.temporaries, hadmits name hfile] at hanswer hafter
  have hverdict := writingAnswer_congr (hlater.directories _) fun hok => by
    rw [hwritten (hsucceeds (hanswer.trans hok))]
    simp
  refine ⟨Prod.ext (hanswer'.trans (hverdict.symm.trans hanswer.symm)) (hafter'.trans ?_), ?_⟩
  · rw [← hverdict, ← hanswer]
    split
    · next hok =>
      have hentry : FileSystem.entry? { fs with temporaries := fs.temporaries + 1 }
        (base ++ segments ⟨file⟩) = some (.file (.text a.text)) := hwritten (hsucceeds hok)
      exact place_of_entry (List.append_ne_nil_of_right_ne_nil _ (Path.segments_ne_nil _)) hentry
    · rfl
  · rw [hafter]
    split <;> rfl

end again

end Attempt.Unhindered

end Server

end FileRoutes
