import FileRoutes.Proofs.VisitOrder

/-!
# Paths that are refused

A scan asks the system about every path that it comes to, and some of them the system refuses, such
as those with too many links on the way. What is refused is said once: a scan comes to no path
twice, whatever links lead back to where it has been, as its paths are spelled differently. The
folder itself is another matter. A folder that the system refuses is taken for one that is not
there, and a scan of it finds nothing and says nothing.

## The model

* `FileSystem.FailsPlainly` — a question that fails, if at all, with a fault without a colon.
* `Manifest.Refused` — a path that the system refuses to a scan, and why.
* `Manifest.ReportedOnce` — findings with one error about a path, and no entry there.

## What is proved

* `isDirectory_of_cycle` — links that lead to each other are refused.
* `unreadableMessage_inj` — the error tells what path it is about.
* `exists_visit` — a path that is refused is visited.
* `reportedOnce_of_refused` — it is reported once.

The main statement is `scan_ends`.
-/

namespace FileRoutes

/-! ### Questions that fail -/

namespace FileSystem

/-- What is said about a fault has no colon in it. -/
def Error.IsPlain (e : Error) : Prop := ':' ∉ e.message.toList

instance (e : Error) : Decidable e.IsPlain := inferInstanceAs (Decidable (¬ _))

/-- If a question fails, then with a plain fault. -/
def FailsPlainly {α : Type} (x : Except Error α) : Prop := ∀ e, x = .error e → e.IsPlain

section questions

variable {α β : Type} {fs : FileSystem} {p : Path} {e : Error}

theorem failsPlainly_ok (a : α) : FailsPlainly (.ok a) := by
  intro e h
  cases h

theorem failsPlainly_error (h : e.IsPlain) : FailsPlainly (.error e : Except Error α) := by
  intro e' he
  cases he
  exact h

theorem FailsPlainly.bind {x : Except Error α} {f : α → Except Error β} (hx : FailsPlainly x)
    (hf : ∀ a, FailsPlainly (f a)) : FailsPlainly (x >>= f) := by
  cases x with
  | error e => exact failsPlainly_error (hx e rfl)
  | ok a => exact hf a

theorem failsPlainly_checkPath (p : Path) : FailsPlainly (checkPath p) := by
  unfold checkPath
  split
  · exact failsPlainly_error (by decide)
  · split
    · exact failsPlainly_error (by decide)
    · split
      · exact failsPlainly_error (by decide)
      · exact failsPlainly_ok ()

theorem failsPlainly_walk (fs : FileSystem) (last : Bool) (n : Nat) (l : Location)
    (ps : List String) :
    FailsPlainly (fs.walk last n l ps) := by
  fun_induction walk fs last n l ps
  -- Following pieces fails, ends, or goes on with what is left of them.
  all_goals first
    | exact failsPlainly_error (by decide)
    | exact failsPlainly_ok _
    | assumption

theorem failsPlainly_resolve (fs : FileSystem) (p : Path) : FailsPlainly (fs.resolve p) := by
  apply FailsPlainly.bind
  · exact (failsPlainly_checkPath p).bind fun _ => failsPlainly_walk fs _ _ _ _
  · intro place
    cases place with
    | found l => exact failsPlainly_ok l
    | free l => exact failsPlainly_error (by decide)

theorem failsPlainly_entryAt (fs : FileSystem) (p : Path) : FailsPlainly (fs.entryAt p) := by
  apply (failsPlainly_resolve fs p).bind
  intro l
  split
  · exact failsPlainly_ok _
  · exact failsPlainly_error (by decide)

theorem failsPlainly_isDirectory (fs : FileSystem) (p : Path) : FailsPlainly (fs.isDirectory p) :=
  (failsPlainly_entryAt fs p).bind fun _ => failsPlainly_ok _

theorem failsPlainly_readText (fs : FileSystem) (p : Path) : FailsPlainly (fs.readText p) := by
  apply (failsPlainly_entryAt fs p).bind
  intro entry
  split
  · exact failsPlainly_ok _
  · exact failsPlainly_error (by decide)
  · exact failsPlainly_error (by decide)
  · exact failsPlainly_error (by decide)

theorem failsPlainly_listNames (fs : FileSystem) (p : Path) : FailsPlainly (fs.listNames p) := by
  apply (failsPlainly_resolve fs p).bind
  intro l
  split
  · exact failsPlainly_ok _
  · exact failsPlainly_error (by decide)

end questions

/-! ### Links that lead to each other -/

section cycle

variable {fs : FileSystem} {p : Path} {l : Location} {a b : String}

/-- Two links that lead to each other, or one that leads to itself, are followed until no link is
left. -/
theorem walk_of_cycle (ha : IsName a) (hb : IsName b)
    (hab : fs.entry? (l ++ [a]) = some (.link b)) (hba : fs.entry? (l ++ [b]) = some (.link a))
    (n : Nat) : fs.walk true n l [a] = .error .tooManyLinks := by
  induction n generalizing a b with
  | zero => exact walk_link_zero ha.down ha.short hab (by simp)
  | succ n ih =>
    have hstart : startOf b l = l :=
      Path.startOf_of_not_isAbsolute (Path.not_isAbsolute_of_isName hb) l
    have hsplit : Text.split '/' b = [b] := Path.segments_of_isName hb
    rw [walk_link ha.down ha.short hab (by simp), hstart, hsplit, List.append_nil]
    exact ih hb ha hba hab

/-- So the system refuses them. -/
theorem isDirectory_of_cycle (hp : fs.PassesTo p l) (hc : checkPath (p.child a) = .ok ())
    (ha : IsName a) (hb : IsName b) (hab : fs.entry? (l ++ [a]) = some (.link b))
    (hba : fs.entry? (l ++ [b]) = some (.link a)) :
    fs.isDirectory (p.child a) = .error .tooManyLinks := by
  obtain ⟨m, hlocate⟩ := hp.locate_join (Path.not_isAbsolute_of_isName ha)
  have hwalk := walk_of_cycle ha hb hab hba m
  have hl := hlocate true
  rw [Path.segments_of_isName ha, hwalk] at hl
  unfold Path.child at hc ⊢
  rw [hc] at hl
  unfold isDirectory entryAt resolve
  rw [hl]
  rfl

end cycle

end FileSystem

/-! ### Errors about paths -/

namespace Text

/-- What stands before a character that does not come again. -/
theorem append_cons_inj_of_last {c : Char} {before before' after after' : List Char}
    (h : before ++ c :: after = before' ++ c :: after') (hc : c ∉ after) (hc' : c ∉ after') :
    before = before' := by
  have hnothing : ∀ {between after after' : List Char}, c ∉ after →
      c :: after = between ++ c :: after' → between = [] := by
    intro between after after' hc hsplit
    cases between with
    | nil => rfl
    | cons d between =>
      obtain ⟨-, rfl⟩ := List.cons.inj hsplit
      exact absurd (by simp) hc
  rcases List.append_eq_append_iff.1 h with ⟨between, rfl, hsplit⟩ | ⟨between, rfl, hsplit⟩
  · rw [hnothing hc hsplit, List.append_nil]
  · rw [hnothing hc' hsplit, List.append_nil]

end Text

namespace Manifest

open FileSystem (FailsPlainly System IsName greatestLinks failsPlainly_isDirectory
  failsPlainly_listNames failsPlainly_readText)

/-- This is said of any texts, as rewriting would look for an end inside of literals. -/
theorem append_four (a b c d e : String) :
    a ++ b ++ c ++ d ++ e = a ++ (b ++ (c ++ (d ++ e))) := by
  rw [String.append_assoc, String.append_assoc, String.append_assoc]

theorem unreadableMessage_eq (p : Path) (e : FileSystem.Error) :
    unreadableMessage p e = "Failed to " ++ ("read " ++ (p.text ++ (": " ++ e.message))) := by
  have hread : "Failed to read " = "Failed to " ++ "read " := by decide
  unfold unreadableMessage
  rw [hread]
  exact append_four _ _ _ _ _

/-- The error about a path that cannot be read tells what path it is: the last colon stands behind
it. -/
theorem unreadableMessage_inj {p q : Path} {e e' : FileSystem.Error} (he : e.IsPlain)
    (he' : e'.IsPlain) (h : unreadableMessage p e = unreadableMessage q e') : p = q := by
  rw [unreadableMessage_eq, unreadableMessage_eq] at h
  have htexts : p.text ++ (": " ++ e.message) = q.text ++ (": " ++ e'.message) :=
    (String.append_right_inj _).1 ((String.append_right_inj _).1 h)
  have hcolon : ": ".toList = [':', ' '] := by decide
  have hplain : ∀ e : FileSystem.Error, e.IsPlain → ':' ∉ ' ' :: e.message.toList := by
    intro e he hm
    rcases List.mem_cons.1 hm with hspace | hm
    · exact absurd hspace (by decide)
    · exact he hm
  have happend : ∀ s t u : String, (s ++ (t ++ u)).toList = s.toList ++ (t.toList ++ u.toList) := by
    intro s t u
    rw [String.toList_append, String.toList_append]
  have hlists := (happend _ _ _).symm.trans ((congrArg String.toList htexts).trans (happend _ _ _))
  rw [hcolon] at hlists
  have htext := Text.append_cons_inj_of_last hlists (hplain e he) (hplain e' he')
  exact congrArg Path.mk (String.toList_inj.1 htext)

/-- It is not the error about a source that is no module. -/
theorem unreadableMessage_ne_parse (p q : Path) (e : FileSystem.Error) (cause : String) :
    unreadableMessage p e ≠ "Failed to parse " ++ q.text ++ ": " ++ cause := by
  have hparse : "Failed to parse " = "Failed to " ++ "parse " := by decide
  intro h
  rw [unreadableMessage_eq, hparse] at h
  have hhead : ∀ {s t : String}, s.toList ≠ [] → (s ++ t).toList.head? = s.toList.head? := by
    intro s t hs
    rw [String.toList_append, List.head?_append_of_ne_nil _ hs]
  have hrest := (String.append_right_inj _).1 (h.trans (append_four _ _ _ _ _))
  have hheads := congrArg (fun s => s.toList.head?) hrest
  have hletters := (hhead (by decide)).symm.trans (hheads.trans (hhead (by decide)))
  exact absurd hletters (by decide)

/-! ### Paths that are refused -/

/-- The system refuses a path that a scan of a folder comes to. -/
inductive Refused (fs : FileSystem) (root : Path) : Path → FileSystem.Error → Prop
  /-- A directory that cannot be listed. -/
  | unlisted {p : Path} {e : FileSystem.Error}
      (reached : Relation.ReflTransGen (Enters fs.system root) ⟨""⟩ p)
      (fails : fs.listNames (root.join p) = .error e) : Refused fs root (root.join p) e
  /-- A name in a directory that cannot be followed. -/
  | unfollowed {p : Path} {names : List String} {name : String} {e : FileSystem.Error}
      (reached : Relation.ReflTransGen (Enters fs.system root) ⟨""⟩ p)
      (lists : fs.listNames (root.join p) = .ok names) (mem : name ∈ names)
      (fails : fs.isDirectory (root.join (p.child name)) = .error e) :
      Refused fs root (root.join (p.child name)) e
  /-- A source that cannot be read. -/
  | unread {p : Path} {names : List String} {name : String} {e : FileSystem.Error}
      {language : Script.Language}
      (reached : Relation.ReflTransGen (Enters fs.system root) ⟨""⟩ p)
      (lists : fs.listNames (root.join p) = .ok names) (mem : name ∈ names)
      (file : fs.isDirectory (root.join (p.child name)) = .ok false)
      (source : Script.Language.ofPath? (root.join (p.child name)) = some language)
      (fails : fs.readText (root.join (p.child name)) = .error e) :
      Refused fs root (root.join (p.child name)) e

/-- There is one error about a path, and no entry at the path or below it. -/
structure ReportedOnce (found : Findings) (path : Path) (e : FileSystem.Error) : Prop where
  /-- The error is reported once. -/
  error : found.diagnostics.count (.error (unreadableMessage path e)) = 1
  /-- There is no entry. -/
  noEntry : ∀ entry ∈ found.manifest, entry.sourcePath.startsWith path = false

section refused

variable {s : System} {fs : FileSystem} {role : Role} {root p q path : Path}
  {e : FileSystem.Error} {v : Visit} {vs : List Visit}

/-- What is met behind a name in a directory. -/
theorem Meets.of_listed (hmeets : Meets s root p vs) {names : List String} {name : String}
    (lists : s.listNames (root.join p) = .ok names) (hm : name ∈ names) :
    ∃ ws ⊆ vs, (∀ e, s.isDirectory (root.join (p.child name)) = .error e →
        ws = [.unreadable (root.join (p.child name)) e]) ∧
      (s.isDirectory (root.join (p.child name)) = .ok false → ws = [.file (p.child name)]) ∧
      (s.isDirectory (root.join (p.child name)) = .ok true → Meets s root (p.child name) ws) := by
  cases hmeets with
  | unlisted fails => exact absurd (lists.symm.trans fails) (by simp)
  | @listed _ _ below lists' refused file entered =>
    obtain rfl := Except.ok.inj (lists.symm.trans lists')
    refine ⟨below name, ?_, refused name hm, file name hm, entered name hm⟩
    intro v hv
    exact List.mem_flatMap.2 ⟨name, hm, hv⟩

/-- What is met in a directory that a scan gets to is among what is met. -/
theorem Meets.of_reached (hmeets : Meets s root p vs)
    (hreached : Relation.ReflTransGen (Enters s root) p q) :
    ∃ ws ⊆ vs, Meets s root q ws := by
  induction hreached with
  | refl => exact ⟨vs, List.Subset.refl vs, hmeets⟩
  | tail _ he ih =>
    obtain ⟨ws, hws, hmeets⟩ := ih
    obtain ⟨names, name, lists, hm, rfl, hd⟩ := he
    obtain ⟨us, hus, -, -, hbelow⟩ := hmeets.of_listed lists hm
    exact ⟨us, List.Subset.trans hus hws, hbelow hd⟩

theorem judgeFile_of_unread {relative : Path} {language : Script.Language}
    (hl : Script.Language.ofPath? (root.join relative) = some language)
    (hr : fs.readText (root.join relative) = .error e) (role : Role) :
    judgeFile fs role root relative = .fault (unreadableMessage (root.join relative) e) := by
  unfold judgeFile
  simp only [hl, hr]

/-- A path that is refused is visited, and all that becomes of it is an error. -/
theorem exists_visit (h : fs.IsTree) (hrefused : Refused fs root path e) (role : Role) :
    ∃ v ∈ visits fs root, v.path root = path ∧ e.IsPlain ∧
      judge fs role root v = .fault (unreadableMessage path e) := by
  have hvisits := meets_visits h root
  cases hrefused with
  | unlisted reached fails =>
    obtain ⟨ws, hws, hmeets⟩ := hvisits.of_reached reached
    obtain rfl := (Meets.unlisted fails).unique hmeets
    exact ⟨_, hws (List.mem_singleton_self _), rfl, failsPlainly_listNames fs _ _ fails, rfl⟩
  | unfollowed reached lists mem fails =>
    obtain ⟨ws, hws, hmeets⟩ := hvisits.of_reached reached
    obtain ⟨us, hus, hunreadable, -⟩ := hmeets.of_listed lists mem
    obtain rfl := hunreadable _ fails
    exact ⟨_, hws (hus (List.mem_singleton_self _)), rfl, failsPlainly_isDirectory fs _ _ fails, rfl⟩
  | unread reached lists mem file source fails =>
    obtain ⟨ws, hws, hmeets⟩ := hvisits.of_reached reached
    obtain ⟨us, hus, -, hfile, -⟩ := hmeets.of_listed lists mem
    obtain rfl := hfile file
    exact ⟨_, hws (hus (List.mem_singleton_self _)), rfl, failsPlainly_readText fs _ _ fails,
      judgeFile_of_unread source fails role⟩

/-- Only a visit that is about a path comes to an error about this path. -/
theorem path_of_diagnostic (hplain : ∀ q e', v = .unreadable q e' → e'.IsPlain) (he : e.IsPlain)
    (h : (judge fs role root v).diagnostic? = some (.error (unreadableMessage path e))) :
    v.path root = path := by
  cases v with
  | unreadable q e' =>
    have hmessage : unreadableMessage q e' = unreadableMessage path e :=
      congrArg Diagnostic.message (Option.some.inj h)
    exact unreadableMessage_inj (hplain q e' rfl) he hmessage
  | file relative =>
    rw [judge] at h
    cases hj : judgeFile fs role root relative with
    | passed =>
      rw [hj] at h
      cases h
    | fault message =>
      rw [hj] at h
      obtain rfl : message = unreadableMessage path e :=
        congrArg Diagnostic.message (Option.some.inj h)
      obtain ⟨e', hread, hmessage⟩ | hparse := judgeFile_fault hj
      · exact (unreadableMessage_inj he (failsPlainly_readText fs _ _ hread) hmessage).symm
      · exact absurd hparse (unreadableMessage_ne_parse _ _ _ _)
    | entry entry warning =>
      rw [hj] at h
      obtain ⟨message, -, hseverity⟩ := Option.map_eq_some_iff.1 h
      cases congrArg Diagnostic.severity hseverity

/-- What begins with a path begins with its names. -/
theorem names_prefix_of_startsWith (h : q.startsWith p = true) : p.names <+: q.names :=
  List.IsPrefix.filterMap Path.Component.name? (List.isPrefixOf_iff_prefix.1 h)

namespace InNameOrder

variable {start : List String} (horder : InNameOrder root start vs) (hv : v ∈ vs)
include horder hv

/-- Besides a visit, nothing is met at its path or below it. -/
theorem exists_others : ∃ before after, vs = before ++ v :: after ∧
    ∀ w ∈ before ++ after, w ∈ vs ∧ ¬ (v.path root).names <+: (w.path root).names := by
  obtain ⟨before, after, rfl⟩ := List.append_of_mem hv
  obtain ⟨-, hafter, hbefore⟩ := List.pairwise_append.1 horder.order
  refine ⟨before, after, rfl, ?_⟩
  intro w hw
  rcases List.mem_append.1 hw with hw | hw
  · exact ⟨List.mem_append_left _ hw, (hbefore w hw v List.mem_cons_self).apart.2⟩
  · exact ⟨List.mem_append_right _ (List.mem_cons_of_mem _ hw),
      ((List.pairwise_cons.1 hafter).1 w hw).apart.1⟩

/-- An error about the path of a visit comes from no other visit. -/
theorem count_diagnostics (hplain : ∀ q e', .unreadable q e' ∈ vs → e'.IsPlain) (he : e.IsPlain)
    (hjudge : judge fs role root v = .fault (unreadableMessage (v.path root) e)) :
    List.count (.error (unreadableMessage (v.path root) e))
      ((vs.map (judge fs role root)).filterMap Verdict.diagnostic?) = 1 := by
  obtain ⟨before, after, rfl, hothers⟩ := horder.exists_others hv
  have hnone : ∀ ws ⊆ before ++ after, List.count (.error (unreadableMessage (v.path root) e))
      ((ws.map (judge fs role root)).filterMap Verdict.diagnostic?) = 0 := by
    intro ws hws
    rw [List.count_eq_zero]
    intro hd
    obtain ⟨verdict, hverdict, hd⟩ := List.mem_filterMap.1 hd
    obtain ⟨w, hw, rfl⟩ := List.mem_map.1 hverdict
    obtain ⟨hmem, hnot⟩ := hothers w (hws hw)
    have hplain : ∀ q e', w = .unreadable q e' → e'.IsPlain := by
      rintro q e' rfl
      exact hplain q e' hmem
    rw [path_of_diagnostic hplain he hd] at hnot
    exact hnot List.prefix_rfl
  have hone : (judge fs role root v).diagnostic? =
      some (.error (unreadableMessage (v.path root) e)) := by
    rw [hjudge]
    rfl
  rw [List.map_append, List.map_cons, List.filterMap_append, List.filterMap_cons_some hone,
    List.count_append, List.count_cons_self, hnone before (List.subset_append_left _ _),
    hnone after (List.subset_append_right _ _)]

/-- Where a visit comes to no entry, there is none at its path or below it. -/
theorem not_startsWith (hjudge : Verdict.entry? (judge fs role root v) = none) {entry : Entry}
    (hentry : entry ∈ (vs.map (judge fs role root)).filterMap Verdict.entry?) :
    entry.sourcePath.startsWith (v.path root) = false := by
  obtain ⟨before, after, rfl, hothers⟩ := horder.exists_others hv
  obtain ⟨verdict, hverdict, he⟩ := List.mem_filterMap.1 hentry
  obtain ⟨w, hw, rfl⟩ := List.mem_map.1 hverdict
  rw [sourcePath_of_judge he, Bool.eq_false_iff]
  intro hstarts
  have hother : w ∈ before ++ after := by
    rcases List.mem_append.1 hw with hw | hw
    · exact List.mem_append_left _ hw
    · rcases List.mem_cons.1 hw with rfl | hw
      · cases hjudge.symm.trans he
      · exact List.mem_append_right _ hw
  exact (hothers w hother).2 (names_prefix_of_startsWith hstarts)

end InNameOrder

/-- What is said about a path that cannot be read is plain. -/
theorem Meets.isPlain (hmeets : Meets fs.system root p vs) :
    ∀ q e, .unreadable q e ∈ vs → e.IsPlain := by
  induction hmeets with
  | unlisted fails =>
    intro q e hv
    cases List.mem_singleton.1 hv
    exact failsPlainly_listNames fs _ _ fails
  | @listed p names below _ refused file _ ih =>
    intro q e hv
    obtain ⟨name, hm, hv⟩ := List.mem_flatMap.1 hv
    cases hd : fs.isDirectory (root.join (p.child name)) with
    | error e' =>
      rw [refused name hm e' hd] at hv
      cases List.mem_singleton.1 hv
      exact failsPlainly_isDirectory fs _ _ hd
    | ok directory =>
      cases directory with
      | false =>
        rw [file name hm hd] at hv
        cases List.mem_singleton.1 hv
      | true => exact ih name hm hd q e hv

/-- A path that is refused is reported once, in whichever order the visits are judged. -/
theorem reportedOnce_of_refused (h : fs.IsTree) (hrefused : Refused fs root path e)
    {completed : List (Verdict × Nat)} (hcompleted : completed.Perm (judged fs role root)) :
    ReportedOnce (.ofJudged role completed) path e := by
  obtain ⟨v, hv, rfl, he, hjudge⟩ := exists_visit h hrefused role
  have hmeets := meets_visits h root
  have horder := hmeets.inNameOrder h
  have hmanifest : (Findings.ofJudged role completed).manifest = _ := manifest_ofJudged hcompleted
  constructor
  · rw [(diagnostics_ofJudged role hcompleted).count_eq]
    exact horder.count_diagnostics hv hmeets.isPlain he hjudge
  · intro entry hentry
    rw [hmanifest] at hentry
    obtain ⟨e₀, he₀, hsame⟩ := mem_withIdentifiers hentry
    have hpath : entry.sourcePath = e₀.sourcePath := (congrArg Entry.sourcePath hsame).trans rfl
    rw [hpath]
    exact horder.not_startsWith hv (by rw [hjudge]; rfl) he₀

end refused

/-! ### Scans -/

theorem holds_eq (fs : FileSystem) (p : Path) : fs.holds p = (fs.isDirectory p).toBool := by
  unfold FileSystem.holds FileSystem.isDirectory
  cases fs.entryAt p <;> rfl

/-- **Scans end, and report once what is refused.** In a tree of files, whatever its links are, a
scan ends because of the tree and of the links that a path may have, and this is so for every
system that grants no path with more than some number of links. The visits of a scan are what is
met in this way. Where the folder is granted, each path below it that the system refuses is
reported once and has no entry, in whichever order the visits are judged. Where the folder itself is
refused, nothing is found and nothing is said. -/
theorem scan_ends {fs : FileSystem} (htree : fs.IsTree) (role : Role) (root : Path) :
    (∀ s n, System.Limited s fs n → Ends s fs n root) ∧
    fs.system.Limited fs greatestLinks ∧ Meets fs.system root ⟨""⟩ (visits fs root) ∧
    (∀ directory, fs.isDirectory root = .ok directory →
      scan fs role root = .ofJudged role (judged fs role root) ∧
      ∀ completed, completed.Perm (judged fs role root) → ∀ path e, Refused fs root path e →
        ReportedOnce (.ofJudged role completed) path e) ∧
    ∀ e, fs.isDirectory root = .error e → scan fs role root = {} := by
  refine ⟨?_, fs.limited_system, meets_visits htree root, ?_, ?_⟩
  · intro s n hs
    exact ends_of_limited htree hs root
  · intro directory hroot
    have hholds : fs.holds root = true := by
      rw [holds_eq, hroot]
      rfl
    refine ⟨scan_of_holds hholds role, ?_⟩
    intro completed hcompleted path e hrefused
    exact reportedOnce_of_refused htree hrefused hcompleted
  · intro e hroot
    have hholds : fs.holds root = false := by
      rw [holds_eq, hroot]
      rfl
    rw [scan, if_neg (by simp [hholds])]

/-- A folder with two links that lead to each other, and one that leads to the directory above. -/
def cyclicFiles : FileSystem where
  entries := [(["api"], .directory), (["api", "a"], .link "b"), (["api", "b"], .link "a"),
    (["api", "ping.ts"], .file (.text "export default function handler() \x7b\x7d")),
    (["api", "up"], .link "..")]

theorem cyclicFiles_isTree : cyclicFiles.IsTree := by decide

theorem cyclicFiles_resolve : cyclicFiles.resolve ⟨"api/"⟩ = .ok ["api"] := by cbv

theorem cyclicFiles_listNames :
    cyclicFiles.listNames (Path.join ⟨"api"⟩ ⟨""⟩) = .ok (cyclicFiles.names ["api"]) := by
  have hopen : Path.join ⟨"api"⟩ ⟨""⟩ = ⟨"api/"⟩ := by decide
  unfold FileSystem.listNames
  rw [hopen, cyclicFiles_resolve]
  rfl

/-- The link to the directory above is entered. -/
theorem cyclicFiles_enters : Enters cyclicFiles.system ⟨"api"⟩ ⟨""⟩ ⟨"up"⟩ := by
  have hjoin : Path.join ⟨"api"⟩ ⟨"up"⟩ = ⟨"api/up"⟩ := by decide
  have hsegments : Path.segments ⟨"api/up"⟩ = ["api", "up"] := by decide
  have htarget : Text.split '/' ".." = [".."] := by decide
  have hlink : cyclicFiles.entry? (["api"] ++ ["up"]) = some (.link "..") := by decide
  have hup : cyclicFiles.PassesTo ⟨"api/up"⟩ [] := by
    refine ⟨39, ?_⟩
    rw [hsegments]
    apply FileSystem.Passes.directory (by decide) (by decide) (by decide)
    apply FileSystem.Passes.link (by decide) (by decide) hlink
    rw [htarget]
    exact .up .here
  refine ⟨_, "up", cyclicFiles_listNames, cyclicFiles_isTree.mem_names_iff.2 ⟨_, hlink⟩,
    by decide, ?_⟩
  rw [hjoin]
  exact FileSystem.isDirectory_of_passesTo cyclicFiles_isTree.toGrounded (by decide) hup

/-- A link that leads to one that leads back to it is refused. -/
theorem cyclicFiles_refused : Refused cyclicFiles ⟨"api"⟩ ⟨"api/a"⟩ .tooManyLinks := by
  have hjoin : Path.join ⟨"api"⟩ (Path.child ⟨""⟩ "a") = ⟨"api/a"⟩ := by decide
  have hchild : Path.child ⟨"api/"⟩ "a" = ⟨"api/a"⟩ := by decide
  have hlink : cyclicFiles.entry? (["api"] ++ ["a"]) = some (.link "b") := by decide
  have hpasses : cyclicFiles.PassesTo ⟨"api/"⟩ ["api"] :=
    FileSystem.passesTo_of_locate (FileSystem.locate_of_resolve cyclicFiles_resolve) (by decide)
  rw [← hjoin]
  apply Refused.unfollowed .refl cyclicFiles_listNames
    (cyclicFiles_isTree.mem_names_iff.2 ⟨_, hlink⟩)
  rw [hjoin, ← hchild]
  exact FileSystem.isDirectory_of_cycle hpasses (by decide) (by decide)
    (by decide : IsName "b") (by decide) (by decide)

/-- A scan of the folder goes up through a link, and it reports a link that leads nowhere. -/
theorem scan_ends_sample : cyclicFiles.IsTree ∧ cyclicFiles.isDirectory ⟨"api"⟩ = .ok true ∧
    Enters cyclicFiles.system ⟨"api"⟩ ⟨""⟩ ⟨"up"⟩ ∧
    Ends cyclicFiles.system cyclicFiles greatestLinks ⟨"api"⟩ ∧
    Refused cyclicFiles ⟨"api"⟩ ⟨"api/a"⟩ .tooManyLinks ∧
    ReportedOnce (scan cyclicFiles .handler ⟨"api"⟩) ⟨"api/a"⟩ .tooManyLinks := by
  have hroot : cyclicFiles.isDirectory ⟨"api"⟩ = .ok true := by cbv
  obtain ⟨hends, hlimited, -, hreported, -⟩ := scan_ends cyclicFiles_isTree .handler ⟨"api"⟩
  obtain ⟨hscan, honce⟩ := hreported true hroot
  refine ⟨cyclicFiles_isTree, hroot, cyclicFiles_enters, hends _ _ hlimited, cyclicFiles_refused,
    ?_⟩
  rw [hscan]
  exact honce _ (List.Perm.refl _) _ _ cyclicFiles_refused

/-- A link that leads to itself. -/
def selfLink : FileSystem where
  entries := [(["loop"], .link "loop")]

/-- A folder that the system refuses is not reported. -/
theorem scan_refused_sample : selfLink.IsTree ∧
    selfLink.isDirectory ⟨"loop"⟩ = .error .tooManyLinks ∧
    (scan selfLink .handler ⟨"loop"⟩).diagnostics = [] ∧
    ¬ ReportedOnce (scan selfLink .handler ⟨"loop"⟩) ⟨"loop"⟩ .tooManyLinks := by
  have hpasses : selfLink.PassesTo ⟨""⟩ [] := ⟨_, .nothing (by decide) .here⟩
  have hchild : Path.child ⟨""⟩ "loop" = ⟨"loop"⟩ := by decide
  have hroot : selfLink.isDirectory ⟨"loop"⟩ = .error .tooManyLinks := by
    rw [← hchild]
    exact FileSystem.isDirectory_of_cycle hpasses (by decide) (by decide)
      (by decide : IsName "loop") (by decide) (by decide)
  have hscan : scan selfLink .handler ⟨"loop"⟩ = {} := by
    rw [scan, if_neg]
    rw [holds_eq, hroot]
    decide
  refine ⟨by decide, hroot, by rw [hscan], ?_⟩
  rintro ⟨hcount, -⟩
  rw [hscan] at hcount
  simp at hcount

end Manifest

end FileRoutes
