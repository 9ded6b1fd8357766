import FileRoutes.Proofs.Imports
import FileRoutes.Proofs.Stages

/-!
# What an entrypoint mounts

A run on a tree without links whose sources are apart from its output mounts the folders that
offer handlers when it starts, if it can write all that it tries to write. A folder with the slug
of an earlier one takes its place, and the modules of all of them can be read at the end.

## The model

* `mountLines` — the lines of a module that mount something.
* `Course.offering` — the folders that offer handlers at the start, each with its file.
* `Course.Mounts` — for each slug, the router of the last such folder with this slug.

## What is proved

* `Course.mounts_routers` — the routers of a run are mounted so.
* `Course.mounts_offering` — what such a run comes to.
-/

namespace FileRoutes

/-! ### Lines that mount -/

namespace Emit

/-- Whether a line mounts something in an application. -/
def isMount (line : String) : Bool := "app.use(".toList.isPrefixOf line.toList

/-- The lines that mount something. -/
def mountLines (lines : List String) : List String := lines.filter isMount

@[simp] theorem mountLines_append (as bs : List String) :
    mountLines (as ++ bs) = mountLines as ++ mountLines bs := List.filter_append _ _

theorem isMount_mountLine (e : Entrypoint) (m : Mount) : isMount (e.mountLine m) = true := by
  refine List.isPrefixOf_iff_prefix.2 ?_
  simp only [Entrypoint.mountLine, String.toList_append, List.append_assoc]
  exact List.prefix_append _ _

/-- A line that starts differently mounts nothing. -/
theorem mountLines_of_all (lines : List String) (h : ∀ line ∈ lines, line.toList.head? ≠ some 'a') :
    mountLines lines = [] := by
  refine List.filter_eq_nil_iff.2 fun line hl hm => h line hl ?_
  obtain ⟨rest, hrest⟩ := List.isPrefixOf_iff_prefix.1 hm
  rw [← hrest]
  rfl

/-- An entrypoint has one line for each router that it mounts, in order. -/
theorem Entrypoint.mountLines_linesWith (e : Entrypoint) (table : Option String) :
    mountLines (e.linesWith (table.toList.map tableImportLine)) = e.routers.map e.mountLine := by
  have hscripts := mountLines_of_all
    (e.preRunScripts.map fun path => "import " ++ quoted path ++ ";") (by simp)
  have hrouters := mountLines_of_all
    (e.routers.map fun m => Import.defaultLine m.identifier m.path)
    (by simp [Import.defaultLine])
  have htable := mountLines_of_all (table.toList.map tableImportLine)
    (by simp [tableImportLine, Import.defaultLine])
  have happ := mountLines_of_all e.appMiddlewareLines (by
    unfold Entrypoint.appMiddlewareLines
    split <;> simp)
  have hmount : mountLines (e.routers.map e.mountLine) = e.routers.map e.mountLine := by
    refine List.filter_eq_self.2 fun line hl => ?_
    obtain ⟨m, -, rfl⟩ := List.mem_map.1 hl
    exact isMount_mountLine e m
  have hlisten : mountLines ["", "app.listen(" ++ Decimal.spelled e.port.toNat ++ ", () => \x7b",
      "  console.log('Server listening on port " ++ Decimal.spelled e.port.toNat ++ "');",
      "\x7d);"] = [] := by
    simp [mountLines, isMount]
  have hexpress : mountLines [Import.defaultLine "express" "express"] = [] := by decide
  have hconst : mountLines ["", "const app = express();"] = [] := by decide
  have hblank : mountLines [""] = [] := by decide
  simp only [Entrypoint.linesWith, mountLines_append, hscripts, hexpress, hrouters, htable, hconst,
    happ, hblank, hmount, hlisten, List.nil_append, List.append_nil]

end Emit

namespace Server.Course

open FileSystem.Action (answer filesAfter)
open FileRoutes.Path (IsBelow LeadsTo)

variable {c : Course}

/-! ### Folders that offer handlers -/

/-- The folders that offer handlers at the start, each with the file of its router, in order. -/
def offering (c : Course) : List (ApiFolder × String) :=
  c.folders.filter fun pair =>
    (Manifest.scan c.files .handler (c.options.resolve pair.1.directory)).manifest ≠ []

/-- The router of a folder as it is at the start. -/
def routerOf (c : Course) (pair : ApiFolder × String) : Emit.Router :=
  (routerRequest c.options c.known pair.1 (c.place pair.2)).router
    (Manifest.scan c.files .handler (c.options.resolve pair.1.directory)).manifest

/-- The routers to mount: the slugs of the folders that offer handlers, each in the place of its
first folder and with the router of its last one, under identifiers of their own. -/
structure Mounts (c : Course) (routers : List Emit.Mount) : Prop where
  /-- The slugs are those of the folders, each once and in the order of their first folders. -/
  slugs : routers.map Emit.Mount.slug = (c.offering.map fun pair => pair.1.slug).eraseDups
  /-- No two routers have one identifier. -/
  identifiers : (routers.map Emit.Mount.identifier).Nodup
  /-- Each router is imported from the module of the last folder with its slug. -/
  last : ∀ m ∈ routers, ∃ before pair after, c.offering = before ++ pair :: after ∧
    pair.1.slug = m.slug ∧ (∀ other ∈ after, other.1.slug ≠ m.slug) ∧
    LeadsTo (c.place entrypointFile) m.path (c.place pair.2)

/-- A folder that offers handlers has a file that is one. -/
theorem mem_offering_iff (h : c.Separate) {pair : ApiFolder × String} : pair ∈ c.offering ↔
    pair ∈ c.folders ∧
      Manifest.Offers c.files .handler (c.options.resolve pair.1.directory) := by
  rw [offering, List.mem_filter, decide_eq_true_iff]
  refine and_congr_right fun hpair => ?_
  exact Manifest.manifest_ne_nil_iff h.tree (h.noLinks.below _)
    ((h.descends.join (h.noUp _ (mem_directories_of_mem_folders hpair))).leadsDown
      h.tree h.noLinks)

theorem exists_mem_folders_iff {P : ApiFolder → Prop} :
    (∃ pair ∈ c.folders, P pair.1) ↔ ∃ folder ∈ c.config.apiFolders, P folder := by
  rw [← map_fst_folders]
  simp only [List.mem_map, exists_exists_and_eq_and]

/-! ### Turns that go through -/

section turns

variable (h : c.Separate) (hopens : c.opens = true) (hall : ∀ a ∈ c.attempts, a.succeeds = true)

include h hopens hall

/-- A turn succeeds where its folder offers handlers. -/
theorem succeeds_iff_of_mem_turns {t : Turn} (ht : t ∈ c.turns) : t.succeeds = true ↔
    (Manifest.scan c.files .handler (c.options.resolve t.folder.directory)).manifest ≠ [] := by
  rw [t.chain.2.1, ← manifest_of_mem_turns h hopens ht]
  constructor
  · rintro ⟨a, ha, -⟩ hm
    rw [Turn.attempts, if_pos hm] at ha
    simp at ha
  · intro hm
    have ha : t.attempt ∈ t.attempts := by simp [Turn.attempts_of_ne hm]
    exact ⟨_, ha, hall _ (mem_attempts_of_mem_turns hopens ht ha)⟩

/-- The folders that are done are those that offer handlers, in order. -/
theorem map_done : c.done.map (fun t => (t.folder, t.place)) =
    c.offering.map fun pair => (pair.1, c.place pair.2) := by
  have hdone : c.done = c.turns.filter fun t => (Manifest.scan c.files .handler
      (c.options.resolve t.folder.directory)).manifest ≠ [] := by
    refine List.filter_congr fun t ht => ?_
    rw [Bool.eq_iff_iff, decide_eq_true_iff]
    exact succeeds_iff_of_mem_turns h hopens hall ht
  let offers : ApiFolder × Path → Bool := fun pair =>
    (Manifest.scan c.files .handler (c.options.resolve pair.1.directory)).manifest ≠ []
  calc c.done.map (fun t => (t.folder, t.place))
      = (c.turns.map fun t => (t.folder, t.place)).filter offers := by
        rw [hdone, List.filter_map]
        rfl
    _ = c.offering.map fun pair => (pair.1, c.place pair.2) := by
        rw [map_turns, List.filter_map]
        rfl

/-- The routers of a run are those of the folders that offer handlers. -/
theorem mounts_routers : c.Mounts c.mounted.routers := by
  have hdone := map_done h hopens hall
  refine ⟨?_, (List.nodup_append.1 c.nodup_mounted).2.1, fun m hm => ?_⟩
  · rw [mounted_routers, map_slug_mountAll, map_slug_mountsOf]
    have hslugs := congrArg (List.map fun pair => pair.1.slug) hdone
    rw [List.map_map, List.map_map] at hslugs
    exact congrArg List.eraseDups hslugs
  · obtain ⟨before, t, after, hsplit, hlast, rfl⟩ := mem_mounted.1 hm
    rw [hsplit, List.map_append, List.map_cons] at hdone
    obtain ⟨first, rest, hoffering, -, hrest⟩ := List.append_eq_map_iff.1 hdone
    obtain ⟨pair, later, rfl, hpair, hlater⟩ := List.map_eq_cons_iff.1 hrest
    obtain ⟨hfolder, hplace⟩ := Prod.mk.inj hpair
    have hmem : pair ∈ c.offering := by simp [hoffering]
    have hbelow : IsBelow pair.2 := isBelow_of_mem_modulePaths
      (List.of_mem_zip (a := pair.1) (List.mem_filter.1 hmem).1).2
    refine ⟨first, pair, later, hoffering, congrArg ApiFolder.slug hfolder,
      fun other hother => ?_, hplace ▸ leadsTo_of_output (isAbsolute_outputPath h.root)
        (isAbsolute_place h.root hbelow) (by decide) (by decide)⟩
    have hmem : (other.1, c.place other.2) ∈ after.map fun u => (u.folder, u.place) :=
      hlater ▸ List.mem_map_of_mem hother
    obtain ⟨u, hu, he⟩ := List.mem_map.1 hmem
    exact (Prod.mk.inj he).1 ▸ hlast u hu

theorem routers_eq_nil_iff : c.mounted.routers = [] ↔ c.offering = [] := by
  have hslugs := (mounts_routers h hopens hall).slugs
  rw [← List.map_eq_nil_iff (f := Emit.Mount.slug), hslugs]
  cases c.offering with
  | nil => simp
  | cons pair rest => simp [List.eraseDups_cons]

/-- Such a run succeeds where any folder offers handlers. -/
theorem outcome_eq_succeeded_iff_offers : c.outcome = .succeeded ↔ c.offering ≠ [] := by
  rw [outcome_eq_succeeded_iff, Ne, ← routers_eq_nil_iff h hopens hall, entrypointAttempts]
  refine ⟨?_, fun hne => ⟨hopens, c.entrypointAttempt, ?_, ?_⟩⟩
  · rintro ⟨-, a, ha, -⟩ hnil
    rw [if_pos hnil] at ha
    simp at ha
  · rw [if_neg hne]
    exact List.mem_singleton_self _
  · refine hall _ ?_
    rw [attempts_of_opens hopens, entrypointAttempts_of_ne hne]
    simp

/-- The routers of the folders that offer handlers can be read at the end. -/
theorem readText_router {pair : ApiFolder × String} (hpair : pair ∈ c.offering) :
    c.final.files.readText (c.place pair.2) = .ok (c.routerOf pair).render := by
  have hmem : (pair.1, c.place pair.2) ∈ c.done.map fun t => (t.folder, t.place) := by
    rw [map_done h hopens hall]
    exact List.mem_map_of_mem hpair
  obtain ⟨t, ht, he⟩ := List.mem_map.1 hmem
  obtain ⟨hfolder, hplace⟩ := Prod.mk.inj he
  obtain ⟨hturn, hsucceeds⟩ := List.mem_filter.1 ht
  have hm : t.manifest ≠ [] := by
    rw [manifest_of_mem_turns h hopens hturn]
    exact (succeeds_iff_of_mem_turns h hopens hall hturn).1 hsucceeds
  have ha : t.attempt ∈ c.attempts := mem_attempts_of_mem_turns hopens hturn (by
    simp [Turn.attempts_of_ne hm])
  have hrouter : t.router = c.routerOf pair := by
    obtain ⟨other, -, hother⟩ := exists_pair_of_mem_turns hturn
    have hrequest : t.request = routerRequest c.options c.known t.folder t.place := by
      rw [hother]
      rfl
    rw [Turn.router, manifest_of_mem_turns h hopens hturn, hrequest, hfolder, hplace]
    rfl
  have hread := readText_final h.noLinks ha (hall _ ha)
  rwa [← hplace, ← hrouter]

/-- The entrypoint can be read at the end, if any folder offers handlers. -/
theorem readText_entrypoint (hne : c.offering ≠ []) :
    c.final.files.readText (c.place entrypointFile) = .ok (Emit.unlines c.lines) := by
  have hrouters : c.mounted.routers ≠ [] := fun hnil =>
    hne ((routers_eq_nil_iff h hopens hall).1 hnil)
  have ha : c.entrypointAttempt ∈ c.attempts := by
    rw [attempts_of_opens hopens, entrypointAttempts_of_ne hrouters]
    simp
  have hread := readText_final h.noLinks ha (hall _ ha)
  exact hread

end turns

/-! ### Mounting -/

/-- **A run mounts the folders that offer handlers.** If the sources are apart from the output and
everything can be written, a run succeeds where a configured folder offers handlers. Then its
entrypoint mounts each slug of these folders once, with the router of the last folder that has it,
and the router of each folder can be read at the end. Otherwise the entrypoint stays as it was. -/
theorem mounts_offering (h : c.Separate) (hopens : c.opens = true)
    (hall : ∀ a ∈ c.attempts, a.succeeds = true) :
    (∀ pair, pair ∈ c.offering ↔ pair ∈ c.folders ∧
      Manifest.Offers c.files .handler (c.options.resolve pair.1.directory)) ∧
    (c.outcome = .succeeded ↔ ∃ folder ∈ c.config.apiFolders,
      Manifest.Offers c.files .handler (c.options.resolve folder.directory)) ∧
    (c.outcome = .succeeded → ∃ (e : Emit.Entrypoint) (lines : List String), c.Mounts e.routers ∧
      c.final.files.readText (c.place entrypointFile) = .ok (Emit.unlines lines) ∧
      Emit.mountLines lines = e.routers.map e.mountLine ∧
      Emit.importLines lines =
        (e.preRunScripts.map fun path => "import " ++ Emit.quoted path ++ ";") ++
          Emit.Import.defaultLine "express" "express" ::
          ((e.routers.map fun m => Emit.Import.defaultLine m.identifier m.path) ++
            e.tableImport.toList.map Emit.tableImportLine)) ∧
    (∀ pair ∈ c.offering,
      c.final.files.readText (c.place pair.2) = .ok (c.routerOf pair).render) ∧
    ((∀ folder ∈ c.config.apiFolders,
        ¬ Manifest.Offers c.files .handler (c.options.resolve folder.directory)) →
      FileSystem.Kept (c.site c.options.outputPath ++ [entrypointFile]) c.files c.final.files) := by
  have hsome : c.offering ≠ [] ↔ ∃ folder ∈ c.config.apiFolders,
      Manifest.Offers c.files .handler (c.options.resolve folder.directory) := by
    rw [← exists_mem_folders_iff]
    simp only [Ne, List.eq_nil_iff_forall_not_mem, not_forall, not_not, mem_offering_iff h]
  have hsucceeded := outcome_eq_succeeded_iff_offers h hopens hall
  refine ⟨fun _ => mem_offering_iff h, hsucceeded.trans hsome, fun hs => ?_,
    fun _ => readText_router h hopens hall, fun hnone => ?_⟩
  · exact ⟨c.entrypoint, c.lines, mounts_routers h hopens hall,
      readText_entrypoint h hopens hall (hsucceeded.1 hs),
      Emit.Entrypoint.mountLines_linesWith _ _, c.reads_lines.1⟩
  · have hfailed : c.outcome = .failed := by
      cases ho : c.outcome with
      | failed => rfl
      | succeeded =>
        obtain ⟨folder, hfolder, hoffers⟩ := hsome.1 (hsucceeded.1 ho)
        exact absurd hoffers (hnone folder hfolder)
    exact entry_entrypoint_of_failed hfailed h.tree.toGrounded h.tag
      (fun base _ => h.noLinks.below base) (stage_opened hopens h.tree h.noLinks h.tag).leads

/-! ### A project -/

theorem sample_opens : sample.opens = true := opens_iff.2 ⟨by decide, sample_opened.1⟩

/-- Every attempt of the run on the small project finds the modules that come before its own. -/
theorem sample_attempts : ∀ a ∈ sample.attempts, ∃ texts file, a.files = sampleAfter texts ∧
    a.place = sample.place file ∧ (texts.map Prod.fst, file) ∈ sampleModules := by
  obtain ⟨-, -, text, hcollected⟩ := sample_known
  obtain ⟨t, hdone, -, texts, htexts, hrouted⟩ := sample_done
  intro a ha
  obtain ⟨-, ⟨htable, hplace⟩ | ⟨u, hu, ha, file, hfile, hplace⟩ | ⟨hentry, hplace⟩⟩ :=
    mem_attempts_cases ha
  · refine ⟨[], _, ?_, hplace, .head _⟩
    obtain ⟨folder, rfl⟩ := eq_of_mem_tableAttempts htable
    exact sample_opened.2
  · have hpaths : modulePaths (sample.config.apiFolders.map ApiFolder.directory) =
        ["appMiddleware.ts"] := by decide
    have hfolders : sample.folders = [(⟨"appMiddleware", "/a", none⟩, "appMiddleware.ts")] := by
      rw [folders, hpaths]
      rfl
    rw [hpaths] at hfile
    refine ⟨[("middleware.ts", text)], _, ?_,
      hplace.trans (congrArg sample.place (List.mem_singleton.1 hfile)), .tail _ (.head _)⟩
    have hstart : u.start = sample.collected := by
      rw [turns, hfolders] at hu
      simp only [Server.turns, ite_self, List.mem_singleton] at hu
      rw [hu]
    rw [Turn.eq_of_mem_attempts ha, ← hcollected, ← hstart]
    rfl
  · refine ⟨texts, _, ?_, hplace, by rw [htexts]; exact .tail _ (.tail _ (.head _))⟩
    rw [eq_of_mem_entrypointAttempts hentry]
    exact hrouted

/-- Such an attempt succeeds, and its module is all that is new. -/
theorem sample_attempt {a : Attempt} {texts : List (String × String)} {file : String}
    (hfiles : a.files = sampleAfter texts) (hplace : a.place = sample.place file)
    (hmem : (texts.map Prod.fst, file) ∈ sampleModules) :
    a.succeeds = true ∧ a.after = sampleAfter (texts ++ [(file, a.text)]) := by
  obtain ⟨hsucceeds, hafter, -⟩ := a.writeModule_eq (s := ⟨a.files, [], []⟩) rfl
  obtain ⟨hresult, hwritten⟩ := sample_writes texts file hmem (s := ⟨a.files, [], []⟩) a.rendered
    hfiles
  rw [hplace] at hsucceeds hafter
  exact ⟨hsucceeds.1 hresult, hafter.symm.trans hwritten⟩

/-- The run on the small project writes all that it tries to write. -/
theorem sample_succeeds : ∀ a ∈ sample.attempts, a.succeeds = true := by
  intro a ha
  obtain ⟨texts, file, hfiles, hplace, hmem⟩ := sample_attempts a ha
  exact (sample_attempt hfiles hplace hmem).1

theorem sample_separate : sample.Separate where
  tree := (by decide : sampleFiles.IsTree)
  noLinks := noLinks_sampleFiles
  tag := by decide
  root := by decide
  descends := FileSystem.descends_of_not_mem (by decide)
  noUp := by decide
  apart := by decide

/-- The run on the small project succeeds, and its entrypoint mounts the router of the folder. -/
theorem mounts_sample : sample.Separate ∧ sample.opens = true ∧
    (∀ a ∈ sample.attempts, a.succeeds = true) ∧ sample.outcome = .succeeded ∧
    ∃ (e : Emit.Entrypoint) (lines : List String), sample.Mounts e.routers ∧
      sample.final.files.readText (sample.place entrypointFile) = .ok (Emit.unlines lines) ∧
      Emit.mountLines lines = e.routers.map e.mountLine := by
  obtain ⟨-, -, hmounts, -⟩ := mounts_offering sample_separate sample_opens sample_succeeds
  have hentry : sample.entrypointAttempt ∈ sample.entrypointAttempts := by
    obtain ⟨t, hdone, -⟩ := sample_done
    have hrouters : sample.mounted.routers ≠ [] :=
      List.ne_nil_of_mem (mem_mounted.2 ⟨[], t, [], hdone, by simp, rfl⟩)
    rw [entrypointAttempts_of_ne hrouters]
    exact List.mem_singleton_self _
  have hmem : sample.entrypointAttempt ∈ sample.attempts := by
    rw [attempts_of_opens sample_opens]
    simp [hentry]
  have hsucceeded : sample.outcome = .succeeded := (outcome_eq_succeeded_iff _).2
    ⟨sample_opens, _, hentry, sample_succeeds _ hmem⟩
  obtain ⟨e, lines, hrouters, hread, hlines, -⟩ := hmounts hsucceeded
  exact ⟨sample_separate, sample_opens, sample_succeeds, hsucceeded, e, lines, hrouters, hread,
    hlines⟩

/-! ### A root that is made -/

/-- The files of a project in `/p` with one more folder of handlers elsewhere, once some entries
have been made. -/
def detourAfter (made : List (Location × Entry)) (temporaries : Nat) : FileSystem where
  entries := [(["p"], .directory), (["p", "api"], .directory),
    (["p", "api", "ping.ts"], .file (.text "export default function handler() \x7b\x7d")),
    (["x"], .directory), (["x", "y"], .directory),
    (["x", "y", "pong.ts"], .file (.text "export default function handler() \x7b\x7d"))] ++ made
  temporaries := temporaries

/-- A run on this project that names its root by way of a directory in `/out`, which is made in
the second turn. -/
def detour : Course where
  options := ⟨⟨"/out/x/../../p"⟩, ⟨"/out"⟩⟩
  config :=
    { apiFolders := [⟨"api", "/a", none⟩, ⟨"/x/y", "/b", none⟩, ⟨"api", "/c", none⟩]
      port := 3000 }
  files := detourAfter [] 0

theorem noLinks_detourAfter {made : List (Location × Entry)} (n : Nat)
    (h : ∀ m ∈ made, ∀ target, m.2 ≠ .link target) : (detourAfter made n).NoLinks := by
  refine FileSystem.noLinks_of_entries fun m hm => ?_
  rcases List.mem_append.1 hm with hm | hm
  · have key : ∀ target, ∀ m ∈ (detourAfter [] 0).entries, m.2 ≠ .link target := by
      simp [detourAfter]
    exact fun target => key target m hm
  · exact h m hm

/-- A module is written where its directory is there and neither its name nor that of its
temporary file is taken. -/
theorem detour_writes {made : List (Location × Entry)} {n : Nat} {directory : Location}
    {name source : String} {a : Attempt} (hn : (detourAfter made n).NoLinks)
    (hmade : answer (FileSystem.ensureDirectory a.place.directory) a.files = .ok ())
    (hprepared : a.prepared = detourAfter made n)
    (hfile : a.place.fileName? = some name)
    (hspells : FileSystem.Spells a.place (directory ++ [name]))
    (hsource : FileSystem.Spells (a.place.directory.join
      ⟨"." ++ name ++ "." ++ "" ++ "." ++ toString n ++ ".tmp"⟩) (directory ++ [source]))
    (hd : ∀ k, FileSystem.entry? (detourAfter made n) (directory.take k) = some .directory)
    (hname : FileSystem.entry? (detourAfter made n) (directory ++ [name]) = none)
    (hfree : FileSystem.entry? (detourAfter made n) (directory ++ [source]) = none) :
    a.succeeds = true ∧
      a.after = detourAfter (made ++ [(directory ++ [name], .file (.text a.text))]) (n + 1) := by
  rw [← hprepared] at hn hd hname hfree
  obtain ⟨hanswer, hfiles⟩ := FileSystem.writeFile_of_free hfile (hspells.endsIn hd)
    (FileSystem.Spells.endsIn (by rw [hprepared]; exact hsource) hd) hn (by rw [hprepared]; rfl)
    (by simp [hname]) hfree a.text
  refine Attempt.after_of_ok hmade hanswer (hfiles.trans ?_)
  rw [hprepared] at hname ⊢
  rw [FileSystem.entry?, if_neg (by simp)] at hname
  rw [FileSystem.place, Keyed.put_of_get_eq_none hname]
  simp [detourAfter]

/-- A module is written right in the output directory, once that is there. -/
theorem detour_writes_output {made : List (Location × Entry)} {n : Nat} {a : Attempt}
    (name : String)
    (hn : (detourAfter made n).NoLinks) (hfiles : a.files = detourAfter made n)
    (hplace : a.place = ⟨"/out/" ++ name⟩)
    (hspelled : Path.directory ⟨"/out/" ++ name⟩ = ⟨"/out"⟩ ∧
      Path.fileName? ⟨"/out/" ++ name⟩ = some name ∧
      FileSystem.Spells ⟨"/out/" ++ name⟩ ["out", name] ∧
      FileSystem.Spells
        (Path.join ⟨"/out"⟩ ⟨"." ++ name ++ "." ++ "" ++ "." ++ toString n ++ ".tmp"⟩)
        ["out", "." ++ name ++ "." ++ "" ++ "." ++ toString n ++ ".tmp"])
    (hout : FileSystem.entry? (detourAfter made n) ["out"] = some .directory)
    (hname : FileSystem.entry? (detourAfter made n) ["out", name] = none)
    (hfree : FileSystem.entry? (detourAfter made n)
      ["out", "." ++ name ++ "." ++ "" ++ "." ++ toString n ++ ".tmp"] = none) :
    a.succeeds = true ∧
      a.after = detourAfter (made ++ [(["out", name], .file (.text a.text))]) (n + 1) := by
  obtain ⟨hdirectory, hfile, hspells, hsource⟩ := hspelled
  have houtput : FileSystem.Spells ⟨"/out"⟩ ["out"] := by decide
  obtain ⟨hmade, hsame⟩ := FileSystem.ensureDirectory_of_directory
    houtput.endsIn_root hn hout
  rw [← hplace] at hdirectory hfile hspells
  refine @detour_writes made n ["out"] name _ a hn (by rw [hdirectory, hfiles]; exact hmade)
    (by rw [Attempt.prepared, hdirectory, hfiles]; exact hsame) hfile hspells
    (by rw [hdirectory]; exact hsource) (fun k => ?_) hname hfree
  cases k with
  | zero => rfl
  | succ k => simpa using hout

theorem detour_opened : detour.opens = true ∧
    detour.opened.files = detourAfter [(["out"], .directory)] 0 := by
  have houtput : detour.options.outputPath = ⟨"/out"⟩ := by decide
  have hspells : FileSystem.Spells ⟨"/out"⟩ ["out"] := by decide
  have hends : detour.files.EndsIn ⟨"/out"⟩ [] "out" := hspells.endsIn_root
  obtain ⟨ha, hf⟩ := FileSystem.ensureDirectory_of_free hends (noLinks_detourAfter 0 (by simp)) rfl
    (by decide)
  obtain ⟨hresult, hfiles⟩ := Run.ensureDirectory_answer ⟨"/out"⟩ detour.start
  refine ⟨opens_iff.2 ⟨by decide, houtput ▸ hresult.2 ha⟩, ?_⟩
  rw [opened, houtput, hfiles]
  exact hf

/-- Where the root cannot be followed, the folder in it has no manifest. -/
theorem detour_scan_of_free {files : FileSystem}
    (h : files.holds ⟨"/out/x/../../p/api"⟩ = false) :
    (Manifest.scan files .handler ⟨"/out/x/../../p/api"⟩).manifest = [] := by
  rw [Manifest.scan, h]
  rfl

/-- Once the root can be followed, the folder in it has the handler. -/
theorem detour_scan {files : FileSystem} (hh : files.holds ⟨"/out/x/../../p/api"⟩ = true)
    (hnames : files.listNames ⟨"/out/x/../../p/api/"⟩ = .ok ["ping.ts"])
    (hfile : files.isDirectory ⟨"/out/x/../../p/api/ping.ts"⟩ = .ok false)
    (hread : files.readText ⟨"/out/x/../../p/api/ping.ts"⟩ =
      .ok "export default function handler() \x7b\x7d") :
    (Manifest.scan files .handler ⟨"/out/x/../../p/api"⟩).manifest ≠ [] := by
  rw [Manifest.scan_of_source ⟨"/out/x/../../p/api/"⟩ ⟨"/out/x/../../p/api/ping.ts"⟩ "ping.ts" _
    (by decide) (by decide) hh hnames hfile hread (by decide) parse_handler]
  decide

/-- The router of the other folder is written, with a directory for it. -/
theorem detour_writes_nested {a : Attempt}
    (hfiles : a.files = detourAfter [(["out"], .directory)] 0)
    (hplace : a.place = ⟨"/out/x/y.ts"⟩) : a.succeeds = true ∧
      a.after = detourAfter [(["out"], .directory), (["out", "x"], .directory),
        (["out", "x", "y.ts"], .file (.text a.text))] 1 := by
  have hdirectory : a.place.directory = ⟨"/out/x"⟩ := by
    rw [hplace]
    decide
  have hspells : FileSystem.Spells ⟨"/out/x"⟩ ["out", "x"] := by decide
  have hbase : FileSystem.EndsIn (detourAfter [(["out"], .directory)] 0) ⟨"/out/x"⟩ ["out"] "x" :=
    hspells.endsIn_folder rfl
  obtain ⟨hmade, hmadeFiles⟩ := FileSystem.ensureDirectory_of_free hbase
    (noLinks_detourAfter 0 (by simp)) rfl rfl
  refine @detour_writes [(["out"], .directory), (["out", "x"], .directory)] 0 ["out", "x"] "y.ts"
    ".y.ts..0.tmp" a (noLinks_detourAfter 0 (by simp)) (by rw [hdirectory, hfiles]; exact hmade)
    (by rw [Attempt.prepared, hdirectory, hfiles, hmadeFiles]; rfl)
    (by rw [hplace]; decide) (by rw [hplace]; decide)
    (by rw [hdirectory]; decide) (fun k => ?_) rfl rfl
  cases k with
  | zero => rfl
  | succ k =>
    cases k with
    | zero => rfl
    | succ k => simp; rfl

section Turns

variable {k : Option Middleware.Collection} {s : Run.State} {t : Turn}

/-- A turn in the root, which cannot be followed at the start, tries nothing. -/
theorem detour_turn_of_free (ht : turnOf detour.options k (⟨"api", "/a", none⟩, "api.ts") s = t)
    (hs : s.files = detourAfter [(["out"], .directory)] 0) : t.attempts = [] := by
  have hroot : detour.options.resolve "api" = ⟨"/out/x/../../p/api"⟩ := by decide
  refine if_pos ?_
  rw [← ht]
  show (Manifest.scan s.files .handler (detour.options.resolve "api")).manifest = []
  rw [hroot, hs]
  exact detour_scan_of_free (by cbv)

/-- The turn of the other folder writes its router, with a directory for it. -/
theorem detour_turn_nested (ht : turnOf detour.options k (⟨"/x/y", "/b", none⟩, "x/y.ts") s = t)
    (hs : s.files = detourAfter [(["out"], .directory)] 0) :
    t.attempts = [t.attempt] ∧ t.attempt.succeeds = true ∧
      t.attempt.after = detourAfter [(["out"], .directory), (["out", "x"], .directory),
        (["out", "x", "y.ts"], .file (.text t.attempt.text))] 1 := by
  have hother : detour.options.resolve "/x/y" = ⟨"/x/y"⟩ := by decide
  have hmanifest : t.manifest ≠ [] := by
    rw [← ht]
    show (Manifest.scan s.files .handler (detour.options.resolve "/x/y")).manifest ≠ []
    rw [hother, hs, Manifest.scan_of_source ⟨"/x/y/"⟩ ⟨"/x/y/pong.ts"⟩ "pong.ts" _
      (by decide) (by decide) (by cbv) (by cbv) (by cbv) (by cbv)
      (by decide) parse_handler]
    decide
  have hfiles : t.attempt.files = s.files := by
    rw [← ht]
    rfl
  have hplace : t.attempt.place = ⟨"/out/x/y.ts"⟩ := by
    rw [← ht]
    show Path.child detour.options.outputPath "x/y.ts" = _
    decide
  exact ⟨Turn.attempts_of_ne hmanifest, detour_writes_nested (hfiles.trans hs) hplace⟩

/-- With the way to the root made, a turn in it finds the handler and writes its router. -/
theorem detour_turn_of_made {text : String}
    (ht : turnOf detour.options k (⟨"api", "/c", none⟩, "api_router.ts") s = t)
    (hs : s.files = detourAfter [(["out"], .directory), (["out", "x"], .directory),
      (["out", "x", "y.ts"], .file (.text text))] 1) :
    t.attempts = [t.attempt] ∧ t.attempt.succeeds = true ∧
      t.attempt.after = detourAfter [(["out"], .directory), (["out", "x"], .directory),
        (["out", "x", "y.ts"], .file (.text text)),
        (["out", "api_router.ts"], .file (.text t.attempt.text))] 2 := by
  have hroot : detour.options.resolve "api" = ⟨"/out/x/../../p/api"⟩ := by decide
  have hmanifest : t.manifest ≠ [] := by
    rw [← ht]
    show (Manifest.scan s.files .handler (detour.options.resolve "api")).manifest ≠ []
    rw [hroot, hs]
    exact detour_scan (by cbv) (by cbv) (by cbv) (by cbv)
  have hfiles : t.attempt.files = s.files := by
    rw [← ht]
    rfl
  have hplace : t.attempt.place = ⟨"/out/api_router.ts"⟩ := by
    rw [← ht]
    show Path.child detour.options.outputPath "api_router.ts" = _
    decide
  exact ⟨Turn.attempts_of_ne hmanifest, detour_writes_output "api_router.ts"
    (noLinks_detourAfter 1 (by simp)) (hfiles.trans hs) hplace (by decide) rfl rfl rfl⟩

end Turns

/-- The first turn finds nothing; the second one makes the way to the root, and so the third one
finds the handler. -/
theorem detour_turns : ∃ (t₁ t₂ t₃ : Turn) (text text' : String), detour.turns = [t₁, t₂, t₃] ∧
    [t₁.folder, t₂.folder, t₃.folder] = detour.config.apiFolders ∧ t₁.attempts = [] ∧
    (t₂.attempts = [t₂.attempt] ∧ t₂.attempt.succeeds = true) ∧
    (t₃.attempts = [t₃.attempt] ∧ t₃.attempt.succeeds = true) ∧
    detour.routed.files = detourAfter [(["out"], .directory), (["out", "x"], .directory),
      (["out", "x", "y.ts"], .file (.text text)),
      (["out", "api_router.ts"], .file (.text text'))] 2 := by
  have hfolders : detour.folders = [(⟨"api", "/a", none⟩, "api.ts"),
      (⟨"/x/y", "/b", none⟩, "x/y.ts"), (⟨"api", "/c", none⟩, "api_router.ts")] := by
    decide
  obtain ⟨m₁, s₁, ht₁, hchain₁, ha₁⟩ := turns_cons detour.options detour.known
    (⟨"api", "/a", none⟩, "api.ts")
    [(⟨"/x/y", "/b", none⟩, "x/y.ts"), (⟨"api", "/c", none⟩, "api_router.ts")] {} detour.collected
  obtain ⟨m₂, s₂, ht₂, hchain₂, ha₂⟩ := turns_cons detour.options detour.known
    (⟨"/x/y", "/b", none⟩, "x/y.ts")
    [(⟨"api", "/c", none⟩, "api_router.ts")] m₁ s₁
  obtain ⟨m₃, s₃, ht₃, hchain₃, ha₃⟩ := turns_cons detour.options detour.known
    (⟨"api", "/c", none⟩, "api_router.ts") [] m₂ s₂
  generalize h₁ : turnOf detour.options detour.known (⟨"api", "/a", none⟩, "api.ts")
    detour.collected = t₁ at *
  generalize h₂ : turnOf detour.options detour.known (⟨"/x/y", "/b", none⟩, "x/y.ts") s₁ = t₂ at *
  generalize h₃ : turnOf detour.options detour.known (⟨"api", "/c", none⟩, "api_router.ts") s₂ = t₃
    at *
  have hfirst : t₁.attempts = [] := detour_turn_of_free h₁ detour_opened.2
  rw [hfirst] at hchain₁
  obtain ⟨hsecond, hsucceeds₂, hwritten₂⟩ :=
    detour_turn_nested h₂ (Eq.trans hchain₁ detour_opened.2)
  rw [hsecond] at hchain₂
  obtain ⟨hthird, hsucceeds₃, hwritten₃⟩ :=
    detour_turn_of_made h₃ (Eq.trans hchain₂.2 hwritten₂)
  rw [hthird] at hchain₃
  refine ⟨t₁, t₂, t₃, t₂.attempt.text, t₃.attempt.text, ?_, ?_, hfirst, ⟨hsecond, hsucceeds₂⟩,
    ⟨hthird, hsucceeds₃⟩, ?_⟩
  · rw [turns, hfolders, ht₁, ht₂, ht₃]
    rfl
  · rw [← h₁, ← h₂, ← h₃]
    rfl
  · rw [routed, hfolders, ha₁, ha₂, ha₃]
    exact Eq.trans hchain₃.2 hwritten₃

/-- The run mounts the routers of its last two folders, and it writes all that it tries to
write. -/
theorem detour_final : detour.mounted.routers.map Emit.Mount.slug = ["/b", "/c"] ∧
    (∀ a ∈ detour.attempts, a.succeeds = true) ∧ detour.outcome = .succeeded ∧
    ∃ text text' text'', detour.final.files = detourAfter [(["out"], .directory),
      (["out", "x"], .directory), (["out", "x", "y.ts"], .file (.text text)),
      (["out", "api_router.ts"], .file (.text text')),
      (["out", "index.ts"], .file (.text text''))] 3 := by
  obtain ⟨t₁, t₂, t₃, text, text', hturns, hfolders, h₁, ⟨h₂, hs₂⟩, ⟨h₃, hs₃⟩, hrouted⟩ :=
    detour_turns
  have hdone : detour.done = [t₂, t₃] := by
    have hfailed : ¬ t₁.succeeds = true := by simp [t₁.chain.2.1, h₁]
    have hsecond : t₂.succeeds = true := by simp [t₂.chain.2.1, h₂, hs₂]
    have hthird : t₃.succeeds = true := by simp [t₃.chain.2.1, h₃, hs₃]
    rw [done, hturns]
    simp [hfailed, hsecond, hthird]
  have hslugs : detour.mounted.routers.map Emit.Mount.slug = ["/b", "/c"] := by
    have hmap := congrArg (List.map ApiFolder.slug) hfolders
    simp only [List.map_cons, List.map_nil, detour, List.cons.injEq, and_true] at hmap
    rw [mounted_routers, map_slug_mountAll, map_slug_mountsOf, hdone]
    simp only [List.map_cons, List.map_nil, hmap.2]
    decide
  have hentry : detour.entrypointAttempts = [detour.entrypointAttempt] :=
    if_neg fun hnil => by simp [hnil] at hslugs
  have hattempts : detour.attempts = [t₂.attempt, t₃.attempt, detour.entrypointAttempt] := by
    rw [attempts_of_opens detour_opened.1, hturns, hentry]
    simp only [List.flatMap_cons, h₁, h₂, h₃]
    rfl
  obtain ⟨hsucceeds, hwritten⟩ := detour_writes_output (a := detour.entrypointAttempt) "index.ts"
    (noLinks_detourAfter 2 (by simp)) hrouted (by
      show Path.child detour.options.outputPath entrypointFile = _
      decide) (by decide) rfl rfl rfl
  refine ⟨hslugs, ?_, (outcome_eq_succeeded_iff _).2
    ⟨detour_opened.1, _, by simp [hentry], hsucceeds⟩, text, text',
    detour.entrypointAttempt.text, ?_⟩
  · rw [hattempts]
    simp [hs₂, hs₃, hsucceeds]
  · have hchain := chain_final detour_opened.1
    rw [hattempts] at hchain
    exact Eq.trans hchain.2.2.2 hwritten

/-- Where the root is made in the course of the run, two folders with one directory can come to
different ends: one of them is mounted and the other one is not. -/
theorem mounts_detour :
    (detour.files.IsTree ∧ detour.files.NoLinks ∧ detour.options.projectRoot.isAbsolute = true ∧
      ∀ d ∈ detour.directories, ".." ∉ Path.segments ⟨d⟩ ∧
        Apart (detour.site (detour.options.resolve d)) (detour.site detour.options.outputPath)) ∧
    (detour.opens = true ∧ ∀ a ∈ detour.attempts, a.succeeds = true) ∧
    detour.outcome = .succeeded ∧
    ∀ qualifies : Path → Prop, ¬ ∀ slug, slug ∈ detour.mounted.routers.map Emit.Mount.slug ↔
      ∃ folder ∈ detour.config.apiFolders,
        qualifies (detour.options.resolve folder.directory) ∧ folder.slug = slug := by
  obtain ⟨hslugs, hall, hsucceeded, -⟩ := detour_final
  refine ⟨⟨(by decide +kernel : (detourAfter [] 0).IsTree), noLinks_detourAfter 0 (by simp),
    by decide, by decide +kernel⟩, ⟨detour_opened.1, hall⟩, hsucceeded, fun qualifies h => ?_⟩
  rw [hslugs] at h
  obtain ⟨folder, hfolder, hq, hslug⟩ := (h "/c").1 (by simp)
  have hapi : qualifies (detour.options.resolve "api") := by
    have hdirectory : folder.directory = "api" := by
      simp only [detour, List.mem_cons, List.not_mem_nil, or_false] at hfolder
      rcases hfolder with rfl | rfl | rfl
      · rfl
      · simp at hslug
      · rfl
    rwa [hdirectory] at hq
  have hmounted := (h "/a").2 ⟨⟨"api", "/a", none⟩, by simp [detour], hapi, rfl⟩
  simp at hmounted

end Server.Course

end FileRoutes
