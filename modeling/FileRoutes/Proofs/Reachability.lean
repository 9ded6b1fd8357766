import FileRoutes.Proofs.VisitOrder

/-!
# The endpoint that answers

A router tries its registrations in order, and a parameter in a pattern stands for any piece of a
path without a slash. So an endpoint without a parameter answers the requests for its own route
unless an endpoint with a parameter that takes them is registered before it. The registrations are
in the order of the source files, by name and byte by byte, in which a bracket stands behind the
digits and the capital letters and before the small ones: `[id].ts` is registered before
`users.ts` and takes the requests for `/users`.

## The model

* `Route.Piece`, `Route.pieces` — the pieces of a pattern: characters and parameters.
* `Route.Fits` — a path that a pattern stands for.
* `Emit.Registration.Answers`, `Emit.FirstToAnswer` — the registration that takes a request.

## What is proved

* `Route.fits_of_isStatic` — a pattern without a parameter stands for itself only.
* `pairwise_scan` — entries are in the order of the names of their paths, links or not.
* `firstToAnswer_iff` — when an endpoint without a parameter answers the requests for its route.
-/

namespace FileRoutes

/-! ### Patterns -/

namespace Route

/-- A piece of a route pattern. -/
inductive Piece where
  /-- A character that stands for itself. -/
  | literal (c : Char)
  /-- A parameter. -/
  | parameter
deriving DecidableEq, Inhabited

/-- Whether the name of a parameter may hold the character. -/
def isNameCharacter (c : Char) : Bool := c.isAlphanum || c == '_'

/-- The pieces of a pattern; `inside` tells whether the name of a parameter is being read. A colon
opens a parameter where a name follows. -/
def pieces (inside : Bool) : List Char → List Piece
  | [] => []
  | c :: cs =>
    if inside && isNameCharacter c then pieces true cs
    else if c == ':' && cs.head?.any isNameCharacter then .parameter :: pieces true cs
    else .literal c :: pieces false cs

/-- The characters that pieces stand for: a parameter for any that are no slash, at least one. -/
inductive Stands : List Piece → List Char → Prop
  /-- Nothing is left. -/
  | nil : Stands [] []
  /-- A character stands for itself. -/
  | literal (c : Char) {ps : List Piece} {cs : List Char} (h : Stands ps cs) :
      Stands (.literal c :: ps) (c :: cs)
  /-- A parameter stands for a part of a segment. -/
  | parameter (part : List Char) (ne : part ≠ []) (noSlash : '/' ∉ part) {ps : List Piece}
      {cs : List Char} (h : Stands ps cs) : Stands (.parameter :: ps) (part ++ cs)

/-- Whether a pattern has no parameter. -/
def IsStatic (pattern : String) : Prop := Piece.parameter ∉ pieces false pattern.toList

instance (pattern : String) : Decidable (IsStatic pattern) := inferInstanceAs (Decidable (¬ _))

/-- The pattern stands for the path. -/
def Fits (pattern path : String) : Prop := Stands (pieces false pattern.toList) path.toList

theorem stands_map_literal {cs ds : List Char} : Stands (cs.map .literal) ds ↔ cs = ds := by
  induction cs generalizing ds with
  | nil =>
    constructor
    · rintro ⟨⟩
      rfl
    · rintro rfl
      exact .nil
  | cons c cs ih =>
    constructor
    · rintro (_ | ⟨-, h⟩)
      rw [ih.1 h]
    · rintro rfl
      exact .literal c (ih.2 rfl)

theorem pieces_of_not_mem {cs : List Char} (h : Piece.parameter ∉ pieces false cs) :
    pieces false cs = cs.map .literal := by
  induction cs with
  | nil => rfl
  | cons c cs ih =>
    rw [pieces, if_neg (by simp)] at h ⊢
    split at h
    · exact absurd List.mem_cons_self h
    · next hc =>
      rw [if_neg hc, List.map_cons, ih fun hm => h (List.mem_cons_of_mem _ hm)]

/-- A pattern without a parameter stands for itself only. -/
theorem fits_of_isStatic {pattern path : String} (h : IsStatic pattern) :
    Fits pattern path ↔ pattern = path := by
  rw [Fits, pieces_of_not_mem h, stands_map_literal, String.toList_inj]

end Route

/-! ### Registrations -/

namespace Emit

/-- The registration takes a request. -/
def Registration.Answers (r : Registration) (method : Http.Method) (path : String) : Prop :=
  r.method = method ∧ Route.Fits r.route path

/-- Of the registrations that take a request, the first one. -/
def FirstToAnswer (routes : List Registration) (method : Http.Method) (path : String)
    (r : Registration) : Prop :=
  ∃ before after, routes = before ++ r :: after ∧ r.Answers method path ∧
    ∀ s ∈ before, ¬ s.Answers method path

end Emit

/-! ### The order of entries -/

namespace Manifest

/-- The entries of a manifest are in the order of the names of their paths. -/
theorem pairwise_scan {fs : FileSystem} (h : fs.IsTree) (role : Role) (root : Path) :
    (scan fs role root).manifest.Pairwise
      fun d e => Location.Before d.sourcePath.names e.sourcePath.names := by
  unfold scan
  split
  · have horder := ((meets_visits h root).inNameOrder h).order
    rw [← List.pairwise_map (f := fun e : Entry => e.sourcePath.names) (R := Location.Before),
      judged, manifest_ofJudged (.refl _), map_withIdentifiers (fun _ _ => rfl), List.pairwise_map,
      List.filterMap_map]
    apply horder.filterMap
    intro v w hvw d hd e he
    rw [sourcePath_of_judge hd, sourcePath_of_judge he]
    exact hvw.before
  · exact .nil

/-! ### Routers -/

/-- **Which endpoint answers.** In a file tree no two of whose endpoints have the same verb and
route, the requests for the route of an endpoint without a parameter are answered by this endpoint,
exactly where no endpoint with the same verb and a parameter takes them whose path comes before
its own. -/
theorem firstToAnswer_iff {fs : FileSystem} (h : fs.IsTree) (root : Path) (r : Router.Request)
    (hdistinct : ((scan fs .handler root).manifest.map fun e => (e.method, e.route)).Nodup)
    {e : Entry} (he : e ∈ (scan fs .handler root).manifest) (hstatic : Route.IsStatic e.route) :
    Emit.FirstToAnswer (r.router (scan fs .handler root).manifest).routes e.method e.route
        (r.registration e) ↔
      ∀ d ∈ (scan fs .handler root).manifest, d.method = e.method → ¬ Route.IsStatic d.route →
        Route.Fits d.route e.route → ¬ Location.Before d.sourcePath.names e.sourcePath.names := by
  have horder := pairwise_scan h .handler root
  generalize (scan fs .handler root).manifest = m at hdistinct he horder ⊢
  obtain ⟨before, after, rfl⟩ := List.append_of_mem he
  obtain ⟨-, hlater, hearlier⟩ := List.pairwise_append.1 horder
  have hother : ∀ d ∈ before ++ after, ¬ (d.method = e.method ∧ d.route = e.route) := by
    rw [List.map_append, List.map_cons, List.nodup_middle, ← List.map_append] at hdistinct
    exact fun d hd hsame => (List.nodup_cons.1 hdistinct).1
      (List.mem_map.2 ⟨d, hd, by rw [hsame.1, hsame.2]⟩)
  have hregistration : ∀ {entries}, entries ⊆ before ++ after →
      r.registration e ∉ entries.map r.registration := fun hsub hm => by
    obtain ⟨d, hd, hsame⟩ := List.mem_map.1 hm
    exact hother d (hsub hd)
      ⟨congrArg Emit.Registration.method hsame, congrArg Emit.Registration.route hsame⟩
  have hroutes : (r.router (before ++ e :: after)).routes =
      before.map r.registration ++ r.registration e :: after.map r.registration := by
    rw [← List.map_cons, ← List.map_append]
    rfl
  rw [hroutes]
  constructor
  · rintro ⟨first, rest, hsplit, -, hfirst⟩ d hd hmethod - hfits hbefore
    obtain ⟨rfl, -, -⟩ := (List.append_cons_inj_of_notMem
      (hregistration (List.subset_append_left _ _))
      (hregistration (List.subset_append_right _ _))).1 hsplit
    have hmem : d ∈ before := by
      rcases List.mem_append.1 hd with hd | hd
      · exact hd
      · rcases List.mem_cons.1 hd with rfl | hd
        · exact absurd hbefore hbefore.asymm
        · exact absurd hbefore ((List.pairwise_cons.1 hlater).1 d hd).asymm
    exact hfirst _ (List.mem_map_of_mem hmem) ⟨hmethod, hfits⟩
  · intro hnone
    refine ⟨_, _, rfl, ⟨rfl, (Route.fits_of_isStatic hstatic).2 rfl⟩, fun s hs hanswers => ?_⟩
    obtain ⟨d, hd, rfl⟩ := List.mem_map.1 hs
    by_cases hd' : Route.IsStatic d.route
    · exact hother d (List.mem_append_left _ hd)
        ⟨hanswers.1, (Route.fits_of_isStatic hd').1 hanswers.2⟩
    · exact hnone d (List.mem_append_left _ hd) hanswers.1 hd' hanswers.2
        (hearlier d hd e List.mem_cons_self)

/-! ### A folder with a parameter -/

/-- A folder with an endpoint for a user and one for all of them. -/
def userFiles : FileSystem where
  entries := [(["api"], .directory),
    (["api", "[id].ts"], .file (.text "export default function handler() \x7b\x7d")),
    (["api", "users.ts"], .file (.text "export default function handler() \x7b\x7d"))]

/-- The request for the router of the folder. -/
def userRequest : Router.Request := ⟨⟨"/api"⟩, ⟨"/out/api.ts"⟩, [], none⟩

/-- The endpoint for a user. -/
def userEntry : Entry := ⟨"[id].ts", "/:id", ⟨"/api/[id].ts"⟩, .get, [], "_id_", .byDefault⟩

/-- The endpoint for all users. -/
def usersEntry : Entry := ⟨"users.ts", "/users", ⟨"/api/users.ts"⟩, .get, [], "users", .byDefault⟩

theorem userFiles_manifest :
    (scan userFiles .handler ⟨"/api"⟩).manifest = [userEntry, usersEntry] := by
  rw [scan_of_sources ⟨"/api/"⟩ ["[id].ts", "users.ts"] [⟨"/api/[id].ts"⟩, ⟨"/api/users.ts"⟩] _
    (by decide) (by decide) (by cbv) (by cbv) ?_ Server.Course.parse_handler]
  · decide
  · rw [List.forall_mem_cons, List.forall_mem_singleton]
    exact ⟨⟨by cbv, by cbv, by decide⟩, by cbv, by cbv, by decide⟩

/-- The endpoint for all users has no parameter. -/
theorem firstToAnswer_iff_sample : userFiles.IsTree ∧
    ((scan userFiles .handler ⟨"/api"⟩).manifest.map fun e => (e.method, e.route)).Nodup ∧
    usersEntry ∈ (scan userFiles .handler ⟨"/api"⟩).manifest ∧ Route.IsStatic usersEntry.route ∧
    (Emit.FirstToAnswer (userRequest.router (scan userFiles .handler ⟨"/api"⟩).manifest).routes
        usersEntry.method usersEntry.route (userRequest.registration usersEntry) ↔
      ∀ d ∈ (scan userFiles .handler ⟨"/api"⟩).manifest, d.method = usersEntry.method →
        ¬ Route.IsStatic d.route → Route.Fits d.route usersEntry.route →
          ¬ Location.Before d.sourcePath.names usersEntry.sourcePath.names) := by
  have htree : userFiles.IsTree := by decide +kernel
  have hdistinct : ((scan userFiles .handler ⟨"/api"⟩).manifest.map
      fun e => (e.method, e.route)).Nodup := by
    rw [userFiles_manifest]
    decide
  have hmem : usersEntry ∈ (scan userFiles .handler ⟨"/api"⟩).manifest := by
    rw [userFiles_manifest]
    decide
  exact ⟨htree, hdistinct, hmem, by decide,
    firstToAnswer_iff htree ⟨"/api"⟩ userRequest hdistinct hmem (by decide)⟩

/-- The requests for all users are answered by the endpoint for a user: its file comes first. -/
theorem users_shadowed : userFiles.IsTree ∧
    ((scan userFiles .handler ⟨"/api"⟩).manifest.map fun e => (e.method, e.route)).Nodup ∧
      usersEntry ∈ (scan userFiles .handler ⟨"/api"⟩).manifest ∧
      Route.IsStatic usersEntry.route ∧
      ¬ Emit.FirstToAnswer (userRequest.router (scan userFiles .handler ⟨"/api"⟩).manifest).routes
        usersEntry.method usersEntry.route (userRequest.registration usersEntry) := by
  rw [userFiles_manifest]
  refine ⟨by decide +kernel, by decide, by decide, by decide, ?_⟩
  rintro ⟨before, after, hroutes, -, hbefore⟩
  have hfits : Route.Fits "/:id" "/users" :=
    .literal '/' (.parameter ['u', 's', 'e', 'r', 's'] (by simp) (by decide) .nil)
  cases before with
  | nil =>
    have hfirst := (List.cons.inj hroutes).1
    exact absurd hfirst (by decide)
  | cons s before =>
    obtain rfl : userRequest.registration userEntry = s := (List.cons.inj hroutes).1
    exact hbefore _ List.mem_cons_self ⟨rfl, hfits⟩

end Manifest

end FileRoutes
