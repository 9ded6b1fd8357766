import FileRoutes.Emit.Generated
import FileRoutes.Identifier.Basic

/-!
# What the lines of a module import and declare

The names that a module declares at its top level, and the modules that it imports, are read
off its lines, word by word. So what is said about a generated module is said about its text,
and not about what the text was made from.

## The model

* `words` — the words of a line.
* `importLines` — the lines that import another module.
* `declaredName?`, `declaredNames` — the name that a line declares, and those of all lines.

## What is proved

* `Router.reads_lines`, `MiddlewareTable.reads_lines`, `Entrypoint.reads_linesWith` — what the
  text of a module of each kind imports and declares.
-/

namespace FileRoutes.Emit

/-! ### Reading lines -/

/-- The words of a line. -/
def words (line : String) : List String := Text.split ' ' line

/-- Whether a line imports another module. -/
def isImport (line : String) : Bool := (words line).head? = some "import"

/-- The lines that import another module. -/
def importLines (lines : List String) : List String := lines.filter isImport

/-- The name that a line declares: that of a constant, or the one that an import gives to what
it imports. An import of a script gives no name, its second word being a text in quotes. -/
def declaredName? (line : String) : Option String :=
  let ws := words line
  if isImport line then
    if ws[1]? = some "\x7b" then ws[4]?
    else ws[1]?.filter fun w => w.toList.head? ≠ some '\''
  else if ws.head? = some "const" then ws[1]?
  else none

/-- The names that some lines declare, in order. -/
def declaredNames (lines : List String) : List String := lines.filterMap declaredName?

@[simp] theorem importLines_nil : importLines [] = [] := rfl

@[simp] theorem importLines_append (as bs : List String) :
    importLines (as ++ bs) = importLines as ++ importLines bs := List.filter_append _ _

@[simp] theorem declaredNames_nil : declaredNames [] = [] := rfl

@[simp] theorem declaredNames_append (as bs : List String) :
    declaredNames (as ++ bs) = declaredNames as ++ declaredNames bs := List.filterMap_append

/-- A first word in front of a blank is the first word. -/
theorem words_cons {line : String} (w rest : String) (hw : ' ' ∉ w.toList)
    (h : line.toList = w.toList ++ ' ' :: rest.toList) : words line = w :: words rest := by
  rw [words, Text.split, h, Text.pieces_append hw]
  simp [words, Text.split]

/-- The first word of a line starts with its first character, unless that is a blank. -/
theorem head_words {line w : String} {ws : List String} (h : words line = w :: ws) :
    w.toList.head? = line.toList.head?.filter (· ≠ ' ') := by
  rw [words, Text.split] at h
  cases hl : line.toList with
  | nil =>
    rw [hl] at h
    obtain ⟨rfl, -⟩ : "" = w ∧ _ := by simpa [Text.pieces] using h
    rfl
  | cons c cs =>
    rw [hl, Text.pieces] at h
    by_cases hc : c = ' '
    · obtain ⟨rfl, -⟩ : "" = w ∧ _ := by simpa [hc] using h
      simp [hc, Option.filter]
    · obtain ⟨p, ps, hp⟩ := List.exists_cons_of_ne_nil (Text.pieces_ne_nil ' ' cs)
      obtain ⟨rfl, -⟩ : String.ofList (c :: p) = w ∧ _ := by simpa [hc, hp] using h
      simp [hc, Option.filter]

theorem words_ne_nil (line : String) : words line ≠ [] := by
  simpa [words, Text.split] using Text.pieces_ne_nil ' ' line.toList

/-- A line that starts neither like an import nor like a constant imports and declares
nothing. -/
theorem reads_nothing {line : String} (hi : line.toList.head? ≠ some 'i')
    (hc : line.toList.head? ≠ some 'c') : isImport line = false ∧ declaredName? line = none := by
  obtain ⟨w, ws, hw⟩ := List.exists_cons_of_ne_nil (words_ne_nil line)
  have hhead := head_words hw
  have himport : w ≠ "import" := by
    rintro rfl
    exact hi (Option.filter_eq_some_iff.1 hhead.symm).1
  have hconst : w ≠ "const" := by
    rintro rfl
    exact hc (Option.filter_eq_some_iff.1 hhead.symm).1
  have his : isImport line = false := by simpa [isImport, hw] using himport
  exact ⟨his, by simp [declaredName?, his, hw, hconst]⟩

theorem reads_nothing_of_all (lines : List String)
    (h : ∀ line ∈ lines, line.toList.head? ≠ some 'i' ∧ line.toList.head? ≠ some 'c') :
    importLines lines = [] ∧ declaredNames lines = [] := by
  constructor
  · refine List.filter_eq_nil_iff.2 fun line hl => ?_
    simp [(reads_nothing (h line hl).1 (h line hl).2).1]
  · exact List.filterMap_eq_nil_iff.2 fun line hl =>
      (reads_nothing (h line hl).1 (h line hl).2).2

/-! ### Names and lines -/

/-- A name is one word, which neither starts with a quote nor opens a brace. -/
theorem word_of_isSpelled {name : String} (h : Identifier.isSpelled name.toList = true) :
    ' ' ∉ name.toList ∧ name ≠ "\x7b" ∧ name.toList.head? ≠ some '\'' := by
  have hletter : ∀ c ∈ name.toList, Identifier.isLetter c = true := by
    intro c hc
    unfold Identifier.isSpelled at h
    split at h
    · cases h
    · next c' cs heq =>
      simp only [Bool.and_eq_true] at h
      exact List.all_eq_true.1 h.2 c hc
  refine ⟨fun hm => ?_, ?_, fun hq => ?_⟩
  · exact absurd (hletter _ hm) (by decide)
  · rintro rfl
    exact absurd (hletter '\x7b' (by decide)) (by decide)
  · exact absurd (hletter _ (List.mem_of_head? hq)) (by decide)

theorem reads_defaultLine {name : String} (h : Identifier.isSpelled name.toList = true)
    (path : String) : isImport (Import.defaultLine name path) = true ∧
      declaredName? (Import.defaultLine name path) = some name := by
  obtain ⟨hblank, hbrace, hquote⟩ := word_of_isSpelled h
  have hw : words (Import.defaultLine name path) =
      "import" :: name :: words ("from " ++ quoted path ++ ";") := by
    rw [words_cons "import" (name ++ " from " ++ quoted path ++ ";") (by decide)
      (by simp [Import.defaultLine]),
      words_cons name ("from " ++ quoted path ++ ";") hblank (by simp)]
  have hi : isImport (Import.defaultLine name path) = true := by simp [isImport, hw]
  exact ⟨hi, by simp [declaredName?, hi, hw, hbrace, hquote]⟩

theorem reads_line {i : Import} (h : Identifier.isSpelled i.identifier.toList = true)
    {own : String} (hown : ' ' ∉ own.toList) :
    isImport (i.line own) = true ∧ declaredName? (i.line own) = some i.identifier := by
  unfold Import.line
  split
  · exact reads_defaultLine h i.path
  · generalize hline : "import \x7b " ++ own ++ " as " ++ i.identifier ++ " \x7d from " ++
      quoted i.path ++ ";" = line
    have hw : words line = "import" :: "\x7b" :: own :: "as" :: i.identifier ::
        words ("\x7d from " ++ quoted i.path ++ ";") := by
      rw [← hline,
        words_cons "import" ("\x7b " ++ own ++ " as " ++ i.identifier ++ " \x7d from " ++
          quoted i.path ++ ";") (by decide) (by simp),
        words_cons "\x7b" (own ++ " as " ++ i.identifier ++ " \x7d from " ++
          quoted i.path ++ ";") (by decide) (by simp),
        words_cons own ("as " ++ i.identifier ++ " \x7d from " ++
          quoted i.path ++ ";") hown (by simp),
        words_cons "as" (i.identifier ++ " \x7d from " ++
          quoted i.path ++ ";") (by decide) (by simp),
        words_cons i.identifier ("\x7d from " ++ quoted i.path ++ ";")
          (word_of_isSpelled h).1 (by simp)]
    have hi : isImport line = true := by simp [isImport, hw]
    exact ⟨hi, by simp [declaredName?, hi, hw]⟩

/-- The line of a script imports it without a name. -/
theorem reads_script (path : String) : isImport ("import " ++ quoted path ++ ";") = true ∧
    declaredName? ("import " ++ quoted path ++ ";") = none := by
  have hw : words ("import " ++ quoted path ++ ";") = "import" :: words (quoted path ++ ";") :=
    words_cons "import" (quoted path ++ ";") (by decide) (by simp)
  have hi : isImport ("import " ++ quoted path ++ ";") = true := by simp [isImport, hw]
  refine ⟨hi, ?_⟩
  obtain ⟨w, ws, hws⟩ := List.exists_cons_of_ne_nil (words_ne_nil (quoted path ++ ";"))
  have hquote : w.toList.head? = some '\'' := by
    rw [head_words hws]
    simp [quoted]
  have hbrace : w ≠ "\x7b" := by rintro rfl; simp at hquote
  simp [declaredName?, hi, hw, hws, hquote, hbrace]

/-- Lines that each import under one name import and declare just that, in order. -/
theorem reads_map {α : Type} {line : α → String} (name : α → String) {l : List α}
    (h : ∀ a ∈ l, isImport (line a) = true ∧ declaredName? (line a) = some (name a)) :
    importLines (l.map line) = l.map line ∧ declaredNames (l.map line) = l.map name := by
  induction l with
  | nil => exact ⟨rfl, rfl⟩
  | cons a rest ih =>
    obtain ⟨hi, hd⟩ := h a List.mem_cons_self
    obtain ⟨hri, hrd⟩ := ih fun b hb => h b (List.mem_cons_of_mem _ hb)
    rw [List.map_cons, List.map_cons, importLines, declaredNames, List.filter_cons_of_pos hi,
      List.filterMap_cons_some hd]
    exact ⟨congrArg _ hri, congrArg _ hrd⟩

/-! ### Modules -/

theorem reads_imports {imports : List Import} (own : String) (hown : ' ' ∉ own.toList)
    (h : ∀ i ∈ imports, Identifier.isSpelled i.identifier.toList = true) :
    importLines (imports.map (Import.line own)) = imports.map (Import.line own) ∧
      declaredNames (imports.map (Import.line own)) = imports.map Import.identifier :=
  reads_map Import.identifier fun i hi => reads_line (h i hi) hown

theorem reads_scripts (paths : List String) :
    importLines (paths.map fun path => "import " ++ quoted path ++ ";") =
        (paths.map fun path => "import " ++ quoted path ++ ";") ∧
      declaredNames (paths.map fun path => "import " ++ quoted path ++ ";") = [] := by
  constructor
  · refine List.filter_eq_self.2 fun line hl => ?_
    obtain ⟨path, -, rfl⟩ := List.mem_map.1 hl
    exact (reads_script path).1
  · refine List.filterMap_eq_nil_iff.2 fun line hl => ?_
    obtain ⟨path, -, rfl⟩ := List.mem_map.1 hl
    exact (reads_script path).2

theorem reads_express : importLines [Import.defaultLine "express" "express"] =
      [Import.defaultLine "express" "express"] ∧
    declaredNames [Import.defaultLine "express" "express"] = ["express"] := by decide

theorem reads_tableImport (table : Option String) :
    importLines (table.toList.map tableImportLine) = table.toList.map tableImportLine ∧
      declaredNames (table.toList.map tableImportLine) = table.toList.map fun _ => "middleware" :=
  reads_map (fun _ => "middleware") fun _ _ => reads_defaultLine (by decide) _

/-- The text of a router imports express, the handlers, and the table where there is a place
to import it from; it declares their names, and the router. -/
theorem Router.reads_lines {r : Router}
    (h : ∀ i ∈ r.handlers, Identifier.isSpelled i.identifier.toList = true) :
    let table := r.tableImport.filter fun path => path ≠ ""
    importLines r.lines = Import.defaultLine "express" "express" ::
        (r.handlers.map (Import.line "handler") ++ table.toList.map tableImportLine) ∧
      declaredNames r.lines = "express" :: (r.handlers.map Import.identifier ++
        (table.toList.map fun _ => "middleware") ++ ["router"]) := by
  intro table
  have htableLines : r.tableImportLines = table.toList.map tableImportLine := by
    unfold Router.tableImportLines
    cases hp : r.tableImport with
    | none => simp [table, hp]
    | some path =>
      by_cases he : path = "" <;> simp [table, hp, he, Option.filter]
  obtain ⟨hi, hd⟩ := reads_imports "handler" (by decide) h
  obtain ⟨hti, htd⟩ := reads_tableImport table
  have hconst : importLines ["", "const router = express.Router();"] = [] ∧
      declaredNames ["", "const router = express.Router();"] = ["router"] := by decide
  have huse := reads_nothing_of_all
    (r.folderMiddleware.map fun name => "router.use(" ++ tableEntry name ++ ");")
    (by simp)
  have hroutes := reads_nothing_of_all (r.routes.map Registration.line)
    (by simp [Registration.line])
  have hexport : importLines ["", "export default router;"] = [] ∧
      declaredNames ["", "export default router;"] = [] := by decide
  simp only [Router.lines, htableLines, importLines_append, declaredNames_append, hi, hd, hti, htd,
    hconst, huse, hroutes, hexport, reads_express]
  simp

/-- The text of a table imports the functions; it declares their names, and the table. -/
theorem MiddlewareTable.reads_lines {t : MiddlewareTable}
    (h : ∀ i ∈ t.imports, Identifier.isSpelled i.identifier.toList = true) :
    importLines t.lines = t.imports.map (Import.line "middleware") ∧
      declaredNames t.lines = t.imports.map Import.identifier ++ ["middleware"] := by
  obtain ⟨hi, hd⟩ := reads_imports "middleware" (by decide) h
  have hconst : importLines ["", "const middleware = \x7b"] = [] ∧
      declaredNames ["", "const middleware = \x7b"] = ["middleware"] := by decide
  have hentry : ∀ l : List TableEntry, ∀ line ∈ entryLines l,
      line.toList.head? = some ' ' := by
    intro l
    induction l using entryLines.induct with
    | case1 => simp [entryLines]
    | case2 e => simp [entryLines, TableEntry.line]
    | case3 e f rest ih => simpa [entryLines, TableEntry.line] using ih
  have hentries := reads_nothing_of_all (entryLines t.entries) fun line hl => by
    simp [hentry _ line hl]
  have hexport : importLines ["\x7d;", "", "export default middleware;"] = [] ∧
      declaredNames ["\x7d;", "", "export default middleware;"] = [] := by decide
  simp only [MiddlewareTable.lines, importLines_append, declaredNames_append, hi, hd, hconst,
    hentries, hexport]
  simp

theorem reads_appMiddlewareLines (e : Entrypoint) : importLines e.appMiddlewareLines = [] ∧
    declaredNames e.appMiddlewareLines =
      if e.appMiddleware = [] then [] else ["appMiddleware"] := by
  unfold Entrypoint.appMiddlewareLines
  split
  · exact ⟨rfl, rfl⟩
  · generalize hline : "const appMiddleware = [" ++
      Text.join ", " (e.appMiddleware.map quoted) ++ "];" = line
    have hw : words line = "const" :: "appMiddleware" ::
        words ("= [" ++ Text.join ", " (e.appMiddleware.map quoted) ++ "];") := by
      rw [← hline, words_cons "const" ("appMiddleware = [" ++
          Text.join ", " (e.appMiddleware.map quoted) ++ "];") (by decide) (by simp),
        words_cons "appMiddleware" ("= [" ++
          Text.join ", " (e.appMiddleware.map quoted) ++ "];") (by decide) (by simp)]
    simp [importLines, declaredNames, declaredName?, isImport, hw]

/-- The text of an entrypoint imports the scripts, express, the routers, and the table where it
is used; it declares the names of the latter, the application, and its middleware. -/
theorem Entrypoint.reads_linesWith {e : Entrypoint} {table : Option String}
    (h : ∀ m ∈ e.routers, Identifier.isSpelled m.identifier.toList = true) :
    importLines (e.linesWith (table.toList.map tableImportLine)) =
        (e.preRunScripts.map fun path => "import " ++ quoted path ++ ";") ++
          Import.defaultLine "express" "express" ::
          ((e.routers.map fun m => Import.defaultLine m.identifier m.path) ++
            table.toList.map tableImportLine) ∧
      declaredNames (e.linesWith (table.toList.map tableImportLine)) =
        "express" :: (e.routers.map Mount.identifier ++
          (table.toList.map fun _ => "middleware") ++ ["app"] ++
          if e.appMiddleware = [] then [] else ["appMiddleware"]) := by
  obtain ⟨hsi, hsd⟩ := reads_scripts e.preRunScripts
  obtain ⟨hri, hrd⟩ := reads_map (l := e.routers) Mount.identifier
    fun m hm => reads_defaultLine (h m hm) m.path
  obtain ⟨hti, htd⟩ := reads_tableImport table
  obtain ⟨hai, had⟩ := reads_appMiddlewareLines e
  have hconst : importLines ["", "const app = express();"] = [] ∧
      declaredNames ["", "const app = express();"] = ["app"] := by decide
  have hblank : importLines [""] = [] ∧ declaredNames [""] = [] := by decide
  have hmount := reads_nothing_of_all (e.routers.map e.mountLine)
    (by simp [Entrypoint.mountLine])
  have hlisten := reads_nothing_of_all (["", "app.listen(" ++
      Decimal.spelled e.port.toNat ++ ", () => \x7b", "  console.log('Server listening on port " ++
      Decimal.spelled e.port.toNat ++ "');", "\x7d);"]) (by simp)
  simp only [Entrypoint.linesWith, importLines_append, declaredNames_append, hsi, hsd, hri, hrd,
    hti, htd, hai, had, hconst, hblank, hmount, hlisten, reads_express]
  simp

end FileRoutes.Emit
