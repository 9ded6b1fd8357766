import FileRoutes.Config.Load
import FileRoutes.Json.Written
import Mathlib.Data.List.Basic

/-!
# Configs read back from JSON

What a reader does with the text that a config is written as. A reader that succeeds takes
some characters from the front of the text and leaves the rest, so what it does is said by
what it takes and what it gives, and readers in a row take their texts in a row.

## The model

* `Consumes p w rest a` — ahead of `rest`, the reader `p` takes `w` and gives `a`.
* `Reads p w a` — it does so ahead of all that may stand behind a value, and `w` begins
  like a value.
* `Collects r ms d d'` — the members `ms` of a record take the draft `d` to `d'`.

The main statement is `run_toJson`: a config is read back from its own text.
-/

namespace FileRoutes.Json

/-! ### Characters and digits -/

/-- The letter behind a backslash, or the digits, that a character is written with. -/
theorem escape_cases (c : Char) :
    (escape c = [c] ∧ c ≠ '"' ∧ c ≠ '\\' ∧ isControl c = false) ∨
    (∃ letter, escape c = ['\\', letter] ∧ letter ≠ 'u' ∧ simpleEscape? letter = some c) ∨
    (escape c = ['\\', 'u', '0', '0', hexDigit (c.toNat / 16), hexDigit c.toNat] ∧
      c.toNat < 32) := by
  unfold escape
  by_cases hquote : c = '"'
  · subst hquote
    exact .inr (.inl ⟨'"', by decide⟩)
  by_cases hslash : c = '\\'
  · subst hslash
    exact .inr (.inl ⟨'\\', by decide⟩)
  by_cases hback : c = '\x08'
  · subst hback
    exact .inr (.inl ⟨'b', by decide⟩)
  by_cases hfeed : c = '\x0c'
  · subst hfeed
    exact .inr (.inl ⟨'f', by decide⟩)
  by_cases hline : c = '\n'
  · subst hline
    exact .inr (.inl ⟨'n', by decide⟩)
  by_cases hreturn : c = '\r'
  · subst hreturn
    exact .inr (.inl ⟨'r', by decide⟩)
  by_cases htab : c = '\t'
  · subst htab
    exact .inr (.inl ⟨'t', by decide⟩)
  by_cases hcontrol : c < ' '
  · exact .inr (.inr ⟨by simp_all, hcontrol⟩)
  · exact .inl ⟨by simp_all, hquote, hslash, by simpa [isControl] using hcontrol⟩

theorem escape_ne_nil (c : Char) : escape c ≠ [] := by
  obtain ⟨h, -⟩ | ⟨letter, h, -⟩ | ⟨h, -⟩ := escape_cases c <;> simp [h]

/-- The four digits of a control character spell it. -/
theorem unitOf_hexDigits {n : Nat} (h : n < 32) :
    unitOf? '0' '0' (hexDigit (n / 16)) (hexDigit n) = some n := by
  decide +revert

theorem length_le_flatMap_escape (cs : List Char) : cs.length ≤ (cs.flatMap escape).length := by
  induction cs with
  | nil => simp
  | cons c cs ih =>
    have := List.length_pos_iff.2 (escape_ne_nil c)
    simp only [List.flatMap_cons, List.length_append, List.length_cons]
    omega

namespace Reader

variable {α β : Type} {p : Reader α} {w v rest : List Char} {a : α} {b : β}

/-! ### What a reader takes -/

/-- Ahead of a rest, a reader takes a text and gives a result, wherever the text stands. -/
def Consumes (p : Reader α) (w rest : List Char) (a : α) : Prop :=
  ∀ line column, ∃ line' column',
    ExceptT.run p ⟨w ++ rest, line, column⟩ = (.ok a, ⟨rest, line', column'⟩)

theorem consumes_pure (a : α) (rest : List Char) : Consumes (pure a) [] rest a :=
  fun line column => ⟨line, column, rfl⟩

theorem run_bind_of_ok {f : α → Reader β} {c c' : Cursor} (h : ExceptT.run p c = (.ok a, c')) :
    ExceptT.run (p >>= f) c = ExceptT.run (f a) c' := by
  have hrun : StateT.run (ExceptT.run p) c = pure (.ok a, c') := h
  rw [ExceptT.run_bind]
  exact (StateT.run_bind _ _ _).trans (by rw [hrun]; rfl)

/-- Readers in a row take their texts in a row. -/
theorem Consumes.bind {f : α → Reader β} (hp : Consumes p w (v ++ rest) a)
    (hf : Consumes (f a) v rest b) : Consumes (p >>= f) (w ++ v) rest b := by
  intro line column
  obtain ⟨line₁, column₁, h₁⟩ := hp line column
  obtain ⟨line₂, column₂, h₂⟩ := hf line₁ column₁
  exact ⟨line₂, column₂, by rw [List.append_assoc, run_bind_of_ok h₁, h₂]⟩

/-- The last reader in a row may take nothing. -/
theorem Consumes.bind_last {f : α → Reader β} (hp : Consumes p w rest a)
    (hf : Consumes (f a) [] rest b) : Consumes (p >>= f) w rest b := by
  have h : Consumes (p >>= f) (w ++ []) rest b := hp.bind hf
  rwa [List.append_nil] at h

/-- A result is used for another one. -/
theorem Consumes.map (hp : Consumes p w rest a) (g : α → β) :
    Consumes (p >>= fun a => pure (g a)) w rest (g a) :=
  hp.bind_last (consumes_pure (g a) rest)

theorem Consumes.peek_bind {f : Option Char → Reader β}
    (hf : Consumes (f (v ++ rest).head?) v rest b) :
    Consumes (peek >>= f) v rest b :=
  Consumes.bind (p := peek) (w := []) (fun line column => ⟨line, column, rfl⟩) hf

theorem consumes_skip (c : Char) (rest : List Char) : Consumes skip [c] rest () := by
  intro line column
  by_cases hc : c = '\n'
  · exact ⟨line + 1, 0, by subst hc; rfl⟩
  · exact ⟨line, column + c.utf8Size, by
      show (Except.ok (), Cursor.next _) = _
      simp [Cursor.next, hc]⟩

theorem Consumes.skip_bind {f : Unit → Reader β} (c : Char) (hf : Consumes (f ()) v rest b) :
    Consumes (skip >>= f) (c :: v) rest b :=
  (consumes_skip c (v ++ rest)).bind hf

/-- Blanks are skipped only where there are some. -/
theorem Consumes.peekToken_bind {f : Option Char → Reader β}
    (h : ∀ c ∈ (v ++ rest).head?, isBlank c = false)
    (hf : Consumes (f (v ++ rest).head?) v rest b) : Consumes (peekToken >>= f) v rest b := by
  refine Consumes.bind (p := peekToken) (w := []) (fun line column => ⟨line, column, ?_⟩) hf
  have hnone : (v ++ rest).takeWhile isBlank = [] := by
    cases hw : v ++ rest with
    | nil => rfl
    | cons c cs => simp [h c (by simp [hw])]
  show (Except.ok _, List.foldl _ _ _) = _
  simp [hnone]

theorem Consumes.stepBound_bind {f : Nat → Reader β}
    (hf : Consumes (f ((v ++ rest).length + 1)) v rest b) : Consumes (stepBound >>= f) v rest b :=
  Consumes.bind (p := stepBound) (w := []) (fun line column => ⟨line, column, rfl⟩) hf

/-- A fault that does not arise is not handled. -/
theorem Consumes.tryCatch (hp : Consumes p w rest a) (handler : Error → Reader α) :
    Consumes (tryCatch p handler) w rest a := by
  intro line column
  obtain ⟨line', column', h⟩ := hp line column
  have hrun : StateT.run (ExceptT.run p) ⟨w ++ rest, line, column⟩ =
      Pure.pure (.ok a, ⟨rest, line', column'⟩) := h
  refine ⟨line', column', ?_⟩
  rw [ExceptT.run_tryCatch]
  exact (StateT.run_bind _ _ _).trans (by rw [hrun]; rfl)

theorem Consumes.placed (hp : Consumes p w rest a) : Consumes (placed p) w rest a :=
  hp.tryCatch _

theorem Consumes.outcome (hp : Consumes p w rest a) : Consumes (outcome p) w rest (.ok a) := by
  have h : Consumes (p >>= fun a => pure (Except.ok a)) w rest (.ok a : Except Error α) :=
    hp.map Except.ok
  rw [bind_pure_comp] at h
  exact h.tryCatch _

/-- A body is taken with its brackets. -/
theorem Consumes.enclosed {finish : Reader Unit} (c d : Char) (hp : Consumes p w (d :: rest) a)
    (hf : Consumes finish [d] rest ()) : Consumes (enclosed p finish) (c :: (w ++ [d])) rest a := by
  unfold Reader.enclosed
  refine skip_bind c (hp.outcome.bind ?_)
  refine hf.outcome.bind_last ?_
  exact consumes_pure a rest

/-! ### Texts -/

theorem rest_next {c : Cursor} {d : Char} {ds : List Char} (h : c.rest = d :: ds) :
    c.next.rest = ds := by
  unfold Cursor.next
  split
  · simp_all
  · split <;> simp_all

/-- Four hexadecimal digits are taken for their number. -/
theorem consumes_unit {d₁ d₂ d₃ d₄ : Char} {n : Nat} (h : unitOf? d₁ d₂ d₃ d₄ = some n)
    (rest : List Char) : Consumes unit [d₁, d₂, d₃, d₄] rest n := by
  intro line column
  have hsize : ¬ (String.ofList (d₁ :: d₂ :: d₃ :: d₄ :: rest)).utf8ByteSize < 4 := by
    have h₁ := d₁.utf8Size_pos
    have h₂ := d₂.utf8Size_pos
    have h₃ := d₃.utf8Size_pos
    have h₄ := d₄.utf8Size_pos
    simp only [String.ofList_cons, String.utf8ByteSize_append, String.utf8ByteSize_singleton]
    omega
  have hrest : (Cursor.mk (d₁ :: d₂ :: d₃ :: d₄ :: rest) line column).next.next.next.next.rest =
      rest := rest_next (rest_next (rest_next (rest_next rfl)))
  have hrun : ExceptT.run unit ⟨d₁ :: d₂ :: d₃ :: d₄ :: rest, line, column⟩ =
      (.ok n, (Cursor.mk (d₁ :: d₂ :: d₃ :: d₄ :: rest) line column).next.next.next.next) := by
    unfold unit
    rw [run_bind_of_ok (p := get) (a := ⟨d₁ :: d₂ :: d₃ :: d₄ :: rest, line, column⟩) rfl]
    rw [if_neg hsize]
    simp only [h]
    rfl
  generalize (Cursor.mk (d₁ :: d₂ :: d₃ :: d₄ :: rest) line column).next.next.next.next = c at *
  obtain ⟨_, line', column'⟩ := c
  obtain rfl := hrest
  exact ⟨line', column', hrun⟩

theorem consumes_escapeLetter {letter : Char} (h : letter = 'u' ∨ (simpleEscape? letter).isSome)
    (rest : List Char) : Consumes escapeLetter [letter] rest letter := by
  refine Consumes.peek_bind ?_
  show Consumes (if letter = 'u' ∨ (simpleEscape? letter).isSome then _ else _) _ _ _
  rw [if_pos h]
  exact Consumes.skip_bind letter (consumes_pure letter rest)

/-- What stands behind the backslash is taken for the character. -/
theorem consumes_escaped {c : Char} {ds : List Char} (h : escape c = '\\' :: ds)
    (rest : List Char) : Consumes escaped ds rest c := by
  obtain ⟨he, -, hc, -⟩ | ⟨letter, he, -, hc⟩ | ⟨he, hc⟩ := escape_cases c
  · simp_all
  · obtain rfl : [letter] = ds := by simpa [h] using he.symm
    refine (consumes_escapeLetter (.inr (by simp [hc])) _).bind ?_
    rw [hc]
    exact consumes_pure c rest
  · obtain rfl : ['u', '0', '0', hexDigit (c.toNat / 16), hexDigit c.toNat] = ds := by
      simpa [h] using he.symm
    refine (consumes_escapeLetter (.inl rfl) _).bind ?_
    show Consumes unitEscape _ rest c
    refine (consumes_unit (unitOf_hexDigits hc) _).bind_last ?_
    have hleading : isLeading c.toNat = false := by simp [isLeading]; omega
    have htrailing : isTrailing c.toNat = false := by simp [isTrailing]; omega
    rw [hleading, htrailing, Char.ofNat_toNat]
    exact consumes_pure c rest

theorem consumes_textCharacters (cs : List Char) {fuel : Nat} (h : cs.length < fuel)
    (rest : List Char) : Consumes (textCharacters fuel) (cs.flatMap escape ++ ['"']) rest cs := by
  induction cs generalizing fuel with
  | nil =>
    obtain ⟨fuel, rfl⟩ := Nat.exists_eq_add_one.2 h
    refine Consumes.peek_bind ?_
    exact Consumes.skip_bind '"' (consumes_pure [] rest)
  | cons c cs ih =>
    obtain ⟨fuel, rfl⟩ := Nat.exists_eq_add_one.2 (Nat.lt_of_le_of_lt (Nat.zero_le _) h)
    have htail := (ih (Nat.lt_of_succ_lt_succ h)).map (c :: ·)
    rw [List.flatMap_cons, List.append_assoc]
    refine Consumes.peek_bind ?_
    obtain ⟨he, hquote, hslash, hcontrol⟩ | ⟨ds, he⟩ :
        (escape c = [c] ∧ c ≠ '"' ∧ c ≠ '\\' ∧ isControl c = false) ∨
          ∃ ds, escape c = '\\' :: ds := by
      obtain h | ⟨letter, he, -⟩ | ⟨he, -⟩ := escape_cases c
      · exact .inl h
      · exact .inr ⟨_, he⟩
      · exact .inr ⟨_, he⟩
    · rw [he]
      simp only [List.cons_append, List.nil_append, List.head?_cons]
      rw [if_neg (by simp [hcontrol])]
      exact Consumes.skip_bind c htail
    · rw [he]
      exact Consumes.skip_bind '\\' ((consumes_escaped he _).bind htail)

/-- A written text is taken for the text. -/
theorem consumes_quotedText (s : String) (rest : List Char) :
    Consumes quotedText (writtenText s).toList rest s := by
  rw [writtenText, String.toList_ofList]
  refine Consumes.skip_bind '"' (Consumes.stepBound_bind ?_)
  have hfuel : s.toList.length < (s.toList.flatMap escape ++ ['"'] ++ rest).length + 1 := by
    have := length_le_flatMap_escape s.toList
    simp only [List.length_append]
    omega
  have h := (consumes_textCharacters s.toList hfuel rest).map String.ofList
  rwa [String.ofList_toList] at h

/-! ### Numbers -/

/-- The last digit of a number stands behind those of its tenth. -/
theorem digitsOf_eq (n : Nat) : Decimal.digitsOf n = if n < 10 then [Nat.digitChar n]
    else Decimal.digitsOf (n / 10) ++ [Nat.digitChar (n % 10)] := by
  split
  · exact Nat.toDigits_of_lt_base ‹_›
  · exact Nat.toDigits_of_base_le (by omega) (by omega)

theorem isDigit_of_mem {n : Nat} {c : Char} (h : c ∈ Decimal.digitsOf n) : isDigit c = true := by
  have hdigit := Nat.isDigit_of_mem_toDigits (by omega) (by omega) h
  simpa [Char.isDigit, isDigit, Char.le_def] using hdigit

/-- Only the digits of zero begin with a zero. -/
theorem head_digitsOf {n : Nat} (h : n ≠ 0) : (Decimal.digitsOf n).head? ≠ some '0' := by
  have hdigit : ∀ d < 10, d ≠ 0 → Nat.digitChar d ≠ '0' := by decide
  induction n using Nat.strongRecOn with
  | ind n ih =>
    rw [digitsOf_eq]
    split
    · simpa using hdigit n ‹_› h
    · have hrest := ih (n / 10) (by omega) (by omega)
      cases hd : Decimal.digitsOf (n / 10) with
      | nil => exact absurd hd Nat.toDigits_ne_nil
      | cons d ds => simpa [hd] using hrest

theorem accumulate_append {bound n taken m taken' : Nat} {ds es : List Char}
    (h : accumulate bound n taken ds = (m, taken', 0)) :
    accumulate bound n taken (ds ++ es) = accumulate bound m taken' es := by
  induction ds generalizing n taken with
  | nil => simp_all [accumulate]
  | cons d ds ih =>
    simp only [accumulate, List.cons_append] at h ⊢
    split at h
    · rw [if_pos ‹_›, ih h]
    · simp at h

/-- The digits of a number below the bound are all taken, and give the number. -/
theorem accumulate_digitsOf {bound n : Nat} (h : n < bound) :
    ∃ taken, accumulate bound 0 0 (Decimal.digitsOf n) = (n, taken, 0) := by
  have hdigit : ∀ d < 10, Decimal.valueOf 10 [Nat.digitChar d] = d := by decide
  induction n using Nat.strongRecOn with
  | ind n ih =>
    rw [digitsOf_eq]
    split
    · simp [accumulate, hdigit n ‹_›, h]
    · obtain ⟨taken, hrest⟩ := ih (n / 10) (by omega) (by omega)
      have hn : n / 10 * 10 + n % 10 = n := by omega
      rw [accumulate_append hrest]
      simp [accumulate, hdigit _ (Nat.mod_lt n (by omega)), hn, h]

/-- What may stand behind a value: a mark, or the end of the text. -/
def IsFollow (rest : List Char) : Prop := ∀ c ∈ rest.head?, c ∈ [',', ']', '\x7d']

theorem IsFollow.cases (h : IsFollow rest) : rest = [] ∨ ∃ c cs, rest = c :: cs ∧
    (c = ',' ∨ c = ']' ∨ c = '\x7d') := by
  cases rest with
  | nil => exact .inl rfl
  | cons c cs => exact .inr ⟨c, cs, rfl, by simpa using h c rfl⟩

/-- A run of digits is taken up to what is none. -/
theorem consumes_digits {ds : List Char} (h : ∀ c ∈ ds, isDigit c = true)
    (hrest : ∀ c ∈ rest.head?, isDigit c = false) : Consumes digits ds rest ds := by
  have htaken : (ds ++ rest).takeWhile isDigit = ds := by
    rw [List.takeWhile_append_of_pos h]
    cases rest with
    | nil => simp
    | cons c cs => simp [hrest c rfl]
  have hskip : ∀ (es : List Char) (c : Cursor), c.rest = es ++ rest →
      (es.foldl (fun c _ => c.next) c).rest = rest := by
    intro es
    induction es with
    | nil => exact fun c h => h
    | cons e es ih => exact fun c h => ih _ (rest_next h)
  intro line column
  have hrun : ExceptT.run digits ⟨ds ++ rest, line, column⟩ =
      (.ok ds, ds.foldl (fun c _ => c.next) ⟨ds ++ rest, line, column⟩) := by
    show (Except.ok ((ds ++ rest).takeWhile isDigit),
      ((ds ++ rest).takeWhile isDigit).foldl _ _) = _
    rw [htaken]
  have hlast := hskip ds ⟨ds ++ rest, line, column⟩ rfl
  generalize ds.foldl (fun c _ => c.next) (Cursor.mk (ds ++ rest) line column) = c at *
  obtain ⟨_, line', column'⟩ := c
  obtain rfl := hlast
  exact ⟨line', column', hrun⟩

/-- The digits of a number that fits are taken for it. -/
theorem consumes_number {n : Nat} (h : n < unsignedBound) (hrest : IsFollow rest) :
    Consumes number (Decimal.digitsOf n) rest (.integer n) := by
  have hafter : Consumes (afterWhole false n 0) [] rest (.integer n) := by
    refine Consumes.peek_bind ?_
    obtain rfl | ⟨c, cs, rfl, rfl | rfl | rfl⟩ := hrest.cases
    all_goals exact consumes_pure _ _
  have hnone : ∀ c ∈ rest.head?, isDigit c = false := by
    obtain rfl | ⟨c, cs, rfl, rfl | rfl | rfl⟩ := hrest.cases
    · simp
    all_goals exact fun c hc => by obtain rfl := Option.some.inj hc; decide
  refine Consumes.peek_bind ?_
  rcases Nat.eq_zero_or_pos n with rfl | hpos
  · show Consumes (unsignedNumber false) ['0'] rest _
    refine Consumes.peek_bind (Consumes.skip_bind '0' (Consumes.peek_bind ?_))
    obtain rfl | ⟨c, cs, rfl, rfl | rfl | rfl⟩ := hrest.cases
    all_goals exact hafter
  obtain ⟨d, ds, hds⟩ := List.exists_cons_of_ne_nil (l := Decimal.digitsOf n) Nat.toDigits_ne_nil
  have hd : isDigit d = true := isDigit_of_mem (n := n) (by simp [hds])
  have hzero : d ≠ '0' := by simpa [hds] using head_digitsOf (Nat.ne_of_gt hpos)
  have hminus : d ≠ '-' := by
    rintro rfl
    exact absurd hd (by decide)
  obtain ⟨taken, haccumulate⟩ := accumulate_digitsOf h
  have hunsigned : Consumes (unsignedNumber false) (Decimal.digitsOf n) rest (.integer n) := by
    refine Consumes.peek_bind ?_
    simp only [hds, List.cons_append, List.head?_cons]
    rw [← hds, if_pos hd]
    refine (consumes_digits (fun c => isDigit_of_mem (n := n)) hnone).bind_last ?_
    rw [haccumulate]
    exact hafter
  rw [hds] at hunsigned ⊢
  simp only [List.cons_append, List.head?_cons]
  split
  · exact absurd (Option.some.inj ‹_›) hminus
  · exact hunsigned

/-! ### Values -/

/-- A reader takes the text of a value ahead of all that may stand behind it, and the text begins
like a value that is not null. -/
structure Reads (p : Reader α) (w : String) (a : α) : Prop where
  /-- The text begins like a value. -/
  begins : ∃ c cs, w.toList = c :: cs ∧ isBlank c = false ∧ c ≠ ']' ∧ c ≠ 'n'
  /-- The value is taken. -/
  consumes : ∀ rest, IsFollow rest → Consumes p w.toList rest a

theorem Reads.map {w : String} (h : Reads p w a) (g : α → β) :
    Reads (p >>= fun a => pure (g a)) w (g a) :=
  ⟨h.begins, fun rest hrest => (h.consumes rest hrest).map g⟩

/-- What may be null is read as it is where it is not. -/
theorem Reads.optional {w : String} (h : Reads p w a) : Reads (optional p) w (some a) := by
  refine ⟨h.begins, fun rest hrest => ?_⟩
  obtain ⟨c, cs, hw, hblank, -, hnull⟩ := h.begins
  have hp := (h.consumes rest hrest).map some
  rw [hw] at hp ⊢
  refine Consumes.peekToken_bind (by simpa using hblank) ?_
  simp only [List.cons_append, List.head?_cons]
  split
  · exact absurd (Option.some.inj ‹_›) hnull
  · rwa [← bind_pure_comp]

/-- The first character of a value is looked at before the value is read. -/
theorem Consumes.tokenOfValue_bind {f : Char → Reader β} {c : Char} {cs : List Char}
    (hw : w = c :: cs) (hblank : isBlank c = false) (hf : Consumes (f c) w rest b) :
    Consumes (tokenOfValue >>= f) w rest b := by
  have hpeek : Consumes tokenOfValue [] (w ++ rest) c := by
    rw [hw]
    exact peekToken_bind (by simpa using hblank) (consumes_pure c _)
  exact hpeek.bind hf

theorem reads_text (s : String) : Reads (textAs expectedText) (writtenText s) s := by
  have hw : (writtenText s).toList = '"' :: (s.toList.flatMap escape ++ ['"']) := by
    simp [writtenText]
  refine ⟨⟨_, _, hw, by decide, by decide, by decide⟩, fun rest _ => ?_⟩
  exact Consumes.tokenOfValue_bind hw (by decide) (consumes_quotedText s rest)

theorem isBlank_of_isDigit {c : Char} (h : isDigit c = true) : isBlank c = false := by
  have hne : ∀ d, isDigit d = false → c ≠ d := fun d hd he => by simp [← he, h] at hd
  simp [isBlank, hne ' ' (by decide), hne '\n' (by decide), hne '\t' (by decide),
    hne '\r' (by decide)]

theorem consumes_port {c : Char} {cs : List Char} {i : Int} {q : UInt16} (hw : w = c :: cs)
    (hdigit : isDigit c = true) (hnumber : Consumes number w rest (.integer i))
    (hport : portOf i = .ok q) : Consumes port w rest q := by
  refine Consumes.tokenOfValue_bind hw (isBlank_of_isDigit hdigit) (Consumes.placed ?_)
  rw [if_pos (.inr hdigit)]
  refine hnumber.bind_last ?_
  simp only [hport]
  exact consumes_pure q rest

theorem portOf_toNat (p : UInt16) : portOf (p.toNat : Int) = .ok p := by
  have hlt : p.toNat < 65536 := p.toNat_lt
  rw [portOf, if_pos (by omega), Int.toNat_natCast, UInt16.ofNat_toNat]

theorem reads_port (p : UInt16) : Reads port (Decimal.spelled p.toNat) p := by
  have hlt : p.toNat < 65536 := p.toNat_lt
  have hw : (Decimal.spelled p.toNat).toList = Decimal.digitsOf p.toNat := String.toList_ofList
  obtain ⟨d, ds, hds⟩ := List.exists_cons_of_ne_nil (l := Decimal.digitsOf p.toNat)
    Nat.toDigits_ne_nil
  have hd : isDigit d = true := isDigit_of_mem (n := p.toNat) (by simp [hds])
  have hne : ∀ c, isDigit c = false → d ≠ c := fun c hc he => by simp [← he, hd] at hc
  refine ⟨⟨d, ds, hw.trans hds, isBlank_of_isDigit hd, hne _ (by decide), hne _ (by decide)⟩,
    fun rest hrest => ?_⟩
  rw [hw]
  exact consumes_port hds hd (consumes_number (Nat.lt_trans hlt (by simp [unsignedBound])) hrest)
    (portOf_toNat p)

/-! ### Lists -/

/-- Texts in a row, with a comma before each of them but the first of all. -/
def separated : Bool → List String → List Char
  | _, [] => []
  | isFirst, w :: ws => (if isFirst then [] else [',']) ++ w.toList ++ separated false ws

theorem toList_join (ws : List String) : (Text.join "," ws).toList = separated true ws := by
  induction ws using Text.join.induct with
  | case1 => rfl
  | case2 w => simp [Text.join, separated]
  | case3 w v ws ih => simp_all [Text.join, separated]

theorem length_le_separated (ws : List String) (isFirst : Bool) :
    ws.length ≤ (separated isFirst ws).length + 1 := by
  have hfalse : ∀ ws : List String, ws.length ≤ (separated false ws).length := by
    intro ws
    induction ws with
    | nil => simp
    | cons w ws ih =>
      simp [separated]
      omega
  cases ws with
  | nil => simp
  | cons w ws =>
    have := hfalse ws
    simp [separated]
    omega

theorem isFollow_separated {ws : List String} {c : Char} (h : c ∈ [',', ']', '\x7d']) :
    IsFollow (separated false ws ++ c :: rest) := by
  cases ws with
  | nil => exact fun d hd => by obtain rfl := Option.some.inj hd; exact h
  | cons w ws => exact fun d hd => by obtain rfl := Option.some.inj hd; exact .head _

/-- The mark ahead of an element is taken. -/
theorem consumes_nextElement {c : Char} {cs : List Char} (isFirst : Bool)
    (hblank : isBlank c = false) (hend : c ≠ ']') :
    Consumes (nextElement isFirst) (if isFirst then [] else [',']) (c :: cs) true := by
  cases isFirst with
  | true =>
    refine Consumes.peekToken_bind (by simpa using hblank) ?_
    simp only [if_true, List.nil_append, List.head?_cons]
    exact consumes_pure true _
  | false =>
    refine Consumes.peekToken_bind (v := [',']) (by simp; decide) ?_
    refine Consumes.skip_bind ',' (Consumes.peekToken_bind (by simpa using hblank) ?_)
    simp only [List.nil_append, List.head?_cons]
    exact consumes_pure true _

theorem consumes_elements {item : Reader α} {write : α → String} {l : List α}
    (h : ∀ a ∈ l, Reads item (write a) a) {fuel : Nat} (hfuel : l.length ≤ fuel) (isFirst : Bool) :
    Consumes (elements item fuel isFirst) (separated isFirst (l.map write)) (']' :: rest) l := by
  induction l generalizing fuel isFirst with
  | nil =>
    cases fuel with
    | zero => exact consumes_pure [] _
    | succ fuel =>
      refine Consumes.bind (w := []) (a := false) ?_ (consumes_pure [] _)
      exact Consumes.peekToken_bind (v := []) (by simp; decide) (consumes_pure false _)
  | cons a l ih =>
    obtain ⟨fuel, rfl⟩ := Nat.exists_eq_add_one.2 (Nat.lt_of_lt_of_le (Nat.succ_pos _) hfuel)
    obtain ⟨c, cs, hw, hblank, hend, -⟩ := (h a List.mem_cons_self).begins
    have hfollow : IsFollow (separated false (l.map write) ++ ']' :: rest) :=
      isFollow_separated (by simp)
    have hitem := (h a List.mem_cons_self).consumes _ hfollow
    have htail := (ih (fun b hb => h b (List.mem_cons_of_mem _ hb))
      (Nat.le_of_succ_le_succ hfuel) false).map (a :: ·)
    rw [List.map_cons, separated, List.append_assoc]
    refine Consumes.bind (a := true) ?_ (hitem.bind htail)
    rw [hw]
    exact consumes_nextElement isFirst hblank hend

theorem consumes_listEnd (rest : List Char) : Consumes listEnd [']'] rest () := by
  refine Consumes.peekToken_bind (by simp; decide) ?_
  exact consumes_skip ']' rest

/-- A list is read if its elements are. -/
theorem reads_list {item : Reader α} {write : α → String} {l : List α}
    (h : ∀ a ∈ l, Reads item (write a) a) : Reads (list item) (writtenList (l.map write)) l := by
  have hw : (writtenList (l.map write)).toList = '[' :: (separated true (l.map write) ++ [']']) := by
    simp [writtenList, toList_join]
  refine ⟨⟨_, _, hw, by decide, by decide, by decide⟩, fun rest _ => ?_⟩
  rw [hw]
  refine Consumes.tokenOfValue_bind rfl (by decide) (Consumes.placed ?_)
  refine Consumes.enclosed '[' ']' (Consumes.stepBound_bind (consumes_elements h ?_ true))
    (consumes_listEnd rest)
  have hlength := length_le_separated (l.map write) true
  simp only [List.length_map, List.length_append] at hlength ⊢
  omega

/-! ### Records -/

variable {σ : Type} {r : Record Reader σ α} {ms : List String} {d d' : σ}

/-- Members that are read one after the other take a draft to another one. -/
inductive Collects (r : Record Reader σ α) : List String → σ → σ → Prop where
  /-- No members. -/
  | nil (d : σ) : Collects r [] d d
  /-- A member of a field that is not set yet, and more members. -/
  | cons {name value : String} {f : RecordField Reader σ} {ms : List String} {d d₁ d' : σ} :
    r.field? name = some f → f.isSet d = false → Reads (f.read d) value d₁ →
      Collects r ms d₁ d' → Collects r (writtenMember name value :: ms) d d'

theorem consumes_nextName {cs : List Char} (isFirst : Bool) :
    Consumes (nextName isFirst) (if isFirst then [] else [',']) ('"' :: cs) true := by
  cases isFirst with
  | true => exact Consumes.peekToken_bind (v := []) (by simp; decide) (consumes_pure true _)
  | false =>
    refine Consumes.peekToken_bind (v := [',']) (by simp; decide) (Consumes.skip_bind ',' ?_)
    exact Consumes.peekToken_bind (v := []) (by simp; decide) (consumes_pure true _)

theorem consumes_colon (rest : List Char) : Consumes colon [':'] rest () :=
  Consumes.peekToken_bind (by simp; decide) (consumes_skip ':' rest)

theorem Collects.consumes (h : Collects r ms d d') {fuel : Nat} (hfuel : ms.length ≤ fuel)
    (isFirst : Bool) :
    Consumes (members r fuel isFirst d) (separated isFirst ms) ('\x7d' :: rest) d' := by
  induction h generalizing fuel isFirst with
  | nil d =>
    cases fuel with
    | zero => exact consumes_pure d _
    | succ fuel =>
      refine Consumes.bind (w := []) (a := false) ?_ (consumes_pure d _)
      exact Consumes.peekToken_bind (v := []) (by simp; decide) (consumes_pure false _)
  | @cons name value f ms d d₁ d' hfield hfree hread hrest ih =>
    obtain ⟨fuel, rfl⟩ := Nat.exists_eq_add_one.2 (Nat.lt_of_lt_of_le (Nat.succ_pos _) hfuel)
    have hfollow : IsFollow (separated false ms ++ '\x7d' :: rest) :=
      isFollow_separated (by simp)
    have hvalue := hread.consumes _ hfollow
    have htail := ih (Nat.le_of_succ_le_succ hfuel) false
    have hw : separated isFirst (writtenMember name value :: ms) =
        (if isFirst then [] else [',']) ++ ((writtenText name).toList ++
          ([':'] ++ (value.toList ++ separated false ms))) := by
      simp [separated, writtenMember]
    rw [hw]
    refine Consumes.bind (a := true) ?_ ((consumes_quotedText name _).bind ?_)
    · simpa [writtenText] using consumes_nextName isFirst
    · simp only [hfield, hfree, Bool.false_eq_true, if_false]
      exact (consumes_colon _).bind (hvalue.bind htail)

/-- A field that may be missing is read where it is written. -/
theorem Collects.optional {name : String} {get : σ → Option (Option β)} {set : σ → Option β → σ}
    {read : Reader β} {write : β → String} {value : Option β}
    (hfield : r.field? name = some (optionalField name get set read))
    (hfree : (get d).isSome = false) (hread : ∀ b, Reads read (write b) b)
    (hrest : Collects r ms (value.elim d fun b => set d (some b)) d') :
    Collects r (writtenOptional name write value ++ ms) d d' := by
  cases value with
  | none => exact hrest
  | some b => exact .cons hfield hfree ((hread b).optional.map (set d)) hrest

theorem consumes_objectEnd (rest : List Char) : Consumes objectEnd ['\x7d'] rest () :=
  Consumes.peekToken_bind (by simp; decide) (consumes_skip '\x7d' rest)

/-- A record is read from its members. -/
theorem reads_record {a : α} (h : Collects r ms r.start d) (hfinish : r.finish d = .ok a) :
    Reads (record r) (writtenObject ms) a := by
  have hw : (writtenObject ms).toList = '\x7b' :: (separated true ms ++ ['\x7d']) := by
    simp [writtenObject, toList_join]
  refine ⟨⟨_, _, hw, by decide, by decide, by decide⟩, fun rest _ => ?_⟩
  rw [hw]
  refine Consumes.tokenOfValue_bind rfl (by decide) (Consumes.placed ?_)
  refine Consumes.enclosed '\x7b' '\x7d' (Consumes.stepBound_bind ?_) (consumes_objectEnd rest)
  refine (h.consumes ?_ true).bind_last ?_
  · have hlength := length_le_separated ms true
    simp only [List.length_append] at hlength ⊢
    omega
  · rw [finished, hfinish]
    exact consumes_pure a _

/-! ### Configs -/

theorem reads_textList (l : List String) : Reads textList (writtenTexts l) l :=
  reads_list fun s _ => reads_text s

/-- A folder is read back from what is written for it. -/
theorem reads_folder (f : ApiFolder) : Reads ApiFolder.read f.toJson f := by
  obtain ⟨directory, slug, middleware⟩ := f
  refine reads_record (d := ⟨some directory, some slug, middleware.map some⟩)
    (.cons rfl rfl ((reads_text directory).map _) (.cons rfl rfl ((reads_text slug).map _) ?_)) ?_
  · rw [← List.append_nil (writtenOptional _ _ _)]
    refine Collects.optional rfl rfl reads_textList ?_
    cases middleware <;> exact .nil _
  · cases middleware <;> rfl

theorem toJson_eq (c : Config) : c.toJson = writtenObject
    (writtenMember "api_folders" (writtenList (c.apiFolders.map ApiFolder.toJson)) ::
      writtenMember "port" (Decimal.spelled c.port.toNat) ::
      (writtenOptional "middleware_folder" writtenText c.middlewareFolder ++
        (writtenOptional "app_middleware" writtenTexts c.appMiddleware ++
          (writtenOptional "pre_run_scripts" writtenText c.preRunScripts ++
            (writtenOptional "rollupExternals" writtenTexts c.externals ++ []))))) := by
  simp [Config.toJson]

/-- A config is read back from what is written for it. -/
theorem reads_config (c : Config) : Reads Config.read c.toJson c := by
  rw [toJson_eq]
  obtain ⟨folders, port, middleware, app, scripts, externals⟩ := c
  refine reads_record (d := ⟨some folders, some port, middleware.map some, app.map some,
      scripts.map some, externals.map some⟩)
    (.cons rfl rfl ((reads_list fun f _ => reads_folder f).map _)
      (.cons rfl rfl ((reads_port port).map _) ?_)) ?_
  · refine Collects.optional rfl rfl reads_text (Collects.optional rfl ?_ reads_textList
      (Collects.optional rfl ?_ reads_text (Collects.optional rfl ?_ reads_textList ?_)))
    · cases middleware <;> rfl
    · cases middleware <;> cases app <;> rfl
    · cases middleware <;> cases app <;> cases scripts <;> rfl
    · cases middleware <;> cases app <;> cases scripts <;> cases externals <;> exact .nil _
  · cases middleware <;> cases app <;> cases scripts <;> cases externals <;> rfl

/-- The text of a value is read as a whole document. -/
theorem Reads.run {w : String} (h : Reads p w a) : Reader.run p w = .ok a := by
  have hend : Consumes documentEnd [] [] () :=
    Consumes.peekToken_bind (v := []) (by simp) (consumes_pure () _)
  have hwhole : Consumes (p >>= fun a => documentEnd >>= fun _ => pure a) w.toList [] a :=
    (h.consumes [] (by simp [IsFollow])).bind_last (hend.bind_last (consumes_pure a _))
  obtain ⟨line, column, hrun⟩ := hwhole 1 0
  rw [List.append_nil] at hrun
  exact congrArg Prod.fst hrun

end Reader

/-- A config is the config of its own text. -/
theorem run_toJson (c : Config) : Reader.run Config.read c.toJson = .ok c :=
  (Reader.reads_config c).run

end FileRoutes.Json
