import FileRoutes.Proofs.TextPieces
import FileRoutes.Script.Extract
import FileRoutes.Script.Lexeme

/-!
# What texts and templates denote

A text is read lexeme by lexeme: one between quotes is a lexeme of its own, and a template is cut
into runs of plain characters and escapes. However it is cut, its parts are decoded as its pieces
are read.

## The model

* `TextOutlook` — the lexemes that may come where a value starts and inside a template.
* `textPhrase?` — the phrase that is read where a text starts, lexeme by lexeme.

## What is proved

* `exists_quotedParts`, `renders_templateParts` — the parts that are cut are decoded as the pieces
  are read.

The main statement is `evaluate_text_iff`: where the units of a text are those of a string, the
value that is read is this string exactly if the text is faithful.

## Honest scope

A source that holds the character with the number zero is not read at all, whatever stands there.
-/

namespace FileRoutes.Script

/-! ### Texts as they are read -/

/-- The lexemes that are looked for before a text, and those that take its place. None of them
may come where a value starts. -/
def Token.beforeText : List Token :=
  [templateText, elementText, statementEnd, signatureEnd, conditionalMark, escape, regexRest,
    attributeText]

/-- The lexemes that may come where a value starts and inside a template, as far as texts go. -/
structure TextOutlook where
  /-- What may come where a value starts. -/
  outside : TokenSet
  /-- What may come inside a template. -/
  inside : TokenSet
  /-- A value may be a text or a template. -/
  starts : ∀ t ∈ [Token.text, .tick], outside.has t = true
  /-- Nothing may come that would be taken first. -/
  unmixed : ∀ t ∈ Token.beforeText, outside.has t = false
  /-- A template goes on with characters or an escape, or it ends. -/
  goesOn : ∀ t ∈ [Token.templateText, .escape, .tick], inside.has t = true
  /-- A template does not go on with a regular expression. -/
  noRegex : inside.has .regexRest = false

/-- The lexeme at the start of some characters, with its length. -/
def lexemeAt? (d : Dialect) (allowed : TokenSet) (cs : List Char) : Option (Token × Nat) :=
  match Found.next? d allowed cs with
  | some (.lexeme token 0 n) => some (token, n)
  | _ => none

/-- The lexemes that are found one after the other, up to a backtick. -/
def templatePhrases (next? : List Char → Option (Token × Nat)) (offset : Nat) (cs : List Char) :
    List Phrase :=
  match next? cs with
  | none => []
  | some (token, n) =>
    let lexeme := Phrase.lexeme token ⟨offset, offset + n⟩ (cs.take n)
    if _h : token = .tick ∨ n = 0 ∨ cs = [] then [lexeme]
    else lexeme :: templatePhrases next? (offset + n) (cs.drop n)
termination_by cs.length
decreasing_by
  have hpos : 0 < cs.length := List.length_pos_iff.2 fun he => _h (.inr (.inr he))
  rw [List.length_drop]
  omega

/-- The phrase that is read where a text or a template starts. -/
def textPhrase? (d : Dialect) (o : TextOutlook) (offset : Nat) (cs : List Char) : Option Phrase :=
  (lexemeAt? d o.outside cs).map fun (token, n) =>
    let first := Phrase.lexeme token ⟨offset, offset + n⟩ (cs.take n)
    if token = .tick then
      let parts := first :: templatePhrases (lexemeAt? d o.inside) (offset + n) (cs.drop n)
      .group .template (Phrase.spanOf parts) parts
    else first

/-! ### Texts between quotes -/

theorem decodeParts_plain_cons (c : Char) (run : List Char) (parts : List TextPart) :
    decodeParts (.plain (c :: run) :: parts) =
      ([c] ++ ·) <$> decodeParts (.plain run :: parts) := by
  rw [decodeParts_plain, decodeParts_plain]
  cases decodeParts parts <;> rfl

theorem decodeParts_consPlain (c : Char) (parts : List TextPart) :
    decodeParts (TextPart.consPlain c parts) = ([c] ++ ·) <$> decodeParts parts := by
  unfold TextPart.consPlain
  split
  · exact decodeParts_plain_cons c _ _
  · exact decodeParts_plain _ _

theorem written_consPlain (c : Char) (parts : List TextPart) :
    (TextPart.consPlain c parts).flatMap TextPart.written =
      c :: parts.flatMap TextPart.written := by
  unfold TextPart.consPlain
  split <;> rfl

/-- A text between quotes is read up to its closing quote. Its parts are written as it is, and they
are decoded as its pieces are read. -/
theorem exists_quotedParts {quote : Quote} (hquote : quote ≠ .tick) (rest : List Char) :
    (ps : List Piece) → FitAll quote ps → (fuel : Nat) → ps.length < fuel →
    ∃ parts, quotedParts? quote.char fuel (writtenAll ps ++ quote.char :: rest) =
      some (parts, rest) ∧ parts.flatMap TextPart.written = writtenAll ps ∧ Renders parts ps
  | _, _, 0, h => absurd h (Nat.not_lt_zero _)
  | [], _, fuel + 1, _ => ⟨[], by simp [writtenAll, quotedParts?], rfl, .nil⟩
  | p :: ps, ⟨hfit, hps⟩, fuel + 1, hfuel => by
    have hbackslash : quote.char ≠ '\\' := by cases quote <;> decide
    cases hescape : p.isEscape with
    | true =>
      obtain ⟨qs, ps', body, rfl, hbody, hlength, hrenders⟩ := exists_escape hescape hfit rest
      obtain ⟨parts, hparts, hspelled, hrest⟩ := exists_quotedParts hquote rest ps' hps.of_append
        fuel (by simp at hfuel; omega)
      have hwritten : writtenAll (p :: (qs ++ ps')) =
          '\\' :: (p.body ++ writtenAll (qs ++ ps')) := by
        simp [writtenAll, p.written_of_isEscape hescape]
      refine ⟨.escape body :: parts, ?_, ?_, hrenders parts hrest⟩
      · rw [hwritten, List.cons_append, List.append_assoc, hbody, quotedParts?,
          if_neg hbackslash.symm, if_pos rfl, hlength]
        simp [hparts]
      · rw [← List.append_assoc, ← List.append_assoc] at hbody
        rw [hwritten, List.append_cancel_right hbody, List.flatMap_cons, hspelled]
        rfl
    | false =>
      obtain ⟨parts, hparts, hspelled, hrest⟩ := exists_quotedParts hquote rest ps hps fuel
        (by simp at hfuel; omega)
      cases p with
      | carriage feed => exact absurd hfit.1 hquote
      | plain c =>
        obtain ⟨hc, hbs, hcr, hlf⟩ := hfit
        rw [if_neg hquote] at hlf
        have hplain : isPlain quote.char c = true := by simp [isPlain, hc, hbs, hcr, hlf]
        have hwritten : writtenAll (.plain c :: ps) = c :: writtenAll ps := rfl
        refine ⟨TextPart.consPlain c parts, ?_, ?_,
          .plain rfl hrest (decodeParts_consPlain c parts)⟩
        · rw [hwritten, List.cons_append, quotedParts?, if_neg hc, if_neg hbs, if_pos hplain,
            hparts]
          rfl
        · rw [written_consPlain, hspelled, hwritten]
      | _ => contradiction

/-! ### Templates -/

section templates

variable {d : Dialect} {o : TextOutlook} {cs : List Char}

/-- Where nothing is looked for first, a quote starts a lexeme of its own shape. -/
theorem lexemeAt_quote {allowed : TokenSet} (quote : Quote)
    (hearly : Found.early? d allowed (quote.char :: cs) = none)
    (hregex : allowed.has .regexRest = false) :
    lexemeAt? d allowed (quote.char :: cs) = Found.shaped? allowed (quote.char :: cs) := by
  have hgap : isGap quote.char = false := by cases quote <;> decide
  have hcomment : commentLength? (quote.char :: cs) = none := by cases quote <;> rfl
  have hne : quote.char ≠ '\\' := by cases quote <;> decide
  have hnext : Found.next? d allowed (quote.char :: cs) =
      (Found.shaped? allowed (quote.char :: cs)).map fun (t, n) => .lexeme t 0 n := by
    unfold Found.next?
    rw [hearly, hregex, Option.none_or]
    split
    · next _ _ hcs _ => exact absurd (List.cons.inj hcs).1 hne
    · contradiction
    · simp only [List.takeWhile_cons, hgap, Bool.false_eq_true, if_false, List.length_nil,
        List.drop_zero, hcomment, reduceCtorEq]
  rw [lexemeAt?, hnext]
  cases Found.shaped? allowed (quote.char :: cs) <;> rfl

theorem shaped_tick {allowed : TokenSet} (h : allowed.has .tick = true) :
    Found.shaped? allowed ('\x60' :: cs) = some (.tick, 1) := by
  have hmark : Found.mark? allowed ('\x60' :: cs) = some (.tick, 1) := by
    simp [Found.mark?, marksFrom, h]
  have hnumeral : numeralLength ('\x60' :: cs) = 0 := by
    simp [numeralLength, fractionLength, wholeLength, integerLength, numberLength]
  simp [Found.shaped?, hmark, hnumeral]

theorem lexemeAt_tick (cs : List Char) :
    lexemeAt? d o.inside ('\x60' :: cs) = some (.tick, 1) := by
  have hearly : Found.early? d o.inside ('\x60' :: cs) = none := by
    rw [Found.early?, if_pos (o.goesOn .templateText (by decide))]
    rfl
  exact (lexemeAt_quote .tick hearly o.noRegex).trans
    (shaped_tick (o.goesOn .tick (by decide)))

theorem lexemeAt_escape {n : Nat} (h : escapeLength? cs = some n) :
    lexemeAt? d o.inside ('\\' :: cs) = some (.escape, n + 1) := by
  have hearly : Found.early? d o.inside ('\\' :: cs) = none := by
    rw [Found.early?, if_pos (o.goesOn .templateText (by decide))]
    rfl
  unfold lexemeAt? Found.next?
  rw [hearly, o.goesOn .escape (by decide)]
  simp [h]

theorem lexemeAt_plain {n : Nat} (h : templatePlain cs = n + 1) :
    lexemeAt? d o.inside cs = some (.templateText, n + 1) := by
  have hearly : Found.early? d o.inside cs = some (.lexeme .templateText 0 (n + 1)) := by
    rw [Found.early?, if_pos (o.goesOn .templateText (by decide)), h]
    rfl
  unfold lexemeAt? Found.next?
  rw [hearly]
  rfl

theorem templatePhrases_cons {next? : List Char → Option (Token × Nat)} {token : Token} {n : Nat}
    (h : next? cs = some (token, n + 1)) (htoken : token ≠ .tick) (hcs : cs ≠ []) (offset : Nat) :
    templatePhrases next? offset cs =
      .lexeme token ⟨offset, offset + (n + 1)⟩ (cs.take (n + 1)) ::
        templatePhrases next? (offset + (n + 1)) (cs.drop (n + 1)) := by
  rw [templatePhrases, h]
  simp [htoken, hcs]

theorem templatePhrases_tick {next? : List Char → Option (Token × Nat)} {n : Nat}
    (h : next? cs = some (.tick, n)) (offset : Nat) :
    templatePhrases next? offset cs = [.lexeme .tick ⟨offset, offset + n⟩ (cs.take n)] := by
  rw [templatePhrases, h]
  simp

theorem templatePlain_cons {c next : Char} (hquote : c ≠ '\x60') (hbackslash : c ≠ '\\')
    (hhole : ¬ (c = '$' ∧ next = '\x7b')) (tail : List Char) :
    templatePlain (c :: next :: tail) = templatePlain (next :: tail) + 1 := by
  rw [templatePlain]
  · rintro _ rfl ⟨⟩
    exact hhole ⟨rfl, rfl⟩
  · exact hquote
  · exact hbackslash

/-- A plain character of a template is read as it is written, whatever run of plain characters it
is taken with. -/
theorem decodeParts_templatePhrases_cons {c : Char}
    (h : templatePlain (c :: cs) = templatePlain cs + 1) (offset : Nat) :
    decodeParts (Phrase.templateParts (templatePhrases (lexemeAt? d o.inside) offset (c :: cs))) =
      ([c] ++ ·) <$> decodeParts
        (Phrase.templateParts (templatePhrases (lexemeAt? d o.inside) (offset + 1) cs)) := by
  have hcons := templatePhrases_cons (lexemeAt_plain (d := d) (o := o) h) (by decide)
    (List.cons_ne_nil c cs) offset
  rw [hcons]
  cases hrun : templatePlain cs with
  | zero => exact decodeParts_plain _ _
  | succ n =>
    have hne : cs ≠ [] := by
      rintro rfl
      contradiction
    have hoffset : offset + (n + 1 + 1) = offset + 1 + (n + 1) := by omega
    rw [templatePhrases_cons (lexemeAt_plain hrun) (by decide) hne, hoffset]
    exact decodeParts_plain_cons c (cs.take (n + 1)) _

/-- A line break is read as one character, whether or not it is written as two. -/
theorem renders_carriage {rest : List Char} {ps : List Piece} (feed : Bool)
    (hrest : ∀ offset, Renders (Phrase.templateParts (templatePhrases (lexemeAt? d o.inside) offset
      (writtenAll ps ++ '\x60' :: rest))) ps) (offset : Nat) :
    Renders (Phrase.templateParts (templatePhrases (lexemeAt? d o.inside) offset
      (writtenAll (.carriage feed :: ps) ++ '\x60' :: rest))) (.carriage feed :: ps) := by
  have hreturn : ∀ cs, templatePlain ('\r' :: cs) = templatePlain cs + 1 := fun _ => rfl
  have hfeed : ∀ cs, templatePlain ('\n' :: cs) = templatePlain cs + 1 := fun _ => rfl
  cases feed with
  | false =>
    exact .plain rfl (hrest (offset + 1)) (decodeParts_templatePhrases_cons (hreturn _) offset)
  | true =>
    have hwritten : writtenAll (.carriage true :: ps) ++ '\x60' :: rest =
        '\r' :: '\n' :: (writtenAll ps ++ '\x60' :: rest) := rfl
    refine .plain rfl (hrest (offset + 1 + 1)) ?_
    rw [hwritten, decodeParts_templatePhrases_cons (hreturn _),
      decodeParts_templatePhrases_cons (hfeed _)]
    cases decodeParts _ <;> rfl

/-- The parts that are read of a template are decoded as its pieces are read. -/
theorem renders_templateParts (rest : List Char) : (ps : List Piece) → FitAll .tick ps →
    (offset : Nat) → Renders (Phrase.templateParts (templatePhrases (lexemeAt? d o.inside) offset
      (writtenAll ps ++ '\x60' :: rest))) ps
  | [], _, offset => by
    rw [writtenAll, List.flatMap_nil, List.nil_append, templatePhrases_tick (lexemeAt_tick rest)]
    exact .nil
  | p :: ps, ⟨hfit, hps⟩, offset => by
    obtain ⟨tail, htail⟩ := exists_firstOf_cons .tick ps rest
    cases hescape : p.isEscape with
    | true =>
      obtain ⟨qs, ps', body, rfl, hbody, hlength, hrenders⟩ := exists_escape hescape hfit rest
      have hrest := renders_templateParts rest ps' hps.of_append (offset + (body.length + 1))
      have hwritten : writtenAll (p :: (qs ++ ps')) ++ '\x60' :: rest =
          '\\' :: (p.body ++ (writtenAll (qs ++ ps') ++ '\x60' :: rest)) := by
        simp [writtenAll, p.written_of_isEscape hescape]
      have hphrases := templatePhrases_cons (lexemeAt_escape (d := d) (o := o) hlength) (by decide)
        (List.cons_ne_nil _ _) offset
      rw [List.take_succ_cons, List.take_left, List.drop_succ_cons, List.drop_left] at hphrases
      rw [hwritten, ← Quote.char, hbody, hphrases]
      exact hrenders _ hrest
    | false =>
      have hrest := renders_templateParts rest ps hps
      cases p with
      | plain c =>
        obtain ⟨hc, hbs, -, hhole⟩ := hfit
        rw [if_pos rfl] at hhole
        have hplain := templatePlain_cons hc hbs hhole tail
        rw [← htail] at hplain
        exact .plain rfl (hrest (offset + 1)) (decodeParts_templatePhrases_cons hplain offset)
      | carriage feed => exact renders_carriage feed hrest offset
      | _ => contradiction
  termination_by ps => ps.length

end templates

/-! ### The value that is read -/

theorem evaluate_text_ok_iff {span : Span} {parts : List TextPart} {s : String} :
    evaluate (.text span parts) = .ok (.text s) ↔ decodeParts parts = .ok s.toList := by
  rw [evaluate_text, map_ok_iff]
  constructor
  · rintro ⟨cs, hcs, ⟨⟩⟩
    rwa [String.toList_ofList]
  · exact fun hcs => ⟨_, hcs, by rw [String.ofList_toList]⟩

/-- Where a value starts with a quote, nothing is looked for first. -/
theorem early_outside (d : Dialect) (o : TextOutlook) (quote : Quote) (cs : List Char) :
    Found.early? d o.outside (quote.char :: cs) = none := by
  have hmarkup : markupComment? (quote.char :: cs) = none := by cases quote <;> rfl
  simp [Found.early?, hmarkup, o.unmixed .templateText (by decide),
    o.unmixed .elementText (by decide), o.unmixed .statementEnd (by decide),
    o.unmixed .signatureEnd (by decide), o.unmixed .conditionalMark (by decide)]

namespace SourceText

variable {t : SourceText}

theorem written_append (t : SourceText) (rest : List Char) :
    t.written ++ rest = t.quote.char :: (writtenAll t.pieces ++ t.quote.char :: rest) := by
  simp [written]

/-- What stands behind the opening quote is long enough for the pieces. -/
theorem length_pieces_lt (t : SourceText) (rest : List Char) :
    t.pieces.length < (writtenAll t.pieces ++ t.quote.char :: rest).length + 1 := by
  have := length_le_writtenAll t.pieces
  simp only [List.length_append, List.length_cons]
  omega

/-- A text between quotes ends at its closing quote. -/
theorem quotedLength_written (hquote : t.quote ≠ .tick) (rest : List Char) :
    quotedLength (t.written ++ rest) = t.written.length := by
  obtain ⟨parts, hparts, -, -⟩ :=
    exists_quotedParts hquote rest t.pieces t.fit _ (t.length_pieces_lt rest)
  rw [written_append, quotedLength]
  simp only [hparts]
  simp only [written, List.length_cons, List.length_append, List.length_nil]
  omega

/-- The parts of a text between quotes are written as it is, and they are decoded as its pieces are
read. -/
theorem textParts_written (hquote : t.quote ≠ .tick) :
    (Phrase.textParts t.written).flatMap TextPart.written = writtenAll t.pieces ∧
      Renders (Phrase.textParts t.written) t.pieces := by
  obtain ⟨parts, hparts, hspelled, hrenders⟩ :=
    exists_quotedParts hquote [] t.pieces t.fit _ (t.length_pieces_lt [])
  have htextParts : Phrase.textParts t.written = parts := by
    rw [written, Phrase.textParts, hparts]
    rfl
  rw [htextParts]
  exact ⟨hspelled, hrenders⟩

/-- Where a value starts with a quote, the lexeme is told by its shape. -/
theorem lexemeAt_written (t : SourceText) (d : Dialect) (o : TextOutlook) (rest : List Char) :
    lexemeAt? d o.outside (t.written ++ rest) = Found.shaped? o.outside (t.written ++ rest) := by
  rw [written_append]
  exact lexemeAt_quote t.quote (early_outside d o t.quote _) (o.unmixed .regexRest (by decide))

/-- A text between quotes is read as one lexeme. -/
theorem textPhrase_of_ne_tick (hquote : t.quote ≠ .tick) (d : Dialect) (o : TextOutlook)
    (offset : Nat) (rest : List Char) :
    textPhrase? d o offset (t.written ++ rest) =
      some (.lexeme .text ⟨offset, offset + t.written.length⟩ t.written) := by
  have hchar : t.quote.char = '"' ∨ t.quote.char = '\'' := by
    cases h : t.quote with
    | single => exact .inr rfl
    | double => exact .inl rfl
    | tick => contradiction
  have hlength := quotedLength_written hquote rest
  have hne : t.written.length ≠ 0 := by simp [written]
  have hshaped : Found.shaped? o.outside (t.written ++ rest) = some (.text, t.written.length) := by
    rw [written_append] at hlength ⊢
    simp [Found.shaped?, hchar, hlength, hne, o.unmixed .attributeText (by decide),
      o.starts .text (by decide)]
  rw [textPhrase?, lexemeAt_written, hshaped]
  simp

/-- A template is read as a phrase of its own, whose parts are decoded as its pieces are read. -/
theorem exists_textPhrase_of_tick (hquote : t.quote = .tick) (d : Dialect) (o : TextOutlook)
    (offset : Nat) (rest : List Char) :
    ∃ span parts, textPhrase? d o offset (t.written ++ rest) = some (.group .template span parts) ∧
      Renders (Phrase.templateParts parts) t.pieces := by
  have hfit := t.fit
  have hlexeme := lexemeAt_written t d o rest
  rw [hquote] at hfit
  rw [written_append, hquote] at hlexeme ⊢
  have htick := hlexeme.trans (shaped_tick (o.starts .tick (by decide)))
  let parts := Phrase.lexeme .tick ⟨offset, offset + 1⟩ ['\x60'] ::
    templatePhrases (lexemeAt? d o.inside) (offset + 1) (writtenAll t.pieces ++ '\x60' :: rest)
  have hrenders : Renders (Phrase.templateParts parts) t.pieces :=
    renders_templateParts rest t.pieces hfit (offset + 1)
  refine ⟨Phrase.spanOf parts, parts, ?_, hrenders⟩
  rw [textPhrase?, htick]
  rfl

end SourceText

/-- A text or a template is read up to its closing quote, and the value that is read is the string
it denotes exactly if the text is faithful. -/
theorem evaluate_text_iff (t : SourceText) {s : String} (hs : utf16 s.toList = t.units)
    (d : Dialect) (o : TextOutlook) (offset : Nat) (source rest : List Char) :
    ∃ phrase, textPhrase? d o offset (t.written ++ rest) = some phrase ∧
      (evaluate (phrase.toExpr source) = .ok (.text s) ↔ t.Faithful) := by
  by_cases hquote : t.quote = .tick
  · obtain ⟨span, parts, hphrase, hrenders⟩ :=
      SourceText.exists_textPhrase_of_tick hquote d o offset rest
    exact ⟨_, hphrase, evaluate_text_ok_iff.trans (decodeParts_renders_iff hrenders hs)⟩
  · have hrenders := (SourceText.textParts_written hquote).2
    exact ⟨_, SourceText.textPhrase_of_ne_tick hquote d o offset rest,
      evaluate_text_ok_iff.trans (decodeParts_renders_iff hrenders hs)⟩

theorem evaluate_text_iff_sample :
    utf16 "A".toList = [0x41] ∧
      ∃ o : TextOutlook, ∃ phrase, textPhrase? .typed o 0 "`\\x41`;".toList = some phrase ∧
        evaluate (phrase.toExpr []) = .ok (.text "A") := by
  let o : TextOutlook :=
    { outside := .union (.single Token.text.ctorIdx) (.single Token.tick.ctorIdx)
      inside := .union (.single Token.templateText.ctorIdx)
        (.union (.single Token.escape.ctorIdx) (.single Token.tick.ctorIdx))
      starts := by decide
      unmixed := by decide
      goesOn := by decide
      noRegex := by decide }
  let t : SourceText :=
    { quote := .tick
      pieces := [.byte ['4', '1']]
      fit := ⟨⟨rfl, by decide⟩, trivial⟩ }
  have hnumber : Decimal.valueOf 16 ['4', '1'] = 0x41 := by decide
  have hfaithful : t.Faithful :=
    { whole := by simp [t, Piece.Denotes, Piece.number?, IsSurrogate, hnumber]
      fed := by simp [t, Piece.isCarriage]
      apart := by simp [t] }
  obtain ⟨phrase, hphrase, hvalue⟩ :=
    evaluate_text_iff t (s := "A") rfl .typed o 0 [] [';']
  exact ⟨by decide, o, phrase, hphrase, hvalue.2 hfaithful⟩

/-- Two escapes that are a pair together are refused, a question mark with a backslash takes the
separator of lines behind it along, and the end of a line of a template keeps its carriage
return. -/
theorem evaluate_text_astray :
    (∃ t : SourceText, t.written = "'\\uD83D\\uDE00'".toList ∧ utf16 "😀".toList = t.units ∧
      evaluate (Phrase.toExpr [] (.lexeme .text ⟨0, 14⟩ t.written)) =
        .error (.invalidEscape "uD83D".toList)) ∧
    (∃ t : SourceText, t.written = "'\\?\u2028'".toList ∧ utf16 "?\u2028".toList = t.units ∧
      evaluate (Phrase.toExpr [] (.lexeme .text ⟨0, 5⟩ t.written)) = .ok (.text "?")) ∧
    (∃ t : SourceText, t.written = "`\r\n`".toList ∧ utf16 "\n".toList = t.units ∧
      evaluate (Phrase.toExpr [] (.group .template ⟨0, 4⟩ [.lexeme .tick ⟨0, 1⟩ ['\x60'],
        .lexeme .templateText ⟨1, 3⟩ ['\r', '\n'], .lexeme .tick ⟨3, 4⟩ ['\x60']])) =
        .ok (.text "\r\n")) := by
  have hpair : FitAll .single [.unit "D83D".toList, .unit "DE00".toList] :=
    ⟨⟨rfl, by decide⟩, ⟨rfl, by decide⟩, trivial⟩
  have hseparator : FitAll .single [.simple '?', .plain '\u2028'] :=
    ⟨⟨by decide, by decide, rfl, by decide⟩, ⟨by decide, by decide, by decide, by decide⟩, trivial⟩
  have hreturn : FitAll .tick [.carriage true] := ⟨⟨rfl, by decide⟩, trivial⟩
  exact ⟨⟨⟨_, _, hpair⟩, rfl, rfl, rfl⟩, ⟨⟨_, _, hseparator⟩, rfl, rfl, rfl⟩,
    ⟨_, _, hreturn⟩, rfl, rfl, rfl⟩

end FileRoutes.Script
