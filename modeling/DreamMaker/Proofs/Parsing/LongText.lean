import DreamMaker.Proofs.Parsing.Grouping
import DreamMaker.Proofs.Syntax.Holes

namespace DreamMaker

open List String

namespace Text

variable {c : Char}

/-- Characters that mean something in the body of a long string. -/
def isGuarded (c : Char) : Bool := c = '\\' || c = '"' || c = '['

/-- Text with a backslash before each character that would mean something. -/
def guarded : List Char → List Char
  | [] => []
  | c :: cs => if isGuarded c then '\\' :: c :: guarded cs else c :: guarded cs

theorem eq_of_isGuarded (marked : isGuarded c = true) : c = '\\' ∨ c = '"' ∨ c = '[' := by
  simpa [isGuarded, or_assoc] using marked

theorem ne_of_not_isGuarded (plain : ¬isGuarded c = true) : c ≠ '\\' ∧ c ≠ '"' ∧ c ≠ '[' := by
  simpa [isGuarded, and_assoc] using plain

/-- The long string that holds a text. -/
def longString (text : String) : String := String.ofList ('{' :: '"' :: (guarded text.toList ++ ['"', '}']))

end Text

open Text

/-! ### From the text to the token -/

namespace Lexeme

/-- A guarded text is copied up to the marks behind it. -/
theorem stringBody_guarded (cs : List Char) :
    stringBody '"' true (guarded cs ++ ['"', '}']) = ⟨guarded cs, (guarded cs).length + 2, none⟩ := by
  unfold stringBody
  induction cs with
  | nil => rfl
  | cons _ cs ih =>
    unfold guarded
    split
    · next marked =>
      rcases eq_of_isGuarded marked with rfl | rfl | rfl <;>
        simp +arith [bodyFrom, Quoting.look, endsLine, ih, Body.after]
    · next plain =>
      obtain ⟨no_backslash, no_quote, no_bracket⟩ := ne_of_not_isGuarded plain
      simp +arith [bodyFrom, Quoting.look, no_backslash, no_quote, no_bracket, ih, Body.after]

theorem scan_longString (origin : Origin) (text : String) : ∃ span span', scan origin (longString text) =
      [⟨.quoted, longString text, some (String.ofList (guarded text.toList)), span⟩,
        ⟨.endOfText, "", none, span'⟩] := by
  let front := '"' :: (guarded text.toList ++ ['"', '}'])
  have body := stringBody_guarded text.toList
  have length : 1 + ((guarded text.toList).length + 2) = front.length := by
    simp +arith [front]
  have step : step true '{' front =
      ⟨front.length, some (.quoted, longString text, some (String.ofList (guarded text.toList)))⟩ := by
    have quoted : step true '{' front = .quoted '{' front 1
      (stringBody '"' true (guarded text.toList ++ ['"', '}'])) := rfl
    rw [quoted, body]
    simp only [Step.quoted, Step.found, length, take_length, longString]
    rfl
  let stop := Position.first.afterAll ('{' :: front)
  have rest : scanFrom origin front.length stop false front = [⟨.endOfText, "", none, origin.span stop stop⟩] := by
    have taken := scanFrom_taken origin stop false front []
    rwa [append_nil] at taken
  refine ⟨origin.span .first stop, origin.span stop stop, ?_⟩
  show scanFrom origin 0 .first true (longString text).toList = _
  have chars : (longString text).toList = '{' :: front := String.toList_ofList
  rw [chars, scanFrom, step]
  simp only [take_length]
  exact congrArg (_ :: ·) rest

end Lexeme

/-- A string with nothing behind it is one token before the end of the file. -/
theorem Token.ofLexemes_quoted (quoted : l.kind = .quoted) (string : Layout.stringKind l = .string)
    (ends : last.kind = .endOfText) :
    ofLexemes [l, last] = [{ kind := .string, span := l.span, text := l.text, value := .text (l.value?.getD "") },
      { kind := .endOfFile, span := last.span, text := last.text }] := by
  rw [ofLexemes]
  simp [Layout.tokensFrom, Layout.next, Layout.ofSource, Layout.read, Layout.give?, quoted, ends, Layout.giveString,
    Layout.give, string, Token.isEnd, Layout.endFile]

theorem Token.ofLexemes_longString {origin : Lexeme.Origin} {text : String} :
    ∃ token last, ofLexemes (Lexeme.scan origin (longString text)) = [token, last] ∧
      token.content = (.string, longString text, .text (String.ofList (guarded text.toList))) ∧
      last.kind = .endOfFile := by
  obtain ⟨span, span', scanned⟩ := Lexeme.scan_longString origin text
  have string : Layout.stringKind ⟨.quoted, longString text,
      some (String.ofList (guarded text.toList)), span⟩ = .string := by
    simp [Layout.stringKind, longString]
  have ends : (⟨.endOfText, "", none, span'⟩ : Lexeme).kind = .endOfText := rfl
  exact ⟨_, _, by rw [scanned, ofLexemes_quoted rfl string ends], rfl, rfl⟩

/-! ### From the token to the text -/

theorem Segment.split_guarded (cs : List Char) : split (guarded cs) = [.text (guarded cs)] := by
  have ahead : ∀ run, splitFrom 0 run (guarded cs) = [.text (run.reverse ++ guarded cs)] := by
    induction cs with
    | nil => simp [guarded, splitFrom]
    | cons _ cs ih =>
      intro run
      unfold guarded
      split
      · rw [splitFrom_escape, ih]
        simp
      next plain =>
      obtain ⟨no_backslash, -, no_bracket⟩ := ne_of_not_isGuarded plain
      rw [splitFrom_plain no_backslash no_bracket, ih]
      simp
  exact ahead []

namespace Glyph

/-- Behind a backslash a guarded character stands for itself. -/
theorem escape_guarded (marked : isGuarded c = true) : escape (c :: cs) = (some (.char c), 1) := by
  rcases eq_of_isGuarded marked with rfl | rfl | rfl <;> rfl

theorem decode_guarded : decode (guarded cs) = cs.map .char := by
  unfold decode
  induction cs with
  | nil => rfl
  | cons _ cs ih =>
    unfold guarded
    split
    · next marked => simp [decodeFrom, escape_guarded marked, ih]
    · next plain => simp [decodeFrom, (ne_of_not_isGuarded plain).1, ih]

end Glyph

namespace Format

theorem foldl_addGlyph_char (format : Format) (reports : Array Report) (span : Span) (cs : List Char) :
    (cs.map Glyph.char).foldl (addGlyph span) (format, reports) =
      ({ format with text := format.text ++ ofList cs }, reports) := by
  induction cs generalizing format with
  | nil => simp
  | cons _ cs ih =>
    rw [map_cons, foldl_cons, addGlyph, ih, String.ofList_cons, ← String.append_singleton, String.append_assoc]

theorem addText_guarded (cs : List Char) (span : Span) :
    addText {} (guarded cs) span = ({ text := ofList cs }, #[]) := by
  rw [addText, Glyph.decode_guarded, foldl_addGlyph_char, empty_append]

end Format

namespace Parsing

variable {e : Expr}

theorem run_stringLiteral (held : token.textValue = ofList (guarded cs)) :
    stringLiteral rules token s = (.ok (.string (ofList cs) token.span), s) := by
  have added : addSegment rules token.span {} (.text (guarded cs)) s = (.ok { text := ofList cs }, s) := by
    have nothing : reportAll #[] s = (.ok (), s) := by
      show (Except.ok (), { s with reports := s.reports ++ #[] }) = _
      rw [Array.append_empty]
    simp only [addSegment, addText, Format.addText_guarded]
    rfl
  rw [stringLiteral, held, toList_ofList, Segment.split_guarded, foldlM_cons, bind_assoc,
    Run.bind_of_ok added]
  rfl

theorem Finds.longString (spelling : String) (cs : List Char) :
    Finds (unary rules) 12 [(.string, spelling, .text (ofList (guarded cs)))] (.string (ofList cs) .unknown) := by
  intro s _ _ _ stands same follows
  obtain ⟨_, rfl, content⟩ := exists_single same
  obtain ⟨after, kept⟩ := stands.advance (by simp)
  have kind := stands.kind content
  have value : s.current.value = .text (ofList (guarded cs)) := by
    rw [stands.current]
    exact congrArg (·.2.2) content
  have held : s.current.textValue = ofList (guarded cs) := by rw [Token.textValue, value]
  refine ⟨.string (ofList cs) s.current.span, s.advance, ?_, rfl, after, kept⟩
  refine unary_of_primary (.inr (.inr (.inl kind))) ?_ (by rw [after.current]; exact follows)
  simp only [plainPrimary?, kind]
  rw [Run.bind_eq, map_eq_pure_bind]
  simp only [Run.bind_of_ok (run_stringLiteral held)]
  rfl

theorem eq_string_of_unplaced (alike : unplaced e = .string text .unknown) : ∃ span, e = .string text span := by
  rcases e with ⟨node, span⟩
  have moved := congrArg Expr.node alike
  cases node with
  | literal _ => exact ⟨span, congrArg (Expr.mk · span) moved⟩
  | _ => cases moved

/-- An operand of one token that is all of a source. -/
theorem Finds.parse (finds : ∀ rules, Finds (unary rules) 12 [token.content] e) (starts : startsOperand token.kind)
    (read : Token.ofLexemes source = [token, last]) (ends : last.kind = .endOfFile) :
    ∃ found, (Expr.parse source).result = .ok found ∧ unplaced found = e ∧ (Expr.parse source).reports = #[] := by
  have known : ∀ other ∈ [token], other.kind ≠ .invalid := by
    intro other member
    obtain rfl := mem_singleton.mp member
    rcases starts with kind | kind | kind | kind | kind | kind <;> simp [kind]
  exact Finds.parses read known ends rfl starts fun depth _ =>
    Finds.descend (Nat.zero_le 12) (Nat.le_refl 12) (finds (rulesUpTo depth))

end Parsing

open Parsing in
/-- Any text is read back, with nothing to report, from the long string with a backslash before each backslash,
double quote and opening bracket. -/
theorem Expr.parse_longString (text : String) (origin : Lexeme.Origin) :
    ∃ span, (Expr.parse (Lexeme.scan origin (longString text))).result = .ok (.string text span) ∧
      (Expr.parse (Lexeme.scan origin (longString text))).reports = #[] := by
  obtain ⟨token, _, read, content, ends⟩ := Token.ofLexemes_longString
  have finds : ∀ rules, Finds (unary rules) 12 [token.content] (.string text .unknown) := by
    intro rules
    rw [content]
    have finds := @Finds.longString rules (longString text) text.toList
    rwa [ofList_toList] at finds
  have string := congrArg Prod.fst content
  obtain ⟨_, result, alike, silent⟩ := Finds.parse finds (.inr (.inr (.inl string))) read ends
  obtain ⟨span, rfl⟩ := eq_string_of_unplaced alike
  exact ⟨span, result, silent⟩

end DreamMaker
