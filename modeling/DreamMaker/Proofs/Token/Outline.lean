import DreamMaker.Proofs.Token.Spelling

/-!
Lines of text, some with a block of lines of their own, in two styles: blocks are indented, or all stands on one
line with blocks in braces. In both the tokens of the text are those of the lines, with tokens of the style behind
each line and around each block.
-/

namespace DreamMaker

open List

variable {depth : Nat} {s : Layout}

/-- A line without its end. It starts with a word, and is read as its tokens. -/
structure TextLine where
  chars : List Char
  contents : List Token.Content
  starts : ∃ c more, chars = c :: more ∧ Text.startsWord c = true
  filled : contents ≠ []
  valid : ∀ content ∈ contents, content.1 ≠ .invalid
  lexes : ∀ (origin : Lexeme.Origin) (levels : List Nat) {rest : List Char}, Closed rest →
    Layout.Lexes origin levels 0 0 (chars ++ rest) contents rest

variable {origin : Lexeme.Origin}

/-- Lines, some of which have a block of lines of their own. -/
inductive Outline
  | leaf (line : TextLine)
  | block (head : TextLine) (body : Outline)
  | both (first second : Outline)

/-- How the blocks of a text are marked. -/
inductive Style
  | indented
  | braced
deriving DecidableEq, Repr

namespace Outline

def tabs (depth : Nat) : List Char := List.replicate depth '\t'

/-- The text with each line on its own, and one more tab in each block. -/
def indented (depth : Nat) : Outline → List Char
  | .leaf line => tabs depth ++ line.chars ++ ['\n']
  | .block head body => tabs depth ++ head.chars ++ '\n' :: body.indented (depth + 1)
  | .both first second => first.indented depth ++ second.indented depth

/-- The text on one line, with semicolons behind lines without a block, and braces around blocks. -/
def braced : Outline → List Char
  | .leaf line => line.chars ++ [';']
  | .block head body => head.chars ++ ' ' :: '{' :: ' ' :: (body.braced ++ [' ', '}'])
  | .both first second => first.braced ++ ' ' :: second.braced

/-- The first line of an outline. -/
def head : Outline → TextLine
  | .leaf line => line
  | .block head _ => head
  | .both first _ => first.head

/-- The text of an outline, up to the end of its last line. -/
def render (outline : Outline) : Style → List Char
  | .indented => outline.indented 0
  | .braced => outline.braced ++ ['\n']

/-- The text of outlines, one behind the other. -/
def text (style : Style) (outlines : List Outline) : String := String.ofList (outlines.flatMap (·.render style))

end Outline

namespace Style

/-- The token behind a line without a block. -/
def ending : Style → Token.Kind
  | .indented => .newline
  | .braced => .symbol .semicolon

/-- The tokens before the lines of a block. -/
def opening : Style → List Token.Kind
  | .indented => [.indent, .newline]
  | .braced => [.symbol .leftBrace]

/-- The tokens behind the lines of a block. -/
def closing : Style → List Token.Kind
  | .indented => [.dedent]
  | .braced => [.newline, .symbol .rightBrace]

end Style

/-- Tokens that an outline is made of. -/
inductive Spells (style : Style) : Outline → List Token → Prop
  | leaf {line : TextLine} {front : List Token} {ending : Token} (words : front.map Token.content = line.contents)
      (ends : ending.kind = style.ending) : Spells style (.leaf line) (front ++ [ending])
  | block {head : TextLine} {body : Outline} {front opening inside closing : List Token}
      (words : front.map Token.content = head.contents) (opens : opening.map (·.kind) = style.opening)
      (spells : Spells style body inside) (closes : closing.map (·.kind) = style.closing) :
      Spells style (.block head body) (front ++ (opening ++ (inside ++ closing)))
  | both {first second : Outline} {tokens tokens' : List Token} (front : Spells style first tokens)
      (back : Spells style second tokens') : Spells style (.both first second) (tokens ++ tokens')

/-- Tokens that outlines are made of, with line ends between them. -/
inductive SpellsAll (style : Style) : List Outline → List Token → Prop
  | nil : SpellsAll style [] []
  | cons {outline : Outline} {more : List Outline} {tokens gap tokens' : List Token}
      (first : Spells style outline tokens) (between : ∀ token ∈ gap, token.kind = .newline)
      (rest : SpellsAll style more tokens') : SpellsAll style (outline :: more) (tokens ++ (gap ++ tokens'))

variable {outline : Outline} {rest : List Char}

theorem Spells.exists_head (spells : Spells style outline tokens) :
    ∃ token more, tokens = token :: more ∧ outline.head.contents.head? = some token.content := by
  induction spells with
  | @leaf line front _ words _ =>
    obtain ⟨content, contents, split⟩ := exists_cons_of_ne_nil line.filled
    obtain ⟨token, more, rfl, same, -⟩ := map_eq_cons_iff.mp (words.trans split)
    exact ⟨token, _, rfl, by rw [Outline.head, split, same]; rfl⟩
  | @block head _ front _ _ _ words =>
    obtain ⟨content, contents, split⟩ := exists_cons_of_ne_nil head.filled
    obtain ⟨token, more, rfl, same, -⟩ := map_eq_cons_iff.mp (words.trans split)
    exact ⟨token, _, rfl, by rw [Outline.head, split, same]; rfl⟩
  | both front _ ih =>
    obtain ⟨token, more, rfl, same⟩ := ih
    exact ⟨token, _, rfl, same⟩

theorem Spells.kind_ne_invalid (spells : Spells style outline tokens) :
    ∀ token ∈ tokens, token.kind ≠ .invalid := by
  have in_line {line : TextLine} {front : List Token} (words : front.map Token.content = line.contents) :
      ∀ token ∈ front, token.kind ≠ .invalid := fun token member =>
    line.valid token.content (words ▸ mem_map_of_mem member)
  have in_layout {kinds : List Token.Kind} (valid : .invalid ∉ kinds) {marks : List Token}
      (same : marks.map (·.kind) = kinds) : ∀ token ∈ marks, token.kind ≠ .invalid := by
    rintro token member invalid
    exact valid (invalid ▸ same ▸ mem_map_of_mem member)
  induction spells with
  | leaf words ends =>
    intro token member
    rcases mem_append.mp member with member | member
    · exact in_line words token member
    · rw [mem_singleton.mp member, ends]
      cases style <;> decide
  | block words opens _ closes ih =>
    have opening := in_layout (by cases style <;> decide) opens
    have closing := in_layout (by cases style <;> decide) closes
    intro token member
    simp only [mem_append] at member
    rcases member with member | member | member | member
    · exact in_line words token member
    · exact opening token member
    · exact ih token member
    · exact closing token member
  | both _ _ ih_first ih_second =>
    intro token member
    rcases mem_append.mp member with member | member
    · exact ih_first token member
    · exact ih_second token member

theorem SpellsAll.kind_ne_invalid
    (spells : SpellsAll style outlines tokens) : ∀ token ∈ tokens, token.kind ≠ .invalid := by
  induction spells with
  | nil => simp
  | cons first between _ ih =>
    intro token member
    simp only [mem_append] at member
    rcases member with member | member | member
    · exact first.kind_ne_invalid token member
    · rw [between token member]
      decide
    · exact ih token member

/-! ### The start of a line -/

open Outline (tabs)

/-- A text that is at its end, or starts with a line that is indented this far. -/
inductive StartsAt : Nat → List Char → Prop
  | ends : StartsAt 0 []
  | line (level : Nat) {c : Char} {cs : List Char} (starts : Text.startsWord c = true) :
      StartsAt level (tabs level ++ c :: cs)

variable {level : Nat}

namespace TextLine

theorem exists_head (line : TextLine) (rest : List Char) :
    ∃ c more, line.chars ++ rest = c :: more ∧ Text.startsWord c = true := by
  obtain ⟨c, more, chars, starts⟩ := line.starts
  exact ⟨c, more ++ rest, by rw [chars, cons_append], starts⟩

end TextLine

namespace Outline

theorem startsAt_indented (outline : Outline) (rest : List Char) :
    StartsAt depth (outline.indented depth ++ rest) := by
  induction outline generalizing rest with
  | leaf line =>
    obtain ⟨c, more, chars, starts⟩ := line.exists_head ('\n' :: rest)
    have text : (Outline.leaf line).indented depth ++ rest = tabs depth ++ (line.chars ++ '\n' :: rest) := by
      simp [indented]
    rw [text, chars]
    exact .line depth starts
  | block head body =>
    obtain ⟨c, more, chars, starts⟩ := head.exists_head ('\n' :: (body.indented (depth + 1) ++ rest))
    have text : (Outline.block head body).indented depth ++ rest =
        tabs depth ++ (head.chars ++ '\n' :: (body.indented (depth + 1) ++ rest)) := by
      simp [indented]
    rw [text, chars]
    exact .line depth starts
  | both _ _ ih =>
    rw [indented, append_assoc]
    exact ih _

theorem exists_head_braced (outline : Outline) (rest : List Char) :
    ∃ c more, outline.braced ++ rest = c :: more ∧ Text.startsWord c = true := by
  induction outline generalizing rest with
  | leaf line =>
    rw [braced, append_assoc]
    exact line.exists_head _
  | block head _ =>
    rw [braced, append_assoc]
    exact head.exists_head _
  | both _ _ ih =>
    rw [braced, append_assoc]
    exact ih _

end Outline

namespace Lexeme

variable {cs : List Char}

theorem step_tabs (starts : Text.startsWord c = true) :
    step true '\t' (tabs more ++ c :: cs) = ⟨more, some (.blank, String.ofList ('\t' :: tabs more), none)⟩ := by
  have gap := (Solid.of_startsWord starts).gap
  have run : (tabs more ++ c :: cs).takeWhile isGap = tabs more := by
    rw [takeWhile_append_of_pos (by simp [tabs, isGap]), takeWhile_cons_of_neg (by simp [gap]), append_nil]
  have length : (tabs more).length = more := length_replicate
  have behind : (tabs more ++ c :: cs).drop more = c :: cs := drop_left' length
  have no_comment : commentsLength? (c :: cs) = some 0 := by
    have other : c ≠ '/' := by
      rintro rfl
      cases starts
    simp [commentsLength?, remarkLength?, gap, other]
  have no_end : endsLine c = false := by
    cases line : endsLine c with
    | false => rfl
    | true =>
      simp only [endsLine, Bool.or_eq_true, decide_eq_true_eq] at line
      rcases line with rfl | rfl <;> cases starts
  have taken : (tabs more ++ c :: cs).take more = tabs more := take_left' length
  have gap_step : step true '\t' (tabs more ++ c :: cs) = gapStep true '\t' (tabs more ++ c :: cs) := rfl
  rw [gap_step, gapStep]
  simp [run, length, no_comment, atLineEnd, no_end]

/-- The end of a line is a lexeme, behind which a line starts. -/
theorem scanFrom_newline : ∃ place' span,
    scanFrom origin 0 place false ('\n' :: rest) = ⟨.newline, "\n", none, span⟩ ::
      scanFrom origin 0 place' true rest :=
  ⟨_, _, rfl⟩

/-- The indentation of a line is the number of its tabs. -/
theorem lineStart_scanFrom (starts : StartsAt level cs) :
    ∃ place', Layout.lineStart (scanFrom origin 0 place true cs) =
      (level, scanFrom origin 0 place' false (cs.drop level)) := by
  cases starts with
  | ends => exact ⟨place, rfl⟩
  | @line level c cs starts =>
    cases level with
    | zero =>
      refine ⟨place, ?_⟩
      have word : ∃ l more, scanFrom origin 0 place false (c :: cs) = l :: more ∧ l.kind = .word := by
        rw [scanFrom, step_of_startsWord starts]
        exact ⟨_, _, rfl, rfl⟩
      obtain ⟨l, more, scanned, kind⟩ := word
      show Layout.lineStart (scanFrom origin 0 place true (c :: cs)) = (0, scanFrom origin 0 place false (c :: cs))
      rw [(Solid.of_startsWord starts).scanFrom, scanned]
      simp [Layout.lineStart, kind]
    | succ level =>
      have split : tabs (level + 1) ++ c :: cs = '\t' :: (tabs level ++ c :: cs) := rfl
      have length : (tabs level).length = level := length_replicate
      have behind : (tabs level ++ c :: cs).drop level = c :: cs := drop_left' length
      obtain ⟨place', span, scanned⟩ : ∃ place' span, scanFrom origin 0 place true
        ('\t' :: (tabs level ++ c :: cs)) =
          ⟨.blank, String.ofList ('\t' :: tabs level), none, span⟩ :: scanFrom origin 0 place' false (c :: cs) := by
        rw [scanFrom, step_tabs starts]
        have taken := fun place' => scanFrom_taken origin place' false (tabs level) (c :: cs)
        rw [length] at taken
        exact ⟨_, _, congrArg (_ :: ·) (taken _)⟩
      refine ⟨place', ?_⟩
      rw [split, scanned, Layout.lineStart, if_pos rfl, String.length_ofList, length_cons, length, drop_succ_cons,
        behind]

end Lexeme

/-! ### Indented blocks -/

namespace Layout

/-- The indentations that are open at some depth. -/
def levelsTo : Nat → List Nat
  | 0 => [0]
  | depth + 1 => (depth + 1) :: levelsTo depth

theorem head?_levelsTo : (levelsTo depth).head? = some depth := by
  cases depth <;> rfl

theorem length_levelsTo : (levelsTo depth).length = depth + 1 := by
  induction depth with
  | zero => rfl
  | succ depth ih => rw [levelsTo, length_cons, ih]

theorem mem_levelsTo (below : level ≤ depth) : level ∈ levelsTo depth := by
  induction depth with
  | zero =>
    obtain rfl : level = 0 := by omega
    exact mem_singleton_self 0
  | succ depth ih =>
    by_cases same : level = depth + 1
    · rw [same]
      exact mem_cons_self
    · exact mem_cons_of_mem _ (ih (by omega))

theorem dropWhile_levelsTo (below : level ≤ depth) : (levelsTo depth).dropWhile (level < ·) = levelsTo level := by
  induction depth with
  | zero =>
    obtain rfl : level = 0 := by omega
    rfl
  | succ depth ih =>
    by_cases same : level = depth + 1
    · subst same
      rw [levelsTo, dropWhile_cons_of_neg (by simp)]
    · rw [levelsTo, dropWhile_cons_of_pos (by simp; omega)]
      exact ih (by omega)

/-- The next line of a text stands before a state, its indentation read. Blocks from `depth` down to its level are
still to be closed. -/
structure Before (origin : Lexeme.Origin) (level depth : Nat) (s : Layout) (cs : List Char) : Prop where
  starts : StartsAt level cs
  queue : s.queue.map (·.kind) = List.replicate (depth - level) .dedent
  levels : s.levels = levelsTo level
  nesting : s.nesting = 0
  source : ∃ place, s.source = Lexeme.scanFrom origin 0 place false (cs.drop level)

theorem Before.at_line (before : Before origin depth depth s (tabs depth ++ rest)) :
    At origin (levelsTo depth) 0 s rest := by
  obtain ⟨place, source⟩ := before.source
  have empty : s.queue.map (·.kind) = [] := by rw [before.queue, Nat.sub_self, replicate_zero]
  have behind : (tabs depth ++ rest).drop depth = rest := drop_left' length_replicate
  exact ⟨map_eq_nil_iff.mp empty, before.levels, before.nesting, place, by rw [source, behind]⟩

section

variable (at_ : At origin (levelsTo depth) 0 s ('\n' :: rest))

include at_

/-- What the end of a line does. -/
theorem At.next_eq_startLine (starts : StartsAt level rest) :
    ∃ (l : Lexeme) (t : Layout), s.next = t.startLine l ∧ t.queue = [] ∧
      t.levels = levelsTo depth ∧ t.nesting = 0 ∧
      ∃ place, lineStart t.source = (level, Lexeme.scanFrom origin 0 place false (rest.drop level)) := by
  obtain ⟨place, source⟩ := at_.source
  obtain ⟨place', span, scanned⟩ := Lexeme.scanFrom_newline
  obtain ⟨place'', line⟩ := Lexeme.lineStart_scanFrom starts
  refine ⟨⟨.newline, "\n", none, span⟩,
    { s with source := Lexeme.scanFrom origin 0 place' true rest, lastSpan := span },
    ?_, at_.queue, at_.levels, at_.nesting, place'', line⟩
  rw [next_eq_read at_.queue, source, scanned, read]
  simp only [give?, at_.nesting, Nat.lt_irrefl, if_false]

theorem At.next_of_newline (starts : StartsAt level rest)
    (below : level ≤ depth) : ∃ token t, s.next = (token, t) ∧ token.kind = .newline ∧
      Before origin level depth t rest := by
  obtain ⟨_, u, next, queue, levels, nesting, place, line⟩ := at_.next_eq_startLine starts
  have inner : u.levels.head?.getD 0 = depth := by rw [levels, head?_levelsTo, Option.getD_some]
  simp only [startLine, line, indentation, inner, if_neg (Nat.not_lt.mpr below)] at next
  by_cases outer : level < depth
  · have known : (levelsTo depth).contains level = true := elem_eq_true_of_mem (mem_levelsTo below)
    have closed : (levelsTo depth).length - (levelsTo level).length = depth - level := by
      rw [length_levelsTo, length_levelsTo]
      omega
    simp only [if_pos outer, levels, known, dropWhile_levelsTo below, closed] at next
    exact ⟨_, _, next, rfl, ⟨starts, map_replicate, rfl, nesting, place, rfl⟩⟩
  · obtain rfl : level = depth := by omega
    simp only [if_neg outer] at next
    have nothing : List.replicate (level - level) Token.Kind.dedent = [] := by rw [Nat.sub_self, replicate_zero]
    exact ⟨_, _, next, rfl, ⟨starts, by rw [nothing, queue]; rfl, levels, nesting, place, rfl⟩⟩

theorem At.hands_indent (starts : StartsAt (depth + 1) rest) :
    ∃ opening t, opening.map (·.kind) = Style.indented.opening ∧ s.Hands opening t ∧
      Before origin (depth + 1) (depth + 1) t rest := by
  obtain ⟨_, u, next, _, levels, nesting, place, line⟩ := at_.next_eq_startLine starts
  have inner : u.levels.head?.getD 0 = depth := by rw [levels, head?_levelsTo, Option.getD_some]
  simp only [startLine, line, indentation, inner, if_pos (Nat.lt_succ_self depth)] at next
  rw [levels] at next
  have nothing : List.replicate (depth + 1 - (depth + 1)) Token.Kind.dedent = [] := by
    rw [Nat.sub_self, replicate_zero]
  refine ⟨[_, _], _, ?_, .cons next rfl (.single rfl rfl), ⟨starts, ?_, rfl, nesting, place, rfl⟩⟩
  · rfl
  · rw [nothing]
    rfl

end

theorem Before.next_of_dedent (before : Before origin level (depth + 1) s rest) (below : level ≤ depth) :
    ∃ token t, s.next = (token, t) ∧ token.kind = .dedent ∧ Before origin level depth t rest := by
  have pending : s.queue.map (·.kind) = .dedent :: List.replicate (depth - level) .dedent := by
    rw [before.queue, Nat.succ_sub below]
    rfl
  obtain ⟨token, queue, split, kind, others⟩ := map_eq_cons_iff.mp pending
  refine ⟨token, { s with queue }, by rw [next, split], kind,
    ⟨before.starts, others, before.levels, before.nesting, before.source⟩⟩

/-- The text of an outline is read as the outline, where the line behind it stands no deeper. -/
theorem Before.hands_outline (outline : Outline)
    (before : Before origin depth depth s (outline.indented depth ++ rest))
    (starts : StartsAt level rest) (below : level ≤ depth) :
    ∃ tokens t, Spells .indented outline tokens ∧ s.Hands tokens t ∧ Before origin level depth t rest := by
  induction outline generalizing depth level rest s with
  | leaf line =>
    rw [Outline.indented, append_assoc, append_assoc] at before
    have closed : Closed ('\n' :: rest) := mem_of_elem_eq_true rfl
    obtain ⟨front, t, words, at_end, hands⟩ := line.lexes origin _ closed s before.at_line
    obtain ⟨ending, u, next, newline, after⟩ := at_end.next_of_newline starts below
    refine ⟨front ++ [ending], u, .leaf words newline, hands.append (.single next ?_), after⟩
    simp [Token.isEnd, newline]
  | block head body ih =>
    rw [Outline.indented, append_assoc, append_assoc] at before
    have closed : Closed ('\n' :: (body.indented (depth + 1) ++ rest)) := mem_of_elem_eq_true rfl
    obtain ⟨front, t, words, at_end, hands⟩ := head.lexes origin _ closed s before.at_line
    obtain ⟨opening, u, opens, hands₁, inner⟩ := at_end.hands_indent (body.startsAt_indented rest)
    obtain ⟨inside, _, spells, hands₂, behind⟩ := ih inner starts (by omega)
    obtain ⟨closing, w, next, dedent, after⟩ := behind.next_of_dedent below
    refine ⟨front ++ (opening ++ (inside ++ [closing])), w,
      .block words opens spells (by simp [dedent, Style.closing]),
      hands.append (hands₁.append (hands₂.append (.single next ?_))), after⟩
    simp [Token.isEnd, dedent]
  | both _ second ih_first ih_second =>
    rw [Outline.indented, append_assoc] at before
    obtain ⟨tokens, t, spells, hands, middle⟩ := ih_first before (second.startsAt_indented rest) (Nat.le_refl _)
    obtain ⟨tokens', u, spells', hands', after⟩ := ih_second middle starts below
    exact ⟨tokens ++ tokens', u, .both spells spells', hands.append hands', after⟩

/-! ### Blocks in braces -/

variable {levels : List Nat} {nesting : Nat}

theorem Lexes.semicolon (rest : List Char) :
    Lexes origin levels nesting nesting (';' :: rest) [(.symbol .semicolon, ";", .none)] rest := by
  refine single (by simp) fun _ start => ?_
  have scans : Lexeme.Scans origin .semicolon [';'] rest := Lexeme.Scans.of_step (by decide) rfl
  exact start.next_of_give scans fun _ _ inner =>
    ⟨_, _, rfl, rfl, inner.queue, inner.levels, inner.nesting, inner.source⟩

theorem Lexes.leftBrace (rest : List Char) :
    Lexes origin levels nesting nesting ('{' :: ' ' :: rest) [(.symbol .leftBrace, "\x7b", .none)] (' ' :: rest) := by
  refine single (by simp) fun _ start => ?_
  have scans : Lexeme.Scans origin .punctuator ['{'] (' ' :: rest) := Lexeme.Scans.of_step (by decide) rfl
  exact start.next_of_give scans fun _ _ inner =>
    ⟨_, _, rfl, rfl, inner.queue, inner.levels, inner.nesting, inner.source⟩

/-- Before a closing brace stands the end of a line. -/
theorem At.hands_rightBrace (at_ : At origin levels nesting s ('}' :: rest)) :
    ∃ closing t, closing.map (·.kind) = Style.braced.closing ∧ s.Hands closing t ∧
      At origin levels nesting t rest := by
  obtain ⟨place, source⟩ := at_.source
  have scans : Lexeme.Scans origin .punctuator ['}'] rest := Lexeme.Scans.of_step (by decide) rfl
  obtain ⟨place', _, scanned⟩ := scans place
  rw [singleton_append] at scanned
  rw [scanned] at source
  have next := next_eq_read at_.queue
  rw [source] at next
  exact ⟨[_, _], _, rfl, .cons next rfl (.single rfl rfl), rfl, at_.levels, at_.nesting, place', rfl⟩

/-- The text of an outline on one line is read as the outline. -/
theorem At.hands_outline (outline : Outline) (at_ : At origin levels 0 s (outline.braced ++ rest)) :
    ∃ tokens t, Spells .braced outline tokens ∧ s.Hands tokens t ∧ At origin levels 0 t rest := by
  induction outline generalizing rest s with
  | leaf line =>
    rw [Outline.braced, append_assoc] at at_
    have closed : Closed (';' :: rest) := mem_of_elem_eq_true rfl
    obtain ⟨front, t, words, at_end, hands⟩ := line.lexes origin _ closed s at_
    obtain ⟨ending, u, ends, after, hands'⟩ := Lexes.semicolon rest t at_end
    obtain ⟨ending, rfl, content⟩ := map_eq_singleton_iff.mp ends
    exact ⟨front ++ [ending], u, .leaf words (congrArg Prod.fst content), hands.append hands', after⟩
  | block head body ih =>
    obtain ⟨c, more, text, starts⟩ := body.exists_head_braced (' ' :: '}' :: rest)
    have split : (Outline.block head body).braced ++ rest =
        head.chars ++ ' ' :: '{' :: ' ' :: (body.braced ++ ' ' :: '}' :: rest) := by
      simp [Outline.braced]
    rw [split] at at_
    have closed : Closed (' ' :: '{' :: ' ' :: (body.braced ++ ' ' :: '}' :: rest)) := mem_of_elem_eq_true rfl
    obtain ⟨front, t, words, at_end, hands⟩ := head.lexes origin _ closed s at_
    obtain ⟨_, u, opens, inner, hands₁⟩ := Lexes.blank rfl (by simp) (Lexes.leftBrace _) t at_end
    obtain ⟨brace, rfl, content⟩ := map_eq_singleton_iff.mp opens
    rw [text] at inner
    obtain ⟨v, inner, blank⟩ := inner.next_of_blank (Lexeme.Solid.of_startsWord starts).gap
    rw [← text] at inner
    obtain ⟨inside, _, spells, hands₂, behind⟩ := ih inner
    obtain ⟨token, others, filled, -⟩ := spells.exists_head
    obtain ⟨_, behind, blank'⟩ := behind.next_of_blank rfl
    obtain ⟨closing, y, closes, hands₃, after⟩ := behind.hands_rightBrace
    have some_closing : closing ≠ [] := by
      rintro rfl
      cases closes
    refine ⟨front ++ ([brace] ++ (inside ++ closing)), y, .block words ?_ spells closes, ?_, after⟩
    · have kind : brace.kind = .symbol .leftBrace := congrArg Prod.fst content
      rw [map_singleton, kind, Style.opening]
    · exact hands.append
        (hands₁.append ((hands₂.of_next blank (by simp [filled])).append (hands₃.of_next blank' some_closing)))
  | both _ second ih_first ih_second =>
    obtain ⟨c, more, text, starts⟩ := second.exists_head_braced rest
    rw [Outline.braced, append_assoc, cons_append] at at_
    obtain ⟨tokens, t, spells, hands, middle⟩ := ih_first at_
    rw [text] at middle
    obtain ⟨u, middle, blank⟩ := middle.next_of_blank (Lexeme.Solid.of_startsWord starts).gap
    rw [← text] at middle
    obtain ⟨tokens', v, spells', hands', after⟩ := ih_second middle
    obtain ⟨token, others, filled, -⟩ := spells'.exists_head
    exact ⟨tokens ++ tokens', v, .both spells spells',
      hands.append (hands'.of_next blank (by simp [filled])), after⟩

end Layout

/-! ### Whole texts -/

namespace Outline

open Layout

theorem startsAt_render (outline : Outline) : StartsAt 0 (outline.render style ++ rest) := by
  cases style with
  | indented => exact outline.startsAt_indented rest
  | braced =>
    obtain ⟨_, _, text, starts⟩ := outline.exists_head_braced ('\n' :: rest)
    rw [render, append_assoc, singleton_append, text]
    exact .line 0 starts

theorem startsAt_flatMap (outlines : List Outline) (style : Style) :
    StartsAt 0 (outlines.flatMap (·.render style)) := by
  cases outlines with
  | nil => exact .ends
  | cons outline _ =>
    exact outline.startsAt_render

theorem hands_render (outline : Outline) (starts : StartsAt 0 rest)
    (before : Before origin 0 0 s (outline.render style ++ rest)) :
    ∃ tokens gap t, Spells style outline tokens ∧ (∀ token ∈ gap, token.kind = .newline) ∧
      s.Hands (tokens ++ gap) t ∧ Before origin 0 0 t rest := by
  cases style with
  | indented =>
    obtain ⟨tokens, t, spells, hands, after⟩ := Before.hands_outline outline before starts (Nat.le_refl 0)
    exact ⟨tokens, [], t, spells, by simp, by rwa [append_nil], after⟩
  | braced =>
    rw [render, append_assoc] at before
    have start := before.at_line
    obtain ⟨tokens, t, spells, hands, at_end⟩ := start.hands_outline outline
    obtain ⟨ending, u, next, newline, after⟩ := At.next_of_newline at_end starts (Nat.le_refl 0)
    refine ⟨tokens, [ending], u, spells, by simp [newline], hands.append (.single next ?_), after⟩
    simp [Token.isEnd, newline]

theorem hands_all (before : Before origin 0 0 s (outlines.flatMap (·.render style))) :
    ∃ tokens t, SpellsAll style outlines tokens ∧ s.Hands tokens t ∧ Before origin 0 0 t [] := by
  induction outlines generalizing s with
  | nil => exact ⟨[], s, .nil, .nil, before⟩
  | cons outline more ih =>
    obtain ⟨tokens, gap, t, spells, between, hands, middle⟩ :=
      outline.hands_render (startsAt_flatMap more style) before
    obtain ⟨tokens', u, rest, hands', after⟩ := ih middle
    have all := hands.append hands'
    rw [append_assoc] at all
    exact ⟨tokens ++ (gap ++ tokens'), u, .cons spells between rest, all, after⟩

/-- In both styles the tokens of a text are those of its outlines, and the end of the file. -/
theorem exists_tokens (style : Style) (outlines : List Outline) (origin : Lexeme.Origin) :
    ∃ tokens last, Token.ofLexemes (Lexeme.scan origin (text style outlines)) = tokens ++ [last] ∧
      SpellsAll style outlines tokens ∧ last.kind = .endOfFile := by
  have starts := startsAt_flatMap outlines style
  have first : Lexeme.scan origin (text style outlines) =
      Lexeme.scanFrom origin 0 .first false (outlines.flatMap (·.render style)) := by
    rw [Lexeme.scan, text, String.toList_ofList]
    generalize outlines.flatMap (·.render style) = cs at starts
    cases starts with
    | ends => rfl
    | line _ starts => exact (Lexeme.Solid.of_startsWord starts).scanFrom _ _ _ _
  have before : Before origin 0 0 (.ofSource (Lexeme.scan origin (text style outlines)))
    (outlines.flatMap (·.render style)) :=
    ⟨starts, rfl, rfl, rfl, .first, first⟩
  obtain ⟨tokens, t, spells, hands, after⟩ := hands_all before
  have at_end := after.at_line
  exact ⟨tokens, t.next.1, Token.ofLexemes_of_hands hands at_end.next_of_nil, spells, at_end.next_of_nil⟩

end Outline

end DreamMaker
