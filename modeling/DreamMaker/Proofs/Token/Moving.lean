import DreamMaker.Proofs.Lexeme.Steps
import DreamMaker.Proofs.Syntax.Alike
import DreamMaker.Proofs.Token.Calls

namespace DreamMaker

open List

variable {f : Span → Span}

instance : Placed Lexeme := ⟨fun f l => { l with span := f l.span }⟩

instance : Placed Layout :=
  ⟨fun f s => { s with source := move f s.source, queue := move f s.queue, lastSpan := f s.lastSpan }⟩

@[simp] theorem move_replicate [Placed α] (a : α) : move f (List.replicate n a) = .replicate n (move f a) :=
  map_replicate

theorem takeWhile_move [Placed α] (p : α → Bool) (same : ∀ a, p (move f a) = p a) (as : List α) :
    (move f as).takeWhile p = move f (as.takeWhile p) ∧ (move f as).dropWhile p = move f (as.dropWhile p) := by
  induction as with
  | nil => exact ⟨rfl, rfl⟩
  | cons a as ih => cases keeps : p a <;> simp [same, keeps, ih]

@[simp] theorem Token.move_mk (kind : Kind) (span : Span) (text : String) (value : Value) (spaced : Bool) :
    move f (Token.mk kind span text value spaced) = .mk kind (move f span) text value spaced := rfl

namespace Layout

@[simp] theorem move_mk (source : List Lexeme) (queue : List Token) (nesting : Nat)
    (levels : List Nat) (spaced : Bool)
    (lastSpan : Span) (finished : Bool) : move f (Layout.mk source queue nesting levels spaced lastSpan finished) =
      .mk (move f source) (move f queue) nesting levels spaced (move f lastSpan) finished := rfl

theorem move_give (s : Layout) (token : Token) : move f (s.give token) = (move f s).give (move f token) := rfl

theorem move_endFile {s : Layout} : move f (s.endFile l) = (move f s).endFile (move f l) := by
  unfold endFile
  cases s.levels.length - 1 with
  | zero => rfl
  | succ _ =>
    simp only [replicate_succ, cons_append, move_give, move_mk, move_append, move_replicate]
    rfl

theorem lineStart_move (source : List Lexeme) :
    lineStart (move f source) = ((lineStart source).1, move f (lineStart source).2) := by
  cases source with
  | nil => rfl
  | cons l _ => by_cases blank : l.kind = .blank <;> simp [lineStart, move, blank]

theorem move_startLine (s : Layout) (l : Lexeme) : move f (s.startLine l) = (move f s).startLine (move f l) := by
  unfold startLine
  rw [show (move f s).source = move f s.source from rfl, lineStart_move]
  obtain ⟨level, _⟩ := lineStart s.source
  dsimp only [indentation]
  rw [show (move f s).levels = s.levels from rfl]
  by_cases above : s.levels.head?.getD 0 < level
  · simp only [above]
    rfl
  by_cases below : level < s.levels.head?.getD 0
  · cases known : s.levels.contains level
    · simp only [above, below, if_true, if_false, Bool.false_eq_true, move_pair, move_mk, move_cons, move_replicate]
      rfl
    · simp only [above, below, if_true, if_false, move_pair, move_mk, move_replicate]
      rfl
  · simp only [above, below]
    rfl

theorem map_kind_move (source : List Lexeme) : (move f source).map (·.kind) = source.map (·.kind) := by
  show (source.map (move f)).map (·.kind) = _
  rw [map_map]
  rfl

theorem move_foldl_merge [Merging f] (span : Span) (source : List Lexeme) :
    move f (source.foldl (fun span m => span.merge m.span) span) =
      (move f source).foldl (fun span m => span.merge m.span) (move f span) := by
  induction source generalizing span with
  | nil => rfl
  | cons _ _ ih =>
    simp only [foldl_cons, ih, move_merge]
    rfl

theorem move_giveLongest [Merging f] (s : Layout) (l : Lexeme) (alone : Symbol)
    (longer : List (List Lexeme.Kind × Symbol)) :
    move f (s.giveLongest l alone longer) = (move f s).giveLongest (move f l) alone longer := by
  have taken (n : Nat) : (move f s).source.take n = move f (s.source.take n) := (map_take ..).symm
  have left (n : Nat) : (move f s).source.drop n = move f (s.source.drop n) := (map_drop ..).symm
  unfold giveLongest
  simp only [taken, map_kind_move]
  split
  · rfl
  rename_i kinds symbol _
  have spans := move_foldl_merge (f := f) l.span (s.source.take kinds.length).reverse
  have back : move f (s.source.take kinds.length).reverse =
    (move f (s.source.take kinds.length)).reverse := map_reverse
  rw [back] at spans
  simp only [left, move_give, Token.move_mk, spans]
  split <;> rfl

theorem foldl_text_move (text : String) (source : List Lexeme) :
    (move f source).foldl (fun text m => text ++ m.text) text = source.foldl (fun text m => text ++ m.text) text := by
  induction source generalizing text with
  | nil => rfl
  | cons _ _ ih => exact ih _

variable (s : Layout)

theorem move_giveWord [Merging f] (l : Lexeme) : move f (s.giveWord l) = (move f s).giveWord (move f l) := by
  obtain ⟨taken, left⟩ := takeWhile_move (f := f)
    (fun m => m.kind = .word || m.kind = .number) (fun _ => rfl) s.source
  unfold giveWord
  simp only [show (move f s).source = move f s.source from rfl, taken, left, foldl_text_move,
    move_give, Token.move_mk,
    move_foldl_merge, ← move_getLast?]
  cases (s.source.takeWhile fun m => m.kind = .word || m.kind = .number).getLast? <;> rfl

theorem move_givePunctuator (l : Lexeme) : move f (s.givePunctuator l) = (move f s).givePunctuator (move f l) := by
  unfold givePunctuator
  rw [show (move f l).text = l.text from rfl]
  split <;> rfl

theorem move_give? [Merging f] : move f (s.give? l) = (move f s).give? (move f l) := by
  unfold give?
  rw [show (move f s).nesting = s.nesting from rfl]
  cases l.kind <;>
    simp only [move_some, move_endFile, move_giveLongest, move_givePunctuator, move_giveWord]
  case newline => split <;> simp [move_startLine]
  all_goals rfl

theorem move_read [Merging f] {source : List Lexeme} : move f (s.read source) = (move f s).read (move f source) := by
  induction source generalizing s with
  | nil => exact move_endFile
  | cons l rest ih =>
    have gives : move f ({ s with source := rest, lastSpan := l.span }.give? l) =
        { move f s with source := move f rest, lastSpan := (move f l).span }.give? (move f l) := move_give? _
    rw [move_cons, read_cons, read_cons, ← gives]
    cases { s with source := rest, lastSpan := l.span }.give? l with
    | none => exact ih _
    | some _ => rfl

theorem move_next [Merging f] : move f s.next = (move f s).next := by
  unfold next
  rw [show (move f s).queue = move f s.queue from rfl]
  cases s.queue with
  | nil => exact move_read s
  | cons _ _ => rfl

theorem move_tokensFrom [Merging f] : move f (s.tokensFrom fuel) = (move f s).tokensFrom fuel := by
  induction fuel generalizing s with
  | zero => rfl
  | succ fuel ih =>
    rw [tokensFrom_succ, tokensFrom_succ, ← move_next]
    show _ = if s.next.1.isEnd then [move f s.next.1] else move f s.next.1 :: (move f s.next.2).tokensFrom fuel
    rw [← ih]
    split <;> rfl

end Layout

/-- The places of tokens are those of their lexemes. -/
theorem Token.move_ofLexemes [Merging f] :
    move f (Token.ofLexemes (l :: rest)) = Token.ofLexemes (move f (l :: rest)) := by
  unfold Token.ofLexemes
  rw [Layout.move_tokensFrom, length_move]
  rfl

theorem Lexeme.scanFrom_ne_nil : scanFrom origin taken place lineStart cs ≠ [] := by
  obtain ⟨_, _, scanned, -⟩ := scanFrom_found origin taken place lineStart cs
  simp [scanned]

/-- Where one origin gives the place that is made of those of another, the lexemes differ in nothing else. -/
theorem Lexeme.move_scanFrom (origin origin' : Origin)
    (same : ∀ start stop start' stop', f (origin.span start stop) = origin'.span start' stop')
    (taken : Nat) (place place' : Position) (lineStart : Bool) (cs : List Char) :
    move f (scanFrom origin taken place lineStart cs) = scanFrom origin' taken place' lineStart cs := by
  induction cs generalizing taken place place' lineStart with
  | nil => exact congrArg (fun span => [Lexeme.mk .endOfText "" none span]) (same ..)
  | cons c cs ih =>
    cases taken with
    | succ taken => exact ih _ _ _ _
    | zero =>
      unfold scanFrom
      dsimp only
      cases (step lineStart c cs).found? with
      | none => exact ih _ _ _ _
      | some found =>
        exact congrArg₂ List.cons (congrArg (Lexeme.mk found.1 found.2.1 found.2.2) (same ..)) (ih _ _ _ _)

end DreamMaker
