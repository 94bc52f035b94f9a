import DreamMaker.Proofs.Token.Append

/-!
Line ends inside of brackets. The tokens of a source do not change where such a line end becomes a blank.
-/

namespace DreamMaker

open List

namespace Lexeme

/-- Some line ends that are read while so many brackets are open have become blanks at the same places. -/
inductive Unwraps : Nat → List Lexeme → List Lexeme → Prop
  | nil (opened : Nat) : Unwraps opened [] []
  | keep {opened : Nat} {source source' : List Lexeme} (l : Lexeme)
      (rest : Unwraps (l.kind.nesting opened) source source') : Unwraps opened (l :: source) (l :: source')
  | blank {opened : Nat} {source source' : List Lexeme} {l m : Lexeme} (inside : 0 < opened)
      (newline : l.kind = .newline) (kind : m.kind = .blank) (span : m.span = l.span)
      (rest : Unwraps opened source source') : Unwraps opened (l :: source) (m :: source')

variable {source source' : List Lexeme}

namespace Unwraps

theorem agrees : Agrees Unwraps := by
  intro _ _ _ unwraps
  cases unwraps with
  | nil => exact .inr ⟨by simp, by simp⟩
  | keep l rest => exact .inl ⟨l, _, _, rfl, rfl, rest⟩
  | blank _ newline kind => exact .inr ⟨by simp [newline, Kind.isLayout], by simp [kind, Kind.isLayout]⟩

theorem lineStart (unwraps : Unwraps 0 source source') : (Layout.lineStart source').1 = (Layout.lineStart source).1 ∧
    Unwraps 0 (Layout.lineStart source).2 (Layout.lineStart source').2 := by
  cases unwraps with
  | nil => exact ⟨rfl, .nil 0⟩
  | blank inside => cases inside
  | keep l rest =>
    by_cases blank : l.kind = .blank
    · have flat : l.kind.nesting 0 = 0 := by rw [blank]; rfl
      rw [flat] at rest
      simpa [Layout.lineStart, blank] using rest
    · simpa [Layout.lineStart, blank] using rest.keep

end Unwraps

end Lexeme

namespace Layout

open Lexeme

variable {s : Layout} {l : Lexeme} {source source' : List Lexeme}

/-- The same is handed out, and what is left differs in line ends inside of brackets only. -/
def SameBut (given given' : Token × Layout) : Prop :=
  ∃ source', given' = (given.1, { given.2 with source := source' }) ∧ Unwraps given.2.nesting given.2.source source'

theorem startLine_sameBut (outside : s.nesting = 0) (unwraps : Unwraps 0 s.source source') :
    SameBut (s.startLine l) ({ s with source := source' }.startLine l) := by
  obtain ⟨same, rest⟩ := unwraps.lineStart
  rw [← outside] at rest
  unfold startLine
  generalize lineStart s.source = line at same rest ⊢
  generalize lineStart source' = line' at same rest ⊢
  obtain ⟨⟨_, _⟩, ⟨level, _⟩⟩ := line, line'
  subst same
  show SameBut (if s.indentation < level then _ else if level <
    s.indentation then if s.levels.contains level then _ else _ else _)
    (if s.indentation < level then _ else if level <
      s.indentation then if s.levels.contains level then _ else _ else _)
  split
  · exact ⟨_, rfl, rest⟩
  split
  · split <;> exact ⟨_, rfl, rest⟩
  · exact ⟨_, rfl, rest⟩

theorem give?_sameBut (empty : s.queue = []) (unwraps : Unwraps (l.kind.nesting s.nesting) s.source source')
    (found : s.give? l = some given) : ∃ given', ({ s with source := source' } : Layout).give? l = some given' ∧
      SameBut given given' := by
  cases give?_starts empty found with
  | line newline outside =>
    rw [newline, outside] at unwraps
    refine ⟨_, ?_, startLine_sameBut outside unwraps⟩
    simp only [give?, newline]
    exact if_neg (outside ▸ Nat.lt_irrefl 0)
  | finish ends =>
    rw [ends] at unwraps
    refine ⟨_, by simp only [give?, ends]; rfl, ?_⟩
    unfold endFile
    cases s.levels.length - 1 <;> exact ⟨_, rfl, unwraps⟩
  | token inside =>
    obtain ⟨rest, found', unwraps'⟩ := give?_agrees Unwraps.agrees inside unwraps found
    exact ⟨_, found', rest, rfl, unwraps'⟩

theorem read_sameBut (empty : s.queue = []) (unwraps : Unwraps s.nesting source source') (behind : List Lexeme) :
    SameBut (s.read source) ({ s with source := behind }.read source') := by
  induction source generalizing s source' behind with
  | nil =>
    cases unwraps
    unfold read endFile
    cases s.levels.length - 1 <;> exact ⟨[], rfl, .nil _⟩
  | cons l more ih =>
    rw [read_cons]
    cases unwraps with
    | @keep _ _ more' _ rest =>
      rw [read_cons]
      cases found : ({ s with source := more, lastSpan := l.span } : Layout).give? l with
      | some _ =>
        obtain ⟨_, found', same⟩ := give?_sameBut
          (s := { s with source := more, lastSpan := l.span }) empty rest found
        simp only [found']
        exact same
      | none =>
        have kinds := kind_of_give?_none found
        have flat : l.kind.nesting s.nesting = s.nesting := by
          rcases kinds with kind | ⟨kind, -⟩ <;> rw [kind] <;> rfl
        rw [flat] at rest
        simp only [give?_of_blank (t := { s with source := more', lastSpan := l.span }) found rfl]
        exact ih (s := { s with source := more, lastSpan := l.span, spaced := true }) empty rest _
    | blank inside newline blank span rest =>
      rw [read_cons, span]
      simp only [give?, newline, blank, if_pos inside]
      exact ih (s := { s with source := more, lastSpan := l.span, spaced := true }) empty rest _

theorem next_sameBut (unwraps : Unwraps s.nesting s.source source') :
    SameBut s.next { s with source := source' }.next := by
  cases queue : s.queue with
  | nil =>
    simp only [next, queue]
    exact queue ▸ read_sameBut queue unwraps source'
  | cons _ _ =>
    simp only [next, queue]
    exact ⟨source', rfl, unwraps⟩

end Layout

/-- Where line ends inside of brackets become blanks, each call hands out the same token and leaves the same
indentations open, and what is left to read differs in such line ends. -/
theorem Layout.handed_unwraps {source source' : List Lexeme} (unwraps : Lexeme.Unwraps 0 source source') (n : Nat) :
    (ofSource source').handed n = (ofSource source).handed n ∧
      ((ofSource source').after n).levels = ((ofSource source).after n).levels ∧
      Lexeme.Unwraps ((ofSource source).after n).nesting ((ofSource source).after n).source
        ((ofSource source').after n).source := by
  have both : ∀ (s : Layout) (source' : List Lexeme), Lexeme.Unwraps s.nesting s.source source' →
      ∃ source'', { s with source := source' }.after n = { s.after n with source := source'' } ∧
        { s with source := source' }.handed n = s.handed n ∧
          Lexeme.Unwraps (s.after n).nesting (s.after n).source source'' := by
    induction n with
    | zero => exact fun s source' unwraps => ⟨source', rfl, rfl, unwraps⟩
    | succ n ih =>
      intro s source' unwraps
      obtain ⟨rest, next, unwraps⟩ := next_sameBut unwraps
      obtain ⟨rest, state, tokens, unwraps⟩ := ih s.next.2 rest unwraps
      refine ⟨rest, ?_, ?_, unwraps⟩
      · rw [after, next]
        exact state
      · rw [handed, next, tokens]
        rfl
  obtain ⟨rest, state, tokens, unwraps⟩ := both (ofSource source) source' unwraps
  have start : ofSource source' = { ofSource source with source := source' } := rfl
  rw [start, state, tokens]
  exact ⟨rfl, rfl, unwraps⟩

/-- The call over two lines, with a blank in the place of the first line end. -/
theorem Layout.indented_unwraps :
    Lexeme.Unwraps 0 Lexeme.indented (Lexeme.indented.set 2 ⟨.blank, " ", none, .unknown⟩) ∧
      (ofSource (Lexeme.indented.set 2 ⟨.blank, " ", none, .unknown⟩)).handed 8 =
        (ofSource Lexeme.indented).handed 8 := by
  have unwraps : Lexeme.Unwraps 0 Lexeme.indented (Lexeme.indented.set 2 ⟨.blank, " ", none, .unknown⟩) :=
    .keep _ (.keep _ (.blank (by decide) rfl rfl rfl (.keep _ (.keep _ (.keep _ (.keep _ (.keep _ (.nil _))))))))
  exact ⟨unwraps, (handed_unwraps unwraps 8).1⟩

end DreamMaker
