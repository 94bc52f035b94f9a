import DreamMaker.Proofs.Token.Pieces

namespace DreamMaker

open List

namespace Layout

variable {s : Layout} {source rest : List Lexeme} {spaced : Bool} {lastSpan : Span}

/-- The kinds of the tokens that are made already. -/
def pending (s : Layout) : List Token.Kind := s.queue.map (·.kind)

/-- Some lexemes are read up to `rest`, and the text that a string holds is one of theirs. -/
def Spends (source : List Lexeme) (token : Token) (rest : List Lexeme) : Prop :=
  ∃ spent, spent ≠ [] ∧ source = spent ++ rest ∧
    (token.kind = .string → ∃ l ∈ spent, token.textValue.length = l.held)

theorem Spends.length_lt (spends : Spends source token rest) : rest.length < source.length := by
  obtain ⟨_, some, rfl, -⟩ := spends
  have read := length_pos_iff.mpr some
  rw [length_append]
  omega

/-- What one call can do: the token that it hands out, and the state behind it. -/
inductive Calls (s : Layout) (token : Token) (s' : Layout) : Prop
  | queued (first : s.queue = token :: s'.queue) (levels : s'.levels = s.levels)
      (nesting : s'.nesting = s.nesting) (source : s'.source = s.source)
  | plain (empty : s.queue = []) (kind : token.kind.isLayout = false) (pending : s'.pending = [])
      (levels : s'.levels = s.levels) (source : Spends s.source token s'.source)
  | newline (empty : s.queue = []) (kind : token.kind = .newline)
      (pending : s'.pending = [] ∨ s'.pending = [.symbol .rightBrace])
      (levels : s'.levels = s.levels) (source : Spends s.source token s'.source)
  | indent (level : Nat) (empty : s.queue = []) (kind : token.kind = .indent) (pending : s'.pending = [.newline])
      (above : s.indentation < level) (levels : s'.levels = level :: s.levels) (outside : s.nesting = 0)
      (nesting : s'.nesting = 0) (source : Spends s.source token s'.source)
  /-- The line is indented less than the one before. If its indentation is not open, an invalid token comes first. -/
  | dedent (level : Nat) (empty : s.queue = [])
      (kinds : token.kind :: s'.pending = .newline :: replicate (s.levels.length - s'.levels.length) .dedent ∨
        token.kind :: s'.pending =
          .invalid :: .newline :: replicate (s.levels.length - s'.levels.length) .dedent)
      (levels : s'.levels = s.levels.dropWhile (level < ·))
      (nesting : s'.nesting = 0) (source : Spends s.source token s'.source)
  | finish (empty : s.queue = [])
      (kinds : token.kind :: s'.pending = replicate (s.levels.length - 1) .dedent ++ [.endOfFile])
      (levels : s'.levels = s.levels.drop (s.levels.length - 1)) (source : s'.source <:+ s.source)

theorem next_eq_read (empty : s.queue = []) : s.next = s.read s.source := by
  rw [next, empty]

theorem read_cons :
    s.read (l :: rest) = match { s with source := rest, lastSpan := l.span }.give? l with
      | some result => result
      | none => { s with source := rest, lastSpan := l.span, spaced := true }.read rest := rfl

/-- A call hands out what starts with a lexeme, behind blanks and line ends that start nothing, or else the end of
the file. -/
theorem exists_starts (empty : s.queue = []) : ∃ skipped l source spaced lastSpan,
    (s.source = skipped ++ l :: source ∨ s.source = skipped ∧ source = [] ∧ l.kind = .endOfText) ∧
      (∀ m ∈ skipped, m.kind.isLayout = true) ∧ Starts { s with source, spaced, lastSpan } l s.next := by
  rw [next_eq_read empty]
  generalize s.source = source
  induction source generalizing s with
  | nil => exact ⟨[], ⟨.endOfText, "", none, s.lastSpan⟩, [], s.spaced, s.lastSpan,
      .inr ⟨rfl, rfl, rfl⟩, nofun, .finish rfl⟩
  | cons l rest ih =>
    rw [read_cons]
    cases found : { s with source := rest, lastSpan := l.span }.give? l with
    | some _ =>
      exact ⟨[], l, rest, s.spaced, l.span, .inl rfl, nofun,
        give?_starts (s := { s with source := rest, lastSpan := l.span }) empty found⟩
    | none =>
      have layout : l.kind.isLayout = true := by
        cases kind : l.kind <;> simp [give?, kind] at found <;> rfl
      obtain ⟨skipped, m, source, spaced, lastSpan, split, all, starts⟩ :=
        ih (s := { s with source := rest, lastSpan := l.span, spaced := true }) empty
      refine ⟨l :: skipped, m, source, spaced, lastSpan, ?_, forall_mem_cons.mpr ⟨layout, all⟩, starts⟩
      rcases split with rfl | ⟨rfl, ends⟩
      · exact .inl rfl
      · exact .inr ⟨rfl, ends⟩

theorem endFile_calls (empty : s.queue = []) (suffix : source <:+ s.source) :
    Calls s ({ s with source, spaced, lastSpan }.endFile l).1 ({ s with source, spaced, lastSpan }.endFile l).2 := by
  unfold endFile
  cases count : s.levels.length - 1 with
  | zero => exact .finish empty (by rw [count]; rfl) (by rw [count]; rfl) suffix
  | succ _ =>
    refine .finish empty ?_ (by rw [count]; rfl) suffix
    rw [count]
    simp [give, pending, replicate_succ]

theorem startLine_calls (empty : s.queue = []) (outside : s.nesting = 0) (split : s.source = front ++ l :: source) :
    Calls s ({ s with source, spaced, lastSpan }.startLine l).1
      ({ s with source, spaced, lastSpan }.startLine l).2 := by
  have behind : (lineStart source).2 <:+ source := by
    unfold lineStart
    split
    · split
      · exact suffix_cons _ _
      · exact suffix_rfl
    · exact suffix_rfl
  have spends {token : Token} (other : token.kind ≠ .string) : Spends s.source token (lineStart source).2 := by
    obtain ⟨blank, line⟩ := behind
    exact ⟨front ++ l :: blank, by simp, by simp [split, line], fun string => absurd string other⟩
  unfold startLine
  generalize lineStart source = line at spends
  dsimp only
  split
  · rename_i above
    exact .indent line.1 empty rfl rfl above rfl outside outside (spends nofun)
  split
  · split
    · exact .dedent line.1 empty (.inl (by simp [pending])) rfl outside (spends nofun)
    · exact .dedent line.1 empty (.inr (by simp [pending])) rfl outside (spends nofun)
  · exact .newline empty rfl (.inl (by simp [pending, empty])) rfl (spends nofun)

theorem next_calls : Calls s s.next.1 s.next.2 := by
  cases queue : s.queue with
  | cons token rest =>
    have next : s.next = (token, { s with queue := rest }) := by rw [Layout.next, queue]
    rw [next]
    exact .queued queue rfl rfl rfl
  | nil =>
    obtain ⟨skipped, l, source, _, _, split, -, starts⟩ := exists_starts queue
    have within (other : l.kind ≠ .endOfText) : s.source = skipped ++ l :: source :=
      split.resolve_right fun ends => other ends.2.2
    generalize s.next = given at starts
    cases starts with
    | line newline outside => exact startLine_calls queue outside (within (by simp [newline]))
    | finish =>
      refine endFile_calls queue ?_
      rcases split with split | ⟨-, rfl, -⟩
      · exact ⟨skipped ++ [l], by simp [split]⟩
      · exact nil_suffix
    | @token more rest token _ _ _ inside taken piece =>
      have spends : Spends s.source token rest := by
        refine ⟨skipped ++ l :: more, by simp, ?_, fun string => ⟨l, by simp, piece.held string⟩⟩
        have all : source = more ++ rest := taken
        rw [within (by rintro ends; simp [ends, Lexeme.Kind.isLayout] at inside), all, append_assoc, cons_append]
      rcases piece.kinds with ⟨kind, rfl⟩ | ⟨kind, brace⟩
      · exact .plain queue kind rfl rfl spends
      · exact .newline queue kind (.inr brace) rfl spends

theorem source_next : s.next.2.source <:+ s.source := by
  have of_spends {token : Token} {rest : List Lexeme} (spends : Spends s.source token rest) : rest <:+ s.source := by
    obtain ⟨spent, -, split, -⟩ := spends
    exact ⟨spent, split.symm⟩
  cases next_calls (s := s) with
  | queued _ _ _ same => exact same ▸ suffix_rfl
  | finish _ _ _ source => exact source
  | plain _ _ _ _ spends | newline _ _ _ _ spends | indent _ _ _ _ _ _ _ _ spends | dedent _ _ _ _ _ spends =>
    exact of_spends spends

theorem tokensFrom_succ :
    s.tokensFrom (fuel + 1) = if s.next.1.isEnd then [s.next.1] else s.next.1 :: s.next.2.tokensFrom fuel := rfl

end Layout

end DreamMaker
