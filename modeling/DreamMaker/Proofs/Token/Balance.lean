import Mathlib.Data.List.Basic
import DreamMaker.Proofs.Token.Calls

namespace DreamMaker

open List Layout

namespace Layout

variable {kinds : List Token.Kind}

/-- The end of the file was read: only dedents and the end itself are left to hand out. -/
def Flushing (s : Layout) : Prop :=
  ∃ n, s.pending = replicate n .dedent ++ [.endOfFile]

/-- Between two calls levels grow inwards from zero, and a dedent waits only outside of brackets or at the end of
the file. -/
structure Sound (s : Layout) : Prop where
  ordered : s.levels.Pairwise (· > ·)
  bottom : s.levels.getLast? = some 0
  queue : s.levels = [0] ∧ s.Flushing ∨
    ∀ kind ∈ s.pending, kind = .newline ∨ kind = .symbol .rightBrace ∨ kind = .dedent ∧ s.nesting = 0

/-- The dedents that are still to come for the indents that were handed out. -/
def owed (s : Layout) : Nat := s.levels.length - 1 + s.pending.count .dedent

/-- A bound on the calls up to the end of the file. -/
def remaining (s : Layout) : Nat := 4 * s.source.length + s.queue.length + 2 * (s.levels.length - 1)

theorem Sound.ofSource (source : List Lexeme) : (ofSource source).Sound :=
  ⟨pairwise_singleton _ _, rfl, .inr (by simp [Layout.ofSource, pending])⟩

theorem Sound.levels_ne_nil {s : Layout} (sound : s.Sound) : s.levels ≠ [] := by
  intro empty
  have bottom := sound.bottom
  rw [empty] at bottom
  cases bottom

theorem length_pending (s : Layout) : s.pending.length = s.queue.length := by
  rw [pending, length_map]

theorem pending_of_first {s s' : Layout} (first : s.queue = token :: s'.queue) :
    s.pending = token.kind :: s'.pending := by
  rw [pending, first, map_cons, pending]

theorem drop_length_sub_one {levels : List Nat} (bottom : levels.getLast? = some last) :
    levels.drop (levels.length - 1) = [last] := by
  obtain ⟨_, rfl⟩ := getLast?_eq_some_iff.mp bottom
  simp

theorem getLast?_dropWhile_lt {levels : List Nat} (level : Nat) (bottom : levels.getLast? = some 0) :
    (levels.dropWhile (level < ·)).getLast? = some 0 := by
  obtain ⟨_, rfl⟩ := getLast?_eq_some_iff.mp bottom
  rw [dropWhile_append]
  split <;> simp

/-- The first token of a flush is a dedent in front of a shorter one, or the end. -/
theorem flush_cons
    (flush : kind :: kinds = replicate n .dedent ++ [.endOfFile]) : (kind = .endOfFile ∧ kinds = [] ∧ n = 0) ∨
      (kind = .dedent ∧ 0 < n ∧ kinds = replicate (n - 1) .dedent ++ [.endOfFile]) := by
  cases n with
  | zero =>
    obtain ⟨rfl, rfl⟩ := cons.inj flush
    exact .inl ⟨rfl, rfl, rfl⟩
  | succ n =>
    obtain ⟨rfl, rfl⟩ := cons.inj flush
    exact .inr ⟨rfl, Nat.succ_pos n, rfl⟩

/-- What can stand at the front of the queue. -/
theorem Sound.first_kind {s : Layout} (sound : s.Sound)
    (first : s.pending = kind :: kinds) : (kind = .endOfFile ∧ kinds = [] ∧ s.levels = [0]) ∨
      (kind = .dedent ∧ (s.nesting = 0 ∨ ∃ n, kinds = replicate n .dedent ++ [.endOfFile])) ∨
      kind = .newline ∨ kind = .symbol .rightBrace := by
  rcases sound.queue with ⟨bare, n, flush⟩ | plain
  · rcases flush_cons (first.symm.trans flush) with ⟨ends, empty, -⟩ | ⟨dedent, -, rest⟩
    · exact .inl ⟨ends, empty, bare⟩
    · exact .inr (.inl ⟨dedent, .inr ⟨n - 1, rest⟩⟩)
  · have front : kind ∈ s.pending := first ▸ mem_cons_self
    rcases plain kind front with newline | brace | ⟨dedent, outside⟩
    · exact .inr (.inr (.inl newline))
    · exact .inr (.inr (.inr brace))
    · exact .inr (.inl ⟨dedent, .inl outside⟩)

namespace Calls

variable (calls : Calls s token s')

include calls

section

variable (before : s.Sound)

include before

theorem sound : s'.Sound := by
  obtain ⟨ordered, bottom, queue⟩ := before
  cases calls with
  | queued first levels nesting =>
    have shape := pending_of_first first
    refine ⟨levels ▸ ordered, levels ▸ bottom, ?_⟩
    rcases queue with ⟨bare, n, flush⟩ | plain
    · rcases flush_cons (shape.symm.trans flush) with ⟨-, empty, -⟩ | ⟨-, -, rest⟩
      · exact .inr (by simp [empty])
      · exact .inl ⟨levels.trans bare, n - 1, rest⟩
    · refine .inr fun kind member => ?_
      rw [nesting]
      exact plain kind (shape ▸ mem_cons_of_mem _ member)
  | plain _ _ none_left levels => exact ⟨levels ▸ ordered, levels ▸ bottom, .inr (by simp [none_left])⟩
  | newline _ _ left levels =>
    refine ⟨levels ▸ ordered, levels ▸ bottom, .inr ?_⟩
    rcases left with empty | brace
    · simp [empty]
    · simp [brace]
  | indent level _ _ left above levels =>
    refine ⟨?_, ?_, .inr (by simp [left])⟩
    · rw [levels]
      refine pairwise_cons.mpr ⟨fun outer member => ?_, ordered⟩
      -- the levels below are at most the innermost one
      rcases stack : s.levels with _ | ⟨inner, _⟩
      · rw [stack] at member; cases member
      rw [indentation, stack] at above
      rw [stack] at member ordered
      have inner_below : inner < level := above
      rcases mem_cons.mp member with rfl | below
      · exact inner_below
      · have smaller := (pairwise_cons.mp ordered).1 outer below
        omega
    · rw [levels, getLast?_cons, bottom]
      rfl
  | dedent level _ kinds levels nesting =>
    refine ⟨?_, ?_, .inr fun kind member => ?_⟩
    · rw [levels]
      exact ordered.sublist (dropWhile_sublist _)
    · rw [levels]
      exact getLast?_dropWhile_lt level bottom
    · rcases kinds with kinds | kinds
      · obtain ⟨-, left⟩ := cons.inj kinds
        rw [left] at member
        exact .inr (.inr ⟨eq_of_mem_replicate member, nesting⟩)
      · obtain ⟨-, left⟩ := cons.inj kinds
        rw [left] at member
        rcases mem_cons.mp member with rfl | member
        · exact .inl rfl
        · exact .inr (.inr ⟨eq_of_mem_replicate member, nesting⟩)
  | finish _ kinds levels =>
    have bare := levels.trans (drop_length_sub_one bottom)
    refine ⟨bare ▸ pairwise_singleton _ _, bare ▸ rfl, ?_⟩
    rcases flush_cons kinds with ⟨-, empty, -⟩ | ⟨-, -, rest⟩
    · exact .inr (by simp [empty])
    · exact .inl ⟨bare, _, rest⟩

/-- An indent adds one to what is owed, and a dedent takes one away. -/
theorem owed : s'.owed + [token.kind].count .dedent = s.owed + [token.kind].count .indent := by
  have some_level := length_pos_iff.mpr before.levels_ne_nil
  unfold Layout.owed
  cases calls with
  | queued first levels =>
    have shape := pending_of_first first
    have no_indent : token.kind ≠ .indent := by
      intro indent
      simpa [indent] using before.first_kind shape
    rw [shape, levels]
    simp [count_cons, no_indent]
    omega
  | plain empty kind left levels =>
    have none_queued : s.pending = [] := by simp [pending, empty]
    have no_dedent : token.kind ≠ .dedent := by intro dedent; simp [dedent, Token.Kind.isLayout] at kind
    have no_indent : token.kind ≠ .indent := by intro indent; simp [indent, Token.Kind.isLayout] at kind
    simp [none_queued, left, levels, no_dedent, no_indent]
  | newline empty kind left levels =>
    have none_queued : s.pending = [] := by simp [pending, empty]
    rcases left with left | left <;> simp [none_queued, left, levels, kind]
  | indent level empty kind left _ levels =>
    have none_queued : s.pending = [] := by simp [pending, empty]
    simp only [none_queued, left, levels, kind]
    simp
    omega
  | dedent level empty kinds levels =>
    have none_queued : s.pending = [] := by simp [pending, empty]
    have kept : 0 < s'.levels.length := by
      refine length_pos_iff.mpr fun gone => ?_
      have bottom := getLast?_dropWhile_lt level before.bottom
      rw [← levels, gone] at bottom
      cases bottom
    have closed : s'.levels.length ≤ s.levels.length := by
      rw [levels]
      exact (dropWhile_sublist _).length_le
    rcases kinds with kinds | kinds
    · obtain ⟨kind, left⟩ := cons.inj kinds
      simp [none_queued, kind, left]
      omega
    · obtain ⟨kind, left⟩ := cons.inj kinds
      simp [none_queued, kind, left]
      omega
  | finish empty kinds levels =>
    have none_queued : s.pending = [] := by simp [pending, empty]
    have bare := levels.trans (drop_length_sub_one before.bottom)
    have total := congrArg (count .dedent) kinds
    have no_indent : token.kind ≠ .indent := by
      intro indent
      rcases flush_cons kinds with ⟨kind, -⟩ | ⟨kind, -⟩ <;> simp [kind] at indent
    simp [count_cons] at total
    simp [none_queued, bare, count_singleton, no_indent, total]

theorem levels_of_end (ends : token.kind = .endOfFile) : s'.levels = [0] ∧ s'.pending = [] := by
  cases calls with
  | queued first levels =>
    have front := before.first_kind (pending_of_first first)
    simp only [ends, true_and, reduceCtorEq, false_and, or_false] at front
    exact ⟨levels.trans front.2, front.1⟩
  | plain _ kind => simp [ends, Token.Kind.isLayout] at kind
  | newline _ kind => simp [ends] at kind
  | indent _ _ kind => simp [ends] at kind
  | dedent _ _ kinds => rcases kinds with kinds | kinds <;> simp [ends] at kinds
  | finish _ kinds levels =>
    rcases flush_cons kinds with ⟨-, empty, -⟩ | ⟨kind, -⟩
    · exact ⟨levels.trans (drop_length_sub_one before.bottom), empty⟩
    · simp [ends] at kind

theorem nesting_of_indent (indent : token.kind = .indent) : s.nesting = 0 ∧ s'.nesting = 0 := by
  cases calls with
  | queued first =>
    have front := before.first_kind (pending_of_first first)
    simp [indent] at front
  | plain _ kind => simp [indent, Token.Kind.isLayout] at kind
  | newline _ kind => simp [indent] at kind
  | indent _ _ _ _ _ _ outside inside => exact ⟨outside, inside⟩
  | dedent _ _ kinds => rcases kinds with kinds | kinds <;> simp [indent] at kinds
  | finish _ kinds => rcases flush_cons kinds with ⟨kind, -⟩ | ⟨kind, -⟩ <;> simp [kind] at indent

/-- A dedent comes outside of brackets, unless the end of the file was read. -/
theorem nesting_of_dedent (dedent : token.kind = .dedent) : s.nesting = 0 ∧ s'.nesting = 0 ∨ s'.Flushing := by
  cases calls with
  | queued first _ nesting =>
    have front := before.first_kind (pending_of_first first)
    simp only [dedent, true_and, reduceCtorEq, false_and, false_or, or_false] at front
    rcases front with outside | ⟨n, rest⟩
    · exact .inl ⟨outside, nesting.trans outside⟩
    · exact .inr ⟨n, rest⟩
  | plain _ kind => simp [dedent, Token.Kind.isLayout] at kind
  | newline _ kind => simp [dedent] at kind
  | indent _ _ kind => simp [dedent] at kind
  | dedent _ _ kinds => rcases kinds with kinds | kinds <;> simp [dedent] at kinds
  | finish _ kinds =>
    rcases flush_cons kinds with ⟨kind, -⟩ | ⟨-, -, rest⟩
    · simp [kind] at dedent
    · exact .inr ⟨_, rest⟩

theorem remaining_lt (more : token.isEnd = false) : s'.remaining < s.remaining := by
  have queued := length_pending s'
  unfold remaining
  cases calls with
  | queued first levels _ source =>
    rw [first, levels, source, length_cons]
    omega
  | plain empty _ left levels source =>
    have shorter := source.length_lt
    rw [empty, levels, ← queued, left]
    omega
  | newline empty _ left levels source =>
    have shorter := source.length_lt
    rw [levels, ← queued]
    rcases left with left | left <;> simp only [left, length_nil, length_cons] <;> omega
  | indent level empty _ left _ levels _ _ source =>
    have shorter := source.length_lt
    rw [levels, ← queued, left]
    simp only [length_nil, length_cons]
    omega
  | dedent level empty kinds levels _ source =>
    have shorter := source.length_lt
    have closed : s'.levels.length ≤ s.levels.length := by
      rw [levels]
      exact (dropWhile_sublist _).length_le
    rw [empty, ← queued]
    rcases kinds with kinds | kinds
    · obtain ⟨-, left⟩ := cons.inj kinds
      simp only [left, length_replicate]
      omega
    · obtain ⟨-, left⟩ := cons.inj kinds
      simp only [left, length_replicate, length_cons]
      omega
  | finish empty kinds levels source =>
    have shorter := source.length_le
    have bare := levels.trans (drop_length_sub_one before.bottom)
    rcases flush_cons kinds with ⟨kind, -⟩ | ⟨-, _, rest⟩
    · simp [Token.isEnd, kind] at more
    · rw [bare, ← queued, rest]
      simp only [length_append, length_replicate, length_nil, length_cons]
      omega

end

end Calls

/-- The state after a number of calls. -/
def after (s : Layout) : Nat → Layout
  | 0 => s
  | n + 1 => s.next.2.after n

/-- The tokens that a number of calls hand out. -/
def handed (s : Layout) : Nat → List Token
  | 0 => []
  | n + 1 => s.next.1 :: s.next.2.handed n

theorem after_succ (s : Layout) (n : Nat) : s.after (n + 1) = (s.after n).next.2 := by
  induction n generalizing s with
  | zero => rfl
  | succ n ih => exact ih s.next.2

theorem handed_succ (s : Layout) : s.handed (n + 1) = s.handed n ++ [(s.after n).next.1] := by
  induction n generalizing s with
  | zero => rfl
  | succ n ih => exact congrArg (s.next.1 :: ·) (ih s.next.2)

theorem take_handed (s : Layout) (k n : Nat) : (s.handed n).take k = s.handed (min k n) := by
  induction n generalizing s k with
  | zero => rw [Nat.min_zero]; exact take_nil
  | succ n ih =>
    cases k with
    | zero => rw [Nat.zero_min]; rfl
    | succ k =>
      rw [Nat.succ_min_succ]
      exact congrArg (s.next.1 :: ·) (ih s.next.2 k)

variable {s : Layout}

theorem Sound.next (sound : s.Sound) : s.next.2.Sound := next_calls.sound sound

theorem Sound.after (sound : s.Sound) (n : Nat) : (s.after n).Sound := by
  induction n generalizing s with
  | zero => exact sound
  | succ n ih => exact ih sound.next

/-- What is owed after a number of calls is what they opened and did not close. -/
theorem Sound.owed_after (sound : s.Sound) (n : Nat) :
    (s.after n).owed + ((s.handed n).map (·.kind)).count .dedent =
      s.owed + ((s.handed n).map (·.kind)).count .indent := by
  induction n generalizing s with
  | zero => rfl
  | succ n ih =>
    have rest := ih sound.next
    have step := next_calls.owed sound
    simp only [Layout.after, handed, map_cons, count_cons, count_nil] at rest step ⊢
    omega

theorem Sound.exists_end {s : Layout} (sound : s.Sound) :
    ∃ n ≤ s.remaining, (s.after n).next.1.isEnd = true ∧ ∀ token ∈ s.handed n, token.isEnd = false := by
  cases ends : s.next.1.isEnd with
  | true => exact ⟨0, Nat.zero_le _, ends, by simp [handed]⟩
  | false =>
    have fewer := next_calls.remaining_lt sound ends
    obtain ⟨n, _, last, before⟩ := exists_end sound.next
    exact ⟨n + 1, by omega, last, forall_mem_cons.mpr ⟨ends, before⟩⟩
termination_by s.remaining

theorem tokensFrom_eq_handed (enough : n < fuel) (ends : (s.after n).next.1.isEnd = true)
    (more : ∀ token ∈ s.handed n, token.isEnd = false) : s.tokensFrom fuel = s.handed (n + 1) := by
  induction n generalizing s fuel with
  | zero =>
    obtain ⟨fuel, rfl⟩ := Nat.exists_eq_succ_of_ne_zero (by omega : fuel ≠ 0)
    exact if_pos ends
  | succ n ih =>
    obtain ⟨fuel, rfl⟩ := Nat.exists_eq_succ_of_ne_zero (by omega : fuel ≠ 0)
    obtain ⟨first, rest⟩ := forall_mem_cons.mp more
    have behind := ih (by omega : n < fuel) ends rest
    calc s.tokensFrom (fuel + 1) = s.next.1 :: s.next.2.tokensFrom fuel := if_neg (Bool.eq_false_iff.mp first)
      _ = s.handed (n + 2) := by rw [behind]; rfl

/-- More fuel than there is to hand out changes nothing. -/
theorem Sound.tokensFrom_eq (sound : s.Sound) (enough : s.remaining < fuel)
    (enough' : s.remaining < fuel') : s.tokensFrom fuel = s.tokensFrom fuel' := by
  obtain ⟨n, _, ends, more⟩ := sound.exists_end
  rw [tokensFrom_eq_handed (by omega) ends more, tokensFrom_eq_handed (by omega : n < fuel') ends more]

/-- Once the end of the file was read, dedents come up to the end. -/
theorem Flushing.dedents (flushing : s.Flushing) :
    ∃ m, (s.after m).next.1.isEnd = true ∧ ∀ token ∈ s.handed m, token.kind = .dedent := by
  obtain ⟨n, flush⟩ := flushing
  induction n generalizing s with
  | zero =>
    cases queue : s.queue with
    | nil => simp [pending, queue] at flush
    | cons token rest =>
      refine ⟨0, ?_, by simp [handed]⟩
      have first : token.kind = .endOfFile ∧ rest = [] := by simpa [pending, queue] using flush
      simp [after, next, queue, Token.isEnd, first.1]
  | succ n ih =>
    rcases queue : s.queue with _ | ⟨token, rest⟩
    · simp [pending, queue] at flush
    have shape : token.kind = .dedent ∧ rest.map (·.kind) = replicate n .dedent ++ [.endOfFile] := by
      simpa [pending, queue, replicate_succ] using flush
    have next : s.next = (token, { s with queue := rest }) := by simp [next, queue]
    obtain ⟨m, ends, dedents⟩ := ih (s := s.next.2) (by rw [next]; exact shape.2)
    refine ⟨m + 1, ends, forall_mem_cons.mpr ⟨?_, dedents⟩⟩
    rw [next]
    exact shape.1

theorem Sound.stack (sound : s.Sound) :
    s.levels.reverse.Pairwise (· < ·) ∧ s.levels.reverse.head? = some 0 :=
  ⟨pairwise_reverse.mpr sound.ordered, head?_reverse.trans sound.bottom⟩

end Layout

/-- The first end of the file comes after `n` calls. Up to there every prefix of the tokens has at most as many
dedents as indents, and all of them as many. At every call, also behind the end, the open indentations grow from
zero, an indent comes outside of brackets, and so does a dedent unless only dedents stand between it and an end of
the file. -/
theorem Token.ofLexemes_indents_balanced (source : List Lexeme) :
    ∃ n, Token.ofLexemes source = (ofSource source).handed (n + 1) ∧
      (∀ token ∈ (ofSource source).handed n, token.isEnd = false) ∧
      ((ofSource source).after n).next.1.isEnd = true ∧
      ((ofSource source).after (n + 1)).levels = [0] ∧
      (∀ k, (((Token.ofLexemes source).take k).map (·.kind)).count .dedent ≤
        (((Token.ofLexemes source).take k).map (·.kind)).count .indent) ∧
      ((Token.ofLexemes source).map (·.kind)).count .dedent =
        ((Token.ofLexemes source).map (·.kind)).count .indent ∧
      ∀ k, let s := (ofSource source).after k
        (s.levels.reverse.Pairwise (· < ·) ∧ s.levels.reverse.head? = some 0) ∧
        (s.next.1.kind = .indent → s.nesting = 0 ∧ s.next.2.nesting = 0) ∧
        (s.next.1.kind = .dedent → s.nesting = 0 ∧ s.next.2.nesting = 0 ∨
          ∃ m, (s.after m).next.1.isEnd = true ∧ ∀ token ∈ s.handed m, token.kind = .dedent) := by
  have sound := Layout.Sound.ofSource source
  obtain ⟨n, _, ends, more⟩ := sound.exists_end
  have enough : n < 4 * source.length + 2 := by
    have start : (ofSource source).remaining = 4 * source.length := rfl
    omega
  have tokens : Token.ofLexemes source = (ofSource source).handed (n + 1) :=
    tokensFrom_eq_handed enough ends more
  have closed := next_calls.levels_of_end (sound.after n) (by simpa [Token.isEnd] using ends)
  rw [← after_succ] at closed
  have nothing : (ofSource source).owed = 0 := rfl
  refine ⟨n, tokens, more, ends, closed.1, fun k => ?_, ?_, fun k => ⟨(sound.after k).stack, ?_, ?_⟩⟩
  · have balance := sound.owed_after (min k (n + 1))
    rw [← take_handed, ← tokens] at balance
    omega
  · have balance := sound.owed_after (n + 1)
    rw [← tokens] at balance
    have paid : ((ofSource source).after (n + 1)).owed = 0 := by simp [owed, closed.1, closed.2]
    omega
  · exact next_calls.nesting_of_indent (sound.after k)
  · intro dedent
    rcases next_calls.nesting_of_dedent (sound.after k) dedent with outside | flushing
    · exact .inl outside
    · obtain ⟨m, last, dedents⟩ := flushing.dedents
      exact .inr ⟨m + 1, last, forall_mem_cons.mpr ⟨dedent, dedents⟩⟩

/-- A call over two lines, and a line indented below it. -/
def Lexeme.indented : List Lexeme :=
  [⟨.word, "f", none, .unknown⟩, ⟨.leftParen, "(", none, .unknown⟩, ⟨.newline, "\n", none, .unknown⟩,
    ⟨.blank, "\t\t", none, .unknown⟩, ⟨.rightParen, ")", none, .unknown⟩, ⟨.newline, "\n", none, .unknown⟩,
    ⟨.blank, "\t", none, .unknown⟩, ⟨.word, "g", none, .unknown⟩]

theorem Token.indented_balanced : (Token.ofLexemes Lexeme.indented).map (·.kind) =
        [.identifier, .symbol .leftParen, .symbol .rightParen, .indent, .newline, .identifier, .dedent, .endOfFile] ∧
      ((ofSource Lexeme.indented).after 3).next.1.kind = .indent ∧
      ((ofSource Lexeme.indented).after 3).nesting = 0 ∧
      ((Token.ofLexemes Lexeme.indented).map (·.kind)).count .dedent =
        ((Token.ofLexemes Lexeme.indented).map (·.kind)).count .indent := by
  obtain ⟨_, -, -, -, -, -, equal, calls⟩ := Token.ofLexemes_indents_balanced Lexeme.indented
  have indent : ((ofSource Lexeme.indented).after 3).next.1.kind = .indent := by decide +kernel
  exact ⟨by decide +kernel, indent, ((calls 3).2.1 indent).1, equal⟩

end DreamMaker
