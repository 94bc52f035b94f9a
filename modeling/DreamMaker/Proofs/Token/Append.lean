import Mathlib.Data.List.Find
import Mathlib.Data.List.TakeWhile
import DreamMaker.Proofs.Lexeme.Append
import DreamMaker.Proofs.Token.Moving

/-!
Tokens of whole lines. Where the lexemes of some lines close every bracket that they open, the tokens of what stands
behind them follow their own, as if nothing stood before.
-/

namespace DreamMaker

open List Layout

variable {source rest : List Lexeme}

/-- Shows nothing of a place. -/
def Span.hide (_ : Span) : Span := .unknown

instance : Merging Span.hide := ⟨fun _ _ => rfl⟩

namespace Lexeme.OfLines

theorem of_suffix (lines : OfLines source) (suffix : rest <:+ source) : OfLines rest where
  goes_on l member := lines.goes_on l (suffix.subset member)
  line l last := by
    obtain ⟨_, rfl⟩ := suffix
    refine lines.line l ?_
    rw [getLast?_append, Option.mem_def.mp last]
    rfl

end Lexeme.OfLines

/-- No line end comes before the last lexeme. -/
def Lexeme.SingleLine (source : List Lexeme) : Prop :=
  ∀ front l more, source = front ++ l :: more → l.kind = .newline → more = []

theorem Lexeme.SingleLine.of_suffix (single : SingleLine source) (suffix : rest <:+ source) : SingleLine rest := by
  rintro front l more rfl newline
  obtain ⟨before, rfl⟩ := suffix
  exact single (before ++ front) l more (append_assoc ..).symm newline

namespace Layout

open Lexeme

variable {s : Layout} {l : Lexeme}

/-- The same with more lexemes behind the source. -/
def append (s : Layout) (rest : List Lexeme) : Layout := { s with source := s.source ++ rest }

/-- The parentheses and brackets that are open behind the source. -/
def openBehind (s : Layout) : Nat := (s.source.map (·.kind)).foldl Kind.nesting s.nesting

/-- The source holds whole lines, and behind them nothing is open. -/
structure Lined (s : Layout) : Prop where
  lines : OfLines s.source
  closed : s.openBehind = 0
  bottom : s.levels.dropWhile (0 < ·) = [0]
  outside : s.source = [] → s.levels = [0]
  goes_on : s.finished = false

/-- What holds between two calls. -/
structure Ready (s : Layout) : Prop extends s.Lined where
  queue : ∀ token ∈ s.queue, token.isEnd = false ∧ token.kind ≠ .indent
  last : s.source = [] → ∀ token ∈ s.queue.getLast?, token.kind = .newline ∨ token.kind = .dedent
  spaced : s.spaced = false

/-- More lexemes behind the source do not change what is handed out. -/
structure Gives (rest : List Lexeme) (given given' : Token × Layout) : Prop where
  same : given' = (given.1, given.2.append rest)
  more : given.1.isEnd = false
  ready : given.2.Ready
  last : given.2.source = [] → ∀ token ∈ (given.1 :: given.2.queue).getLast?, token.kind = .newline ∨
    token.kind = .dedent

theorem Lined.source_ne_nil (lined : Lined { s with source := l :: s.source }) (other : l.kind ≠ .newline) :
    s.source ≠ [] := by
  intro nothing
  have line := lined.lines.line l
  rw [nothing] at line
  exact other (line rfl)

theorem Lined.tail (lined : Lined { s with source := l :: s.source }) (some : s.source ≠ [])
    (nests : l.kind.nesting s.nesting = n) : Lined { s with nesting := n } := by
  have closed := lined.closed
  rw [openBehind] at closed
  refine ⟨lined.lines.of_suffix (suffix_cons _ _), ?_, lined.bottom, fun nothing =>
    absurd nothing some, lined.goes_on⟩
  rw [← nests]
  exact closed

theorem lineStart_append (flush : ∀ m ∈ rest.head?, m.kind ≠ .blank) (source : List Lexeme) :
    lineStart (source ++ rest) = ((lineStart source).1, (lineStart source).2 ++ rest) := by
  cases source with
  | nil =>
    cases rest with
    | nil => rfl
    | cons m rest => simp [lineStart, flush m rfl]
  | cons m source =>
    by_cases blank : m.kind = .blank <;> simp [lineStart, blank]

theorem lineStart_lines (lines : OfLines source) (start : lineStart source = (level, behind)) :
    OfLines behind ∧
      (∀ n, (behind.map (·.kind)).foldl Kind.nesting n = (source.map (·.kind)).foldl Kind.nesting n) ∧
      (behind = [] → level = 0) := by
  cases source with
  | nil =>
    cases start
    exact ⟨lines, fun _ => rfl, fun _ => rfl⟩
  | cons m source =>
    by_cases blank : m.kind = .blank
    · obtain ⟨rfl, rfl⟩ : m.text.length = level ∧ source = behind := by simpa [lineStart, blank] using start
      refine ⟨lines.of_suffix (suffix_cons _ _), fun n => by simp [blank, Kind.nesting], ?_⟩
      rintro rfl
      have newline := lines.line m rfl
      rw [blank] at newline
      cases newline
    · obtain ⟨rfl, rfl⟩ : 0 = level ∧ m :: source = behind := by simpa [lineStart, blank] using start
      exact ⟨lines, fun _ => rfl, fun _ => rfl⟩

theorem dropWhile_dropWhile_lt (levels : List Nat) :
    (levels.dropWhile (level < ·)).dropWhile (0 < ·) = levels.dropWhile (0 < ·) := by
  induction levels with
  | nil => rfl
  | cons n levels ih =>
    by_cases above : level < n
    · have positive : 0 < n := by omega
      simpa [above, positive] using ih
    · simp [above]

theorem startLine_gives (lined : Lined { s with source := l :: s.source })
    (newline : l.kind = .newline) (empty : s.queue = [])
    (flush : ∀ m ∈ rest.head?, m.kind ≠ .blank) : Gives rest (s.startLine l) ((s.append rest).startLine l) := by
  have bottom := lined.bottom
  have closed := lined.closed
  rw [openBehind, map_cons, newline] at closed
  unfold startLine
  rw [show (s.append rest).source = s.source ++ rest from rfl, lineStart_append flush]
  rcases start : lineStart s.source with ⟨level, behind⟩
  obtain ⟨lines, nests, zero⟩ := lineStart_lines (lined.lines.of_suffix (suffix_cons _ _)) start
  have ready {levels : List Nat} {queue : List Token} (bottom : levels.dropWhile (0 < ·) = [0])
      (outside : behind = [] → levels = [0]) (kinds : ∀ token ∈ queue,
        token.kind = .newline ∨ token.kind = .dedent) :
      Ready { s with source := behind, spaced := false, levels, queue } := {
    lines, bottom, outside, closed := (nests _).trans closed, goes_on := lined.goes_on, spaced := rfl
    queue := fun token member => by rcases kinds token member with kind | kind <;> simp [Token.isEnd, kind]
    last := fun _ token last => kinds token (mem_of_getLast? last) }
  have dropped : (s.levels.dropWhile (level < ·)).dropWhile (0 < ·) = [0] := by rw [dropWhile_dropWhile_lt, bottom]
  have none_kept : behind = [] → s.levels.dropWhile (level < ·) = [0] := fun nothing => by rw [zero nothing, bottom]
  show Gives rest (if s.levels.head?.getD 0 < level then _ else if level < s.levels.head?.getD 0 then
      if s.levels.contains level then _ else _ else _)
    (if s.levels.head?.getD 0 < level then _ else if level < s.levels.head?.getD 0 then
      if s.levels.contains level then _ else _ else _)
  by_cases above : s.levels.head?.getD 0 < level
  · have inside : behind ≠ [] := fun nothing => by
      rw [zero nothing] at above
      exact Nat.not_lt_zero _ above
    have positive : 0 < level := by omega
    rw [if_pos above, if_pos above]
    refine ⟨rfl, rfl, ready ?_ (absurd · inside) (by simp), fun nothing => absurd nothing inside⟩
    simpa [positive] using bottom
  rw [if_neg above, if_neg above]
  by_cases below : level < s.levels.head?.getD 0
  · rw [if_pos below]
    split
    · refine ⟨rfl, rfl, ready dropped none_kept (by simp), fun _ token last => ?_⟩
      have member := mem_of_getLast? last
      simp only [mem_cons, mem_replicate] at member
      rcases member with rfl | ⟨-, rfl⟩
      · exact .inl rfl
      · exact .inr rfl
    · refine ⟨rfl, rfl, ready dropped none_kept (by simp), fun _ token last => ?_⟩
      have member := mem_of_getLast? ((getLast?_cons_cons ..).symm.trans last)
      simp only [mem_cons, mem_replicate] at member
      rcases member with rfl | ⟨-, rfl⟩
      · exact .inl rfl
      · exact .inr rfl
  · rw [if_neg below, if_neg below]
    have level_eq : level = s.levels.head?.getD 0 := by omega
    have settled : behind = [] → s.levels = [0] := fun nothing => by
      rw [zero nothing] at level_eq
      cases levels : s.levels with
      | nil => simp [levels] at bottom
      | cons n _ =>
        obtain rfl : 0 = n := by simpa [levels] using level_eq
        simpa [levels] using bottom
    refine ⟨rfl, rfl, ready bottom settled (by simp [empty]), fun _ token last => .inl ?_⟩
    have member := mem_of_getLast? last
    simp only [empty, mem_singleton] at member
    rw [member]

/-- Lines behind which nothing is open, and the same with more behind them. -/
def Appends (rest : List Lexeme) (opened : Nat) (source source' : List Lexeme) : Prop :=
  source' = source ++ rest ∧ source ≠ [] ∧ OfLines source ∧ (source.map (·.kind)).foldl Kind.nesting opened = 0

theorem agrees_appends : Agrees (Appends rest) := by
  rintro _ _ _ ⟨rfl, some, lines, closed⟩
  obtain ⟨l, tail, rfl⟩ := exists_cons_of_ne_nil some
  cases layout : l.kind.isLayout with
  | true => exact .inr ⟨by simpa using layout, by simpa using layout⟩
  | false =>
    refine .inl ⟨l, tail, tail ++ rest, rfl, rfl, rfl, ?_, lines.of_suffix (suffix_cons _ _), closed⟩
    rintro rfl
    rw [lines.line l rfl] at layout
    cases layout

theorem give?_gives (lined : Lined { s with source := l :: s.source }) (empty : s.queue = [])
    (flush : ∀ m ∈ rest.head?, m.kind ≠ .blank) (found : s.give? l = some given) :
    ∃ given', (s.append rest).give? l = some given' ∧ Gives rest given given' := by
  cases give?_starts empty found with
  | line newline outside =>
    refine ⟨_, ?_, startLine_gives lined newline empty flush⟩
    simp only [give?, newline]
    exact if_neg (outside ▸ Nat.lt_irrefl 0)
  | finish ends => exact absurd ends (lined.lines.goes_on l mem_cons_self)
  | token inside _ piece =>
    have some := lined.source_ne_nil (by rintro newline; rw [newline] at inside; cases inside)
    obtain ⟨_, found', rfl, left, lines, closed⟩ := give?_agrees agrees_appends inside
      ⟨rfl, some, lined.lines.of_suffix (suffix_cons _ _), lined.closed⟩ found
    obtain ⟨first, others⟩ := forall_mem_cons.mp piece.goes_on
    exact ⟨_, found', {
      same := rfl
      more := first.1
      ready := {
        lines, closed, bottom := lined.bottom, outside := fun nothing => absurd nothing left, goes_on := lined.goes_on
        queue := others
        last := fun nothing => absurd nothing left
        spaced := rfl }
      last := fun nothing => absurd nothing left }⟩

theorem kind_of_give?_none (nothing : s.give? l = none) : l.kind = .blank ∨ l.kind = .newline ∧ 0 < s.nesting := by
  cases kind : l.kind <;> simp only [give?, kind, reduceCtorEq] at nothing
  case blank => exact .inl rfl
  case newline =>
    split at nothing
    · rename_i inside
      exact .inr ⟨rfl, inside⟩
    · cases nothing

theorem give?_of_blank {t : Layout} (nothing : s.give? l = none) (nests : t.nesting = s.nesting) :
    t.give? l = none := by
  rcases kind_of_give?_none nothing with blank | ⟨newline, inside⟩
  · simp only [give?, blank]
  · simp only [give?, newline]
    exact if_pos (nests ▸ inside)

theorem append_read (source : List Lexeme) : (s.append rest).read source = s.read source := by
  cases source <;> rfl

theorem read_gives (some : source ≠ []) (lined : Lined { s with source }) (empty : s.queue = [])
    (flush : ∀ m ∈ rest.head?, m.kind ≠ .blank) : Gives rest (s.read source) (s.read (source ++ rest)) := by
  induction source generalizing s with
  | nil => exact absurd rfl some
  | cons l more ih =>
    have here : Lined { { s with source := more, lastSpan := l.span } with source := l :: more } :=
      ⟨lined.lines, lined.closed, lined.bottom, lined.outside, lined.goes_on⟩
    rw [cons_append, read_cons, read_cons]
    cases found : { s with source := more, lastSpan := l.span }.give? l with
    | some _ =>
      obtain ⟨given', found', gives⟩ := give?_gives
        (s := { s with source := more, lastSpan := l.span }) here empty flush found
      have behind : ({ s with source := more ++ rest, lastSpan := l.span } : Layout).give? l =
        Option.some given' := found'
      rw [behind]
      exact gives
    | none =>
      have behind : ({ s with source := more ++ rest, lastSpan := l.span } : Layout).give? l = Option.none :=
        give?_of_blank found rfl
      rw [behind]
      have kinds := kind_of_give?_none found
      have flat : l.kind.nesting s.nesting = s.nesting := by
        rcases kinds with kind | ⟨kind, -⟩ <;> rw [kind] <;> rfl
      -- behind a line end inside of brackets something closes them
      have more_left : more ≠ [] := by
        rcases kinds with blank | ⟨-, inside⟩
        · exact Lined.source_ne_nil (s := { s with source := more, lastSpan := l.span }) here (by simp [blank])
        rintro rfl
        have closed : l.kind.nesting s.nesting = 0 := lined.closed
        dsimp only at inside
        omega
      have left := Lined.tail (s := { s with source := more, lastSpan := l.span }) here more_left flat
      have reads := ih (s := { s with source := more, lastSpan := l.span, spaced := true }) more_left
        ⟨left.lines, left.closed, left.bottom, left.outside, left.goes_on⟩ empty
      rw [← append_read (more ++ rest)] at reads
      exact reads

theorem next_gives (ready : s.Ready) (some : s.source ≠ [] ∨ s.queue ≠ [])
    (flush : ∀ m ∈ rest.head?, m.kind ≠ .blank) :
    Gives rest s.next (s.append rest).next := by
  unfold next
  rw [show (s.append rest).queue = s.queue from rfl]
  cases queue : s.queue with
  | nil =>
    rw [append_read]
    exact read_gives (some.resolve_right (absurd queue)) ready.toLined queue flush
  | cons _ more =>
    obtain ⟨first, others⟩ := forall_mem_cons.mp (queue ▸ ready.queue)
    have last := queue ▸ ready.last
    refine ⟨rfl, first.1,
      { ready with queue := others, last := fun nothing token' behind => last nothing token' ?_ }, last⟩
    cases more with
    | nil => cases behind
    | cons _ more => rwa [getLast?_cons_cons]

/-- Indentation is read behind a line end that is not the last lexeme. -/
theorem next_single (ready : s.Ready) (single : SingleLine s.source) :
    s.next.1.kind ≠ .indent ∧ SingleLine s.next.2.source := by
  refine ⟨fun indent => ?_, single.of_suffix source_next⟩
  cases queue : s.queue with
  | cons token _ =>
    rw [next, queue] at indent
    exact (ready.queue token (by simp [queue])).2 indent
  | nil =>
    obtain ⟨skipped, l, source, _, _, split, -, starts⟩ := exists_starts queue
    generalize s.next = given at starts indent
    cases starts with
    | line newline =>
      obtain rfl : source = [] := by
        rcases split with split | ⟨-, nothing, -⟩
        · exact single skipped l source split newline
        · exact nothing
      unfold startLine at indent
      dsimp only [lineStart] at indent
      split at indent
      · rename_i above
        exact Nat.not_lt_zero _ above
      · split at indent
        · split at indent <;> cases indent
        · cases indent
    | finish =>
      unfold endFile at indent
      cases count : s.levels.length - 1 <;> simp [count, replicate_succ, give] at indent
    | token _ _ piece => exact (piece.goes_on _ mem_cons_self).2 indent

/-- The lines are handed out alike whatever stands behind them, which is then the source. -/
theorem Ready.exists_after {s : Layout} (ready : s.Ready) (sound : s.Sound) :
    ∃ n ≤ s.remaining, (s.after n).source = [] ∧ (s.after n).queue = [] ∧ (s.after n).Ready ∧
      (∀ token ∈ s.handed n, token.isEnd = false) ∧
      (∀ token ∈ (s.handed n).getLast?, token.kind = .newline ∨ token.kind = .dedent) ∧
      (SingleLine s.source → ∀ token ∈ s.handed n, token.kind ≠ .indent) ∧
      ∀ rest : List Lexeme, (∀ m ∈ rest.head?, m.kind ≠ .blank) →
        (s.append rest).handed n = s.handed n ∧ (s.append rest).after n = (s.after n).append rest := by
  by_cases done : s.source = [] ∧ s.queue = []
  · exact ⟨0, Nat.zero_le _, done.1, done.2, ready, by simp [handed], by simp [handed],
      by simp [handed], fun _ _ => ⟨rfl, rfl⟩⟩
  have some : s.source ≠ [] ∨ s.queue ≠ [] := by rwa [not_and_or] at done
  have gives (rest : List Lexeme) (flush : ∀ m ∈ rest.head?, m.kind ≠ .blank) : Gives rest s.next
    (s.append rest).next :=
    next_gives ready some flush
  have alone := gives [] (by simp)
  have fewer := next_calls.remaining_lt sound alone.more
  obtain ⟨n, _, source, queue, after, more, last, flat, same⟩ := Ready.exists_after alone.ready sound.next
  refine ⟨n + 1, by omega, source, queue, after, forall_mem_cons.mpr ⟨alone.more, more⟩, ?_, fun single => ?_,
    fun rest flush => ?_⟩
  · intro token behind
    cases n with
    | zero =>
      refine alone.last source token ?_
      rw [show s.next.2.queue = [] from queue]
      exact behind
    | succ n => exact last token ((getLast?_cons_cons ..).symm.trans behind)
  · obtain ⟨first, left⟩ := next_single ready single
    exact forall_mem_cons.mpr ⟨first, flat left⟩
  · obtain ⟨handed, state⟩ := same rest flush
    have next := (gives rest flush).same
    simp only [Layout.handed, Layout.after, next, handed, state, true_and]
termination_by s.remaining

theorem tokensFrom_add (more : ∀ token ∈ s.handed n, token.isEnd = false) :
    s.tokensFrom (n + fuel) = s.handed n ++ (s.after n).tokensFrom fuel := by
  induction n generalizing s with
  | zero => rw [Nat.zero_add]; rfl
  | succ n ih =>
    obtain ⟨first, others⟩ := forall_mem_cons.mp more
    rw [Nat.succ_add, tokensFrom_succ, if_neg (Bool.eq_false_iff.mp first), ih others]
    rfl

/-- Behind the lines the state is as before any lexeme, apart from the place of the last one. -/
theorem Ready.move_append (ready : s.Ready) (source : s.source = []) (queue : s.queue = []) (rest : List Lexeme) :
    Alike Span.hide (s.append rest) (ofSource rest) := by
  have levels := ready.outside source
  have spaced := ready.spaced
  have finished := ready.goes_on
  have nesting := ready.closed
  obtain ⟨_, _, _, _, _, _, _⟩ := s
  subst source queue levels spaced finished nesting
  rfl

end Layout

/-- Tokens of whole lines. -/
structure Token.OfLines (tokens : List Token) : Prop where
  goes_on : ∀ token ∈ tokens, token.isEnd = false
  last : ∀ token ∈ tokens.getLast?, token.kind = .newline ∨ token.kind = .dedent
  opened : ∀ k, ((tokens.take k).map (·.kind)).count .dedent ≤ ((tokens.take k).map (·.kind)).count .indent
  closed : (tokens.map (·.kind)).count .dedent = (tokens.map (·.kind)).count .indent

/-- The tokens of lines come before the tokens of what stands behind them. -/
theorem Token.exists_ofLexemes_append (ends : Lexeme.OfLines lines)
    (closed : (lines.map (·.kind)).foldl Lexeme.Kind.nesting 0 = 0) :
    ∃ tokens, Token.OfLines tokens ∧ (Lexeme.SingleLine lines → ∀ token ∈ tokens, token.kind ≠ .indent) ∧
      ∀ rest : List Lexeme, (∀ l ∈ rest.head?, l.kind ≠ .blank) →
      move Span.hide (Token.ofLexemes (lines ++ rest)) = move Span.hide tokens ++ move Span.hide
        (Token.ofLexemes rest) := by
  have sound := Layout.Sound.ofSource lines
  have ready : (ofSource lines).Ready :=
    ⟨⟨ends, closed, rfl, fun _ => rfl, rfl⟩, by simp [ofSource], by simp [ofSource], rfl⟩
  obtain ⟨n, _, source, queue, after, more, last, flat, same⟩ := ready.exists_after sound
  have start : (ofSource lines).owed = 0 := rfl
  have settled : ((ofSource lines).after n).owed = 0 := by simp [owed, pending, after.outside source, queue]
  refine ⟨(ofSource lines).handed n, ⟨more, last, fun k => ?_, ?_⟩, flat, fun rest flush => ?_⟩
  · have balance := sound.owed_after (min k n)
    rw [← take_handed] at balance
    omega
  · have balance := sound.owed_after n
    omega
  · obtain ⟨handed, state⟩ := same rest flush
    have before : (ofSource lines).append rest = ofSource (lines ++ rest) := rfl
    have left : (ofSource lines).remaining = 4 * lines.length := rfl
    have alike := after.move_append source queue rest
    obtain ⟨fuel, enough⟩ : ∃ fuel, 4 * (lines ++ rest).length + 2 = n + fuel :=
      Nat.exists_eq_add_of_le (by rw [length_append]; omega)
    have whole : (ofSource rest).remaining = 4 * rest.length := rfl
    have fuels : (ofSource rest).tokensFrom fuel = Token.ofLexemes rest := by
      rw [length_append] at enough
      exact (Layout.Sound.ofSource rest).tokensFrom_eq (by omega) (by omega)
    rw [Token.ofLexemes, enough, ← before, tokensFrom_add (by rwa [handed]), handed, state,
      move_append, move_tokensFrom, alike,
      ← move_tokensFrom, fuels]

end DreamMaker
