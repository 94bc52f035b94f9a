import Mathlib.Algebra.Order.BigOperators.Group.List
import Mathlib.Algebra.Order.Group.Nat
import DreamMaker.Proofs.Parsing.Lockstep
import DreamMaker.Proofs.Token.Spending

namespace DreamMaker

open List

namespace Layout

/-- A bound on what the tokens to come weigh. -/
def load (s : Layout) : Nat := s.remaining + 4 * (s.source.map Lexeme.held).sum

theorem Sound.weight_next {s : Layout} (sound : s.Sound) (more : s.next.1.isEnd = false) :
    Parsing.weight s.next.1 + s.next.2.load ≤ s.load := by
  have fewer := next_calls.remaining_lt sound more
  unfold load Parsing.weight
  cases queue : s.queue with
  | nil =>
    obtain ⟨spent, split, string⟩ := next_spends queue
    have held : (s.source.map Lexeme.held).sum = (spent.map Lexeme.held).sum +
        (s.next.2.source.map Lexeme.held).sum := by
      rw [split, map_append, sum_append]
    by_cases kind : s.next.1.kind = .string
    · obtain ⟨l, member, _⟩ := string kind
      have part : l.held ≤ (spent.map Lexeme.held).sum := le_sum_of_mem (mem_map_of_mem member)
      rw [if_pos kind]
      omega
    · rw [if_neg kind]
      omega
  | cons token queue' =>
    have next : s.next = (token, { s with queue := queue' }) := by simp [Layout.next, queue]
    have first := sound.first_kind (show s.pending = token.kind :: queue'.map (·.kind) by simp [pending, queue])
    have kind : token.kind ≠ .string := by
      rcases first with ⟨kind, -⟩ | ⟨kind, -⟩ | kind | kind <;> simp [kind]
    rw [next] at fewer ⊢
    rw [if_neg kind]
    dsimp only at fewer ⊢
    omega

theorem Sound.weight_tokensFrom {s : Layout} (sound : s.Sound) (fuel : Nat) :
    ((s.tokensFrom fuel).map Parsing.weight).sum ≤ s.load + 1 := by
  induction fuel generalizing s with
  | zero => exact Nat.zero_le _
  | succ fuel ih =>
    rw [tokensFrom_succ]
    cases ends : s.next.1.isEnd with
    | true =>
      have kind := Parsing.kind_of_end ends
      simp [Parsing.weight, kind]
    | false =>
      have step := sound.weight_next ends
      have rest := ih sound.next
      simp only [Bool.false_eq_true, if_false, map_cons, sum_cons]
      omega

end Layout

theorem Lexeme.extent_eq : extent source = source.length + (source.map held).sum := by
  unfold extent
  induction source with
  | nil => rfl
  | cons _ source _ =>
    simp only [map_cons, sum_cons, length_cons]
    omega

/-- What the tokens weigh is linear in the number of lexemes and the length of the text in quotes. -/
theorem Token.weight_ofLexemes (source : List Lexeme) :
    ((Token.ofLexemes source).map Parsing.weight).sum ≤ 4 * Lexeme.extent source + 1 := by
  have bound := (Layout.Sound.ofSource source).weight_tokensFrom (4 * source.length + 2)
  have load : (Layout.ofSource source).load = 4 * source.length + 4 * (source.map Lexeme.held).sum := rfl
  rw [Token.ofLexemes, Lexeme.extent_eq]
  omega

theorem Token.endsOnce_ofLexemes (source : List Lexeme) : Parsing.EndsOnce (Token.ofLexemes source) := by
  obtain ⟨n, _, ends, more⟩ := (Layout.Sound.ofSource source).exists_end
  have start : (Layout.ofSource source).remaining = 4 * source.length := rfl
  refine ⟨(Layout.ofSource source).handed n, ((Layout.ofSource source).after n).next.1, ?_, ends, more⟩
  rw [← Layout.handed_succ]
  exact Layout.tokensFrom_eq_handed (by omega) ends more

namespace Segment

theorem holeLength?_lt (closed : holeLength? outer quote? cs = some n) : n < cs.length := by
  fun_induction holeLength? outer quote? cs generalizing n with
  | case1 => cases closed
  | case2 => cases closed
  | case7 =>
    cases closed
    simp
  | _ =>
    rename_i ih
    obtain ⟨_, inside, rfl⟩ := Option.map_eq_some_iff.mp closed
    have shorter := ih inside
    simp only [length_cons]
    omega

theorem length_of_hole_mem_splitFrom {hole : List Char} (member : .hole hole ∈ splitFrom taken run cs) :
    hole.length + 2 ≤ cs.length := by
  fun_induction splitFrom taken run cs with
  | case1 => simp at member
  | case2 run c cs taken ih =>
    have rest := ih member
    simp only [length_cons]
    omega
  | case3 => simp at member
  | case4 run _ cs ih =>
    have rest := ih member
    simp only [length_cons]
    omega
  | case5 => simp at member
  | case6 run cs _ closed _ ih =>
    have inside := holeLength?_lt closed
    simp only [mem_cons, reduceCtorEq, false_or, Segment.hole.injEq] at member
    rcases member with rfl | member
    · simp only [length_take, length_cons]
      omega
    · have rest := ih member
      simp only [length_cons]
      omega
  | case7 run c cs _ _ ih =>
    have rest := ih member
    simp only [length_cons]
    omega

/-- The brackets around a hole do not belong to it. -/
theorem length_of_hole_mem {hole : List Char} (member : .hole hole ∈ split cs) : hole.length + 2 ≤ cs.length :=
  length_of_hole_mem_splitFrom member

end Segment

theorem Text.length_trim (cs : List Char) : (Text.trim cs).length ≤ cs.length := by
  have front := (dropWhile_sublist isBlank (l := cs)).length_le
  have back := (dropWhile_sublist isBlank (l := (cs.dropWhile isBlank).reverse)).length_le
  rw [length_reverse] at back
  rw [Text.trim, length_reverse]
  omega

end DreamMaker
