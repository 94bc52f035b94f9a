import Mathlib.Algebra.Ring.Nat
import DreamMaker.Proofs.Lexeme.Steps
import DreamMaker.Proofs.Token.Balance

namespace DreamMaker

open List

namespace Lexeme

/-- The number of lexemes and the length of the text that they hold. -/
def extent (source : List Lexeme) : Nat := (source.map fun l => 1 + l.held).sum

end Lexeme

namespace Layout

theorem next_spends {s : Layout} (empty : s.queue = []) : ∃ spent, s.source = spent ++ s.next.2.source ∧
    (s.next.1.kind = .string → ∃ l ∈ spent, s.next.1.textValue.length = l.held) := by
  cases next_calls (s := s) with
  | queued first => rw [empty] at first; cases first
  | finish _ kinds _ source =>
    obtain ⟨spent, split⟩ := source
    refine ⟨spent, split.symm, fun string => ?_⟩
    rcases flush_cons kinds with ⟨kind, -⟩ | ⟨kind, -⟩ <;> simp [kind] at string
  | plain _ _ _ _ spends | newline _ _ _ _ spends | indent _ _ _ _ _ _ _ _ spends | dedent _ _ _ _ _ spends =>
    obtain ⟨spent, -, split, string⟩ := spends
    exact ⟨spent, split, string⟩

end Layout

namespace Lexeme

variable {body : Body}

/-- The value of a body is not longer than what was read, and that lies in the text. -/
structure Body.Within (body : Body) (length : Nat) : Prop where
  value : body.value.length ≤ body.length
  length : body.length ≤ length

theorem Body.Within.after (within : body.Within n)
    (short : piece.length ≤ taken) (enough : taken + n ≤ m) : (body.after piece taken).Within m := by
  obtain ⟨_, _⟩ := within
  exact ⟨by simp [Body.after]; omega, by simp [Body.after]; omega⟩

theorem Body.broken_within (complaint : String) (n : Nat) : (Body.broken complaint).Within n :=
  ⟨Nat.le_refl _, Nat.zero_le _⟩

theorem Body.complete_within (n : Nat) : Body.complete.Within n := ⟨Nat.le_refl _, Nat.zero_le _⟩

/-- What is read at a character lies in it and the one behind it. -/
def Quoting.Look.Within (next? : Option Char) : Quoting.Look → Prop
  | .stop body => body.Within (1 + next?.toList.length)
  | .go _ piece more => piece.length ≤ more + 1 ∧ more ≤ next?.toList.length

theorem Quoting.leave_within (q : Quoting) {next? : Option Char} (short : value.length ≤ marks.length)
    (near : marks.length ≤ 1 + next?.toList.length) : (q.leave marks value).Within next? := by
  unfold Quoting.leave
  split
  · exact (Body.complete_within 0).after short (by omega)
  · exact ⟨by omega, by omega⟩

theorem Quoting.look_within (q : Quoting) (c : Char) (next? : Option Char) : (q.look c next?).Within next? := by
  have copies (q : Quoting) : (Look.go q [c] 0).Within next? := ⟨Nat.le_refl _, Nat.zero_le _⟩
  have drops (q : Quoting) : (Look.go q [] 0).Within next? := ⟨Nat.zero_le _, Nat.zero_le _⟩
  unfold Quoting.look
  split
  · exact drops _
  split
  · split
    · exact Body.broken_within _ _
    split
    · split
      · exact (Body.broken_within _ 0).after (by simp) (by simp)
      · split
        · exact drops _
        · exact ⟨Nat.le_refl _, Nat.le_refl _⟩
    split
    · exact ⟨Nat.le_refl _, Nat.zero_le _⟩
    split
    · split
      · exact q.leave_within (by simp) (by simp)
      split
      · rename_i brace
        exact q.leave_within (by simp) (by simp [brace])
      · exact copies _
    · exact copies _
  · split
    · exact copies _
    split
    · split
      · exact copies _
      · exact q.leave_within (by simp) (by simp)
    split
    · exact ⟨Nat.le_refl _, Nat.zero_le _⟩
    split
    · rename_i brace
      simp only [Bool.and_eq_true, decide_eq_true_eq] at brace
      exact ⟨Nat.le_refl _, by simp [brace.2]⟩
    · exact copies _

theorem bodyFrom_within (taken : Nat) (q : Quoting) (cs : List Char) :
    (bodyFrom taken q cs).Within (cs.length - taken) := by
  induction cs generalizing taken q with
  | nil => exact Body.broken_within _ _
  | cons c cs ih =>
    cases taken with
    | succ taken =>
      rw [length_cons, Nat.add_sub_add_right]
      exact ih taken q
    | zero =>
      have within := q.look_within c cs.head?
      have near : cs.head?.toList.length ≤ cs.length := by cases cs <;> simp
      unfold bodyFrom
      cases look : q.look c cs.head? with
      | stop _ =>
        rw [look] at within
        exact ⟨within.value, Nat.le_trans within.length (by simp only [length_cons]; omega)⟩
      | go next _ more =>
        rw [look] at within
        exact (ih more next).after within.1 (by have := within.2; simp only [length_cons]; omega)

theorem longRawBody_within : (longRawBody cs).Within cs.length := by
  fun_induction longRawBody cs with
  | case1 => exact Body.broken_within _ _
  | case2 => exact (Body.complete_within 0).after (by simp) (by simp)
  | case3 _ cs _ within => exact within.after (by simp) (by simp only [length_cons]; omega)

theorem shortRawBody_within : (shortRawBody delimiter cs).Within cs.length := by
  fun_induction shortRawBody delimiter cs with
  | case1 => exact Body.broken_within _ _
  | case2 => exact Body.broken_within _ _
  | case3 => exact (Body.complete_within 0).after (by simp) (by simp)
  | case4 _ cs _ _ within => exact within.after (by simp) (by simp only [length_cons]; omega)

theorem rawBody_within : (rawBody cs).Within cs.length := by
  unfold rawBody
  split
  · exact Body.broken_within _ _
  · exact longRawBody_within.after (by simp) (by simp only [length_cons]; omega)
  · exact shortRawBody_within.after (by simp) (by simp only [length_cons]; omega)

/-- A step never finds the end of the text. What it finds in quotes is not longer than what it takes behind the
first character. -/
def Step.Holds (s : Step) (cs : List Char) : Prop :=
  ∀ kind text value?, s.found? = some (kind, text, value?) → kind ≠ .endOfText ∧
    (kind = .quoted → (value?.getD "").length ≤ s.more ∧ (value?.getD "").length ≤ cs.length)

theorem Step.holds_of_kind {kind : Kind} {more : Nat} {text : String} {value? : Option String}
    (other : kind ≠ .endOfText ∧ kind ≠ .quoted) : Step.Holds ⟨more, some (kind, text, value?)⟩ cs := by
  rintro _ _ _ found
  obtain ⟨rfl, -⟩ := Prod.mk.inj (Option.some.inj found)
  exact ⟨other.1, fun quoted => absurd quoted other.2⟩

theorem Quotes.within (quotes : Quotes c cs ahead body) : ∃ n ≤ cs.length, body.Within n := by
  cases quotes with
  | long => exact ⟨cs.tail.length, by rw [length_tail]; omega, bodyFrom_within _ _ _⟩
  | short => exact ⟨cs.length, Nat.le_refl _, bodyFrom_within _ _ _⟩
  | raw => exact ⟨cs.length, Nat.le_refl _, rawBody_within⟩

theorem step_holds (lineStart : Bool) (c : Char) (cs : List Char) : (step lineStart c cs).Holds cs := by
  have finds := step_finds lineStart c cs
  generalize step lineStart c cs = s at finds
  cases finds with
  | gap =>
    intro _ _ _ found
    rcases kind_of_gapStep found with rfl | rfl <;> simp
  | skip => nofun
  | newline | invalid | symbol | number | word => exact Step.holds_of_kind (by simp)
  | quoted quotes =>
    rintro _ _ _ ⟨⟩
    obtain ⟨_, _, _, _⟩ := quotes.within
    refine ⟨by simp, fun _ => ?_⟩
    simp only [Option.getD_some, String.length_ofList, Step.found]
    omega
  | mark marked =>
    obtain ⟨inside, other, -⟩ := kind_of_mark? marked
    exact Step.holds_of_kind ⟨by rintro same; simp [same, Kind.isLayout] at inside, other⟩

theorem extent_scanFrom (origin : Origin) (taken : Nat) (place : Position) (lineStart : Bool) (cs : List Char) :
    extent (scanFrom origin taken place lineStart cs) ≤ cs.length - taken + 1 := by
  induction cs generalizing taken place lineStart with
  | nil => simp [scanFrom, extent, held]
  | cons c cs ih =>
    cases taken with
    | succ taken =>
      have rest := ih taken place lineStart
      simp only [scanFrom, length_cons]
      omega
    | zero =>
      have holds := step_holds lineStart c cs
      unfold scanFrom
      dsimp only
      cases found : (step lineStart c cs).found? with
      | none =>
        have rest := ih (step lineStart c cs).more
          (place.afterAll (c :: cs.take (step lineStart c cs).more)) lineStart
        simp only [length_cons]
        omega
      | some lexeme =>
        obtain ⟨kind, text, value?⟩ := lexeme
        have rest := ih (step lineStart c cs).more
          (place.afterAll (c :: cs.take (step lineStart c cs).more)) (kind = .newline)
        have bounds := (holds kind text value? found).2
        simp only [extent, map_cons, sum_cons, length_cons, held] at rest ⊢
        split
        · rename_i quoted
          have bounds := bounds quoted
          omega
        · omega

end Lexeme

end DreamMaker
