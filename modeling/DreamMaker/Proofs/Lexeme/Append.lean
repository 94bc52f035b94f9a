import Mathlib.Data.List.Basic
import DreamMaker.Proofs.Token.Spending

/-!
Texts one behind the other. Where a text ends with a line of its own, what stands behind it does not change how it is
scanned, and is scanned as if it stood alone.
-/

namespace DreamMaker.Lexeme

open List

variable {cs rest : List Char} {q : Quoting} {c : Char}

/-- The last line of a text is ended. -/
def EndsLine (cs : List Char) : Prop := cs.getLast? = some '\n'

namespace EndsLine

theorem ne_nil (ends : EndsLine cs) : cs ≠ [] := by
  rintro rfl
  cases ends

theorem mem (ends : EndsLine cs) : '\n' ∈ cs := mem_of_getLast? ends

theorem tail (ends : EndsLine (c :: cs)) (other : c ≠ '\n') : EndsLine cs := by
  cases cs with
  | nil => exact absurd (Option.some.inj ends) other
  | cons _ cs => rwa [EndsLine] at ends

theorem tail_or (ends : EndsLine (c :: cs)) : cs = [] ∨ EndsLine cs := by
  cases cs with
  | nil => exact .inl rfl
  | cons _ cs => exact .inr (by rwa [EndsLine] at ends)

theorem head?_append (ends : EndsLine cs) : (cs ++ rest).head? = (cs ++ [';']).head? := by
  obtain ⟨_, cs, rfl⟩ := exists_cons_of_ne_nil ends.ne_nil
  rfl

theorem drop (ends : EndsLine cs) (short : n < cs.length) : EndsLine (cs.drop n) := by
  rw [EndsLine, getLast?_drop, if_neg (by omega)]
  exact ends

end EndsLine

theorem takeWhile_append_of_mem {c : α} {p : α → Bool} {rest : List α} {cs : List α} (member : c ∈ cs)
    (stop : p c = false) : (cs ++ rest).takeWhile p = cs.takeWhile p := by
  induction cs with
  | nil => cases member
  | cons _ cs ih =>
    simp only [cons_append, takeWhile_cons]
    split
    · rename_i goes_on
      rcases mem_cons.mp member with rfl | later
      · rw [stop] at goes_on
        cases goes_on
      · rw [ih later]
    · rfl

theorem length_takeWhile_lt (member : c ∈ cs) (stop : p c = false) : (cs.takeWhile p).length < cs.length := by
  refine Nat.lt_of_le_of_ne ( takeWhile_prefix p).length_le fun all => ?_
  have same := ( takeWhile_prefix p).eq_of_length all
  have kept := all_takeWhile (p := p) (l := cs)
  rw [same] at kept
  rw [all_eq_true.mp kept c member] at stop
  cases stop

/-- Two readers that make the same test agree, if they do on the side that is taken. -/
theorem ite_append {p : Prop} [Decidable p] {x x' y y' : α} (size : α → Nat)
    (within : size (if p then x else y) ≤ n)
    (yes : p → size x ≤ n → x' = x) (no : ¬p → size y ≤ n → y' = y) :
      (if p then x' else y') = if p then x else y := by
  split at within
  · rename_i holds
    rw [if_pos holds, if_pos holds, yes holds within]
  · rename_i fails
    rw [if_neg fails, if_neg fails, no fails within]

section Comments

theorem lineEndLength_append (ends : EndsLine cs) : lineEndLength (cs ++ rest) = lineEndLength cs := by
  induction cs with
  | nil => cases ends
  | cons c cs ih =>
    by_cases returns : c = '\r'
    · subst returns
      have ends' := ends.tail (by decide)
      obtain ⟨d, cs, rfl⟩ := exists_cons_of_ne_nil ends'.ne_nil
      by_cases feed : d = '\n'
      · subst feed
        rfl
      have next := ih ends'
      simp only [cons_append] at next ⊢
      rw [lineEndLength, lineEndLength]
      · rw [next, head?_cons, head?_cons]
      · rintro _ ⟨⟩; exact feed rfl
      · rintro _ ⟨⟩; exact feed rfl
    · by_cases feed : c = '\n'
      · subst feed
        rfl
      · simp [lineEndLength, returns, feed]

/-- Comments end before the last line end of a text, whatever stands behind it. -/
def Settled (remark : Remark) (cs : List Char) (n : Nat) : Prop :=
  n < cs.length ∧ ∀ rest, remarkLength? remark (cs ++ rest) = some n

/-- A piece of comments is read, and then the rest of them. -/
theorem Settled.piece (front : List Char)
    (unfolds : ∀ rest,
      remarkLength? remark (front ++ (cs ++ rest)) = (remarkLength? remark' (cs ++ rest)).map (· + front.length))
    (ih : ∀ m ≤ cs.length, found? = some m → Settled remark' cs m)
    (found : found?.map (· + front.length) = some n)
    (within : n ≤ (front ++ cs).length) : Settled remark (front ++ cs) n := by
  obtain ⟨m, inner, rfl⟩ := Option.map_eq_some_iff.mp found
  rw [length_append] at within
  obtain ⟨_, same⟩ := ih m (by omega) inner
  refine ⟨by rw [length_append]; omega, fun rest => ?_⟩
  rw [append_assoc, unfolds, same]
  rfl

theorem EndsLine.uncons {text : List Char} (ends : EndsLine cs) (all : cs ++ [';'] = c :: text) :
    ∃ cs', cs = c :: cs' ∧ text = cs' ++ [';'] := by
  obtain ⟨_, cs, rfl⟩ := exists_cons_of_ne_nil ends.ne_nil
  obtain ⟨rfl, rfl⟩ := List.cons.inj all
  exact ⟨cs, rfl, rfl⟩

theorem EndsLine.apart (ends : EndsLine (c :: cs)) (other : c ≠ '\n')
    (no : ∀ cs', cs ++ [';'] = d :: cs' → False) : cs ++ rest = d :: cs' → False := by
  obtain ⟨_, cs, rfl⟩ := exists_cons_of_ne_nil (ends.tail other).ne_nil
  intro same
  obtain ⟨rfl, -⟩ := List.cons.inj same
  exact no _ rfl

/-- Comments that end before a mark behind a text end before its last line does. -/
theorem remarkLength?_append (ends : EndsLine cs)
    (found : remarkLength? remark (cs ++ [';']) = some n) (within : n ≤ cs.length) : Settled remark cs n := by
  generalize all : cs ++ [';'] = text at found
  fun_induction remarkLength? remark text generalizing cs n with
  | case1 | case2 => simp at all
  | case3 c text gap ih =>
    obtain ⟨cs, rfl, rfl⟩ := ends.uncons all
    have ends := ends.tail (by rintro rfl; cases gap)
    have other : c ≠ '/' := by rintro rfl; cases gap
    exact .piece [c] (fun rest => by simp [remarkLength?, gap, other]) (fun m short => ih ends short rfl) found within
  | case4 text _ ih | case5 text _ ih =>
    obtain ⟨cs, rfl, next⟩ := ends.uncons all
    obtain ⟨cs, rfl, rfl⟩ := (ends.tail (by decide)).uncons next.symm
    have ends := (ends.tail (by decide)).tail (by decide)
    exact .piece ['/', _] (fun rest => by simp [remarkLength?, isGap]) (fun m short => ih ends short rfl) found within
  | case6 c text gap line block =>
    obtain ⟨cs, rfl, rfl⟩ := ends.uncons all
    cases found
    refine ⟨by simp, fun rest => ?_⟩
    rw [cons_append, remarkLength?.eq_5, if_neg gap]
    · rintro cs' rfl
      exact ends.apart (by decide) (fun _ => line _ rfl)
    · rintro cs' rfl
      exact ends.apart (by decide) (fun _ => block _ rfl)
  | case7 joined returns text goes_on ih =>
    obtain ⟨cs, rfl, rfl⟩ := ends.uncons all
    rcases ends.tail_or with rfl | ends
    · simp [remarkLength?] at found
      simp [← found] at within
    · exact .piece ['\n'] (fun rest => by simp [remarkLength?, goes_on])
        (fun m short => ih ends short rfl) found within
  | case8 joined returns text stops =>
    obtain ⟨cs, rfl, rfl⟩ := ends.uncons all
    cases found
    exact ⟨by simp, fun rest => by simp [remarkLength?, stops]⟩
  | case9 joined returns text goes_on _ ih =>
    obtain ⟨cs, rfl, rfl⟩ := ends.uncons all
    have ends := ends.tail (by decide)
    exact .piece ['\r'] (fun rest => by simp [remarkLength?, goes_on]) (fun m short => ih ends short rfl) found within
  | case10 joined returns text stops _ =>
    obtain ⟨cs, rfl, rfl⟩ := ends.uncons all
    cases found
    exact ⟨by simp, fun rest => by simp [remarkLength?, stops]⟩
  | case11 joined returns c text no_feed no_return ih =>
    obtain ⟨cs, rfl, rfl⟩ := ends.uncons all
    have ends := ends.tail no_feed
    exact .piece [c] (fun rest => by simp [remarkLength?, no_feed, no_return])
      (fun m short => ih ends short rfl) found within
  | case12 outer c text ih =>
    obtain ⟨cs, rfl, rfl⟩ := ends.uncons all
    rcases ends.tail_or with rfl | ends
    · obtain rfl : c = '\n' := Option.some.inj ends
      simp [remarkLength?, endsLine] at found
    · exact .piece [c] (fun rest => by simp [remarkLength?]) (fun m short => ih ends short rfl) found within
  | case13 text ih | case14 text outer ih | case15 outer text ih | case16 outer text ih =>
    obtain ⟨cs, rfl, next⟩ := ends.uncons all
    obtain ⟨cs, rfl, rfl⟩ := (ends.tail (by decide)).uncons next.symm
    have ends := (ends.tail (by decide)).tail (by decide)
    exact .piece [_, _] (fun rest => by simp [remarkLength?]) (fun m short => ih ends short rfl) found within
  | case17 outer c text close open_ line ih =>
    obtain ⟨cs, rfl, rfl⟩ := ends.uncons all
    rcases ends.tail_or with rfl | ends'
    · simp [remarkLength?] at found
    refine .piece [c] (fun rest => ?_) (fun m short => ih ends' short rfl) found within
    show remarkLength? _ (c :: (cs ++ rest)) = _
    rw [remarkLength?.eq_12]
    · rfl
    · rintro cs' rfl
      exact ends.apart (by decide) (fun _ => close _ rfl)
    · rintro cs' rfl
      exact ends.apart (by decide) (fun _ => open_ _ rfl)
    · rintro cs' rfl
      exact ends.apart (by decide) (fun _ => line _ rfl)

end Comments

section Numbers

theorem numberTail_cons :
    numberTail before (c :: cs) =
      if (before = 'e' || before = 'E') && (c = '-' || c = '+') then (numberTail c cs).map (· + 1) id
      else if before = '#' && c = 'I' then
        match cs with
        | a :: b :: cs =>
          if a = 'N' && (b = 'F' || b = 'D') then (numberTail 'F' cs).map (· + 3) id else (3, false)
        | cs => (1 + cs.length, false)
      else if inNumber c then (numberTail c cs).map (· + 1) id
      else (0, true) := by
  rcases cs with _ | ⟨a, _ | ⟨b, cs⟩⟩
  · exact numberTail.eq_3 before c [] nofun
  · exact numberTail.eq_3 before c [a] nofun
  · exact numberTail.eq_2 before c a b cs

theorem numberTail_append (ends : EndsLine cs) (within : (numberTail before (cs ++ [';'])).1 ≤ cs.length) :
    numberTail before (cs ++ rest) = numberTail before (cs ++ [';']) := by
  induction size : cs.length using Nat.strongRecOn generalizing before cs with
  | _ size ih =>
    subst size
    obtain ⟨_, cs, rfl⟩ := exists_cons_of_ne_nil ends.ne_nil
    rw [cons_append, numberTail_cons] at within
    rw [cons_append, cons_append, numberTail_cons, numberTail_cons]
    -- a sign, the name of infinity, another character of a number, or its end
    refine ite_append Prod.fst within (fun sign within => ?_) fun _ within => ?_
    · have ends := ends.tail (by rintro rfl; simp at sign)
      rw [ih _ (Nat.lt_succ_self _) ends (Nat.le_of_succ_le_succ within) rfl]
    refine ite_append Prod.fst within (fun named within => ?_) fun _ within => ?_
    · have ends := ends.tail (by rintro rfl; simp at named)
      rcases cs with _ | ⟨a, _ | ⟨_, cs⟩⟩
      · exact absurd rfl ends.ne_nil
      · obtain rfl : a = '\n' := Option.some.inj ends
        simp at within
      simp only [cons_append] at within ⊢
      refine ite_append Prod.fst within (fun word within => ?_) fun _ _ => rfl
      have ends := (ends.tail (by rintro rfl; simp at word)).tail (by rintro rfl; simp at word)
      rw [ih _ (by simp only [length_cons]; omega) ends (by simpa using within) rfl]
    refine ite_append Prod.fst within (fun goes_on within => ?_) fun _ _ => rfl
    have ends := ends.tail (by rintro rfl; exact absurd goes_on (by decide))
    rw [ih _ (Nat.lt_succ_self _) ends (Nat.le_of_succ_le_succ within) rfl]

end Numbers

section Quotes

/-- A text that stops at the end of a line does so whatever stands behind it. -/
theorem Quoting.look_newline (stops : q.look '\n' (some ';') = .stop body) (next? : Option Char) :
    q.look '\n' next? = .stop body := by
  obtain ⟨inner, _, joining⟩ := q
  cases joining with
  | true => simp [Quoting.look, endsLine] at stops
  | false =>
    cases inner with
    | hole _ => simp [Quoting.look] at stops
    | text _ long =>
      cases long with
      | false => simpa [Quoting.look] using stops
      | true => simp [Quoting.look] at stops

/-- A mark is read wherever it stands. -/
theorem length_bodyFrom_mark (q : Quoting) : 1 ≤ (bodyFrom 0 q [';']).length := by
  rw [bodyFrom, head?_nil]
  cases look : q.look ';' none with
  | go next _ more =>
    show 1 ≤ more + 1 + (bodyFrom more next []).length
    omega
  | stop _ =>
    -- nothing but the terminator ends a text here
    obtain ⟨inner, outer, _⟩ := q
    cases inner with
    | hole _ => simp [Quoting.look, isGap, endsLine] at look
    | text _ _ =>
      simp [Quoting.look, isGap, endsLine] at look
      split at look
      · split at look
        · cases outer with
          | nil => cases look; exact Nat.le_refl _
          | cons _ outer => cases look
        · cases look
      · cases look

theorem bodyFrom_append (ends : cs = [] ∨ EndsLine cs)
    (within : taken + (bodyFrom taken q (cs ++ [';'])).length ≤ cs.length) :
    bodyFrom taken q (cs ++ rest) = bodyFrom taken q (cs ++ [';']) := by
  induction cs generalizing taken q with
  | nil =>
    have read := length_bodyFrom_mark q
    cases taken with
    | zero => simp only [nil_append, length_nil] at within; omega
    | succ taken => simp only [length_nil] at within; omega
  | cons c cs ih =>
    replace ends : EndsLine (c :: cs) := ends.resolve_left (cons_ne_nil _ _)
    cases taken with
    | succ taken => exact ih ends.tail_or (by simp only [cons_append, bodyFrom, length_cons] at within; omega)
    | zero =>
      simp only [cons_append, bodyFrom] at within ⊢
      rcases ends.tail_or with rfl | ends'
      · obtain rfl : c = '\n' := Option.some.inj ends
        cases look : q.look '\n' (some ';') with
        | stop body => simp [Quoting.look_newline look]
        | go next piece more =>
          have read := length_bodyFrom_mark next
          simp [look, Body.after] at within
          obtain rfl : more = 0 := by omega
          omega
      · obtain ⟨d, cs, rfl⟩ := exists_cons_of_ne_nil ends'.ne_nil
        simp only [cons_append, head?_cons] at within ⊢
        cases look : q.look c (some d) with
        | stop body => rfl
        | go next piece more =>
          simp only [look, Body.after, length_cons] at within
          have inner : more + (bodyFrom more next (d :: cs ++ [';'])).length ≤ (d :: cs).length := by
            simp only [cons_append, length_cons]
            omega
          exact congrArg (·.after piece (more + 1)) (ih (.inr ends') inner)

theorem longRawBody_cons : longRawBody (c :: cs) =
      if c = '"' && cs.head? = some '}' then Body.complete.after [] 2 else (longRawBody cs).after [c] 1 := by
  split
  · rename_i closed
    simp only [Bool.and_eq_true, decide_eq_true_eq] at closed
    obtain ⟨rfl, brace⟩ := closed
    obtain ⟨cs, rfl⟩ := head?_eq_some_iff.mp brace
    rfl
  · rename_i open_
    rw [longRawBody.eq_3]
    rintro _ rfl rfl
    exact open_ rfl

theorem longRawBody_append (ends : cs = [] ∨ EndsLine cs)
    (within : (longRawBody (cs ++ [';'])).length ≤ cs.length) :
    longRawBody (cs ++ rest) = longRawBody (cs ++ [';']) := by
  induction cs with
  | nil => exact absurd within (by decide)
  | cons c cs ih =>
    replace ends : EndsLine (c :: cs) := ends.resolve_left (cons_ne_nil _ _)
    rw [cons_append, longRawBody_cons] at within
    rw [cons_append, cons_append, longRawBody_cons, longRawBody_cons]
    have closes : (c = '"' && (cs ++ rest).head? = some '}') = (c = '"' && (cs ++ [';']).head? = some '}') := by
      by_cases quote : c = '"'
      · rw [(ends.tail (by rw [quote]; decide)).head?_append]
      · simp [quote]
    rw [closes]
    split at within
    · rename_i closed
      rw [if_pos closed, if_pos closed]
    · rename_i open_
      have within : 1 + (longRawBody (cs ++ [';'])).length ≤ cs.length + 1 := within
      rw [if_neg open_, if_neg open_, ih ends.tail_or (by omega)]

theorem shortRawBody_append (ends : EndsLine cs) :
    shortRawBody delimiter (cs ++ rest) = shortRawBody delimiter (cs ++ [';']) := by
  induction cs with
  | nil => cases ends
  | cons c cs ih =>
    simp only [cons_append, shortRawBody]
    by_cases stops : endsLine c = true
    · rw [if_pos stops, if_pos stops]
    · have ends := ends.tail (by rintro rfl; exact stops rfl)
      rw [if_neg stops, if_neg stops, ih ends]

theorem rawBody_append (ends : EndsLine cs) (within : (rawBody (cs ++ [';'])).length ≤ cs.length) :
    rawBody (cs ++ rest) = rawBody (cs ++ [';']) := by
  obtain ⟨delimiter, cs, rfl⟩ := exists_cons_of_ne_nil ends.ne_nil
  rcases ends.tail_or with rfl | ends'
  · obtain rfl : delimiter = '\n' := Option.some.inj ends
    exact absurd within (by decide)
  obtain ⟨d, cs, rfl⟩ := exists_cons_of_ne_nil ends'.ne_nil
  by_cases long : delimiter = '{' ∧ d = '"'
  · obtain ⟨rfl, rfl⟩ := long
    have within : 2 + (longRawBody (cs ++ [';'])).length ≤ cs.length + 2 := within
    exact congrArg (·.after [] 2) (longRawBody_append ends'.tail_or (by omega))
  · have short (tail : List Char) : rawBody
        (delimiter :: d :: tail) = (shortRawBody delimiter (d :: tail)).after [] 1 := by
      rw [rawBody.eq_3]
      rintro _ rfl same
      exact long ⟨rfl, (List.cons.inj same).1⟩
    simp only [cons_append, short]
    exact congrArg (·.after [] 1) (shortRawBody_append ends')

end Quotes

section Steps

theorem Step.found_append {kind : Kind} {more : Nat} {value? : Option String} (within : more ≤ cs.length) :
    Step.found kind c (cs ++ rest) more value? = .found kind c (cs ++ [';']) more value? := by
  unfold Step.found
  rw [take_append_of_le_length within, take_append_of_le_length within]

theorem Step.quoted_append (within : ahead + body.length ≤ cs.length) :
    Step.quoted c (cs ++ rest) ahead body = .quoted c (cs ++ [';']) ahead body := by
  unfold Step.quoted
  cases body.complaint? with
  | none => exact Step.found_append within
  | some _ => exact Step.found_append within

theorem Step.more_quoted : (Step.quoted c cs ahead body).more = ahead + body.length := by
  unfold Step.quoted
  cases body.complaint? <;> rfl

section

variable (ends : EndsLine cs)

include ends

theorem mark?_append : mark? c (cs ++ rest) = mark? c (cs ++ [';']) := by
  obtain ⟨d, cs, rfl⟩ := exists_cons_of_ne_nil ends.ne_nil
  by_cases bracket : d = ']'
  · obtain ⟨_, cs, rfl⟩ := exists_cons_of_ne_nil (ends.tail (by rw [bracket]; decide)).ne_nil
    rfl
  · unfold mark?
    simp [bracket]

theorem markStep_append (within : (markStep c (cs ++ [';'])).more ≤ cs.length) :
    markStep c (cs ++ rest) = markStep c (cs ++ [';']) := by
  unfold markStep at within ⊢
  rw [ends.head?_append, mark?_append ends]
  refine ite_append Step.more within (fun _ within => ?_) fun _ within => ?_
  · rw [Step.more_quoted] at within
    obtain ⟨_, cs, rfl⟩ := exists_cons_of_ne_nil ends.ne_nil
    have inner : 0 + (stringBody '"' true (cs ++ [';'])).length ≤ cs.length := by
      simp only [cons_append, tail_cons, length_cons] at within
      omega
    have body : stringBody '"' true (cs ++ rest) = stringBody '"' true (cs ++ [';']) :=
      bodyFrom_append ends.tail_or inner
    rw [cons_append, tail_cons, body]
    exact Step.quoted_append within
  refine ite_append Step.more within (fun _ within => ?_) fun _ within => ?_
  · rw [Step.more_quoted] at within
    have body : stringBody c false (cs ++ rest) = stringBody c false (cs ++ [';']) :=
      bodyFrom_append (.inr ends) within
    rw [body, Step.quoted_append within]
  refine ite_append Step.more within (fun _ within => ?_) fun _ within => ?_
  · rw [Step.more_quoted] at within
    rw [rawBody_append ends (by omega), Step.quoted_append within]
  cases marked : mark? c (cs ++ [';']) with
  | none => exact Step.found_append (Nat.zero_le _)
  | some _ =>
    rw [marked] at within
    exact Step.found_append within

theorem atLineEnd_append : atLineEnd (cs ++ rest) = atLineEnd (cs ++ [';']) := by
  obtain ⟨_, cs, rfl⟩ := exists_cons_of_ne_nil ends.ne_nil
  rfl

theorem takeWhile_append (stop : p '\n' = false) : (cs ++ rest).takeWhile p = (cs ++ [';']).takeWhile p := by
  rw [takeWhile_append_of_mem ends.mem stop, takeWhile_append_of_mem ends.mem stop]

theorem gapStep_append (within : (gapStep lineStart c (cs ++ [';'])).more ≤ cs.length) :
    gapStep lineStart c (cs ++ rest) = gapStep lineStart c (cs ++ [';']) := by
  have short := length_takeWhile_lt ends.mem (show isGap '\n' = false from rfl)
  unfold gapStep at within ⊢
  rw [takeWhile_append_of_mem ends.mem rfl] at within
  rw [takeWhile_append_of_mem ends.mem rfl, takeWhile_append_of_mem ends.mem rfl]
  generalize (cs.takeWhile isGap).length = more at short within
  dsimp only at within ⊢
  rw [drop_append_of_le_length (Nat.le_of_lt short)] at within
  rw [drop_append_of_le_length (Nat.le_of_lt short), drop_append_of_le_length (Nat.le_of_lt short),
    take_append_of_le_length (Nat.le_of_lt short), take_append_of_le_length (Nat.le_of_lt short)]
  cases lineStart with
  | false => rfl
  | true =>
    rw [if_pos rfl] at within
    cases found : commentsLength? (cs.drop more ++ [';']) with
    | none =>
      rw [found] at within
      simp only [Step.invalid, Step.found, length_append, length_cons] at within
      omega
    | some n =>
      rw [found] at within
      have bound : more + n ≤ cs.length := by
        dsimp only at within
        split at within <;> exact within
      obtain ⟨less, same⟩ := remarkLength?_append (ends.drop short) found (by rw [length_drop]; omega)
      have inside : more + n < cs.length := by rw [length_drop] at less; omega
      have ends' := ends.drop inside
      rw [show commentsLength? (cs.drop more ++ rest) = some n from same rest]
      dsimp only
      rw [drop_append_of_le_length bound, drop_append_of_le_length bound]
      obtain ⟨_, _, split⟩ := exists_cons_of_ne_nil ends'.ne_nil
      rw [split]
      rfl

theorem symbolTail_append (other : c ≠ '\n') : symbolTail c (cs ++ rest) = symbolTail c (cs ++ [';']) := by
  obtain ⟨d, cs, rfl⟩ := exists_cons_of_ne_nil ends.ne_nil
  by_cases doubled : d = c
  · subst doubled
    obtain ⟨_, cs, rfl⟩ := exists_cons_of_ne_nil (ends.tail other).ne_nil
    rfl
  · unfold symbolTail
    simp [doubled]

end

/-- What stands behind the lines of a text does not matter for a step that stays within them. -/
theorem step_append (ends : EndsLine (c :: cs))
    (within : (step lineStart c (cs ++ [';'])).more ≤ cs.length) (flush : ∀ d ∈ rest.head?, isGap d = false) :
    step lineStart c (cs ++ rest) = step lineStart c (cs ++ [';']) := by
  have lines : lineEndLength (c :: (cs ++ rest)) = lineEndLength (c :: (cs ++ [';'])) := by
    rw [← cons_append, ← cons_append, lineEndLength_append ends, lineEndLength_append ends]
  by_cases feed : c = '\n'
  · subst feed
    rfl
  have ends' := ends.tail feed
  unfold step at within ⊢
  rw [lines, ends'.head?_append, atLineEnd_append ends']
  refine ite_append Step.more within (fun _ within => gapStep_append ends' within) fun _ within => ?_
  refine ite_append Step.more within (fun _ _ => rfl) fun _ within => ?_
  refine ite_append Step.more within (fun _ within => ?_) fun _ within => ?_
  · cases found : commentsLength? (c :: (cs ++ [';'])) with
    | none =>
      rw [found] at within
      simp only [Step.invalid, Step.found, length_append, length_cons] at within
      omega
    | some n =>
      rw [found] at within
      have bound : n - 1 ≤ cs.length := within
      obtain ⟨-, same⟩ := remarkLength?_append ends found (by simp only [length_cons]; omega)
      rw [show commentsLength? (c :: (cs ++ rest)) = some n from same rest]
  refine ite_append Step.more within (fun _ within => ?_) fun _ within => ?_
  · dsimp only at within ⊢
    rw [lineEndLength_append ends'] at within
    rw [lineEndLength_append ends', lineEndLength_append ends']
    generalize lineEndLength cs = n at within
    have bound : n + (((cs ++ [';']).drop n).takeWhile isGap).length ≤ cs.length := within
    have same : ((cs ++ rest).drop n).takeWhile isGap = ((cs ++ [';']).drop n).takeWhile isGap := by
      rw [drop_append_of_le_length (by omega), drop_append_of_le_length (by omega)]
      rcases Nat.lt_or_ge n cs.length with inside | behind
      · exact takeWhile_append (ends'.drop inside) rfl
      rw [drop_of_length_le behind]
      cases rest with
      | nil => rfl
      | cons d rest =>
        rw [nil_append, takeWhile_cons, flush d rfl]
        rfl
    rw [same]
  refine ite_append Step.more within (fun _ within => ?_) fun _ within => ?_
  · rw [takeWhile_append ends' rfl]
    exact Step.found_append within
  refine ite_append Step.more within (fun _ within => ?_) fun _ within => ?_
  · rw [symbolTail_append ends' feed]
    exact Step.found_append within
  refine ite_append Step.more within (fun _ within => ?_) fun _ within => ?_
  · rcases tail : numberTail c (cs ++ [';']) with ⟨more, good⟩
    rw [tail] at within
    have bound : more ≤ cs.length := by
      dsimp only at within
      split at within <;> exact within
    rw [numberTail_append ends' (by rw [tail]; exact bound), tail]
    cases good <;> exact Step.found_append bound
  refine ite_append Step.more within (fun _ within => ?_) fun _ within => markStep_append ends' within
  rw [takeWhile_append ends' (by decide)]
  exact Step.found_append within

end Steps

section Texts

/-- Whether the lexeme behind a step is the first of a line. -/
def Step.startsLine (s : Step) (lineStart : Bool) : Bool :=
  match s.found? with
  | none => lineStart
  | some (kind, _, _) => kind = .newline

/-- A scanner comes to the mark behind a text at the start of a line: all that is opened in the text is closed. Of
it `taken` characters are read. -/
def reachesLine (taken : Nat) (lineStart : Bool) : List Char → Bool
  | [] => taken = 0 && lineStart
  | c :: cs => match taken with
    | taken + 1 => reachesLine taken lineStart cs
    | 0 =>
      let s := step lineStart c (cs ++ [';'])
      reachesLine s.more (s.startsLine lineStart) cs

theorem le_of_reachesLine (reaches : reachesLine taken lineStart cs = true) : taken ≤ cs.length := by
  induction cs generalizing taken lineStart with
  | nil => simp_all [reachesLine]
  | cons _ cs ih =>
    cases taken with
    | zero => exact Nat.zero_le _
    | succ taken => exact Nat.succ_le_succ (ih reaches)

/-- Lexemes of whole lines. -/
structure OfLines (lexemes : List Lexeme) : Prop where
  goes_on : ∀ l ∈ lexemes, l.kind ≠ .endOfText
  line : ∀ l ∈ lexemes.getLast?, l.kind = .newline

/-- A text of whole lines is scanned in the same way whatever stands behind it. -/
theorem scanFrom_append (place : Position)
    (ends : cs = [] ∨ EndsLine cs) (reaches : reachesLine taken lineStart cs = true) :
    ∃ lexemes place', OfLines lexemes ∧ (lexemes = [] → lineStart = true) ∧ ∀ rest :
      List Char, (∀ d ∈ rest.head?, isGap d = false) →
      scanFrom origin taken place lineStart (cs ++ rest) = lexemes ++ scanFrom origin 0 place' true rest := by
  induction cs generalizing taken place lineStart with
  | nil =>
    obtain ⟨rfl, rfl⟩ : taken = 0 ∧ lineStart = true := by simpa [reachesLine] using reaches
    exact ⟨[], place, ⟨by simp, by simp⟩, fun _ => rfl, fun _ _ => rfl⟩
  | cons c cs ih =>
    replace ends : EndsLine (c :: cs) := ends.resolve_left (cons_ne_nil _ _)
    cases taken with
    | succ taken => exact ih place ends.tail_or reaches
    | zero =>
      have within :=
        le_of_reachesLine (show reachesLine (step lineStart c (cs ++ [';'])).more _ cs = true from reaches)
      have holds := step_holds lineStart c (cs ++ [';'])
      have same {rest : List Char} (flush : ∀ d ∈ rest.head?, isGap d = false) := step_append ends within flush
      simp only [reachesLine] at reaches
      generalize step lineStart c (cs ++ [';']) = s at *
      have taken (rest : List Char) : (cs ++ rest).take s.more = cs.take s.more := take_append_of_le_length within
      obtain ⟨lexemes, place', lines, first, scans⟩ :=
        ih (place.afterAll (c :: cs.take s.more)) ends.tail_or reaches
      obtain ⟨more, found?⟩ := s
      cases found? with
      | none =>
        refine ⟨lexemes, place', lines, first, fun rest flush => ?_⟩
        rw [cons_append, scanFrom, same flush]
        rw [taken, ← scans rest flush]
        rfl
      | some found =>
        obtain ⟨kind, text, value?⟩ := found
        let lexeme : Lexeme := ⟨kind, text, value?, origin.span place (place.afterAll (c :: cs.take more))⟩
        refine ⟨lexeme :: lexemes, place', ⟨?_, ?_⟩, fun nothing =>
          absurd nothing (cons_ne_nil _ _), fun rest flush => ?_⟩
        · exact forall_mem_cons.mpr ⟨(holds kind text value? rfl).1, lines.goes_on⟩
        · cases lexemes with
          | nil =>
            have newline : decide (kind = .newline) = true := first rfl
            simpa using newline
          | cons _ lexemes => simpa only [getLast?_cons_cons] using lines.line
        · rw [cons_append, scanFrom, same flush]
          rw [taken, cons_append, ← scans rest flush]
          rfl

end Texts

end DreamMaker.Lexeme
