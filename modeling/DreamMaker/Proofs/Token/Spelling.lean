import Mathlib.Data.List.TakeWhile
import DreamMaker.Proofs.Lexeme.Steps
import DreamMaker.Proofs.Syntax.Operators
import DreamMaker.Proofs.Token.Balance

namespace DreamMaker

open List String

variable {origin : Lexeme.Origin} {rest : List Char} {c : Char} {n : Nat}

theorem Text.isDigit_of_startsWord (starts : startsWord c = true) : c.isDigit = false := by
  cases digit : c.isDigit with
  | false => rfl
  | true =>
    simp only [Char.isDigit, Bool.and_eq_true, decide_eq_true_eq] at digit
    have high : c.toNat ≤ 57 := digit.2
    have small : c.toNat < 128 := by omega
    simp only [startsWord, small, if_true, Bool.or_eq_true, decide_eq_true_eq] at starts
    rcases starts with letter | rfl
    · rcases (Bool.or_eq_true c.isUpper c.isLower).mp letter with upper | lower
      · have upper : 65 ≤ c.toNat := (of_decide_eq_true upper).1
        omega
      · have lower : 97 ≤ c.toNat := of_decide_eq_true ((Bool.and_eq_true (decide (c.val ≥ 97)) _).mp lower).1
        omega
    · exact absurd high (by decide)

/-- A blank, a parenthesis, a semicolon or the end of a line may stand right behind a word or a number. -/
def closers : List Char := [' ', '(', ')', ';', '\n']

/-- The text ends, or goes on with something that no word and no number goes on with. -/
def Closed : List Char → Prop
  | [] => True
  | c :: _ => c ∈ closers

theorem Closed.takeWhile (closed : Closed rest) (none_of : ∀ c ∈ closers, p c = false) : rest.takeWhile p = [] := by
  cases rest with
  | nil => rfl
  | cons c rest => simp [none_of c closed]

namespace Lexeme

variable {c : Char} {front : List Char}

/-- A text starts with a lexeme, behind which the rest is scanned. -/
def Scans (origin : Origin) (kind : Kind) (text rest : List Char) : Prop :=
  ∀ place, ∃ place' span, scanFrom origin 0 place false (text ++ rest) =
    ⟨kind, ofList text, none, span⟩ :: scanFrom origin 0 place' false rest

theorem Scans.of_step {kind : Kind} (apart : kind ≠ .newline)
    (step : step false c (front ++ rest) = .mark kind c (front ++ rest) front.length) :
    Scans origin kind (c :: front) rest := by
  intro place
  have text : (front ++ rest).take front.length = front := take_left
  refine ⟨place.afterAll (c :: front), origin.span place (place.afterAll (c :: front)), ?_⟩
  show scanFrom origin 0 place false (c :: (front ++ rest)) = _
  rw [scanFrom, step]
  simp only [Step.mark, Step.found, text, scanFrom_taken, apart, decide_false]

/-- A character of a kind that has no blanks and no marks. -/
theorem step_of_solid {kind : Char → Bool} (has : kind c = true)
    (solid : " \t\n\r+-*/%^!=~&|<>\\#".toList.any kind = false) : step lineStart c cs =
      if c.isDigit then
        if (numberTail c cs).2 then .mark .number c cs (numberTail c cs).1
        else .invalid c cs (numberTail c cs).1 "Invalid number"
      else if Text.startsWord c then .mark .word c cs (cs.takeWhile Text.continuesWord).length
      else markStep c cs := by
  have other : ∀ d ∈ " \t\n\r+-*/%^!=~&|<>\\#".toList, c ≠ d := by
    rintro d member rfl
    exact absurd has (any_eq_false.mp solid c member)
  simp only [reduceToList, forall_mem_cons] at other
  simp [step, isGap, endsLine, startsSymbol, other]

/-- Letters are neither blanks nor marks nor digits. -/
theorem step_of_startsWord (starts : Text.startsWord c = true) :
    step lineStart c cs = .mark .word c cs (cs.takeWhile Text.continuesWord).length := by
  rw [step_of_solid starts (by decide +kernel), Text.isDigit_of_startsWord starts, starts]
  rfl

theorem scans_word (starts : Text.startsWord c = true) (continues : ∀ d ∈ more, Text.continuesWord d = true)
    (stops : rest.takeWhile Text.continuesWord = []) : Scans origin .word (c :: more) rest := by
  apply Scans.of_step (by decide)
  rw [step_of_startsWord starts, takeWhile_append_of_pos continues, stops, append_nil]

theorem ne_of_isDigit (digit : c.isDigit = true) (other : d.isDigit = false) : c ≠ d := by
  rintro rfl
  rw [digit] at other
  cases other

/-- Digits are neither blanks nor marks. -/
theorem step_of_isDigit (digit : c.isDigit = true) : step lineStart c cs =
      if (numberTail c cs).2 then .mark .number c cs (numberTail c cs).1
      else .invalid c cs (numberTail c cs).1 "Invalid number" := by
  rw [step_of_solid digit (by decide), if_pos digit]

/-- Behind a digit neither a sign nor a spelled number goes on. -/
theorem numberTail_of_isDigit (digit : c.isDigit = true) :
    numberTail c (d :: cs) = if inNumber d then (numberTail d cs).map (· + 1) id else (0, true) := by
  conv => lhs; unfold numberTail
  simp [ne_of_isDigit digit (d := 'e') rfl, ne_of_isDigit digit (d := 'E') rfl, ne_of_isDigit digit (d := '#') rfl]

theorem numberTail_digits (digit : c.isDigit = true) (digits : ∀ d ∈ front, d.isDigit = true)
    (closed : Closed rest) :
    numberTail c (front ++ rest) = (front.length, true) := by
  induction front generalizing c with
  | nil =>
    cases rest with
    | nil => rfl
    | cons d rest =>
      have outside : ∀ c ∈ closers, inNumber c = false := by simp [closers, inNumber]
      rw [nil_append, numberTail_of_isDigit digit, outside d closed]
      rfl
  | cons d front ih =>
    have inside := digits d (by simp)
    rw [cons_append, numberTail_of_isDigit digit, ih inside fun e member => digits e (by simp [member])]
    simp [inNumber, inside]

/-- The digits of a number in front of a text. -/
theorem exists_digits (n : Nat) : ∃ c front, Nat.toDigits 10 n = c :: front ∧ c.isDigit = true ∧
    ∀ d ∈ front, d.isDigit = true := by
  obtain ⟨c, front, digits⟩ := exists_cons_of_ne_nil (Nat.toDigits_ne_nil (b := 10))
  have all : ∀ d ∈ c :: front, d.isDigit = true := fun d member =>
    Nat.isDigit_of_mem_toDigits (by decide) (by decide) (digits ▸ member)
  exact ⟨c, front, digits, all c (by simp), fun d member => all d (by simp [member])⟩

section

variable (origin : Origin)

theorem scans_number (closed : Closed rest) : Scans origin .number (Nat.toDigits 10 n) rest := by
  obtain ⟨_, _, text, digit, digits⟩ := exists_digits n
  rw [text]
  refine Scans.of_step (by decide) ?_
  rw [step_of_isDigit digit, numberTail_digits digit digits closed]
  rfl

/-- A blank behind an operator ends it. -/
theorem scans_operator {op : Operator} :
    Scans origin .punctuator op.text.toList (' ' :: rest) := by
  have step : ∃ c front, op.text.toList = c :: front ∧
      step false c (front ++ ' ' :: rest) = .mark .punctuator c (front ++ ' ' :: rest) front.length := by
    rcases op with op | op <;> cases op <;> exact ⟨_, _, rfl, rfl⟩
  obtain ⟨c, front, text, step⟩ := step
  rw [text]
  exact Scans.of_step (by decide) step

theorem scans_leftParen : Scans origin .leftParen ['('] rest :=
  Scans.of_step (by decide) rfl

theorem scans_rightParen : Scans origin .rightParen [')'] rest :=
  Scans.of_step (by decide) rfl

theorem scans_blank (other : isGap c = false) : Scans origin .blank [' '] (c :: rest) := by
  have alone : (c :: rest).takeWhile isGap = [] := by simp [other]
  apply Scans.of_step (by decide)
  simp only [nil_append, step, gapStep, alone]
  rfl

end

/-- A character that starts a lexeme, on a new line or not. -/
structure Solid (c : Char) : Prop where
  gap : isGap c = false
  step : ∀ lineStart cs, step lineStart c cs = Lexeme.step false c cs
  found : ∀ cs, (Lexeme.step false c cs).found?.isSome = true

theorem Solid.of_startsWord (starts : Text.startsWord c = true) : Solid c where
  gap := by
    cases gap : isGap c with
    | false => rfl
    | true =>
      simp only [isGap, Bool.or_eq_true, decide_eq_true_eq] at gap
      rcases gap with rfl | rfl <;> cases starts
  step lineStart cs := by rw [step_of_startsWord starts, step_of_startsWord starts]
  found cs := by
    rw [step_of_startsWord starts]
    rfl

theorem Solid.of_isDigit (digit : c.isDigit = true) : Solid c where
  gap := by simp [isGap, ne_of_isDigit digit (d := ' ') rfl, ne_of_isDigit digit (d := '\t') rfl]
  step lineStart cs := by rw [step_of_isDigit digit, step_of_isDigit digit]
  found cs := by
    rw [step_of_isDigit digit]
    split <;> rfl

theorem Solid.scanFrom (solid : Solid c) (origin : Origin) (place : Position) (lineStart : Bool) (cs : List Char) :
    scanFrom origin 0 place lineStart (c :: cs) = scanFrom origin 0 place false (c :: cs) := by
  obtain ⟨_, result⟩ := Option.isSome_iff_exists.mp (solid.found cs)
  rw [Lexeme.scanFrom, Lexeme.scanFrom, solid.step lineStart]
  simp only [result]

/-- Nothing goes on with a word or a number behind it. -/
theorem exists_head_of_closed (closed : Closed rest) :
    ∃ l more, scanFrom origin 0 place false rest = l :: more ∧ l.kind ≠ .word ∧ l.kind ≠ .number := by
  cases rest with
  | nil => exact ⟨_, _, rfl, by simp, by simp⟩
  | cons _ rest =>
    simp only [Closed, closers, mem_cons, not_mem_nil, or_false] at closed
    rcases closed with rfl | rfl | rfl | rfl | rfl <;> exact ⟨_, _, rfl, by simp, by simp⟩

end Lexeme

/-- The kind of the token that a word makes. -/
def Token.Kind.ofWord (word : String) : Token.Kind := ((Keyword.ofWord? word).map .keyword).getD .identifier

/-- What a token can say. -/
abbrev Token.Content := Token.Kind × String × Token.Value

/-- What a token says, whatever its place. -/
def Token.content (token : Token) : Token.Content := (token.kind, token.text, token.value)

namespace Decimal

variable {c : Char}

theorem digitValue?_of_isDigit (digit : c.isDigit = true) : digitValue? 10 c = some (c.toNat - 48) := by
  have high : c.toNat ≤ 57 := by
    simp only [Char.isDigit, Bool.and_eq_true, decide_eq_true_eq] at digit
    exact digit.2
  have small : c.toNat - 48 < 10 := by omega
  simp [digitValue?, digit, small]

theorem foldlM_digits (all : ∀ d ∈ digits, d.isDigit = true) (n : Nat) :
    digits.foldlM (fun n c => (digitValue? 10 c).map (10 * n + ·)) n = some (Nat.ofDigitChars 10 digits n) := by
  induction digits generalizing n with
  | nil => rfl
  | cons c digits ih =>
    rw [foldlM_cons, digitValue?_of_isDigit (all c (by simp))]
    exact ih (fun d member => all d (by simp [member])) _

/-- The digits of a number are read as that number, if it takes no more than 31 bits. -/
theorem readInt32?_toDigits : readInt32? 10 (Nat.toDigits 10 n) = if n < 2 ^ 31 then some (n : Int) else none := by
  obtain ⟨_, _, text, digit, _⟩ := Lexeme.exists_digits n
  have value : readDigits? 10 (Nat.toDigits 10 n) = some n := by
    have all : ∀ d ∈ Nat.toDigits 10 n, d.isDigit = true := fun d =>
      Nat.isDigit_of_mem_toDigits (by decide) (by decide)
    have folded := foldlM_digits all 0
    rw [Nat.ofDigitChars_ten_toDigits] at folded
    rw [← folded, text]
    rfl
  have plain : readInt32? 10 (Nat.toDigits 10 n) = (readDigits? 10 (Nat.toDigits 10 n)).bind fun n =>
      if Int32.minValue.toInt ≤ (n : Int) ∧ (n : Int) ≤ Int32.maxValue.toInt then some (n : Int) else none := by
    have no_minus := Lexeme.ne_of_isDigit digit (d := '-') rfl
    have no_plus := Lexeme.ne_of_isDigit digit (d := '+') rfl
    rw [text]
    simp [readInt32?, no_minus, no_plus]
  have low : Int32.minValue.toInt = -2 ^ 31 := rfl
  have high : Int32.maxValue.toInt = 2 ^ 31 - 1 := rfl
  have fits : (Int32.minValue.toInt ≤ (n : Int) ∧ (n : Int) ≤ Int32.maxValue.toInt) ↔ n < 2 ^ 31 := by omega
  simp only [plain, value, Option.bind_some, fits]

theorem digitsValue_toDigits : digitsValue (Nat.toDigits 10 n) = n :=
  Nat.ofDigitChars_ten_toDigits

theorem toLower_of_isDigit (digit : c.isDigit = true) : c.toLower = c := by
  have high : c.toNat ≤ 57 := by
    simp only [Char.isDigit, Bool.and_eq_true, decide_eq_true_eq] at digit
    exact digit.2
  have small : ¬(c.val ≥ 'A'.val ∧ c.val ≤ 'Z'.val) := by
    rintro ⟨low, -⟩
    have low : 65 ≤ c.toNat := low
    omega
  unfold Char.toLower
  rw [dif_neg small]

/-- The digits of a number are read as the double nearest to it. -/
theorem readFloat?_toDigits : readFloat? (Nat.toDigits 10 n) = some (ofDecimal false n 0) := by
  obtain ⟨_, _, text, digit, _⟩ := Lexeme.exists_digits n
  have all : ∀ d ∈ Nat.toDigits 10 n, d.isDigit = true := fun d =>
    Nat.isDigit_of_mem_toDigits (by decide) (by decide)
  have magnitude : readMagnitude? false (Nat.toDigits 10 n) = some (ofDecimal false n 0) := by
    simp only [readMagnitude?, takeWhile_eq_self_iff.mpr all, List.dropWhile_eq_nil_iff.mpr all]
    simp [readExponent?, digitsValue_toDigits]
  have no_word : ∀ (d : Char) (more : List Char), d.isDigit = false →
      ofList ((Nat.toDigits 10 n).map Char.toLower) ≠ ofList (d :: more) := by
    intro d more other same
    rw [ofList_inj, text, map_cons, List.cons.injEq, toLower_of_isDigit digit] at same
    exact Lexeme.ne_of_isDigit digit other same.1
  have infinity := no_word 'i' ['n', 'f'] rfl
  have infinity' := no_word 'i' ['n', 'f', 'i', 'n', 'i', 't', 'y'] rfl
  have notANumber := no_word 'n' ['a', 'n'] rfl
  rw [readFloat?]
  · simp only [infinity, infinity', notANumber, decide_false, Bool.or_self, Bool.false_eq_true, if_false, magnitude]
  · exact fun more signed => absurd (all '-' (signed ▸ mem_cons_self)) (by decide)
  · exact fun more signed => absurd (all '+' (signed ▸ mem_cons_self)) (by decide)

end Decimal

/-- What the token of a number in decimal says. One that takes more than 31 bits is no integer. -/
def Token.numberContent (n : Nat) : Token.Content :=
  let text := ofList (Nat.toDigits 10 n)
  if n < 2 ^ 31 then (.integer, text, .integer n) else (.float, text, .float (Decimal.ofDecimal false n 0))

theorem Token.numberValue?_toDigits : numberValue? (ofList (Nat.toDigits 10 n)) =
    some (if n < 2 ^ 31 then .integer n else .float (Decimal.ofDecimal false n 0)) := by
  have all : ∀ d ∈ Nat.toDigits 10 n, d.isDigit = true := fun d =>
    Nat.isDigit_of_mem_toDigits (by decide) (by decide)
  have spelled : ∀ word : String, '#' ∈ word.toList → ofList (Nat.toDigits 10 n) ≠ word := by
    rintro word mark rfl
    rw [toList_ofList] at mark
    exact absurd (all _ mark) (by decide)
  have decimal : ∀ digits, Nat.toDigits 10 n ≠ '0' :: 'x' :: digits := by
    intro digits hexadecimal
    exact absurd (all 'x' (by simp [hexadecimal])) (by decide)
  simp only [numberValue?, spelled "1.#INF" (by decide), spelled "1#INF" (by decide), spelled "1.#IND" (by decide),
    spelled "1#IND" (by decide), Bool.or_self, toList_ofList,
    Decimal.readInt32?_toDigits, Decimal.readFloat?_toDigits]
  by_cases small : n < 2 ^ 31
  · rw [if_pos small, if_pos small]
    rfl
  · rw [if_neg small, if_neg small]
    rfl

namespace Layout

/-- A state hands out these tokens, none of them the end of the file, and then is in another state. -/
inductive Hands : Layout → List Token → Layout → Prop
  | nil {s : Layout} : Hands s [] s
  | cons {s t u : Layout} {token : Token} {tokens : List Token} (next : s.next = (token, t))
      (goes_on : token.isEnd = false) (rest : Hands t tokens u) : Hands s (token :: tokens) u

namespace Hands

theorem append (front : Hands s tokens t) (back : Hands t tokens' u) : Hands s (tokens ++ tokens') u := by
  induction front with
  | nil => exact back
  | cons next goes_on _ ih => exact .cons next goes_on (ih back)

theorem single (next : s.next = (token, t)) (goes_on : token.isEnd = false) : Hands s [token] t :=
  .cons next goes_on .nil

theorem of_next (hands : Hands s tokens t) (same : u.next = s.next) (some_given : tokens ≠ []) :
    Hands u tokens t := by
  cases hands with
  | nil => exact absurd rfl some_given
  | cons next goes_on rest => exact .cons (same.trans next) goes_on rest

theorem tokensFrom (hands : Hands s tokens t) (fuel : Nat) :
    s.tokensFrom (tokens.length + fuel) = tokens ++ t.tokensFrom fuel := by
  induction hands with
  | nil => rw [length_nil, Nat.zero_add, nil_append]
  | cons next goes_on _ ih =>
    rw [length_cons, Nat.add_right_comm, tokensFrom_succ, next]
    simp [goes_on, ih]

end Hands

/-- What is left to read is this text, on the line where it starts. -/
structure At (origin : Lexeme.Origin) (levels : List Nat) (nesting : Nat) (s : Layout) (cs : List Char) : Prop where
  queue : s.queue = []
  levels : s.levels = levels
  nesting : s.nesting = nesting
  source : ∃ place, s.source = Lexeme.scanFrom origin 0 place false cs

variable {levels : List Nat} {nesting : Nat} {s : Layout}

/-- The token that the first lexeme of a text makes. -/
theorem At.next_of_give (at_ : At origin levels nesting s (text ++ rest)) (scans : Lexeme.Scans origin kind text rest)
    (hands : ∀ (t : Layout) (span : Span), At origin levels nesting t rest →
      ∃ token u, t.give? ⟨kind, ofList text, none, span⟩ = some (token, u) ∧ token.content = content ∧
        At origin levels nesting' u rest) :
    ∃ token t, s.next = (token, t) ∧ token.content = content ∧ At origin levels nesting' t rest := by
  obtain ⟨place, source⟩ := at_.source
  obtain ⟨place', span, scanned⟩ := scans place
  rw [scanned] at source
  have inner : At origin levels nesting
      { s with source := Lexeme.scanFrom origin 0 place' false rest, lastSpan := span } rest :=
    ⟨at_.queue, at_.levels, at_.nesting, place', rfl⟩
  obtain ⟨token, u, give, same, after⟩ := hands _ span inner
  refine ⟨token, u, ?_, same, after⟩
  rw [next_eq_read at_.queue, source, read]
  simp only [give]

/-- Behind the text stands the end of the file. -/
theorem At.next_of_nil (at_ : At origin [0] nesting s []) : s.next.1.kind = .endOfFile := by
  obtain ⟨_, source⟩ := at_.source
  rw [next_eq_read at_.queue, source]
  simp [Lexeme.scanFrom, read, give?, endFile, at_.levels, give]

/-- A blank is read over. -/
theorem At.next_of_blank (other : Lexeme.isGap c = false)
    (at_ : At origin levels nesting s (' ' :: c :: rest)) :
      ∃ t, At origin levels nesting t (c :: rest) ∧ s.next = t.next := by
  obtain ⟨place, source⟩ := at_.source
  obtain ⟨place', span, scanned⟩ := Lexeme.scans_blank origin other place
  rw [singleton_append] at scanned
  rw [scanned] at source
  let t : Layout :=
    { s with source := Lexeme.scanFrom origin 0 place' false (c :: rest), lastSpan := span, spaced := true }
  have inner : At origin levels nesting t (c :: rest) := ⟨at_.queue, at_.levels, at_.nesting, place', rfl⟩
  refine ⟨t, inner, ?_⟩
  rw [next_eq_read at_.queue, next_eq_read inner.queue, source]
  rfl

/-- A text is read as these tokens, up to its rest. Parentheses change how deep it is nested. -/
def Lexes (origin : Lexeme.Origin) (levels : List Nat) (nesting nesting' : Nat) (cs : List Char)
    (contents : List Token.Content) (rest : List Char) : Prop :=
  ∀ s, At origin levels nesting s cs → ∃ tokens t, tokens.map Token.content = contents ∧
    At origin levels nesting' t rest ∧ s.Hands tokens t

namespace Lexes

theorem append (front : Lexes origin levels nesting nesting' cs first mid)
    (back : Lexes origin levels nesting' nesting'' mid second rest) :
    Lexes origin levels nesting nesting'' cs (first ++ second) rest := by
  intro s start
  obtain ⟨tokens, t, same, middle, hands⟩ := front s start
  obtain ⟨tokens', u, same', finish, hands'⟩ := back t middle
  exact ⟨tokens ++ tokens', u, by rw [map_append, same, same'], finish, hands.append hands'⟩

theorem single (goes_on : content.1 ≠ .endOfFile)
    (hands : ∀ s, At origin levels nesting s text → ∃ token t, s.next = (token, t) ∧ token.content = content ∧
      At origin levels nesting' t rest) : Lexes origin levels nesting nesting' text [content] rest := by
  intro s start
  obtain ⟨token, t, next, same, after⟩ := hands s start
  have kind : token.isEnd = false := by
    rw [← same] at goes_on
    simpa [Token.isEnd, Token.content] using goes_on
  exact ⟨[token], t, by rw [map_singleton, same], after, .single next kind⟩

theorem blank (other : Lexeme.isGap c = false)
    (some_content : contents ≠ []) (reads : Lexes origin levels nesting nesting' (c :: cs) contents rest) :
    Lexes origin levels nesting nesting' (' ' :: c :: cs) contents rest := by
  intro _ start
  obtain ⟨t, inner, next⟩ := start.next_of_blank other
  obtain ⟨tokens, u, same, after, hands⟩ := reads t inner
  have some_given : tokens ≠ [] := by
    rintro rfl
    exact some_content same.symm
  exact ⟨tokens, u, same, after, hands.of_next next some_given⟩

theorem word {more : List Char} (starts : Text.startsWord c = true)
    (continues : ∀ d ∈ more, Text.continuesWord d = true) (closed : Closed rest) :
    Lexes origin levels nesting nesting (c :: more ++ rest)
      [(Token.Kind.ofWord (ofList (c :: more)), ofList (c :: more), .none)] rest := by
  have goes_on : Token.Kind.ofWord (ofList (c :: more)) ≠ .endOfFile := by
    unfold Token.Kind.ofWord
    cases Keyword.ofWord? (ofList (c :: more)) <;> simp
  have stops := closed.takeWhile (p := Text.continuesWord) (by simp [closers, Text.continuesWord])
  refine single goes_on fun _ start =>
    start.next_of_give (Lexeme.scans_word starts continues stops) fun t _ inner => ?_
  obtain ⟨place, source⟩ := inner.source
  obtain ⟨_, _, head, no_word, no_number⟩ := Lexeme.exists_head_of_closed closed
  have alone := source.trans head
  refine ⟨_, _, rfl, ?_, ⟨inner.queue, inner.levels, inner.nesting, place, ?_⟩⟩
  · have nothing : t.source.takeWhile (fun m => m.kind = .word || m.kind = .number) = [] := by
      simp [alone, no_word, no_number]
    simp only [nothing, foldl_nil, Token.Kind.ofWord]
    cases Keyword.ofWord? (ofList (c :: more)) <;> rfl
  · simp [alone, no_word, no_number, head]

theorem name (name : Name) (closed : Closed rest) :
    Lexes origin levels nesting nesting (name.chars ++ rest) [(.identifier, name.text, .none)] rest := by
  have reads : Lexes origin levels nesting nesting _ _ rest := word name.starts name.continues closed
  rwa [Token.Kind.ofWord, name.free] at reads

theorem number (n : Nat) (closed : Closed rest) :
    Lexes origin levels nesting nesting (Nat.toDigits 10 n ++ rest) [Token.numberContent n] rest := by
  have goes_on : (Token.numberContent n).1 ≠ .endOfFile := by
    unfold Token.numberContent
    split <;> simp
  refine single goes_on fun _ start => start.next_of_give (Lexeme.scans_number origin closed) fun _ _ inner => ?_
  refine ⟨_, _, rfl, ?_, inner.queue, inner.levels, inner.nesting, inner.source⟩
  simp only [Token.content, Token.numberValue?_toDigits, Token.numberContent]
  by_cases small : n < 2 ^ 31
  · simp only [if_pos small]
  · simp only [if_neg small]

theorem operator (op : Operator) (rest : List Char) :
    Lexes origin levels nesting nesting (' ' :: (op.text.toList ++ ' ' :: rest)) [(.symbol op.symbol, op.text, .none)]
      (' ' :: rest) := by
  have reads : Lexes origin levels nesting nesting (op.text.toList ++ ' ' :: rest)
    [(.symbol op.symbol, op.text, .none)]
      (' ' :: rest) := by
    refine single (by simp) fun _ start => start.next_of_give (Lexeme.scans_operator origin) fun _ _ inner => ?_
    rcases op with op | op <;> cases op <;>
      exact ⟨_, _, rfl, rfl, inner.queue, inner.levels, inner.nesting, inner.source⟩
  have first : ∃ c front, op.text.toList = c :: front ∧ Lexeme.isGap c = false := by
    rcases op with op | op <;> cases op <;> exact ⟨_, _, rfl, rfl⟩
  obtain ⟨c, front, text, other⟩ := first
  rw [text] at reads ⊢
  exact blank other (by simp) reads

theorem leftParen (rest : List Char) :
    Lexes origin levels nesting (nesting + 1) ('(' :: rest) [(.symbol .leftParen, "(", .none)] rest := by
  refine single (by simp) fun _ start => ?_
  refine start.next_of_give (Lexeme.scans_leftParen origin) fun _ _ inner => ?_
  exact ⟨_, _, rfl, rfl, inner.queue, inner.levels, congrArg (· + 1) inner.nesting, inner.source⟩

theorem rightParen (rest : List Char) :
    Lexes origin levels (nesting + 1) nesting (')' :: rest) [(.symbol .rightParen, ")", .none)] rest := by
  refine single (by simp) fun _ start => ?_
  refine start.next_of_give (Lexeme.scans_rightParen origin) fun _ _ inner => ?_
  exact ⟨_, _, rfl, rfl, inner.queue, inner.levels, congrArg (· - 1) inner.nesting, inner.source⟩

end Lexes

end Layout

/-- The tokens of lexemes are those that are handed out up to the end of the file. -/
theorem Token.ofLexemes_of_hands (hands : (Layout.ofSource source).Hands tokens t)
    (ends : t.next.1.kind = .endOfFile) :
    ofLexemes source = tokens ++ [t.next.1] := by
  have start : (Layout.ofSource source).remaining = 4 * source.length := rfl
  rw [ofLexemes, (Layout.Sound.ofSource source).tokensFrom_eq (by omega)
    (by omega : _ < tokens.length + (4 * source.length + 1)), hands.tokensFrom, Layout.tokensFrom_succ]
  simp [Token.isEnd, ends]

namespace OperatorTree

/-- What the tokens of a tree say. -/
def contents (needed : Nat) : OperatorTree → List Token.Content
  | .name word => [(.identifier, word.text, .none)]
  | .number value => [(.integer, ofList (Nat.toDigits 10 value), .integer value.val)]
  | .node op left right =>
    enclosed (.symbol .leftParen, "(", .none) (.symbol .rightParen, ")", .none) (op.level < needed)
      (contents op.leftLevel left ++ (.symbol op.symbol, op.text, .none) :: contents op.rightLevel right)

theorem contents_ne_nil (tree : OperatorTree) : tree.contents needed ≠ [] := by
  cases tree with
  | name | number => simp [contents]
  | node _ _ _ =>
    unfold contents enclosed
    split <;> simp

theorem exists_head_render (tree : OperatorTree) (needed : Nat) :
    ∃ c rest, tree.render needed = c :: rest ∧ Lexeme.Solid c := by
  induction tree generalizing needed with
  | name word => exact ⟨word.first, word.more, rfl, .of_startsWord word.starts⟩
  | number value =>
    obtain ⟨c, front, text, digit, -⟩ := Lexeme.exists_digits value
    exact ⟨c, front, text, .of_isDigit digit⟩
  | node op _ _ ih_left =>
    obtain ⟨c, rest, text, solid⟩ := ih_left op.leftLevel
    unfold render enclosed
    split
    · exact ⟨'(', _, rfl, ⟨rfl, fun _ _ => rfl, fun _ => rfl⟩⟩
    · exact ⟨c, _, by rw [text]; rfl, solid⟩

/-- The text of a tree is read as its tokens. -/
theorem lexes (origin : Lexeme.Origin) (levels : List Nat) (tree : OperatorTree) (needed nesting : Nat)
    (closed : Closed rest) :
    Layout.Lexes origin levels nesting nesting (tree.render needed ++ rest) (tree.contents needed) rest := by
  induction tree generalizing needed nesting rest with
  | name word => exact .name word closed
  | number value =>
    have reads : Layout.Lexes origin levels nesting nesting _ _ rest := .number value closed
    rwa [Token.numberContent, if_pos value.isLt] at reads
  | node op left right ih_left ih_right =>
    have inner : ∀ (nesting : Nat) {rest : List Char}, Closed rest → Layout.Lexes origin levels nesting nesting
        (left.render op.leftLevel ++ ' ' :: (op.text.toList ++ ' ' :: (right.render op.rightLevel ++ rest)))
        (left.contents op.leftLevel ++ (.symbol op.symbol, op.text, .none) :: right.contents op.rightLevel) rest := by
      intro nesting rest closed
      have blank : Closed (' ' :: (op.text.toList ++ ' ' :: (right.render op.rightLevel ++ rest))) :=
        mem_of_elem_eq_true rfl
      refine (ih_left op.leftLevel nesting blank).append ((Layout.Lexes.operator op _).append ?_)
      have reads := ih_right op.rightLevel nesting closed
      obtain ⟨_, _, text, solid⟩ := right.exists_head_render op.rightLevel
      rw [text] at reads ⊢
      exact .blank solid.gap (right.contents_ne_nil) reads
    unfold render contents enclosed
    split
    · have parenthesis : Closed (')' :: rest) := mem_of_elem_eq_true rfl
      have reads := (Layout.Lexes.leftParen _).append ((inner (nesting + 1) parenthesis).append (.rightParen rest))
      simpa using reads
    · simpa using inner nesting closed

/-- The tokens of a text are those of its tree and the end of the file. -/
theorem exists_tokens (tree : OperatorTree) (origin : Lexeme.Origin) :
    ∃ tokens last, Token.ofLexemes (Lexeme.scan origin tree.text) = tokens ++ [last] ∧
      tokens.map Token.content = tree.contents 0 ∧ last.kind = .endOfFile := by
  obtain ⟨_, _, text, solid⟩ := tree.exists_head_render 0
  have scanned : Lexeme.scan origin tree.text = Lexeme.scanFrom origin 0 .first false (tree.render 0) := by
    rw [Lexeme.scan, OperatorTree.text, toList_ofList, text, solid.scanFrom]
  have start : Layout.At origin [0] 0 (.ofSource (Lexeme.scan origin tree.text)) (tree.render 0 ++ []) :=
    ⟨rfl, rfl, rfl, .first, by rw [append_nil]; exact scanned⟩
  obtain ⟨tokens, t, same, finish, hands⟩ := tree.lexes origin [0] 0 0 (show Closed [] from trivial) _ start
  have ends := finish.next_of_nil
  exact ⟨tokens, t.next.1, Token.ofLexemes_of_hands hands ends, same, ends⟩

end OperatorTree

end DreamMaker
