import Mathlib.Algebra.Ring.Nat
import Mathlib.Data.List.Basic
import DreamMaker.Proofs.Parsing.Progress
import DreamMaker.Proofs.Syntax.Places

namespace DreamMaker.Parsing

open List

/-- How the source of the second of two runs goes on behind that of the first. -/
inductive Mode
  /-- It ends there too. -/
  | whole
  /-- It goes on. The first run is of interest as long as it reports nothing and does not fail. -/
  | clean
  /-- It goes on behind a line. The first run is of interest as long as it does not fail at its end. -/
  | line
deriving DecidableEq

/-- A line end, or the end of a block behind it. -/
def endsLine (token : Token) : Bool := token.kind = .newline || token.kind = .dedent

/-- Tokens between the statements of a source, and what is dropped with them. -/
def isIdle (token : Token) : Bool := isInvalid token || isDelimiter token.kind

/-- Tokens that go on with nothing that stands before them. -/
def startsAnew (token : Token) : Bool :=
  !isIdle token && !closesBlock token.kind && token.kind ≠ .indent && token.kind ≠ .symbol .leftBrace &&
    token.kind ≠ .keyword .else_

/-- Where the second source ends too, nothing goes on. -/
theorem Mode.not_anew : Mode.whole ≠ .whole → ∃ head tail, ([] : List Token) = head :: tail ∧
    startsAnew head = true :=
  fun apart => absurd rfl apart

theorem Mode.not_blind : Mode.whole ≠ .whole → ∀ a b : Span, a = b := fun apart => absurd rfl apart

/-- A place may be seen as itself. -/
theorem Mode.sees_all : (∀ a b : Span, a = b) ∨ ∀ a : Span, a = a := .inr fun _ => rfl

/-- What two runs have in common. -/
structure Setting where
  mode : Mode
  /-- What is seen of a place. -/
  view : Span → Span
  sees : (∀ a b, view a = view b) ∨ ∀ a, view a = a
  blind : mode ≠ .whole → ∀ a b, view a = view b
  /-- Whether the runs report the same, and show it in the same way. -/
  exact : Prop
  exact_whole : exact → mode = .whole
  exact_view : exact → ∀ a, view a = a
  /-- What the second source holds behind the first one. -/
  rest : List Token
  anew : mode ≠ .whole → ∃ head tail, rest = head :: tail ∧ startsAnew head = true
  /-- The invalid tokens of the second source, if the first one is the same without them. -/
  strays? : Option (List Token) := none

/-- Both runs read the same, and everything is seen. -/
def Setting.identical : Setting where
  mode := .whole
  view := fun a => a
  sees := Mode.sees_all
  blind := Mode.not_blind
  exact := True
  exact_whole _ := rfl
  exact_view _ _ := rfl
  rest := []
  anew := Mode.not_anew

/-- Nothing is left but the end and one delimiter before it. -/
def Spent (s : State) : Prop :=
  s.current.isEnd = true ∨ isDelimiter s.current.kind = true ∧ ∃ last, s.ahead = [last] ∧ last.isEnd = true

/-- A list is made up of two others, each in its order. -/
inductive Interleaves {α : Type} : List α → List α → List α → Prop
  | nil : Interleaves [] [] []
  | left {x xs ys zs} : Interleaves xs ys zs → Interleaves (x :: xs) ys (x :: zs)
  | right {xs y ys zs} : Interleaves xs ys zs → Interleaves xs (y :: ys) (y :: zs)

namespace Interleaves

variable {zs : List α}

theorem appendLeft (interleaves : Interleaves xs ys zs) : Interleaves (xs ++ more) ys (zs ++ more) := by
  induction interleaves with
  | nil =>
    induction more with
    | nil => exact .nil
    | cons _ _ ih => exact .left ih
  | left _ ih => exact .left ih
  | right _ ih => exact .right ih

theorem symm (interleaves : Interleaves xs ys zs) : Interleaves ys xs zs := by
  induction interleaves with
  | nil => exact .nil
  | left _ ih => exact .right ih
  | right _ ih => exact .left ih

theorem appendRight (interleaves : Interleaves xs ys zs) : Interleaves xs (ys ++ more) (zs ++ more) :=
  interleaves.symm.appendLeft.symm

end Interleaves

/-- An error was reported. -/
def Complains (s : State) : Prop := ∃ report ∈ s.reports.toList, report.diagnostic.isError = true

def opens (token : Token) : Nat := if token.kind = .indent then 1 else 0

def closes (token : Token) : Nat := if token.kind = .dedent then 1 else 0

namespace Setting

variable (S : Setting)

theorem merge_congr (left : S.view a = S.view a') (right : S.view b = S.view b') :
    S.view (a.merge b) = S.view (a'.merge b') := by
  rcases S.sees with blind | same
  · exact blind _ _
  · rw [same, same] at left right
    rw [left, right]

/-- What the second source holds behind the first one, as far as it has not been read. -/
def Beyond (tokens : List Token) : Prop := tokens.dropWhile isIdle = S.rest

/-- How the sources end. The first holds `front` and `last`, the second holds `onward` behind what is like
`front`. -/
def Border (level : Nat) (front : List Token) (last : Token) (onward : List Token) : Prop :=
  match S.mode with
  | .whole => move S.view [last] = move S.view onward
  | .clean => S.Beyond onward ∧ (∃ token ∈ front.getLast?, endsLine token = true) ∧
      (front.map opens).sum + level ≤ (front.map closes).sum
  | .line => S.Beyond onward ∧ (∃ token ∈ front.getLast?, endsLine token = true) ∧
      level = 0 ∧ ∀ token ∈ front, opens token = 0 ∧ closes token = 0

/-- The second source starts like the first, and goes on behind it as the mode says. -/
def Ahead (level : Nat) (tokens tokens' : List Token) : Prop :=
  ∃ front last front' onward, tokens = front ++ [last] ∧ tokens' = front' ++ onward ∧
    move S.view front = move S.view front' ∧ S.Border level front last onward

/-- The tokens of the second source that the first one holds too. -/
def thin (tokens : List Token) : List Token :=
  match S.mode, S.strays? with
  | .whole, some _ => tokens.filter (!isInvalid ·)
  | _, _ => tokens

/-- The second run has reported the same, and the invalid tokens it has read if the first has none. -/
def Told (s t : State) : Prop :=
  match S.strays? with
  | none => s.reports = t.reports
  | some strays => ∃ told, told ++ t.tokens.filter isInvalid = strays ∧
      Interleaves (told.map State.invalid) s.reports.toList t.reports.toList

/-- What the states have in common apart from the tokens. -/
structure Agree (s t : State) : Prop where
  owner : s.owner = t.owner
  declares : s.declares = t.declares
  complains : Complains s → Complains t
  exact : S.exact → S.Told s t ∧ s.skips = t.skips ∧ s.config = t.config

/-- Both runs are at the same place. -/
structure Inner (level : Nat) (s t : State) : Prop extends S.Agree s t where
  kind : s.previous.kind = t.previous.kind
  behind : S.view s.previous.span = S.view t.previous.span
  valid : isInvalid t.current = false
  tokens : S.Ahead level s.tokens (S.thin t.tokens)

/-- The first source is read. -/
structure Passed (s t : State) : Prop extends S.Agree s t where
  apart : S.mode ≠ .whole
  spent : Spent s
  beyond : S.Beyond t.tokens
  valid : isInvalid t.current = false

/-- The first source is read, and so is what ends its last statement. -/
structure Outer (level : Nat) (s t : State) : Prop extends S.Passed s t where
  level : level = 0
  ended : closesBlock t.previous.kind = true ∨ isDelimiter t.current.kind = true

/-- The first run has read its source, and the second one may be anywhere. -/
structure Loose (level : Nat) (s : State) : Prop where
  apart : S.mode ≠ .whole
  level : level = 0
  spent : Spent s

/-- The first run has reported something, and is of no interest any more. -/
def Lost (s : State) : Prop := S.mode = .clean ∧ s.reports.toList ≠ []

/-- The first run has failed where that is of no interest. -/
def Quits (s : State) : Prop := S.mode = .clean ∨ S.mode = .line ∧ Spent s

def At : Stage → State → State → Prop
  | .inner level, s, t | .loose level, s, t => S.Inner level s t
  | .outer level, s, t => S.Inner level s t ∨ S.Outer level s t
  | .told level, s, t | .failed level, s, t => S.mode ≠ .clean ∧ S.Inner level s t

def Adrift : Stage → State → Prop
  | .loose level, s | .told level, s => S.Loose level s
  | .failed level, s => S.mode = .clean ∨ S.Loose level s
  | .inner _, _ | .outer _, _ => False

theorem thin_cases : (∀ tokens, S.thin tokens = tokens) ∧ (S.mode = .whole → S.strays? = none) ∨
    ∃ strays, S.strays? = some strays ∧ ∀ tokens, S.thin tokens = tokens.filter (!isInvalid ·) := by
  unfold thin
  cases S.mode <;> cases S.strays? <;> simp

theorem thin_cons (valid : isInvalid token = false) (tokens : List Token) :
    S.thin (token :: tokens) = token :: S.thin tokens := by
  rcases S.thin_cases with ⟨same, -⟩ | ⟨_, -, thins⟩
  · rw [same, same]
  · rw [thins, thins, filter_cons_of_pos (by simp [valid])]

theorem thin_of_plain (plain : S.strays? = none) (tokens : List Token) : S.thin tokens = tokens := by
  unfold thin
  rw [plain]
  cases S.mode <;> rfl

theorem thin_of_apart (apart : S.mode ≠ .whole) : S.thin tokens = tokens := by
  unfold thin
  split
  · contradiction
  · rfl

theorem dropWhile_thin : (S.thin tokens).dropWhile isInvalid = S.thin (tokens.dropWhile isInvalid) := by
  rcases S.thin_cases with ⟨same, -⟩ | ⟨_, -, thins⟩
  · rw [same, same]
  rw [thins, thins]
  induction tokens with
  | nil => rfl
  | cons token _ ih => cases bad : isInvalid token <;> simp [bad, ih]

theorem length_thin_le (tokens : List Token) : (S.thin tokens).length ≤ tokens.length := by
  rcases S.thin_cases with ⟨same, -⟩ | ⟨_, -, thins⟩
  · rw [same]
  · rw [thins]
    exact length_filter_le _ _

variable {S} in
theorem Passed.inexact (passed : S.Passed s t) : ¬S.exact := fun exact_ => passed.apart (S.exact_whole exact_)

variable {S} in
theorem Inner.ahead (inner : S.Inner level s t) :
    S.Ahead level (s.current :: s.ahead) (t.current :: S.thin t.ahead) := by
  rw [← S.thin_cons inner.valid]
  exact inner.tokens

variable {S} in
theorem At.inner (together : S.At stage s t) [joint : stage.Joint] : S.Inner stage.level s t := by
  cases stage with
  | inner | loose => exact together
  | told => exact together.2
  | outer | failed => cases joint.isJoint

variable [Placed α] [Placed β]

/-- The outcome of a first run that went on alone. -/
def Drifts (post : α → Point) : Except ParseError α × State → Prop
  | (.ok a, s) => S.Lost s ∨ S.Adrift (post a).stage s
  | (.error _, s) => S.Quits s

/-- The outcomes of two runs that stayed together. -/
def Joins (post : α → Point) : Except ParseError α × State → Except ParseError α × State → Prop
  | (.ok a, s), (.ok b, t) => move S.view a = move S.view b ∧ S.At (post a).stage s t
  | (.error e, s), (.error e', t) => move S.view e = move S.view e' ∧ S.Inner 0 s t
  | _, _ => False

def Meets (post : α → Point) (first second : Except ParseError α × State) : Prop :=
  S.Drifts post first ∨ S.Joins post first second

/-- Two runs at the first stage are at the second one, or there the first goes on alone. -/
structure Weakens (before after : Stage) : Prop where
  at_ : ∀ s t, S.At before s t → S.At after s t ∨ S.Adrift after s
  adrift : ∀ s, S.Adrift before s → S.Adrift after s

end Setting

/-- What a token counts for: itself, and for a string the phrases that its holes can hold. -/
def weight (token : Token) : Nat := if token.kind = .string then 1 + 4 * token.textValue.length else 1

def State.weight (s : State) : Nat := (s.tokens.map Parsing.weight).sum

/-- Two readers stay together: the first makes the promised progress, and below the bound on weights the second
does the same. -/
structure Sim {α : Type} [Placed α] (S : Setting) (bound : Nat) (pre : Point)
    (p q : Parser α) (post : α → Point) :
    Prop where
  reads : Reads pre p post
  meets : ∀ s t : State, EndsOnce s.tokens → s.weight + pre.read < bound → pre.now s.current →
    S.At pre.stage s t → S.Meets post (p s) (q t)
  drifts : ∀ s : State, EndsOnce s.tokens → pre.now s.current → S.Adrift pre.stage s → S.Drifts post (p s)
  valid : ∀ s : State, EndsOnce s.tokens → pre.now s.current → isInvalid s.current = false → Throughout p s

section Kinds

variable [Placed α] (S : Setting) (bound : Nat)

/-- Readers that leave both runs where they are. -/
abbrev StaySim (place : Point) (p q : Parser α) : Prop := Sim S bound place p q fun _ => place

/-- Readers that stay inside of a line. -/
abbrev InnerSim (read : Nat) (p q : Parser α) : Prop :=
  ∀ {level : Nat} {now : Token → Prop}, Sim S bound ⟨.inner level, now, 0⟩ p q fun _ => .inner level read

/-- Readers that may read what ends a source. -/
abbrev OuterSim (read : Nat) (p q : Parser α) : Prop :=
  ∀ {level : Nat} {now : Token → Prop}, Sim S bound ⟨.inner level, now, 0⟩ p q fun _ => .outer level read

/-- Turns of a loop. -/
abbrev TurnSim [Placed β] (stage : Stage) (read : Nat) (p q : Parser (Turn α β)) : Prop :=
  Sim S bound (stage.past 0) p q (turned stage fun _ => stage.past read)

end Kinds

theorem weight_pos (token : Token) : 1 ≤ weight token := by
  unfold weight
  split <;> omega

theorem State.weight_pos (s : State) : 1 ≤ s.weight := by
  have first := Parsing.weight_pos s.current
  simp only [State.weight, State.tokens, List.map_cons, List.sum_cons]
  omega

/-- What was read weighs at least as much as it counts tokens. -/
theorem Later.weight_add (later : Later s s') : s'.weight + s.tokens.length ≤ s.weight + s'.tokens.length := by
  have left : ∀ {tokens' tokens : List Token}, tokens'.Sublist tokens →
      (tokens'.map weight).sum + tokens.length ≤ (tokens.map weight).sum + tokens'.length := by
    intro tokens' tokens sub
    induction sub with
    | slnil => exact Nat.le_refl _
    | cons token _ ih =>
      have positive := weight_pos token
      simp only [map_cons, sum_cons, length_cons]
      omega
    | cons_cons token _ ih =>
      simp only [map_cons, sum_cons, length_cons]
      omega
  exact left later.tokens

theorem Spent.carry (spent : Spent s) (tokens : s'.tokens = s.tokens) : Spent s' := by
  obtain ⟨current, ahead⟩ := List.cons.inj tokens
  rwa [Spent, current, ahead]

theorem Spent.later (spent : Spent s) (ends : EndsOnce s.tokens) (later : Later s s') : Spent s' := by
  rcases spent with atEnd | ⟨_, last, left, isEnd⟩
  · exact .inl (later.atEnd atEnd ends)
  by_cases read : s.tokens.length ≤ s'.tokens.length
  · obtain ⟨current, ahead⟩ := List.cons.inj (later.tokens.eq_of_length_le read)
    exact .inr ⟨by rwa [current], last, by rw [ahead, left], isEnd⟩
  have nothing : s'.ahead = [] := by
    simp only [State.tokens, left, length_cons, length_nil] at read
    exact eq_nil_of_length_eq_zero (by omega)
  have single : EndsOnce ([] ++ [s'.current]) := by
    have ends := later.ends
    rw [State.tokens, nothing] at ends
    exact ends
  exact .inl single.last

namespace Setting

variable {S : Setting} {result : Except ParseError α × State} {level : Nat}

theorem Lost.drifts (lost : S.Lost s) (later : Later s result.2) : S.Drifts post result := by
  obtain ⟨clean, told⟩ := lost
  rcases result with ⟨_ | _, _⟩
  · exact .inl clean
  refine .inl ⟨clean, fun nothing => told ?_⟩
  have reports := later.reports
  rw [nothing] at reports
  exact prefix_nil.mp reports

/-- A first run that has nothing left fails, or stays so. -/
theorem Loose.drifts (loose : S.Loose level s) (ends : EndsOnce s.tokens) (later : Later s result.2)
    (floats : ∀ a, result.1 = .ok a → S.Loose level result.2 → S.Adrift (post a).stage result.2) :
    S.Drifts post result := by
  have spent := loose.spent.later ends later
  rcases result with ⟨_ | a, _⟩
  · cases mode : S.mode with
    | whole => exact absurd mode loose.apart
    | clean => exact .inl mode
    | line => exact .inr ⟨mode, spent⟩
  · exact .inr (floats a rfl ⟨loose.apart, loose.level, spent⟩)

/-- Indentations are counted in runs without reports only, and there are none in a line. -/
theorem Inner.relevel (inner : S.Inner level s t) (clean : S.mode = .clean → level' ≤ level)
    (line : S.mode = .line → level = 0 → level' = 0) : S.Inner level' s t := by
  obtain ⟨front, last, front', onward, left, right, same, border⟩ := inner.tokens
  refine { inner with tokens := ⟨front, last, front', onward, left, right, same, ?_⟩ }
  cases mode : S.mode <;> simp only [Border, mode] at border ⊢
  · exact border
  · obtain ⟨beyond, ends, open_⟩ := border
    exact ⟨beyond, ends, Nat.le_trans (Nat.add_le_add_left (clean mode) _) open_⟩
  · obtain ⟨beyond, ends, zero, plain⟩ := border
    exact ⟨beyond, ends, line mode zero, plain⟩

/-- Errors in a run of interest are those of two runs at the same place. -/
theorem Inner.zero (inner : S.Inner level s t) (mode : S.mode ≠ .clean) : S.Inner 0 s t :=
  inner.relevel (absurd · mode) fun _ _ => rfl

section Stages

variable {level' : Nat}

@[simp] theorem weakens_rfl : S.Weakens stage stage := ⟨fun _ _ => .inl, fun _ => id⟩

theorem Inner.lower (inner : S.Inner level s t) (below : level' ≤ level) : S.Inner level' s t :=
  inner.relevel (fun _ => below) fun _ zero => Nat.le_zero.mp (zero ▸ below)

@[simp] theorem weakens_outer (below : level' ≤ level) : S.Weakens (.inner level) (.outer level') :=
  ⟨fun _ _ inner => .inl (.inl (inner.lower below)), fun _ => False.elim⟩

@[simp] theorem weakens_loose (below : level' ≤ level) : S.Weakens (.inner level) (.loose level') :=
  ⟨fun _ _ inner => .inl (inner.lower below), fun _ => False.elim⟩

@[simp] theorem outer_weakens_loose : S.Weakens (.outer level) (.loose level) where
  at_ _ _ := by
    rintro (inner | outer)
    · exact .inl inner
    · exact .inr ⟨outer.apart, outer.level, outer.spent⟩
  adrift _ := False.elim

@[simp] theorem told_weakens_loose : S.Weakens (.told level) (.loose level) :=
  ⟨fun _ _ told => .inl told.2, fun _ => id⟩

@[simp] theorem loose_weakens_inner (below : level' ≤ level) (inside : 0 < level) :
    S.Weakens (.loose level) (.inner level') where
  at_ _ _ inner := .inl (inner.lower below)
  adrift _ loose := absurd loose.level (by omega)

@[simp] theorem loose_weakens_loose (below : level' ≤ level) (inside : 0 < level) :
    S.Weakens (.loose level) (.loose level') where
  at_ _ _ inner := .inl (inner.lower below)
  adrift _ loose := absurd loose.level (by omega)

@[simp] theorem loose_weakens_outer (below : level' ≤ level) (inside : 0 < level) :
    S.Weakens (.loose level) (.outer level') where
  at_ _ _ inner := .inl (.inl (inner.lower below))
  adrift _ loose := absurd loose.level (by omega)

/-- Where both sources end at the same place, the first run never goes on alone. -/
theorem loose_weakens_of_whole (whole : S.mode = .whole) : S.Weakens (.loose level) (.inner level) :=
  ⟨fun _ _ inner => .inl inner, fun _ loose => loose.apart whole⟩

theorem loose_weakens_told (mode : S.mode ≠ .clean) : S.Weakens (.loose level) (.told level) :=
  ⟨fun _ _ inner => .inl ⟨mode, inner⟩, fun _ => id⟩

theorem outer_weakens_told (mode : S.mode ≠ .clean) : S.Weakens (.outer level) (.told level) where
  at_ _ _ := by
    rintro (inner | outer)
    · exact .inl ⟨mode, inner⟩
    · exact .inr ⟨outer.apart, outer.level, outer.spent⟩
  adrift _ := False.elim

end Stages

/-- What is known at one point is enough at another one. -/
structure Fits (S : Setting) (before after : Point) : Prop where
  stages : S.Weakens before.stage after.stage
  known : ∀ token, before.now token → after.now token
  enough : after.read ≤ before.read

@[simp]
theorem fits_iff {before after : Point} : S.Fits before after ↔
    S.Weakens before.stage after.stage ∧ (∀ token, before.now token → after.now token) ∧
      after.read ≤ before.read :=
  ⟨fun fits => ⟨fits.stages, fits.known, fits.enough⟩, fun ⟨stages, known, enough⟩ =>
    ⟨stages, known, enough⟩⟩

end Setting

/-- A point, with the tokens read before it. -/
abbrev Point.after (read : Nat) (point : Point) : Point := ⟨point.stage, point.now, read + point.read⟩

/-- A first run that goes on alone does so in the next step too. -/
theorem Setting.Drifts.bind [Placed β] {p : Parser α} {read : Nat} {g : α → Parser β} {post : β → Point}
    (alone : S.Drifts mid (p s)) (first : Reads pre p mid)
    (rest : ∀ a, Sim S bound ((mid a).after read) (f a) (g a) post)
    (ends : EndsOnce s.tokens) (start : pre.now s.current) : S.Drifts post ((p >>= f) s) := by
  obtain ⟨later, ok⟩ := first s ends start
  rw [Run.bind_eq]
  rcases run : p s with ⟨error | a, s₁⟩ <;> rw [run] at alone
  · exact alone
  rw [run] at later ok
  obtain ⟨-, now⟩ := ok a rfl
  have after := ((rest a).reads s₁ later.ends now).1
  rcases alone with lost | adrift
  · exact lost.drifts after
  · exact (rest a).drifts s₁ later.ends now adrift

namespace Sim

variable [Placed α] [Placed β] {post : α → Point} {read : Nat} {stage' : Stage} {g : α → Parser β}

theorem pure (given : Alike S.view a b ∧ S.Fits pre (post a)) :
    Sim S bound pre (Pure.pure a) (Pure.pure b) post where
  reads := .pure given.2.enough given.2.known
  meets s t _ _ _ together := by
    rcases given.2.stages.at_ s t together with after | alone
    · exact .inr ⟨given.1, after⟩
    · exact .inl (.inr alone)
  drifts s _ _ adrift := .inr (given.2.stages.adrift s adrift)
  valid _ _ _ valid := .note valid rfl rfl

/-- A step, for which a smaller bound is enough if tokens were read before it. -/
theorem bind_less {post : β → Point} (first : Sim S bound' ⟨stage, now, 0⟩ p q mid)
    (enough : bound ≤ bound' + read)
    (rest : ∀ a b, Alike S.view a b → Sim S bound ((mid a).after read) (f a) (g b) post) :
    Sim S bound ⟨stage, now, read⟩ (p >>= f) (q >>= g) post where
  reads := first.reads.frame.bind fun a => (rest a a rfl).reads
  meets s t ends light start together := by
    obtain ⟨later, ok⟩ := first.reads s ends start
    have weigh := later.weight_add
    dsimp only at light
    rcases first.meets s t ends (by dsimp only; omega) start together with alone | joint
    · exact .inl (alone.bind first.reads (fun a => rest a a rfl) ends start)
    rw [Run.bind_eq, Run.bind_eq]
    rcases run : p s with ⟨error | a, s₁⟩ <;>
      rcases run' : q t with ⟨error' | b, t₁⟩ <;> rw [run, run'] at joint
    · exact .inr joint
    · exact joint.elim
    · exact joint.elim
    rw [run] at later ok weigh
    obtain ⟨fewer, now⟩ := ok a rfl
    dsimp only at fewer weigh
    exact (rest a b joint.1).meets s₁ t₁ later.ends (by dsimp only; omega) now joint.2
  drifts s ends start adrift := (first.drifts s ends start adrift).bind first.reads (fun a => rest a a rfl) ends start
  valid s ends start valid := by
    obtain ⟨later, ok⟩ := first.reads s ends start
    exact .bind (first.valid s ends start valid) fun a result =>
      (rest a a rfl).valid _ later.ends (ok a result).2 (later.valid valid)

omit [Placed β] in
theorem andThen (sim : Sim S bound pre p q post) (ends : EndsOnce s.tokens)
    (start : pre.now s.current) (valid : isInvalid s.current = false)
    (rest : ∀ a, Later s (p s).2 → isInvalid (p s).2.current = false → Throughout (f a) (p s).2) :
      Throughout (p >>= f) s :=
  have later := (sim.reads s ends start).1
  .bind (sim.valid s ends start valid) fun a _ => rest a later (later.valid valid)

theorem bind {post : β → Point} (first : Sim S bound ⟨stage, now, 0⟩ p q mid)
    (rest : ∀ a b, Alike S.view a b → Sim S bound ((mid a).after read) (f a) (g b) post) :
    Sim S bound ⟨stage, now, read⟩ (p >>= f) (q >>= g) post :=
  first.bind_less (Nat.le_add_right _ _) rest

/-- A step whose result does not matter. -/
theorem next {p q : Parser α} {mid : Point} {post : β → Point}
    (first : Sim S bound ⟨stage, now, 0⟩ p q fun _ => mid) (rest : Sim S bound (mid.after read) k k' post) :
    Sim S bound ⟨stage, now, read⟩ (p >>= fun _ => k) (q >>= fun _ => k') post :=
  first.bind fun _ _ _ => rest

theorem throw (same : Alike S.view error error') :
    Sim S bound pre (MonadExcept.throw error) (MonadExcept.throw error') post where
  reads := .throw error
  meets s t ends _ _ together := by
    by_cases clean : S.mode = .clean
    · exact .inl (.inl clean)
    obtain ⟨stage, now, read⟩ := pre
    cases stage with
    | inner | loose => exact .inr ⟨same, together.zero clean⟩
    | outer level =>
      rcases together with inner | outer
      · exact .inr ⟨same, inner.zero clean⟩
      · have loose : S.Loose level s := ⟨outer.apart, outer.level, outer.spent⟩
        exact .inl (loose.drifts ends (.refl ends) fun _ failed => nomatch failed)
    | told | failed => exact .inr ⟨same, together.2.zero clean⟩
  drifts s ends _ adrift := by
    obtain ⟨stage, now, read⟩ := pre
    cases stage with
    | inner | outer => exact adrift.elim
    | loose | told => exact Setting.Loose.drifts adrift ends (.refl ends) fun _ failed => nomatch failed
    | failed =>
      rcases adrift with clean | loose
      · exact .inl clean
      · exact loose.drifts ends (.refl ends) fun _ failed => nomatch failed
  valid _ _ _ valid := .note valid rfl rfl

/-- No source weighs less than one. -/
theorem of_fails {p q : Parser α} (small : bound ≤ 1) (fails : ∀ s, ∃ error, p s = (.error error, s)) :
    Sim S bound pre p q post where
  reads s ends _ := by
    obtain ⟨error, run⟩ := fails s
    rw [run]
    exact ⟨.refl ends, fun _ failed => nomatch failed⟩
  meets s _ _ light _ _ := by
    have heavy := s.weight_pos
    omega
  drifts s ends start adrift := by
    obtain ⟨error, run⟩ := fails s
    have throws : Sim S bound pre (MonadExcept.throw error) (MonadExcept.throw error) post := .throw rfl
    rw [run]
    exact throws.drifts s ends start adrift
  valid s _ _ valid := by
    obtain ⟨error, run⟩ := fails s
    exact .note valid (by rw [run]) (by rw [run])

/-- A reader may be run where more is known than it needs. -/
theorem enter
    (sim : Sim S bound ⟨stage', now', read⟩ p q post) (stages : S.Weakens stage stage')
    (known : ∀ token, now token → now' token) : Sim S bound ⟨stage, now, read⟩ p q post where
  reads s ends start := sim.reads s ends (known _ start)
  meets s t ends light start together := by
    rcases stages.at_ s t together with after | alone
    · exact sim.meets s t ends light (known _ start) after
    · exact .inl (sim.drifts s ends (known _ start) alone)
  drifts s ends start adrift := sim.drifts s ends (known _ start) (stages.adrift s adrift)
  valid s ends start := sim.valid s ends (known _ start)

theorem restage (sim : Sim S bound ⟨stage', now, read⟩ p q post) (stages : S.Weakens stage stage') :
    Sim S bound ⟨stage, now, read⟩ p q post :=
  sim.enter stages fun _ => id

theorem loosen
    (sim : Sim S bound ⟨.loose level, now, read⟩ p q post) : Sim S bound ⟨.inner level, now, read⟩ p q post :=
  sim.restage (by simp)

theorem loosenOuter
    (sim : Sim S bound ⟨.loose level, now, read⟩ p q post) : Sim S bound ⟨.outer level, now, read⟩ p q post :=
  sim.restage (by simp)

theorem bind_plain [Unplaced α] {post : β → Point} (first : Sim S bound ⟨stage, now, 0⟩ p q mid)
    (rest : ∀ a, Sim S bound ((mid a).after read) (f a) (g a) post) :
    Sim S bound ⟨stage, now, read⟩ (p >>= f) (q >>= g) post := by
  refine first.bind fun a _ same => ?_
  rw [← eq_of_alike same]
  exact rest a

theorem branch {p q : Parser Bool} (test : Sim S bound ⟨stage, now, 0⟩ p q mid)
    (yes : Sim S bound ((mid true).after read) x x' post) (no : Sim S bound ((mid false).after read) y y' post) :
    Sim S bound ⟨stage, now, read⟩ (do if ← p then x else y) (do if ← q then x' else y') post := by
  refine test.bind_plain fun found => ?_
  cases found
  · exact no
  · exact yes

/-- A step that may find nothing. -/
theorem bind_option_less {post : β → Point} {g : Option α → Parser β}
    (first : Sim S bound' ⟨stage, now, 0⟩ p q (optional nothing something)) (enough : bound ≤ bound' + read)
    (without : Sim S bound (nothing.after read) (f none) (g none) post)
    (found : ∀ a b, Alike S.view a b → Sim S bound (something.after read) (f (some a)) (g (some b)) post) :
    Sim S bound ⟨stage, now, read⟩ (p >>= f) (q >>= g) post := by
  refine first.bind_less enough fun a b same => ?_
  cases a <;> cases b <;> simp at same
  · exact without
  · exact found _ _ same

section

variable {post : β → Point} {p q : Parser (Option α)} {f g : Option α → Parser β}
  (first : Sim S bound ⟨stage, now, 0⟩ p q (optional nothing something))
  (without : Sim S bound (nothing.after read) (f none) (g none) post)

include first without

theorem bind_option (found : ∀ a b, Alike S.view a b →
    Sim S bound (something.after read) (f (some a)) (g (some b)) post) :
    Sim S bound ⟨stage, now, read⟩ (p >>= f) (q >>= g) post :=
  first.bind_option_less (Nat.le_add_right _ _) without found

theorem bind_option_plain [Unplaced α] (found : ∀ a,
    Sim S bound (something.after read) (f (some a)) (g (some a)) post) :
    Sim S bound ⟨stage, now, read⟩ (p >>= f) (q >>= g) post := by
  refine first.bind_option without fun a _ same => ?_
  rw [← eq_of_alike same]
  exact found a

end

theorem ite [Decidable c] (yes : c → Sim S bound pre x x' post)
    (no : ¬c → Sim S bound pre y y' post) :
    Sim S bound pre (if c then x else y) (if c then x' else y') post := by
  split
  · exact yes ‹_›
  · exact no ‹_›

/-- The last step of a reader. -/
theorem last_less (sim : Sim S bound' ⟨stage, now, 0⟩ p q mid) (enough : bound ≤ bound' + read)
    (fits : ∀ a, S.Fits ((mid a).after read) (post a)) : Sim S bound ⟨stage, now, read⟩ p q post := by
  have whole := sim.bind_less enough fun a _ same => .pure ⟨same, fits a⟩
  rwa [bind_pure, bind_pure] at whole

theorem last (sim : Sim S bound ⟨stage, now, 0⟩ p q mid)
    (fits : ∀ a, S.Fits ((mid a).after read) (post a)) : Sim S bound ⟨stage, now, read⟩ p q post :=
  sim.last_less (Nat.le_add_right _ _) fits

/-- Whether something was found does not matter any more. -/
theorem forget {q : Parser (Option α)}
    (sim : Sim S bound ⟨stage, now, 0⟩ p q (optional (stage'.past 0) (stage'.past read))) :
    Sim S bound ⟨stage, now, 0⟩ p q fun _ => stage'.past 0 :=
  sim.last (by rintro (_ | _) <;> simp)

theorem map_less {f g : α → β} {post : β → Point} (sim : Sim S bound' ⟨stage, now, 0⟩ p q mid)
    (enough : bound ≤ bound' + read) (given : ∀ a b, Alike S.view a b →
      Alike S.view (f a) (g b) ∧ S.Fits ((mid a).after read) (post (f a))) :
    Sim S bound ⟨stage, now, read⟩ (f <$> p) (g <$> q) post :=
  sim.bind_less enough fun a b alike => .pure (given a b alike)

theorem map {g : α → β} {post : β → Point} (sim : Sim S bound ⟨stage, now, 0⟩ p q mid)
    (given : ∀ a b, Alike S.view a b →
      Alike S.view (f a) (g b) ∧ S.Fits ((mid a).after read) (post (f a))) :
    Sim S bound ⟨stage, now, read⟩ (f <$> p) (g <$> q) post :=
  sim.map_less (Nat.le_add_right _ _) given

end Sim

section Rounds

variable [Placed σ] [Placed β] {S : Setting}
  {turn' : σ → Parser (Turn σ β)}

/-- In any number of turns a loop makes progress, as does a first run that goes on alone. -/
theorem Sim.roundsOver (step : ∀ a b, Alike S.view a b →
      Sim S bound (stage.past 0) (turn a) (turn' b) (turned stage post)) (fuel : List Token)
    (same : Alike S.view a b) :
    Sim S 0 (stage.past 0) (Parsing.roundsOver turn fuel a) (Parsing.roundsOver turn' fuel b) post := by
  induction fuel generalizing a b with
  | nil =>
    refine (step a b same).bind_less (Nat.zero_le _) fun out out' alike => ?_
    cases out <;> cases out' <;> simp at alike
    · exact .of_fails (Nat.zero_le _) fun _ => ⟨_, failHere_eq⟩
    · exact .pure ⟨alike, by simp⟩
  | cons _ fuel ih =>
    refine (step a b same).bind_less (Nat.zero_le _) fun out out' alike => ?_
    cases out <;> cases out' <;> simp at alike
    · exact (ih alike).last_less (Nat.zero_le _) (by simp)
    · exact .pure ⟨alike, by simp⟩

/-- Every turn but the last reads a token, so the tokens of the first run are turns enough. -/
theorem Setting.Meets.roundsOver (step : ∀ a b, Alike S.view a b →
      Sim S bound (stage.past 0) (turn a) (turn' b) (turned stage post))
    (fuel fuel' : List Token) (a b : σ) (same : Alike S.view a b) (s t : State) (ends : EndsOnce s.tokens)
    (light : s.weight < bound) (together : S.At stage s t) (enough : s.tokens.length ≤ fuel.length)
    (enough' : s.tokens.length ≤ fuel'.length) :
    S.Meets post (Parsing.roundsOver turn fuel a s) (Parsing.roundsOver turn' fuel' b t) := by
  induction fuel generalizing fuel' a b s t with
  | nil => simp [State.tokens] at enough
  | cons _ fuel ih =>
    rcases fuel' with _ | ⟨_, fuel'⟩
    · simp [State.tokens] at enough'
    obtain ⟨later, ok⟩ := (step a b same).reads s ends trivial
    have weigh := later.weight_add
    rw [roundsOver_cons, roundsOver_cons]
    have met := (step a b same).meets s t ends light trivial together
    rcases met with alone | joint
    · rcases run : turn a s with ⟨error | a' | c, s₁⟩ <;> rw [run] at alone later
      · exact .inl alone
      · rcases alone with lost | adrift
        · exact .inl (lost.drifts ((Sim.roundsOver step fuel rfl).reads s₁ later.ends trivial).1)
        · exact .inl ((Sim.roundsOver step fuel rfl).drifts s₁ later.ends trivial adrift)
      · exact .inl alone
    · rcases run : turn a s with ⟨error | a' | c, s₁⟩ <;>
        rcases run' : turn' b t with ⟨error' | b' | c', t₁⟩ <;>
        rw [run, run'] at joint
      · exact .inr joint
      · exact joint.elim
      · exact joint.elim
      · exact joint.elim
      · obtain ⟨fewer, -⟩ := ok (.again a') (by rw [run])
        rw [run] at fewer later weigh
        have same' : Alike S.view a' b' := by simpa using joint.1
        simp only [length_cons] at fewer enough enough'
        dsimp only at weigh
        exact ih fuel' a' b' same' s₁ t₁ later.ends (by omega) joint.2 (by omega) (by omega)
      · simpa using joint.1
      · exact joint.elim
      · simpa using joint.1
      · exact .inr ⟨by simpa using joint.1, joint.2⟩

theorem Setting.Ahead.length_le (ahead : S.Ahead level tokens tokens') : tokens.length ≤ tokens'.length := by
  obtain ⟨front, _, front', onward, rfl, rfl, same, border⟩ := ahead
  have fronts : front.length = front'.length := by
    have lengths := congrArg List.length same
    simpa [move] using lengths
  have goes_on : onward ≠ [] := by
    rintro rfl
    unfold Setting.Border at border
    split at border
    · simp at border
    all_goals
      obtain ⟨_, _, rest, -⟩ := S.anew (by simp [*])
      have beyond := border.1
      simp [Setting.Beyond, rest] at beyond
  have some_over := length_pos_iff.mpr goes_on
  simp only [length_append, length_cons, length_nil]
  omega

theorem Setting.Inner.length_le (inner : S.Inner level s t) : s.tokens.length ≤ t.tokens.length :=
  inner.tokens.length_le.trans (S.length_thin_le _)

theorem Sim.rounds
    (step : ∀ a b, Alike S.view a b → Sim S bound (stage.past 0) (turn a) (turn' b) (turned stage post))
    (same : Alike S.view a b) [joint : stage.Joint] :
    Sim S bound ⟨stage, now, 0⟩ (Parsing.rounds a turn) (Parsing.rounds b turn') post where
  reads s ends _ := (Sim.roundsOver step s.tokens same).reads s ends trivial
  meets s t ends light _ together :=
    Setting.Meets.roundsOver step _ _ a b same s t ends light together (Nat.le_refl _) together.inner.length_le
  drifts s ends _ := (Sim.roundsOver step s.tokens same).drifts s ends trivial
  valid s ends _ valid := .bind (.note valid rfl rfl) fun _ start => by
    cases start
    exact (Sim.roundsOver step s.tokens same).valid s ends trivial valid

end Rounds

end DreamMaker.Parsing
