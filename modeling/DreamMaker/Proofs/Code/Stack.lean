import DreamMaker.Proofs.Code.Flow
import DreamMaker.Proofs.Emission.Proc

namespace DreamMaker

variable {labels : List Label}

namespace Op

/-- The change of the height of the stack, where an operation goes on at its label or with the next one. A case
that is taken drops the value of its switch. -/
def effect (jumps : Bool) : Op → Int
  | .push _ => 1
  | .pop | .jumpIfFalse _ | .return_ | .throw | .delete | .spawn _ => -1
  | .createEnumerator kind => -kind.arity
  | .output | .link => -2
  | .transfer _ => -3
  | .switchCase _ => if jumps then -2 else -1
  | .switchCaseRange _ => if jumps then -3 else -2
  | _ => 0

/-- The number of values that an operation needs on the stack. -/
def needs : Op → Nat
  | .assign _ | .isNull => 1
  | op => (-op.effect true).toNat

end Op

theorem Op.needs_effect (op : Op) : 0 ≤ op.needs + op.effect false := by
  cases op <;> simp only [needs, effect, if_true] <;> omega

/-- The height of the stack behind an operation. It is zero where a label is placed, and after a jump. -/
def stackStep (depth : Nat) (op : Op) : Option Nat :=
  if op.needs ≤ depth ∧ (op.placed?.isSome = true → depth = 0) ∧
      (op.target?.isSome = true → depth + op.effect true = 0) then
    some (depth + op.effect false).toNat
  else none

theorem scan_pushes (depth : Nat) (values : List (Term × Span)) :
    scan stackStep depth (pushes values) = some (depth + values.length) := by
  induction values generalizing depth with
  | nil => rfl
  | cons _ _ ih =>
    refine (ih (depth + 1)).trans ?_
    rw [List.length_cons, Nat.add_assoc, Nat.add_comm 1]

theorem stackStep_consumes (consumes : op.consumes? = some count) : stackStep count op = some 0 := by
  cases op <;> cases consumes <;> rfl

theorem stackStep_createEnumerator : stackStep kind.arity (.createEnumerator kind) = some 0 := by
  cases kind <;> rfl

/-- Code that leaves the stack empty if it finds it empty. -/
def Level (code : Listing) : Prop := scan stackStep 0 code = some 0

theorem Level.append (one : Level first) (two : Level second) : Level (first ++ second) := by
  rw [Level, scan_append, one]
  exact two

theorem Level.cons (step : stackStep 0 op = some 0) (others : Level rest) : Level ((op, span) :: rest) := by
  rw [Level, scan_cons, step]
  exact others

/-- A value is pushed and taken. -/
theorem Level.pair (step : stackStep 1 op = some 0)
    (others : Level rest) : Level ((.push value, a) :: (op, b) :: rest) := by
  have pushed : stackStep 0 (.push value) = some 1 := rfl
  rw [Level, scan_cons, pushed, Option.bind_some, scan_cons, step]
  exact others

theorem Level.scope (level : Level body) : Level ((.enterScope, a) :: (body ++ [(.exitScope, b)])) :=
  .cons rfl (level.append rfl)

theorem Level.enumerator (arity : kind.arity = values.length) (others : Level rest) :
    Level (pushes values ++ (.createEnumerator kind, a) :: rest) := by
  rw [Level, scan_append, scan_pushes, Nat.zero_add, ← arity, Option.bind_some, scan_cons,
    stackStep_createEnumerator]
  exact others

theorem Line.level (line : Line code) : Level code := by
  cases line with
  | operate _ arity => simp [Level, scan_pushes, stackStep_consumes arity]
  | store => rfl
  | input => rfl

theorem Check.level (check : Check target code) : Level code := by
  cases check <;> rfl

theorem Fork.level (fork : Fork count other stop head link) : Level head ∧ Level link := by
  cases fork <;> exact ⟨rfl, rfl⟩

theorem Pause.level (pause : Pause code) : Level code := by
  cases pause <;> rfl

theorem LoopForm.level (form : LoopForm start next stop piece head tail certain) : Level head ∧ Level tail := by
  cases form with
  | doOnce => exact ⟨rfl, rfl⟩
  | endless pause | while_ pause | each pause => exact ⟨rfl, pause.level.append rfl⟩
  | doWhile pause => exact ⟨rfl, .cons rfl (.pair rfl (pause.level.append rfl))⟩
  | forever step pause | for_ step pause => exact ⟨rfl, .cons rfl ((step.level.append pause.level).append rfl)⟩

theorem CaseTests.stack (form : CaseTests target tests) : scan stackStep 1 tests = some 1 := by
  induction form with
  | done => rfl
  | single _ ih => exact ih
  | range _ ih => exact ih

theorem SwitchTests.stack (form : SwitchTests count labels tests) : scan stackStep 1 tests = some 1 := by
  induction form with
  | done => rfl
  | next first _ ih => rw [scan_append, first.stack, Option.bind_some, ih]

/-- The value of a switch stays on the stack while it is tested. -/
theorem SwitchTests.level (form : SwitchTests count labels tests) (others : Level rest) :
    Level ((.push value, a) :: (tests ++ (.pop, b) :: rest)) := by
  have pushed : stackStep 0 (.push value) = some 1 := rfl
  have popped : stackStep 1 .pop = some 0 := rfl
  rw [Level, scan_cons, pushed, Option.bind_some, scan_append, form.stack]
  exact others

/-- Code whose statements do not fail leaves the stack empty, whatever it is the code of. -/
theorem Lowers.level (unfailing : ¬ mode.failing) (lowers : Lowers mode piece m code t m') : Level code := by
  induction lowers with
  | nothing | noRounds | noCases => rfl
  | line line => exact line.level
  | halted _ failing => exact absurd failing unfailing
  | leave | breakLoop | breakLabel | continueLoop | continueLabel | goto | label => rfl
  | labelBlock _ _ ih => exact .cons rfl (ih.append rfl)
  | append _ _ _ first second => exact first.append second
  | scope _ ih => exact ih.scope
  | skip check _ ih => exact (check.level.append ih).append rfl
  | fork fork _ _ first second =>
    exact (((fork.level.1.append first).append fork.level.2).append second).append rfl
  | loop form _ ih => exact .cons rfl (((form.level.1.append ih.scope).append form.level.2).append rfl)
  | enumerator _ arity _ ih => exact .enumerator arity (.cons rfl (ih.append rfl))
  | switch tests _ _ default bodies => exact tests.level (default.append (.cons rfl (bodies.append rfl)))
  | case _ _ first rest => exact .cons rfl (first.append (.cons rfl rest))
  | spawn _ ih => exact .pair rfl (ih.append rfl)
  | forget _ ih => exact ih

/-- Stack depths that agree with every way control can go. -/
structure Balanced (code : Listing) (depth : Nat → Nat) : Prop where
  first : depth 0 = 0
  last : depth code.length = 0
  /-- No operation takes more values than there are. -/
  needs : ∀ i op span, code[i]? = some (op, span) → op.needs ≤ depth i
  placed : ∀ i op span, code[i]? = some (op, span) → op.placed?.isSome = true → depth i = 0
  next : ∀ i op span, code[i]? = some (op, span) → op.fallsThrough = true →
    (depth (i + 1) : Int) = depth i + op.effect false
  jump : ∀ i j source target label a b, code[i]? = some (source, a) → source.target? = some label →
    code[j]? = some (target, b) → target.placed? = some label → (depth j : Int) = depth i + source.effect true

theorem Level.balanced (level : Level code) : ∃ depth, Balanced code depth := by
  obtain ⟨depth, first, last, steps⟩ := exists_states level
  have checked (i : Nat) (op : Op) (span : Span) (found : code[i]? = some (op, span)) :
      (op.needs ≤ depth i ∧ (op.placed?.isSome = true → depth i = 0) ∧
        (op.target?.isSome = true → depth i + op.effect true = 0)) ∧
      (depth i + op.effect false).toNat = depth (i + 1) := by
    have stepped := steps i op span found
    unfold stackStep at stepped
    split at stepped
    · rename_i holds
      exact ⟨holds, Option.some.inj stepped⟩
    · cases stepped
  refine ⟨depth, first, last, fun i op span found => (checked i op span found).1.1,
    fun i op span found => (checked i op span found).1.2.1, ?_, ?_⟩
  · intro i op span found _
    obtain ⟨⟨_, _, _⟩, _⟩ := checked i op span found
    have bound := op.needs_effect
    omega
  · intro i j source target _ a b found jumps landed places
    have empty := (checked j target b landed).1.2.1 (by rw [places]; rfl)
    have left := (checked i source a found).1.2.2 (by rw [jumps]; rfl)
    omega

/-- The code of a proc keeps the stack in order, unless a statement fails, and not for a missing label. -/
theorem ProcDefinition.compile_balanced (definition : ProcDefinition) (tree : TypeTree)
    (resolved : ∀ error : SemanticError, error.toReport ∈ (definition.compile tree).2.2 →
      ∃ name, error.cause = .unknownLabel name) : ∃ depth,
        Balanced (definition.compile tree).1.ops.toList depth := by
  let mode : Mode := { failing := False, jumping := True, loose := True }
  have admitted : ∀ action ∈ definition.actions, mode.Admits action :=
    fun _ _ => ⟨fun _ => trivial, fun _ _ => .inl trivial⟩
  obtain ⟨_, lowers, _⟩ := ProcDefinition.compile_lowers admitted fun error member =>
    .inl (resolved error member)
  exact (lowers.level not_false).balanced

/-- `for (. in .) switch (.) { if (null) . << .; else break }` -/
def ProcDefinition.switchInLoop : ProcDefinition :=
  let dot := .mk .result .unknown
  .ofActions "switch" [.forIn dot none dot (.ofActions [.switch dot
    [.mk (some [.single (.mk (.literal .null) .unknown)]) (.ofActions [.output dot dot]) .unknown,
      .mk none (.ofActions [.break_ none]) .unknown]])]

theorem ProcDefinition.switchInLoop_balanced :
    (∀ error : SemanticError, error.toReport ∈ (switchInLoop.compile default).2.2 →
      ∃ name, error.cause = .unknownLabel name) ∧
      ∃ depth, Balanced (switchInLoop.compile default).1.ops.toList depth := by
  have silent : (switchInLoop.compile default).2.2 = #[] := Array.eq_empty_of_size_eq_zero (by decide +kernel)
  have resolved : ∀ error : SemanticError, error.toReport ∈ (switchInLoop.compile default).2.2 →
      ∃ name, error.cause = .unknownLabel name := by
    intro error member
    rw [silent] at member
    cases Array.not_mem_empty _ member
  exact ⟨resolved, compile_balanced switchInLoop default resolved⟩

end DreamMaker
