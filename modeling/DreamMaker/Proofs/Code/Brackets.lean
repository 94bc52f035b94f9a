import DreamMaker.Proofs.Emission.Proc

namespace DreamMaker

open List

variable {count : Nat} {inner : Listing} {next : Label}

namespace Op

/-- Operations that enclose code, and the number of marks at which a loop goes on right between them. -/
inductive Brackets : Op → Op → Nat → Prop
  | scope : Brackets .enterScope .exitScope 0
  | loop {start stop} : Brackets (.loopStart start) (.loopEnd stop) 1
  | enumerator {kind} : Brackets (.createEnumerator kind) .destroyEnumerator 0
  | handler {label binder?} : Brackets (.tryStart label binder?) .tryEnd 0

/-- Whether an operation has nothing to do with the structure of the code around it. -/
def isLoose : Op → Bool
  | .enterScope | .exitScope | .loopStart _ | .loopContinue _ | .loopEnd _ | .createEnumerator _
  | .destroyEnumerator | .tryStart _ _ | .tryEnd => false
  | _ => true

end Op

/-- Code in which all pairs are closed in turn, and the number of marks in no pair at which a loop goes on. -/
inductive Bracketed : Nat → Listing → Prop
  | nil : Bracketed 0 []
  | loose {n op span rest} : op.isLoose = true → Bracketed n rest → Bracketed n ((op, span) :: rest)
  | goesOn {n label span rest} : Bracketed n rest → Bracketed (n + 1) ((.loopContinue label, span) :: rest)
  | pair {n k first last a b inner rest} : Op.Brackets first last k → Bracketed k inner → Bracketed n rest →
      Bracketed n ((first, a) :: (inner ++ (last, b) :: rest))

namespace Bracketed

theorem append (one : Bracketed m first) (two : Bracketed n second) : Bracketed (m + n) (first ++ second) := by
  induction one with
  | nil => rwa [Nat.zero_add]
  | loose free _ ih => exact .loose free ih
  | goesOn _ ih =>
    rw [Nat.add_right_comm]
    exact .goesOn ih
  | pair brackets inner _ _ ih =>
    rw [cons_append, append_assoc]
    exact .pair brackets inner ih

theorem single {span : Span} (free : op.isLoose = true) : Bracketed 0 [(op, span)] :=
  .loose free .nil

theorem wrap {first : Op} (brackets : Op.Brackets first last k)
    (inside : Bracketed k inner) : Bracketed 0 ((first, a) :: (inner ++ [(last, b)])) :=
  .pair brackets inside .nil

theorem pushes (values : List (Term × Span)) : Bracketed 0 (pushes values) := by
  induction values with
  | nil => exact .nil
  | cons _ _ ih => exact .loose rfl ih

end Bracketed

theorem Op.isLoose_of_consumes {op : Op} (consumes : op.consumes? = some count) : op.isLoose = true := by
  cases op <;> cases consumes <;> rfl

theorem Line.bracketed (line : Line code) : Bracketed 0 code := by
  cases line with
  | operate values arity => exact (Bracketed.pushes values).append (.single (Op.isLoose_of_consumes arity))
  | store => exact .loose rfl (.loose rfl (.single rfl))
  | input => exact .single rfl

theorem Check.bracketed (check : Check target code) : Bracketed 0 code := by
  cases check with
  | value => exact .loose rfl (.single rfl)
  | null => exact .loose rfl (.loose rfl (.single rfl))

theorem Pause.bracketed (pause : Pause code) : Bracketed 0 code := by
  cases pause with
  | none => exact .nil
  | value => exact .loose rfl (.single rfl)

theorem Pause.bracketed_back (form : Pause pause) (start : Label) (span : Span) :
    Bracketed 0 (pause ++ [(.jump start, span)]) :=
  form.bracketed.append (.single rfl)

theorem Fork.bracketed {head : Listing}
    (fork : Fork count other stop head link) (inside : Bracketed 0 first) (others : Bracketed 0 rest) :
    Bracketed 0 (head ++ first ++ link ++ rest) := by
  rw [append_assoc]
  cases fork with
  | condition => exact .loose rfl (.loose rfl (inside.append (.loose rfl (.loose rfl others))))
  | handler => exact .pair .handler inside (.loose rfl (.loose rfl others))

theorem CaseTests.bracketed (form : CaseTests target tests) : Bracketed 0 tests := by
  induction form with
  | done => exact .nil
  | single _ ih => exact .loose rfl (.loose rfl ih)
  | range _ ih => exact .loose rfl (.loose rfl (.loose rfl ih))

theorem SwitchTests.bracketed (form : SwitchTests count targets tests) : Bracketed 0 tests := by
  induction form with
  | done => exact .nil
  | next first _ ih => exact first.bracketed.append ih

/-- A loop goes on at one place, before its body or behind it, also if its condition fails. -/
theorem LoopForm.bracketed {head tail : Listing}
    (form : LoopForm start next stop piece head tail certain) (inside : Bracketed 0 body) :
    Bracketed 1 (head ++ body ++ tail) := by
  cases form with
  | endless pause => exact .goesOn (inside.append (pause.bracketed_back ..))
  | while_ pause => exact .goesOn (.loose rfl (.loose rfl (inside.append (pause.bracketed_back ..))))
  | doWhile pause => exact inside.append (.goesOn (.loose rfl (.loose rfl (pause.bracketed_back ..))))
  | doOnce => exact inside.append (.goesOn .nil)
  | @forever step pause _ _ form₁ form₂ =>
    rw [append_assoc step]
    exact inside.append (.goesOn (form₁.bracketed.append (form₂.bracketed_back ..)))
  | @for_ _ step pause _ _ _ d form₁ form₂ =>
    rw [append_assoc step]
    have behind := form₁.bracketed.append (form₂.bracketed_back start d)
    exact .loose rfl (.loose rfl (inside.append (.goesOn behind)))
  | each pause => exact .goesOn (.loose rfl (inside.append (pause.bracketed_back ..)))

/-- Whatever is compiled, and wherever a statement fails, what has been opened is closed. -/
theorem Lowers.bracketed
    (lowers : Lowers mode piece m code t m') : Bracketed 0 code := by
  induction lowers with
  | nothing | noRounds | noCases => exact .nil
  | line line => exact line.bracketed
  | halted values => exact .pushes values
  | leave => exact .loose rfl (.single rfl)
  | breakLoop | breakLabel | continueLoop | continueLabel | goto | label => exact .single rfl
  | labelBlock _ _ ih => exact .loose rfl (ih.append (.single rfl))
  | append _ _ _ first second => exact first.append second
  | scope _ ih => exact .wrap .scope ih
  | skip check _ ih => exact (check.bracketed.append ih).append (.single rfl)
  | fork fork _ _ first second =>
    rw [append_assoc]
    exact fork.bracketed first (second.append (.single rfl))
  | loop form _ ih => exact .wrap .loop (form.bracketed (.wrap .scope ih))
  | @enumerator _ _ kind body _ a b c d values _ _ ih =>
    have rounds : Bracketed 0 ((.enterScope, b) :: (body ++ [(.exitScope, c)])) := .wrap .scope ih
    have whole : Bracketed 0 ((.createEnumerator kind, a) ::
        ((.enterScope, b) :: (body ++ [(.exitScope, c)]) ++ [(.destroyEnumerator, d)])) := .wrap .enumerator rounds
    rw [cons_append, append_assoc] at whole
    exact (Bracketed.pushes values).append whole
  | switch tests _ _ default bodies =>
    refine .loose rfl (tests.bracketed.append (.loose rfl (default.append (n := 0) ?_)))
    exact .loose rfl (bodies.append (.single rfl))
  | case _ _ first rest => exact .loose rfl (first.append (.loose rfl rest))
  | spawn _ ih => exact .loose rfl (.loose rfl (ih.append (.loose rfl (.loose rfl (.single rfl)))))
  | forget _ ih => exact ih

/-- The code of every proc is closed in itself, also where statements fail, and a loop has one place where it goes
on. -/
theorem ProcDefinition.compile_bracketed (definition : ProcDefinition) (tree : TypeTree) :
    Bracketed 0 (definition.compile tree).1.ops.toList := by
  obtain ⟨_, lowers, _⟩ := ProcDefinition.compile_lowers (fun _ _ => Mode.any_admits) tolerates_any
  exact lowers.bracketed

end DreamMaker
