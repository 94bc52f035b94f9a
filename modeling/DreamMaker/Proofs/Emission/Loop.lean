import DreamMaker.Proofs.Emission.Basic

namespace DreamMaker.Assembly

variable {body : Part} {span : Span} {s : Assembly}

theorem loopBody_eq (labels : LoopLabels) (body : Part) (s : Assembly) :
    loopBody labels body s =
      let after := body.code (s.withMarks (s.marks.openLoop labels.next labels.stop))
      ((after.1, after.2.marks.isEscaped), after.2.withMarks after.2.marks.closeLoop) := by
  show (closeLoop >>= fun escaped => pure (_, escaped) : Assemble (Termination × Bool)) _ = _
  rw [Run.state_bind, closeLoop_eq]
  rfl

/-- What a loop of a background proc does before it starts over. -/
def pause (s : Assembly) (span : Span) : Listing :=
  if s.attributes.isBackground then [(.push (sleepCall span), span), (.pop, span)] else []

theorem pause_pauses : Pause (s.pause span) := by
  unfold pause
  split
  · exact .value
  · exact .none

theorem jumpBack_eq : jumpBack start span s = ((), s.writes (s.pause span ++ [(.jump start, span)])) := by
  show (if s.attributes.isBackground then _ else _ : Assemble Unit) s = _
  unfold pause
  split <;> rfl

/-- The state in which a loop has been started. -/
def startLoop (s : Assembly) (head : Listing) (span : Span) : Assembly :=
  (s.withMarks (s.marks.fresh 3)).writes ((.loopStart ⟨s.marks.count⟩, span) :: head)

/-- The state in which the body of a loop is compiled. -/
def inLoop (s : Assembly) (head : Listing) (span : Span) : Assembly :=
  (s.startLoop head span).withMarks
    ((s.startLoop head span).marks.openLoop ⟨s.marks.count + 1⟩ ⟨s.marks.count + 2⟩)

theorem inLoop_ops (s : Assembly) (head : Listing) :
    (s.inLoop head span).ops.toList = s.ops.toList ++ (.loopStart ⟨s.marks.count⟩, span) :: head :=
  writes_ops _ _

theorem inLoop_marks (s : Assembly) (head : Listing) :
    (s.inLoop head span).marks = (s.marks.fresh 3).openLoop ⟨s.marks.count + 1⟩ ⟨s.marks.count + 2⟩ := by
  show (s.startLoop head span).marks.openLoop _ _ = _
  rw [startLoop, writes_marks]
  rfl

theorem inLoop_keeps : Keeps s (s.inLoop head span) :=
  writes_keeps (s.withMarks (s.marks.fresh 3))

theorem Encloses.loop
    (form : LoopForm ⟨s.marks.count⟩ ⟨s.marks.count + 1⟩ ⟨s.marks.count + 2⟩ piece head tail certain)
    (encloses : Encloses mode x) (tolerated : Tolerates mode.failing (x (s.inLoop head a)).2.reports)
    (ops : s'.ops.toList = (x (s.inLoop head a)).2.ops.toList ++ (tail ++ [(.loopEnd ⟨s.marks.count + 2⟩, b)]))
    (marks : s'.marks = (x (s.inLoop head a)).2.marks.closeLoop) :
      Emits mode piece s ((x (s.inLoop head a)).1.leaveLoop
      (certain && !(x (s.inLoop head a)).2.marks.isEscaped)) s' := by
  obtain ⟨code, c, d, inside, lowers⟩ := encloses.emits (s.inLoop head a) tolerated
  rw [inLoop_marks] at lowers
  refine ⟨(.loopStart ⟨s.marks.count⟩, a) :: (head ++ ((.enterScope, c) :: (code ++ [(.exitScope, d)])) ++
    tail ++ [(.loopEnd ⟨s.marks.count + 2⟩, b)]), ?_, ?_⟩
  · rw [ops, inside, inLoop_ops]
    simp
  · rw [marks]
    exact .loop form lowers

/-- A loop whose code before and behind its body is known. -/
def loopCode (head : Nat → Listing) (rest : Nat → Assemble Unit) (certain : Bool) (body : Part) (span : Span) :
    Assemble Termination := fun s =>
  (do
    let (termination, escaped) ←
      loopBody { start := ⟨s.marks.count⟩, next := ⟨s.marks.count + 1⟩, stop := ⟨s.marks.count + 2⟩ } body
    rest s.marks.count
    emit (.loopEnd ⟨s.marks.count + 2⟩) span
    return termination.leaveLoop (certain && !escaped) : Assemble Termination) (s.startLoop (head s.marks.count) span)

theorem loopCode_eq {head : Nat → Listing} {tail : Nat → Assembly → Listing}
    (last : ∀ count s, rest count s = ((), s.writes (tail count s))) :
    loopCode head rest certain body span s = let after :=body.code (s.inLoop (head s.marks.count) span)
      let closed := after.2.withMarks after.2.marks.closeLoop
      (after.1.leaveLoop (certain && !after.2.marks.isEscaped),
        closed.writes (tail s.marks.count closed ++ [(.loopEnd ⟨s.marks.count + 2⟩, span)])) := by
  let after := body.code (s.inLoop (head s.marks.count) span)
  let closed := after.2.withMarks after.2.marks.closeLoop
  rw [loopCode, Run.state_bind, loopBody_eq]
  show (rest s.marks.count >>= _ : Assemble Termination) closed = _
  rw [Run.state_bind, last]
  show (_, (closed.writes (tail s.marks.count closed)).writes [(.loopEnd ⟨s.marks.count + 2⟩, span)]) = _
  rw [← writes_append]
  rfl

/-- Compiles a body to a loop of one of the forms. -/
def Loops (piece : Piece) (loop : Part → Assemble Termination) (span : Span) : Prop :=
  ∃ (head : Nat → Listing) (tail : Nat → Assembly → Listing) (rest : Nat → Assemble Unit) (certain : Bool),
    (∀ count s, LoopForm ⟨count⟩ ⟨count + 1⟩ ⟨count + 2⟩ piece (head count) (tail count s) certain) ∧
      (∀ count s, rest count s = ((), s.writes (tail count s))) ∧
      ∀ body, loop body = loopCode head rest certain body span

theorem Loops.compiles
    (loops : Loops piece loop span) (encloses : Encloses mode body.code) : Compiles mode piece (loop body) := by
  obtain ⟨head, tail, _, _, form, last, same⟩ := loops
  let after (s : Assembly) : Termination × Assembly := body.code (s.inLoop (head s.marks.count) span)
  let closed (s : Assembly) : Assembly := (after s).2.withMarks (after s).2.marks.closeLoop
  let behind (s : Assembly) : Listing :=
    tail s.marks.count (closed s) ++ [(.loopEnd ⟨s.marks.count + 2⟩, span)]
  have ended (s : Assembly) : Keeps (after s).2 ((closed s).writes (behind s)) := writes_keeps (closed s)
  rw [same]
  refine ⟨fun s => ?_, fun s tolerated => ?_⟩
  · rw [loopCode_eq last]
    exact inLoop_keeps.trans ((encloses.keeps _).trans (ended s))
  · rw [loopCode_eq last] at tolerated ⊢
    exact encloses.loop (form _ _) ((ended s).tolerates tolerated) (writes_ops _ _) (writes_marks _ _)

/-- The loop of `endless`, without the scope around it. -/
def endlessLoop (span : Span) (body : Part) : Assemble Termination :=
  loopCode (fun count => [(.loopContinue ⟨count + 1⟩, span)])
    (fun count => jumpBack ⟨count⟩ span) true body span

theorem endlessLoop_loops : Loops .statements (endlessLoop span) span :=
  ⟨_, _, _, _, fun _ _ => .endless pause_pauses, fun _ _ => jumpBack_eq, fun _ => rfl⟩

/-- The loop of `whileLoop`, if its condition is not constant. -/
def testedLoop (value : Term) (span : Span) (body : Part) : Assemble Termination :=
  loopCode (fun count =>
      [(.loopContinue ⟨count + 1⟩, span), (.push value, value.span), (.jumpIfFalse ⟨count + 2⟩, value.span)])
    (fun count => jumpBack ⟨count⟩ span) false body span

theorem testedLoop_loops : Loops .statements (testedLoop value span) span :=
  ⟨_, _, _, _, fun _ _ => .while_ pause_pauses, fun _ _ => jumpBack_eq, fun _ => rfl⟩

/-- The state in which the condition behind the body of a loop is bound. -/
def behindBody (s : Assembly) (body : Part) (span : Span) : Assembly :=
  let after := (body.code (s.inLoop [] span)).2
  (after.withMarks after.marks.closeLoop).writes [(.loopContinue ⟨s.marks.count + 1⟩, span)]

theorem doWhileLoop_eq : doWhileLoop body condition span s = match resolve condition none
    (s.behindBody body span) with
      | (.error error, s') => (.error error, s'.writes [(.loopEnd ⟨s.marks.count + 2⟩, span)]) | (.ok value, s') =>
        let after := body.code (s.inLoop [] span)
        (.ok (after.1.leaveLoop (!after.2.marks.isEscaped)), s'.writes
          ([(.push value, value.span), (.jumpIfFalse ⟨s.marks.count + 2⟩, value.span)] ++
            (s'.pause span ++ [(.jump ⟨s.marks.count⟩, span)] ++ [(.loopEnd ⟨s.marks.count + 2⟩, span)]))) := by
  rw [doWhileLoop, Run.lift_bind, Run.lift_bind, Run.lift_bind, loopBody_eq]
  show ((tryCatch (resolve condition none) _ : Attempt Term) >>= _ : Attempt Termination) (s.behindBody body span) = _
  rw [Run.bind_eq, Run.tryCatch_eq]
  rcases resolve condition none (s.behindBody body span) with ⟨error | value, s'⟩
  · rfl
  dsimp only
  rw [Run.lift_bind, Run.lift_bind, Run.lift_bind, jumpBack_eq]
  simp only [writes_append]
  rfl

theorem doWhileLoop_tries (encloses : Encloses mode body.code) :
    Tries mode .statements (doWhileLoop body condition span) := by
  let after (s : Assembly) : Assembly := (body.code (s.inLoop [] span)).2
  have began (s : Assembly) : Keeps s (after s) := inLoop_keeps.trans (encloses.keeps _)
  have passed (s : Assembly) : Keeps (after s) (s.behindBody body span) := .refl _
  have closed (s : Assembly) : (s.behindBody body span).marks = (after s).marks.closeLoop := rfl
  have emitted (s : Assembly) : (s.behindBody body span).ops.toList =
      (after s).ops.toList ++ [(.loopContinue ⟨s.marks.count + 1⟩, span)] := writes_ops _ _
  refine ⟨fun s => ?_, fun s tolerated _ => ?_⟩
  all_goals have quiet := (resolve_silent condition none).quiet (s.behindBody body span)
  · rw [doWhileLoop_eq]
    rcases run : resolve condition none (s.behindBody body span) with ⟨error | value, s'⟩ <;> rw [run] at quiet
    · exact (began s).trans ((passed s).trans (quiet.keeps.trans (writes_keeps _)))
    · exact (began s).trans ((passed s).trans (quiet.keeps.trans (writes_keeps _)))
  · rw [doWhileLoop_eq] at tolerated ⊢
    rcases run : resolve condition none (s.behindBody body span) with ⟨error | value, s'⟩ <;>
      rw [run] at quiet tolerated
    · have before := ((passed s).trans (quiet.keeps.trans (writes_keeps _))).tolerates tolerated
      obtain ⟨code, ops, lowers⟩ := encloses.loop .doOnce before
        (by rw [writes_ops, quiet.ops, emitted, List.append_assoc])
        (by rw [writes_marks, quiet.marks, closed])
      exact ⟨code, ops, .forget lowers⟩
    · have before := ((passed s).trans (quiet.keeps.trans (writes_keeps _))).tolerates tolerated
      have form : LoopForm ⟨s.marks.count⟩ ⟨s.marks.count + 1⟩ ⟨s.marks.count + 2⟩ .statements []
          ((.loopContinue ⟨s.marks.count + 1⟩, span) :: (.push value, value.span) ::
            (.jumpIfFalse ⟨s.marks.count + 2⟩, value.span) ::
              (s'.pause span ++ [(.jump ⟨s.marks.count⟩, span)]))
          true := .doWhile pause_pauses
      exact encloses.loop form before (by rw [writes_ops, quiet.ops, emitted, List.append_assoc]; rfl)
        (by rw [writes_marks, quiet.marks, closed])

theorem loopInit_simple : Simple (loopInit start) := by
  unfold loopInit
  split
  · exact .silent_bind (loopVar_silent start) fun var => .writes .store fun _ => rfl
  · exact .silent_bind (resolve_silent _ _) fun value => .silent_bind (loopVar_silent _) fun var =>
      .writes .store fun _ => rfl
  · rw [push, bind_assoc]
    exact .silent_bind (resolve_silent start none) fun value =>
      .writes (.operate [(value, start.span)] rfl) fun _ => rfl

theorem rounds_loops : Loops .statements (fun body => rounds condition? next? body span) span := by
  let step : Listing := next?.elim [] fun next => [(.push next, next.span), (.pop, next.span)]
  have steps : Pause step := by
    cases next? with
    | none => exact .none
    | some next => exact .value
  let rest (count : Nat) : Assemble Unit := do
    emit (.loopContinue ⟨count + 1⟩) span
    next?.elim (pure ()) fun next => do
      emit (.push next) next.span
      emit .pop next.span
    jumpBack ⟨count⟩ span
  have last (count : Nat) (s : Assembly) : rest count s = ((), s.writes
      ((.loopContinue ⟨count + 1⟩, span) :: (step ++ s.pause span ++ [(.jump ⟨count⟩, span)]))) := by
    cases next? with
    | none => exact jumpBack_eq
    | some next => exact jumpBack_eq
  cases condition? with
  | none =>
    have same (body : Part) : rounds none next? body span = loopCode (fun _ => []) rest true body span := by
      cases next? <;> rfl
    exact ⟨_, _, rest, true, fun _ s => .forever steps pause_pauses, last, same⟩
  | some condition =>
    let head (count : Nat) : Listing :=
      [(.push condition, condition.span), (.jumpIfFalse ⟨count + 2⟩, condition.span)]
    have same (body : Part) : rounds (some condition) next? body span = loopCode head rest false body span := by
      cases next? <;> rfl
    exact ⟨head, _, rest, false, fun _ s => .for_ steps pause_pauses, last, same⟩

theorem enumerate_loops : Loops .rounds (fun body => enumerate target body span) span :=
  ⟨fun count => [(.loopContinue ⟨count + 1⟩, span), (.enumerate target ⟨count + 2⟩, span)], _,
    fun count => jumpBack ⟨count⟩ span, false, fun _ _ => .each pause_pauses, fun _ _ => jumpBack_eq,
    fun _ => rfl⟩

variable (encloses : Encloses mode body.code)

include encloses

/-! Loops over an enumerator. -/

theorem loopVar_bind_tries :
    Tries mode .rounds (do enumerate (← loopVar binder) body span) := by
  have each (target : Term) : Compiles mode .rounds (enumerate target body span) :=
    (enumerate_loops).compiles encloses
  refine ⟨Run.bind_rel Keeps.trans (loopVar_silent binder).simple.keeps fun target => (each target).keeps,
    fun s tolerated _ => ?_⟩
  have quiet := (loopVar_silent binder).quiet s
  rw [Run.bind_eq] at tolerated ⊢
  rcases run : loopVar binder s with ⟨error | target, s'⟩ <;> rw [run] at quiet tolerated
  · refine ⟨[], (congrArg Array.toList quiet.ops).trans (List.append_nil _).symm, ?_⟩
    rw [quiet.marks]
    exact .noRounds
  · exact quiet.emits ((each target).emits s' tolerated)

theorem enumeratorLoop_follows (binder : Expr)
    (kind : Enumerator) : Follows mode kind.arity (do
      emit (.createEnumerator kind) span
      enumeratorLoop binder body span) := by
  let begun (s : Assembly) : Assembly := s.writes [(.createEnumerator kind, span)]
  let rounds : Attempt Termination := do enumerate (← loopVar binder) body span
  have tries : Tries mode .rounds rounds := loopVar_bind_tries encloses
  refine ⟨fun s => tries.keeps ((begun s).inside span), fun s values counted tolerated excused => ?_⟩
  obtain ⟨code, ops, lowers⟩ := tries.emits ((begun s).inside span) tolerated excused
  refine ⟨(.createEnumerator kind, span) :: (.enterScope, span) ::
    (code ++ [(.exitScope, span), (.destroyEnumerator, span)]), ?_, ?_⟩
  · show ((inScope span rounds.run (begun s)).2.writes [(.destroyEnumerator, span)]).ops.toList = _
    rw [writes_ops, inScope_ops (x := rounds.run) ops]
    simp [begun]
  · exact Lowers.enumerator values counted.symm lowers

end DreamMaker.Assembly
