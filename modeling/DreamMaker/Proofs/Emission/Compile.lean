import DreamMaker.Proofs.Emission.Switch
import DreamMaker.Proofs.Emission.Traversal

namespace DreamMaker

open Statement

/-- Whether a statement may stand in a proc that is compiled in this mode. -/
def Mode.Admits (mode : Mode) (action : Action) : Prop :=
  (action.jumpsByName = true → mode.jumping) ∧
    ∀ inner, action = .group inner → mode.loose ∨ ∀ part ∈ allActions inner, part.isSimple = true

namespace Assembly

variable {mode : Mode} {span : Span}

/-! Simple statements. -/

theorem declareVar_simple : Simple (declareVar var) := by
  unfold declareVar
  split
  · exact SilentAttempt.simple ⟨fun s => ⟨rfl, rfl, .refl s⟩, fun _ _ failed => nomatch failed⟩
  refine .silent_bind resolveOption_silent fun value? => ?_
  split
  · have declares : SilentAttempt (do
        if (← declare? var.name var.type? value?).isNone then duplicateVar var.name var.span : Attempt Unit) := by
      refine .bind (.lift (declare?_silent _ _ _)) fun declared? => ?_
      split
      · exact .lift (report_silent _)
      · exact .pure ()
    split
    · exact declares.simple
    · exact .silent_bind (.fail nofun) fun _ => declares.simple
  · refine .silent_bind (.lift (declare?_silent _ _ _)) fun declared? => ?_
    cases declared? with
    | none => exact (SilentAttempt.lift (report_silent _)).simple
    | some _ => exact .writes .store fun _ => rfl

theorem operate_tries (arity : op.consumes? = some operands.length) :
    Tries mode .statements (operate operands op span) := by
  refine .pushing_bind forM_push_pushing ⟨Keeps.refl, fun s values counted _ _ => ?_⟩
  exact ⟨[(op, span)], writes_ops s [(op, span)], .line (.operate values (counted ▸ arity))⟩

theorem readInto_tries : Tries mode .statements (readInto source target span) := by
  refine .silent_bind (resolve_silent source none) fun from_ => ?_
  refine .silent_bind (resolve_silent target none) fun into => ?_
  have reads : Tries mode .statements (do
      emit (.input from_ into) span
      return .none) :=
    .simple_bind (.writes .input fun _ => rfl) fun _ => .pure_none
  exact .unless nofun (.unless nofun reads)

theorem returnValue_tries : Tries mode .statements (returnValue value? span) := by
  have follows : Follows mode 1 (do
      emit .return_ span
      return .procReturn) := by
    refine ⟨Keeps.refl, fun s _ one _ _ => ?_⟩
    obtain ⟨value, rfl⟩ := List.length_eq_one_iff.1 one
    exact ⟨[(.return_, span)], writes_ops s [(.return_, span)], .leave⟩
  cases value? with
  | none => exact .pushing_bind (.value _ _) follows
  | some value => exact .pushing_bind push_pushing follows

/-! Blocks. -/

/-- Compiles statements in turn. What follows one that never goes on is left out, if at all. -/
def chain (stops : Bool) (known : Termination) : List Part → Assemble Termination
  | [] => return known
  | part :: rest => do
    if stops && known.isUnconditional then
      report ((Report.located .unreachableCode part.span "Unreachable code detected").about .unreachable)
      return known
    else chain stops (known.union (← part.code)) rest

theorem sequence_eq (known : Termination) (parts : List Part) : sequence known parts = chain true known parts := by
  induction parts generalizing known with
  | nil => rfl
  | cons _ _ ih => simp only [sequence, chain, ih, Bool.true_and]

theorem together_eq (known : Termination) (parts : List Part) : together known parts = chain false known parts := by
  induction parts generalizing known with
  | nil => rfl
  | cons _ _ ih => simp only [together, chain, ih, Bool.false_and, if_neg Bool.false_ne_true]

section

variable {known : Termination} {parts : List Part}

theorem chain_cons (goesOn : (stops && known.isUnconditional) = false) (part : Part) :
    chain stops known (part :: parts) s = chain stops (known.union (part.code s).1) parts (part.code s).2 := by
  rw [chain, goesOn]
  rfl

theorem chain_passed (stopped : (stops && known.isUnconditional) = true) :
    Quiet s (chain stops known parts s).2 ∧ (chain stops known parts s).1 = known := by
  cases parts with
  | nil => exact ⟨.refl s, rfl⟩
  | cons _ _ =>
    rw [chain, if_pos stopped]
    exact ⟨report_silent _ s, rfl⟩

section

variable (compiles : ∀ part ∈ parts, Compiles mode .statements part.code)
  (fits : stops = true ∨ mode.loose ∨ ∀ part ∈ parts, ∀ s, (part.code s).1 = .none)

include compiles fits

theorem chain_emits (known : Termination) (s : Assembly) :
    Keeps s (chain stops known parts s).2 ∧ (Tolerates mode.failing (chain stops known parts s).2.reports →
      ∃ t, (chain stops known parts s).1 = known.union t ∧
        Emits mode .statements s t (chain stops known parts s).2) := by
  induction parts generalizing known s with
  | nil => exact ⟨.refl s, fun _ => ⟨.none, (Termination.union_none known).symm, (Quiet.refl s).emits_nothing⟩⟩
  | cons part rest ih =>
    cases stopped : stops && known.isUnconditional with
    | true =>
      obtain ⟨quiet, same⟩ := chain_passed stopped
      exact ⟨quiet.keeps, fun _ => ⟨.none, by rw [same, Termination.union_none], quiet.emits_nothing⟩⟩
    | false =>
      have first := compiles part (.head _)
      obtain ⟨keeps, emits⟩ := ih (fun part member => compiles part (.tail _ member))
        (fits.imp_right (.imp_right fun plain part member => plain part (.tail _ member)))
        (known.union (part.code s).1) (part.code s).2
      rw [chain_cons stopped]
      refine ⟨(first.keeps s).trans keeps, fun tolerated => ?_⟩
      obtain ⟨t, result, more⟩ := emits tolerated
      have begins := first.emits s (keeps.tolerates tolerated)
      cases last : stops && (part.code s).1.isUnconditional with
      | true =>
        have stopped : (stops && (known.union (part.code s).1).isUnconditional) = true := by
          simp_all
        obtain ⟨quiet, same⟩ := chain_passed stopped
        exact ⟨_, same, begins.quiet quiet⟩
      | false =>
        refine ⟨_, result.trans (Termination.union_assoc _ _), begins.append more fun unconditional => ?_⟩
        rw [unconditional, Bool.and_true] at last
        obtain stops | loose | plain := fits
        · exact absurd (last.symm.trans stops) Bool.false_ne_true
        · exact loose
        · rw [plain part (.head _)] at unconditional
          cases unconditional

theorem chain_compiles : Compiles mode .statements (chain stops .none parts) where
  keeps s := (chain_emits compiles fits .none s).1
  emits s tolerated := by
    obtain ⟨_, result, emits⟩ := (chain_emits compiles fits .none s).2 tolerated
    rw [result]
    exact emits

end

theorem sequence_compiles (compiles : ∀ part ∈ parts, Compiles mode .statements part.code) :
    Compiles mode .statements (sequence .none parts) := by
  rw [sequence_eq]
  exact chain_compiles compiles (.inl rfl)

end

/-! Statements that go on with the next one. -/

/-- A step of which nothing is known when it is done. -/
def Plain (x : Attempt Termination) : Prop := ∀ s t, (x s).1 = .ok t → t = .none

theorem Plain.pure : Plain (Pure.pure .none) := fun _ _ done => (Except.ok.inj done).symm

theorem Plain.bind (rest : ∀ a, Plain (f a)) : Plain (x >>= f) := by
  intro s t done
  rw [Run.bind_eq] at done
  rcases run : x s with ⟨error | a, s'⟩ <;> rw [run] at done
  · cases done
  · exact rest a s' t done

theorem Plain.unless {check : Bool}
    (rest : Plain (f ())) : Plain (if check then f () else fail cause span >>= f) := by
  cases check with
  | true => exact rest
  | false => exact .bind fun _ => rest

theorem Plain.settle (plain : Plain x) (s : Assembly) : (settle x s).1 = .none := by
  rw [settle_eq]
  rcases run : x s with ⟨_ | t, _⟩
  · rfl
  · exact plain s t (by rw [run])

theorem operate_plain : Plain (operate operands op span) :=
  .bind fun _ => .bind fun _ => .pure

theorem readInto_plain : Plain (readInto source target span) := by
  refine .bind fun from_ => .bind fun into => ?_
  have reads : Plain (do
      emit (.input from_ into) span
      return .none) := .bind fun _ => .pure
  exact .unless (.unless reads)

theorem together_none {parts : List Part} (plain : ∀ part ∈ parts, ∀ s, (part.code s).1 = .none) (s : Assembly) :
    (together .none parts s).1 = .none := by
  induction parts generalizing s with
  | nil => rfl
  | cons part rest ih =>
    show (together (Termination.none.union (part.code s).1) rest (part.code s).2).1 = _
    rw [plain part (.head _)]
    exact ih (fun part member => plain part (.tail _ member)) _

mutual

theorem statement_none : (st : Statement) → (∀ action ∈ st.actions, action.isSimple = true) →
    ∀ s, (statement st s).1 = .none
  | .mk action span, simple => by
    have itself := simple action (by simp [actions])
    refine Plain.settle ?_
    cases action with
    | group inner =>
      have plain := parts_none inner fun action member => simple action (by
        simp [actions, Action.inner, member])
      intro s _ done
      have same := Except.ok.inj done
      rw [← same, together_none plain]
    | expression | del | throw | output | transfer | link => exact operate_plain
    | declare _ => exact .bind fun _ => .pure
    | set => exact .pure
    | input _ _ => exact readInto_plain
    | _ => cases itself

theorem parts_none : (inner : List Statement) → (∀ action ∈ allActions inner, action.isSimple = true) →
    ∀ part ∈ parts inner, ∀ s, (part.code s).1 = .none
  | [], _ => nofun
  | .mk action span :: rest, simple => by
    have later := parts_none rest fun action member => simple action (by simp [allActions, member])
    have first := statement_none (.mk action span) fun action member => simple action (by
      simp [allActions, member])
    unfold parts
    split
    · exact later
    · rintro part (_ | ⟨_, member⟩)
      · exact first
      · exact later part member

end

/-! Statements and blocks. -/

/-- Every statement is compiled by one of the rules. -/
theorem statements_compile : Traversal
    (fun span action => mode.Admits action → (∀ part ∈ action.inner, mode.Admits part) →
      Tries mode .statements (compileAction span action))
    (fun body => (∀ action ∈ body.actions, mode.Admits action) → Encloses mode (block body).code)
    (fun inner => (∀ action ∈ allActions inner, mode.Admits action) →
      ∀ part ∈ parts inner, Compiles mode .statements part.code)
    (fun cases => (∀ action ∈ Case.allActions cases, mode.Admits action) →
      ∀ branch ∈ branches cases, Compiles mode .statements branch.body.code) where
  leaf span action leaf itself _ := by
    cases action with
    | expression | del | throw | output | transfer | link => exact operate_tries rfl
    | declare _ => exact .simple_bind declareVar_simple fun _ => .pure_none
    | set => exact .pure_none
    | return_ _ => exact returnValue_tries
    | break_ label? =>
      refine breakOut_tries (fun named => itself.1 ?_)
      cases label? with
      | none => cases named
      | some => rfl
    | continue_ label? =>
      refine continueOn_tries (fun named => itself.1 ?_)
      cases label? with
      | none => cases named
      | some => rfl
    | goto name => exact .lift (goto_compiles (itself.1 rfl))
    | label name body? =>
      cases body? with
      | none => exact .lift (placeLabel_compiles (by simp))
      | some => cases leaf
    | input _ _ => exact readInto_tries
    | _ => cases leaf
  group span inner compiles itself admitted := by
    rw [compileAction, together_eq]
    exact .lift (chain_compiles (compiles admitted) (.inr ((itself.2 inner rfl).imp_right (parts_none inner))))
  label span name body encloses _ admitted := by
    have compiles := (encloses admitted).compiles
    exact .lift (placeLabel_compiles (by simpa using compiles))
  switch _ _ _ compiles _ admitted := switch_tries (compiles admitted)
  held holds encloses _ admitted := by
    rw [holds.code]
    exact holds.shape.tries fun i => encloses i fun part member => admitted part (holds.inner.2 ⟨i, member⟩)
  body statements span compile admitted := by
    rw [Block.actions] at admitted
    have compiles := sequence_compiles (compile admitted)
    rw [block]
    exact inScope_encloses (.silent_bind (.forM runSetting_silent _) fun _ =>
      .silent_bind checkBlock_silent fun _ => compiles)
  done _ := by simp [parts]
  next action span rest tries later admitted := by
    rw [allActions, actions] at admitted
    have first := tries (admitted action (by simp)) fun part member => admitted part (by simp [member])
    rw [parts]
    split
    · exact later fun part member => admitted part (by simp [member])
    · rintro part (_ | ⟨_, member⟩)
      · exact settle_compiles first
      · exact later (fun part member => admitted part (by simp [member])) part member
  decided _ := by simp [branches]
  branch values? body span rest encloses later admitted := by
    rw [Case.allActions] at admitted
    rintro branch (_ | ⟨_, member⟩)
    · exact (encloses fun part member => admitted part (by simp [member])).compiles
    · exact later (fun part member => admitted part (by simp [member])) branch member

end Assembly

end DreamMaker
