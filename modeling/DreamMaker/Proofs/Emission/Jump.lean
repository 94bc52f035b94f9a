import DreamMaker.Proofs.Emission.Basic

namespace DreamMaker.Assembly

open Run

variable {label? : Option String} {span : Span}

/-! Jumps. -/

theorem activeLabel_cases : (∃ error, activeLabel name span s = (.error error, s)) ∨
      ∃ label, activeLabel name span s = (.ok label, s) ∧ s.marks.label? name = some label ∧
        label.placed = true ∧ name ∈ s.marks.active := by
  have same : s.marks.label? name = s.label? name := rfl
  rw [activeLabel, get_bind, same]
  rcases s.label? name with _ | label
  · exact .inl ⟨_, rfl⟩
  by_cases around : (label.placed && s.active.contains name) = true
  · simp only [around]
    simp only [Bool.and_eq_true, List.contains_iff_mem] at around
    exact .inr ⟨label, rfl, rfl, around⟩
  · simp only [around]
    exact .inl ⟨_, rfl⟩

/-- Where `break` jumps to, and what is noted about it. -/
inductive Breaks (m : Marks) : Option String → Label → Marks → Prop
  | loop {loop outer} : m.loops = loop :: outer → Breaks m none loop.stop (m.escape 1)
  | block {name label stop} : m.label? name = some label → label.placed = true → name ∈ m.active →
      label.stop? = some stop → Breaks m (some name) stop
        ((m.change name fun label => { label with broken := true }).escape (m.loops.length - label.depth))

/-- Where `continue` jumps to, and what is noted about it. -/
inductive Continues (m : Marks) : Option String → Label → Marks → Prop
  | loop {loop outer} : m.loops = loop :: outer → Continues m none loop.next m
  | block {name label next depth} : m.label? name = some label → label.placed = true → name ∈ m.active →
      label.next? = some (next, depth) → depth < m.loops.length →
      Continues m (some name) next (m.escape (m.loops.length - (depth + 1)))

theorem Breaks.lowers (breaks : Breaks m label? target m') (jumping : label?.isSome = true → mode.jumping) :
    Lowers mode .statements m [(.jump target, span)] .loopExit m' := by
  cases breaks with
  | loop around => exact .breakLoop around
  | block known placed around ends => exact .breakLabel (jumping rfl) known placed around ends

theorem Continues.lowers (continues : Continues m label? next m') (jumping : label?.isSome = true → mode.jumping) :
    Lowers mode .statements m [(.jump next, span)] .loopExit m' := by
  cases continues with
  | loop around => exact .continueLoop around
  | block known placed around goesOn inside => exact .continueLabel (jumping rfl) known placed around goesOn inside

theorem breakOut_cases :
    (∃ error, breakOut label? span s = (.error error, s)) ∨ ∃ target m, Breaks s.marks label? target m ∧
        breakOut label? span s = (.ok .loopExit, (s.withMarks m).writes [(.jump target, span)]) := by
  cases label? with
  | none =>
    cases around : s.loops with
    | nil =>
      have failed : breakTarget span none s = (.error ⟨.breakOutsideLoop, span⟩, s) := by
        rw [breakTarget, get_bind, around]
        rfl
      exact .inl ⟨_, bind_of_error failed⟩
    | cons loop _ =>
      have found : breakTarget span none s = (.ok loop.stop, s.withMarks (s.marks.escape 1)) := by
        rw [breakTarget, get_bind, around]
        rfl
      exact .inr ⟨loop.stop, _, .loop around, bind_of_ok found⟩
  | some name =>
    obtain ⟨error, failed⟩ | ⟨label, found, known, placed, around⟩ := activeLabel_cases
    · exact .inl ⟨error, bind_of_error (bind_of_error failed)⟩
    cases ends : label.stop? with
    | none =>
      have failed : breakTarget span (some name) s = (.error ⟨.labelWithoutBlock name, span⟩, s) := by
        rw [breakTarget, bind_of_ok found, ends]
        rfl
      exact .inl ⟨_, bind_of_error failed⟩
    | some stop =>
      have found : breakTarget span (some name) s = (.ok stop, s.withMarks
          ((s.marks.change name fun label => { label with broken := true }).escape
            (s.marks.loops.length - label.depth))) := by
        rw [breakTarget, bind_of_ok found, ends]
        rfl
      exact .inr ⟨stop, _, .block known placed around ends, bind_of_ok found⟩

theorem breakOut_tries (jumping : label?.isSome = true → mode.jumping) :
    Tries mode .statements (breakOut label? span) where
  keeps s := by
    obtain ⟨error, run⟩ | ⟨target, m, _, run⟩ := breakOut_cases <;> rw [run]
    · exact .refl s
    · exact .refl s
  emits s _ _ := by
    obtain ⟨error, run⟩ | ⟨target, m, breaks, run⟩ := breakOut_cases <;> rw [run]
    · exact (Quiet.refl s).emits_nothing
    · exact ⟨_, writes_ops _ _, breaks.lowers jumping⟩

theorem continueTarget?_cases :
    (∃ error, continueTarget? span label? s = (.error error, s)) ∨ continueTarget? span label? s = (.ok none, s) ∨
      ∃ next m, Continues s.marks label? next m ∧
        continueTarget? span label? s = (.ok (some next), s.withMarks m) := by
  cases label? with
  | none =>
    cases around : s.loops with
    | nil =>
      refine .inl ⟨⟨.continueOutsideLoop, span⟩, ?_⟩
      rw [continueTarget?, get_bind, around]
      rfl
    | cons loop _ =>
      refine .inr (.inr ⟨loop.next, s.marks, .loop around, ?_⟩)
      rw [continueTarget?, get_bind, around]
      rfl
  | some _ =>
    obtain ⟨error, failed⟩ | ⟨label, found, known, placed, around⟩ := activeLabel_cases
    · exact .inl ⟨error, bind_of_error failed⟩
    rw [continueTarget?, bind_of_ok found, get_bind]
    rcases goesOn : label.next? with _ | target
    · exact .inr (.inl rfl)
    obtain ⟨next, depth⟩ := target
    by_cases inside : depth < s.loops.length
    · simp only [inside]
      exact .inr (.inr ⟨next, _, .block known placed around goesOn inside, rfl⟩)
    · simp only [inside]
      exact .inr (.inl rfl)

theorem continueOn_tries (jumping : label?.isSome = true → mode.jumping) :
    Tries mode .statements (continueOn label? span) := by
  refine ⟨fun s => ?_, fun s _ _ => ?_⟩
  all_goals
    obtain ⟨_, run⟩ | run | ⟨next, m, continues, run⟩ := continueTarget?_cases
  · rw [continueOn, bind_of_error run]
    exact .refl s
  · rw [continueOn, bind_of_ok run]
    exact (report_silent _ s).keeps
  · rw [continueOn, bind_of_ok run]
    exact .refl s
  · rw [continueOn, bind_of_error run]
    exact (Quiet.refl s).emits_nothing
  · rw [continueOn, bind_of_ok run]
    exact (report_silent _ s).emits_nothing
  · rw [continueOn, bind_of_ok run]
    exact ⟨_, writes_ops (s.withMarks m) [(.jump next, span)], continues.lowers jumping⟩

theorem goto_eq :
    goto name span s = (.none, (s.withMarks ((s.marks.mention name span).escape s.marks.loops.length)).writes
      [(.jump (s.marks.startOf name), span)]) := by
  rw [goto, state_bind, labelStart_eq]
  show (Termination.none, (s.withMarks ((s.marks.mention name span).escape (s.marks.mention name span).loops.length)
    |>.writes [(.jump (s.marks.startOf name), span)])) = _
  rw [Marks.mention_loops]

theorem goto_compiles (jumping : mode.jumping) : Compiles mode .statements (goto name span) where
  keeps s := by
    rw [goto_eq]
    exact .refl s
  emits s _ := by
    rw [goto_eq]
    exact ⟨_, writes_ops _ _, .goto jumping⟩

theorem placeLabel_eq (free : (s.marks.label? name).any NamedLabel.placed = false) :
    placeLabel name body? span s = (match body? with
      | none => return .none
      | some body => labelBlock name body : Assemble Termination)
        ((s.withMarks (s.marks.place name span)).writes [(.mark (s.marks.startOf name), span)]) := by
  have unused : (s.label? name).any NamedLabel.placed = false := free
  show (if (s.label? name).any NamedLabel.placed then _ else _ : Assemble Termination) s = _
  simp only [unused]
  show (labelStart name span >>= _ : Assemble Termination) s = _
  rw [state_bind, labelStart_eq]
  cases body? <;> rfl

theorem placeLabel_taken (taken : (s.marks.label? name).any NamedLabel.placed = true) :
    placeLabel name body? span s = (report (.located .duplicateVariable span
      s!"A label with the name \"{name}\" already exists") >>= fun _ => return .none : Assemble Termination) s := by
  have used : (s.label? name).any NamedLabel.placed = true := taken
  show (if (s.label? name).any NamedLabel.placed then _ else _ : Assemble Termination) s = _
  simp only [used, if_true]

theorem labelBlock_eq (run : body.code (s.withMarks (s.marks.openBlock name)) = after) :
    labelBlock name body s = (if after.2.marks.isBroken name then after.1.leaveLoop false else after.1,
      (after.2.withMarks after.2.marks.closeBlock).writes [(.mark ⟨s.marks.count⟩, body.span)]) := by
  subst run
  let after := body.code (s.withMarks (s.marks.openBlock name))
  unfold labelBlock
  simp only [state_bind]
  generalize last : (emit _ _ _).2 = s'
  have known : ((get : Assemble Assembly) s').1.label? name = after.2.marks.label? name := by
    rw [← last]
    rfl
  rw [known, Marks.isBroken, ← last]
  cases after.2.marks.label? name <;> rfl

/-- The state in which the block behind a name is compiled. -/
def inBlock (s : Assembly) (name : String) (span : Span) : Assembly :=
  ((s.withMarks (s.marks.place name span)).writes [(.mark (s.marks.startOf name), span)]).withMarks
    ((s.marks.place name span).openBlock name)

theorem placeLabel_compiles (compiles : ∀ body ∈ body?, Compiles mode .statements body.code) :
    Compiles mode .statements (placeLabel name body? span) := by
  have block (body : Part) (s : Assembly) := labelBlock_eq
    (rfl : _ = body.code (s.inBlock name span))
  refine ⟨fun s => ?_, fun s tolerated => ?_⟩
  all_goals cases free : (s.marks.label? name).any NamedLabel.placed
  · rw [placeLabel_eq free]
    cases body? with
    | none => exact .refl s
    | some body =>
      dsimp only
      rw [block]
      exact (compiles body rfl).keeps (s.inBlock name span)
  · rw [placeLabel_taken free]
    exact (report_silent _ s).keeps
  · rw [placeLabel_eq free] at tolerated ⊢
    rcases body? with _ | body
    · exact ⟨_, writes_ops _ _, .label free⟩
    dsimp only at tolerated ⊢
    rw [block] at tolerated ⊢
    obtain ⟨code, ops, lowers⟩ := (compiles body rfl).emits (s.inBlock name span) tolerated
    refine ⟨(.mark (s.marks.startOf name), span) ::
      (code ++ [(.mark ⟨(s.marks.place name span).count⟩, body.span)]), ?_, .labelBlock free lowers⟩
    refine (writes_ops _ _).trans ?_
    rw [withMarks_ops, ops]
    simp [inBlock]
    rfl
  · rw [placeLabel_taken free]
    exact (report_silent _ s).emits_nothing

end DreamMaker.Assembly
