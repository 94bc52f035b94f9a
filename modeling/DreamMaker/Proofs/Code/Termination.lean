import DreamMaker.Code.Termination

namespace DreamMaker.Termination

@[simp] theorem union_none (a : Termination) : a.union none = a := by
  simp [union, none]

theorem union_assoc (a b : Termination) : (a.union b).union c = a.union (b.union c) := by
  simp [union, Bool.or_assoc]

@[simp] theorem isUnconditional_none : none.isUnconditional = false := rfl

@[simp] theorem isUnconditional_procReturn : procReturn.isUnconditional = true := rfl

@[simp] theorem isUnconditional_union (a b : Termination) :
    (a.union b).isUnconditional = (a.isUnconditional || b.isUnconditional) := by
  simp only [isUnconditional, union]
  cases a.exitsLoop <;> cases a.returns <;> cases b.exitsLoop <;> cases b.returns <;> rfl

/-- What comes behind two statements of which one is run is reached unless both never go on. -/
@[simp] theorem isUnconditional_branch (a b : Termination) :
    (a.branch b).isUnconditional = (a.isUnconditional && b.isUnconditional) := by
  unfold branch
  cases both : a.returns && b.returns
  · simp [isUnconditional]
  · simp only [Bool.and_eq_true] at both
    simp [isUnconditional, procReturn, both.1, both.2]

@[simp] theorem isUnconditional_leaveLoop (a : Termination) (certain : Bool) :
    (a.leaveLoop certain).isUnconditional = (certain && a.returns) := by
  unfold leaveLoop
  cases known : certain && a.returns <;> rfl

theorem isUnconditional_of_contains_procReturn {a : Termination} (contained : a.contains procReturn = true) :
    a.isUnconditional = true := by
  have same : a.union procReturn = a := by
    rw [contains, Bool.and_eq_true, beq_iff_eq] at contained
    exact contained.2
  rw [← same, isUnconditional_union, isUnconditional_procReturn, Bool.or_true]

end DreamMaker.Termination
