import DreamMaker.Proofs.Emission.Basic

namespace DreamMaker.Assembly

open List

variable {mode : Mode} {branches : List Branch} {span : Span}

/-! Switches on a value that is not constant. -/

theorem caseTest_eq {target : Label} {value : CaseValue} :
    ∃ s₁ code, Quiet s s₁ ∧ caseTest target value s = ((), s₁.writes code) ∧
      ∀ rest, CaseTests target rest → CaseTests target (code ++ rest) := by
  cases value with
  | single e =>
    exact ⟨(caseConstant e s).2, [(.push (caseConstant e s).1, e.span), (.switchCase target, e.span)],
      caseConstant_silent s, rfl, fun _ => .single⟩
  | range start stop =>
    let lower := rangeBound start "lower" s
    let upper := rangeBound stop "upper" lower.2
    exact ⟨upper.2, [(.push lower.1, start.span), (.push upper.1, stop.span),
        (.switchCaseRange target, start.span.merge stop.span)],
      (rangeBound_silent s).trans (rangeBound_silent lower.2), rfl, fun _ => .range⟩

/-- A step that emits code and leaves the labels as they are. -/
def Prints (code : Listing) (s s' : Assembly) : Prop :=
  Keeps s s' ∧ s'.marks = s.marks ∧ s'.ops.toList = s.ops.toList ++ code

theorem forM_caseTest_emits (target : Label) (values : List CaseValue) (s : Assembly) :
    ∃ tests, CaseTests target tests ∧ Prints tests s (values.forM (caseTest target) s).2 := by
  induction values generalizing s with
  | nil => exact ⟨[], .done, .refl s, rfl, (append_nil _).symm⟩
  | cons value rest ih =>
    obtain ⟨s₁, code, quiet, run, form⟩ := caseTest_eq
    obtain ⟨tests, tested, keeps, marks, ops⟩ := ih (s₁.writes code)
    have runs : ((value :: rest).forM (caseTest target) s) = rest.forM (caseTest target) (s₁.writes code) := by
      show (caseTest target value >>= fun _ => rest.forM (caseTest target) : Assemble Unit) s = _
      rw [Run.state_bind, run]
    rw [runs]
    refine ⟨code ++ tests, form tests tested, quiet.keeps.trans ((writes_keeps _).trans keeps), ?_, ?_⟩
    · rw [marks, writes_marks, quiet.marks]
    · rw [ops, writes_ops, quiet.ops, append_assoc]

/-- What the tests of all cases leave behind. -/
structure Tested (branches : List Branch) (s : Assembly) (result : List (Label × Branch) × Assembly) : Prop where
  keeps : Keeps s result.2
  marks : result.2.marks = s.marks.fresh result.1.length
  code : ∃ tests, SwitchTests s.marks.count (result.1.map Prod.fst) tests ∧
    result.2.ops.toList = s.ops.toList ++ tests
  members : ∀ entry ∈ result.1, entry.2 ∈ branches

theorem caseTests_tested (branches : List Branch) (s : Assembly) : Tested branches s (caseTests branches s) := by
  induction branches generalizing s with
  | nil => exact ⟨.refl s, rfl, ⟨[], .done, (append_nil _).symm⟩, nofun⟩
  | cons branch rest ih =>
    cases given : branch.values? with
    | none =>
      have run : caseTests (branch :: rest) s = caseTests rest s := by
        rw [caseTests, given]
      obtain ⟨keeps, marks, code, members⟩ := ih s
      rw [run]
      exact ⟨keeps, marks, code, fun entry member => .tail _ (members entry member)⟩
    | some values =>
      let label : Label := ⟨s.marks.count⟩
      obtain ⟨tests, tested, keeps, marks, ops⟩ :=
        forM_caseTest_emits label values (s.withMarks (s.marks.fresh 1))
      have run : caseTests (branch :: rest) s =
          let others := caseTests rest (values.forM (caseTest label) (s.withMarks (s.marks.fresh 1))).2
          ((label, branch) :: others.1, others.2) := by
        rw [caseTests, given]
        rfl
      obtain ⟨keeps', marks', ⟨more, tested', ops'⟩, members⟩ :=
        ih (values.forM (caseTest label) (s.withMarks (s.marks.fresh 1))).2
      rw [run]
      refine ⟨keeps.trans keeps', ?_, ⟨tests ++ more, ?_, ?_⟩, ?_⟩
      · rw [marks', marks]
        simp [Marks.fresh, Assembly.marks, withMarks, Nat.add_assoc, Nat.add_comm 1]
      · rw [marks] at tested'
        exact .next tested tested'
      · rw [ops', ops, withMarks_ops, append_assoc]
      · rintro entry (_ | ⟨_, member⟩)
        · exact .head _
        · exact .tail _ (members entry member)

theorem caseBodies_compiles (stop : Label) (known : Termination)
    (compiles : ∀ entry ∈ labelled, Compiles mode .statements entry.2.body.code) :
    Compiles mode (.cases stop (labelled.map Prod.fst) known) (caseBodies stop known labelled) := by
  induction labelled generalizing known with
  | nil => exact ⟨Keeps.refl, fun s _ => ⟨[], (append_nil _).symm, .noCases⟩⟩
  | cons entry _ ih =>
    obtain ⟨label, branch⟩ := entry
    have first := compiles (label, branch) (.head _)
    have others (known : Termination) := ih known fun entry member => compiles entry (.tail _ member)
    let begun (s : Assembly) : Assembly := s.writes [(.mark label, branch.span)]
    let between (s : Assembly) : Assembly := (branch.body.code (begun s)).2.writes [(.jump stop, branch.span)]
    refine ⟨fun s => (first.keeps (begun s)).trans ((others _).keeps (between s)), fun s tolerated => ?_⟩
    obtain ⟨code₂, ops₂, lowers₂⟩ := (others _).emits (between s) tolerated
    obtain ⟨code₁, ops₁, lowers₁⟩ :=
      first.emits (begun s) (((others _).keeps (between s)).tolerates tolerated)
    refine ⟨(.mark label, branch.span) :: (code₁ ++ (.jump stop, branch.span) :: code₂),
      ?_, .case lowers₁ lowers₂⟩
    refine ops₂.trans ?_
    rw [writes_ops, ops₁, writes_ops]
    simp

/-- The case without values that counts, if there is one. -/
def defaultCode (branches : List Branch) : Assemble Termination :=
  match branches.reverse.find? (·.values?.isNone) with
  | some branch => branch.body.code
  | none => pure .none

theorem defaultCode_compiles (compiles : ∀ branch ∈ branches, Compiles mode .statements branch.body.code) :
    Compiles mode .statements (defaultCode branches) := by
  unfold defaultCode
  cases found : branches.reverse.find? (·.values?.isNone) with
  | none => exact .pure_none
  | some branch => exact compiles branch (mem_reverse.1 (mem_of_find?_eq_some found))

theorem openSwitch_eq :
    openSwitch value branches span s = let tested :=caseTests branches (s.writes [(.push value, span)])
      let stop : Label := ⟨tested.2.marks.count⟩
      let first := defaultCode branches ((tested.2.writes [(.pop, span)]).withMarks (tested.2.marks.fresh 1))
      let bodies := caseBodies stop first.1 tested.1 (first.2.writes [(.jump stop, span)])
      (bodies.1, bodies.2.writes [(.mark stop, span)]) := by
  unfold openSwitch defaultCode
  cases branches.reverse.find? (·.values?.isNone) <;> rfl

theorem openSwitch_compiles (compiles : ∀ branch ∈ branches, Compiles mode .statements branch.body.code) :
    Compiles mode .statements (openSwitch value branches span) := by
  let tested (s : Assembly) := caseTests branches (s.writes [(.push value, span)])
  let stop (s : Assembly) : Label := ⟨(tested s).2.marks.count⟩
  let begun (s : Assembly) : Assembly :=
    ((tested s).2.writes [(.pop, span)]).withMarks ((tested s).2.marks.fresh 1)
  let between (s : Assembly) : Assembly := (defaultCode branches (begun s)).2.writes [(.jump (stop s), span)]
  let bodies (s : Assembly) := caseBodies (stop s) (defaultCode branches (begun s)).1 (tested s).1 (between s)
  have run (s : Assembly) : openSwitch value branches span s =
      ((bodies s).1, (bodies s).2.writes [(.mark (stop s), span)]) := openSwitch_eq
  have defaults := defaultCode_compiles compiles
  have form (s : Assembly) : Tested branches (s.writes [(.push value, span)]) (tested s) := caseTests_tested _ _
  have others (s : Assembly) : Compiles mode (.cases (stop s) ((tested s).1.map Prod.fst) _)
      (caseBodies (stop s) (defaultCode branches (begun s)).1 (tested s).1) :=
    caseBodies_compiles (stop s) _ fun entry member => compiles entry.2 ((form s).members entry member)
  have kept (s : Assembly) : Keeps (defaultCode branches (begun s)).2 (bodies s).2 := (others s).keeps (between s)
  refine ⟨fun s => ?_, fun s tolerated => ?_⟩
  · rw [run]
    exact (form s).keeps.trans ((defaults.keeps (begun s)).trans (kept s))
  · rw [run] at tolerated ⊢
    obtain ⟨code₂, ops₂, lowers₂⟩ := (others s).emits (between s) tolerated
    obtain ⟨code₁, ops₁, lowers₁⟩ := defaults.emits (begun s) ((kept s).tolerates tolerated)
    obtain ⟨tests, switched, ops₀⟩ := (form s).code
    have counted : stop s = ⟨s.marks.count + ((tested s).1.map Prod.fst).length⟩ := by
      rw [length_map]
      exact congrArg (Label.mk ∘ Marks.count) (form s).marks
    have handed : (begun s).marks = s.marks.fresh (((tested s).1.map Prod.fst).length + 1) := by
      show (tested s).2.marks.fresh 1 = _
      rw [(form s).marks, length_map]
      rfl
    rw [handed] at lowers₁
    have cased : Lowers mode
      (.cases ⟨s.marks.count + ((tested s).1.map Prod.fst).length⟩ ((tested s).1.map Prod.fst)
        (defaultCode branches (begun s)).1) (defaultCode branches (begun s)).2.marks code₂ (bodies s).1
        (bodies s).2.marks := by
      rw [← counted]
      exact lowers₂
    refine ⟨(.push value, span) :: (tests ++ (.pop, span) :: (code₁ ++ (.jump (stop s), span) ::
      (code₂ ++ [(.mark (stop s), span)]))), ?_, ?_⟩
    · rw [writes_ops, ops₂, writes_ops, ops₁, withMarks_ops, writes_ops, ops₀]
      simp
    · rw [counted]
      exact .switch switched lowers₁ cased

/-! Switches on a constant. -/

theorem lt_of_chosen {index : Nat} (chosen : selected? = some index) : ∀ i ∈ selected?, i < index + 1 := by
  rintro i (same : selected? = some i)
  rw [chosen] at same
  cases same
  exact Nat.lt_succ_self index

theorem onlyCase_passed (index : Nat) (passed : ∀ i ∈ selected?, i < index)
    (known : Termination) (branches : List Branch) (s : Assembly) :
    Quiet s (onlyCase selected? index known branches s).2 ∧
      (onlyCase selected? index known branches s).1 = known := by
  induction branches generalizing index s with
  | nil => exact ⟨.refl s, rfl⟩
  | cons branch _ ih =>
    have other : selected? ≠ some index := fun same => Nat.lt_irrefl _ (passed index same)
    rw [onlyCase, if_neg other]
    obtain ⟨quiet, same⟩ := ih (index + 1) (fun i chosen => Nat.lt_succ_of_lt (passed i chosen))
      (discard branch.body.span "the switch value never matches this case" s).2
    exact ⟨(discard_silent s).trans quiet, same⟩

theorem onlyCase_compiles (selected? : Option Nat) (index : Nat)
    (compiles : ∀ branch ∈ branches, Compiles mode .statements branch.body.code) :
    Compiles mode .statements (onlyCase selected? index .none branches) := by
  induction branches generalizing index with
  | nil => exact .pure_none
  | cons branch rest ih =>
    unfold onlyCase
    split
    · rename_i chosen
      have first := compiles branch (.head _)
      have passed := lt_of_chosen chosen
      have rest_quiet (t : Termination) (s : Assembly) := onlyCase_passed (index + 1) passed t rest s
      refine ⟨fun s => (first.keeps s).trans (rest_quiet _ _).1.keeps, fun s tolerated => ?_⟩
      obtain ⟨quiet, same⟩ := rest_quiet (branch.body.code s).1 (branch.body.code s).2
      rw [Run.state_bind, same]
      exact (first.emits s (quiet.keeps.tolerates tolerated)).quiet quiet
    · exact .silent_bind (discard_silent) fun _ =>
        ih (index + 1) fun branch member => compiles branch (.tail _ member)

theorem switch_tries {value : Expr} (compiles : ∀ branch ∈ branches, Compiles mode .statements branch.body.code) :
    Tries mode .statements (switch value branches span) := by
  refine .silent_bind (resolve_silent value none) fun value => ?_
  split
  · exact .lift (.silent_bind (matchingCase?_silent 0 branches) fun _ => onlyCase_compiles _ 0 compiles)
  · exact .lift (openSwitch_compiles compiles)

end DreamMaker.Assembly
