import DreamMaker.Proofs.Code.Sites

/-!
Steps of the compilation of a proc that do the same wherever they stand in it. A statement does the same if its parts
do, so what other parts would do elsewhere does not matter.
-/

namespace DreamMaker

open List Mode

namespace Assembly

variable {last : Marks} {s : Assembly} {span : Span} {branches branches' : List Branch} {g : α → Attempt β}
  {parts : List Part}

/-- Wherever the first step stands in a proc, the second one does the same. -/
def Alike (last : Marks) (piece : Piece) (x y : Assembly → β × Assembly) : Prop :=
  ∀ s, Stands any last piece s.marks s.ops.toList (x s).2.marks → y s = x s

/-- A part and one that does the same in its place. -/
structure AlikeParts (last : Marks) (one two : Part) : Prop where
  span : two.span = one.span
  code : Alike last .statements one.code two.code

theorem Alike.refl (x : Assembly → β × Assembly) : Alike last piece x x := fun _ _ => rfl

theorem Emits.stands_behind (emits : Emits any .statements s t s')
    (stands : Stands any last .statements s.marks s.ops.toList m) :
    Stands any last .statements s'.marks s'.ops.toList m := by
  obtain ⟨_, ops, lowers⟩ := emits
  rw [ops]
  exact .second lowers stands

theorem Emits.stands_before (emits : Emits any .statements s t s')
    (stands : Stands any last .statements m code s'.marks) : Stands any last .statements m code s.marks := by
  obtain ⟨_, _, lowers⟩ := emits
  exact .first lowers stands

/-- From one state to another, nothing is emitted that has to do with labels. -/
def Passes (s s' : Assembly) : Prop :=
  s'.marks = s.marks ∧
    ∃ code, s'.ops.toList = s.ops.toList ++ code ∧ placedLabels code = [] ∧ targetLabels code = []

theorem Passes.stands (passes : Passes s s') (stands : Stands any last piece s.marks s.ops.toList m) :
    Stands any last piece s'.marks s'.ops.toList m := by
  obtain ⟨marks, _, ops, places, jumps⟩ := passes
  rw [marks, ops]
  exact .emit places jumps stands

theorem Passes.writes (s : Assembly) (more : Listing) (places : placedLabels more = [])
    (jumps : targetLabels more = []) :
    Passes s (s.writes more) :=
  ⟨writes_marks s more, more, writes_ops s more, places, jumps⟩

theorem Quiet.passes (quiet : Quiet s s') : Passes s s' :=
  ⟨quiet.marks, [], by rw [quiet.ops, append_nil], rfl, rfl⟩

theorem Simple.passes (simple : Simple x) (s : Assembly) : Passes s (x s).2 := by
  obtain ⟨more, ops, rfl | line⟩ := simple.code s
  · exact ⟨simple.marks s, [], ops, rfl, rfl⟩
  · exact ⟨simple.marks s, more, ops, line.inert⟩

theorem Pushing.passes {count : Nat} (pushing : Pushing count x) (s : Assembly) :
    Passes s (x s).2 := by
  obtain ⟨_, ops, _⟩ := pushing.values s
  exact ⟨pushing.marks s, _, ops, placedLabels_pushes, targetLabels_pushes⟩

theorem Alike.bind (passes : ∀ s, Passes s (x s).2)
    (rest : ∀ a, Alike last piece (f a) (g a)) : Alike last piece (x >>= f) (x >>= g) := by
  intro s stands
  have passed := passes s
  rw [Run.bind_eq] at stands ⊢
  rw [Run.bind_eq]
  rcases run : x s with ⟨_ | a, s'⟩
  · rfl
  · rw [run] at passed stands
    exact rest a s' (passed.stands stands)

theorem Alike.silent_bind (silent : SilentAttempt x)
    (rest : ∀ a, Alike last piece (f a) (g a)) : Alike last piece (x >>= f) (x >>= g) :=
  .bind (fun s => (silent.quiet s).passes) rest

theorem Alike.then {g : α → Assemble β} (passes : ∀ s, Passes s (x s).2)
    (rest : ∀ a, Alike last piece (f a) (g a)) : Alike last piece (x >>= f) (x >>= g) :=
  fun s stands => rest (x s).1 (x s).2 ((passes s).stands stands)

theorem Alike.lift {x y : Assemble α} (same : Alike last piece x y) :
    Alike last piece (liftM x : Attempt α) (liftM y : Attempt α) := by
  intro s stands
  exact congrArg (fun result : α × Assembly => (Except.ok result.1, result.2)) (same s stands)

theorem Alike.settle {x y : Attempt Termination} (same : Alike last .statements x y) :
    Alike last .statements (settle x) (settle y) := by
  intro s stands
  have marks : (Assembly.settle x s).2.marks = (x s).2.marks := by
    rw [settle_eq]
    rcases x s with ⟨error | t, s'⟩ <;> rfl
  rw [marks] at stands
  rw [settle_eq, settle_eq, same s stands]

theorem Alike.inScope {x y : Assemble α} (same : Alike last piece x y) (span : Span) :
    Alike last piece (inScope span x) (inScope span y) := by
  intro s stands
  let begun : Assembly := { s.writes [(.enterScope, span)] with frame := s.frame.openScope }
  let ended (result : α × Assembly) : α × Assembly :=
    (result.1, { result.2 with frame := result.2.frame.closeScope }.writes [(.exitScope, span)])
  have passed := Passes.writes s [(.enterScope, span)] rfl rfl
  exact congrArg ended (same begun (passed.stands stands))

theorem Alike.tryInScope {x y : Attempt α} (same : Alike last piece x y) (span : Span) :
    Alike last piece (tryInScope span x) (tryInScope span y) :=
  Alike.inScope same span

/-! Statements that hold others. -/

theorem chain_alike (same : List.Forall₂ (AlikeParts last) parts parts')
    (compiles : ∀ part ∈ parts, Compiles any .statements part.code) (stops : Bool) (known : Termination) :
    Alike last .statements (chain stops known parts) (chain stops known parts') := by
  induction same generalizing known with
  | nil => exact .refl _
  | @cons part _ rest _ first _ ih =>
    intro s stands
    cases stopped : stops && known.isUnconditional with
    | true => rw [chain, chain, if_pos stopped, if_pos stopped, first.span]
    | false =>
      have later : ∀ part ∈ rest, Compiles any .statements part.code := fun part member =>
        compiles part (.tail _ member)
      have begins := (compiles part (.head _)).emits s (tolerates_any)
      rw [chain_cons stopped] at stands ⊢
      obtain ⟨_, _, ends⟩ :=
        (chain_emits later (.inr (.inl trivial)) (known.union (part.code s).1) (part.code s).2).2
        (tolerates_any)
      rw [chain_cons stopped, first.code s (ends.stands_before stands)]
      exact ih later _ _ (begins.stands_behind stands)

theorem sequence_alike (same : List.Forall₂ (AlikeParts last) parts parts')
    (compiles : ∀ part ∈ parts, Compiles any .statements part.code) :
    Alike last .statements (sequence .none parts) (sequence .none parts') := by
  rw [sequence_eq, sequence_eq]
  exact chain_alike same compiles true .none

theorem placeLabel_alike (same : AlikeParts last body body') :
    Alike last .statements (placeLabel name (some body) span) (placeLabel name (some body') span) := by
  intro s stands
  cases free : (s.marks.label? name).any NamedLabel.placed with
  | true => rw [placeLabel_taken free, placeLabel_taken free]
  | false =>
    rw [placeLabel_eq free] at stands ⊢
    rw [placeLabel_eq free]
    dsimp only at stands ⊢
    rw [labelBlock_eq rfl] at stands
    have inside : Stands any last .statements (s.inBlock name span).marks (s.inBlock name span).ops.toList
        (body.code (s.inBlock name span)).2.marks := by
      rw [writes_marks] at stands
      rw [inBlock, withMarks_ops, writes_ops]
      exact .block free stands
    rw [labelBlock_eq (same.code _ inside), labelBlock_eq rfl, same.span]

theorem spawnCode_alike (same : Alike last .statements one one') :
    Alike last .statements (spawnCode one span) (spawnCode one' span) := by
  intro s stands
  have inside : one' (s.inSpawn span) = one (s.inSpawn span) := by
    refine same _ ?_
    rw [inSpawn, withMarks_ops, writes_ops]
    exact .spawn stands
  rw [spawnCode, spawnCode, inside]

theorem skipCode_alike (form : ∀ count, Check ⟨count⟩ (check count)) (same : Alike last .statements one one') :
    Alike last .statements (skipCode check one span) (skipCode check one' span) := by
  intro s stands
  let begun : Assembly := (s.withMarks (s.marks.fresh 1)).writes (check s.marks.count)
  have inside : one' begun = one begun := by
    refine same begun ?_
    rw [writes_marks, writes_ops]
    exact .skip (form _) stands
  rw [skipCode, skipCode, inside]

theorem forkCode_alike {one' two' : Assemble Termination} {other : Nat → Label} {head : Nat → Listing}
    (form : ∀ count, Fork count (other count) (stop count) (head count) (link count))
    (first : Compiles any .statements one) (second : Compiles any .statements two)
    (same₁ : Alike last .statements one one') (same₂ : Alike last .statements two two') :
    Alike last .statements (forkCode head link stop one two span) (forkCode head link stop one' two' span) := by
  intro s stands
  let begun : Assembly := (s.withMarks (s.marks.fresh 2)).writes (head s.marks.count)
  let between : Assembly := (one begun).2.writes (link s.marks.count)
  obtain ⟨_, ops₁, lowers₁⟩ := first.emits begun (tolerates_any)
  obtain ⟨_, _, lowers₂⟩ := second.emits between (tolerates_any)
  rw [writes_marks] at lowers₁ lowers₂
  have one_same : one' begun = one begun := by
    refine same₁ begun ?_
    rw [writes_marks, writes_ops]
    exact .either (form _) lowers₂ stands
  have two_same : two' between = two between := by
    refine same₂ between ?_
    rw [writes_marks, writes_ops, ops₁, writes_ops, append_assoc, append_assoc,
      ← append_assoc (head _)]
    exact .or (form _) lowers₁ stands
  rw [forkCode, forkCode, one_same]
  rw [two_same]

/-! Loops. -/

theorem inLoop_alike (same : AlikeParts last body body') {head tail : Listing}
    (form : LoopForm ⟨s.marks.count⟩ ⟨s.marks.count + 1⟩ ⟨s.marks.count + 2⟩ piece head tail certain)
    (stands : Stands any last piece s.marks s.ops.toList (body.code (s.inLoop head span)).2.marks.closeLoop) :
    body'.code (s.inLoop head span) = body.code (s.inLoop head span) := by
  refine same.code _ ?_
  rw [inLoop_ops, inLoop_marks]
  exact .loop form stands

theorem Loops.alike (loops : Loops piece loop span) (same : AlikeParts last body body') :
    Alike last piece (loop body) (loop body') := by
  obtain ⟨_, _, _, _, form, ends, code⟩ := loops
  intro s stands
  rw [code, loopCode_eq ends, writes_marks] at stands
  rw [code, code, loopCode_eq ends, loopCode_eq ends, inLoop_alike same (form s.marks.count s) stands]

section

variable (same : AlikeParts last body body')

include same

theorem doWhileLoop_alike :
    Alike last .statements (doWhileLoop body condition span) (doWhileLoop body' condition span) := by
  intro s stands
  have marks : (doWhileLoop body condition span s).2.marks =
      (body.code (s.inLoop [] span)).2.marks.closeLoop := by
    have quiet := (resolve_silent condition none).quiet (s.behindBody body span)
    rw [doWhileLoop_eq]
    rcases run : resolve condition none (s.behindBody body span) with ⟨error | value, s'⟩ <;> rw [run] at quiet
    · exact (writes_marks _ _).trans quiet.marks
    · exact (writes_marks _ _).trans quiet.marks
  rw [marks] at stands
  have form : LoopForm ⟨s.marks.count⟩ ⟨s.marks.count + 1⟩ ⟨s.marks.count + 2⟩ .statements []
      [(.loopContinue ⟨s.marks.count + 1⟩, span)] false := .doOnce
  have inside := inLoop_alike same form stands
  rw [doWhileLoop_eq, doWhileLoop_eq, behindBody, behindBody, inside]

theorem enumeratorLoop_alike :
    Alike last .statements (enumeratorLoop binder body span) (enumeratorLoop binder body' span) := by
  have each : Alike last .rounds
      (tryInScope span (do enumerate (← loopVar binder) body span : Attempt Termination))
      (tryInScope span (do enumerate (← loopVar binder) body' span : Attempt Termination)) :=
    .tryInScope (.silent_bind (loopVar_silent binder) fun target => .lift ((enumerate_loops).alike same)) span
  intro s stands
  exact congrArg (fun result : Outcome => (result.1, result.2.writes [(.destroyEnumerator, span)]))
    (each s (.rounds stands))

end

theorem Shape.alike {parts' : ι → Part} {count : Nat}
    {f : (ι → Part) → Attempt Termination} (shape : Shape count f)
    {parts : ι → Part} (compiles : ∀ i, Compiles any .statements (parts i).code)
    (same : ∀ i, AlikeParts last (parts i) (parts' i)) : Alike last .statements (f parts) (f parts') := by
  induction shape with
  | silent silent _ ih => exact .silent_bind silent ih
  | simple simple _ ih => exact .bind simple.passes fun _ => ih
  | values pushing _ ih => exact .bind pushing.passes fun _ => ih
  | scope _ ih => exact .tryInScope ih _
  | fails => exact .refl _
  | part => exact .lift (same _).code
  | omitted =>
    dsimp only
    rw [(same _).span]
    exact .refl _
  | chosen =>
    dsimp only
    rw [(same _).span]
    exact .silent_bind (.lift (discard_silent)) fun _ => .lift (same _).code
  | skip form => exact skipCode_alike form (same _).code
  | @fork _ k? _ _ _ _ _ form =>
    dsimp only
    rw [show (fun i => (parts' i).span) = fun i => (parts i).span from funext fun i => (same i).span]
    cases k? with
    | none => exact forkCode_alike (form _) (compiles _) .pure_none (same _).code (.refl _)
    | some k => exact forkCode_alike (form _) (compiles _) (compiles k) (same _).code (same k).code
  | spawn => exact spawnCode_alike (same _).code
  | loop loops => exact .lift (loops.alike (same _))
  | doWhile => exact doWhileLoop_alike (same _)
  | enumerator kind =>
    exact .bind (fun s => Passes.writes s [(.createEnumerator kind, _)] rfl rfl) fun _ =>
      enumeratorLoop_alike (same _)

/-! Switches. -/

/-- A case and one whose body does the same in its place. -/
structure AlikeBranches (last : Marks) (one two : Branch) : Prop where
  values : two.values? = one.values?
  span : two.span = one.span
  body : AlikeParts last one.body two.body

/-- The same labels with cases that do the same. -/
def AlikeEntries (last : Marks) (one two : Label × Branch) : Prop :=
  two.1 = one.1 ∧ AlikeBranches last one.2 two.2

theorem caseTests_alike (same : List.Forall₂ (AlikeBranches last) branches branches') (s : Assembly) :
    (caseTests branches' s).2 = (caseTests branches s).2 ∧
      List.Forall₂ (AlikeEntries last) (caseTests branches s).1 (caseTests branches' s).1 := by
  induction same generalizing s with
  | nil => exact ⟨rfl, .nil⟩
  | @cons branch _ _ _ first _ ih =>
    rw [caseTests, caseTests, first.values]
    cases branch.values? with
    | none => exact ih s
    | some values =>
      let label : Label := ⟨s.marks.count⟩
      let tested : Assembly := (values.forM (caseTest label) (s.withMarks (s.marks.fresh 1))).2
      exact ⟨(ih tested).1, .cons ⟨rfl, first⟩ (ih tested).2⟩

theorem caseBodies_alike (same : List.Forall₂ (AlikeEntries last) labelled labelled')
    (compiles : ∀ entry ∈ labelled, Compiles any .statements entry.2.body.code) (stop : Label)
    (known : Termination) : Alike last (.cases stop (labelled.map Prod.fst) known) (caseBodies stop known labelled)
      (caseBodies stop known labelled') := by
  induction same generalizing known with
  | nil => exact .refl _
  | @cons entry entry' rest rest' first _ ih =>
    obtain ⟨label, branch⟩ := entry
    obtain ⟨label', branch'⟩ := entry'
    obtain ⟨same, alike⟩ := first
    obtain rfl : label' = label := same
    intro s stands
    let begun : Assembly := s.writes [(.mark label', branch.span)]
    let result := branch.body.code begun
    let between : Assembly := result.2.writes [(.jump stop, branch.span)]
    have later : ∀ entry ∈ rest, Compiles any .statements entry.2.body.code := fun entry member =>
      compiles entry (.tail _ member)
    obtain ⟨_, ops₁, lowers₁⟩ := (compiles (label', branch) (.head _)).emits begun (tolerates_any)
    obtain ⟨_, _, lowers₂⟩ :=
      (caseBodies_compiles stop (known.branch result.1) later).emits between (tolerates_any)
    have one : branch'.body.code begun = branch.body.code begun := by
      refine alike.body.code begun ?_
      rw [writes_ops]
      exact .case lowers₂ stands
    have two := ih later (known.branch result.1) between (by
      rw [writes_ops, ops₁, writes_ops, append_assoc, append_assoc]
      exact .others lowers₁ stands)
    show (do
      emit (.mark label') branch'.span
      let termination ← branch'.body.code
      emit (.jump stop) branch'.span
      caseBodies stop (known.branch termination) rest' : Assemble Termination) s = _
    rw [alike.span]
    show (fun after : Termination × Assembly =>
      caseBodies stop (known.branch after.1) rest' (after.2.writes [(.jump stop, branch.span)]))
        (branch'.body.code begun) = _
    rw [one]
    exact two

variable (same : List.Forall₂ (AlikeBranches last) branches branches')

include same

theorem defaultCode_alike : Alike last .statements (defaultCode branches) (defaultCode branches') := by
  have turned := forall₂_reverse_iff.2 same
  unfold defaultCode
  generalize branches.reverse = turns, branches'.reverse = turns' at turned
  induction turned with
  | nil => exact .refl _
  | @cons branch _ _ _ first _ ih =>
    rw [find?_cons, find?_cons, first.values]
    cases branch.values?.isNone with
    | true => exact first.body.code
    | false => exact ih

theorem openSwitch_alike (compiles : ∀ branch ∈ branches, Compiles any .statements branch.body.code) :
    Alike last .statements (openSwitch value branches span) (openSwitch value branches' span) := by
  intro s stands
  let tested := caseTests branches (s.writes [(.push value, span)])
  let labels := tested.1.map Prod.fst
  let stop : Label := ⟨s.marks.count + labels.length⟩
  let begun : Assembly := (tested.2.writes [(.pop, span)]).withMarks (tested.2.marks.fresh 1)
  let first := defaultCode branches begun
  let between : Assembly := first.2.writes [(.jump stop, span)]
  obtain ⟨tests, entries⟩ := caseTests_alike same (s.writes [(.push value, span)])
  obtain ⟨_, marks, ⟨code, form, ops⟩, members⟩ := caseTests_tested branches (s.writes [(.push value, span)])
  have counted : tested.2.marks.count = s.marks.count + labels.length := by
    rw [length_map]
    exact congrArg Marks.count marks
  have handed : begun.marks = s.marks.fresh (labels.length + 1) := by
    show tested.2.marks.fresh 1 = _
    rw [marks, length_map]
    rfl
  have emitted : begun.ops.toList = s.ops.toList ++ (.push value, span) :: (code ++ [(.pop, span)]) := by
    rw [withMarks_ops, writes_ops, ops]
    simp
  have run {branches' : List Branch} {labelled : List (Label × Branch)}
      (tests : caseTests branches' (s.writes [(.push value, span)]) = (labelled, tested.2)) :
      openSwitch value branches' span s =
        let first := defaultCode branches' begun
        let bodies := caseBodies stop first.1 labelled (first.2.writes [(.jump stop, span)])
        (bodies.1, bodies.2.writes [(.mark stop, span)]) := by
    rw [openSwitch_eq, tests]
    dsimp only
    rw [counted]
  obtain ⟨_, ops₁, lowers₁⟩ := (defaultCode_compiles compiles).emits begun (tolerates_any)
  have inside : ∀ entry ∈ tested.1, Compiles any .statements entry.2.body.code := fun entry member =>
    compiles entry.2 (members entry member)
  obtain ⟨_, _, lowers₂⟩ := (caseBodies_compiles stop first.1 inside).emits between (tolerates_any)
  rw [handed] at lowers₁
  rw [run rfl] at stands
  have one : defaultCode branches' begun = first := by
    refine defaultCode_alike same begun ?_
    rw [handed, emitted]
    exact .default form lowers₂ stands
  have two := caseBodies_alike entries inside stop first.1 between (by
    rw [writes_ops, ops₁, emitted, append_assoc]
    exact .cases form lowers₁ stands)
  have tests' : caseTests branches' (s.writes [(.push value, span)]) = (_, tested.2) := Prod.ext rfl tests
  rw [run tests', run rfl, one]
  exact congrArg (fun bodies : Termination × Assembly => (bodies.1, bodies.2.writes [(.mark stop, span)])) two

theorem matchingCase?_alike : matchingCase? value index branches' = matchingCase? value index branches := by
  induction same generalizing index with
  | nil => rfl
  | cons first _ ih => rw [matchingCase?, matchingCase?, first.values, ih]

theorem findIdx?_alike : branches'.findIdx? (·.values?.isNone) = branches.findIdx? (·.values?.isNone) := by
  induction same with
  | nil => rfl
  | cons first _ ih => rw [findIdx?_cons, findIdx?_cons, first.values, ih]

theorem onlyCase_alike
    (compiles : ∀ branch ∈ branches, Compiles any .statements branch.body.code) (selected? : Option Nat)
    (index : Nat) (known : Termination) :
    Alike last .statements (onlyCase selected? index known branches) (onlyCase selected? index known branches') := by
  induction same generalizing index known with
  | nil => exact .refl _
  | @cons branch branch' rest _ first _ ih =>
    have later := ih fun branch member => compiles branch (.tail _ member)
    intro s stands
    rw [onlyCase] at stands ⊢
    rw [onlyCase]
    by_cases chosen : selected? = some index
    · rw [if_pos chosen] at stands ⊢
      rw [if_pos chosen]
      have passed := lt_of_chosen chosen
      have begins := (compiles branch (.head _)).emits s (tolerates_any)
      have quiet := (onlyCase_passed (index + 1) passed (branch.body.code s).1 rest (branch.body.code s).2).1
      have here : branch'.body.code s = branch.body.code s := by
        refine first.body.code s ?_
        rw [← quiet.marks]
        exact stands
      rw [Run.state_bind, here]
      exact later (index + 1) _ _ (begins.stands_behind stands)
    · rw [if_neg chosen] at stands ⊢
      rw [if_neg chosen, first.body.span]
      exact Alike.then (fun s => (discard_silent s).passes) (fun _ => later (index + 1) known) s stands

theorem switch_alike {value : Expr} (compiles : ∀ branch ∈ branches, Compiles any .statements branch.body.code) :
    Alike last .statements (switch value branches span) (switch value branches' span) := by
  refine .silent_bind (resolve_silent value none) fun value => ?_
  split
  · rw [constantSwitch, constantSwitch, matchingCase?_alike same, findIdx?_alike same]
    exact .lift (.then (fun s => (matchingCase?_silent 0 branches s).passes) fun _ =>
      onlyCase_alike same compiles _ 0 .none)
  · exact .lift (openSwitch_alike same compiles)

end Assembly

end DreamMaker
