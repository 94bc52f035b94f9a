import Mathlib.Data.List.Nodup
import DreamMaker.Proofs.Code.Settled
import DreamMaker.Proofs.Emission.Proc

namespace DreamMaker

open List

variable {count : Nat} {next : Label} {head tail : Listing}

/-- All labels are in order, where some are still to be placed. -/
def Tidy (pending : List Label) (m : Marks) (code : Listing) : Prop := Settles (placedLabels code ++ pending) m code

namespace Tidy

section

variable (tidy : Tidy pending m code)

include tidy

/-- Code is emitted that places nothing. -/
theorem emit (more : Listing) (places : placedLabels more = [])
    (within : ∀ target ∈ targetLabels more, target ∈ placedLabels code ++ pending) :
      Tidy pending m (code ++ more) := by
  rw [Tidy, placedLabels_append, places, append_nil]
  exact Settles.emit tidy fun target member => .inl (within target member)

theorem emit_inert (more : Listing) (places : placedLabels more = [])
    (jumps : targetLabels more = []) : Tidy pending m (code ++ more) := by
  refine tidy.emit more places ?_
  rw [jumps]
  exact forall_mem_nil _

theorem jump (inside : target ∈ placedLabels code ++ pending)
    (span : Span) : Tidy pending m (code ++ [(.jump target, span)]) := by
  refine tidy.emit _ rfl ?_
  rintro _ (_ | ⟨_, ⟨⟩⟩)
  exact inside

theorem goto (name : String) (span : Span) :
    Tidy pending (m.mention name span) (code ++ [(.jump (m.startOf name), span)]) := by
  have same : placedLabels (code ++ [(.jump (m.startOf name), span)]) = placedLabels code := by
    rw [placedLabels_append]
    exact append_nil _
  rw [Tidy, same]
  exact Settles.goto tidy name span

end

/-- The label that is placed next. -/
theorem put (tidy : Tidy (label :: pending) m code) (op : Op) (span : Span)
    (places : op.placed? = some label) (jumps : op.target? = none) : Tidy pending m (code ++ [(op, span)]) := by
  have placed : placedLabels [(op, span)] = [label] := by simp [placedLabels, places]
  have same : placedLabels code ++ label :: pending = placedLabels (code ++ [(op, span)]) ++ pending := by
    rw [placedLabels_append, placed, append_assoc, singleton_append]
  rw [Tidy, ← same]
  exact Settles.emit tidy (by simp [targetLabels, jumps])

theorem fresh (tidy : Tidy pending m code) (labels : List Label) (number : Nat) (distinct : labels.Nodup)
    (new : ∀ label ∈ labels, m.count ≤ label.index ∧ label.index < m.count + number) :
    Tidy (labels ++ pending) (m.fresh number) code := by
  refine (Settles.fresh tidy labels number distinct new).perm ?_
  rw [← append_assoc, ← append_assoc]
  exact perm_append_comm.append_right pending

theorem place (tidy : Tidy pending m code) (free : (m.label? name).any NamedLabel.placed = false)
    (span : Span) : Tidy pending (m.place name span) (code ++ [(.mark (m.startOf name), span)]) := by
  have placed : Tidy (m.startOf name :: pending) (m.place name span) code :=
    (Settles.place tidy free span).perm perm_middle.symm
  exact placed.put _ span rfl rfl

theorem openBlock (tidy : Tidy pending m code) (name : String) :
    Tidy (⟨m.count⟩ :: pending) (m.openBlock name) code :=
  (Settles.openBlock tidy name).perm perm_middle.symm

end Tidy

/-! Labels of forks and loops. -/

section

variable (fork : Fork count other stop head link)

include fork

theorem Fork.tidy_head (tidy : Tidy (other :: stop :: pending) m code) :
    Tidy (other :: stop :: pending) m (code ++ head) := by
  cases fork <;> exact tidy.emit _ rfl (by simp [targetLabels, Op.target?])

theorem Fork.tidy_link (tidy : Tidy (other :: stop :: pending) m code) : Tidy (stop :: pending) m (code ++ link) := by
  cases fork with
  | @condition _ _ _ c d =>
    have jumped : Tidy (⟨count + 1⟩ :: ⟨count⟩ :: pending) m (code ++ [(.jump ⟨count⟩, c)]) :=
      tidy.emit _ rfl (by simp [targetLabels, Op.target?])
    simpa using jumped.put (.mark ⟨count + 1⟩) d rfl rfl
  | @handler _ _ b c d =>
    have jumped : Tidy (⟨count⟩ :: ⟨count + 1⟩ :: pending) m
      (code ++ [(.tryEnd, b), (.jump ⟨count + 1⟩, c)]) :=
      tidy.emit _ rfl (by simp [targetLabels, Op.target?])
    simpa using jumped.put (.mark ⟨count⟩) d rfl rfl

theorem Fork.labels : [other, stop].Nodup ∧ ∀ label ∈ [other, stop], count ≤ label.index ∧
    label.index < count + 2 := by
  cases fork <;> simp

end

/-- The tests of a switch jump to its cases, which are placed before its end. -/
theorem SwitchTests.tidy {labels : List Label} (form : SwitchTests m.count labels tests)
    (tidy : Tidy pending m code) (value : Term) (a b : Span) :
    Tidy (labels ++ ⟨m.count + labels.length⟩ :: pending) (m.fresh (labels.length + 1))
      (code ++ (.push value, a) :: (tests ++ [(.pop, b)])) := by
  obtain ⟨places, within, distinct, bounds⟩ := form.labels
  have handed : Tidy (labels ++ ⟨m.count + labels.length⟩ :: pending) (m.fresh (labels.length + 1)) code := by
    rw [append_cons]
    refine tidy.fresh (labels ++ [⟨m.count + labels.length⟩]) (labels.length + 1) ?_ fun label member => ?_
    · refine nodup_append.2 ⟨distinct, by simp, fun one first _ second same => ?_⟩
      have bound := (bounds one first).2
      rw [same, mem_singleton.1 second] at bound
      exact Nat.lt_irrefl _ bound
    · rcases mem_append.1 member with member | member
      · have bound := bounds label member
        omega
      · rw [mem_singleton.1 member]
        exact ⟨Nat.le_add_right _ _, Nat.lt_succ_self _⟩
  refine handed.emit _ ?_ fun target member => ?_
  · show placedLabels (tests ++ [(.pop, b)]) = []
    rw [placedLabels_append, places]
    rfl
  · have inside : target ∈ targetLabels (tests ++ [(.pop, b)]) := member
    rw [targetLabels_append, mem_append] at inside
    rcases inside with inside | inside
    · exact mem_append_right _ (mem_append_left _ (within target inside))
    · cases inside

/-- The jump back to the start of a loop. -/
theorem Pause.tidy_back (form : Pause pause) {span : Span}
    (tidy : Tidy pending m code) (started : start ∈ placedLabels code) :
    Tidy pending m (code ++ (pause ++ [(.jump start, span)])) := by
  obtain ⟨places, jumps⟩ := form.inert
  refine tidy.emit _ ?_ ?_
  · rw [placedLabels_append, places]
    rfl
  · rw [targetLabels_append, jumps]
    rintro _ (_ | ⟨_, ⟨⟩⟩)
    exact mem_append_left _ started

/-- Code around the body of a loop leaves labels in order, some of which are placed behind the body. -/
structure TidyLoop (start next stop : Label) (head tail : Listing) (waiting : List Label) : Prop where
  opens : ∀ pending m code, Tidy (next :: stop :: pending) m code → Tidy (waiting ++ pending) m (code ++ head)
  goesOn : next ∈ placedLabels head ++ waiting
  ends : stop ∈ waiting
  closes : ∀ pending m code, Tidy (waiting ++ pending) m code → start ∈ placedLabels code →
    Tidy (stop :: pending) m (code ++ tail)

theorem TidyLoop.before (pauses : Pause pause)
    (places : placedLabels head = []) (jumps : ∀ target ∈ targetLabels head, target = stop) :
    TidyLoop start next stop ((.loopContinue next, a) :: head) (pause ++ [(.jump start, b)]) [stop] where
  opens pending m code tidy := by
    have placed := tidy.put (.loopContinue next) a rfl rfl
    rw [append_cons]
    refine placed.emit _ places fun target member => ?_
    rw [jumps target member]
    exact mem_append_right _ (.head _)
  goesOn := .head _
  ends := .head _
  closes pending m code tidy started := pauses.tidy_back tidy started

theorem TidyLoop.behind (places : placedLabels head = [])
    (jumps : ∀ target ∈ targetLabels head, target = stop) (inert : placedLabels tail = [])
    (within : ∀ target ∈ targetLabels tail, target = start ∨ target = stop) :
    TidyLoop start next stop head ((.loopContinue next, a) :: tail) [next, stop] where
  opens pending m code tidy := by
    refine tidy.emit _ places fun target member => ?_
    rw [jumps target member]
    exact mem_append_right _ (.tail _ (.head _))
  goesOn := mem_append_right _ (.head _)
  ends := .tail _ (.head _)
  closes pending m code tidy started := by
    have placed := tidy.put (.loopContinue next) a rfl rfl
    rw [append_cons]
    refine placed.emit _ inert fun target member => ?_
    rw [placedLabels_append]
    rcases within target member with rfl | rfl
    · exact mem_append_left _ (mem_append_left _ started)
    · exact mem_append_right _ (.head _)

/-- Where the next round of a loop starts is placed before the body or behind it. -/
theorem LoopForm.tidy (form : LoopForm start next stop piece head tail certain) :
    ∃ waiting, TidyLoop start next stop head tail waiting := by
  cases form with
  | endless pause => exact ⟨_, .before pause rfl nofun⟩
  | while_ pause => exact ⟨_, .before pause rfl (by simp [targetLabels, Op.target?])⟩
  | each pause => exact ⟨_, .before pause rfl (by simp [targetLabels, Op.target?])⟩
  | doOnce => exact ⟨_, .behind rfl nofun rfl nofun⟩
  | @doWhile value pause a b c d pauses =>
    obtain ⟨places, jumps⟩ := pauses.inert
    refine ⟨_, .behind rfl nofun ?_ ?_⟩
    · show placedLabels (pause ++ [(.jump start, d)]) = []
      rw [placedLabels_append, places]
      rfl
    · show ∀ target ∈ stop :: targetLabels (pause ++ [(.jump start, d)]), _
      rw [targetLabels_append, jumps]
      simp [targetLabels, Op.target?]
  | @forever step pause a b steps pauses =>
    obtain ⟨places, jumps⟩ := pauses.inert
    obtain ⟨places', jumps'⟩ := steps.inert
    refine ⟨_, .behind rfl nofun ?_ ?_⟩
    · simp only [placedLabels_append, places, places']
      rfl
    · simp only [targetLabels_append, jumps, jumps']
      simp [targetLabels, Op.target?]
  | @for_ value step pause a b c d steps pauses =>
    obtain ⟨places, jumps⟩ := pauses.inert
    obtain ⟨places', jumps'⟩ := steps.inert
    refine ⟨_, .behind rfl (by simp [targetLabels, Op.target?]) ?_ ?_⟩
    · simp only [placedLabels_append, places, places']
      rfl
    · simp only [targetLabels_append, jumps, jumps']
      simp [targetLabels, Op.target?]

/-! Whole pieces of code. -/

/-- The labels that a piece of code is to place. -/
def Piece.labels : Piece → List Label
  | .cases _ labels _ => labels
  | _ => []

/-- What stands in front of the body of a loop. -/
theorem LoopForm.tidy_head (form : LoopForm ⟨m.count⟩ ⟨m.count + 1⟩ ⟨m.count + 2⟩ piece head tail certain)
    (tidy : Tidy (piece.labels ++ pending) m code) (a : Span) :
    ∃ waiting, TidyLoop ⟨m.count⟩ ⟨m.count + 1⟩ ⟨m.count + 2⟩ head tail waiting ∧
      Tidy (waiting ++ pending)
      ((m.fresh 3).openLoop ⟨m.count + 1⟩ ⟨m.count + 2⟩) (code ++ [(.loopStart ⟨m.count⟩, a)] ++ head) := by
  have plain : piece.labels = [] := by cases form <;> rfl
  rw [plain] at tidy
  obtain ⟨waiting, rounds⟩ := form.tidy
  have handed := tidy.fresh [⟨m.count⟩, ⟨m.count + 1⟩, ⟨m.count + 2⟩] 3 (by simp) (by simp)
  have started := handed.put (.loopStart ⟨m.count⟩) a rfl rfl
  have headed := rounds.opens pending _ _ started
  refine ⟨waiting, rounds, Settles.openLoop headed ?_ (mem_append_right _ (mem_append_left _ rounds.ends))⟩
  rw [placedLabels_append]
  exact mem_append.2 ((mem_append.1 rounds.goesOn).imp (mem_append_right _) (mem_append_left _))

/-- The labels that others place at which a piece of code goes on. -/
def Piece.exits : Piece → List Label
  | .cases stop _ _ => [stop]
  | _ => []

/-- Every rule leaves labels in order. -/
theorem Lowers.tidy
    (lowers : Lowers mode piece m code t m') (pending : List Label) (before : Listing)
    (exits : ∀ label ∈ piece.exits, label ∈ pending) (tidy : Tidy (piece.labels ++ pending) m before) :
    Tidy pending m' (before ++ code) := by
  induction lowers generalizing pending before with
  | nothing | noRounds | noCases =>
    rwa [append_nil]
  | line line =>
    exact tidy.emit_inert _ line.inert.1 line.inert.2
  | halted values _ =>
    exact tidy.emit_inert _ placedLabels_pushes targetLabels_pushes
  | leave =>
    exact tidy.emit_inert _ rfl rfl
  | @breakLoop m loop outer a around =>
    have inside := tidy.loops loop (by rw [around]; exact .head _)
    exact Settles.escape (tidy.jump inside.2 a) 1
  | @breakLabel m name label stop a _ known placed around ends =>
    have jumped := tidy.jump ((tidy.known name label known).stop stop ends) a
    have broken := Settles.change jumped name (fun label => { label with broken := true })
      (fun _ => ⟨rfl, rfl, rfl⟩) fun label known => by
        have settled := Settles.known jumped name label known
        exact ⟨settled.placed, settled.unplaced, settled.stop, settled.next⟩
    exact broken.escape _
  | @continueLoop m loop outer a around =>
    have inside := tidy.loops loop (by rw [around]; exact .head _)
    exact tidy.jump inside.1 a
  | @continueLabel m name label next depth a _ known placed around goesOn inner =>
    exact Settles.escape (tidy.jump ((tidy.known name label known).next next depth goesOn) a) _
  | goto =>
    exact Settles.escape (tidy.goto _ _) _
  | label free =>
    exact tidy.place free _
  | @labelBlock m m' name body t a b free _ ih =>
    have opened := (tidy.place free a).openBlock name
    have inner := ih (⟨(m.place name a).count⟩ :: pending) _ (forall_mem_nil _) opened
    have closed : Tidy _ m'.closeBlock _ := Settles.around inner inner.loops
    simpa using closed.put (.mark ⟨(m.place name a).count⟩) b rfl rfl
  | append _ _ _ first second =>
    rw [← append_assoc]
    exact second pending _ (forall_mem_nil _) (first pending before (forall_mem_nil _) tidy)
  | @scope m m' body t a b _ ih =>
    have entered : Tidy pending m (before ++ [(.enterScope, a)]) := tidy.emit_inert _ rfl rfl
    have left : Tidy pending m' (before ++ [(.enterScope, a)] ++ body ++ [(.exitScope, b)]) :=
      (ih pending _ (forall_mem_nil _) entered).emit_inert _ rfl rfl
    simpa using left
  | @skip m m' _ body t a form _ ih =>
    have handed := tidy.fresh [⟨m.count⟩] 1 (by simp) (by simp)
    have checked := handed.emit _ form.labels.1 (by simp [form.labels.2])
    simpa using (ih (⟨m.count⟩ :: pending) _ (forall_mem_nil _) checked).put (.mark ⟨m.count⟩) a rfl rfl
  | @fork m m₁ m₂ other stop head _ first second t₁ t₂ a fork _ _ ih₁ ih₂ =>
    have handed := tidy.fresh [other, stop] 2 fork.labels.1 fork.labels.2
    have one := ih₁ (other :: stop :: pending) _ (forall_mem_nil _) (fork.tidy_head handed)
    have two := ih₂ (stop :: pending) _ (forall_mem_nil _) (fork.tidy_link one)
    simpa using two.put (.mark stop) a rfl rfl
  | @loop piece m m' head _ _ body t a b c d form _ ih =>
    obtain ⟨waiting, rounds, opened⟩ := form.tidy_head tidy a
    have entered := opened.emit_inert [(.enterScope, b)] rfl rfl
    have left := (ih (waiting ++ pending) _ (forall_mem_nil _) entered).emit_inert [(.exitScope, c)] rfl rfl
    have closed := Settles.closeLoop left
    have tailed := rounds.closes pending _ _ closed (by simp [placedLabels, Op.placed?])
    simpa using tailed.put (.loopEnd ⟨m.count + 2⟩) d rfl rfl
  | @enumerator m m' kind body t a b c d values _ _ ih =>
    have created : Tidy pending m (before ++ (pushes values ++ [(.createEnumerator kind, a), (.enterScope, b)])) := by
      refine tidy.emit_inert _ ?_ ?_
      · rw [placedLabels_append, placedLabels_pushes]
        rfl
      · rw [targetLabels_append, targetLabels_pushes]
        rfl
    have destroyed := (ih pending _ (forall_mem_nil _) created).emit_inert
      [(.exitScope, c), (.destroyEnumerator, d)] rfl rfl
    simpa using destroyed
  | @switch m m₁ m₂ value labels _ _ _ t₁ t₂ a b c d form _ _ ih₁ ih₂ =>
    have first := ih₁ (labels ++ ⟨m.count + labels.length⟩ :: pending) _ (forall_mem_nil _)
      (form.tidy tidy value a b)
    have jumped := first.jump (mem_append_right _ (mem_append_right _ (.head _))) c
    have cased := ih₂ (⟨m.count + labels.length⟩ :: pending) _ (by simp [Piece.exits]) jumped
    simpa using cased.put (.mark ⟨m.count + labels.length⟩) d rfl rfl
  | @case m m₁ m₂ stop label labels known first _ t₁ t₂ a b _ _ ih₁ ih₂ =>
    have one := ih₁ (labels ++ pending) _ (forall_mem_nil _) (tidy.put (.mark label) a rfl rfl)
    have jumped := one.jump (mem_append_right _ (mem_append_right _ (exits stop (.head _)))) b
    simpa using ih₂ pending _ exits jumped
  | @spawn m m' value null body t a b c d e _ ih =>
    have handed : Tidy (⟨m.count⟩ :: pending) (m.fresh 1) before := tidy.fresh [⟨m.count⟩] 1 (by simp) (by simp)
    have begun := handed.emit [(.push value, a), (.spawn ⟨m.count⟩, b)] rfl
      (by simp [targetLabels, Op.target?])
    have inner := ih (⟨m.count⟩ :: pending) _ (forall_mem_nil _) (Settles.around begun (forall_mem_nil _))
    have returned := inner.emit_inert [(.push null, c), (.return_, d)] rfl rfl
    have attached : Tidy (⟨m.count⟩ :: pending) (m'.attach m) _ := Settles.around returned fun loop member => by
      obtain ⟨goesOn, ends⟩ := begun.loops loop member
      simp only [placedLabels_append, mem_append] at goesOn ends ⊢
      exact ⟨goesOn.imp_left (.inl ∘ .inl), ends.imp_left (.inl ∘ .inl)⟩
    simpa using attached.put (.mark ⟨m.count⟩) e rfl rfl
  | forget _ ih => exact ih pending before exits tidy

theorem tidy_initial : Tidy [] Marks.initial [] where
  bounded := nofun
  once := .nil
  loops := nofun
  starts := nofun
  known := nofun
  distinct := nofun
  targets := nofun

/-- The labels of a proc have been handed out, none is placed twice, and every target is placed, unless its name is
reported as unknown. -/
structure CompiledProc.LabelsInOrder (compiled : CompiledProc) (reports : Array Report) : Prop where
  bounded : ∀ label ∈ placedLabels compiled.ops.toList ++ targetLabels compiled.ops.toList,
    label.index < compiled.labelCount
  once : ∀ label, (placedLabels compiled.ops.toList).count label ≤ 1
  found : ∀ target ∈ targetLabels compiled.ops.toList, (placedLabels compiled.ops.toList).count target = 1 ∨
    ∃ (name : String) (span : Span), (.jump target, span) ∈ compiled.ops.toList ∧
      .located .itemDoesntExist span s!"Unknown label {name}" ∈ reports

/-- Whatever fails while a proc is compiled, its labels are in order. -/
theorem ProcDefinition.compile_labelsInOrder (definition : ProcDefinition) (tree : TypeTree) :
    (definition.compile tree).1.LabelsInOrder (definition.compile tree).2.2 := by
  obtain ⟨_, lowers, count, missing⟩ := ProcDefinition.compile_lowers (fun _ _ => Mode.any_admits) tolerates_any
  have tidy := lowers.tidy [] [] nofun tidy_initial
  rw [Tidy, append_nil] at tidy
  refine ⟨fun label member => ?_, nodup_iff_count_le_one.1 tidy.once, fun target member => ?_⟩
  · rw [← count]
    rcases mem_append.1 member with member | member
    · exact tidy.bounded label member
    · obtain inside | ⟨name, named, known, _, rfl⟩ := tidy.targets label member
      · exact tidy.bounded label inside
      · exact tidy.starts name named known
  · refine (tidy.targets target member).imp (count_eq_one_of_mem tidy.once) ?_
    rintro ⟨name, label, known, unplaced, rfl⟩
    have jumped := ((tidy.known name label known).unplaced unplaced).2
    exact ⟨label.name, label.firstUse, jumped, missing label (Marks.label?_mem known) unplaced⟩

end DreamMaker
