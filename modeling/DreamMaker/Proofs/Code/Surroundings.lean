import DreamMaker.Proofs.Code.Growth
import DreamMaker.Proofs.Code.Labels

/-!
What is around a statement while it is compiled: the loops whose ends are still to come, the blocks of labels, and the
first loop in each of these blocks.
-/

namespace DreamMaker

open List Marks Option

/-! The first loop in the block of a label. -/

/-- The first loop in the block of a label, inside so many others. It is one of the loops around, or it has ended
before those inside the block started. -/
structure FirstLoop (around : List Nat) (ops : List Op) (start : Label) (first depth : Nat) : Prop where
  begun : [.mark start, .loopStart ⟨first⟩] <+ ops
  place : around.reverse[depth]? = some first ∨
    [.mark start, .loopStart ⟨first⟩, .loopEnd ⟨first + 2⟩] <+ ops ∧
      ∀ n ∈ around.take (around.length - depth),
        [.mark start, .loopStart ⟨first⟩, .loopEnd ⟨first + 2⟩, .loopStart ⟨n⟩] <+ ops

namespace FirstLoop

theorem emit (loop : FirstLoop around ops start first depth) (more : List Op) :
    FirstLoop around (ops ++ more) start first depth where
  begun := loop.begun.trans (sublist_append_left _ _)
  place := loop.place.imp_right fun ⟨ended, later⟩ =>
    ⟨ended.trans (sublist_append_left _ _), fun n member => (later n member).trans (sublist_append_left _ _)⟩

/-- A loop is the first one in all blocks that have had none. -/
theorem new (marked : .mark start ∈ ops) :
    FirstLoop (n :: around) (ops ++ [.loopStart ⟨n⟩]) start n around.length where
  begun := (singleton_sublist.2 marked).append (.refl [Op.loopStart ⟨n⟩])
  place := .inl (by simp)

theorem enter (loop : FirstLoop around ops start first depth) :
    FirstLoop (n :: around) (ops ++ [.loopStart ⟨n⟩]) start first depth where
  begun := (loop.emit _).begun
  place := by
    refine loop.place.imp (fun here => ?_) fun ⟨ended, later⟩ =>
      ⟨ended.trans (List.sublist_append_left _ _), ?_⟩
    · rw [List.reverse_cons, List.getElem?_append_left (List.getElem?_eq_some_iff.1 here).1, here]
    · intro other member
      have inside : other = n ∨ other ∈ around.take (around.length - depth) := by
        rcases Nat.lt_or_ge around.length depth with deeper | within
        · rw [List.length_cons, Nat.sub_eq_zero_of_le deeper] at member
          cases member
        · rwa [List.length_cons, Nat.succ_sub within, List.take_succ_cons, List.mem_cons] at member
      rcases inside with rfl | inside
      · exact ended.append (.refl [Op.loopStart ⟨other⟩])
      · exact (later other inside).trans (List.sublist_append_left _ _)

/-- When it ends, the first loop of a block ends inside the same loops. -/
theorem leave (loop : FirstLoop (n :: around) ops start first depth) :
    FirstLoop around (ops ++ [.loopEnd ⟨n + 2⟩]) start first depth where
  begun := (loop.emit _).begun
  place := by
    rcases loop.place with here | ⟨ended, later⟩
    · rw [reverse_cons] at here
      rcases Nat.lt_trichotomy depth around.length with inside | same | deeper
      · rw [getElem?_append_left (by simpa using inside)] at here
        exact .inl here
      · subst same
        obtain rfl : n = first := by simpa using here
        exact .inr ⟨loop.begun.append (.refl [Op.loopEnd ⟨n + 2⟩]), by simp⟩
      · rw [getElem?_eq_none (by simp; omega)] at here
        cases here
    · refine .inr ⟨ended.trans (sublist_append_left _ _), fun other member => ?_⟩
      refine (later other ?_).trans (sublist_append_left _ _)
      rcases Nat.lt_or_ge around.length depth with deeper | within
      · rw [Nat.sub_eq_zero_of_le (Nat.le_of_lt deeper)] at member
        cases member
      · rw [length_cons, Nat.succ_sub within]
        exact .tail _ member

end FirstLoop

/-- What is noted of the first loops in the blocks around is right. Names without a place have none. -/
structure FirstLoops (around : List Nat) (m : Marks) (ops : List Op) : Prop where
  blank : ∀ name label, m.label? name = some label → label.placed = false → label.next? = none
  found : ∀ name ∈ m.active, ∀ label next depth, m.label? name = some label →
    label.next? = some (next, depth) →
    ∃ first, next = ⟨first + 1⟩ ∧ FirstLoop around ops label.start first depth

namespace FirstLoops

variable {around : List Nat} {ops : List Op}

section

variable {m : Marks} (firsts : FirstLoops around m ops)

include firsts

theorem emit (more : List Op) : FirstLoops around m (ops ++ more) where
  blank := firsts.blank
  found name member label next depth known goesOn := by
    obtain ⟨first, same, loop⟩ := firsts.found name member label next depth known goesOn
    exact ⟨first, same, loop.emit more⟩

theorem escape (number : Nat) : FirstLoops around (m.escape number) ops :=
  ⟨firsts.blank, firsts.found⟩

/-- Names are placed or mentioned, but no loop is opened. -/
theorem rename (active : m'.active = m.active)
    (same : ∀ name label', m'.label? name = some label' → label'.next? = none ∨
      ∃ label, m.label? name = some label ∧ label.next? = label'.next? ∧ label.start = label'.start ∧
        label.placed = label'.placed) : FirstLoops around m' ops where
  blank name label' known unplaced := by
    obtain none | ⟨label, before, goesOn, _, placed⟩ := same name label' known
    · exact none
    · rw [← goesOn]
      exact firsts.blank name label before (placed.trans unplaced)
  found name member label' next depth known goesOn := by
    rw [active] at member
    obtain none | ⟨label, before, same, start, _⟩ := same name label' known
    · rw [none] at goesOn
      cases goesOn
    · rw [← start]
      exact firsts.found name member label next depth before (same.trans goesOn)

theorem mention (name : String) (span : Span) : FirstLoops around (m.mention name span) ops := by
  refine firsts.rename (m.mention_active name span) fun _ label' known => ?_
  rw [label?_mention] at known
  split at known
  · rename_i same
    cases some.inj known
    cases before : m.label? name with
    | none => exact .inl (by rw [labelOrNew, before]; rfl)
    | some label =>
      refine .inr ⟨label, same ▸ before, ?_⟩
      rw [labelOrNew, before]
      exact ⟨rfl, rfl, rfl⟩
  · exact .inr ⟨label', known, rfl, rfl, rfl⟩

section

variable (free : (m.label? name).any NamedLabel.placed = false)

include free

/-- A name that has not been placed has no loop. -/
theorem labelOrNew_blank {span : Span} : (m.labelOrNew name span).next? = none := by
  unfold labelOrNew
  cases before : m.label? name with
  | none => rfl
  | some label => exact firsts.blank name label before (by simpa [before] using free)

theorem place (span : Span) : FirstLoops around (m.place name span) ops := by
  refine firsts.rename (m.mention_active name span) fun _ label' known => ?_
  rw [label?_place] at known
  split at known
  · cases some.inj known
    exact .inl (firsts.labelOrNew_blank free)
  · exact .inr ⟨label', known, rfl, rfl, rfl⟩

/-- The block of a name that has just been placed has no loop yet. -/
theorem openBlock (span : Span) : FirstLoops around ((m.place name span).openBlock name) ops := by
  have placed := firsts.place free span
  have lookup (other : String) (label' : NamedLabel)
      (known : ((m.place name span).openBlock name).label? other = some label') :
      ∃ label, (m.place name span).label? other = some label ∧ label'.next? = label.next? ∧
        label'.start = label.start ∧ label'.placed = label.placed := by
    rw [label?_openBlock] at known
    split at known
    · obtain ⟨label, before, rfl⟩ := map_eq_some_iff.1 known
      exact ⟨label, before, rfl, rfl, rfl⟩
    · exact ⟨label', known, rfl, rfl, rfl⟩
  constructor
  · intro other label' known unplaced
    obtain ⟨label, before, goesOn, _, same⟩ := lookup other label' known
    rw [goesOn]
    exact placed.blank other label before (same ▸ unplaced)
  · intro other member label' next depth known goesOn
    obtain ⟨label, before, same, start, _⟩ := lookup other label' known
    rw [same] at goesOn
    rw [start]
    rcases mem_cons.1 member with rfl | outer
    · have none : label.next? = none := by
        rw [label?_place, if_pos rfl] at before
        cases some.inj before
        exact firsts.labelOrNew_blank free
      rw [none] at goesOn
      cases goesOn
    · exact placed.found other outer label next depth before goesOn

end

theorem openLoop (length : m.loops.length = around.length)
    (marked : ∀ name ∈ m.active, ∀ label, m.label? name = some label → .mark label.start ∈ ops)
    (placed : ∀ name ∈ m.active, ∀ label, m.label? name = some label → label.placed = true) (n : Nat) :
    FirstLoops (n :: around) (m.openLoop ⟨n + 1⟩ ⟨n + 2⟩) (ops ++ [.loopStart ⟨n⟩]) := by
  constructor
  · intro name label' known unplaced
    rw [label?_openLoop] at known
    obtain ⟨label, before, rfl⟩ := map_eq_some_iff.1 known
    split at unplaced
    · rename_i both
      have member := contains_iff_mem.1 (Bool.and_eq_true_iff.1 both).1
      rw [placed name member label before] at unplaced
      cases unplaced
    · rename_i other
      rw [if_neg other]
      exact firsts.blank name label before unplaced
  · intro name member label' next depth known goesOn
    rw [label?_openLoop] at known
    obtain ⟨label, before, rfl⟩ := map_eq_some_iff.1 known
    split at goesOn
    · rename_i both
      cases some.inj goesOn
      refine ⟨n, rfl, ?_⟩
      rw [if_pos both, length]
      exact .new (marked name member label before)
    · rename_i other
      rw [if_neg other]
      obtain ⟨first, same, loop⟩ := firsts.found name member label next depth before goesOn
      exact ⟨first, same, loop.enter⟩

end

theorem closeLoop (firsts : FirstLoops (n :: around) m ops) :
    FirstLoops around m.closeLoop (ops ++ [.loopEnd ⟨n + 2⟩]) where
  blank := firsts.blank
  found name member label next depth known goesOn := by
    obtain ⟨first, same, loop⟩ := firsts.found name member label next depth known goesOn
    exact ⟨first, same, loop.leave⟩

end FirstLoops

/-! Loops and blocks. -/

/-- The loops around have been started under these numbers, innermost first, and have not ended, nor have the
blocks around. -/
structure Around (pending : List Label) (around : List Nat) (m : Marks) (ops : List Op) : Prop where
  loops : m.loops.map (fun loop => (loop.next, loop.stop)) = around.map fun n => (⟨n + 1⟩, ⟨n + 2⟩)
  started : ∀ n ∈ around, .loopStart ⟨n⟩ ∈ ops ∧ ⟨n + 2⟩ ∈ pending
  blocks : ∀ name ∈ m.active, ∃ label, m.label? name = some label ∧ label.placed = true ∧
    .mark label.start ∈ ops ∧ ∃ stop ∈ pending, label.stop? = some stop
  firsts : FirstLoops around m ops

namespace Around

variable (inside : Around pending around m ops)

include inside

theorem length : m.loops.length = around.length := by
  simpa using congrArg List.length inside.loops

theorem emit (code : List Op) : Around pending around m (ops ++ code) where
  loops := inside.loops
  started n member := (inside.started n member).imp_left (mem_append_left _)
  blocks name member := by
    obtain ⟨label, known, placed, marked, ends⟩ := inside.blocks name member
    exact ⟨label, known, placed, mem_append_left _ marked, ends⟩
  firsts := inside.firsts.emit code

theorem wait (wider : ∀ label ∈ pending, label ∈ more) : Around more around m ops where
  loops := inside.loops
  started n member := (inside.started n member).imp_right (wider _)
  blocks name member := by
    obtain ⟨label, known, placed, marked, stop, ends, same⟩ := inside.blocks name member
    exact ⟨label, known, placed, marked, stop, wider stop ends, same⟩
  firsts := inside.firsts

theorem fresh (number : Nat) : Around pending around (m.fresh number) ops :=
  { inside with firsts := ⟨inside.firsts.blank, inside.firsts.found⟩ }

/-- The same is around later on, if nothing is wrong with the first loops. -/
theorem grow (grows : m.Grows m')
    (firsts : FirstLoops around m' (ops ++ code)) : Around pending around m' (ops ++ code) where
  loops := by
    rw [← inside.loops]
    have same := grows.loops
    generalize m.loops = loops, m'.loops = loops' at same
    induction same with
    | nil => rfl
    | cons grown _ ih => exact congrArg₂ List.cons (Prod.ext grown.next grown.stop) ih
  started n member := (inside.started n member).imp_left (mem_append_left _)
  blocks name member := by
    rw [grows.active] at member
    obtain ⟨label, known, placed, marked, stop, ends, same⟩ := inside.blocks name member
    obtain ⟨label', known', grown⟩ := grows.labels name label known
    exact ⟨label', known', grown.placed placed, by rw [grown.start]; exact mem_append_left _ marked, stop, ends,
      (grown.stop placed).trans same⟩
  firsts := firsts

theorem openBlock (free : (m.label? name).any NamedLabel.placed = false) (span : Span) :
    Around (⟨(m.place name span).count⟩ :: pending) around ((m.place name span).openBlock name)
      (ops ++ [.mark (m.startOf name)]) where
  loops := by
    rw [← inside.loops]
    exact congrArg (List.map _) (m.mention_loops name span)
  started n member := (inside.started n member).imp (mem_append_left _) (.tail _)
  blocks other member := by
    rcases mem_cons.1 member with rfl | outer
    · refine ⟨{ m.labelOrNew other span with
        placed := true, depth := m.loops.length, stop? := some ⟨(m.place other span).count⟩ }, ?_, rfl, ?_, _,
        .head _, rfl⟩
      · rw [label?_openBlock, if_pos rfl, label?_place, if_pos rfl]
        rfl
      · show Op.mark (m.labelOrNew other span).start ∈ _
        rw [labelOrNew_start]
        simp
    · have outer : other ∈ (m.mention name span).active := outer
      rw [mention_active] at outer
      obtain ⟨label, known, placed, marked, stop, ends, same⟩ := inside.blocks other outer
      have differs : other ≠ name := by
        rintro rfl
        simp [known, placed] at free
      refine ⟨label, ?_, placed, mem_append_left _ marked, stop, .tail _ ends, same⟩
      rw [label?_openBlock, if_neg differs, label?_place, if_neg differs, known]
  firsts := (inside.firsts.openBlock free span).emit _

theorem openLoop (ends : ⟨n + 2⟩ ∈ pending) :
    Around pending (n :: around) (m.openLoop ⟨n + 1⟩ ⟨n + 2⟩) (ops ++ [.loopStart ⟨n⟩]) where
  loops := by
    rw [map_cons, ← inside.loops]
    rfl
  started other member := by
    rcases mem_cons.1 member with rfl | outer
    · exact ⟨by simp, ends⟩
    · exact (inside.started other outer).imp_left (mem_append_left _)
  blocks name member := by
    obtain ⟨label, known, placed, marked, stop, pends, same⟩ := inside.blocks name member
    rw [label?_openLoop, known, map_some]
    refine ⟨_, rfl, ?_, ?_, stop, pends, ?_⟩
    · split <;> exact placed
    · split <;> exact mem_append_left _ marked
    · split <;> exact same
  firsts := by
    refine inside.firsts.openLoop inside.length (fun name member label known => ?_)
      (fun name member label known => ?_) n
    all_goals
      obtain ⟨label', known', placed, marked, _⟩ := inside.blocks name member
      obtain rfl : label = label' := some.inj (known.symm.trans known')
    · exact marked
    · exact placed

/-- Nothing is around a part that is run on its own. -/
theorem detach : Around pending [] m.detach ops where
  loops := rfl
  started := nofun
  blocks := nofun
  firsts := ⟨inside.firsts.blank, nofun⟩

end Around

/-- Every rule notes the first loops in the blocks around as they are. -/
theorem Lowers.firstLoops (lowers : Lowers mode piece m code t m') (inside : Around pending around m ops) :
    FirstLoops around m' (ops ++ code.map Prod.fst) := by
  -- What is around stays the same from the beginning of a part to its end, so only the first loops are followed.
  have next {piece : Piece} {m m' : Marks} {code : Listing} {t : Termination} {pending : List Label}
      {around : List Nat} {ops : List Op} (lowers : Lowers mode piece m code t m')
      (firsts : ∀ {pending around ops}, Around pending around m ops →
        FirstLoops around m' (ops ++ code.map Prod.fst))
      (inside : Around pending around m ops) : Around pending around m' (ops ++ code.map Prod.fst) :=
    inside.grow lowers.grows (firsts inside)
  induction lowers generalizing pending around ops with
  | nothing | line | halted | leave | continueLoop | noRounds | noCases =>
    exact inside.firsts.emit _
  | breakLoop | continueLabel =>
    exact (inside.firsts.escape _).emit _
  | @breakLabel m name =>
    have broken : FirstLoops around (m.change name fun label => { label with broken := true }) ops := by
      refine inside.firsts.rename rfl fun other label' known => .inr ?_
      rw [label?_break] at known
      split at known
      · obtain ⟨label, before, rfl⟩ := map_eq_some_iff.1 known
        exact ⟨label, before, rfl, rfl, rfl⟩
      · exact ⟨label', known, rfl, rfl, rfl⟩
    exact (broken.escape _).emit _
  | @goto m name a =>
    exact ((inside.firsts.mention name a).escape _).emit _
  | label free =>
    exact (inside.firsts.place free _).emit _
  | @labelBlock m m' name body t a b free lowers ih =>
    have inner := ih (inside.openBlock free a)
    have closed : FirstLoops around m'.closeBlock _ :=
      ⟨inner.blank, fun other member => inner.found other (mem_of_mem_tail member)⟩
    simpa using closed.emit [.mark ⟨(m.place name a).count⟩]
  | append first second _ ih₁ ih₂ =>
    rw [map_append, ← append_assoc]
    exact ih₂ (next first ih₁ inside)
  | scope _ ih =>
    simpa using (ih (inside.emit [.enterScope])).emit [.exitScope]
  | @skip m m' check body t a _ _ ih =>
    simpa using (ih ((inside.fresh 1).emit (check.map Prod.fst))).emit [.mark ⟨m.count⟩]
  | @fork m m₁ m₂ other stop head link first second t₁ t₂ a _ lowers _ ih₁ ih₂ =>
    have one := next lowers ih₁ ((inside.fresh 2).emit (head.map Prod.fst))
    simpa using (ih₂ (one.emit (link.map Prod.fst))).emit [.mark stop]
  | @loop piece m m' head tail _ body t a b c d form _ ih =>
    have handed : Around (⟨m.count + 2⟩ :: pending) around (m.fresh 3) ops :=
      (inside.fresh 3).wait fun _ => mem_cons_of_mem _
    have opened := (handed.openLoop (.head _)).emit (head.map Prod.fst ++ [.enterScope])
    have inner := (ih opened).emit (.exitScope :: tail.map Prod.fst)
    simpa using inner.closeLoop
  | @enumerator m m' kind body t a b c d values _ _ ih =>
    have created := inside.emit ((pushes values).map Prod.fst ++ [.createEnumerator kind, .enterScope])
    simpa using (ih created).emit [.exitScope, .destroyEnumerator]
  | @switch m m₁ m₂ value labels tests _ _ t₁ t₂ a b c d form lowers _ ih₁ ih₂ =>
    let stop : Label := ⟨m.count + labels.length⟩
    have one :=
      next lowers ih₁ ((inside.fresh (labels.length + 1)).emit (.push value :: (tests.map Prod.fst ++ [.pop])))
    simpa using (ih₂ (one.emit [.jump stop])).emit [.mark stop]
  | @case m m₁ m₂ stop label labels known first _ t₁ t₂ a b lowers _ ih₁ ih₂ =>
    have one := next lowers ih₁ (inside.emit [.mark label])
    simpa using ih₂ (one.emit [.jump stop])
  | @spawn m m' value null body t a b c d _ lowers ih =>
    have inner := ih ((inside.fresh 1).detach.emit [.push value, .spawn ⟨m.count⟩])
    have left : FirstLoops around (m'.attach m)
        (ops ++ (.push value :: .spawn ⟨m.count⟩ :: body.map Prod.fst)) := by
      refine ⟨inner.blank, fun name member label next depth known goesOn => ?_⟩
      obtain ⟨label', known', placed, _⟩ := inside.blocks name member
      obtain ⟨_, known₂, grown⟩ := lowers.grows.labels name label' known'
      rw [grown.spared placed not_mem_nil] at known₂
      obtain rfl : label = label' := some.inj (known.symm.trans known₂)
      exact (inside.firsts.emit _).found name member label next depth known' goesOn
    simpa using left.emit [.push null, .return_, .mark ⟨m.count⟩]
  | forget _ ih => exact ih inside

/-- The same loops and blocks are around behind a piece of code. -/
theorem Lowers.around (lowers : Lowers mode piece m code t m') {around : List Nat}
    (inside : Around pending around m ops) : Around pending around m' (ops ++ code.map Prod.fst) :=
  inside.grow lowers.grows (lowers.firstLoops inside)

end DreamMaker
