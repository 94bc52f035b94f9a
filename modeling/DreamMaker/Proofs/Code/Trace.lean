import DreamMaker.Proofs.Code.Annotation
import DreamMaker.Proofs.Code.Growth
import DreamMaker.Proofs.Code.Reach

namespace DreamMaker

open List Termination

variable {head : Listing}

/-- A label at which a loop goes on stands behind the body of the loop, before its condition. -/
def BottomTested (code : Listing) (label : Label) : Prop :=
  ∃ value stop a b c d,
    [(.exitScope, a), (.loopContinue label, b), (.push value, c), (.jumpIfFalse stop, d)] <:+: code

namespace BottomTested

variable (tested : BottomTested part label)

include tested

theorem mono (within : part <:+: code) : BottomTested code label := by
  obtain ⟨value, stop, a, b, c, d, found⟩ := tested
  exact ⟨value, stop, a, b, c, d, found.trans within⟩

theorem before (rest : Listing) : BottomTested (part ++ rest) label :=
  tested.mono (prefix_append part rest).isInfix

theorem behind : BottomTested (first ++ part) label :=
  tested.mono (suffix_append first part).isInfix

theorem after (entry : Op × Span) : BottomTested (entry :: part) label :=
  tested.mono (suffix_cons entry part).isInfix

end BottomTested

namespace Marks

variable {m : Marks}

/-- Everything that code may jump to is live or let pass, but for the ends of loops and blocks. -/
structure Known (live passes : Label → Prop) (m : Marks) : Prop where
  next : ∀ loop ∈ m.loops, live loop.next ∨ passes loop.next
  start : m.Starts live
  again : ∀ name label next depth, m.label? name = some label → label.next? = some (next, depth) →
    live next ∨ passes next

/-- The ends of the loops and blocks around are live if something jumps to them. -/
structure Escapes (live : Label → Prop) (m : Marks) : Prop where
  loop : ∀ loop ∈ m.loops, loop.escaped = true → live loop.stop
  block : ∀ name label stop, m.label? name = some label → label.placed = true → name ∈ m.active →
    label.broken = true → label.stop? = some stop → live stop

theorem Escapes.before (escapes : m'.Escapes live) (grows : m.Grows m') : m.Escapes live where
  loop loop member escaped := by
    obtain ⟨_, bound, rfl⟩ := getElem_of_mem member
    have grown := grows.loops.get bound (grows.loops.length_eq ▸ bound)
    rw [get_eq_getElem] at grown
    rw [← grown.stop]
    exact escapes.loop _ (getElem_mem _) (grown.escaped escaped)
  block name label stop known placed member broken ends := by
    obtain ⟨label', known', grown⟩ := grows.labels name label known
    exact escapes.block name label' stop known' (grown.placed placed) (grows.active ▸ member)
      (grown.broken placed broken)
      ((grown.stop placed).trans ends)

/-- No loop and no block is around. -/
theorem Escapes.outermost (grows : m.Grows m') (loops : m.loops = []) (active : m.active = []) : m'.Escapes live := by
  have none_open := grows.loops
  rw [loops] at none_open
  refine ⟨fun _ member => ?_, fun _ _ _ _ _ member => ?_⟩
  · rw [forall₂_nil_left_iff.1 none_open] at member
    cases member
  · rw [grows.active, active] at member
    cases member

theorem mem_escape (member : loop ∈ (m.escape number).loops) : ∃ before ∈ m.loops, before.next = loop.next := by
  rcases mem_append.1 member with taken | dropped
  · obtain ⟨before, within, rfl⟩ := mem_map.1 taken
    exact ⟨before, mem_of_mem_take within, rfl⟩
  · exact ⟨loop, mem_of_mem_drop dropped, rfl⟩

namespace Known

variable (known : m.Known live passes)

include known

theorem escape (number : Nat) : (m.escape number).Known live passes where
  next loop member := by
    obtain ⟨before, within, same⟩ := mem_escape member
    exact same ▸ known.next before within
  start := known.start
  again := known.again

/-- What is noted of a name may change, but for where it starts and goes on. -/
theorem change
    (keeps : ∀ label, (f label).name = label.name ∧ (f label).start = label.start ∧
      (f label).next? = label.next?) :
    (m.change name f).Known live passes where
  next := known.next
  start := known.start.change fun label => ⟨(keeps label).1, (keeps label).2.1⟩
  again other label next depth changed again := by
    rw [label?_change m fun label => (keeps label).1] at changed
    split at changed
    · obtain ⟨before, same, rfl⟩ := Option.map_eq_some_iff.1 changed
      exact known.again other before next depth same ((keeps before).2.2 ▸ again)
    · exact known.again other label next depth changed again

theorem mention (span : Span) (alive : live (m.startOf name)) : (m.mention name span).Known live passes where
  next := by
    rw [mention_loops]
    exact known.next
  start := known.start.mention span alive
  again other label next depth found again := by
    rw [label?_mention] at found
    split at found
    · cases found
      unfold labelOrNew at again
      cases named : m.label? name with
      | some label =>
        rw [named] at again
        exact known.again name label next depth named again
      | none =>
        rw [named] at again
        cases again
    · exact known.again other label next depth found again

theorem place (span : Span) (alive : live (m.startOf name)) : (m.place name span).Known live passes :=
  (known.mention span alive).change fun _ => ⟨rfl, rfl, rfl⟩

theorem fresh (number : Nat) : (m.fresh number).Known live passes :=
  ⟨known.next, known.start, known.again⟩

theorem openBlock (name : String) : (m.openBlock name).Known live passes := by
  have changed : ((m.fresh 1).change name fun label => { label with stop? := some ⟨m.count⟩ }).Known live passes :=
    (known.fresh 1).change fun _ => ⟨rfl, rfl, rfl⟩
  exact ⟨changed.next, changed.start, changed.again⟩

theorem openLoop {next : Label} (alive : live next ∨ passes next) : (m.openLoop next stop).Known live passes where
  next := by
    rintro loop (_ | ⟨_, member⟩)
    · exact alive
    · exact known.next loop member
  start := known.start.openLoop next stop
  again name label other depth found again := by
    rw [label?_openLoop] at found
    obtain ⟨before, same, rfl⟩ := Option.map_eq_some_iff.1 found
    split at again
    · cases again
      exact alive
    · exact known.again name before other depth same again

theorem closeLoop : m.closeLoop.Known live passes :=
  ⟨fun loop member => known.next loop (mem_of_mem_tail member), known.start, known.again⟩

end Known

end Marks

/-- A loop ends at its last label. Control comes there from its condition, unless that is known to hold at first,
or by a jump. -/
theorem LoopForm.carries {next : Label} {tail code : Listing}
    (form : LoopForm start next stop piece head tail certain)
    (whole : code = (.loopStart start, a) :: (head ++ ((.enterScope, b) :: (body ++ [(.exitScope, c)])) ++ tail ++
      [(.loopEnd stop, d)]))
    (inner : Carries live passes True body out) (starts : live start) (ends : certain = false ∨ out → live stop)
    (dead : BottomTested code next → ¬ live next) : Carries live passes True code (live stop) := by
  suffices parts : Carries live passes True head True ∧ Carries live passes out tail (live stop) by
    rw [whole]
    exact .put rfl ((((parts.1.append inner.scope).append parts.2).append
      (.put rfl (.nil fun came => came.elim id id))).weaken (fun _ => trivial) id)
  cases form with
  | endless pause => exact ⟨.put rfl (.nil fun _ => trivial), pause.carries_back starts⟩
  | while_ pause =>
    exact ⟨.put rfl (.plain rfl (.check rfl (fun _ => ends (.inl rfl)) (.nil fun _ => trivial))),
      pause.carries_back starts⟩
  | @doWhile value pause e f g h paused =>
    have tested : BottomTested code next :=
      ⟨value, stop, c, e, f, g, (.loopStart start, a) :: (.enterScope, b) :: body,
      pause ++ [(.jump start, h), (.loopEnd stop, d)], by simp [whole]⟩
    have left : out ∨ live next → live stop := fun came => ends (.inr (came.resolve_right (dead tested)))
    exact ⟨.nil id, .put rfl (.plain rfl (.check rfl left (paused.carries_back starts)))⟩
  | doOnce => exact ⟨.nil id, .put rfl (.nil fun _ => ends (.inl rfl))⟩
  | forever step pause =>
    refine ⟨.nil id, .put rfl ?_⟩
    rw [append_assoc]
    exact step.carries.append (pause.carries_back starts)
  | for_ step pause =>
    refine ⟨.plain rfl (.check rfl (fun _ => ends (.inl rfl)) (.nil id)), .put rfl ?_⟩
    rw [append_assoc]
    exact step.carries.append (pause.carries_back starts)
  | each pause =>
    exact ⟨.put rfl (.check rfl (fun _ => ends (.inl rfl)) (.nil fun _ => trivial)),
      pause.carries_back starts⟩

namespace Piece

/-- Control comes to the body of each case of a switch, and goes on at the end of the switch. -/
def Relies (live : Label → Prop) (t : Termination) : Piece → Prop
  | .cases stop labels _ => (∀ label ∈ labels, live label) ∧ (t.isUnconditional = false → live stop)
  | _ => True

/-- Whether control comes to the start of a piece from the code before it. -/
def entered : Piece → Prop
  | .cases _ _ _ => False
  | _ => True

/-- Whether control comes to the end of a piece, and goes on with the code behind it. -/
def left (t : Termination) : Piece → Prop
  | .cases _ _ _ => False
  | _ => t.isUnconditional = false

end Piece

/-- A switch goes on if one of its bodies does. -/
theorem Lowers.cases_isUnconditional (lowers : Lowers mode piece m code t m') :
    ∀ stop labels known, piece = .cases stop labels known → known.isUnconditional = false →
      t.isUnconditional = false := by
  induction lowers with
  | noCases =>
    rintro _ _ _ ⟨⟩ goes
    exact goes
  | case _ _ _ ih =>
    rintro _ _ known ⟨⟩ goes
    exact ih _ _ _ rfl (by simp [goes])
  | loop form => cases form <;> nofun
  | _ => nofun

/-- When the labels of a piece of code and around it are live as expected, control goes through it as its
termination says. -/
def Traced (piece : Piece) (m : Marks) (code : Listing) (t : Termination) (m' : Marks) (expected : Label → Prop) :
    Prop :=
  ∀ live passes, Agrees m.count m'.count live expected → (∀ label, BottomTested code label → passes label) →
    m.Known live passes → m'.Escapes live → piece.Relies live t →
    m'.Known live passes ∧ Carries live passes piece.entered code (piece.left t)

namespace Traced

theorem append (grows₁ : m.Grows m₁) (grows₂ : m₁.Grows m₂) (goes : t₁.isUnconditional = false)
    (traced₁ : Traced .statements m first t₁ m₁ one) (traced₂ : Traced .statements m₁ second t₂ m₂ two) :
    Traced .statements m (first ++ second) (t₁.union t₂) m₂ (split m₁.count one two) := by
  intro live passes agrees tested known escapes _
  obtain ⟨known₁, carries₁⟩ := traced₁ live passes (agrees.below grows₂.count)
    (fun label found => tested label (found.before second)) known (escapes.before grows₂) trivial
  obtain ⟨known₂, carries₂⟩ := traced₂ live passes (agrees.above grows₁.count)
    (fun label found => tested label found.behind) known₁ escapes trivial
  refine ⟨known₂, carries₁.append (carries₂.weaken (fun _ => trivial) fun goes₂ => ?_)⟩
  show (t₁.union t₂).isUnconditional = false
  rw [isUnconditional_union, goes, goes₂]
  rfl

theorem skip (form : Check ⟨m.count⟩ check) (grows : (m.fresh 1).Grows m')
    (traced : Traced .statements (m.fresh 1) body t m' expected) :
    Traced .statements m (check ++ body ++ [(.mark ⟨m.count⟩, a)]) (t.branch .none) m'
      (split (m.count + 1) (fun _ => True) expected) := by
  intro live passes agrees tested known escapes _
  have alive : live ⟨m.count⟩ := of_eq_true (agrees.below grows.count _ (Nat.le_refl _) (Nat.lt_succ_self _))
  obtain ⟨known', carries⟩ := traced live passes (agrees.above (Nat.le_succ _))
    (fun label found => tested label (found.behind.before _)) (known.fresh 1) escapes trivial
  refine ⟨known', ((form.carries alive).append carries).append (.put rfl (.nil fun _ => ?_))⟩
  show (t.branch .none).isUnconditional = false
  rw [isUnconditional_branch, isUnconditional_none, Bool.and_false]

theorem fork (form : Fork m.count other stop head link)
    (grows₁ : (m.fresh 2).Grows m₁) (grows₂ : m₁.Grows m₂)
    (traced₁ : Traced .statements (m.fresh 2) first t₁ m₁ one)
    (traced₂ : Traced .statements m₁ second t₂ m₂ two) :
    Traced .statements m (head ++ first ++ link ++ second ++ [(.mark stop, a)]) (t₁.branch t₂) m₂
      (split (m.count + 2) (fun label => label = stop → (t₁.branch t₂).isUnconditional = false)
        (split m₁.count one two)) := by
  intro live passes agrees tested known escapes _
  have own := agrees.below (Nat.le_trans grows₁.count grows₂.count)
  have others := agrees.above (Nat.le_add_right m.count 2)
  obtain ⟨low, high, differs⟩ : (m.count ≤ stop.index ∧ stop.index < m.count + 2) ∧
      (m.count ≤ other.index ∧ other.index < m.count + 2) ∧ other ≠ stop := by
    cases form <;> simp
  have alive : live other := by
    rw [own other high.1 high.2]
    exact fun same => absurd same differs
  have ends : live stop ↔ (t₁.branch t₂).isUnconditional = false := by
    rw [own stop low.1 low.2]
    exact ⟨fun only => only rfl, fun goes _ => goes⟩
  rw [isUnconditional_branch, Bool.and_eq_false_iff] at ends
  obtain ⟨known₁, carries₁⟩ := traced₁ live passes (others.below grows₂.count)
    (fun label found => tested label (((found.behind.before link).before second).before _))
    (known.fresh 2) (escapes.before grows₂) trivial
  obtain ⟨known₂, carries₂⟩ := traced₂ live passes (others.above grows₁.count)
    (fun label found => tested label (found.behind.before _)) known₁ escapes trivial
  refine ⟨known₂, ((((form.carries_head alive).append carries₁).append
    (form.carries_link fun goes => ends.2 (.inl goes))).append carries₂).append (.put rfl (.nil ?_))⟩
  intro came
  show (t₁.branch t₂).isUnconditional = false
  rw [isUnconditional_branch, Bool.and_eq_false_iff]
  exact came.elim .inr ends.1

theorem loop {tail : Listing}
    (form : LoopForm ⟨m.count⟩ ⟨m.count + 1⟩ ⟨m.count + 2⟩ piece head tail certain)
    (whole : code = (.loopStart ⟨m.count⟩, a) ::
      (head ++ ((.enterScope, b) :: (body ++ [(.exitScope, c)])) ++ tail ++
      [(.loopEnd ⟨m.count + 2⟩, d)])) (grows : ((m.fresh 3).openLoop ⟨m.count + 1⟩ ⟨m.count + 2⟩).Grows m')
    (traced : Traced .statements ((m.fresh 3).openLoop ⟨m.count + 1⟩ ⟨m.count + 2⟩) body t m' expected) :
    Traced piece m code (t.leaveLoop (certain && !m'.isEscaped)) m'.closeLoop
      (split (m.count + 3) (fun label => (label = ⟨m.count + 1⟩ → ¬ BottomTested code label) ∧
        (label = ⟨m.count + 2⟩ → (t.leaveLoop (certain && !m'.isEscaped)).isUnconditional = false)) expected) :=
  by
  intro live passes agrees tested known escapes _
  have own := agrees.below grows.count
  have starts : live ⟨m.count⟩ := by
    rw [own ⟨m.count⟩ (Nat.le_refl _) (by simp)]
    simp
  have next : live ⟨m.count + 1⟩ ↔ ¬ BottomTested code ⟨m.count + 1⟩ := by
    rw [own ⟨m.count + 1⟩ (by simp) (by simp)]
    simp
  have stop : live ⟨m.count + 2⟩ ↔ (t.leaveLoop (certain && !m'.isEscaped)).isUnconditional = false := by
    rw [own ⟨m.count + 2⟩ (by simp) (by simp)]
    simp
  have certainly := stop
  have inner : m'.Escapes live := by
    refine ⟨fun loop member escaped => ?_, escapes.block⟩
    obtain ⟨_, _, same, _, loops⟩ := forall₂_cons_left_iff.1 grows.loops
    rw [loops] at member
    rcases mem_cons.1 member with rfl | member
    · rw [same.stop]
      exact certainly.2 (by simp [Marks.isEscaped, loops, escaped])
    · exact escapes.loop loop (by rw [Marks.closeLoop, loops]; exact member) escaped
  have again := (Classical.em (BottomTested code ⟨m.count + 1⟩)).symm.imp next.2 (tested _)
  obtain ⟨known', carries⟩ := traced live passes (agrees.above (Nat.le_add_right m.count 3))
    (fun label found => tested label (by
      rw [whole]
      exact (((((found.before _).after _).behind).before tail).before _).after _))
    ((known.fresh 3).openLoop again) inner trivial
  have ends : certain = false ∨ t.isUnconditional = false → live ⟨m.count + 2⟩ := by
    refine fun leaves => certainly.2 ?_
    rcases leaves with uncertain | goes
    · simp [uncertain]
    have unreturned : t.returns = false := by
      rw [isUnconditional, Bool.or_eq_false_iff] at goes
      exact goes.2
    simp [unreturned]
  have through := form.carries whole carries starts ends fun found alive => next.1 alive found
  cases form <;> exact ⟨known'.closeLoop, through.weaken id stop.1⟩

theorem labelBlock (grows : ((m.place name a).openBlock name).Grows m')
    (traced : Traced .statements ((m.place name a).openBlock name) body t m' expected) :
    Traced .statements m ((.mark (m.startOf name), a) :: (body ++ [(.mark ⟨(m.place name a).count⟩, b)]))
      (if m'.isBroken name then t.leaveLoop false else t) m'.closeBlock
      (split (m.place name a).count (fun _ => True)
        (split ((m.place name a).count + 1) (fun _ => m'.isBroken name = true) expected)) := by
  intro live passes agrees tested known escapes _
  have counted := grows.count
  have placed := m.mention_count_le name a
  have rest := agrees.above placed
  have alive : live (m.startOf name) := known.start.startOf fun label low high =>
    of_eq_true (agrees.below (Nat.le_of_succ_le counted) label low high)
  have stop : live ⟨(m.place name a).count⟩ ↔ m'.isBroken name = true := by
    rw [rest.below counted ⟨(m.place name a).count⟩ (Nat.le_refl _) (Nat.lt_succ_self _)]
  have inner : m'.Escapes live := by
    refine ⟨escapes.loop, fun other label ends found placed member broken ends? => ?_⟩
    rw [grows.active] at member
    rcases mem_cons.1 member with rfl | outer
    · -- the block that is open ends where it was said to end when it was opened
      have opened : ((m.place other a).openBlock other).label? other =
          some { m.labelOrNew other a with
            placed := true, depth := m.loops.length, stop? := some ⟨(m.place other a).count⟩ } := by
        rw [Marks.label?_openBlock, if_pos rfl, Marks.label?_place, if_pos rfl]
        rfl
      obtain ⟨_, found', grown⟩ := grows.labels other _ opened
      cases found.symm.trans found'
      cases ends?.symm.trans (grown.stop rfl)
      exact stop.2 (by simp [Marks.isBroken, found, broken])
    · refine escapes.block other label ends found placed ?_ broken ends?
      show other ∈ m'.active.tail
      rw [grows.active]
      exact outer
  obtain ⟨known', carries⟩ := traced live passes (rest.above (Nat.le_succ _))
    (fun label found => tested label ((found.before _).after _)) ((known.place a alive).openBlock name) inner trivial
  refine ⟨⟨known'.next, known'.start, known'.again⟩,
    .put rfl ((carries.append (.put rfl (.nil fun came => ?_))).weaken (fun _ => trivial) id)⟩
  show (if m'.isBroken name then t.leaveLoop false else t).isUnconditional = false
  split
  · rw [isUnconditional_leaveLoop, Bool.false_and]
  · rename_i whole
    exact came.resolve_right fun ends => whole (stop.1 ends)

theorem switch {default : Listing}
    (form : SwitchTests m.count labels tests)
    (grows₁ : (m.fresh (labels.length + 1)).Grows m₁) (grows₂ : m₁.Grows m₂)
    (weaker : t₁.isUnconditional = false → t₂.isUnconditional = false)
    (traced₁ : Traced .statements (m.fresh (labels.length + 1)) default t₁ m₁ one)
    (traced₂ : Traced (.cases ⟨m.count + labels.length⟩ labels t₁) m₁ bodies t₂ m₂ two) :
      Traced .statements m
      ((.push value, a) :: (tests ++ (.pop, b) :: (default ++ (.jump ⟨m.count + labels.length⟩, c) ::
        (bodies ++ [(.mark ⟨m.count + labels.length⟩, d)])))) t₂ m₂ (split (m.count + (labels.length + 1))
        (fun label => label = ⟨m.count + labels.length⟩ → t₂.isUnconditional = false)
          (split m₁.count one two)) := by
  intro live passes agrees tested known escapes _
  have own := agrees.below (Nat.le_trans grows₁.count grows₂.count)
  have others := agrees.above (Nat.le_add_right m.count _)
  have targets : ∀ label ∈ labels, live label := by
    intro label member
    have bounds := form.labels.2.2.2 label member
    rw [own label bounds.1 (by omega)]
    rintro rfl
    exact absurd bounds.2 (Nat.lt_irrefl _)
  have stop : live ⟨m.count + labels.length⟩ ↔ t₂.isUnconditional = false := by
    rw [own _ (Nat.le_add_right _ _) (Nat.lt_succ_self _)]
    exact ⟨fun only => only rfl, fun goes _ => goes⟩
  obtain ⟨known₁, carries₁⟩ := traced₁ live passes (others.below grows₂.count)
    (fun label found => tested label ((((found.before _).after _).behind).after _))
    (known.fresh _) (escapes.before grows₂) trivial
  obtain ⟨known₂, carries₂⟩ := traced₂ live passes (others.above grows₁.count)
    (fun label found => tested label ((((((found.before _).after _).behind).after _).behind).after _))
    known₁ escapes ⟨targets, stop.2⟩
  refine ⟨known₂, .plain rfl ((form.carries targets).append (.plain rfl (carries₁.append
    (.jump (fun goes => .inl (stop.2 (weaker goes))) (carries₂.append (.put rfl (.nil ?_)))))))⟩
  exact fun came => stop.1 (came.resolve_left id)

theorem case (grows₁ : m.Grows m₁) (grows₂ : m₁.Grows m₂)
    (weaker : t₁.isUnconditional = false → t₂.isUnconditional = false)
    (traced₁ : Traced .statements m first t₁ m₁ one)
    (traced₂ : Traced (.cases stop labels (known.branch t₁)) m₁ rest t₂ m₂ two) :
    Traced (.cases stop (label :: labels) known) m ((.mark label, a) :: (first ++ (.jump stop, b) :: rest)) t₂ m₂
      (split m₁.count one two) := by
  intro live passes agrees tested known escapes relies
  obtain ⟨known₁, carries₁⟩ := traced₁ live passes (agrees.below grows₂.count)
    (fun label found => tested label ((found.before _).after _)) known (escapes.before grows₂) trivial
  obtain ⟨known₂, carries₂⟩ := traced₂ live passes (agrees.above grows₁.count)
    (fun label found => tested label (((found.after _).behind).after _)) known₁ escapes
    ⟨fun label member => relies.1 label (.tail _ member), relies.2⟩
  exact ⟨known₂, .put rfl ((carries₁.append
    (.jump (fun goes => .inl (relies.2 (weaker goes))) carries₂)).weaken (fun _ => trivial) id)⟩

theorem spawn {a b c d e : Span} (grows : (m.fresh 1).detach.Grows m')
    (traced : Traced .statements (m.fresh 1).detach body t m' expected) : Traced .statements m
      ((.push value, a) :: (.spawn ⟨m.count⟩, b) ::
        (body ++ [(.push null, c), (.return_, d), (.mark ⟨m.count⟩, e)]))
      .none (m'.attach m) (split (m.count + 1) (fun _ => True) expected) := by
  intro live passes agrees tested known _ _
  have alive : live ⟨m.count⟩ := of_eq_true (agrees.below grows.count _ (Nat.le_refl _) (Nat.lt_succ_self _))
  obtain ⟨known', carries⟩ := traced live passes (agrees.above (Nat.le_succ _))
    (fun label found => tested label (((found.before _).after _).after _)) ⟨nofun, known.start, known.again⟩
    (.outermost grows rfl rfl) trivial
  exact ⟨⟨known.next, known'.start, known'.again⟩, .plain rfl (.check rfl (fun _ => alive)
    (carries.append (.plain rfl (.leave (.put rfl (.nil fun _ => rfl))))))⟩

end Traced

end DreamMaker
