import DreamMaker.Proofs.Code.Annotation
import DreamMaker.Proofs.Code.Flow
import DreamMaker.Proofs.Code.Growth

namespace DreamMaker

variable {label : Label} {place : Nat} {live : List Nat} {free : Prop} {given : Label → Option (List Nat)}
  {code : Listing} {span : Span} {m : Marks} {piece : Piece}

namespace Op

/-- Where the enumerators that are live behind an operation have been created, innermost first. -/
def enumerators (place : Nat) (live : List Nat) : Op → List Nat
  | .createEnumerator _ => place :: live
  | .destroyEnumerator => live.tail
  | _ => live

/-- Whether an operation has to do with an enumerator that has been created. -/
def usesEnumerator : Op → Bool
  | .enumerate _ _ | .destroyEnumerator => true
  | _ => false

/-- Whether an operation has to do with enumerators. -/
def handlesEnumerator : Op → Bool
  | .createEnumerator _ => true
  | op => op.usesEnumerator

/-- An operation agrees with the enumerators that are live where it stands and at its labels. -/
structure Suits (free : Prop) (given : Label → Option (List Nat)) (place : Nat)
    (live : List Nat) (op : Op) : Prop where
  placed : ∀ label expected, op.placed? = some label → given label = some expected → expected = live
  lands : ∀ label, op.target? = some label → given label = some live ∨ (free ∧ op = .jump label)
  uses : op.usesEnumerator = true → live ≠ []
  moves : ∀ target exit, op = .enumerate target exit →
    ∃ created, live.head? = some created ∧ created + 4 = place

theorem enumerators_of_target {op : Op} (target : op.target? = some label) : op.enumerators place live = live := by
  cases op with
  | createEnumerator | destroyEnumerator => cases target
  | _ => rfl

end Op

/-- Code agrees with the enumerators that are live before it, behind it and at labels. -/
def Nested (free : Prop) (given : Label → Option (List Nat)) : Nat → List Nat → Listing → List Nat → Prop
  | _, live, [], behind => live = behind
  | place, live, entry :: rest, behind => entry.1.Suits free given place live ∧
    Nested free given (place + 1) (entry.1.enumerators place live) rest behind

namespace Nested

variable {behind : List Nat} {op : Op}

theorem append (one : Nested free given place live first middle)
    (two : Nested free given (place + first.length) middle second behind) :
    Nested free given place live (first ++ second) behind := by
  induction first generalizing place live with
  | nil =>
    cases one
    exact two
  | cons _ rest ih =>
    refine ⟨one.1, ih one.2 ?_⟩
    rw [List.length_cons, Nat.add_comm rest.length, ← Nat.add_assoc] at two
    exact two

theorem nil : Nested free given place live [] live := rfl

/-- An operation that has nothing to do with enumerators. -/
theorem step (unhandled : op.handlesEnumerator = false)
    (fits : ∀ label, op.placed? = some label → given label = none ∨ given label = some live)
    (lands : ∀ label, op.target? = some label → given label = some live ∨ (free ∧ op = .jump label))
    (others : Nested free given (place + 1) live code behind) :
    Nested free given place live ((op, span) :: code) behind := by
  obtain ⟨same, unused⟩ : op.enumerators place live = live ∧ op.usesEnumerator = false := by
    cases op with
    | createEnumerator | enumerate | destroyEnumerator => cases unhandled
    | _ => exact ⟨rfl, rfl⟩
  refine ⟨⟨fun label _ placed known => ?_, lands, fun used => ?_, ?_⟩, ?_⟩
  · rcases fits label placed with unknown | fits
    · rw [unknown] at known
      cases known
    · exact Option.some.inj (known.symm.trans fits)
  · rw [unused] at used
    cases used
  · rintro _ _ rfl
    cases unused
  · rw [same]
    exact others

/-- An operation that goes on with the next one, and may place a label or go on there. -/
theorem goesOn (role : (op.placed?, op.target?, op.handlesEnumerator) = (placed?, target?, false))
    (fits : ∀ label ∈ placed?, given label = none ∨ given label = some live)
    (lands : ∀ label ∈ target?, given label = some live)
    (others : Nested free given (place + 1) live code behind) :
      Nested free given place live ((op, span) :: code) behind := by
  obtain ⟨places, jumps, unhandled⟩ := by simpa using role
  exact .step unhandled (fun label placed => fits label (places.symm.trans placed))
    (fun label found => .inl (lands label (jumps.symm.trans found))) others

/-- An operation that has nothing to do with labels either. -/
theorem plain (role : (op.placed?, op.target?, op.handlesEnumerator) = (none, none, false))
    (others : Nested free given (place + 1) live code behind) :
      Nested free given place live ((op, span) :: code) behind :=
  goesOn role (by simp) (by simp) others

theorem jump (lands : given label = some live ∨ free) (others : Nested free given (place + 1) live code behind) :
    Nested free given place live ((.jump label, span) :: code) behind := by
  refine .step rfl nofun ?_ others
  rintro _ ⟨⟩
  exact lands.imp_right fun free => ⟨free, rfl⟩

/-- An operation that goes on with the next one or at a label. -/
theorem check (role : (op.placed?, op.target?, op.handlesEnumerator) = (none, some label, false))
    (lands : given label = some live) (others : Nested free given (place + 1) live code behind) :
    Nested free given place live ((op, span) :: code) behind :=
  goesOn role (by simp) (by simpa using lands) others

/-- An operation that places a label. -/
theorem put (role : (op.placed?, op.target?, op.handlesEnumerator) = (some label, none, false))
    (fits : given label = none ∨ given label = some live)
    (others : Nested free given (place + 1) live code behind) :
      Nested free given place live ((op, span) :: code) behind :=
  goesOn role (by simpa using fits) (by simp) others

theorem create (others : Nested free given (place + 1) (place :: live) code behind) :
    Nested free given place live ((.createEnumerator kind, span) :: code) behind :=
  ⟨⟨nofun, nofun, nofun, nofun⟩, others⟩

theorem destroy (others : Nested free given (place + 1) outer code behind) :
    Nested free given place (created :: outer) ((.destroyEnumerator, span) :: code) behind :=
  ⟨⟨nofun, nofun, fun _ => List.cons_ne_nil _ _, nofun⟩, others⟩

theorem enumerate {target : Term} (lands : given label = some (created :: outer)) (own : created + 4 = place)
    (others : Nested free given (place + 1) (created :: outer) code behind) :
    Nested free given place (created :: outer) ((.enumerate target label, span) :: code) behind := by
  refine ⟨⟨nofun, ?_, fun _ => List.cons_ne_nil _ _, fun _ _ _ => ⟨created, rfl, own⟩⟩, others⟩
  rintro _ ⟨⟩
  exact .inl lands

theorem scope (nested : Nested free given (place + 1) live code behind) :
    Nested free given place live ((.enterScope, a) :: (code ++ [(.exitScope, b)])) behind :=
  .plain rfl (nested.append (.plain rfl .nil))

end Nested

/-! Code in parts. -/

section Parts

variable {free : Prop} {given : Label → Option (List Nat)}

theorem pushes_nested : Nested free given place live (pushes values) live := by
  induction values generalizing place with
  | nil => exact .nil
  | cons _ _ ih => exact .plain rfl ih

theorem Op.unhandled_of_consumes {op : Op} (consumes : op.consumes? = some count) : op.handlesEnumerator = false := by
  cases op <;> cases consumes <;> rfl

theorem Line.nested (line : Line code) : Nested free given place live code live := by
  cases line with
  | operate _ arity =>
    obtain ⟨places, jumps⟩ := Op.inert_of_consumes arity
    exact pushes_nested.append (.plain (by simp [places, jumps, Op.unhandled_of_consumes arity]) .nil)
  | store => exact .plain rfl (.plain rfl (.plain rfl .nil))
  | input => exact .plain rfl .nil

theorem Pause.nested (pause : Pause code) : Nested free given place live code live := by
  cases pause with
  | none => exact .nil
  | value => exact .plain rfl (.plain rfl .nil)

theorem Check.nested (check : Check target code) (lands : given target = some live) :
    Nested free given place live code live := by
  cases check with
  | value => exact .plain rfl (.check rfl lands .nil)
  | null => exact .plain rfl (.plain rfl (.check rfl lands .nil))

theorem Fork.nested (fork : Fork count other stop head link)
    (begins : given other = some live) (ends : given stop = some live) :
    (∀ place, Nested free given place live head live) ∧ ∀ place, Nested free given place live link live := by
  cases fork with
  | condition =>
    exact ⟨fun _ => .plain rfl (.check rfl begins .nil),
      fun _ => .jump (.inl ends) (.put rfl (.inr begins) .nil)⟩
  | handler =>
    exact ⟨fun _ => .check rfl begins .nil,
      fun _ => .plain rfl (.jump (.inl ends) (.put rfl (.inr begins) .nil))⟩

theorem CaseTests.nested (form : CaseTests target tests)
    (lands : given target = some live) : Nested free given place live tests live := by
  induction form generalizing place with
  | done => exact .nil
  | single _ ih => exact .plain rfl (.check rfl lands ih)
  | range _ ih => exact .plain rfl (.plain rfl (.check rfl lands ih))

theorem SwitchTests.nested {labels : List Label}
    (form : SwitchTests count labels tests) (lands : ∀ label ∈ labels, given label = some live) :
    Nested free given place live tests live := by
  induction form generalizing place with
  | done => exact .nil
  | next first _ ih =>
    exact (first.nested (lands _ (.head _))).append (ih fun label member => lands label (.tail _ member))

theorem Pause.nested_back (form : Pause pause)
    (lands : given start = some live) : Nested free given place live (pause ++ [(.jump start, span)]) live :=
  form.nested.append (.jump (.inl lands) .nil)

end Parts

namespace Marks

/-- The innermost loop ends and goes on where these enumerators are live. -/
def Inner (given : Label → Option (List Nat)) (live : List Nat) (m : Marks) : Prop :=
  ∀ loop ∈ m.loops.head?, given loop.next = some live ∧ given loop.stop = some live

theorem Inner.grows (inner : m.Inner given live)
    (grows : m.Grows m') : m'.Inner given live := by
  intro _ member
  have same := grows.loops
  cases loops : m.loops with
  | nil =>
    rw [loops] at same
    rw [List.forall₂_nil_left_iff.1 same] at member
    cases member
  | cons before _ =>
    rw [loops] at same
    obtain ⟨_, _, grown, _, loops'⟩ := List.forall₂_cons_left_iff.1 same
    rw [loops'] at member
    cases member
    rw [grown.next, grown.stop]
    exact inner before (by rw [loops]; rfl)

end Marks

/-- What a piece of code can rely on, if it stands at a place where these enumerators are live. -/
def Piece.Fits (given : Label → Option (List Nat)) (m : Marks) (place : Nat) (live : List Nat) : Piece → Prop
  | .statements => m.Inner given live
  | .rounds => ∃ created outer, live = created :: outer ∧ created + 2 = place
  | .cases stop labels _ => m.Inner given live ∧ given stop = some live ∧
      ∀ label ∈ labels, given label = some live

section Loop

theorem LoopForm.nested_head (form : LoopForm start next stop piece head tail certain)
    (again : given next = some live) (ends : given stop = some live) (fits : piece.Fits given m place live) :
    Nested free given (place + 1) live head live := by
  cases form with
  | endless => exact .put rfl (.inr again) .nil
  | while_ => exact .put rfl (.inr again) (.plain rfl (.check rfl ends .nil))
  | doWhile | doOnce | forever => exact .nil
  | for_ => exact .plain rfl (.check rfl ends .nil)
  | each =>
    obtain ⟨_, _, rfl, _⟩ := fits
    exact .put rfl (.inr again) (.enumerate ends (by omega) .nil)

theorem LoopForm.nested_tail (form : LoopForm start next stop piece head tail certain)
    (begins : given start = some live) (again : given next = some live) (ends : given stop = some live) :
    Nested free given place live tail live := by
  cases form with
  | endless pause | while_ pause | each pause => exact pause.nested_back begins
  | doWhile pause =>
    exact .put rfl (.inr again) (.plain rfl (.check rfl ends (pause.nested_back begins)))
  | doOnce => exact .put rfl (.inr again) .nil
  | forever step pause | for_ step pause =>
    refine .put rfl (.inr again) ?_
    rw [List.append_assoc]
    exact step.nested.append (pause.nested_back begins)

end Loop

/-- A piece of code agrees with the enumerators that are live at its labels, and leaves them as it finds them. -/
def Nests (free : Prop) (piece : Piece) (m : Marks) (code : Listing) (m' : Marks) (place : Nat) (live : List Nat)
    (expected : Label → Option (List Nat)) : Prop :=
  ∀ given, Agrees m.count m'.count given expected → m.Starts (given · = none) → piece.Fits given m place live →
    m'.Starts (given · = none) ∧ Nested free given place live code live

namespace Nests

variable {free : Prop} {piece : Piece} {place : Nat}
  {live : List Nat}

theorem labelBlock (grows : ((m.place name a).openBlock name).Grows m')
    (nests : Nests free .statements ((m.place name a).openBlock name) body m' (place + 1) live expected) :
    Nests free .statements m ((.mark (m.startOf name), a) :: (body ++ [(.mark ⟨(m.place name a).count⟩, b)]))
      m'.closeBlock place live (split ((m.place name a).count + 1) (fun _ => none) expected) := by
  intro given agrees starts fits
  have placed := m.mention_count_le name a
  have own := agrees.below grows.count
  have start := starts.startOf fun label low high => own label low (Nat.lt_succ_of_lt high)
  have stop := own _ placed (Nat.lt_succ_self _)
  have inner : Piece.Fits given ((m.place name a).openBlock name) (place + 1) live .statements := by
    intro loop member
    rw [show ((m.place name a).openBlock name).loops = m.loops from m.mention_loops name a] at member
    exact fits loop member
  obtain ⟨starts', nested⟩ := nests given (agrees.above (Nat.le_succ_of_le placed))
    ((starts.place a start).openBlock name) inner
  exact ⟨starts', .put rfl (.inl start) (nested.append (.put rfl (.inl stop) .nil))⟩

theorem fork (form : Fork m.count other stop head link)
    (grows₁ : (m.fresh 2).Grows m₁) (grows₂ : m₁.Grows m₂)
    (nests₁ : Nests free .statements (m.fresh 2) first m₁ (place + head.length) live one)
    (nests₂ : Nests free .statements m₁ second m₂ (place + (head ++ first ++ link).length) live two) :
    Nests free .statements m (head ++ first ++ link ++ second ++ [(.mark stop, a)]) m₂ place live
      (split (m.count + 2) (fun _ => some live) (split m₁.count one two)) := by
  intro given agrees starts fits
  have own := agrees.below (Nat.le_trans grows₁.count grows₂.count)
  have others := agrees.above (Nat.le_add_right m.count 2)
  obtain ⟨begins, ends⟩ : given other = some live ∧ given stop = some live := by
    cases form with
    | condition => exact ⟨own _ (by simp) (by simp), own _ (by simp) (by simp)⟩
    | handler => exact ⟨own _ (by simp) (by simp), own _ (by simp) (by simp)⟩
  obtain ⟨starts₁, nested₁⟩ := nests₁ given (others.below grows₂.count) starts fits
  obtain ⟨starts₂, nested₂⟩ := nests₂ given (others.above grows₁.count) starts₁
    (Marks.Inner.grows (m := m.fresh 2) fits grows₁)
  obtain ⟨before, between⟩ := form.nested begins ends
  exact ⟨starts₂, ((((before _).append nested₁).append (between _)).append nested₂).append
    (.put rfl (.inr ends) .nil)⟩

theorem loop (form : LoopForm ⟨m.count⟩ ⟨m.count + 1⟩ ⟨m.count + 2⟩ piece head tail certain)
    (grows : ((m.fresh 3).openLoop ⟨m.count + 1⟩ ⟨m.count + 2⟩).Grows m')
    (nests : Nests free .statements ((m.fresh 3).openLoop ⟨m.count + 1⟩ ⟨m.count + 2⟩) body m'
      (place + 1 + head.length + 1) live expected) : Nests free piece m
      ((.loopStart ⟨m.count⟩, a) :: (head ++ ((.enterScope, b) :: (body ++ [(.exitScope, c)])) ++ tail ++
        [(.loopEnd ⟨m.count + 2⟩, d)]))
      m'.closeLoop place live (split (m.count + 3) (fun _ => some live) expected) := by
  intro given agrees starts fits
  have own := agrees.below grows.count
  have begins : given ⟨m.count⟩ = some live := own _ (by simp) (by simp)
  have again : given ⟨m.count + 1⟩ = some live := own _ (by simp) (by simp)
  have ends : given ⟨m.count + 2⟩ = some live := own _ (by simp) (by simp)
  have inner : Piece.Fits given ((m.fresh 3).openLoop ⟨m.count + 1⟩ ⟨m.count + 2⟩)
    (place + 1 + head.length + 1) live
      .statements := by
    rintro loop ⟨⟩
    exact ⟨again, ends⟩
  have unchanged : (m.fresh 3).Starts (given · = none) := starts
  obtain ⟨starts', nested⟩ := nests given (agrees.above (Nat.le_add_right m.count 3)) (unchanged.openLoop _ _) inner
  exact ⟨starts', .put rfl (.inr begins) ((((form.nested_head again ends fits).append nested.scope).append
    (form.nested_tail begins again ends)).append (.put rfl (.inr ends) .nil))⟩

theorem switch {labels : List Label} {default : Listing}
    (form : SwitchTests m.count labels tests) (grows₁ : (m.fresh (labels.length + 1)).Grows m₁)
    (grows₂ : m₁.Grows m₂)
    (nests₁ :
      Nests free .statements (m.fresh (labels.length + 1)) default m₁ (place + 1 + tests.length + 1) live one)
    (nests₂ : Nests free (.cases ⟨m.count + labels.length⟩ labels known) m₁ bodies m₂
      (place + 1 + tests.length + 1 + default.length + 1) live two) : Nests free .statements m
      ((.push value, a) :: (tests ++ (.pop, b) :: (default ++ (.jump ⟨m.count + labels.length⟩, c) ::
        (bodies ++ [(.mark ⟨m.count + labels.length⟩, d)])))) m₂ place live
      (split (m.count + (labels.length + 1)) (fun _ => some live) (split m₁.count one two)) := by
  intro given agrees starts fits
  have own := agrees.below (Nat.le_trans grows₁.count grows₂.count)
  have others := agrees.above (Nat.le_add_right m.count _)
  have targets : ∀ label ∈ labels, given label = some live := by
    intro label member
    have bounds := form.labels.2.2.2 label member
    exact own label bounds.1 (by omega)
  have ends := own _ (Nat.le_add_right _ _) (Nat.lt_succ_self _)
  obtain ⟨starts₁, nested₁⟩ := nests₁ given (others.below grows₂.count) starts fits
  obtain ⟨starts₂, nested₂⟩ := nests₂ given (others.above grows₁.count) starts₁
    ⟨Marks.Inner.grows (m := m.fresh (labels.length + 1)) fits grows₁, ends, targets⟩
  exact ⟨starts₂, .plain rfl ((form.nested targets).append (.plain rfl (nested₁.append
    (.jump (.inl ends) (nested₂.append (.put rfl (.inr ends) .nil))))))⟩

end Nests

/-- All code leaves the enumerators as it finds them, and only a jump by name leads to others. -/
theorem Lowers.nests
    (lowers : Lowers mode piece m code t m') (place : Nat) (live : List Nat) :
    ∃ expected, Nests mode.jumping piece m code m' place live expected := by
  induction lowers generalizing place live with
  | nothing | noRounds | noCases => exact ⟨fun _ => none, fun _ _ starts _ => ⟨starts, .nil⟩⟩
  | line line => exact ⟨fun _ => none, fun _ _ starts _ => ⟨starts, line.nested⟩⟩
  | halted values => exact ⟨fun _ => none, fun _ _ starts _ => ⟨starts, pushes_nested⟩⟩
  | leave => exact ⟨fun _ => none, fun _ _ starts _ => ⟨starts, .plain rfl (.plain rfl .nil)⟩⟩
  | @breakLoop m loop outer a inside =>
    refine ⟨fun _ => none, fun _ _ starts fits => ⟨starts, .jump (.inl (fits loop ?_).2) .nil⟩⟩
    rw [inside]
    rfl
  | @continueLoop m loop outer a inside =>
    refine ⟨fun _ => none, fun _ _ starts fits => ⟨starts, .jump (.inl (fits loop ?_).1) .nil⟩⟩
    rw [inside]
    rfl
  | @breakLabel m name label _ a jumping =>
    refine ⟨fun _ => none, fun given _ starts _ => ⟨?_, .jump (.inr jumping) .nil⟩⟩
    have changed : (m.change name fun label => { label with broken := true }).Starts (given · = none) :=
      starts.change fun _ => ⟨rfl, rfl⟩
    exact changed
  | continueLabel jumping => exact ⟨fun _ => none, fun _ _ starts _ => ⟨starts, .jump (.inr jumping) .nil⟩⟩
  | @goto m name a jumping =>
    exact ⟨fun _ => none, fun _ agrees starts _ =>
      ⟨starts.mention a (starts.startOf agrees), .jump (.inr jumping) .nil⟩⟩
  | @label m name a =>
    refine ⟨fun _ => none, fun given agrees starts _ => ?_⟩
    have start := starts.startOf agrees
    exact ⟨starts.place a start, .put rfl (.inl start) .nil⟩
  | labelBlock _ lowers ih =>
    obtain ⟨expected, nests⟩ := ih (place + 1) live
    exact ⟨_, nests.labelBlock lowers.grows⟩
  | @append m m₁ m₂ first _ _ _ lowers₁ lowers₂ _ ih₁ ih₂ =>
    obtain ⟨one, nests₁⟩ := ih₁ place live
    obtain ⟨two, nests₂⟩ := ih₂ (place + first.length) live
    refine ⟨split m₁.count one two, fun given agrees starts fits => ?_⟩
    obtain ⟨starts₁, nested₁⟩ := nests₁ given (agrees.below lowers₂.grows.count) starts fits
    obtain ⟨starts₂, nested₂⟩ := nests₂ given (agrees.above lowers₁.grows.count) starts₁
      (Marks.Inner.grows fits lowers₁.grows)
    exact ⟨starts₂, nested₁.append nested₂⟩
  | scope _ ih =>
    obtain ⟨expected, nests⟩ := ih (place + 1) live
    refine ⟨expected, fun given agrees starts fits => ?_⟩
    obtain ⟨starts', nested⟩ := nests given agrees starts fits
    exact ⟨starts', nested.scope⟩
  | @skip m m' check _ _ _ form lowers ih =>
    obtain ⟨expected, nests⟩ := ih (place + check.length) live
    refine ⟨split (m.count + 1) (fun _ => some live) expected, fun given agrees starts fits => ?_⟩
    have ends : given ⟨m.count⟩ = some live :=
      agrees.below lowers.grows.count _ (Nat.le_refl _) (Nat.lt_succ_self _)
    obtain ⟨starts', nested⟩ := nests given (agrees.above (Nat.le_succ _)) starts fits
    exact ⟨starts', ((form.nested ends).append nested).append (.put rfl (.inr ends) .nil)⟩
  | @fork m m₁ m₂ _ _ head link first _ _ _ _ form lowers₁ lowers₂ ih₁ ih₂ =>
    obtain ⟨one, nests₁⟩ := ih₁ (place + head.length) live
    obtain ⟨two, nests₂⟩ := ih₂ (place + (head ++ first ++ link).length) live
    exact ⟨_, nests₁.fork form lowers₁.grows lowers₂.grows nests₂⟩
  | @loop piece m m' head _ _ _ _ _ _ _ _ form lowers ih =>
    obtain ⟨expected, nests⟩ := ih (place + 1 + head.length + 1) live
    exact ⟨_, nests.loop form lowers.grows⟩
  | @enumerator m m' _ _ _ _ _ _ _ values _ _ ih =>
    let created := place + (pushes values).length
    obtain ⟨expected, nests⟩ := ih (created + 1 + 1) (created :: live)
    refine ⟨expected, fun given agrees starts fits => ?_⟩
    obtain ⟨starts', nested⟩ := nests given agrees starts ⟨created, live, rfl, rfl⟩
    exact ⟨starts', pushes_nested.append (.create (.plain rfl (nested.append
      (.plain rfl (.destroy .nil)))))⟩
  | @switch m m₁ m₂ _ _ tests default _ _ _ _ _ _ _ form lowers₁ lowers₂ ih₁ ih₂ =>
    obtain ⟨one, nests₁⟩ := ih₁ (place + 1 + tests.length + 1) live
    obtain ⟨two, nests₂⟩ := ih₂ (place + 1 + tests.length + 1 + default.length + 1) live
    exact ⟨_, nests₁.switch form lowers₁.grows lowers₂.grows nests₂⟩
  | @case m m₁ m₂ _ _ _ _ first _ _ _ _ _ lowers₁ lowers₂ ih₁ ih₂ =>
    obtain ⟨one, nests₁⟩ := ih₁ (place + 1) live
    obtain ⟨two, nests₂⟩ := ih₂ (place + 1 + first.length + 1) live
    refine ⟨split m₁.count one two, fun given agrees starts fits => ?_⟩
    obtain ⟨inner, ends, targets⟩ := fits
    obtain ⟨starts₁, nested₁⟩ := nests₁ given (agrees.below lowers₂.grows.count) starts inner
    obtain ⟨starts₂, nested₂⟩ := nests₂ given (agrees.above lowers₁.grows.count) starts₁
      ⟨inner.grows lowers₁.grows, ends, fun label member => targets label (.tail _ member)⟩
    exact ⟨starts₂, .put rfl (.inr (targets _ (.head _))) (nested₁.append (.jump (.inl ends) nested₂))⟩
  | @spawn m m' _ _ _ _ _ _ _ _ _ lowers ih =>
    obtain ⟨expected, nests⟩ := ih (place + 1 + 1) live
    refine ⟨split (m.count + 1) (fun _ => some live) expected, fun given agrees starts _ => ?_⟩
    have ends : given ⟨m.count⟩ = some live :=
      agrees.below lowers.grows.count _ (Nat.le_refl _) (Nat.lt_succ_self _)
    obtain ⟨starts', nested⟩ := nests given (agrees.above (Nat.le_succ _)) starts nofun
    exact ⟨starts', .plain rfl (.check rfl ends (nested.append
      (.plain rfl (.plain rfl (.put rfl (.inr ends) .nil)))))⟩
  | forget _ ih => exact ih place live

end DreamMaker
