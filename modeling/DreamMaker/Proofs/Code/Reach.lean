import Mathlib.Logic.Relation
import DreamMaker.Proofs.Code.Flow

namespace DreamMaker

variable {live passes : Label → Prop} {here there : Prop} {code head link : Listing} {span : Span}

/-! Where control can be. -/

/-- An operation places a label that is live. -/
def Op.Enters (live : Label → Prop) (op : Op) : Prop := ∃ label, op.placed? = some label ∧ live label

/-- An operation goes on at live labels, or jumps to a label that is let pass. -/
def Op.Lands (live passes : Label → Prop) (op : Op) : Prop :=
  ∀ label, op.target? = some label → live label ∨ (op = .jump label ∧ passes label)

/-- If control comes to code at its start, when `here` holds, or at live labels, it goes on at live labels, or at
the end when `there` holds. -/
def Carries (live passes : Label → Prop) : Prop → Listing → Prop → Prop
  | here, [], there => here → there
  | here, entry :: rest, there => (here ∨ entry.1.Enters live → entry.1.Lands live passes) ∧
    Carries live passes ((here ∨ entry.1.Enters live) ∧ entry.1.fallsThrough = true) rest there

namespace Carries

variable {label : Label} {op : Op}

theorem weaken (carries : Carries live passes here code there) (pre : here' → here) (post : there → there') :
    Carries live passes here' code there' := by
  induction code generalizing here here' with
  | nil => exact post ∘ carries ∘ pre
  | cons _ _ ih => exact ⟨carries.1 ∘ Or.imp_left pre, ih carries.2 (And.imp_left (Or.imp_left pre))⟩

theorem append (one : Carries live passes here first there) (two : Carries live passes there second there') :
    Carries live passes here (first ++ second) there' := by
  induction first generalizing here with
  | nil => exact two.weaken one id
  | cons _ _ ih => exact ⟨one.1, ih one.2⟩

theorem nil (post : here → there) : Carries live passes here [] there := post

/-- An operation that has to do with no label. -/
theorem plain (role : (op.placed?, op.target?) = (none, none)) (others : Carries live passes here code there) :
    Carries live passes here ((op, span) :: code) there := by
  obtain ⟨places, jumps⟩ := Prod.mk.inj role
  have enters : ¬ op.Enters live := by
    rintro ⟨label, placed, _⟩
    rw [places] at placed
    cases placed
  refine ⟨fun _ label target => ?_, others.weaken (fun came => came.1.resolve_right enters) id⟩
  rw [jumps] at target
  cases target

theorem leave (others : Carries live passes False code there) :
    Carries live passes here ((.return_, span) :: code) there := by
  refine ⟨?_, others.weaken (fun came => nomatch came.2) id⟩
  rintro - _ ⟨⟩

theorem jump (lands : here → live label ∨ passes label)
    (others : Carries live passes False code there) :
      Carries live passes here ((.jump label, span) :: code) there := by
  refine ⟨?_, others.weaken (fun came => nomatch came.2) id⟩
  rintro (came | ⟨_, ⟨⟩, _⟩) _ ⟨⟩
  exact (lands came).imp_right fun pass => ⟨rfl, pass⟩

/-- An operation that goes on with the next one or at a label. -/
theorem check (role : (op.placed?, op.target?) = (none, some label)) (lands : here → live label)
    (others : Carries live passes here code there) : Carries live passes here ((op, span) :: code) there := by
  obtain ⟨places, target⟩ := Prod.mk.inj role
  have enters : ¬ op.Enters live := by
    rintro ⟨other, placed, _⟩
    rw [places] at placed
    cases placed
  refine ⟨fun came other found => ?_, others.weaken (fun came => came.1.resolve_right enters) id⟩
  rw [target] at found
  cases found
  exact .inl (lands (came.resolve_right enters))

/-- An operation that places a label. -/
theorem put (role : (op.placed?, op.target?) = (some label, none))
    (others : Carries live passes (here ∨ live label) code there) :
    Carries live passes here ((op, span) :: code) there := by
  obtain ⟨places, target⟩ := Prod.mk.inj role
  refine ⟨fun _ other found => ?_, others.weaken (fun came => came.1.imp_right ?_) id⟩
  · rw [target] at found
    cases found
  rintro ⟨other, placed, alive⟩
  rw [places] at placed
  cases placed
  exact alive

/-- Code that has to do with no label. -/
theorem inert (places : placedLabels code = []) (jumps : targetLabels code = []) :
    Carries live passes here code here := by
  rw [placedLabels, List.filterMap_eq_nil_iff] at places
  rw [targetLabels, List.filterMap_eq_nil_iff] at jumps
  induction code with
  | nil => exact id
  | cons entry _ ih =>
    have others := ih (fun entry member => places entry (.tail _ member)) fun entry member =>
      jumps entry (.tail _ member)
    exact .plain (by rw [places entry (.head _), jumps entry (.head _)]) others

theorem scope (carries : Carries live passes here code there) :
    Carries live passes here ((.enterScope, a) :: (code ++ [(.exitScope, b)])) there :=
  .plain rfl (carries.append (.plain rfl (.nil id)))

end Carries

/-! Paths. -/

/-- Whether control is at a place, for every place in code and the one behind it. -/
theorem Carries.exists_places (carries : Carries live passes here code there) :
    ∃ place : Nat → Prop, (here → place 0) ∧ (place code.length → there) ∧
      ∀ i op span, code[i]? = some (op, span) → (place i ∨ op.Enters live → op.Lands live passes) ∧
        ((place i ∨ op.Enters live) ∧ op.fallsThrough = true → place (i + 1)) := by
  induction code generalizing here with
  | nil => exact ⟨fun _ => here, id, carries, nofun⟩
  | cons _ _ ih =>
    obtain ⟨place, starts, ends, steps⟩ := ih carries.2
    refine ⟨fun i => i.casesOn here place, id, ends, fun i op span found => ?_⟩
    cases i with
    | zero =>
      cases found
      exact ⟨carries.1, starts⟩
    | succ i => exact steps i op span found

/-- Control goes on, but by no jump to certain labels. -/
def FlowAvoiding (avoided : Label → Prop) (code : Listing) (i j : Nat) : Prop :=
  Flow code i j ∧ ∀ label span, code[i]? = some (.jump label, span) → ¬ avoided label

theorem Carries.reach (carries : Carries live passes True code there)
    (path : Relation.ReflTransGen (FlowAvoiding passes code) 0 code.length) : there := by
  obtain ⟨place, starts, ends, steps⟩ := carries.exists_places
  -- control is where the code before it goes on, or at a label that is live
  have invariant (i : Nat) (reached : Relation.ReflTransGen (FlowAvoiding passes code) 0 i) :
      place i ∨ ∃ op span, code[i]? = some (op, span) ∧ op.Enters live := by
    induction reached with
    | refl => exact .inl (starts trivial)
    | @tail i _ _ edge ih =>
      obtain ⟨flow, kept⟩ := edge
      have came {op : Op} {span : Span} (found : code[i]? = some (op, span)) : place i ∨ op.Enters live := by
        refine ih.imp_right ?_
        rintro ⟨_, place, same, enters⟩
        cases found.symm.trans same
        exact enters
      cases flow with
      | next found falls => exact .inl ((steps i _ _ found).2 ⟨came found, falls⟩)
      | jump found target landed places =>
        rcases (steps i _ _ found).1 (came found) _ target with alive | ⟨rfl, pass⟩
        · exact .inr ⟨_, _, landed, _, places, alive⟩
        · exact absurd pass (kept _ _ found)
  rcases invariant _ path with last | ⟨op, span, found, _⟩
  · exact ends last
  · rw [List.getElem?_eq_none (Nat.le_refl _)] at found
    cases found

/-! Code in parts. -/

variable {live passes : Label → Prop}

theorem Line.carries (line : Line code) : Carries live passes here code here :=
  .inert line.inert.1 line.inert.2

theorem Pause.carries (pause : Pause code) : Carries live passes here code here :=
  .inert pause.inert.1 pause.inert.2

theorem pushes_carries : Carries live passes here (pushes values) here :=
  .inert placedLabels_pushes targetLabels_pushes

theorem Check.carries (check : Check target code) (alive : live target) : Carries live passes here code here := by
  cases check with
  | value => exact .plain rfl (.check rfl (fun _ => alive) (.nil id))
  | null => exact .plain rfl (.plain rfl (.check rfl (fun _ => alive) (.nil id)))

theorem Fork.carries_head
    (fork : Fork count other stop head link) (alive : live other) : Carries live passes here head here := by
  cases fork with
  | condition => exact .plain rfl (.check rfl (fun _ => alive) (.nil id))
  | handler => exact .check rfl (fun _ => alive) (.nil id)

theorem Fork.carries_link
    (fork : Fork count other stop head link) (ends : here → live stop) : Carries live passes here link True := by
  cases fork with
  | condition => exact .jump (fun came => .inl (ends came)) (.put rfl (.nil fun _ => trivial))
  | handler =>
    exact .plain rfl (.jump (fun came => .inl (ends came)) (.put rfl (.nil fun _ => trivial)))

theorem CaseTests.carries (form : CaseTests target tests) (alive : live target) :
    Carries live passes here tests here := by
  induction form with
  | done => exact .nil id
  | single _ ih => exact .plain rfl (.check rfl (fun _ => alive) ih)
  | range _ ih => exact .plain rfl (.plain rfl (.check rfl (fun _ => alive) ih))

theorem SwitchTests.carries {labels : List Label}
    (form : SwitchTests count labels tests) (alive : ∀ label ∈ labels, live label) :
    Carries live passes here tests here := by
  induction form with
  | done => exact .nil id
  | next first _ ih =>
    exact (first.carries (alive _ (.head _))).append (ih fun label member => alive label (.tail _ member))

/-- The jump back to the start of a loop. -/
theorem Pause.carries_back (form : Pause pause)
    (alive : live start) : Carries live passes here (pause ++ [(.jump start, span)]) there :=
  form.carries.append (.jump (fun _ => .inl alive) (.nil False.elim))

end DreamMaker
