import Mathlib.Data.List.Forall2
import DreamMaker.Proofs.Code.Lowering

namespace DreamMaker

open Marks

/-- The same loop later on, when more may have jumped out of it. -/
structure OpenLoop.Grows (before after : OpenLoop) : Prop where
  next : after.next = before.next
  stop : after.stop = before.stop
  escaped : before.escaped = true → after.escaped = true

theorem OpenLoop.Grows.refl {loop : OpenLoop} : loop.Grows loop := ⟨rfl, rfl, id⟩

theorem OpenLoop.Grows.trans {one : OpenLoop} (first : one.Grows two) (second : two.Grows three) :
    one.Grows three :=
  ⟨second.next.trans first.next, second.stop.trans first.stop, second.escaped ∘ first.escaped⟩

/-- What a name stands for later on: its start and, once it is placed, its end are the same. -/
structure NamedLabel.Grows (around : Prop) (before after : NamedLabel) : Prop where
  start : after.start = before.start
  placed : before.placed = true → after.placed = true
  stop : before.placed = true → after.stop? = before.stop?
  broken : before.placed = true → before.broken = true → after.broken = true
  spared : before.placed = true → ¬around → after = before

namespace NamedLabel.Grows

theorem refl {label : NamedLabel} : label.Grows around label :=
  ⟨rfl, id, fun _ => rfl, fun _ => id, fun _ _ => rfl⟩

theorem of_unplaced {label : NamedLabel} (unplaced : ¬label.placed = true) (start : label'.start = label.start) :
    label.Grows around label' :=
  ⟨start, (absurd · unplaced), (absurd · unplaced), (absurd · unplaced), (absurd · unplaced)⟩

theorem trans {one : NamedLabel} (first : one.Grows p two) (second : two.Grows q three)
    (around : one.placed = true → q → p) : one.Grows p three where
  start := second.start.trans first.start
  placed := second.placed ∘ first.placed
  stop placed := (second.stop (first.placed placed)).trans (first.stop placed)
  broken placed := second.broken (first.placed placed) ∘ first.broken placed
  spared placed apart := (second.spared (first.placed placed) (apart ∘ around placed)).trans
    (first.spared placed apart)

end NamedLabel.Grows

namespace Marks

variable {m : Marks} {name : String} {m₁ m₂ : Marks}

theorem label?_openBlock : (m.openBlock name).label? other = if other = name
      then (m.label? other).map fun label => { label with stop? := some ⟨m.count⟩ } else m.label? other := by
  show ((m.fresh 1).change name fun label => { label with stop? := some ⟨m.count⟩ }).label? other = _
  rw [label?_change]
  · rfl
  · exact fun _ => rfl

theorem label?_break : (m.change name fun label => { label with broken :=true }).label? other = if other = name
      then (m.label? other).map fun label => { label with broken := true } else m.label? other := by
  rw [label?_change]
  exact fun _ => rfl

/-- What is known of names is not lost. -/
def KeepsLabels (m m' : Marks) : Prop :=
  ∀ name label, m.label? name = some label → ∃ label', m'.label? name = some label' ∧
    label.Grows (name ∈ m.active) label'

theorem KeepsLabels.refl (m : Marks) : m.KeepsLabels m := fun _ label known => ⟨label, known, .refl⟩

theorem KeepsLabels.trans (first : m.KeepsLabels m₁) (second : m₁.KeepsLabels m₂)
    (around : ∀ name label, m.label? name = some label → label.placed = true →
      name ∈ m₁.active → name ∈ m.active) :
    m.KeepsLabels m₂ := by
  intro name label known
  obtain ⟨label₁, known₁, grown₁⟩ := first name label known
  obtain ⟨label₂, known₂, grown₂⟩ := second name label₁ known₁
  exact ⟨label₂, known₂, grown₁.trans grown₂ (around name label known)⟩

theorem keepsLabels_mention (m : Marks) : m.KeepsLabels (m.mention name span) := by
  intro _ label known
  refine ⟨label, ?_, .refl⟩
  rw [label?_mention]
  split
  · rename_i same
    rw [labelOrNew, ← same, known, Option.getD_some]
  · exact known

/-- A name that has not been placed is placed, and nothing else changes. -/
theorem keepsLabels_place (free : (m.label? name).any NamedLabel.placed = false) :
    m.KeepsLabels (m.place name span) ∧ m.KeepsLabels ((m.place name span).openBlock name) := by
  have own {label : NamedLabel} (known : m.label? name = some label) :
      ¬label.placed = true ∧ (m.labelOrNew name span).start = label.start := by
    rw [labelOrNew, known]
    exact ⟨by simpa [known] using free, rfl⟩
  constructor <;> intro other label known
  case' left => rw [label?_place]
  case' right => rw [label?_openBlock, label?_place]
  all_goals
    split
    · rename_i same
      obtain ⟨unplaced, start⟩ := own (same ▸ known)
      exact ⟨_, rfl, .of_unplaced unplaced start⟩
    · exact ⟨label, known, .refl⟩

theorem keepsLabels_openLoop (m : Marks) (next : Label) : m.KeepsLabels (m.openLoop next stop) := by
  intro _ _ known
  rw [label?_openLoop, known, Option.map_some]
  refine ⟨_, rfl, ?_⟩
  split
  · rename_i both
    have member := List.contains_iff_mem.1 (Bool.and_eq_true_iff.1 both).1
    exact ⟨rfl, id, fun _ => rfl, fun _ => id, fun _ apart => absurd member apart⟩
  · exact .refl

theorem keepsLabels_break (member : name ∈ m.active) :
    m.KeepsLabels (m.change name fun label => { label with broken := true }) := by
  intro _ label known
  rw [label?_break, known]
  split
  · rename_i same
    exact ⟨_, rfl, rfl, id, fun _ => rfl, fun _ _ => rfl, fun _ apart => absurd (same ▸ member) apart⟩
  · exact ⟨label, rfl, .refl⟩

/-- The marks later on: the same loops and blocks are around, and the names are still known. -/
structure Grows (m m' : Marks) : Prop where
  count : m.count ≤ m'.count
  active : m'.active = m.active
  loops : List.Forall₂ OpenLoop.Grows m.loops m'.loops
  labels : m.KeepsLabels m'

theorem forall₂_grows_refl (loops : List OpenLoop) : List.Forall₂ OpenLoop.Grows loops loops :=
  List.forall₂_same.2 fun _ _ => .refl

theorem forall₂_grows_trans (first : List.Forall₂ OpenLoop.Grows one two)
    (second : List.Forall₂ OpenLoop.Grows two three) : List.Forall₂ OpenLoop.Grows one three := by
  induction first generalizing three with
  | nil => exact second
  | cons head _ ih =>
    obtain ⟨_, _, next, tail, rfl⟩ := List.forall₂_cons_left_iff.1 second
    exact .cons (head.trans next) (ih tail)

theorem Grows.refl (m : Marks) : m.Grows m := ⟨Nat.le_refl _, rfl, forall₂_grows_refl m.loops, .refl m⟩

theorem Grows.trans (first : m.Grows m₁) (second : m₁.Grows m₂) : m.Grows m₂ where
  count := Nat.le_trans first.count second.count
  active := second.active.trans first.active
  loops := forall₂_grows_trans first.loops second.loops
  labels := first.labels.trans second.labels fun _ _ _ _ => (first.active ▸ ·)

/-- Names that are known stay known, with their starts, and what has been placed stays placed. -/
def Later (m m' : Marks) : Prop :=
  ∀ name label, m.label? name = some label →
    ∃ label', m'.label? name = some label' ∧ label'.start = label.start ∧
      (label.placed = true → label'.placed = true)

theorem Later.refl : m.Later m := fun _ label known => ⟨label, known, rfl, id⟩

theorem Later.trans (first : m.Later m₁) (second : m₁.Later m₂) : m.Later m₂ := by
  intro name label known
  obtain ⟨label₁, known₁, start₁, placed₁⟩ := first name label known
  obtain ⟨label₂, known₂, start₂, placed₂⟩ := second name label₁ known₁
  exact ⟨label₂, known₂, start₂.trans start₁, placed₂ ∘ placed₁⟩

theorem Grows.later (grows : m.Grows m') : m.Later m' := by
  intro name label known
  obtain ⟨label', known', grown⟩ := grows.labels name label known
  exact ⟨label', known', grown.start, grown.placed⟩

theorem grows_fresh : m.Grows (m.fresh number) :=
  ⟨Nat.le_add_right _ _, rfl, forall₂_grows_refl m.loops, .refl m⟩

theorem grows_escape (m : Marks) (number : Nat) : m.Grows (m.escape number) := by
  refine ⟨Nat.le_refl _, rfl, ?_, .refl m⟩
  show List.Forall₂ _ m.loops ((m.loops.take number).map ({ · with escaped := true }) ++ m.loops.drop number)
  induction m.loops generalizing number with
  | nil => simp
  | cons _ _ ih =>
    cases number with
    | zero => exact forall₂_grows_refl _
    | succ number => exact .cons ⟨rfl, rfl, fun _ => rfl⟩ (ih number)

end Marks

theorem Lowers.grows (lowers : Lowers mode piece m code t m') : m.Grows m' := by
  induction lowers with
  | nothing | line | halted | leave | continueLoop | noRounds | noCases => exact .refl _
  | breakLoop => exact grows_escape _ _
  | @breakLabel m name label _ a _ _ _ around =>
    have broken : m.Grows (m.change name fun label => { label with broken := true }) :=
      ⟨Nat.le_refl _, rfl, forall₂_grows_refl _, keepsLabels_break around⟩
    exact broken.trans (grows_escape _ _)
  | continueLabel => exact grows_escape _ _
  | @goto m name a =>
    have mentioned : m.Grows (m.mention name a) :=
      ⟨m.mention_count_le name a, m.mention_active name a, by rw [m.mention_loops]; exact forall₂_grows_refl _,
        m.keepsLabels_mention⟩
    exact mentioned.trans (grows_escape _ _)
  | @label m name a free =>
    exact ⟨m.mention_count_le name a, m.mention_active name a,
      by rw [show (m.place name a).loops = m.loops from m.mention_loops name a]; exact forall₂_grows_refl _,
      (keepsLabels_place free).1⟩
  | @labelBlock m m' name _ t a _ free _ ih =>
    have loops := m.mention_loops name a
    have active := m.mention_active name a
    have counted : m.count ≤ (m.place name a).count := m.mention_count_le name a
    have inner : (m.place name a).count + 1 ≤ m'.count := ih.count
    refine ⟨by show m.count ≤ m'.count; omega, ?_, loops ▸ ih.loops, ?_⟩
    · show m'.active.tail = m.active
      rw [ih.active, ← active]
      rfl
    · refine (keepsLabels_place free).2.trans ih.labels fun _ label known placed member => ?_
      rcases List.mem_cons.1 member with rfl | outer
      · simp [known, placed] at free
      · exact active ▸ outer
  | append _ _ _ first second => exact first.trans second
  | scope _ ih | enumerator _ _ _ ih | forget _ ih => exact ih
  | skip _ _ ih => exact grows_fresh.trans ih
  | fork _ _ _ first second | switch _ _ _ first second => exact grows_fresh.trans (first.trans second)
  | @loop piece m m' _ _ _ _ _ _ _ _ _ _ _ ih =>
    have inner : m.count + 3 ≤ m'.count := ih.count
    refine ⟨by show m.count ≤ m'.count; omega, ih.active, ?_,
      Marks.KeepsLabels.trans (keepsLabels_openLoop (m.fresh 3) _) ih.labels fun _ _ _ _ => id⟩
    have around := ih.loops
    show List.Forall₂ OpenLoop.Grows m.loops m'.loops.tail
    obtain ⟨_, outer, _, grown, same⟩ := List.forall₂_cons_left_iff.1 around
    rw [same]
    exact grown
  | case _ _ first second => exact first.trans second
  | @spawn m m' _ _ _ _ _ _ _ _ _ _ ih =>
    have inner : m.count + 1 ≤ m'.count := ih.count
    have detached : m.KeepsLabels (m.fresh 1).detach := .refl m
    exact ⟨by show m.count ≤ m'.count; omega, rfl, forall₂_grows_refl _,
      detached.trans ih.labels fun _ _ _ _ => (absurd · List.not_mem_nil)⟩

end DreamMaker
