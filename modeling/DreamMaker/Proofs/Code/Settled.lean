import DreamMaker.Proofs.Code.Flow

namespace DreamMaker

open List

/-- What a name stands for is in order, where some labels have been placed or will be. -/
structure NamedLabel.Settled (label : NamedLabel) (settled : List Label) (code : Listing) : Prop where
  placed : label.placed = true → label.start ∈ settled
  unplaced : label.placed = false → label.start ∉ settled ∧ (.jump label.start, label.firstUse) ∈ code
  stop : ∀ stop, label.stop? = some stop → stop ∈ settled
  next : ∀ next depth, label.next? = some (next, depth) → next ∈ settled

/-- All labels have been placed or will be, but for starts of names that have been jumped to only. -/
structure Settles (settled : List Label) (m : Marks) (code : Listing) : Prop where
  bounded : ∀ label ∈ settled, label.index < m.count
  once : settled.Nodup
  loops : ∀ loop ∈ m.loops, loop.next ∈ settled ∧ loop.stop ∈ settled
  starts : ∀ name label, m.label? name = some label → label.start.index < m.count
  known : ∀ name label, m.label? name = some label → label.Settled settled code
  distinct : ∀ name other label label', m.label? name = some label → m.label? other = some label' →
    label.start = label'.start → name = other
  targets : ∀ target ∈ targetLabels code, target ∈ settled ∨
    ∃ name label, m.label? name = some label ∧ label.placed = false ∧ label.start = target

namespace NamedLabel.Settled

variable {label : NamedLabel}

theorem mono (known : label.Settled settled code) (more : ∀ l ∈ settled, l ∈ settled')
    (fresh : label.placed = false → label.start ∉ settled') (longer : ∀ entry ∈ code, entry ∈ code') :
    label.Settled settled' code' where
  placed placed := more _ (known.placed placed)
  unplaced unplaced := ⟨fresh unplaced, longer _ (known.unplaced unplaced).2⟩
  stop stop ends := more _ (known.stop stop ends)
  next next depth goesOn := more _ (known.next next depth goesOn)

end NamedLabel.Settled

namespace Settles

variable (settles : Settles settled m code)

include settles

theorem perm (same : settled.Perm settled') : Settles settled' m code where
  bounded label member := settles.bounded label (same.mem_iff.2 member)
  once := same.nodup settles.once
  loops loop member := by
    rw [← same.mem_iff, ← same.mem_iff]
    exact settles.loops loop member
  starts := settles.starts
  known name label found := (settles.known name label found).mono (fun _ => same.mem_iff.1)
    (fun unplaced member => ((settles.known name label found).unplaced unplaced).1 (same.mem_iff.2 member))
    fun _ member => member
  distinct := settles.distinct
  targets target member := (settles.targets target member).imp_left same.mem_iff.1

/-- Labels are handed out. -/
theorem fresh (labels : List Label) (number : Nat) (distinct : labels.Nodup)
    (new : ∀ label ∈ labels, m.count ≤ label.index ∧ label.index < m.count + number) :
    Settles (labels ++ settled) (m.fresh number) code where
  bounded label member := by
    rcases mem_append.1 member with member | member
    · exact (new label member).2
    · exact Nat.lt_add_right _ (settles.bounded label member)
  once := by
    refine nodup_append.2 ⟨distinct, settles.once, fun one first two second same => ?_⟩
    have above := (new one first).1
    have below := settles.bounded two second
    rw [same] at above
    omega
  loops loop member := by
    obtain ⟨next, stop⟩ := settles.loops loop member
    exact ⟨mem_append_right _ next, mem_append_right _ stop⟩
  starts name label found := Nat.lt_add_right _ (settles.starts name label found)
  known name label found := by
    refine (settles.known name label found).mono (fun _ => mem_append_right _) (fun unplaced member => ?_)
      fun _ member => member
    rcases mem_append.1 member with member | member
    · exact absurd (settles.starts name label found) (Nat.not_lt.2 (new _ member).1)
    · exact ((settles.known name label found).unplaced unplaced).1 member
  distinct := settles.distinct
  targets target member := (settles.targets target member).imp_left (mem_append_right _)

/-- Code is emitted that jumps only to labels that are in order. -/
theorem emit (within : ∀ target ∈ targetLabels more, target ∈ settled ∨
      ∃ name label, m.label? name = some label ∧ label.placed = false ∧ label.start = target) :
    Settles settled m (code ++ more) where
  bounded := settles.bounded
  once := settles.once
  loops := settles.loops
  starts := settles.starts
  known name label found := (settles.known name label found).mono (fun _ member => member)
    (fun unplaced => ((settles.known name label found).unplaced unplaced).1) fun _ => mem_append_left _
  distinct := settles.distinct
  targets target member := by
    rw [targetLabels_append, mem_append] at member
    rcases member with member | member
    · exact settles.targets target member
    · exact within target member

/-- Other loops and blocks are around. -/
theorem around {loops : List OpenLoop} (within : ∀ loop ∈ loops, loop.next ∈ settled ∧ loop.stop ∈ settled) :
    Settles settled { m with loops, active } code :=
  { settles with loops := within }

theorem closeLoop : Settles settled m.closeLoop code :=
  settles.around fun loop member => settles.loops loop (mem_of_mem_tail member)

theorem escape (number : Nat) : Settles settled (m.escape number) code := by
  refine settles.around fun loop member => ?_
  rcases mem_append.1 member with member | member
  · obtain ⟨inner, inside, rfl⟩ := mem_map.1 member
    exact settles.loops inner (mem_of_mem_take inside)
  · exact settles.loops loop (mem_of_mem_drop member)

/-- What names stand for changes, but not where they start nor whether they have been placed. -/
theorem rename (same : m'.count = m.count)
    (within : ∀ loop ∈ m'.loops, loop.next ∈ settled ∧ loop.stop ∈ settled)
    (f : String → NamedLabel → NamedLabel) (lookup : ∀ name, m'.label? name = (m.label? name).map (f name))
    (keeps : ∀ name label, (f name label).start = label.start ∧ (f name label).placed = label.placed)
    (settled' : ∀ name label, m.label? name = some label → (f name label).Settled settled code) :
    Settles settled m' code := by
  have before {name : String} {label' : NamedLabel} (found : m'.label? name = some label') :
      ∃ label, m.label? name = some label ∧ f name label = label' := by
    rwa [lookup, Option.map_eq_some_iff] at found
  refine ⟨by rw [same]; exact settles.bounded, settles.once, within, ?_, ?_, ?_, ?_⟩
  · intro name label' found
    obtain ⟨label, known, rfl⟩ := before found
    rw [(keeps name label).1, same]
    exact settles.starts name label known
  · intro name label' found
    obtain ⟨label, known, rfl⟩ := before found
    exact settled' name label known
  · intro one two _ _ found₁ found₂ equal
    obtain ⟨first, known₁, rfl⟩ := before found₁
    obtain ⟨second, known₂, rfl⟩ := before found₂
    rw [(keeps one first).1, (keeps two second).1] at equal
    exact settles.distinct one two first second known₁ known₂ equal
  · intro target member
    refine (settles.targets target member).imp_right fun ⟨name, label, known, unplaced, start⟩ => ?_
    refine ⟨name, f name label, by rw [lookup, known, Option.map_some], ?_, ?_⟩
    · rw [(keeps name label).2, unplaced]
    · rw [(keeps name label).1, start]

theorem change (name : String) (f : NamedLabel → NamedLabel)
    (keeps : ∀ label, (f label).name = label.name ∧ (f label).start = label.start ∧
      (f label).placed = label.placed)
    (changed : ∀ label, m.label? name = some label → (f label).Settled settled code) :
    Settles settled (m.change name f) code := by
  refine settles.rename rfl settles.loops (fun other => if other = name then f else id) ?_ ?_ ?_
  · intro other
    rw [Marks.label?_change m fun label => (keeps label).1]
    split
    · rfl
    · rw [Option.map_id_fun, id]
  · intro other label
    split
    · exact (keeps label).2
    · exact ⟨rfl, rfl⟩
  · intro other label known
    split
    · rename_i same
      exact changed label (same ▸ known)
    · exact settles.known other label known

theorem openLoop {next : Label} (goesOn : next ∈ settled) (ends : stop ∈ settled) :
    Settles settled (m.openLoop next stop) code := by
  refine settles.rename rfl ?_ _ (Marks.label?_openLoop m next stop) ?_ ?_
  · rintro loop (_ | ⟨_, member⟩)
    · exact ⟨goesOn, ends⟩
    · exact settles.loops loop member
  · intro name label
    split <;> exact ⟨rfl, rfl⟩
  · intro name label known
    have before := settles.known name label known
    split
    · exact ⟨before.placed, before.unplaced, before.stop, by rintro _ _ ⟨⟩; exact goesOn⟩
    · exact before

/-- A name comes to stand for something else, and all others stand for the same as before. -/
theorem renew
    (settled' : List Label) (more : Listing) (grows : m.count ≤ m'.count) (loops : m'.loops = m.loops)
    (lookup : ∀ other, m'.label? other = if other = name then some new else m.label? other)
    (bounded : ∀ l ∈ settled', l.index < m'.count) (once : settled'.Nodup)
    (wider : ∀ l ∈ settled, l ∈ settled')
    (start : new.start.index < m'.count) (fits : new.Settled settled' (code ++ more))
    (apart : ∀ other label, other ≠ name → m.label? other = some label →
      label.start ≠ new.start ∧ (label.start ∈ settled' → label.start ∈ settled))
    (reached : ∀ target, target ∈ targetLabels more ∨
      (∃ label, m.label? name = some label ∧ label.start = target) →
      target ∈ settled' ∨ (new.placed = false ∧ new.start = target)) :
    Settles settled' m' (code ++ more) := by
  have found {other : String} {label : NamedLabel} (known : m'.label? other = some label) :
      (other = name ∧ label = new) ∨ (other ≠ name ∧ m.label? other = some label) := by
    rw [lookup] at known
    by_cases same : other = name
    · rw [if_pos same] at known
      exact .inl ⟨same, (Option.some.inj known).symm⟩
    · rw [if_neg same] at known
      exact .inr ⟨same, known⟩
  have itself : m'.label? name = some new := by rw [lookup, if_pos rfl]
  refine ⟨bounded, once, ?_, ?_, ?_, ?_, ?_⟩
  · intro loop member
    rw [loops] at member
    exact ⟨wider _ (settles.loops loop member).1, wider _ (settles.loops loop member).2⟩
  · intro other label known
    obtain ⟨rfl, rfl⟩ | ⟨differs, known⟩ := found known
    · exact start
    · exact Nat.lt_of_lt_of_le (settles.starts other label known) grows
  · intro other label known
    obtain ⟨rfl, rfl⟩ | ⟨differs, known⟩ := found known
    · exact fits
    · have before := settles.known other label known
      exact before.mono wider (fun unplaced member =>
        (before.unplaced unplaced).1 ((apart other label differs known).2 member))
        fun _ => mem_append_left _
  · intro one two label₁ label₂ known₁ known₂ same
    obtain ⟨rfl, rfl⟩ | ⟨differs₁, known₁⟩ := found known₁ <;>
      obtain ⟨rfl, rfl⟩ | ⟨differs₂, known₂⟩ := found known₂
    · rfl
    · exact absurd same.symm (apart two label₂ differs₂ known₂).1
    · exact absurd same (apart one label₁ differs₁ known₁).1
    · exact settles.distinct one two label₁ label₂ known₁ known₂ same
  · intro target member
    have covered (there : target ∈ targetLabels more ∨ ∃ label,
      m.label? name = some label ∧ label.start = target) :
        target ∈ settled' ∨ ∃ name label, m'.label? name = some label ∧
          label.placed = false ∧ label.start = target :=
      (reached target there).imp_right fun ⟨unplaced, same⟩ => ⟨name, new, itself, unplaced, same⟩
    rw [targetLabels_append, mem_append] at member
    rcases member with member | member
    · obtain inside | ⟨other, label, known, unplaced, same⟩ := settles.targets target member
      · exact .inl (wider _ inside)
      · by_cases equal : other = name
        · exact covered (.inr ⟨label, equal ▸ known, same⟩)
        · exact .inr ⟨other, label, by rw [lookup, if_neg equal, known], unplaced, same⟩
    · exact covered (.inl member)

/-- A name is jumped to. If it has not been mentioned before, it starts at a label of its own. -/
theorem goto (name : String) (span : Span) :
    Settles settled (m.mention name span) (code ++ [(.jump (m.startOf name), span)]) := by
  cases known : m.label? name with
  | some label =>
    rw [Marks.mention, Marks.startOf, known]
    refine settles.emit fun target member => ?_
    obtain rfl : target = label.start := by simpa [targetLabels, Op.target?] using member
    cases placed : label.placed with
    | true => exact .inl ((settles.known name label known).placed placed)
    | false => exact .inr ⟨name, label, known, placed, rfl⟩
  | none =>
    have count : (m.mention name span).count = m.count + 1 := by rw [Marks.mention, known]
    have start : m.startOf name = ⟨m.count⟩ := by rw [Marks.startOf, known]
    have above : (⟨m.count⟩ : Label) ∉ settled := fun member => Nat.lt_irrefl _ (settles.bounded _ member)
    let new : NamedLabel := { name, start := ⟨m.count⟩, placed := false, firstUse := span }
    have lookup (other : String) :
        (m.mention name span).label? other = if other = name then some new else m.label? other := by
      rw [Marks.label?_mention, Marks.labelOrNew, known, Option.getD_none]
    rw [start]
    refine settles.renew settled _ (by omega) (Marks.mention_loops m name span) lookup ?_ settles.once
      (fun _ member => member) (by show m.count < _; omega)
      ⟨by rintro ⟨⟩, fun _ => ⟨above, by simp [new]⟩, by rintro _ ⟨⟩, by rintro _ _ ⟨⟩⟩ ?_ ?_
    · intro l member
      exact Nat.lt_of_lt_of_le (settles.bounded l member) (by omega)
    · intro other label _ found
      refine ⟨fun same => ?_, fun member => member⟩
      have below := settles.starts other label found
      rw [same] at below
      exact Nat.lt_irrefl _ below
    · rintro target (member | ⟨label, found, _⟩)
      · exact .inr ⟨rfl, by simpa [targetLabels, Op.target?, eq_comm] using member⟩
      · rw [known] at found
        cases found

/-- A name is placed. -/
theorem place (free : (m.label? name).any NamedLabel.placed = false) (span : Span) :
    Settles (m.startOf name :: settled) (m.place name span) code := by
  let old := m.labelOrNew name span
  have start := Marks.labelOrNew_start m name span
  -- The start is either new or known from jumps only.
  have facts : m.startOf name ∉ settled ∧ (m.startOf name).index < (m.place name span).count ∧
      m.count ≤ (m.place name span).count ∧ (∀ stop, old.stop? = some stop → stop ∈ settled) ∧
      (∀ next depth, old.next? = some (next, depth) → next ∈ settled) ∧
      ∀ other label, other ≠ name → m.label? other = some label → label.start ≠ m.startOf name := by
    have count : (m.place name span).count = (m.mention name span).count := rfl
    cases known : m.label? name with
    | none =>
      have new : m.startOf name = ⟨m.count⟩ := by rw [Marks.startOf, known]
      have blank : old = { name, start := ⟨m.count⟩, placed := false, firstUse := span } := by
        show (m.label? name).getD _ = _
        rw [known, Option.getD_none]
      have grown : (m.mention name span).count = m.count + 1 := by rw [Marks.mention, known]
      rw [new, count, grown, blank]
      refine ⟨fun member => Nat.lt_irrefl _ (settles.bounded _ member), Nat.lt_succ_self _, Nat.le_succ _, nofun,
        nofun, fun other label _ found same => ?_⟩
      have below := settles.starts other label found
      rw [same] at below
      exact Nat.lt_irrefl _ below
    | some label =>
      have unplaced : label.placed = false := by simpa [known] using free
      have before := settles.known name label known
      have first : m.startOf name = label.start := by rw [Marks.startOf, known]
      have found : old = label := by
        show (m.label? name).getD _ = _
        rw [known, Option.getD_some]
      have same : (m.mention name span).count = m.count := by rw [Marks.mention, known]
      rw [first, count, same, found]
      exact ⟨(before.unplaced unplaced).1, settles.starts name label known, Nat.le_refl _, before.stop, before.next,
        fun other label' differs found equal => differs (settles.distinct other name label' label found known equal)⟩
  obtain ⟨apart, bound, grows, stops, nexts, others⟩ := facts
  have placed := settles.renew (m.startOf name :: settled) [] grows (Marks.mention_loops m name span)
    (Marks.label?_place m name span) ?_ (nodup_cons.2 ⟨apart, settles.once⟩) (fun _ => mem_cons_of_mem _)
    (start ▸ bound) ?_ ?_ ?_
  · simpa using placed
  · rintro l (_ | ⟨_, member⟩)
    · exact bound
    · exact Nat.lt_of_lt_of_le (settles.bounded l member) grows
  · refine ⟨fun _ => ?_, nofun, fun stop ends => .tail _ (stops stop ends),
      fun next depth goesOn => .tail _ (nexts next depth goesOn)⟩
    rw [start]
    exact .head _
  · intro other label differs found
    have other_start := others other label differs found
    refine ⟨?_, fun member => (mem_cons.1 member).resolve_left other_start⟩
    rw [start]
    exact other_start
  · rintro _ (member | ⟨label, known, rfl⟩)
    · cases member
    · left
      rw [Marks.startOf, known]
      exact .head _

/-- A block behind a name is opened, which ends at a new label. -/
theorem openBlock (name : String) : Settles (⟨m.count⟩ :: settled) (m.openBlock name) code := by
  have handed := settles.fresh [⟨m.count⟩] 1 (by simp) (by simp)
  have changed := handed.change name (fun label => { label with stop? := some ⟨m.count⟩ })
    (fun _ => ⟨rfl, rfl, rfl⟩) fun label known => by
      have before := handed.known name label known
      exact ⟨before.placed, before.unplaced, by rintro _ ⟨⟩; exact .head _, before.next⟩
  exact changed.around changed.loops

end Settles

end DreamMaker
