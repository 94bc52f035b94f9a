import DreamMaker.Proofs.Code.Marks

namespace DreamMaker

section Agrees

/-- What is given for labels is this for all labels of a range. -/
def Agrees (low high : Nat) (given expected : Label → α) : Prop :=
  ∀ label, low ≤ label.index → label.index < high → given label = expected label

/-- One thing for the labels below a bound, and another for the rest. -/
def split (bound : Nat) (first second : Label → α) (label : Label) : α :=
  if label.index < bound then first label else second label

theorem Agrees.below (agrees : Agrees low high given (split middle first second)) (within : middle ≤ high) :
    Agrees low middle given first := by
  intro label lower upper
  rw [agrees label lower (by omega), split, if_pos upper]

theorem Agrees.above (agrees : Agrees low high given (split middle first second)) (within : low ≤ middle) :
    Agrees middle high given second := by
  intro label lower upper
  rw [agrees label (by omega) upper, split, if_neg (Nat.not_lt.2 lower)]

end Agrees

namespace Marks

variable {m : Marks}

/-- Something holds of all labels at which names start. -/
def Starts (holds : Label → Prop) (m : Marks) : Prop :=
  ∀ name label, m.label? name = some label → holds label.start

namespace Starts

variable (starts : m.Starts holds)

include starts

theorem change (keeps : ∀ label, (f label).name = label.name ∧ (f label).start = label.start) :
    (m.change name f).Starts holds := by
  intro other label changed
  rw [label?_change m fun label => (keeps label).1] at changed
  split at changed
  · obtain ⟨before, same, rfl⟩ := Option.map_eq_some_iff.1 changed
    exact (keeps before).2 ▸ starts other before same
  · exact starts other label changed

/-- A name that is new starts at a label that is handed out for it. -/
theorem startOf
    (fresh : ∀ label : Label, m.count ≤ label.index → label.index < (m.mention name span).count → holds label) :
    holds (m.startOf name) := by
  unfold Marks.startOf
  unfold mention at fresh
  cases named : m.label? name with
  | some label => exact starts name label named
  | none =>
    rw [named] at fresh
    exact fresh ⟨m.count⟩ (Nat.le_refl _) (Nat.lt_succ_self _)

theorem mention (span : Span) (start : holds (m.startOf name)) : (m.mention name span).Starts holds := by
  intro other label found
  rw [label?_mention] at found
  split at found
  · cases found
    rw [labelOrNew_start]
    exact start
  · exact starts other label found

theorem place (span : Span) (start : holds (m.startOf name)) : (m.place name span).Starts holds :=
  (starts.mention span start).change fun _ => ⟨rfl, rfl⟩

theorem openBlock (name : String) : (m.openBlock name).Starts holds := by
  have unchanged := starts
  have changed : ((m.fresh 1).change name fun label => { label with stop? := some ⟨m.count⟩ }).Starts holds :=
    unchanged.change fun _ => ⟨rfl, rfl⟩
  exact changed

theorem openLoop (next stop : Label) : (m.openLoop next stop).Starts holds := by
  intro name _ found
  rw [label?_openLoop] at found
  obtain ⟨before, same, rfl⟩ := Option.map_eq_some_iff.1 found
  split <;> exact starts name before same

end Starts

end Marks

end DreamMaker
