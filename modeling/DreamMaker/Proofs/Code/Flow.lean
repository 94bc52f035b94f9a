import DreamMaker.Proofs.Code.Lowering

namespace DreamMaker

open List

variable {count : Nat}

namespace Op

/-- The label at which an operation may go on. -/
def target? : Op → Option Label
  | .jump label | .jumpIfFalse label | .enumerate _ label | .switchCase label | .switchCaseRange label
  | .spawn label | .tryStart label _ => some label
  | _ => none

/-- The label that an operation places. -/
def placed? : Op → Option Label
  | .mark label | .loopStart label | .loopContinue label | .loopEnd label => some label
  | _ => none

/-- Whether the next operation may be run after this one. -/
def fallsThrough : Op → Bool
  | .jump _ | .return_ | .throw => false
  | _ => true

end Op

/-- Control goes from one operation to another, or to the end of the proc behind the last. -/
inductive Flow (code : Listing) : Nat → Nat → Prop
  | next {i op span} : code[i]? = some (op, span) → op.fallsThrough = true → Flow code i (i + 1)
  | jump {i j source target label a b} : code[i]? = some (source, a) → source.target? = some label →
      code[j]? = some (target, b) → target.placed? = some label → Flow code i j

theorem flow_iff : Flow code i j ↔ (code[i]?.any (·.1.fallsThrough) = true ∧ j = i + 1) ∨
      code[i]?.any (fun source => source.1.target?.any fun label =>
        code[j]?.any fun target => target.1.placed? == some label) = true := by
  constructor
  · rintro (⟨found, falls⟩ | ⟨found, target, landed, places⟩)
    · exact .inl ⟨by simp [found, falls], rfl⟩
    · exact .inr (by simp [found, target, landed, places])
  · rintro (⟨falls, rfl⟩ | jumps)
    · obtain ⟨⟨op, _⟩, found, falls⟩ := (Option.any_eq_true _ _).1 falls
      exact .next found falls
    · obtain ⟨⟨source, _⟩, found, jumps⟩ := (Option.any_eq_true _ _).1 jumps
      obtain ⟨label, target, jumps⟩ := (Option.any_eq_true _ _).1 jumps
      obtain ⟨⟨op, _⟩, landed, places⟩ := (Option.any_eq_true _ _).1 jumps
      exact .jump found target landed (beq_iff_eq.1 places)

instance (code : Listing) (i j : Nat) : Decidable (Flow code i j) := decidable_of_iff _ flow_iff.symm

/-! Labels in code. -/

/-- The labels that code places, in order. -/
def placedLabels (code : Listing) : List Label := code.filterMap fun entry => entry.1.placed?

/-- The labels at which code may go on. -/
def targetLabels (code : Listing) : List Label := code.filterMap fun entry => entry.1.target?

@[simp] theorem placedLabels_append :
    placedLabels (first ++ second) = placedLabels first ++ placedLabels second :=
  filterMap_append

@[simp] theorem targetLabels_append : targetLabels (first ++ second) = targetLabels first ++ targetLabels second :=
  filterMap_append

theorem placedLabels_pushes : placedLabels (pushes values) = [] := by
  simp [placedLabels, pushes, Op.placed?]

theorem targetLabels_pushes : targetLabels (pushes values) = [] := by
  simp [targetLabels, pushes, Op.target?]

theorem Op.inert_of_consumes {op : Op} (consumes : op.consumes? = some count) :
    op.placed? = none ∧ op.target? = none := by
  cases op <;> cases consumes <;> exact ⟨rfl, rfl⟩

theorem Line.inert (line : Line code) : placedLabels code = [] ∧ targetLabels code = [] := by
  cases line with
  | operate _ arity =>
    obtain ⟨places, jumps⟩ := Op.inert_of_consumes arity
    rw [placedLabels_append, targetLabels_append, placedLabels_pushes, targetLabels_pushes]
    exact ⟨by simp [placedLabels, places], by simp [targetLabels, jumps]⟩
  | store => exact ⟨rfl, rfl⟩
  | input => exact ⟨rfl, rfl⟩

theorem Pause.inert (pause : Pause code) : placedLabels code = [] ∧ targetLabels code = [] := by
  cases pause <;> exact ⟨rfl, rfl⟩

theorem Check.labels (check : Check target code) : placedLabels code = [] ∧ targetLabels code = [target] := by
  cases check <;> exact ⟨rfl, rfl⟩

theorem CaseTests.labels (form : CaseTests target tests) :
    placedLabels tests = [] ∧ ∀ label ∈ targetLabels tests, label = target := by
  induction form with
  | done => exact ⟨rfl, nofun⟩
  | single _ ih =>
    refine ⟨ih.1, ?_⟩
    rintro label (_ | ⟨_, member⟩)
    · rfl
    · exact ih.2 label member
  | range _ ih =>
    refine ⟨ih.1, ?_⟩
    rintro label (_ | ⟨_, member⟩)
    · rfl
    · exact ih.2 label member

theorem SwitchTests.labels {labels : List Label} (form : SwitchTests count labels tests) :
    placedLabels tests = [] ∧ (∀ target ∈ targetLabels tests, target ∈ labels) ∧ labels.Nodup ∧
      ∀ label ∈ labels, count ≤ label.index ∧ label.index < count + labels.length := by
  induction form with
  | done => exact ⟨rfl, nofun, .nil, nofun⟩
  | @next count labels tests _ first _ ih =>
    obtain ⟨places, within, distinct, bounds⟩ := ih
    refine ⟨by rw [placedLabels_append, first.labels.1, places, nil_append], ?_, ?_, ?_⟩
    · intro target member
      rw [targetLabels_append, mem_append] at member
      rcases member with member | member
      · rw [first.labels.2 target member]
        exact .head _
      · exact .tail _ (within target member)
    · refine nodup_cons.2 ⟨fun member => ?_, distinct⟩
      exact absurd (bounds _ member).1 (Nat.not_le.2 (Nat.lt_succ_self _))
    · rintro label (_ | ⟨_, member⟩)
      · exact ⟨Nat.le_refl _, by simp⟩
      · have bound := bounds label member
        rw [length_cons]
        omega

/-! Checks that read code from its first operation to its last. -/

section Scan

variable (step : σ → Op → Option σ)

/-- Takes a step for each operation, as long as it is possible. -/
def scan : σ → Listing → Option σ
  | state, [] => some state
  | state, entry :: rest => (step state entry.1).bind fun next => scan next rest

@[simp] theorem scan_nil : scan step state [] = some state := rfl

@[simp] theorem scan_cons :
    scan step state (entry :: rest) = (step state entry.1).bind fun next => scan step next rest := rfl

@[simp] theorem scan_append (state : σ) :
    scan step state (first ++ second) = (scan step state first).bind fun next => scan step next second := by
  induction first generalizing state with
  | nil => rfl
  | cons entry _ ih =>
    rw [cons_append, scan_cons, scan_cons]
    cases step state entry.1 with
    | none => rfl
    | some next => exact ih next

variable {step}

/-- Code that has been read to its end has a state at every place, and each is reached from
the one before. -/
theorem exists_states (done : scan step first code = some last) :
    ∃ state : Nat → σ, state 0 = first ∧ state code.length = last ∧
      ∀ i op span, code[i]? = some (op, span) → step (state i) op = some (state (i + 1)) := by
  induction code generalizing first with
  | nil => exact ⟨fun _ => first, rfl, Option.some.inj done, nofun⟩
  | cons _ _ ih =>
    obtain ⟨_, stepped, others⟩ := Option.bind_eq_some_iff.1 done
    obtain ⟨state, starts, ends, steps⟩ := ih others
    refine ⟨fun i => i.casesOn first state, rfl, ends, fun i op span found => ?_⟩
    cases i with
    | zero =>
      cases found
      exact stepped.trans (congrArg some starts.symm)
    | succ i => exact steps i op span found

end Scan

end DreamMaker
