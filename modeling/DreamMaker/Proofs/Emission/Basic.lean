import DreamMaker.Proofs.Code.Lowering
import DreamMaker.Proofs.Emission.Silent

namespace DreamMaker

/-- No error is reported but for want of a label, unless statements may fail. -/
def Tolerates (failing : Prop) (reports : Array Report) : Prop :=
  ∀ error : SemanticError, error.toReport ∈ reports → (∃ name, error.cause = .unknownLabel name) ∨ failing

namespace Assembly

variable {α : Type} {x : Attempt α} {mode : Mode}

theorem Keeps.tolerates (keeps : Keeps s s') (tolerated : Tolerates failing s'.reports) :
    Tolerates failing s.reports :=
  fun error member => tolerated error (keeps _ member)

/-! Steps as changes of the code and of the marks. -/

theorem marks_bind {f : α → Attempt β} (first : ∀ s, (x s).2.marks = s.marks)
    (second : ∀ a s, (f a s).2.marks = s.marks) : ∀ s, ((x >>= f) s).2.marks = s.marks :=
  Run.bind_rel (R := fun s s' : Assembly => s'.marks = s.marks) (fun one two => two.trans one) first second

/-- The state after some operations have been emitted. -/
def writes (s : Assembly) : Listing → Assembly
  | [] => s
  | entry :: rest => writes { s with ops := s.ops.push entry } rest

def withMarks (s : Assembly) (m : Marks) : Assembly :=
  { s with labelCount := m.count, loops := m.loops, labels := m.labels, active := m.active }

section

variable (s : Assembly)

@[simp] theorem writes_ops (code : Listing) : (s.writes code).ops.toList = s.ops.toList ++ code := by
  induction code generalizing s with
  | nil => simp [writes]
  | cons _ _ ih => simp [writes, ih]

theorem writes_append : s.writes (first ++ second) = (s.writes first).writes second := by
  induction first generalizing s with
  | nil => rfl
  | cons _ _ ih => exact ih _

@[simp] theorem writes_marks (code : Listing) : (s.writes code).marks = s.marks := by
  induction code generalizing s with
  | nil => rfl
  | cons _ _ ih => exact ih _

theorem writes_keeps : Keeps s (s.writes code) := by
  induction code generalizing s with
  | nil => exact .refl s
  | cons entry _ ih => exact ih { s with ops := s.ops.push entry }

@[simp] theorem withMarks_ops : (s.withMarks m).ops = s.ops := rfl

theorem closeLoop_eq : closeLoop s = (s.marks.isEscaped, s.withMarks s.marks.closeLoop) := by
  obtain ⟨_, _, _, _, _, _, loops, _, _, _⟩ := s
  cases loops <;> rfl

end

theorem labelStart_eq : labelStart name span s = (s.marks.startOf name, s.withMarks (s.marks.mention name span)) := by
  have same : s.marks.label? name = s.label? name := rfl
  unfold Marks.startOf Marks.mention
  rw [labelStart, Run.state_get_bind, same]
  cases s.label? name <;> rfl

/-! Steps that compile something. -/

/-- What is known of a statement that may have failed. -/
def known : Except SemanticError Termination → Termination
  | .ok termination => termination
  | .error _ => .none

def Excused (mode : Mode) (result : Except SemanticError Termination) : Prop :=
  ∀ error, result = .error error → (∃ name, error.cause = .unknownLabel name) ∨ mode.failing

/-- From one state to another, code is emitted for a piece that ends in a known way. -/
def Emits (mode : Mode) (piece : Piece) (s : Assembly) (t : Termination) (s' : Assembly) : Prop :=
  ∃ code, s'.ops.toList = s.ops.toList ++ code ∧ Lowers mode piece s.marks code t s'.marks

/-- A step that compiles a piece of a proc. -/
structure Compiles (mode : Mode) (piece : Piece) (x : Assemble Termination) : Prop where
  keeps : ∀ s, Keeps s (x s).2
  emits : ∀ s, Tolerates mode.failing (x s).2.reports → Emits mode piece s (x s).1 (x s).2

/-- A step that compiles a piece of a proc or fails. -/
structure Tries (mode : Mode) (piece : Piece) (x : Attempt Termination) : Prop where
  keeps : ∀ s, Keeps s (x s).2
  emits : ∀ s, Tolerates mode.failing (x s).2.reports → Excused mode (x s).1 →
    Emits mode piece s (known (x s).1) (x s).2

/-- A step that compiles statements in a scope of their own. -/
structure Encloses (mode : Mode) (x : Assemble Termination) : Prop where
  keeps : ∀ s, Keeps s (x s).2
  emits : ∀ s, Tolerates mode.failing (x s).2.reports → ∃ code a b,
    (x s).2.ops.toList = s.ops.toList ++ (.enterScope, a) :: (code ++ [(.exitScope, b)]) ∧
      Lowers mode .statements s.marks code (x s).1 (x s).2.marks

theorem Quiet.emits (quiet : Quiet s s₁) (emits : Emits mode piece s₁ t s') : Emits mode piece s t s' := by
  obtain ⟨code, ops, lowers⟩ := emits
  exact ⟨code, by rw [ops, quiet.ops], by rw [← quiet.marks]; exact lowers⟩

theorem Quiet.emits_nothing (quiet : Quiet s s') : Emits mode .statements s .none s' :=
  ⟨[], by simp [quiet.ops], by rw [quiet.marks]; exact .nothing⟩

theorem Emits.quiet (emits : Emits mode piece s t s₁) (quiet : Quiet s₁ s') : Emits mode piece s t s' := by
  obtain ⟨code, ops, lowers⟩ := emits
  exact ⟨code, by rw [quiet.ops, ops], by rw [quiet.marks]; exact lowers⟩

theorem Emits.append (first : Emits mode .statements s t₁ s₁)
    (second : Emits mode .statements s₁ t₂ s₂) (goesOn : t₁.isUnconditional = true → mode.loose) :
    Emits mode .statements s (t₁.union t₂) s₂ := by
  obtain ⟨code₁, ops₁, lowers₁⟩ := first
  obtain ⟨code₂, ops₂, lowers₂⟩ := second
  exact ⟨code₁ ++ code₂, by rw [ops₂, ops₁, List.append_assoc], .append lowers₁ lowers₂ goesOn⟩

theorem Compiles.silent_bind {x : Assemble α} (silent : Silent x)
    (rest : ∀ a, Compiles mode piece (f a)) : Compiles mode piece (x >>= f) where
  keeps s := (silent s).keeps.trans ((rest _).keeps _)
  emits s tolerated := (silent s).emits ((rest _).emits _ tolerated)

theorem Compiles.pure_none : Compiles mode .statements (Pure.pure .none) where
  keeps := Keeps.refl
  emits s _ := (Quiet.refl s).emits_nothing

theorem Encloses.compiles {x : Assemble Termination} (encloses : Encloses mode x) : Compiles mode .statements x where
  keeps := encloses.keeps
  emits s tolerated := by
    obtain ⟨_, _, _, ops, lowers⟩ := encloses.emits s tolerated
    exact ⟨_, ops, .scope lowers⟩

/-- The state in which the inside of a scope is run. -/
def inside (s : Assembly) (span : Span) : Assembly :=
  { s.writes [(.enterScope, span)] with frame := s.frame.openScope }

theorem inScope_ops {x : Assemble α} (ops : (x (s.inside span)).2.ops.toList = (s.inside span).ops.toList ++ code) :
    (inScope span x s).2.ops.toList = s.ops.toList ++ (.enterScope, span) :: (code ++ [(.exitScope, span)]) := by
  show ({ (x (s.inside span)).2 with frame := _ }.writes [(.exitScope, span)]).ops.toList = _
  simp only [writes_ops, ops]
  simp [inside]

theorem inScope_encloses {x : Assemble Termination} (compiles : Compiles mode .statements x) :
    Encloses mode (inScope span x) where
  keeps s := compiles.keeps (s.inside span)
  emits s tolerated := by
    obtain ⟨code, ops, lowers⟩ := compiles.emits (s.inside span) tolerated
    exact ⟨code, span, span, inScope_ops ops, lowers⟩

theorem tryInScope_tries {x : Attempt Termination} (tries : Tries mode .statements x) :
    Tries mode .statements (tryInScope span x) where
  keeps s := tries.keeps (s.inside span)
  emits s tolerated excused := by
    obtain ⟨_, ops, lowers⟩ := tries.emits (s.inside span) tolerated excused
    exact ⟨_, inScope_ops ops, .scope lowers⟩

theorem Tries.lift {x : Assemble Termination} (compiles : Compiles mode piece x) : Tries mode piece (liftM x) where
  keeps := compiles.keeps
  emits s tolerated _ := compiles.emits s tolerated

theorem Tries.pure_none : Tries mode .statements (Pure.pure .none) := .lift .pure_none

theorem settle_eq (x : Attempt Termination) (s : Assembly) :
    settle x s = match x s with
      | (.ok t, s') => (t, s')
      | (.error error, s') => (.none, { s' with reports := s'.reports.push error.toReport }) := by
  show (match x s with | (result, s') => (_ : Assembly → Termination × Assembly) s') = _
  rcases x s with ⟨error | t, s'⟩ <;> rfl

/-! Simple statements. -/

/-- A step that emits nothing but a simple statement, if it does not fail. -/
structure Simple (x : Attempt α) : Prop where
  keeps : ∀ s, Keeps s (x s).2
  marks : ∀ s, (x s).2.marks = s.marks
  code : ∀ s, ∃ code, (x s).2.ops.toList = s.ops.toList ++ code ∧ (code = [] ∨ Line code)

theorem SilentAttempt.simple (silent : SilentAttempt x) : Simple x where
  keeps s := (silent.quiet s).keeps
  marks s := (silent.quiet s).marks
  code s := ⟨[], by rw [(silent.quiet s).ops, List.append_nil], .inl rfl⟩

theorem Simple.silent_bind {x : Attempt β} {f : β → Attempt α} (silent : SilentAttempt x)
    (rest : ∀ b, Simple (f b)) : Simple (x >>= f) where
  keeps := Run.bind_rel Keeps.trans silent.simple.keeps fun b => (rest b).keeps
  marks := marks_bind silent.simple.marks fun b => (rest b).marks
  code s := by
    have quiet := silent.quiet s
    rw [Run.bind_eq]
    rcases run : x s with ⟨error | b, s'⟩ <;> rw [run] at quiet
    · exact ⟨[], (congrArg Array.toList quiet.ops).trans (List.append_nil _).symm, .inl rfl⟩
    · obtain ⟨code, ops, form⟩ := (rest b).code s'
      exact ⟨code, by rw [ops, quiet.ops], form⟩

theorem Simple.writes {code : Listing} (line : Line code) (run : ∀ s, x s = (.ok a, s.writes code)) : Simple x where
  keeps s := by
    rw [run]
    exact writes_keeps s
  marks s := by
    rw [run]
    exact writes_marks s code
  code s := by
    rw [run]
    exact ⟨code, writes_ops s code, .inr line⟩

theorem Simple.emits (simple : Simple x) (s : Assembly) : Emits mode .statements s .none (x s).2 := by
  obtain ⟨code, ops, rfl | line⟩ := simple.code s
  · exact ⟨[], ops, by rw [simple.marks]; exact .nothing⟩
  · exact ⟨code, ops, by rw [simple.marks]; exact .line line⟩

theorem Tries.simple_bind (simple : Simple x)
    (rest : ∀ a, Tries mode .statements (f a)) : Tries mode .statements (x >>= f) where
  keeps := Run.bind_rel Keeps.trans simple.keeps fun a => (rest a).keeps
  emits s := by
    have emits : Emits mode .statements s .none (x s).2 := simple.emits s
    rw [Run.bind_eq]
    rcases run : x s with ⟨error | a, s'⟩ <;> rw [run] at emits
    · exact fun _ _ => emits
    · intro tolerated excused
      exact emits.append ((rest a).emits s' tolerated excused) nofun

/-- A statement that fails is reported and left behind. -/
theorem settle_compiles {x : Attempt Termination} (tries : Tries mode .statements x) :
    Compiles mode .statements (settle x) where
  keeps s := by
    have keeps := tries.keeps s
    rw [settle_eq]
    rcases run : x s with ⟨error | t, s'⟩ <;> rw [run] at keeps
    · exact fun r member => Array.mem_push_of_mem _ (keeps r member)
    · exact keeps
  emits s := by
    have emits := tries.emits s
    rw [settle_eq]
    rcases run : x s with ⟨error | t, s'⟩ <;> rw [run] at emits
    · intro tolerated
      have kept : Keeps s' { s' with reports := s'.reports.push error.toReport } :=
        fun r member => Array.mem_push_of_mem _ member
      have excused : Excused mode (.error error) := by
        rintro _ ⟨⟩
        exact tolerated error Array.mem_push_self
      exact emits (kept.tolerates tolerated) excused
    · exact fun tolerated => emits tolerated nofun

/-! Values. -/

/-- A step that pushes so many values, or fails behind some of them. -/
structure Pushing (count : Nat) (x : Attempt Unit) : Prop where
  keeps : ∀ s, Keeps s (x s).2
  marks : ∀ s, (x s).2.marks = s.marks
  values : ∀ s, ∃ values, (x s).2.ops.toList = s.ops.toList ++ pushes values ∧
    ((x s).1 = .ok () → values.length = count)
  cause : ∀ s error, (x s).1 = .error error → ∀ name, error.cause ≠ .unknownLabel name

theorem Pushing.none : Pushing 0 (Pure.pure ()) where
  keeps := Keeps.refl
  marks _ := rfl
  values s := ⟨[], by simp [pushes], fun _ => rfl⟩
  cause _ _ failed := nomatch failed

theorem Pushing.value (value : Term) (span : Span) : Pushing 1 (liftM (emit (.push value) span)) where
  keeps := Keeps.refl
  marks _ := rfl
  values s := ⟨[(value, span)], writes_ops s [(.push value, span)], fun _ => rfl⟩
  cause _ _ failed := nomatch failed

theorem Pushing.bind {x : Attempt Unit} (one : Pushing first x)
    (two : Pushing second (f ())) : Pushing (first + second) (x >>= f) where
  keeps := Run.bind_rel Keeps.trans one.keeps fun _ => two.keeps
  marks := marks_bind one.marks fun _ => two.marks
  values s := by
    obtain ⟨before, ops, counted⟩ := one.values s
    rw [Run.bind_eq]
    rcases run : x s with ⟨error | _, s'⟩ <;> rw [run] at ops counted
    · exact ⟨before, ops, nofun⟩
    obtain ⟨behind, more, counted'⟩ := two.values s'
    refine ⟨before ++ behind, ?_, fun done => ?_⟩
    · rw [more, ops]
      simp [pushes]
    · rw [List.length_append, counted rfl, counted' done]
  cause := Run.bind_cause one.cause fun _ => two.cause

theorem push_pushing {e : Expr} : Pushing 1 (push e) where
  keeps := Run.bind_rel Keeps.trans (resolve_silent e none).simple.keeps fun value =>
    (Pushing.value value e.span).keeps
  marks := marks_bind (resolve_silent e none).simple.marks fun value => (Pushing.value value _).marks
  values s := by
    have quiet := (resolve_silent e none).quiet s
    rw [push, Run.bind_eq]
    rcases run : resolve e none s with ⟨error | value, s'⟩ <;> rw [run] at quiet
    · exact ⟨[], (congrArg Array.toList quiet.ops).trans (by simp [pushes]), nofun⟩
    · obtain ⟨values, ops, counted⟩ := (Pushing.value value e.span).values s'
      exact ⟨values, by rw [ops, quiet.ops], counted⟩
  cause := Run.bind_cause (resolve_silent e none).cause fun value => (Pushing.value value e.span).cause

theorem forM_push_pushing {operands : List Expr} : Pushing operands.length (operands.forM push) := by
  induction operands with
  | nil => exact .none
  | cons _ _ ih =>
    rw [List.length_cons, Nat.add_comm]
    exact .bind push_pushing ih

/-- A step that compiles a statement behind so many values that have been pushed for it. -/
structure Follows (mode : Mode) (count : Nat) (x : Attempt Termination) : Prop where
  keeps : ∀ s, Keeps s (x s).2
  emits : ∀ s values, values.length = count → Tolerates mode.failing (x s).2.reports → Excused mode (x s).1 →
    ∃ code, (x s).2.ops.toList = s.ops.toList ++ code ∧
      Lowers mode .statements s.marks (pushes values ++ code) (known (x s).1) (x s).2.marks

theorem Follows.tries {x : Attempt Termination} (follows : Follows mode 0 x) : Tries mode .statements x where
  keeps := follows.keeps
  emits s tolerated excused := follows.emits s [] rfl tolerated excused

theorem Tries.follows {x : Attempt Termination} (tries : Tries mode .statements x) : Follows mode 0 x where
  keeps := tries.keeps
  emits s values counted tolerated excused := by
    obtain rfl : values = [] := List.eq_nil_of_length_eq_zero counted
    exact tries.emits s tolerated excused

theorem Follows.silent_bind (silent : SilentAttempt x)
    (rest : ∀ a, Follows mode count (f a)) : Follows mode count (x >>= f) where
  keeps := Run.bind_rel Keeps.trans silent.simple.keeps fun a => (rest a).keeps
  emits s values counted tolerated excused := by
    have quiet := silent.quiet s
    have cause := silent.cause s
    rw [Run.bind_eq] at tolerated excused ⊢
    rcases run : x s with ⟨error | a, s'⟩ <;> rw [run] at quiet cause tolerated excused
    · obtain ⟨name, same⟩ | failing := excused error rfl
      · exact absurd same (cause error rfl name)
      · refine ⟨[], (congrArg Array.toList quiet.ops).trans (List.append_nil _).symm, ?_⟩
        rw [List.append_nil, quiet.marks]
        exact .halted values failing
    · obtain ⟨code, ops, lowers⟩ := (rest a).emits s' values counted tolerated excused
      exact ⟨code, by rw [← quiet.ops]; exact ops, by rw [← quiet.marks]; exact lowers⟩

theorem Tries.silent_bind (silent : SilentAttempt x)
    (rest : ∀ a, Tries mode .statements (f a)) : Tries mode .statements (x >>= f) :=
  (Follows.silent_bind silent fun a => (rest a).follows).tries

theorem Tries.unless {check : Bool}
    (other : ∀ name, cause ≠ .unknownLabel name) (rest : Tries mode .statements (f ())) :
    Tries mode .statements (if check then f () else fail cause span >>= f) := by
  cases check with
  | true => exact rest
  | false => exact .silent_bind (.fail other) fun _ => rest

theorem Tries.silent (silent : SilentAttempt x) : Tries mode .statements (x >>= fun _ => Pure.pure .none) :=
  .silent_bind silent fun _ => ⟨Keeps.refl, fun s _ _ => (Quiet.refl s).emits_nothing⟩

/-- If pushing values fails, those that have been pushed stay. -/
theorem Tries.pushing_bind {x : Attempt Unit}
    (pushing : Pushing count x) (follows : Follows mode count (f ())) : Tries mode .statements (x >>= f) where
  keeps := Run.bind_rel Keeps.trans pushing.keeps fun _ => follows.keeps
  emits s tolerated excused := by
    have marks := pushing.marks s
    obtain ⟨values, ops, counted⟩ := pushing.values s
    have cause := pushing.cause s
    rw [Run.bind_eq] at tolerated excused ⊢
    rcases run : x s with ⟨error | _, s'⟩ <;> rw [run] at tolerated excused marks ops counted cause
    · obtain ⟨name, same⟩ | failing := excused error rfl
      · exact absurd same (cause error rfl name)
      · exact ⟨_, ops, by rw [marks]; exact .halted values failing⟩
    · obtain ⟨code, more, lowers⟩ := follows.emits s' values (counted rfl) tolerated excused
      exact ⟨pushes values ++ code, by rw [more, ops, List.append_assoc], by rw [← marks]; exact lowers⟩

end Assembly

end DreamMaker
