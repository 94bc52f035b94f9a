import DreamMaker.Proofs.Emission.Jump
import DreamMaker.Proofs.Emission.Loop

/-!
What the statements that hold others do with their parts. Whatever all such statements have in common is proved by
induction on their shape.
-/

namespace DreamMaker.Assembly

/-- Compiles two parts of which one is run, where the code before and between them is known. -/
def forkCode (head link : Nat → Listing) (stop : Nat → Label) (one two : Assemble Termination) (span : Span) :
    Attempt Termination := fun s =>
  let after := one ((s.withMarks (s.marks.fresh 2)).writes (head s.marks.count))
  let last := two (after.2.writes (link s.marks.count))
  (.ok (after.1.branch last.1), last.2.writes [(.mark (stop s.marks.count), span)])

/-- Compiles a part that is run or not, where the code before it is known. -/
def skipCode (check : Nat → Listing) (one : Assemble Termination) (span : Span) : Attempt Termination := fun s =>
  let after := one ((s.withMarks (s.marks.fresh 1)).writes (check s.marks.count))
  (.ok (after.1.branch .none), after.2.writes [(.mark ⟨s.marks.count⟩, span)])

/-- The state in which a part is compiled that is run later. -/
def inSpawn (s : Assembly) (span : Span) : Assembly :=
  ((s.withMarks (s.marks.fresh 1)).writes [(.spawn ⟨s.marks.count⟩, span)]).withMarks (s.marks.fresh 1).detach

def spawnTail (s : Assembly) (span : Span) : Listing :=
  [(.push (.null span), span), (.return_, span), (.mark ⟨s.marks.count⟩, span)]

/-- Compiles a part that is run later. -/
def spawnCode (one : Assemble Termination) (span : Span) : Attempt Termination := fun s =>
  let after := (one (s.inSpawn span)).2
  (.ok .none, (after.withMarks (after.marks.attach s.marks)).writes (s.spawnTail span))

/-- What a statement does with its parts, behind so many pushed values: it compiles each or reports that some are
left out, unless it fails. -/
inductive Shape : Nat → ((ι → Part) → Attempt Termination) → Prop
  | silent {α : Type} {count} {x : Attempt α} {f : α → (ι → Part) → Attempt Termination} : SilentAttempt x →
      (∀ a, Shape count (f a)) → Shape count fun parts => x >>= fun a => f a parts
  | simple {f} {x : Attempt Unit} : Simple x → Shape 0 f → Shape 0 fun parts => x >>= fun _ => f parts
  | values {count f} {x : Attempt Unit} : Pushing count x → Shape count f → Shape 0 fun parts =>
    x >>= fun _ => f parts
  | scope {f span} : Shape 0 f → Shape 0 fun parts => tryInScope span (f parts)
  | fails {cause span} : (∀ name, cause ≠ .unknownLabel name) → Shape 0 fun _ => fail cause span
  | part {i} : (∀ j, j = i) → Shape 0 fun parts => liftM (parts i).code
  | omitted {i reason} : (∀ j, j = i) → Shape 0 fun parts => do
      discard (parts i).span reason
      return .none
  | chosen {i k reason} : (∀ j, j = i ∨ j = k) → Shape 0 fun parts => do
      discard (parts k).span reason
      (parts i).code
  | skip {i check span} : (∀ count, Check ⟨count⟩ (check count)) → (∀ j, j = i) →
      Shape 0 fun parts => skipCode check (parts i).code span
  | fork {i k? span} {other stop : Nat → Label} {head : Nat → Listing} {link : (ι → Span) → Nat → Listing} :
      (∀ spans count, Fork count (other count) (stop count) (head count) (link spans count)) →
      (∀ j, j = i ∨ some j = k?) →
      Shape 0 fun parts => forkCode head (link fun i => (parts i).span) stop (parts i).code
        (k?.elim (pure .none) fun k => (parts k).code) span
  | spawn {i span} : (∀ j, j = i) → Shape 1 fun parts => spawnCode (parts i).code span
  | loop {i loop span} : Loops .statements loop span → (∀ j, j = i) → Shape 0 fun parts => liftM (loop (parts i))
  | doWhile {i condition span} : (∀ j, j = i) → Shape 0 fun parts => doWhileLoop (parts i) condition span
  | enumerator {i binder span} (kind : Enumerator) : (∀ j, j = i) → Shape kind.arity fun parts => do
      emit (.createEnumerator kind) span
      enumeratorLoop binder (parts i) span

variable {i : ι} {parts : ι → Part}

theorem sole (j : Unit) : j = () := rfl

theorem sole_or (j : Unit) : j = () ∨ some j = none := .inl rfl

theorem either (j : Bool) : j = true ∨ some j = some false := by
  cases j <;> simp

/-! The shapes of the statements. -/

theorem ifElse_shape (condition : Expr) (all : ∀ j, j = i ∨ some j = k?) :
    Shape 0 fun parts => ifElse condition (parts i) (k?.map parts) := by
  refine .silent (resolve_silent condition none) fun value => ?_
  cases k? with
  | none =>
    have only (j : ι) : j = i := (all j).resolve_right nofun
    cases value.truth? with
    | none => exact .skip (fun _ => .value) only
    | some known =>
      cases known with
      | true => exact .part only
      | false => exact .omitted only
  | some k =>
    have both (j : ι) : j = i ∨ j = k := (all j).imp_right Option.some.inj
    cases value.truth? with
    | none =>
      have form (spans : ι → Span) (count : Nat) : Fork count ⟨count + 1⟩ ⟨count⟩
          [(.push value, value.span), (.jumpIfFalse ⟨count + 1⟩, value.span)]
          [(.jump ⟨count⟩, spans i), (.mark ⟨count + 1⟩, spans k)] := .condition
      exact .fork form all
    | some known =>
      cases known with
      | true => exact .chosen both
      | false => exact .chosen fun j => (both j).symm

theorem protect_shape (binder? : Option LocalVar) (all : ∀ j, j = i ∨ some j = k?) (span : Span) :
    Shape 0 fun parts => protect (parts i) binder? (k?.map parts) span := by
  have binds (var : LocalVar) : SilentAttempt (some <$> bindLocal var.name var.type? var.span .invalidCatchVar) :=
    .bind (bindLocal_silent nofun) fun _ => .pure _
  cases binder? with
  | none => cases k? <;> exact .silent (.pure none) fun _ => .fork (fun _ _ => .handler) all
  | some var => cases k? <;> exact .silent (binds var) fun _ => .fork (fun _ _ => .handler) all

section

variable (only : ∀ j, j = i)

include only

theorem spawn_shape (delay? : Option Expr) (span : Span) : Shape 0 fun parts => spawn delay? (parts i) span := by
  cases delay? with
  | none => exact .values (.value _ _) (.spawn only)
  | some _ => exact .values push_pushing (.spawn only)

theorem endless_shape (span : Span) : Shape 0 fun parts => liftM (endless (parts i) span) :=
  .scope (.loop endlessLoop_loops only)

theorem whileLoop_shape (condition : Expr) (span : Span) :
    Shape 0 fun parts => whileLoop condition (parts i) span := by
  refine .silent (resolve_silent condition none) fun value => ?_
  cases value.truth? with
  | none => exact .loop testedLoop_loops only
  | some known =>
    cases known with
    | true => exact endless_shape only span
    | false => exact .omitted only

theorem forLoop_shape (start? condition? next? : Option Expr) (span : Span) :
    Shape 0 fun parts => forLoop start? condition? next? (parts i) span := by
  have goesOn (first? : Option Term) :
      Shape 0 fun parts => (do rounds first? (← resolveOption next? none) (parts i) span) :=
    .silent resolveOption_silent fun _ => .loop rounds_loops only
  refine .scope ?_
  rcases start? with _ | _
  rotate_left
  refine .simple loopInit_simple ?_
  all_goals
    refine .silent resolveOption_silent fun value? => ?_
    cases value?.bind Term.truth? with
    | none => exact goesOn value?
    | some known =>
      cases known with
      | true => exact goesOn none
      | false => exact .omitted only

theorem forInLoop_shape (binder : Expr) (types? : Option ValueTypes) (list : Expr) (span : Span) :
    Shape 0 fun parts => forInLoop binder types? list (parts i) span := by
  refine .values push_pushing (.silent (.lift listFilter?_silent) fun type? => ?_)
  cases type? with
  | none => exact .enumerator .list only
  | some type =>
    refine .silent (.lift Quiet.refl) fun _ => ?_
    split
    · exact .enumerator (.filteredList type) only
    · exact .silent (.lift (report_silent _)) fun _ => .enumerator .list only

theorem forRangeLoop_shape (binder start stop : Expr) (step? : Option Expr) (span : Span) :
    Shape 0 fun parts => forRangeLoop binder start stop step? (parts i) span := by
  have begins {x : Attempt Unit} (pushing : Pushing 1 x) : Shape 0 fun parts => (do
      push start
      push stop
      x
      emit (.createEnumerator .range) span
      enumeratorLoop binder (parts i) span) := by
    have all : Pushing (1 + (1 + 1)) (push start >>= fun _ => push stop >>= fun _ => x) :=
      .bind push_pushing (.bind push_pushing pushing)
    have shape : Shape 0 fun parts => ((push start >>= fun _ => push stop >>= fun _ => x) >>= fun _ => do
        emit (.createEnumerator .range) span
        enumeratorLoop binder (parts i) span) := .values all (.enumerator .range only)
    simpa only [bind_assoc] using shape
  cases step? with
  | none => exact begins (.value _ _)
  | some _ => exact begins push_pushing

theorem forTypeLoop_shape (binder : Expr) (span : Span) : Shape 0 fun parts => forTypeLoop binder (parts i) span := by
  unfold forTypeLoop
  split
  · refine .silent (.lift Quiet.refl) fun s => ?_
    rename_i type _
    cases s.tree.hasType type with
    | true => exact .enumerator (.objects type) only
    | false => exact .silent (.fail nofun) fun _ => .enumerator (.objects type) only
  · exact .fails nofun

end

/-! Every shape follows the rules. -/

theorem skipCode_tries
    (form : ∀ count, Check ⟨count⟩ (check count)) (compiles : Compiles mode .statements one) :
    Tries mode .statements (skipCode check one span) := by
  let begun (s : Assembly) : Assembly := (s.withMarks (s.marks.fresh 1)).writes (check s.marks.count)
  have began (s : Assembly) : Keeps s (begun s) := writes_keeps (s.withMarks (s.marks.fresh 1))
  refine ⟨fun s => ?_, fun s tolerated _ => ?_⟩
  · exact (began s).trans ((compiles.keeps (begun s)).trans (writes_keeps _))
  · obtain ⟨code, ops, lowers⟩ := compiles.emits (begun s) ((writes_keeps _).tolerates tolerated)
    rw [writes_marks] at lowers
    refine ⟨check s.marks.count ++ code ++ [(.mark ⟨s.marks.count⟩, span)], ?_, ?_⟩
    · rw [skipCode, writes_ops, ops, writes_ops]
      simp
    · rw [skipCode]
      exact .skip (form _) lowers

theorem forkCode_tries {other : Nat → Label}
    (form : ∀ count, Fork count (other count) (stop count) (head count) (link count))
    (first : Compiles mode .statements one) (second : Compiles mode .statements two) :
    Tries mode .statements (forkCode head link stop one two span) := by
  let begun (s : Assembly) : Assembly := (s.withMarks (s.marks.fresh 2)).writes (head s.marks.count)
  let between (s : Assembly) : Assembly := (one (begun s)).2.writes (link s.marks.count)
  have began (s : Assembly) : Keeps s (begun s) := writes_keeps (s.withMarks (s.marks.fresh 2))
  have passed (s : Assembly) : Keeps (one (begun s)).2 (between s) := writes_keeps _
  refine ⟨fun s => ?_, fun s tolerated _ => ?_⟩
  · refine (began s).trans ((first.keeps (begun s)).trans ((passed s).trans ?_))
    exact (second.keeps (between s)).trans (writes_keeps _)
  · have tolerated₂ := (writes_keeps _).tolerates tolerated
    obtain ⟨code₂, ops₂, lowers₂⟩ := second.emits (between s) tolerated₂
    have tolerated₁ := ((passed s).trans (second.keeps (between s))).tolerates tolerated₂
    obtain ⟨code₁, ops₁, lowers₁⟩ := first.emits (begun s) tolerated₁
    rw [writes_marks] at lowers₁ lowers₂
    refine ⟨head s.marks.count ++ code₁ ++ link s.marks.count ++ code₂ ++
      [(.mark (stop s.marks.count), span)], ?_, ?_⟩
    · rw [forkCode, writes_ops, ops₂, writes_ops, ops₁, writes_ops]
      simp
    · rw [forkCode]
      exact .fork (form _) lowers₁ lowers₂

theorem spawnCode_follows (compiles : Compiles mode .statements one) :
    Follows mode 1 (spawnCode one span) := by
  refine ⟨fun s => ?_, fun s _ single tolerated _ => ?_⟩
  · exact compiles.keeps (s.inSpawn span)
  · obtain ⟨_, rfl⟩ := List.length_eq_one_iff.1 single
    obtain ⟨code, ops, lowers⟩ := compiles.emits (s.inSpawn span) tolerated
    refine ⟨(.spawn ⟨s.marks.count⟩, span) :: (code ++ s.spawnTail span), ?_, ?_⟩
    · rw [spawnCode, writes_ops, withMarks_ops, ops]
      simp [inSpawn]
    · rw [spawnCode]
      show Lowers mode .statements s.marks _ .none ((one (s.inSpawn span)).2.marks.attach s.marks)
      exact .spawn lowers

theorem Shape.follows (shape : Shape count f) (encloses : ∀ i, Encloses mode (parts i).code) :
    Follows mode count (f parts) := by
  have compiles (i : ι) : Compiles mode .statements (parts i).code := (encloses i).compiles
  induction shape with
  | silent silent _ ih => exact .silent_bind silent ih
  | simple simple _ ih => exact (Tries.simple_bind simple fun _ => ih.tries).follows
  | values pushing _ ih => exact (Tries.pushing_bind pushing ih).follows
  | scope _ ih => exact (tryInScope_tries ih.tries).follows
  | fails => exact (⟨Keeps.refl, fun s _ _ => (Quiet.refl s).emits_nothing⟩ : Tries ..).follows
  | part => exact (Tries.lift (compiles _)).follows
  | omitted => exact (Tries.silent (.lift (discard_silent))).follows
  | chosen => exact .silent_bind (.lift (discard_silent)) fun _ => (Tries.lift (compiles _)).follows
  | skip form => exact (skipCode_tries form (compiles _)).follows
  | @fork _ k? _ _ _ _ _ form =>
    cases k? with
    | none => exact (forkCode_tries (form _) (compiles _) .pure_none).follows
    | some k => exact (forkCode_tries (form _) (compiles _) (compiles k)).follows
  | spawn => exact spawnCode_follows (compiles _)
  | loop loops => exact (Tries.lift (loops.compiles (encloses _))).follows
  | doWhile => exact (doWhileLoop_tries (encloses _)).follows
  | enumerator kind => exact enumeratorLoop_follows (encloses _) _ kind

theorem Shape.tries (shape : Shape 0 f)
    (encloses : ∀ i, Encloses mode (parts i).code) : Tries mode .statements (f parts) :=
  (shape.follows encloses).tries

end DreamMaker.Assembly
