import DreamMaker.Proofs.Resolution.Parts

/-!
Where no object is visible, neither are the locals of a proc: what its scopes hold makes no difference, and no local,
field or proc of `src` gets into a term.
-/

namespace DreamMaker

open Context

namespace Resolve

/-- Steps that are the same make the same run. -/
theorem congruence_eq : Congruence id mild fun _ x y => x = y where
  pure _ := by rw [Numbered.renumber_id]
  fail _ _ := rfl
  report _ := rfl
  mono here _ := here
  next {_ _ _ _ _ _ x y f g} here there := by
    subst here
    funext before
    rw [Run.bind_eq, Run.bind_eq]
    rcases run : x before with ⟨_ | a, after⟩
    · rfl
    · have rest := there a ⟨before, congrArg Prod.fst run⟩
      rw [Numbered.renumber_id] at rest
      exact congrFun rest after

end Resolve

/-- The term stands for no local and no field, and calls no proc of `src`. -/
def Term.Form.IsDetached (form : Form) : Prop :=
  (∀ name id, form ≠ .var (.local name id)) ∧ (∀ name, form ≠ .var (.field name)) ∧
    ∀ name args, form ≠ .call (.src name) args

namespace Context

variable {tree : TypeTree} {owner : TypePath} {visibility : Visibility}

/-- Of its frame an expression sees the path of the proc and the global vars that the proc declares. -/
theorem steps_hidden (hidden : visibility.seesInstance = false) (path : frame'.path = frame.path)
    (globals : frame'.globals = frame.globals) : Steps id (fun _ => True) (fun _ x y => x = y)
      ⟨tree, owner, some frame, visibility⟩ ⟨tree, owner, some frame', visibility⟩ := by
  have locals (frame : Frame) (name : String) : local? ⟨tree, owner, some frame, visibility⟩ name = none := by
    rw [local?, hidden]
    rfl
  have known (name : String) : frame'.global? name = frame.global? name := congrArg (·.lookup name) globals
  exact {
    toCongruence := Resolve.congruence_eq
    types := .refl _
    owner := rfl
    globalVars := (Paired.refl ⟨tree, owner, none, visibility⟩).globalVars
    name := by
      intro _ name span
      have declared : declared ⟨tree, owner, some frame, visibility⟩ name span =
          declared ⟨tree, owner, some frame', visibility⟩ name span := by
        simp only [declared, locals, field?, global?, Option.bind_some, known]
      simp only [Context.name, Context.reserved?, declared, path]
    procTarget := fun _ target => by cases target <;> rfl
    writable := by
      intro target place
      rw [place.renumber_id]
      simp only [writable, isConstLocal, isConstField, locals]
    globalField := fun _ _ => rfl }

/-- In the value of a global var nothing stands for a part of an object. -/
theorem detached {frame? : Option Frame} :
    Fits ⟨tree, owner, frame?, .static⟩ (fun _ => True) (fun _ => True) Term.Form.IsDetached where
  null := trivial
  makes makes _ _ _ := by
    cases makes with
    | call _ visible =>
      refine ⟨by simp, by simp, ?_⟩
      rintro name _ ⟨⟩
      cases visible name rfl
    | scope scopes => cases scopes <;> simp [Term.Form.IsDetached]
    | _ => simp [Term.Form.IsDetached]
  names names := by
    cases names with
    | constant found | «local» found | field found => cases found
    | atom | ambient | global => exact Term.each_mk.2 ⟨by simp [Term.Form.IsDetached], List.forall_mem_nil _⟩
  roots _ roots _ := by
    cases roots <;> exact ⟨by rintro _ _ ⟨⟩, by rintro _ ⟨⟩, by rintro _ _ ⟨⟩⟩
  link _ _ _ _ := by simp [Term.Form.IsDetached]
  chain _ _ := by simp [Term.Form.IsDetached]
  globalCall _ _ := by simp [Term.Form.IsDetached]
  nullTest _ := by simp [Term.Form.IsDetached]

end Context

namespace Expr

/-- Where no object is visible, binding gives the same term or error and the same reports in two procs of one name
that declare the same global vars, whatever their locals. Into the value of a global var no local, field or proc of
`src` gets. -/
theorem resolve_hidden (tree : TypeTree) (owner : TypePath) (e : Expr) (inferred? : Option TypePath)
    (before : Array Report) :
    (∀ (visibility : Visibility) (frame frame' : Frame), visibility ≠ .everything → frame'.owner = frame.owner →
      frame'.name = frame.name → frame'.globals = frame.globals →
      (e.resolve ⟨tree, owner, some frame', visibility⟩ inferred?).run.run before =
        (e.resolve ⟨tree, owner, some frame, visibility⟩ inferred?).run.run before) ∧
    ∀ (frame? : Option Frame) (term : Term) (after : Array Report),
      (e.resolve ⟨tree, owner, frame?, .static⟩ inferred?).run.run before = (.ok term, after) →
      ∀ part : Term, part.IsPart term → (∀ name id, part.form ≠ .var (.local name id)) ∧
        (∀ name, part.form ≠ .var (.field name)) ∧ ∀ name args, part.form ≠ .call (.src name) args := by
  constructor
  · intro visibility frame frame' hidden owners names globals
    have path : frame'.path = frame.path := by
      unfold Frame.path
      rw [owners, names]
    have unseen : visibility.seesInstance = false := by
      cases visibility <;> first | rfl | exact absurd rfl hidden
    exact (congrFun ((steps_hidden unseen path globals).runs_expr inferred? e) before).symm
  · intro frame? term after run
    exact (resolve_binds run (fun _ => True) fun _ _ => trivial).each detached
      fun _ _ => trivial

/-- What `__PROC__` stands for is the same in a proc with a local. -/
theorem resolve_hidden_proc :
    let frame : Frame := { owner := .root, name := "f" }
    let frame' : Frame := { frame with scope := [⟨"x", 0, none, none⟩] }
    let term : Term := .plain (.atom (.proc frame.path)) .unknown
    ((ofName "__PROC__" .unknown).resolve ⟨.builtin, .root, some frame', .static⟩ none).run.run #[] =
      (.ok term, #[]) ∧
      ∀ part : Term, part.IsPart term → (∀ name id, part.form ≠ .var (.local name id)) ∧
        (∀ name, part.form ≠ .var (.field name)) ∧ ∀ name args, part.form ≠ .call (.src name) args := by
  intro frame frame' term
  have hidden := resolve_hidden .builtin .root (ofName "__PROC__" .unknown) none #[]
  exact ⟨(hidden.1 .static frame frame' nofun rfl rfl rfl).trans rfl, hidden.2 (some frame) term #[] rfl⟩

end Expr

end DreamMaker
