import DreamMaker.Proofs.Resolution.Parts

/-!
Where no global var is visible, none gets into a term, unless something leads around the question of what is
visible: a `::` that names a var of the root or all global vars, `vars` behind `global`, or a `::` or a link that
leads to a static var.
-/

namespace DreamMaker

open List

/-- A field stands before every global var of this name that an object or a type could lead to. -/
def TypeTree.Covers (tree : TypeTree) (name : String) : Prop :=
  ∀ owner var, tree.globalVar? owner name = some var → owner.isRoot = false ∧ (tree.field? owner name).isSome

theorem TypeTree.covers_of_unnamed {tree : TypeTree} (unnamed : ∀ entry ∈ tree.globalIds, entry.1.2 ≠ name) :
    tree.Covers name := by
  intro _ _ found
  obtain ⟨id, known, _⟩ := Option.bind_eq_some_iff.1 found
  obtain ⟨path, _, held⟩ := exists_of_findSome?_eq_some known
  obtain ⟨_, _, ids, _⟩ := lookup_eq_some_iff.1 held
  exact absurd rfl (unnamed ((path, name), id) (by rw [ids]; simp))

/-- An expression of this kind asks for global vars only by a bare name or behind `global`, which heed what is
visible. -/
def Node.Heedful (tree : TypeTree) : Node → Prop
  | .scope none _ none => False
  | .scope (some _) key none => tree.Covers key
  | .chain base links =>
    (base.name? = some "global" → ∀ first ∈ links.head?, ∀ searched, first.kind ≠ .field "vars" searched) ∧
      ∀ link ∈ links, ∀ key, link.kind = .field key false → tree.Covers key
  | _ => True

/-- The term is neither a global var nor the list of all of them. -/
def Term.Form.IsNoGlobal (form : Form) : Prop :=
  form ≠ .ambient .globalVars ∧ ∀ name id, form ≠ .var (.global name id)

theorem Term.Form.isNoGlobal_of_isNeutral {form : Form} (neutral : form.isNeutral) : form.IsNoGlobal := by
  constructor
  · rintro rfl
    cases neutral
  · rintro _ _ rfl
    cases neutral

/-- A field that stands before a global var is what is found. -/
theorem Context.withoutGlobals {tree : TypeTree} {owner : TypePath} {frame? : Option Frame} :
    Fits ⟨tree, owner, frame?, .globalProcs⟩ (fun _ => True) (Node.Heedful tree) Term.Form.IsNoGlobal where
  null := trivial
  makes makes _ _ allowed := by
    rcases makes.isNeutral_or with neutral | ⟨base?, _, rfl, scopes⟩ | ⟨_, _, _,
      ⟨_, _, rfl⟩ | ⟨_, rfl⟩, _⟩
    · exact Term.Form.isNoGlobal_of_isNeutral neutral
    · rcases base? with _ | _
      · exact allowed.elim
      cases scopes with
      | vars bare => cases bare
      | initial => simp [Term.Form.IsNoGlobal]
      | global noField found =>
        obtain ⟨notRoot, isField⟩ := allowed _ _ found
        rw [notRoot, if_neg Bool.false_ne_true] at noField
        rw [noField] at isField
        cases isField
    · simp [Term.Form.IsNoGlobal]
    · simp [Term.Form.IsNoGlobal]
  names names := by
    cases names with
    | atom => exact Term.each_mk.2 ⟨by simp [Term.Form.IsNoGlobal], List.forall_mem_nil _⟩
    | ambient neutral => exact Term.each_mk.2 ⟨Term.Form.isNoGlobal_of_isNeutral neutral, List.forall_mem_nil _⟩
    | constant found | «local» found | field found | global found => cases found
  roots isGlobal roots allowed := by
    cases roots with
    | vars => exact absurd rfl (allowed.1 isGlobal _ rfl _)
    | var sees => cases sees
  link noField found allowed held := by
    have isField := (allowed.2 _ held _ rfl _ _ found).2
    rw [noField] at isField
    cases isField
  chain _ _ := by simp [Term.Form.IsNoGlobal]
  globalCall _ _ := by simp [Term.Form.IsNoGlobal]
  nullTest _ := by simp [Term.Form.IsNoGlobal]

namespace Expr

/-- Where no global var is visible, the term of a heedful expression has none in it, at any depth. -/
theorem resolve_globalProcs {tree : TypeTree} {owner : TypePath} {frame? : Option Frame} {inferred? : Option TypePath}
    {e : Expr} (heedful : ∀ part : Expr, part.IsPart e → part.node.Heedful tree) {before after : Array Report}
    {term : Term}
    (run : (e.resolve { tree, owner, frame?, visibility := .globalProcs } inferred?).run.run before =
      (.ok term, after)) :
    ∀ part : Term, part.IsPart term → part.form ≠ .ambient .globalVars ∧
      ∀ name id, part.form ≠ .var (.global name id) := by
  have binds := resolve_binds run (fun _ => True) fun _ _ => trivial
  exact binds.each Context.withoutGlobals heedful

/-- A tree with one global var, `round`. -/
def rounds : TypeTree := (TypeTree.builtin.registerGlobal .root "round" none none).2

/-- The expression `list(src.name, /mob::key)`. -/
def nameAndKey : Expr :=
  .mk (.gather .list [
    .positional (.mk (.chain (.ofName "src" .unknown) [.mk (.field "name" false) false .unknown]) .unknown),
    .positional (.mk (.scope (some (.ofLiteral (.path (.absolute ["mob"])) .unknown)) "key" none) .unknown)]) .unknown

/-- What it stands for. -/
def nameAndKeyTerm : Term :=
  .typed (.list [
    .mk none (.typed (.chain (.typed (.ambient .src) (some (.absolute ["mob"])) .unknown)
      [.mk (.field "name" false) false none .unknown]) none .unknown),
    .mk none (.typed (.var (.initial (.absolute ["mob"]) "key")) none .unknown)]) Term.listType .unknown

theorem resolve_globalProcs_list : ((∀ part : Expr, part.IsPart nameAndKey → part.node.Heedful rounds) ∧
      (nameAndKey.resolve ⟨rounds, .absolute ["mob"], none, .globalProcs⟩ none).run.run #[] =
        (.ok nameAndKeyTerm, #[])) ∧ ∀ part : Term, part.IsPart nameAndKeyTerm →
      part.form ≠ .ambient .globalVars ∧ ∀ name id, part.form ≠ .var (.global name id) := by
  have heedful : ∀ part : Expr, part.IsPart nameAndKey → part.node.Heedful rounds := by
    have name : rounds.Covers "name" := TypeTree.covers_of_unnamed (by decide)
    have key : rounds.Covers "key" := TypeTree.covers_of_unnamed (by decide)
    refine Each.intro trivial ?_
    intro _ below
    rcases mem_cons.1 below with rfl | below
    · refine Each.intro ⟨nofun, ?_⟩ ?_
      · intro _ held _ isField
        rw [mem_singleton.1 held] at isField
        cases isField
        exact name
      · intro base here
        rw [mem_singleton.1 here]
        exact Each.intro trivial nofun
    · rw [mem_singleton.1 below]
      refine Each.intro key ?_
      intro base here
      rw [mem_singleton.1 here]
      exact Each.intro trivial nofun
  have run : (nameAndKey.resolve ⟨rounds, .absolute ["mob"], none, .globalProcs⟩ none).run.run #[] =
      (.ok nameAndKeyTerm, #[]) := by
    rfl
  exact ⟨⟨heedful, run⟩, resolve_globalProcs heedful run⟩

/-- What `::` names is found where no global var is visible. -/
theorem resolve_globalProcs_scope :
    ∃ term,
      ((Expr.mk (.scope none "round" none) .unknown).resolve ⟨rounds, .root, none, .globalProcs⟩ none).run.run #[] =
      (.ok term, #[]) ∧ ∃ part : Term, part.IsPart term ∧ part.form = .var (.global "round" 0) :=
  ⟨_, rfl, _, .self _, rfl⟩

end Expr

end DreamMaker
