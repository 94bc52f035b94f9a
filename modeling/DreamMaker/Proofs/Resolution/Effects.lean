import Mathlib.Algebra.Ring.Nat
import DreamMaker.Proofs.Resolution.Parts
import DreamMaker.Proofs.Resolution.Reports

/-!
How often a term has an effect when it is evaluated: as often as the expression that it is bound to says, but for what
binding leaves out.
-/

namespace DreamMaker

open List Link

/-- The weights of trees and of all that stands below them add up to a number. -/
inductive Sums {α : Type} (weight : α → Nat) (below : α → List α) : List α → Nat → Prop
  | nil : Sums weight below [] 0
  | cons (rest : Sums weight below (below a ++ as) n) : Sums weight below (a :: as) (weight a + n)

namespace Sums

variable {weight : α → Nat} {below : α → List α} {below' : β → List β}

theorem unique (first : Sums weight below as n) (second : Sums weight below as k) : k = n := by
  induction first generalizing k with
  | nil =>
    cases second
    rfl
  | cons _ ih =>
    cases second with
    | cons rest => rw [ih rest]

theorem append (first : Sums weight below as n) (second : Sums weight below bs k) :
    Sums weight below (as ++ bs) (n + k) := by
  induction first with
  | nil => rwa [Nat.zero_add]
  | cons _ ih =>
    rw [append_assoc] at ih
    rw [Nat.add_assoc]
    exact .cons ih

theorem single (inside : Sums weight below (below a) n) : Sums weight below [a] (weight a + n) :=
  .cons (by rwa [append_nil])

/-- What has no weight of its own. -/
theorem light (none : weight a = 0) (inside : Sums weight below (below a) n) : Sums weight below [a] n := by
  rw [← Nat.zero_add n, ← none]
  exact inside.single

theorem pairs (same : as.length = bs.length) (each : ∀ {a b}, (a, b) ∈ as.zip bs →
    ∃ n, Sums weight below [a] n ∧ Sums weight' below' [b] n) :
    ∃ n, Sums weight below as n ∧ Sums weight' below' bs n := by
  induction forall₂_iff_zip.2 ⟨same, @each⟩ with
  | nil => exact ⟨0, .nil, .nil⟩
  | cons here _ ih =>
    obtain ⟨n, first, second⟩ := here
    obtain ⟨k, first', second'⟩ := ih (Nat.succ.inj same) fun pair => each (.tail _ pair)
    exact ⟨n + k, first.append first', second.append second'⟩

end Sums

/-- What happens when a term is evaluated, other than that its value is found. -/
inductive Effect
  | call
  | new
  | assign
  | change
deriving DecidableEq

def Effect.count (effect other : Effect) : Nat := if effect = other then 1 else 0

def Link.weight (effect : Effect) : Link → Nat
  | .mk (.call _ _ _) _ _ => effect.count .call
  | _ => 0

def Term.Link.weight (effect : Effect) : Link → Nat
  | .mk (.call _ _ _) _ _ _ => effect.count .call
  | _ => 0

/-- How often a node has an effect of its own. -/
def Node.weight (effect : Effect) : Node → Nat
  | .call _ _ | .dynamicCall _ _ | .scope none _ (some _) => effect.count .call
  | .chain _ links => (links.map (Link.weight effect)).sum
  | .new _ _ => effect.count .new
  | .assign _ _ _ => effect.count .assign
  | .unary op _ => if op.isMutating then effect.count .change else 0
  | _ => 0

def Term.Form.weight (effect : Effect) : Form → Nat
  | .call _ _ | .dynamicCall _ _ => effect.count .call
  | .chain _ links => (links.map (Link.weight effect)).sum
  | .newPath _ _ | .new _ _ => effect.count .new
  | .assign _ _ _ => effect.count .assign
  | .unary op _ => if op.isMutating then effect.count .change else 0
  | _ => 0

/-- Locals that are constant stand for constants. -/
def Context.Fixed (context : Context) : Prop :=
  ∀ name var constant, context.local? name = some var → var.constant? = some constant → constant.isConstant

/-- Whether fields lead from an object to a global var, which is the same for all objects. -/
def Context.isShared (context : Context) : (fuzzy : Bool) → (type? : Option TypePath) → List Link → Bool
  | false, some owner, .mk (.field name false) _ _ :: rest => match context.tree.field? owner name with
    | some field => context.isShared false field.type? rest
    | none => (context.tree.globalVar? owner name).isSome
  | _, _, _ => false

def Link.values : Link → List Expr
  | .mk (.field _ _) _ _ => []
  | .mk (.index index) _ _ => [index]
  | .mk (.call _ _ args) _ _ => args.map Argument.value

/-- Whether the object before links is left out. -/
def Context.leavesOut (context : Context) (base : Expr) (links : List Link) : Bool :=
  match ((base.resolve context none).run.run #[]).1 with
  | .ok root => context.isShared root.fuzzy root.type? links
  | .error _ => false

/-- The expressions right below an expression whose effects last: not what `nameof` and `::` are about, nor keys
that no list is made of, nor an object of which a global var is wanted. -/
def Node.lasting (context : Context) : Node → List Expr
  | .chain base links => (if context.leavesOut base links then [] else [base]) ++ links.flatMap values
  | node => node.kept

/-- How often expressions have an effect. -/
abbrev Expr.Does (context : Context) (effect : Effect) : List Expr → Nat → Prop :=
  Sums (·.node.weight effect) (·.node.lasting context)

namespace Term

/-- How often terms have an effect. -/
abbrev Does (effect : Effect) : List Term → Nat → Prop := Sums (·.form.weight effect) (·.form.terms)

mutual

theorem does_of_isConstant : (term : Term) → term.isConstant → Does effect [term] 0
  | .mk (.atom _) _ _ _, _ => .light rfl .nil
  | .mk (.list entries) _ _ _, constant => .light rfl (does_of_areConstant entries constant)

theorem does_of_areConstant : (entries : List Entry) → areConstant entries →
    Does effect (entries.flatMap Entry.terms) 0
  | [], _ => .nil
  | .mk none value :: rest, constant => by
    simp only [areConstant, Bool.and_eq_true] at constant
    exact (does_of_isConstant value constant.1).append (does_of_areConstant rest constant.2)
  | .mk (some key) value :: rest, constant => by
    simp only [areConstant, Bool.and_eq_true] at constant
    exact (does_of_isConstant key constant.1.2).append
      ((does_of_isConstant value constant.1.1).append (does_of_areConstant rest constant.2))

end

end Term

/-- How often the chain that a walk leads to has an effect. -/
def Walk.Does (effect : Effect) (walk : Walk) (n : Nat) : Prop :=
  ∃ k, Term.Does effect (walk.base :: walk.links.reverse.flatMap Term.Link.terms) k ∧
    n = (walk.links.reverse.map (Term.Link.weight effect)).sum + k

theorem Walk.Does.start (given : Term.Does effect [root] n) : (Walk.start root).Does effect n :=
  ⟨n, given, (Nat.zero_add n).symm⟩

/-- A link that is added to a chain brings its own effects. -/
theorem Walk.Does.add {walk : Walk} (does : walk.Does effect n) (inside : Term.Does effect link.terms k)
    {type? : Option TypePath} {fuzzy : Bool} :
    Walk.Does effect ⟨walk.base, link :: walk.links, type?, fuzzy⟩ (n + (link.weight effect + k)) := by
  obtain ⟨j, before, rfl⟩ := does
  refine ⟨j + k, ?_, ?_⟩
  · rw [reverse_cons, flatMap_append]
    exact before.append (by simpa using inside)
  · simp
    omega

namespace Resolution

variable {context : Context}

/-- What is reported where nothing is wrong. -/
abbrev Harmless (report : Report) : Prop := report.diagnostic.isError = false

theorem Makes.weight (makes : Makes context Harmless node form) : node.weight effect = form.weight effect := by
  cases makes with
  | @scope base? _ _ scopes => cases base? <;> cases scopes <;> rfl
  | _ => rfl

theorem Makes.lasting (makes : Makes context Harmless node form) : node.lasting context = node.kept := by
  cases makes <;> rfl

theorem finish_does {walk : Walk} (does : walk.Does effect n) {span : Span} :
    Term.Does effect [walk.finish span] n := by
  obtain ⟨_, inside, rfl⟩ := does
  unfold Walk.finish
  split
  · next bare =>
    rw [isEmpty_iff.1 bare] at inside ⊢
    rwa [reverse_nil, map_nil, sum_nil, Nat.zero_add]
  · exact .single inside

theorem names_does (fixed : context.Fixed) (names : context.Names name term) : Term.Does effect [term] 0 := by
  cases names with
  | constant found same => exact Term.does_of_isConstant _ (Term.isConstant_withSpan.trans (fixed _ _ _ found same))
  | _ => exact .light rfl .nil

theorem nullTest_does {op : BinaryOp} (does : Term.Does effect [value] n) {span : Span} :
    Term.Does effect [nullTest op value span] n := by
  have test : Term.Does effect [Term.plain (.isNull value) span] n := .light rfl does
  unfold nullTest
  split
  · exact test
  · exact .light rfl test

theorem null_does (null : e.isNull) : Expr.Does context effect [e] 0 := by
  obtain ⟨node, _⟩ := e
  cases node with
  | literal => exact .light rfl .nil
  | _ => cases null

theorem name_does (isName : e.name? = some name) : Expr.Does context effect [e] 0 := by
  obtain ⟨node, _⟩ := e
  cases node with
  | name => exact .light rfl .nil
  | _ => cases isName

theorem chain_does (first : Expr.Does context effect [base] n)
    (rest : Expr.Does context effect (links.flatMap Link.values) k)
    (sum : total = (if context.leavesOut base links then 0 else n) + ((links.map (Link.weight effect)).sum + k)) :
    Expr.Does context effect [.mk (.chain base links) place] total := by
  have inside : Expr.Does context effect
    ((if context.leavesOut base links then [] else [base]) ++ links.flatMap Link.values)
      ((if context.leavesOut base links then 0 else n) + k) := by
    split
    · rwa [Nat.zero_add]
    · exact first.append rest
  rw [sum, Nat.add_left_comm]
  exact .single inside

mutual

theorem Binds.does (fixed : context.Fixed) :
    Binds context Harmless e term → ∃ n, Expr.Does context effect [e] n ∧ Term.Does effect [term] n
  | .made makes same below => by
    obtain ⟨n, first, second⟩ := Sums.pairs same fun pair => Binds.does fixed (below pair)
    rw [← makes.lasting] at first
    refine ⟨_, .single first, ?_⟩
    rw [Expr.node, makes.weight]
    exact .single second
  | .name names => ⟨0, .light rfl .nil, names_does fixed names⟩
  | .declare names => ⟨0, .light rfl .nil, names_does fixed names⟩
  | .nullLeft null below => by
    obtain ⟨n, first, second⟩ := Binds.does fixed below
    exact ⟨0 + n, .light rfl ((null_does null).append first), nullTest_does (by rwa [Nat.zero_add])⟩
  | .nullRight null below => by
    obtain ⟨n, first, second⟩ := Binds.does fixed below
    exact ⟨n, .light rfl (first.append (null_does null)), nullTest_does second⟩
  | .chain other bound first second => by
    rename_i base root links walk _
    obtain ⟨before, bound⟩ := bound
    obtain ⟨n, here, here'⟩ := Binds.does fixed first
    obtain ⟨k, total, there, last, sum⟩ := Follows.does fixed second (.start here')
    have same : context.leavesOut base links = context.isShared root.fuzzy root.type? links := by
      have steady := (base.resolve_tame.steady before #[]).trans bound
      unfold Context.leavesOut
      rw [show ((base.resolve context none).run.run #[]).1 = _ from steady]
    exact ⟨total, chain_does here there (by rw [same]; exact sum), finish_does last⟩
  | .globalField isGlobal roots below => by
    rename_i root links walk base searched safe here place
    have given : Term.Does effect [root] 0 := by cases roots <;> exact .light rfl .nil
    obtain ⟨k, total, there, last, sum⟩ := Follows.does fixed below (.start given)
    exact ⟨total, chain_does (name_does isGlobal) (by exact there) (by simpa [Link.weight] using sum),
      finish_does last⟩
  | .globalCall isGlobal keyed same first second => by
    obtain ⟨n, given, given'⟩ := Sums.pairs (by simpa using same) fun pair => Binds.does fixed (first pair)
    obtain ⟨k, total, there, last, sum⟩ := Follows.does fixed second (.start (.single (by exact given')))
    refine ⟨total, chain_does (name_does isGlobal) (by exact given.append there) ?_, finish_does last⟩
    simp [sum, Context.isShared, Walk.start, Term.unknowable, Link.weight, Term.Form.weight, Term.form, Term.fuzzy]
    omega

theorem Follows.does (fixed : context.Fixed) : Follows context Harmless walk links last → walk.Does effect n →
    ∃ k total, Expr.Does context effect (links.flatMap values) k ∧ last.Does effect total ∧
      total = (if context.isShared walk.fuzzy walk.type? links then 0 else n) + ((links.map (weight effect)).sum + k)
  | .done, does => ⟨0, _, .nil, does, by simp [Context.isShared]⟩
  | .search unsure there, does => by
    obtain ⟨k, total, values, last, sum⟩ := Follows.does fixed there (does.add .nil)
    refine ⟨k, total, values, last, sum.trans ?_⟩
    simp only [Bool.or_eq_true] at unsure
    rcases unsure with rfl | fuzzy <;> simp [Context.isShared, Walk.leap, weight, Term.Link.weight, *]
  | .field known type _ found there, does => by
    obtain ⟨k, total, values, last, sum⟩ := Follows.does fixed there (does.add .nil)
    refine ⟨k, total, values, last, sum.trans ?_⟩
    simp [Context.isShared, known, type, found, Walk.step, weight, Term.Link.weight]
  | .global known type noField found there, does => by
    obtain ⟨k, total, values, last, sum⟩ := Follows.does fixed there (.start (.light rfl .nil))
    refine ⟨k, total, values, last, sum.trans ?_⟩
    simp [Context.isShared, known, type, noField, found, weight]
  | .index here there, does => by
    obtain ⟨j, first, second⟩ := Binds.does fixed here
    obtain ⟨k, total, values, last, sum⟩ := Follows.does fixed there (does.add (by exact second))
    refine ⟨j + k, total, first.append values, last, sum.trans ?_⟩
    simp [Context.isShared, Walk.leap, weight, Term.Link.weight]
    omega
  | .call _ keyed same here there, does => by
    obtain ⟨j, first, second⟩ := Sums.pairs (by simpa using same) fun pair => Binds.does fixed (here pair)
    obtain ⟨k, total, values, last, sum⟩ := Follows.does fixed there (does.add (by exact second))
    refine ⟨j + k, total, first.append values, last, sum.trans ?_⟩
    simp [Context.isShared, Walk.leap, weight, Term.Link.weight]
    omega

end

end Resolution

namespace Expr

/-- Where nothing is wrong, a term has as many effects of each kind as the expression, but for what binding leaves
out. -/
theorem resolve_does {e : Expr} {context : Context} {inferred? : Option TypePath} {term : Term} {found : Array Report}
    (fixed : context.Fixed) (run : (e.resolve context inferred?).run.run #[] = (.ok term, found))
    (clean : ∀ report ∈ found, report.diagnostic.isError = false) (effect : Effect) :
    ∃ n, (∀ k, Does context effect [e] k ↔ k = n) ∧ ∀ k, Term.Does effect [term] k ↔ k = n := by
  obtain ⟨n, first, second⟩ := (resolve_binds run Resolution.Harmless clean).does fixed
  exact ⟨n, fun k => ⟨first.unique, (· ▸ first)⟩, fun k => ⟨second.unique, (· ▸ second)⟩⟩

/-- In `helper(helper())` there are two calls. -/
theorem resolve_does_calls :
    let context : Context := { tree := { types := [], globals := #[], globalProcs := ["helper"] }, owner := .root }
    let inner : Expr := .mk (.call (.named "helper") []) .unknown
    let e : Expr := .mk (.call (.named "helper") [.mk none inner]) .unknown
    ∃ term, (e.resolve context none).run.run #[] = (.ok term, #[]) ∧ Term.Does .call [term] 2 := by
  intro context inner e
  obtain ⟨term, run⟩ : ∃ term, (e.resolve context none).run.run #[] = (.ok term, #[]) := ⟨_, rfl⟩
  have calls : Does context .call [e] (1 + (1 + 0)) := .cons (.cons .nil)
  have fixed : context.Fixed := fun _ _ _ found => nomatch found
  obtain ⟨_, first, second⟩ := resolve_does fixed run nofun .call
  exact ⟨term, run, (second 2).2 ((first 2).1 calls)⟩

/-- No object is created in `new /obj().count`, where `count` is global, and no proc is called in `newlist(helper()
= null)`, whose keys are not bound. A call that is given as the constant of a local comes with its name. -/
theorem resolve_leaves_out :
    let object : TypePath := .absolute ["obj"]
    let var : GlobalVar := ⟨0, "count", object, none, .anything, none⟩
    let tree : TypeTree := { types := [(object, { parent? := none })], globals := #[var],
                             globalIds := [((object, "count"), 0)], globalProcs := ["helper"] }
    let count : Expr :=
      .mk (.chain (.mk (.new (.path object) []) .unknown) [.mk (.field "count" false) false .unknown]) .unknown
    let entry : Argument := .mk (some (.mk (.call (.named "helper") []) .unknown)) (.null .unknown)
    let called : Term := .unknowable (.call (.global "helper") []) .unknown
    let frame : Frame := { owner := .root, name := "f", scope := [⟨"x", 0, none, some called⟩] }
    (count.resolve { tree, owner := .root } none).run.run #[] = (.ok (.globalVar "count" var .unknown), #[]) ∧
      ((mk (.gather .newList [entry]) .unknown).resolve { tree, owner := .root } none).run.run #[] =
        (.ok (.typed (.newList [.null .unknown]) Term.listType .unknown), #[]) ∧
      ((mk (.name "x") .unknown).resolve { tree, owner := .root, frame? := some frame } none).run.run #[] =
        (.ok called, #[]) :=
  ⟨rfl, rfl, rfl⟩

end Expr

end DreamMaker
