import DreamMaker.Proofs.Congruence.Coupling
import DreamMaker.Proofs.Syntax.Actions
import DreamMaker.Proofs.TypeTree.Globals
import Mathlib.Data.List.Forall2

/-!
Procs are compiled independently of each other: whatever was compiled before, a proc comes out as it does alone, apart
from the ids of the global vars that it declares itself.
-/

namespace DreamMaker

open List TypeTree

/-- Moves the ids from a bound on up. -/
def shiftFrom (bound shift id : Nat) : Nat := if id < bound then id else id + shift

def CompiledProc.renumber (ids : Nat → Nat) (proc : CompiledProc) : CompiledProc :=
  { proc with ops := proc.ops.map fun op => (op.1.renumber ids, op.2) }

/-- The path under which the global vars of a proc are kept. -/
def ProcDefinition.framePath (definition : ProcDefinition) : TypePath :=
  Frame.path { owner := definition.owner.toAbsolute, name := definition.name }

namespace TypeTree

/-- A proc adds its global vars on the way from `base` to `alone`, and behind other procs from `start` to `tree`.
-/
structure Shifted (base start : TypeTree) (path : TypePath) (shift : Nat) (alone : TypeTree)
    (globals : List (String × Nat)) (tree : TypeTree) (globals' : List (String × Nat)) : Prop where
  types : base.SameTypes alone
  types' : base.SameTypes tree
  size : base.globals.size ≤ alone.globals.size
  size' : tree.globals.size = alone.globals.size + shift
  table : ∀ id, tree.globals[shiftFrom base.globals.size shift id]? =
    alone.globals[id]?.map (GlobalVar.renumber (shiftFrom base.globals.size shift))
  index : ∀ owner name, base.hasType owner ∨ owner = path →
    tree.globalId? owner name = (alone.globalId? owner name).map (shiftFrom base.globals.size shift)
  apart : ∀ owner name, owner ≠ path → tree.globalId? owner name = start.globalId? owner name
  kept : ∀ (id : Nat) var, start.globals[id]? = some var → tree.globals[id]? = some var
  declared : globals' = globals.map fun entry => (entry.1, shiftFrom base.globals.size shift entry.2)

variable {base : TypeTree} {globals : List (String × Nat)}

/-- A proc that declares a global var declares it in both trees. -/
theorem Shifted.register (shifted : Shifted base start path shift alone globals tree globals')
    (absolute : path.toAbsolute = path) (name : String) (type? : Option TypePath) (value? : Option Expr) :
    Shifted base start path shift (alone.registerGlobal path name type? value?).2
      ((name, (alone.registerGlobal path name type? value?).1) :: globals)
      (tree.registerGlobal path name type? value?).2
      ((name, (tree.registerGlobal path name type? value?).1) :: globals') := by
  have types := shifted.types.trans (alone.sameTypes_registerGlobal path name type? value?)
  have types' := shifted.types'.trans (tree.sameTypes_registerGlobal path name type? value?)
  have indexed := shifted.index path name (.inr rfl)
  cases there : alone.globalId? path name with
  | some id =>
    have there' : tree.globalId? path name = some (shiftFrom base.globals.size shift id) := by
      rw [indexed, there]; rfl
    have same : alone.registerGlobal path name type? value? = (id, alone) := by
      rw [registerGlobal, addGlobal, absolute, there]
    have same' : tree.registerGlobal path name type? value? = (shiftFrom base.globals.size shift id, tree) := by
      rw [registerGlobal, addGlobal, absolute, there']
    rw [same, same']
    refine { shifted with declared := ?_ }
    rw [shifted.declared]
    rfl
  | none =>
    have there' : tree.globalId? path name = none := by rw [indexed, there]; rfl
    have last : shiftFrom base.globals.size shift alone.globals.size = tree.globals.size := by
      have size := shifted.size
      have size' := shifted.size'
      unfold shiftFrom
      split <;> omega
    have moved (id : Nat) : shiftFrom base.globals.size shift id = tree.globals.size ↔ id = alone.globals.size := by
      have size := shifted.size
      have size' := shifted.size'
      unfold shiftFrom
      split <;> omega
    have listed := globalId?_addGlobal (absolute.symm ▸ there) type? .anything value?
    have listed' := globalId?_addGlobal (absolute.symm ▸ there') type? .anything value?
    rw [absolute] at listed listed'
    have made : alone.registerGlobal path name type? value? = (alone.globals.size, { alone with
        globals := alone.globals.push
          { id := alone.globals.size, name, owner := path, type?, types := .anything, value? }
        globalIds := ((path, name), alone.globals.size) :: alone.globalIds }) := by
      rw [registerGlobal, addGlobal, absolute, there]
    have made' : tree.registerGlobal path name type? value? = (tree.globals.size, { tree with
        globals := tree.globals.push
          { id := tree.globals.size, name, owner := path, type?, types := .anything, value? }
        globalIds := ((path, name), tree.globals.size) :: tree.globalIds }) := by
      rw [registerGlobal, addGlobal, absolute, there']
    refine ⟨types, types', ?_, ?_, ?_, ?_, ?_, ?_, ?_⟩
    · rw [made]
      rw [Array.size_push]
      exact Nat.le_succ_of_le shifted.size
    · rw [made, made']
      rw [Array.size_push, Array.size_push, shifted.size']
      omega
    · intro id
      rw [made, made']
      rw [Array.getElem?_push, Array.getElem?_push]
      by_cases here : id = alone.globals.size
      · rw [if_pos here, if_pos ((moved id).2 here), ← last]
        rfl
      · rw [if_neg here, if_neg (here ∘ (moved id).1)]
        exact shifted.table id
    · intro owner name' known
      show (tree.addGlobal path name type? .anything value?).2.globalId? owner name' =
        ((alone.addGlobal path name type? .anything value?).2.globalId? owner name').map _
      rw [listed, listed']
      split
      · exact congrArg some last.symm
      · exact shifted.index owner name' known
    · intro owner name' other
      show (tree.addGlobal path name type? .anything value?).2.globalId? owner name' = _
      rw [listed', if_neg fun same => other (Prod.mk.inj same).1]
      exact shifted.apart owner name' other
    · intro id var found
      have before := shifted.kept id var found
      have below := (Array.getElem?_eq_some_iff.1 before).1
      rw [made']
      rw [Array.getElem?_push, if_neg (Nat.ne_of_lt below)]
      exact before
    · rw [made, made', shifted.declared, map_cons, last]

theorem Shifted.addVerb (shifted : Shifted base start path shift alone globals tree globals')
    (known : base.hasType owner) (proc : TypePath) :
    Shifted base start path shift (alone.addVerb owner proc) globals (tree.addVerb owner proc) globals' := by
  have here : alone.hasType owner := by
    rw [shifted.types.hasType]
    exact known
  have there : tree.hasType owner := by
    rw [shifted.types'.hasType]
    exact known
  have types := shifted.types.trans (sameTypes_addVerb here proc)
  have types' := shifted.types'.trans (sameTypes_addVerb there proc)
  rw [TypeTree.addVerb, declareOn, ensureType_of_hasType here] at types ⊢
  rw [TypeTree.addVerb, declareOn, ensureType_of_hasType there] at types' ⊢
  exact { shifted with types, types' }

/-- A tree to which procs have added global vars of their own. -/
structure Extends (base tree : TypeTree) : Prop where
  types : base.SameTypes tree
  size : base.globals.size ≤ tree.globals.size
  kept : ∀ (id : Nat) var, base.globals[id]? = some var → tree.globals[id]? = some var
  index : ∀ owner name, base.hasType owner → tree.globalId? owner name = base.globalId? owner name

theorem shiftFrom_of_found {id : Nat} (found : base.globals[id]? = some var) :
    shiftFrom base.globals.size shift id = id :=
  if_pos (Array.getElem?_eq_some_iff.1 found).1

/-- Before a proc starts, both trees are alike in its own global vars. -/
theorem Extends.shifted (extends_ : base.Extends tree) (sound : base.Sound)
    (fresh : ∀ name, base.globalId? path name = none) (free : ∀ name, tree.globalId? path name = none) :
    Shifted base tree path (tree.globals.size - base.globals.size) base [] tree [] := by
  have size := extends_.size
  refine ⟨.refl base, extends_.types, Nat.le_refl _, by omega, ?_, ?_, fun _ _ _ => rfl,
    fun _ _ found => found, rfl⟩
  · intro id
    rcases found : base.globals[id]? with _ | var
    · have beyond := Array.getElem?_eq_none_iff.1 found
      unfold shiftFrom
      rw [if_neg (Nat.not_lt.2 beyond)]
      exact Array.getElem?_eq_none_iff.2 (by omega)
    · have own : var.renumber (shiftFrom base.globals.size (tree.globals.size - base.globals.size)) = var := by
        unfold GlobalVar.renumber
        rw [sound.ids id var found, shiftFrom_of_found found, ← sound.ids id var found]
      rw [shiftFrom_of_found found, extends_.kept id var found, Option.map_some, own]
  · rintro owner name (isType | rfl)
    · rw [extends_.index owner name isType]
      rcases found : base.globalId? owner name with _ | id
      · rfl
      · obtain ⟨var, there, _⟩ := (sound.index owner name id).1 found
        exact congrArg some (shiftFrom_of_found there).symm
    · rw [free name, fresh name]
      rfl

/-- Behind the proc, the tree is one that procs have added to. -/
theorem Shifted.extends (shifted : Shifted base start path shift alone globals tree globals')
    (extends_ : base.Extends start) (untyped : ¬ base.hasType path) : base.Extends tree where
  types := shifted.types'
  size := by
    have size := shifted.size
    have size' := shifted.size'
    omega
  kept id var found := shifted.kept id var (extends_.kept id var found)
  index owner name isType := by
    have other : owner ≠ path := by
      rintro rfl
      exact untyped isType
    exact (shifted.apart owner name other).trans (extends_.index owner name isType)

end TypeTree

namespace Coupling

/-- A proc that is compiled alone, and the same proc behind others. -/
def independent (base start : TypeTree) (definition : ProcDefinition) (shift : Nat) (reports : Array Report) :
    Coupling where
  ids := shiftFrom base.globals.size shift
  fits _ := True
  writable _ := True
  owner := definition.owner.toAbsolute
  name := definition.name
  before := #[]
  before' := reports
  world := base.Shifted start definition.framePath shift
  guard _ _ := True

theorem lawful_independent (root : base.hasType .root) :
    (independent base start definition shift reports).Lawful where
  neutral _ _ := trivial
  field _ := trivial
  initial _ _ := trivial
  global _ _ := trivial
  globalVars := trivial
  types shifted := shifted.types.symm.trans shifted.types'
  vars := by
    intro alone _ _ _ shifted
    have root : alone.hasType .root := by
      rw [shifted.types.hasType]
      exact root
    refine globalVar?_renumber (shifted.types.symm.trans shifted.types') root ?_ shifted.table
    intro owner name isType
    rw [shifted.types.hasType] at isType
    exact shifted.index owner name (.inl isType)
  own := by
    intro _ globals _ _ shifted name
    have keys : ∀ entry : String × Nat, (entry.1, shiftFrom base.globals.size shift entry.2).1 = entry.1 :=
      fun _ => rfl
    rw [shifted.declared, lookup_map_entries keys]
    cases globals.lookup name with
    | none => rfl
    | some id => exact congrArg some (shifted.table id)
  register shifted name type? value? := shifted.register rfl name type? value?
  written _ _ _ _ := ⟨fun _ _ => trivial, fun _ => trivial⟩
  fewerLocals _ := trivial
  fewerReports _ _ := trivial
  declared _ := ⟨trivial, trivial⟩
  duplicate _ _ _ _ := trivial

end Coupling

namespace ProcDefinition

/-- A proc as it comes out behind others: as it is alone, but for the ids of its global vars, which the last tree
knows. -/
def ComesOutAs (definition : ProcDefinition) (base : TypeTree) (config : Config) (proc : CompiledProc)
    (final : TypeTree) : Prop :=
  let alone := definition.compile base { config }
  ∃ shift, proc = alone.1.renumber (shiftFrom base.globals.size shift) ∧
    ∀ (id : Nat) var, alone.2.1.globals[id]? = some var →
      final.globals[shiftFrom base.globals.size shift id]? = some (var.renumber (shiftFrom base.globals.size shift))

/-- One proc: it comes out as it does alone, and leaves a tree on which the others do. -/
theorem compile_independent (sound : base.Sound) {definition : ProcDefinition}
    (known : base.hasType definition.owner) (untyped : ¬ base.hasType definition.framePath)
    (fresh : ∀ name, base.globalId? definition.framePath name = none)
    (extends_ : base.Extends tree) (free : ∀ name, tree.globalId? definition.framePath name = none) (log : Log) :
    let alone := definition.compile base { config := log.config }
    let compiled := definition.compile tree log
    (∀ final : TypeTree,
      (∀ (id : Nat) var, compiled.2.1.globals[id]? = some var → final.globals[id]? = some var) →
      definition.ComesOutAs base log.config compiled.1 final) ∧
    compiled.2.2 = log.reports ++ alone.2.2 ∧ base.Extends compiled.2.1 ∧
    (∀ (id : Nat) var, tree.globals[id]? = some var → compiled.2.1.globals[id]? = some var) ∧
    ∀ path name, path ≠ definition.framePath → compiled.2.1.globalId? path name = tree.globalId? path name := by
  intro alone compiled
  let coupling := Coupling.independent base tree definition (tree.globals.size - base.globals.size) log.reports
  have lawful : coupling.Lawful := Coupling.lawful_independent sound.root_mem
  have outcome : coupling.Outcome alone compiled := by
    refine lawful.compile rfl rfl (fun _ _ _ _ _ shifted => shifted.addVerb known _) ?_ log.config trivial
    exact extends_.shifted sound fresh free
  obtain ⟨_, _, shifted⟩ := outcome.world
  obtain ⟨_, reports, reports'⟩ := outcome.reports
  refine ⟨fun final later => ⟨_, outcome.proc, fun id var here => ?_⟩, ?_, shifted.extends extends_ untyped,
    shifted.kept, shifted.apart⟩
  · refine later _ _ ?_
    rw [shifted.table id, here]
    rfl
  · rw [reports', reports]
    exact congrArg (log.reports ++ ·) Array.empty_append.symm

/-- Procs one after the other. -/
theorem compileAll_independent (sound : base.Sound)
    (known : ∀ definition ∈ definitions, base.hasType definition.owner)
    (untyped : ∀ definition ∈ definitions, ¬ base.hasType definition.framePath)
    (fresh : ∀ definition ∈ definitions, ∀ name, base.globalId? definition.framePath name = none)
    (distinct : (definitions.map framePath).Nodup) (extends_ : base.Extends tree)
    (free : ∀ definition ∈ definitions, ∀ name, tree.globalId? definition.framePath name = none) (log : Log) :
    let compiled := compileAll tree log definitions
    List.Forall₂
      (fun definition proc => definition.ComesOutAs base log.config proc compiled.2.1) definitions compiled.1 ∧
    compiled.2.2.toList = log.reports.toList ++
      definitions.flatMap (fun definition => (definition.compile base { config := log.config }).2.2.toList) ∧
    ∀ (id : Nat) var, tree.globals[id]? = some var → compiled.2.1.globals[id]? = some var := by
  induction definitions generalizing tree log with
  | nil => exact ⟨.nil, (append_nil _).symm, fun _ _ found => found⟩
  | cons definition _ ih =>
    obtain ⟨others, distinct⟩ := nodup_cons.1 distinct
    obtain ⟨comes, reported, after, kept, apart⟩ := compile_independent sound (known _ mem_cons_self)
      (untyped _ mem_cons_self) (fresh _ mem_cons_self) extends_ (free _ mem_cons_self) log
    rcases run : definition.compile tree log with ⟨proc, _, reports⟩
    rw [run] at comes reported after kept apart
    obtain ⟨rest_comes, rest_reported, rest_kept⟩ := ih
      (fun other member => known other (mem_cons_of_mem _ member))
      (fun other member => untyped other (mem_cons_of_mem _ member))
      (fun other member => fresh other (mem_cons_of_mem _ member)) distinct after
      (fun other member name => by
        have different : other.framePath ≠ definition.framePath := by
          intro same
          rw [← same] at others
          exact others (mem_map_of_mem member)
        exact (apart _ name different).trans (free other (mem_cons_of_mem _ member) name))
      { log with reports }
    simp only [compileAll, run]
    refine ⟨.cons (comes _ rest_kept) rest_comes, ?_, fun id var found => rest_kept id var (kept id var found)⟩
    have reported : reports.toList =
        log.reports.toList ++ (definition.compile base { config := log.config }).2.2.toList := by
      rw [← Array.toList_append]
      exact congrArg Array.toList reported
    rw [rest_reported, flatMap_cons, ← append_assoc, ← reported]

end ProcDefinition

/-- In whatever order the procs of a file are compiled, each comes out and is reported on as it is alone. -/
theorem SourceFile.compileAll_perm {file : SourceFile} (distinct : (file.procs.map ProcDefinition.framePath).Nodup)
    (untyped : ∀ definition ∈ file.procs, ¬ (ofFile file).hasType definition.framePath)
    {definitions : List ProcDefinition} (order : definitions.Perm file.procs) (log : Log) :
    let base := ofFile file
    let compiled := ProcDefinition.compileAll base log definitions
    List.Forall₂
      (fun definition proc => definition.ComesOutAs base log.config proc compiled.2.1) definitions compiled.1 ∧
    compiled.2.2.toList = log.reports.toList ++
      definitions.flatMap fun definition => (definition.compile base { config := log.config }).2.2.toList := by
  intro base
  have sound := (regular_builtin.addFile file).regular.sound
  have fresh : ∀ definition ∈ definitions, ∀ name, base.globalId? definition.framePath name = none :=
    fun definition member => globalId?_ofFile (untyped definition (order.mem_iff.1 member))
  have extends_ : base.Extends base := ⟨.refl base, Nat.le_refl _, fun _ _ found => found, fun _ _ _ => rfl⟩
  obtain ⟨comes, reported, _⟩ := ProcDefinition.compileAll_independent sound
    (fun _ member => hasType_owner (order.mem_iff.1 member))
    (fun definition member => untyped definition (order.mem_iff.1 member)) fresh
    ((order.map _).nodup_iff.2 distinct) extends_ fresh log
  exact ⟨comes, reported⟩

/-- Two procs, each of which declares `var/static/count` and writes to it. -/
def SourceFile.counters : SourceFile :=
  let count : LocalVar := { (default : LocalVar) with name := "count", modifiers := { isStatic := true } }
  let actions := [.declare count, .write "count"]
  { declarations :=
    [.mk (.proc (.ofActions "first" actions)) .unknown, .mk (.proc (.ofActions "second" actions)) .unknown]
    span := .unknown }

theorem SourceFile.compileAll_perm_counters :
    ((counters.procs.map ProcDefinition.framePath).Nodup ∧
      (∀ definition ∈ counters.procs, ¬ (ofFile counters).hasType definition.framePath) ∧
      counters.procs.reverse.Perm counters.procs) ∧
    let base := ofFile counters
    let compiled := ProcDefinition.compileAll base {} counters.procs.reverse
    List.Forall₂ (fun definition proc => definition.ComesOutAs base {} proc compiled.2.1) counters.procs.reverse
      compiled.1 ∧
    compiled.2.1.globals.size = base.globals.size + 2 := by
  have distinct : (counters.procs.map ProcDefinition.framePath).Nodup := by decide +kernel
  have untyped : ∀ definition ∈ counters.procs, ¬ (ofFile counters).hasType definition.framePath := by
    have none : counters.procs.all (fun definition => !(ofFile counters).hasType definition.framePath) = true := by
      decide +kernel
    simpa using none
  have order : counters.procs.reverse.Perm counters.procs := reverse_perm _
  exact ⟨⟨distinct, untyped, order⟩, (compileAll_perm distinct untyped order {}).1, by decide +kernel⟩

end DreamMaker
