import DreamMaker.Proofs.TypeTree.Declared

/-!
What holds of every tree that declarations lead to, whatever they are and in whatever order they come.
-/

namespace DreamMaker.TypeTree

open List

variable {tree : TypeTree}

/-- The ways in which a tree is changed. -/
inductive Edit
  | ensureType (path : TypePath)
  | addField (owner : TypePath) (field : Field)
  | addProc (owner : TypePath) (name : String)
  | addGlobal (owner : TypePath) (name : String) (type? : Option TypePath) (types : ValueTypes) (value? : Option Expr)
  | registerGlobal (owner : TypePath) (name : String) (type? : Option TypePath) (value? : Option Expr)
  | addVerb (owner proc : TypePath)
  | addFile (file : SourceFile)

def edit (tree : TypeTree) : Edit → TypeTree
  | .ensureType path => tree.ensureType path
  | .addField owner field => tree.addField owner field
  | .addProc owner name => tree.addProc owner name
  | .addGlobal owner name type? types value? => (tree.addGlobal owner name type? types value?).2
  | .registerGlobal owner name type? value? => (tree.registerGlobal owner name type? value?).2
  | .addVerb owner proc => tree.addVerb owner proc
  | .addFile file => tree.addFile file

/-- The tree after several changes, in order. -/
def edits (tree : TypeTree) (changes : List Edit) : TypeTree := changes.foldl edit tree

theorem Regular.edit (regular : tree.Regular) (change : Edit) : ∃ facts, tree.Adds facts (tree.edit change) := by
  cases change with
  | ensureType path => exact ⟨_, regular.ensureType path⟩
  | addField owner field => exact ⟨_, regular.addField owner field⟩
  | addProc owner name => exact ⟨_, regular.addProc owner name⟩
  | addGlobal owner name type? types value? => exact ⟨_, regular.addGlobal owner name type? types value?⟩
  | registerGlobal owner name type? value? => exact ⟨_, regular.addGlobal owner name type? .anything value?⟩
  | addVerb owner proc => exact ⟨_, regular.addVerb owner proc⟩
  | addFile file => exact ⟨_, regular.addFile file⟩

theorem Regular.edits (regular : tree.Regular) (changes : List Edit) :
    ∃ facts, tree.Adds facts (tree.edits changes) := by
  induction changes generalizing tree with
  | nil => exact ⟨[], .of_known regular nofun⟩
  | cons change _ ih =>
    obtain ⟨facts, first⟩ := regular.edit change
    obtain ⟨others, second⟩ := ih first.regular
    exact ⟨facts ++ others, first.trans second⟩

/-- Whatever is declared, and in whatever order: a type inherits from a type; the way from a path to the root ends
by itself, and from a type it comes to no type twice and ends with the root; the table of global vars agrees with
the index of their ids, and no two share type and name; what is there stays there; and no verb is listed twice. -/
theorem edits_builtin (changes later : List Edit) :
    let tree := builtin.edits changes
    (∀ path parent, tree.parent? path = some parent → tree.hasType parent) ∧
    (∀ path count, tree.types.length ≤ count → tree.lineage count path = tree.ancestors path) ∧
    (∀ path, tree.hasType path →
      ((tree.ancestors path).map Prod.fst).Nodup ∧
      ((tree.ancestors path).map Prod.fst).head? = some path.toAbsolute ∧
      ((tree.ancestors path).map Prod.fst).getLast? = some .root) ∧
    (∀ (id : Nat) var, tree.globals[id]? = some var → var.id = id) ∧
    (∀ owner name id, tree.globalId? owner name = some id ↔
      ∃ var, tree.globals[id]? = some var ∧ var.owner = owner ∧ var.name = name) ∧
    (∀ (id id' : Nat) var var', tree.globals[id]? = some var → tree.globals[id']? = some var' →
      var.owner = var'.owner → var.name = var'.name → id = id') ∧
    tree.Persists (tree.edits later) ∧
    (∀ owner name type? types value?,
      let (id, after) := tree.addGlobal owner name type? types value?
      (after.edits later).globalId? owner.toAbsolute name = some id) ∧
    (∀ path, (tree.verbs path).Nodup) := by
  intro tree
  obtain ⟨_, built⟩ := regular_builtin.edits changes
  obtain ⟨_, edited⟩ := built.regular.edits later
  have sound := built.regular.sound
  refine ⟨?_, ?_, ?_, sound.ids, sound.index, ?_, edited.persists built.regular, ?_, ?_⟩
  · intro path parent inherits
    obtain ⟨entry, found, known⟩ := Option.bind_eq_some_iff.1 inherits
    exact hasType_iff.2 (sound.grounded.parent_mem (mem_of_found found) known)
  · intro path count enough
    by_cases known : tree.hasType path
    · obtain ⟨way, leads⟩ := sound.grounded.leads known
      rw [ancestors, leads.ends count enough, leads.ends _ (Nat.le_refl _)]
    · rw [ancestors, lineage_of_not_hasType known, lineage_of_not_hasType known]
  · intro path known
    obtain ⟨way, leads⟩ := sound.grounded.leads known
    rw [ancestors, leads.ends _ (Nat.le_refl _)]
    exact ⟨leads.nodup, leads.first, leads.last⟩
  · intro id id' var var' found found' owner name
    have first := (sound.index var.owner var.name id).2 ⟨var, found, rfl, rfl⟩
    have second := (sound.index var.owner var.name id').2 ⟨var', found', owner.symm, name.symm⟩
    exact Option.some.inj (first.symm.trans second)
  · intro owner name type? types value?
    have added := built.regular.addGlobal owner name type? types value?
    obtain ⟨_, edited⟩ := added.regular.edits later
    exact edited.ids _ _ _ (globalId?_addGlobal_self types)
  · intro path
    rw [verbs]
    cases found : tree.entry? path with
    | none => exact nodup_nil
    | some entry => exact sound.verbs _ (mem_of_found found)

/-- The way from `/obj/item` to the root does not follow its segments, and a var of `/obj/item` keeps its id when the
root declares one of that name. -/
theorem edits_builtin_item :
    let item : TypePath := .absolute ["obj", "item"]
    let tree := builtin.edits [.addVerb item (item.add "verb/use"), .addGlobal item "count" none .anything none]
    let later := [Edit.registerGlobal .root "count" none none, .addField item { name := "weight" }]
    tree.hasType item ∧
      (tree.ancestors item).map Prod.fst =
        [item, .absolute ["obj"], .absolute ["atom", "movable"], .absolute ["atom"], .absolute ["datum"], .root] ∧
      ((tree.ancestors item).map Prod.fst).Nodup ∧
      tree.globalId? item "count" = some 0 ∧ (tree.edits later).globalId? item "count" = some 0 := by
  intro item tree later
  obtain ⟨_, _, ways, _, _, _, persists, _⟩ := edits_builtin
    [.addVerb item (item.add "verb/use"), .addGlobal item "count" none .anything none] later
  have known : tree.hasType item := by decide
  have count : tree.globalId? item "count" = some 0 := by decide
  exact ⟨known, by decide, (ways item known).1, count, persists.ids _ _ _ count⟩

end DreamMaker.TypeTree
