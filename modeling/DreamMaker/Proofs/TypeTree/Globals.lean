import DreamMaker.Proofs.Resolution.Pairs

/-!
Which global vars a tree knows: those that a file declares belong to types, and a name is looked up among those of
types alone.
-/

namespace DreamMaker.TypeTree

open List

variable {tree : TypeTree}

/-- Global vars are looked up in types. -/
theorem hasType_of_mem_globalOwners (root : tree.hasType .root)
    (member : owner ∈ tree.globalOwners path) : tree.hasType owner := by
  rcases mem_globalOwners.1 member with above | rfl
  · obtain ⟨_, held, rfl⟩ := mem_map.1 above
    exact hasType_of_found (entry?_of_mem_lineage held).2
  · exact root

/-- Where the vars of types have other ids, names stand for the same vars. -/
theorem globalVar?_renumber (same : tree.SameTypes other) (root : tree.hasType .root)
    (index : ∀ owner name, tree.hasType owner → other.globalId? owner name = (tree.globalId? owner name).map ids)
    (table : ∀ id, other.globals[ids id]? = tree.globals[id]?.map (GlobalVar.renumber ids)) (owner : TypePath)
    (name : String) : other.globalVar? owner name = (tree.globalVar? owner name).map (GlobalVar.renumber ids) := by
  have types : ∀ path ∈ tree.globalOwners owner, tree.hasType path := fun _ => hasType_of_mem_globalOwners root
  unfold globalVar?
  rw [same.globalOwners]
  generalize tree.globalOwners owner = owners at types ⊢
  have found : owners.findSome? (fun path => other.globalId? path name) =
      (owners.findSome? fun path => tree.globalId? path name).map ids := by
    induction owners with
    | nil => rfl
    | cons path _ ih =>
      rw [findSome?_cons, findSome?_cons, index path name (types path mem_cons_self)]
      cases tree.globalId? path name with
      | none => exact ih fun other member => types other (mem_cons_of_mem _ member)
      | some id => rfl
  rw [found]
  cases owners.findSome? fun path => tree.globalId? path name with
  | none => rfl
  | some id => exact table id

/-- A file declares global vars for types alone. -/
theorem globalId?_ofFile (untyped : ¬ (ofFile file).has (.type owner)) (name : String) :
    (ofFile file).globalId? ⟨.absolute, owner⟩ name = none := by
  have added := regular_builtin.addFile file
  refine Option.not_isSome_iff_eq_none.1 fun found => untyped ((added.has_iff (.type owner)).2 ?_)
  rcases (added.has_iff (.globalVar owner name)).1 found with before | declared
  · cases before
  obtain ⟨⟨item, _⟩, listed, fact⟩ := mem_flatMap.1 declared
  refine .inr (mem_flatMap.2 ⟨_, listed, ?_⟩)
  cases item with
  | var definition =>
    rw [Declaration.item, Item.facts] at fact ⊢
    split at fact
    · rename_i isGlobal
      obtain ⟨rfl, _⟩ : owner = definition.owner.segments ∧ _ := by simpa [Fact.around] using fact
      rw [if_pos isGlobal]
      exact mem_append_left _ Fact.mem_around
    · simp [Fact.around] at fact
  | proc definition =>
    rw [Declaration.item, Item.facts] at fact
    split at fact <;> simp [Fact.around] at fact
  | object | override | group => simp [Declaration.item, Item.facts, Fact.around] at fact

end DreamMaker.TypeTree
