import DreamMaker.Proofs.TypeTree.Declared

/-!
No name is looked up among verbs: trees that differ in their verbs and in their global vars alone give the same
answers about types, fields and procs.
-/

namespace DreamMaker

open List

def TypeEntry.withoutVerbs (entry : TypeEntry) : TypeEntry := { entry with verbs := [] }

namespace TypeTree

variable {tree : TypeTree}

def dropVerbs (type : TypePath × TypeEntry) : TypePath × TypeEntry := (type.1, type.2.withoutVerbs)

/-- The trees have the same types and the same global procs, apart from verbs. -/
structure SameTypes (tree other : TypeTree) : Prop where
  types : other.types.map dropVerbs = tree.types.map dropVerbs
  globalProcs : other.globalProcs = tree.globalProcs

namespace SameTypes

variable {other : TypeTree}

theorem refl (tree : TypeTree) : tree.SameTypes tree := ⟨rfl, rfl⟩

theorem symm (same : tree.SameTypes other) : other.SameTypes tree := ⟨same.types.symm, same.globalProcs.symm⟩

theorem trans (first : tree.SameTypes other) (second : other.SameTypes third) : tree.SameTypes third :=
  ⟨second.types.trans first.types, second.globalProcs.trans first.globalProcs⟩

variable (same : tree.SameTypes other)

include same

theorem entry? (path : TypePath) :
    (other.entry? path).map TypeEntry.withoutVerbs = (tree.entry? path).map TypeEntry.withoutVerbs := by
  have keys : ∀ type, (dropVerbs type).1 = type.1 := fun _ => rfl
  have lookups := congrArg (List.lookup path.toAbsolute) same.types
  rwa [lookup_map_entries keys, lookup_map_entries keys] at lookups

theorem hasType (path : TypePath) : other.hasType path = tree.hasType path := by
  have entries := congrArg Option.isSome (same.entry? path)
  rwa [Option.isSome_map, Option.isSome_map] at entries

theorem lineage (count : Nat) (path : TypePath) :
    (other.lineage count path).map dropVerbs = (tree.lineage count path).map dropVerbs := by
  induction count generalizing path with
  | zero => rfl
  | succ count ih =>
    have entries := same.entry? path
    rcases here : tree.entry? path with _ | entry
    · rw [here, Option.map_none, Option.map_eq_none_iff] at entries
      simp only [TypeTree.lineage, here, entries]
    rw [here, Option.map_some, Option.map_eq_some_iff] at entries
    obtain ⟨entry', here', alike⟩ := entries
    have parents : entry'.withoutVerbs.parent? = entry.withoutVerbs.parent? := by rw [alike]
    change entry'.parent? = entry.parent? at parents
    simp only [TypeTree.lineage, here, here', map_cons, parents]
    rcases entry.parent? with _ | parent
    · simp only [dropVerbs, alike]
    · simp only [dropVerbs, alike, ih parent]

theorem ancestors (path : TypePath) : (other.ancestors path).map dropVerbs = (tree.ancestors path).map dropVerbs := by
  have lengths : other.types.length = tree.types.length := by
    simpa only [length_map] using congrArg List.length same.types
  unfold TypeTree.ancestors
  rw [lengths]
  exact same.lineage _ path

theorem field? (owner : TypePath) (name : String) : other.field? owner name = tree.field? owner name := by
  have fields := congrArg (List.findSome? fun type : TypePath × TypeEntry => type.2.fields.find? (·.name == name))
    (same.ancestors owner)
  rwa [findSome?_map, findSome?_map] at fields

theorem hasProc (owner : TypePath) (name : String) : other.hasProc owner name = tree.hasProc owner name := by
  have procs := congrArg (List.any · fun type : TypePath × TypeEntry => type.2.procs.contains name)
    (same.ancestors owner)
  rwa [any_map, any_map] at procs

theorem hasGlobalProc (name : String) : other.hasGlobalProc name = tree.hasGlobalProc name := by
  unfold TypeTree.hasGlobalProc
  rw [same.globalProcs]

theorem globalOwners (path : TypePath) : other.globalOwners path = tree.globalOwners path := by
  have owners : (other.ancestors path).map (·.1) = (tree.ancestors path).map (·.1) := by
    have keys := congrArg (List.map Prod.fst) (same.ancestors path)
    rwa [map_map, map_map] at keys
  unfold TypeTree.globalOwners
  rw [owners]

theorem names (path : TypePath) (marker? : Option Nat) : other.names path marker? = tree.names path marker? := by
  rcases marker? with _ | _
  · exact same.hasType path
  · simp only [TypeTree.names, TypeTree.hasProcAt, same.hasGlobalProc, same.hasProc]

theorem search? (base target : TypePath) : other.search? base target = tree.search? base target := by
  simp only [TypeTree.search?, same.names]

end SameTypes

/-! Changes that keep the types. -/

theorem sameTypes_registerGlobal (tree : TypeTree) (owner : TypePath) (name : String) (type? : Option TypePath)
    (value? : Option Expr) : tree.SameTypes (tree.registerGlobal owner name type? value?).2 := by
  unfold registerGlobal addGlobal
  split <;> exact ⟨rfl, rfl⟩

theorem ensureType_of_hasType (known : tree.hasType path) : tree.ensureType path = tree := by
  have known : tree.hasType ⟨.absolute, path.segments.reverse.reverse⟩ := by rwa [reverse_reverse]
  unfold ensureType
  generalize path.segments.reverse = segments at known ⊢
  match segments with
  | [] => exact if_pos known
  | [segment] => exact if_pos known
  | segment :: next :: rest => exact if_pos known

/-- Listing a verb changes no more than verbs, as long as the type is there. -/
theorem sameTypes_addVerb (known : tree.hasType owner) (proc : TypePath) :
    tree.SameTypes (tree.addVerb owner proc) := by
  rw [addVerb, declareOn, ensureType_of_hasType known]
  refine ⟨?_, rfl⟩
  rw [modifyEntry, map_map]
  refine map_congr_left fun _ _ => ?_
  simp only [Function.comp_apply]
  split
  · simp only [dropVerbs]
    split <;> rfl
  · rfl

/-- The owner of a proc is a type. -/
theorem hasType_owner (member : definition ∈ file.procs) : (ofFile file).hasType definition.owner := by
  obtain ⟨declaration, listed, isProc⟩ := mem_filterMap.1 member
  have item : declaration.item = .proc definition := by
    split at isProc
    · cases isProc
      assumption
    · cases isProc
  have added := regular_builtin.addFile file
  by_cases isRoot : definition.owner.isRoot
  · obtain ⟨_, outermost⟩ : _ ∧ definition.owner.segments = [] := by simpa [TypePath.isRoot] using isRoot
    show (ofFile file).has (.type definition.owner.segments)
    rw [outermost]
    exact added.regular.root
  · refine (added.has_iff (.type definition.owner.segments)).2 (.inr (mem_flatMap.2 ⟨declaration, listed, ?_⟩))
    rw [item, Item.facts, if_neg isRoot]
    exact mem_append_left _ Fact.mem_around

end TypeTree

end DreamMaker
