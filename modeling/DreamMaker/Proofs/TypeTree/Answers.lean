import DreamMaker.Proofs.TypeTree.Edits

/-!
What a tree answers follows from what it has, and so neither from the order of declarations nor from how they are
nested.
-/

namespace DreamMaker.TypeTree

open List

variable {tree other : TypeTree}

theorem hasProc_iff :
    tree.hasProc owner name ↔ ∃ path ∈ (tree.ancestors owner).map Prod.fst, tree.has
      (.proc path.segments name) := by
  simp only [hasProc, any_eq_true, mem_map, exists_exists_and_eq_and]
  refine exists_congr fun _ => and_congr_right fun member => ?_
  rw [has, (entry?_of_mem_lineage member).2]
  rfl

theorem field?_isSome_iff : (tree.field? owner name).isSome ↔
      ∃ path ∈ (tree.ancestors owner).map Prod.fst, tree.has (.field path.segments name) := by
  simp only [field?, findSome?_isSome_iff, mem_map, exists_exists_and_eq_and]
  refine exists_congr fun _ => and_congr_right fun member => ?_
  rw [has, (entry?_of_mem_lineage member).2]
  simp

theorem Sound.globalVar?_isSome_iff (sound : tree.Sound) :
    (tree.globalVar? owner name).isSome ↔ ∃ path ∈ tree.globalOwners owner,
      (tree.globalId? path name).isSome := by
  rw [← findSome?_isSome_iff, globalVar?]
  cases found : (tree.globalOwners owner).findSome? fun path => tree.globalId? path name with
  | none => rfl
  | some id =>
    obtain ⟨path, _, known⟩ := exists_of_findSome?_eq_some found
    obtain ⟨_, there, _⟩ := (sound.index path name id).1 known
    simp [there]

/-- The way to the root is the same in all trees that have a type. -/
theorem Regular.ancestors_eq (regular : tree.Regular) (regular' : other.Regular)
    (types : ∀ path, tree.hasType path → other.hasType path) (known : tree.hasType path) :
    (other.ancestors path).map Prod.fst = (tree.ancestors path).map Prod.fst := by
  have ways (count : Nat) {path : TypePath} (known : tree.hasType path) :
      (other.lineage count path).map Prod.fst = (tree.lineage count path).map Prod.fst := by
    induction count generalizing path with
    | zero => rfl
    | succ count ih =>
      obtain ⟨entry, found⟩ := Option.isSome_iff_exists.1 known
      obtain ⟨_, found'⟩ := Option.isSome_iff_exists.1 (types path known)
      have inherits := (regular'.parents path (types path known)).trans (regular.parents path known).symm
      rw [parent?, parent?, found, found', Option.bind_some, Option.bind_some] at inherits
      rw [lineage_of_found found, lineage_of_found found', inherits, map_cons]
      cases above : entry.parent? with
      | none => rfl
      | some _ =>
        have there := regular.sound.grounded.parent_mem (mem_of_found found) above
        exact congrArg _ (ih (hasType_iff.2 there))
  obtain ⟨_, leads⟩ := regular.sound.grounded.leads known
  obtain ⟨_, leads'⟩ := regular'.sound.grounded.leads (types path known)
  have enough := ways (max tree.types.length other.types.length) known
  rw [leads.ends _ (Nat.le_max_left _ _), leads'.ends _ (Nat.le_max_right _ _)] at enough
  rwa [ancestors, ancestors, leads.ends _ (Nat.le_refl _), leads'.ends _ (Nat.le_refl _)]

/-- Whatever a tree says yes to or finds, another one says yes to or finds as well. -/
structure Keeps (tree other : TypeTree) : Prop where
  hasType : ∀ path, tree.hasType path → other.hasType path
  parent : ∀ path parent, tree.parent? path = some parent → other.parent? path = some parent
  hasProc : ∀ owner name, tree.hasProc owner name → other.hasProc owner name
  hasGlobalProc : ∀ name, tree.hasGlobalProc name → other.hasGlobalProc name
  field : ∀ owner name, (tree.field? owner name).isSome → (other.field? owner name).isSome
  globalVar : ∀ owner name, (tree.globalVar? owner name).isSome → (other.globalVar? owner name).isSome

/-- The answers of a tree follow from what it has. -/
theorem Regular.keeps (regular : tree.Regular) (regular' : other.Regular)
    (has : ∀ fact, tree.has fact → other.has fact) : tree.Keeps other := by
  have types (path : TypePath) (known : tree.hasType path) : other.hasType path := has (.type path.segments) known
  have ancestors {owner path : TypePath} (above : path ∈ (tree.ancestors owner).map Prod.fst) :
      path ∈ (other.ancestors owner).map Prod.fst := by
    by_cases known : tree.hasType owner
    · rwa [regular.ancestors_eq regular' types known]
    · rw [TypeTree.ancestors, lineage_of_not_hasType known] at above
      cases above
  refine ⟨types, fun path _ inherits => ?_, fun owner name => ?_, fun name => has (.globalProc name),
    fun owner name => ?_, fun owner name => ?_⟩
  · have known : tree.hasType path := by
      obtain ⟨_, found, _⟩ := Option.bind_eq_some_iff.1 inherits
      exact hasType_of_found found
    rw [regular'.parents path (types path known), ← regular.parents path known, inherits]
  · rw [hasProc_iff, hasProc_iff]
    rintro ⟨path, above, known⟩
    exact ⟨path, ancestors above, has _ known⟩
  · rw [field?_isSome_iff, field?_isSome_iff]
    rintro ⟨path, above, known⟩
    exact ⟨path, ancestors above, has _ known⟩
  · rw [regular.sound.globalVar?_isSome_iff, regular'.sound.globalVar?_isSome_iff]
    rintro ⟨path, seen, known⟩
    have absolute : path = ⟨.absolute, path.segments⟩ := by
      rcases mem_globalOwners.1 seen with above | rfl
      · obtain ⟨_, member, rfl⟩ := mem_map.1 above
        exact (entry?_of_mem_lineage member).1
      · rfl
    refine ⟨path, mem_globalOwners.2 ((mem_globalOwners.1 seen).imp_left ancestors), ?_⟩
    rw [absolute] at known ⊢
    exact has (.globalVar path.segments name) known

/-- All questions have the same answers. Of fields and global vars only whether there is one is asked. -/
structure SameAnswers (tree other : TypeTree) : Prop where
  hasType : ∀ path, other.hasType path = tree.hasType path
  parent : ∀ path, other.parent? path = tree.parent? path
  hasProc : ∀ owner name, other.hasProc owner name = tree.hasProc owner name
  hasGlobalProc : ∀ name, other.hasGlobalProc name = tree.hasGlobalProc name
  field : ∀ owner name, (other.field? owner name).isSome = (tree.field? owner name).isSome
  globalVar : ∀ owner name, (other.globalVar? owner name).isSome = (tree.globalVar? owner name).isSome

theorem Keeps.sameAnswers (keeps : tree.Keeps other) (back : other.Keeps tree) : tree.SameAnswers other where
  hasType path := Bool.eq_iff_iff.2 ⟨back.hasType path, keeps.hasType path⟩
  parent path := Option.ext fun parent => ⟨back.parent path parent, keeps.parent path parent⟩
  hasProc owner name := Bool.eq_iff_iff.2 ⟨back.hasProc owner name, keeps.hasProc owner name⟩
  hasGlobalProc name := Bool.eq_iff_iff.2 ⟨back.hasGlobalProc name, keeps.hasGlobalProc name⟩
  field owner name := Bool.eq_iff_iff.2 ⟨back.field owner name, keeps.field owner name⟩
  globalVar owner name := Bool.eq_iff_iff.2 ⟨back.globalVar owner name, keeps.globalVar owner name⟩

theorem facts_of_perm {file other : SourceFile}
    (permuted : (file.flatten.map (·.item.withoutBody)).Perm (other.flatten.map (·.item.withoutBody))) (fact : Fact) :
    fact ∈ file.facts ↔ fact ∈ other.facts := by
  have listed (file : SourceFile) : file.facts = (file.flatten.map (·.item.withoutBody)).flatMap Item.facts := by
    simp only [SourceFile.facts, flatMap_map, Item.facts_withoutBody]
  rw [listed file, listed other]
  exact (permuted.flatMap_right _).mem_iff

/-- The order and nesting of declarations do not matter, only which ones there are. And what a tree has said yes to
or found, it says yes to or finds when a further file is added. -/
theorem answers_of_perm {file other : SourceFile}
    (permuted : (file.flatten.map (·.item.withoutBody)).Perm (other.flatten.map (·.item.withoutBody))) :
    (ofFile file).SameAnswers (ofFile other) ∧
      ∀ changes more, (builtin.edits changes).Keeps ((builtin.edits changes).addFile more) := by
  have one := regular_builtin.addFile file
  have two := regular_builtin.addFile other
  have facts := facts_of_perm permuted
  constructor
  · apply Keeps.sameAnswers
    · refine one.regular.keeps two.regular fun fact known => (two.has_iff fact).2 ?_
      exact ((one.has_iff fact).1 known).imp_right (facts fact).1
    · refine two.regular.keeps one.regular fun fact known => (one.has_iff fact).2 ?_
      exact ((two.has_iff fact).1 known).imp_right (facts fact).2
  · intro changes more
    obtain ⟨_, built⟩ := regular_builtin.edits changes
    have added := built.regular.addFile more
    exact built.regular.keeps added.regular fun fact known => (added.has_iff fact).2 (.inl known)

/-- A var in the body of its type, and the same var before its type. -/
theorem answers_of_perm_nested :
    let box : TypePath := .absolute ["obj", "box"]
    let lid : Declaration := .mk (.var ⟨box, "lid", none, {}, none, .anything, .unknown⟩) .unknown
    let nested : SourceFile := ⟨[.mk (.object box [lid]) .unknown], .unknown⟩
    let flat : SourceFile := ⟨[lid, .mk (.object box []) .unknown], .unknown⟩
    (nested.flatten.map (·.item.withoutBody)).Perm (flat.flatten.map (·.item.withoutBody)) ∧
      (ofFile nested).SameAnswers (ofFile flat) := by
  intro box lid nested flat
  have permuted : (nested.flatten.map (·.item.withoutBody)).Perm (flat.flatten.map (·.item.withoutBody)) :=
    .swap _ _ _
  exact ⟨permuted, (answers_of_perm permuted).1⟩

end DreamMaker.TypeTree
