import DreamMaker.TypeTree.Basic

/-!
Types stand in the order in which they were added, each behind the one that it inherits from. So every step on the way
to the root leads to an earlier place, and the way ends there.
-/

namespace DreamMaker.TypeTree

open List

variable {tree : TypeTree}

/-- Types in an order to add them: the root first, then each behind the one it inherits from, and none twice. -/
inductive Grounded : List (TypePath × TypeEntry) → Prop
  | root {entry : TypeEntry} : entry.parent? = none → Grounded [(.root, entry)]
  | behind {types : List (TypePath × TypeEntry)} {path parent : TypePath} {entry : TypeEntry} :
      Grounded types → path.toAbsolute ∉ types.map Prod.fst → entry.parent? = some parent →
      parent.toAbsolute ∈ types.map Prod.fst → Grounded (types ++ [(path.toAbsolute, entry)])

variable {path : TypePath} {entry : TypeEntry}

theorem hasType_iff : tree.hasType path ↔ path.toAbsolute ∈ tree.types.map Prod.fst := by
  rw [hasType, entry?, lookup_isSome_iff, mem_map]
  simp only [beq_iff_eq]
  exact ⟨fun ⟨p, member, same⟩ => ⟨p, member, same.symm⟩,
    fun ⟨p, member, same⟩ => ⟨p, member, same.symm⟩⟩

theorem mem_of_found (found : tree.entry? path = some entry) : (path.toAbsolute, entry) ∈ tree.types := by
  obtain ⟨_, _, split, _⟩ := lookup_eq_some_iff.1 found
  rw [split]
  simp

theorem hasType_of_found (found : tree.entry? path = some entry) : tree.hasType path := by
  rw [hasType, found]
  rfl

namespace Grounded

variable {types : List (TypePath × TypeEntry)}

theorem root_mem (grounded : Grounded types) : .root ∈ types.map Prod.fst := by
  induction grounded with
  | root => simp
  | behind _ _ _ _ ih => simp [ih]

/-- What a type inherits from is a type too. -/
theorem parent_mem (grounded : Grounded types)
    (member : (key, entry) ∈ types) (inherits : entry.parent? = some parent) :
    parent.toAbsolute ∈ types.map Prod.fst := by
  induction grounded with
  | root orphan =>
    cases mem_singleton.1 member
    rw [orphan] at inherits
    cases inherits
  | behind _ _ last known ih =>
    rw [map_append]
    apply mem_append_left
    rcases mem_append.1 member with old | new
    · exact ih old
    cases mem_singleton.1 new
    rw [last] at inherits
    cases inherits
    exact known

/-- Types keep their order if what they declare changes, but not what they inherit from. -/
theorem map_entries (grounded : Grounded types)
    (keeps : ∀ type, (change type).1 = type.1 ∧ (change type).2.parent? = type.2.parent?) :
    Grounded (types.map change) := by
  have keys (types : List (TypePath × TypeEntry)) : (types.map change).map Prod.fst = types.map Prod.fst := by
    rw [map_map]
    exact map_congr_left fun type _ => (keeps type).1
  have shape (key : TypePath) (entry : TypeEntry) : change (key, entry) = (key, (change (key, entry)).2) :=
    Prod.ext (keeps (key, entry)).1 rfl
  induction grounded with
  | root orphan =>
    rw [map_singleton, shape]
    exact .root ((keeps _).2.trans orphan)
  | behind _ _ inherits _ ih =>
    rw [map_append, map_singleton, shape]
    exact .behind ih (by rwa [keys]) ((keeps _).2.trans inherits) (by rwa [keys])

end Grounded

/-! The way to the root. -/

theorem lineage_of_found (found : tree.entry? path = some entry) (count : Nat) :
    tree.lineage (count + 1) path = (path.toAbsolute, entry) :: entry.parent?.elim [] (tree.lineage count) := by
  rw [lineage, found]
  cases inherits : entry.parent? <;> simp only [inherits, Option.elim]

/-- Where there is no type there is no way. -/
theorem lineage_of_not_hasType (missing : ¬ tree.hasType path) (count : Nat) : tree.lineage count path = [] := by
  have none : tree.entry? path = none := by simpa [hasType] using missing
  cases count with
  | zero => rfl
  | succ count => rw [lineage, none]

/-- The types on the way to the root stand there with their entries. -/
theorem entry?_of_mem_lineage {count : Nat} (member : type ∈ tree.lineage count path) :
    type.1 = ⟨.absolute, type.1.segments⟩ ∧ TypeTree.entry? tree
      ⟨.absolute, type.1.segments⟩ = some type.2 := by
  induction count generalizing path with
  | zero => cases member
  | succ count ih =>
    rcases found : tree.entry? path with _ | entry
    · simp [lineage, found] at member
    rw [lineage_of_found found] at member
    rcases mem_cons.1 member with rfl | above
    · exact ⟨rfl, found⟩
    cases inherits : entry.parent? with
    | none => simp [inherits] at above
    | some _ =>
      rw [inherits] at above
      exact ih above

/-- The types whose global vars are seen are those on the way to the root, and the root. -/
theorem mem_globalOwners :
    path ∈ tree.globalOwners owner ↔ path ∈ (tree.ancestors owner).map Prod.fst ∨ path = .root := by
  unfold globalOwners
  dsimp only
  split
  · rename_i last
    refine ⟨.inl, ?_⟩
    rintro (above | rfl)
    · exact above
    · exact mem_of_getLast? (by simpa using last)
  · rw [mem_append, mem_singleton]

/-- A type's way to the root is not changed by types that are added later. -/
theorem lineage_append {later : TypeTree}
    (grounded : Grounded tree.types) (grown : later.types = tree.types ++ more) {count : Nat}
    (known : path.toAbsolute ∈ tree.types.map Prod.fst) : later.lineage count path = tree.lineage count path := by
  induction count generalizing path with
  | zero => rfl
  | succ count ih =>
    obtain ⟨entry, found⟩ := Option.isSome_iff_exists.1 (hasType_iff.2 known)
    have same : later.entry? path = some entry := by
      unfold entry?
      rw [grown, lookup_append, show tree.types.lookup path.toAbsolute = some entry from found]
      rfl
    rw [lineage_of_found same, lineage_of_found found]
    cases inherits : entry.parent? with
    | none => rfl
    | some _ => exact congrArg _ (ih (grounded.parent_mem (mem_of_found found) inherits))

/-- The way from a type to the root ends by itself within as many steps as there are types, starts with the type,
ends with the root, and comes to no type twice. -/
structure Leads (tree : TypeTree) (path : TypePath) (way : List (TypePath × TypeEntry)) : Prop where
  ends : ∀ count, tree.types.length ≤ count → tree.lineage count path = way
  first : (way.map Prod.fst).head? = some path.toAbsolute
  last : (way.map Prod.fst).getLast? = some .root
  within : ∀ key ∈ way.map Prod.fst, key ∈ tree.types.map Prod.fst
  nodup : (way.map Prod.fst).Nodup

theorem Grounded.leads (grounded : Grounded tree.types) (known : tree.hasType path) : ∃ way, tree.Leads path way := by
  rw [hasType_iff] at known
  -- By induction on the order of the types: the way of the last one goes on as the way of its parent, which was there
  -- before it.
  generalize order : tree.types = types at grounded known
  induction grounded generalizing tree path with
  | @root entry orphan =>
    have only : path.toAbsolute = .root := by simpa using known
    refine ⟨[(.root, entry)], ?_, by rw [only]; rfl, rfl, by simp [order], by simp⟩
    intro count enough
    rw [order, length_singleton] at enough
    obtain ⟨count, rfl⟩ := Nat.exists_eq_add_of_le' enough
    have found : tree.entry? path = some entry := by
      unfold entry?
      rw [order, only]
      exact lookup_cons_self
    rw [lineage_of_found found, orphan, only]
    rfl
  | @behind types last parent entry before _ inherits there ih =>
    let smaller : TypeTree := { tree with types }
    have longer (count : Nat) {path : TypePath} (old : path.toAbsolute ∈ types.map Prod.fst) :
        tree.lineage count path = smaller.lineage count path := by
      have grounded := before
      exact lineage_append grounded order old
    have wider {key : TypePath} (old : key ∈ types.map Prod.fst) : key ∈ tree.types.map Prod.fst := by
      rw [order, map_append]
      exact mem_append_left _ old
    by_cases old : path.toAbsolute ∈ types.map Prod.fst
    · obtain ⟨way, leads⟩ : ∃ way, smaller.Leads path way := ih rfl old
      refine ⟨way, ?_, leads.first, leads.last, fun key member => wider (leads.within key member), leads.nodup⟩
      intro count enough
      rw [longer count old]
      refine leads.ends count (Nat.le_trans ?_ enough)
      rw [order, length_append]
      exact Nat.le_add_right _ _
    · have here : path.toAbsolute = last.toAbsolute := by simpa [old] using known
      obtain ⟨way, leads⟩ : ∃ way, smaller.Leads parent way := ih rfl there
      have found : tree.entry? path = some entry := by
        have missing : types.lookup path.toAbsolute = none := by
          rw [lookup_eq_none_iff]
          intro _ member
          rw [bne_iff_ne]
          rintro same
          exact old (same ▸ mem_map_of_mem member)
        unfold entry?
        rw [order, lookup_append, missing, here]
        exact lookup_cons_self
      refine ⟨(path.toAbsolute, entry) :: way, ?_, rfl, ?_, ?_, ?_⟩
      · intro count enough
        rw [order, length_append] at enough
        obtain ⟨count, rfl⟩ := Nat.exists_eq_add_of_le' (Nat.le_trans (Nat.le_add_left 1 _) enough)
        rw [lineage_of_found found, inherits, Option.elim, longer count there]
        rw [leads.ends count (Nat.le_of_succ_le_succ enough)]
      · rw [map_cons, getLast?_cons, leads.last]
        rfl
      · intro key member
        rcases mem_cons.1 member with rfl | later
        · rw [order]
          exact known
        · exact wider (leads.within key later)
      · exact nodup_cons.2 ⟨fun again => old (leads.within _ again), leads.nodup⟩

end DreamMaker.TypeTree
