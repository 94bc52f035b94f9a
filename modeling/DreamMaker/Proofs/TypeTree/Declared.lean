import Mathlib.Data.List.Infix
import DreamMaker.Proofs.TypeTree.Ancestry
import DreamMaker.TypeTree.Declare

/-!
A tree has what was declared, no more and no less, in whatever order it was declared. What a type inherits from
follows from its path.
-/

namespace DreamMaker

open List TypeTree

/-- Something that becomes known by its name. Types are given by their segments. -/
inductive Fact
  | type (path : List String)
  | field (owner : List String) (name : String)
  | proc (owner : List String) (name : String)
  | globalVar (owner : List String) (name : String)
  | globalProc (name : String)
deriving DecidableEq

/-- A type and those around it, the root among them. -/
def Fact.around (path : TypePath) : List Fact := path.segments.inits.map .type

theorem Fact.mem_around {path : TypePath} : .type path.segments ∈ Fact.around path :=
  mem_map_of_mem ((mem_inits _ _).2 prefix_rfl)

namespace Item

/-- What a declaration makes known. -/
def facts : Item → List Fact
  | .object path _ => if declaresMember path then [] else Fact.around path
  | .proc definition =>
    if definition.owner.isRoot then [.globalProc definition.name]
    else Fact.around definition.owner ++ [.proc definition.owner.segments definition.name]
  | .var definition =>
    if definition.modifiers.isStatic || definition.owner.isRoot then
      Fact.around definition.owner ++ [.globalVar definition.owner.segments definition.name]
    else Fact.around definition.owner ++ [.field definition.owner.segments definition.name]
  | .override owner _ _ => Fact.around owner
  | .group _ => []

/-- A declaration without what stands in its body. -/
def withoutBody : Item → Item
  | .object path _ => .object path []
  | item => item

theorem facts_withoutBody (item : Item) : item.withoutBody.facts = item.facts := by
  cases item <;> rfl

end Item

def SourceFile.facts (file : SourceFile) : List Fact :=
  file.flatten.flatMap fun declaration => declaration.item.facts

namespace TypeTree

variable {tree : TypeTree}

/-- Whether a tree has something, on the very type that is named. -/
def has (tree : TypeTree) : Fact → Bool
  | .type path => tree.hasType ⟨.absolute, path⟩
  | .field owner name => (tree.entry? ⟨.absolute, owner⟩).any fun entry => entry.fields.any (·.name == name)
  | .proc owner name => (tree.entry? ⟨.absolute, owner⟩).any fun entry => entry.procs.contains name
  | .globalVar owner name => (tree.globalId? ⟨.absolute, owner⟩ name).isSome
  | .globalProc name => tree.hasGlobalProc name

/-- What a type at a path inherits from, if there is one. -/
def inherited? (path : TypePath) : Option TypePath :=
  match builtin.entry? path with
  | some entry => entry.parent?
  | none =>
    if path.segments.length ≤ 1 then some (.absolute ["datum"])
    else some ⟨.absolute, path.segments.dropLast⟩

/-- What holds of every tree. -/
structure Sound (tree : TypeTree) : Prop where
  grounded : Grounded tree.types
  verbs : ∀ type ∈ tree.types, type.2.verbs.Nodup
  /-- The id of a global var is its place in the table. -/
  ids : ∀ (id : Nat) var, tree.globals[id]? = some var → var.id = id
  /-- The ids by type and name are those of the vars in the table, and no others. -/
  index : ∀ owner name id, tree.globalId? owner name = some id ↔
    ∃ var, tree.globals[id]? = some var ∧ var.owner = owner ∧ var.name = name

theorem Sound.root_mem (sound : tree.Sound) : tree.hasType .root :=
  hasType_iff.2 sound.grounded.root_mem

/-- Trees as declarations build them. -/
structure Regular (tree : TypeTree) : Prop where
  sound : tree.Sound
  base : ∀ path, builtin.hasType path → tree.hasType path
  /-- With a type there are those around it. -/
  closed : ∀ path outer, tree.has (.type path) → outer <+: path → tree.has (.type outer)
  parents : ∀ path, tree.hasType path → tree.parent? path = inherited? path

/-- A later tree has what a tree has: types with what they inherit from, and global vars with their ids. -/
structure Persists (tree later : TypeTree) : Prop where
  types : ∀ path, tree.hasType path → later.hasType path ∧ later.parent? path = tree.parent? path
  globals : ∀ (id : Nat) var, tree.globals[id]? = some var → later.globals[id]? = some var
  ids : ∀ owner name id, tree.globalId? owner name = some id → later.globalId? owner name = some id

/-- A tree has what another has, with the same ids, and these facts. -/
structure Adds (tree : TypeTree) (facts : List Fact) (later : TypeTree) : Prop where
  regular : later.Regular
  has_iff : ∀ fact, later.has fact ↔ tree.has fact ∨ fact ∈ facts
  globals : ∀ (id : Nat) var, tree.globals[id]? = some var → later.globals[id]? = some var
  ids : ∀ owner name id, tree.globalId? owner name = some id → later.globalId? owner name = some id

namespace Adds

variable {later : TypeTree} {facts : List Fact}

theorem of_known (regular : tree.Regular) (known : ∀ fact ∈ facts, tree.has fact) : tree.Adds facts tree where
  regular := regular
  has_iff fact := ⟨.inl, fun either => either.elim id (known fact)⟩
  globals _ _ found := found
  ids _ _ _ found := found

/-- Members are added to types that are there. -/
theorem of_members (regular : tree.Regular) (sound : later.Sound)
    (has_iff : ∀ fact, later.has fact ↔ tree.has fact ∨ fact ∈ facts) (members : ∀ path, .type path ∉ facts)
    (parents : ∀ path, later.parent? path = tree.parent? path)
    (globals : ∀ (id : Nat) var, tree.globals[id]? = some var → later.globals[id]? = some var)
    (ids : ∀ owner name id, tree.globalId? owner name = some id → later.globalId? owner name = some id) :
    tree.Adds facts later := by
  have types (path : List String) : later.has (.type path) ↔ tree.has (.type path) :=
    (has_iff (.type path)).trans (or_iff_left (members path))
  refine ⟨⟨sound, ?_, ?_, ?_⟩, has_iff, globals, ids⟩
  · intro path there
    exact (types path.segments).2 (regular.base path there)
  · intro path outer known before
    exact (types outer).2 (regular.closed path outer ((types path).1 known) before)
  · intro path known
    rw [parents]
    exact regular.parents path ((types path.segments).1 known)

theorem trans (first : tree.Adds facts later) (second : later.Adds more last) : tree.Adds (facts ++ more) last where
  regular := second.regular
  has_iff fact := by rw [second.has_iff, first.has_iff, mem_append, or_assoc]
  globals id var found := second.globals id var (first.globals id var found)
  ids owner name id found := second.ids owner name id (first.ids owner name id found)

/-- What a type inherits from follows from its path, before and after. -/
theorem persists (added : tree.Adds facts later) (regular : tree.Regular) : tree.Persists later where
  types path known := by
    have kept : later.hasType path := (added.has_iff (.type path.segments)).2 (.inl known)
    exact ⟨kept, (added.regular.parents path kept).trans (regular.parents path known).symm⟩
  globals := added.globals
  ids := added.ids

end Adds

/-! Types. -/

theorem entry?_insertNew (missing : ¬ tree.hasType path)
    (entry : TypeEntry) (other : TypePath) :
    entry? (tree.insertNew path entry) other =
      if other.toAbsolute = path.toAbsolute then some entry else tree.entry? other := by
  have none : tree.types.lookup path.toAbsolute = none := Option.not_isSome_iff_eq_none.1 missing
  rw [insertNew, if_neg missing, entry?, lookup_append, entry?]
  by_cases same : other.toAbsolute = path.toAbsolute
  · rw [if_pos same, same, none]
    exact lookup_cons_self
  · rw [if_neg same, lookup_cons, beq_eq_false_iff_ne.2 same]
    simp

theorem has_insertNew (missing : ¬ tree.hasType path) (parent? : Option TypePath) (fact : Fact) :
    (tree.insertNew path { parent? }).has fact ↔ tree.has fact ∨ fact ∈ [.type path.segments] := by
  have none : entry? tree ⟨.absolute, path.segments⟩ = none := Option.not_isSome_iff_eq_none.1 missing
  have entries (owner : List String) := entry?_insertNew missing { parent? } ⟨.absolute, owner⟩
  have same (owner : List String) :
      (⟨.absolute, owner⟩ : TypePath).toAbsolute = path.toAbsolute ↔ owner = path.segments := by
    simp [TypePath.toAbsolute]
  simp only [same] at entries
  cases fact with
  | type owner =>
    simp only [has, hasType, entries]
    split <;> simp [*]
  | field owner name | proc owner name =>
    simp only [has, entries]
    split <;> simp [*]
  | globalVar | globalProc => simp [has, globalId?, hasGlobalProc, insertNew, missing]

/-- A type is added behind those around it and behind the one that it inherits from. -/
theorem Regular.insertNew (regular : tree.Regular) (path : TypePath)
    (known : tree.hasType parent) (inherits : ¬ tree.hasType path → inherited? path = some parent)
    (around : ∀ outer, outer <+: path.segments → outer = path.segments ∨ tree.has (.type outer)) :
    tree.Adds [.type path.segments] (tree.insertNew path { parent? := some parent }) := by
  by_cases there : tree.hasType path
  · rw [TypeTree.insertNew, if_pos there]
    refine .of_known regular fun _ member => ?_
    cases mem_singleton.1 member
    exact there
  · have has_iff := has_insertNew there (some parent)
    have entries := entry?_insertNew there { parent? := some parent }
    rw [TypeTree.insertNew, if_neg there] at has_iff entries ⊢
    refine ⟨⟨⟨?_, ?_, regular.sound.ids, regular.sound.index⟩, ?_, ?_, ?_⟩, has_iff, fun _ _ found => found,
      fun _ _ _ found => found⟩
    · rw [hasType_iff] at there known
      exact .behind regular.sound.grounded there rfl known
    · intro type member
      rcases mem_append.1 member with old | new
      · exact regular.sound.verbs type old
      · cases mem_singleton.1 new
        exact nodup_nil
    · intro other base
      exact (has_iff (.type other.segments)).2 (.inl (regular.base other base))
    · intro other outer member before
      rw [has_iff] at member ⊢
      rcases member with old | new
      · exact .inl (regular.closed other outer old before)
      cases mem_singleton.1 new
      rcases around outer before with rfl | old
      · exact .inr new
      · exact .inl old
    · intro other member
      rw [parent?, entries]
      rw [hasType, entries] at member
      split
      · rename_i same
        have absolute : inherited? other = inherited? path := by
          have segments := (TypePath.mk.inj same).2
          rw [inherited?, inherited?, entry?, entry?, same, segments]
        exact (absolute.trans (inherits there)).symm
      · rename_i apart
        rw [if_neg apart] at member
        exact regular.parents other member

theorem Regular.root (regular : tree.Regular) : tree.has (.type []) := regular.sound.root_mem

theorem inherited?_of_missing (missing : ¬ builtin.hasType path) :
    inherited? path = if path.segments.length ≤ 1 then some (.absolute ["datum"])
      else some ⟨.absolute, path.segments.dropLast⟩ := by
  have none : builtin.entry? path = none := by simpa [hasType] using missing
  rw [inherited?, none]

theorem Regular.ensureSegments (regular : tree.Regular) (segments : List String) :
    tree.Adds (segments.reverse.inits.map .type) (tree.ensureSegments segments) := by
  induction segments with
  | nil =>
    have there : tree.ensureSegments [] = tree := if_pos regular.sound.root_mem
    rw [there]
    refine .of_known regular fun fact member => ?_
    cases mem_singleton.1 member
    exact regular.root
  | cons segment rest ih =>
    have missing (new : ¬ tree.hasType ⟨.absolute, (segment :: rest).reverse⟩) :
        ¬ builtin.hasType ⟨.absolute, (segment :: rest).reverse⟩ := fun there => new (regular.base _ there)
    have inits : (segment :: rest).reverse.inits = rest.reverse.inits ++ [(segment :: rest).reverse] := by simp
    have parent : (tree.ensureSegments rest).has (.type rest.reverse) :=
      (ih.has_iff _).2 (.inr (mem_map_of_mem ((mem_inits _ _).2 prefix_rfl)))
    have around (outer : List String) (before : outer <+: (segment :: rest).reverse) :
        outer = (segment :: rest).reverse ∨ (tree.ensureSegments rest).has (.type outer) := by
      rw [reverse_cons] at before ⊢
      exact (prefix_concat_iff.1 before).imp_right (ih.regular.closed _ outer parent)
    rw [inits, map_append]
    cases rest with
    | nil =>
      have there : tree.ensureSegments [] = tree := if_pos regular.sound.root_mem
      rw [there] at ih around
      exact ih.trans (regular.insertNew ⟨.absolute, [segment]⟩ (regular.base _ (by decide))
        (fun new => inherited?_of_missing (missing new)) around)
    | cons next outer =>
      rw [TypeTree.ensureSegments]
      · split
        · rename_i known
          refine .of_known regular fun fact member => ?_
          rw [← map_append, ← inits] at member
          obtain ⟨path, before, rfl⟩ := mem_map.1 member
          exact regular.closed _ path known ((mem_inits _ _).1 before)
        · rename_i new
          refine ih.trans (ih.regular.insertNew ⟨.absolute, (segment :: next :: outer).reverse⟩ parent ?_ around)
          intro _
          rw [inherited?_of_missing (missing new)]
          simp
      · simp

theorem Regular.ensureType (regular : tree.Regular) (path : TypePath) :
    tree.Adds (Fact.around path) (tree.ensureType path) := by
  have added := regular.ensureSegments path.segments.reverse
  rwa [reverse_reverse] at added

/-! Members. -/

theorem lookup_map_entries {κ β γ : Type} [BEq κ] [LawfulBEq κ] {change : κ × β → κ × γ}
    (keys : ∀ entry, (change entry).1 = entry.1) (entries : List (κ × β)) (key : κ) :
    (entries.map change).lookup key = (entries.lookup key).map fun value => (change (key, value)).2 := by
  induction entries with
  | nil => rfl
  | cons entry entries ih =>
    rw [map_cons, lookup_cons, lookup_cons, keys]
    by_cases here : key = entry.1
    · rw [here, beq_self_eq_true]
      rfl
    · rw [beq_eq_false_iff_ne.2 here]
      exact ih

theorem entry?_modifyEntry (path other : TypePath) (change : TypeEntry → TypeEntry) :
    entry? (tree.modifyEntry path change) other =
      (tree.entry? other).map fun entry => if other.toAbsolute == path.toAbsolute then change entry else entry := by
  unfold entry?
  rw [modifyEntry, lookup_map_entries fun _ => ?_]
  · congr 1
    dsimp only
    split <;> rfl
  · dsimp only
    split <;> rfl

theorem parent?_modifyEntry (parent : ∀ entry, (change entry).parent? = entry.parent?) :
    (tree.modifyEntry path change).parent? other = tree.parent? other := by
  rw [parent?, parent?, entry?_modifyEntry]
  cases entry? tree other with
  | none => rfl
  | some entry =>
    split
    · exact parent entry
    · rfl

/-- What is added to the entry of a type that there is. -/
theorem has_modifyEntry (known : tree.hasType path) {fields procs : List String}
    (grows : ∀ entry name, ((change entry).fields.any (·.name == name) ↔
      name ∈ fields ∨ entry.fields.any (·.name == name)) ∧
      (name ∈ (change entry).procs ↔ name ∈ procs ∨ name ∈ entry.procs)) (fact : Fact) :
    (tree.modifyEntry path change).has fact ↔ tree.has fact ∨
      fact ∈ fields.map (.field path.segments) ++ procs.map (.proc path.segments) := by
  obtain ⟨found, here⟩ := Option.isSome_iff_exists.1 known
  have itself : entry? tree ⟨.absolute, path.segments⟩ = some found := here
  have entries (owner : List String) : entry? (tree.modifyEntry path change) ⟨.absolute, owner⟩ =
      (tree.entry? ⟨.absolute, owner⟩).map fun entry => if owner = path.segments then change entry else entry := by
    rw [entry?_modifyEntry]
    simp [TypePath.toAbsolute]
  cases fact with
  | type owner => simp [has, hasType, entries]
  | field owner name | proc owner name =>
    simp only [has, entries]
    by_cases same : owner = path.segments
    · simp [same, itself, grows found name, or_comm]
    · simp [same, Ne.symm same]
  | globalVar | globalProc => simp [has, globalId?, hasGlobalProc, modifyEntry]

theorem globalId?_addGlobal
    (missing : tree.globalId? owner.toAbsolute name = none) (type? : Option TypePath) (types : ValueTypes)
    (value? : Option Expr) (owner' : TypePath) (name' : String) :
    (tree.addGlobal owner name type? types value?).2.globalId? owner' name' =
      if (owner', name') = (owner.toAbsolute, name) then some tree.globals.size else tree.globalId? owner' name' := by
  rw [addGlobal, missing, globalId?]
  by_cases same : (owner', name') = (owner.toAbsolute, name)
  · rw [if_pos same, same]
    exact lookup_cons_self
  · rw [if_neg same]
    rw [lookup_cons, beq_eq_false_iff_ne.2 same]
    rfl

theorem globalId?_addGlobal_self
    (types : ValueTypes) :
    (tree.addGlobal owner name type? types value?).2.globalId? owner.toAbsolute name =
      some (tree.addGlobal owner name type? types value?).1 := by
  cases there : tree.globalId? owner.toAbsolute name with
  | some _ => rw [addGlobal, there, there]
  | none => rw [globalId?_addGlobal there, if_pos rfl, addGlobal, there]

section

variable (regular : tree.Regular)

include regular

/-- What is declared on a type leaves its place in the tree as it is. -/
theorem Regular.declareOn (path : TypePath) (parent : ∀ entry, (change entry).parent? = entry.parent?)
    (verbs : ∀ entry : TypeEntry, entry.verbs.Nodup → (change entry).verbs.Nodup)
    (fields procs : List String) (grows : ∀ entry name, ((change entry).fields.any (·.name == name) ↔
      name ∈ fields ∨ entry.fields.any (·.name == name)) ∧
      (name ∈ (change entry).procs ↔ name ∈ procs ∨ name ∈ entry.procs)) :
    tree.Adds (Fact.around path ++ (fields.map (.field path.segments) ++ procs.map (.proc path.segments)))
      (tree.declareOn path change) := by
  have ensured := regular.ensureType path
  obtain ⟨grounded, listed, ids, index⟩ := ensured.regular.sound
  have known : (tree.ensureType path).hasType path := (ensured.has_iff (.type path.segments)).2 (.inr Fact.mem_around)
  refine ensured.trans (.of_members ensured.regular ⟨?_, ?_, ids, index⟩ (has_modifyEntry known grows) (by simp)
    (fun _ => parent?_modifyEntry parent) (fun _ _ found => found) fun _ _ _ found => found)
  · refine grounded.map_entries fun type => ?_
    dsimp only
    split
    · exact ⟨rfl, parent type.2⟩
    · exact ⟨rfl, rfl⟩
  · intro type member
    obtain ⟨before, old, rfl⟩ := mem_map.1 member
    dsimp only
    split
    · exact verbs before.2 (listed before old)
    · exact listed before old

theorem Regular.addField (owner : TypePath) (field : Field) :
    tree.Adds (Fact.around owner ++ [.field owner.segments field.name]) (tree.addField owner field) :=
  regular.declareOn owner (by simp) (by simp) [field.name] [] fun _ name => by
    simp only [any_cons, Bool.or_eq_true, beq_iff_eq, mem_singleton, eq_comm (a := name), not_mem_nil,
      false_or, and_self]

theorem Regular.addProc (owner : TypePath) (name : String) :
    tree.Adds (if owner.isRoot then [.globalProc name] else Fact.around owner ++ [.proc owner.segments name])
      (tree.addProc owner name) := by
  unfold TypeTree.addProc
  split
  · obtain ⟨grounded, verbs, ids, index⟩ := regular.sound
    refine .of_members regular ⟨grounded, verbs, ids, index⟩ (fun fact => ?_) (by simp) (fun _ => rfl)
      (fun _ _ found => found) fun _ _ _ found => found
    cases fact <;> simp [has, hasType, entry?, globalId?, hasGlobalProc, or_comm]
  · exact regular.declareOn owner (by simp) (by simp) [] [name] fun _ _ => by simp

/-- A verb that is listed already is not listed again. -/
theorem Regular.addVerb (owner proc : TypePath) : tree.Adds (Fact.around owner) (tree.addVerb owner proc) := by
  have verbs (entry : TypeEntry) (nodup : entry.verbs.Nodup) :
      (if entry.verbs.contains proc then entry else { entry with verbs := entry.verbs ++ [proc] }).verbs.Nodup := by
    split
    · exact nodup
    · rename_i missing
      exact nodup_append.2 ⟨nodup, by simp, by grind⟩
  have added := regular.declareOn owner (fun entry => by split <;> rfl) verbs [] [] fun entry _ => by
    split <;> simp
  rwa [map_nil, map_nil, append_nil, append_nil] at added

/-! Global vars. -/

/-- A global var that is there keeps its id, and a new one comes behind all others. -/
theorem Regular.addGlobal (owner : TypePath) (name : String)
    (type? : Option TypePath) (types : ValueTypes) (value? : Option Expr) :
    tree.Adds [.globalVar owner.segments name] (tree.addGlobal owner name type? types value?).2 := by
  cases there : tree.globalId? owner.toAbsolute name with
  | some id =>
    have same : tree.addGlobal owner name type? types value? = (id, tree) := by rw [TypeTree.addGlobal, there]
    rw [same]
    refine .of_known regular fun fact member => ?_
    cases mem_singleton.1 member
    exact Option.isSome_iff_exists.2 ⟨id, there⟩
  | none =>
    obtain ⟨grounded, verbs, ids, index⟩ := regular.sound
    have listed := globalId?_addGlobal there type? types value?
    have free (var : GlobalVar) (id : Nat) (found : tree.globals[id]? = some var) :
        (var.owner, var.name) ≠ (owner.toAbsolute, name) := by
      intro same
      rw [Prod.mk.injEq] at same
      have known := (index var.owner var.name id).2 ⟨var, found, rfl, rfl⟩
      rw [same.1, same.2, there] at known
      cases known
    have size (id : Nat) (var : GlobalVar) (found : tree.globals[id]? = some var) : id < tree.globals.size :=
      (Array.getElem?_eq_some_iff.1 found).1
    rw [TypeTree.addGlobal, there] at listed ⊢
    refine .of_members regular ⟨grounded, verbs, ?_, ?_⟩ ?_ (by simp) (fun _ => rfl) ?_ ?_
    · intro id var found
      rw [Array.getElem?_push] at found
      split at found
      · cases found
        rename_i last
        exact last.symm
      · exact ids id var found
    · intro owner' name' id
      rw [listed, Array.getElem?_push]
      split
      · rename_i same
        rw [Prod.mk.injEq] at same
        constructor
        · intro new
          cases new
          exact ⟨_, if_pos rfl, same.1.symm, same.2.symm⟩
        · rintro ⟨var, found, rfl, rfl⟩
          split at found
          · rename_i last
            rw [last]
          · exact absurd (Prod.ext same.1 same.2) (free var id found)
      · rename_i apart
        rw [index]
        constructor
        · rintro ⟨var, found, own⟩
          rw [if_neg (Nat.ne_of_lt (size id var found))]
          exact ⟨var, found, own⟩
        · rintro ⟨var, found, rfl, rfl⟩
          split at found
          · cases found
            exact absurd rfl apart
          · exact ⟨var, found, rfl, rfl⟩
    · intro fact
      cases fact with
      | globalVar owner' name' =>
        simp only [has, listed]
        split <;> simp_all [TypePath.toAbsolute]
      | type | field | proc | globalProc => simp [has, hasType, hasGlobalProc, entry?]
    · intro id var found
      rw [Array.getElem?_push, if_neg (Nat.ne_of_lt (size id var found))]
      exact found
    · intro owner' name' id found
      rw [listed, if_neg]
      · exact found
      · intro same
        rw [Prod.mk.injEq] at same
        rw [same.1, same.2, there] at found
        cases found

/-! Declarations and files. -/

theorem Regular.addItem (item : Item) : tree.Adds item.facts (tree.addItem item) := by
  cases item with
  | object path _ =>
    rw [TypeTree.addItem, Item.facts]
    split
    · exact .of_known regular (forall_mem_nil _)
    · exact regular.ensureType path
  | proc definition => exact regular.addProc definition.owner definition.name
  | var definition =>
    rw [TypeTree.addItem, Item.facts]
    split
    · have ensured := regular.ensureType definition.owner
      exact ensured.trans
        (ensured.regular.addGlobal definition.owner definition.name definition.type? definition.types
        definition.value?)
    · exact regular.addField definition.owner ⟨definition.name, definition.type?, definition.types, _⟩
  | override owner _ _ => exact regular.ensureType owner
  | group _ => exact .of_known regular (forall_mem_nil _)

/-- A file adds what its declarations make known, at whatever depth they stand. -/
theorem Regular.addFile (file : SourceFile) : tree.Adds file.facts (tree.addFile file) := by
  unfold SourceFile.facts TypeTree.addFile
  generalize file.flatten = declarations
  induction declarations generalizing tree with
  | nil => exact .of_known regular nofun
  | cons declaration _ ih =>
    have first := regular.addItem declaration.item
    exact first.trans (ih first.regular)

end

/-- Whether types may be added behind others one after another. -/
def mayFollow (types : List (TypePath × TypeEntry)) : List (TypePath × TypeEntry) → Bool
  | [] => true
  | type :: rest =>
    let keys := types.map Prod.fst
    type.1.anchor == .absolute && !keys.contains type.1 && type.2.parent?.any
      (fun parent => keys.contains parent.toAbsolute) &&
      mayFollow (types ++ [type]) rest

theorem Grounded.append {types : List (TypePath × TypeEntry)} (grounded : Grounded types)
    (follow : mayFollow types more = true) : Grounded (types ++ more) := by
  induction more generalizing types with
  | nil => rwa [append_nil]
  | cons type _ ih =>
    simp only [mayFollow, Bool.and_eq_true, beq_iff_eq, Bool.not_eq_true', contains_eq_mem, decide_eq_false_iff_not,
      Option.any_eq_true, decide_eq_true_eq] at follow
    obtain ⟨⟨⟨absolute, fresh⟩, _, inherits, known⟩, others⟩ := follow
    obtain ⟨⟨_, segments⟩, entry⟩ := type
    cases absolute
    rw [append_cons]
    have next : Grounded (types ++ [((⟨.absolute, segments⟩ : TypePath).toAbsolute, entry)]) :=
      .behind grounded fresh inherits known
    exact ih next others

theorem sound_builtin : builtin.Sound where
  grounded := by
    have first : Grounded (builtin.types.take 1) := .root rfl
    have all := first.append (show mayFollow _ (builtin.types.drop 1) = true by decide)
    rwa [take_append_drop] at all
  verbs := by decide
  ids _ _ found := by cases found
  index owner name id := by
    constructor
    · intro found
      cases found
    · rintro ⟨_, found, _⟩
      cases found

theorem regular_builtin : builtin.Regular where
  sound := sound_builtin
  base _ known := known
  closed path outer known before := by
    have all : ∀ type ∈ builtin.types, ∀ outer ∈ type.1.segments.inits, builtin.has (.type outer) := by decide
    obtain ⟨type, member, same⟩ := mem_map.1 (hasType_iff.1 known)
    refine all type member outer ((mem_inits _ _).2 ?_)
    rw [same]
    exact before
  parents path known := by
    obtain ⟨_, found⟩ := Option.isSome_iff_exists.1 known
    rw [inherited?, parent?, found]
    rfl

end TypeTree

end DreamMaker
