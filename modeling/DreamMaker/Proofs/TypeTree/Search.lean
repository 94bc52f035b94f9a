import DreamMaker.Proofs.Path
import DreamMaker.Resolution.Context

/-!
Searching upward finds what is as near as possible. A path that already names procs is no place to look in: there
nothing is found, even where the whole path would resolve.
-/

namespace DreamMaker

open List TypePath

variable {tree : TypeTree} {path target : TypePath} {outer : List String} {segments : List String}

/-- Segments that introduce a proc. -/
def TypePath.isMarker (segment : String) : Bool := segment == "proc" || segment == "verb"

/-- The tree holds what a path stands for: a proc if a segment of the path says so, and a type otherwise. -/
def TypeTree.Holds (tree : TypeTree) (path : TypePath) : Prop :=
  match path.procMarker? with
  | none => tree.hasType path = true
  | some index => index + 1 < path.segments.length ∧
      tree.hasProcAt ⟨.absolute, path.segments.take index⟩ path.lastName = true

/-- The types of a tree have no segments that introduce procs. -/
def TypeTree.Unmarked (tree : TypeTree) : Prop :=
  ∀ path, tree.hasType path = true → path.segments.any isMarker = false

theorem TypePath.procMarker?_append (plain : outer.any isMarker = false) (anchor anchor' : Anchor)
    (segments : List String) :
    procMarker? ⟨anchor, outer ++ segments⟩ = (procMarker? ⟨anchor', segments⟩).map (outer.length + ·) := by
  have missing (word : String) (marks : isMarker word = true) : outer.findIdx? (· == word) = none := by
    refine findIdx?_eq_none_iff.mpr fun segment member => ?_
    have other := any_eq_false.mp plain segment member
    refine beq_eq_false_iff_ne.mpr ?_
    rintro rfl
    exact other marks
  simp only [procMarker?, find?, findIdx?_append, missing "proc" rfl, missing "verb" rfl, Option.none_or,
    Nat.add_comm outer.length]
  cases segments.findIdx? (· == "proc") <;> rfl

theorem TypePath.slice_start (proper : ∀ segment ∈ segments, IsSegment segment) (index : Nat) :
    slice ⟨.absolute, segments⟩ 0 index = ⟨.absolute, segments.take index⟩ := by
  rw [slice, drop_zero, absolute, ofSegments, normalize_eq fun segment member =>
    proper segment (mem_of_mem_take member)]

namespace TypeTree

/-- A type that has a proc is a type of the tree. -/
theorem hasType_of_hasProc {name : String} (has : tree.hasProc path name = true) : tree.hasType path = true := by
  obtain ⟨_, member, -⟩ := any_eq_true.mp has
  rw [hasType]
  unfold ancestors at member
  cases count : tree.types.length with
  | zero => simp [count, lineage] at member
  | succ _ =>
    rw [count, lineage] at member
    cases found : tree.entry? path with
    | none => simp [found] at member
    | some _ => rfl

theorem names_iff_holds (proper : ∀ segment ∈ segments, TypePath.IsSegment segment) :
    tree.names ⟨.absolute, segments⟩ (procMarker? ⟨.absolute, segments⟩) = true ↔
      tree.Holds ⟨.absolute, segments⟩ := by
  unfold Holds
  cases procMarker? ⟨.absolute, segments⟩ with
  | none => exact Iff.rfl
  | some index => simp only [names, slice_start proper, Bool.and_eq_true, decide_eq_true_eq]

/-- What the tree holds resolves. -/
theorem Holds.constantPath {context : Context} (holds : context.tree.Holds ⟨.absolute, segments⟩)
    (proper : ∀ segment ∈ segments, TypePath.IsSegment segment) (span : Span) :
    let path : TypePath := ⟨.absolute, segments⟩
    context.constantPath path span =
      pure (if path.procMarker?.isSome then .plain (.atom (.proc path)) span else .path path span) := by
  intro path
  have place : context.place path = path := if_pos rfl
  have named : context.tree.names path path.procMarker? = true := (names_iff_holds proper).mpr holds
  simp only [Context.constantPath, place, named]
  cases path.procMarker? <;> rfl

/-- A search looks for its marker in what it looks for, and so finds nothing behind a marker. -/
theorem unmarked_of_names (unmarked : tree.Unmarked)
    (proper : ∀ segment ∈ outer ++ target.segments, TypePath.IsSegment segment)
    (named : tree.names ⟨.absolute, outer ++ target.segments⟩ (target.procMarker?.map (outer.length + ·)) = true) :
    outer.any isMarker = false := by
  have plain {segments : List String} (type : tree.hasType ⟨.absolute, outer ++ segments⟩ = true) :
      outer.any isMarker = false := by
    have none_ := unmarked _ type
    rw [any_append, Bool.or_eq_false_iff] at none_
    exact none_.1
  rcases marker : target.procMarker? with _ | index
  · exact plain (by simpa [marker, names] using named)
  simp only [marker, Option.map_some, names, slice_start proper, take_length_add_append,
    Bool.and_eq_true] at named
  have has := named.2
  unfold hasProcAt at has
  split at has
  · next root =>
    have empty : outer = [] := by
      simp only [isRoot, Bool.and_eq_true, List.isEmpty_iff, append_eq_nil_iff] at root
      exact root.2.1
    rw [empty]
    rfl
  · exact plain (hasType_of_hasProc has)

theorem names_iff (unmarked : tree.Unmarked)
    (proper : ∀ segment ∈ outer ++ target.segments, TypePath.IsSegment segment) :
    tree.names ⟨.absolute, outer ++ target.segments⟩ (target.procMarker?.map (outer.length + ·)) = true ↔
      outer.any isMarker = false ∧ tree.Holds ⟨.absolute, outer ++ target.segments⟩ := by
  have shifted (plain : outer.any isMarker = false) :=
    procMarker?_append plain .absolute target.anchor target.segments
  constructor
  · intro named
    have plain := unmarked_of_names unmarked proper named
    exact ⟨plain, (names_iff_holds proper).mp (by rw [shifted plain]; exact named)⟩
  · rintro ⟨plain, holds⟩
    have named := (names_iff_holds proper).mpr holds
    rw [shifted plain] at named
    exact named

/-- The first number with a result, counted down. -/
theorem findSome?_range_reverse {f : Nat → Option α} (found : (range size).reverse.findSome? f = some a) :
    ∃ n < size, f n = some a ∧ ∀ m, n < m → m < size → f m = none := by
  induction size with
  | zero => cases found
  | succ size ih =>
    rw [range_succ, reverse_append, reverse_singleton, singleton_append, findSome?_cons] at found
    split at found
    · next here =>
      cases found
      exact ⟨size, Nat.lt_succ_self _, here, fun m above below => by omega⟩
    · next nothing =>
      obtain ⟨n, below, here, later⟩ := ih found
      refine ⟨n, Nat.lt_succ_of_lt below, here, fun m above below => ?_⟩
      rcases Nat.lt_succ_iff_lt_or_eq.mp below with lower | rfl
      · exact later m above lower
      · exact nothing

/-- A search upward finds what it looks for behind the longest part of the base without a marker behind which the
tree holds it, and there it resolves. If it finds nothing, there is no such part. -/
theorem search?_nearest (unmarked : tree.Unmarked) (base target : TypePath)
    (proper : ∀ segment ∈ base.segments ++ target.segments, TypePath.IsSegment segment) :
    let behind (n : Nat) : TypePath := ⟨.absolute, base.segments.take n ++ target.segments⟩
    let free (n : Nat) : Prop := (base.segments.take n).any isMarker = false
    match tree.search? base target with
    | some path => ∃ n ≤ base.segments.length, path = behind n ∧ free n ∧ tree.Holds path ∧
        (∀ m, n < m → m ≤ base.segments.length → free m → ¬tree.Holds (behind m)) ∧
        ∀ (context : Context) (span : Span), context.tree = tree → context.constantPath path span =
          pure (if path.procMarker?.isSome then .plain (.atom (.proc path)) span else .path path span)
    | none => ∀ n, n ≤ base.segments.length → free n → ¬tree.Holds (behind n) := by
  intro behind free
  have proper_take (n : Nat) : ∀ segment ∈ base.segments.take n ++ target.segments, TypePath.IsSegment segment :=
    fun segment member => proper segment ((Sublist.append_right (take_sublist _ _) _).subset member)
  have inner : ofSegments .relative target.segments = ⟨.relative, target.segments⟩ := by
    rw [ofSegments, normalize_eq fun segment member => proper segment (mem_append_right _ member)]
  have candidate (n : Nat) : combine ⟨.absolute, base.segments.take n⟩ ⟨.relative, target.segments⟩ =
      behind n := by
    simp only [behind, combine, reduceCtorEq, if_false, ofSegments,
      normalize_eq (proper_take n)]
  have marker : procMarker? ⟨.relative, target.segments⟩ = target.procMarker? := rfl
  have steps : tree.search? base target = (range (base.segments.length + 1)).reverse.findSome? fun n =>
      if tree.names (behind n) (target.procMarker?.map ((base.segments.take n).length + ·)) then
        some (behind n) else none := by
    simp only [search?, enclosing, toAbsolute, findSome?_map, Function.comp_def, inner, candidate,
      marker]
  have tested (n : Nat) : _ ↔ free n ∧ tree.Holds (behind n) := names_iff unmarked (proper_take n)
  rw [steps]
  split
  · next path found =>
    obtain ⟨n, below, here, later⟩ := findSome?_range_reverse found
    obtain ⟨named, same⟩ := Option.ite_none_right_eq_some.mp here
    cases same
    obtain ⟨plain, holds⟩ := (tested n).mp named
    refine ⟨n, Nat.le_of_lt_succ below, rfl, plain, holds, fun m above below plain' holds' => ?_, ?_⟩
    · cases (later m above (Nat.lt_succ_of_le below)).symm.trans (if_pos ((tested m).mpr ⟨plain', holds'⟩))
    · rintro context span rfl
      exact holds.constantPath (proper_take n) span
  · next nothing =>
    intro n below plain holds
    have here := findSome?_eq_none_iff.mp nothing n (by simpa using Nat.lt_succ_of_le below)
    cases here.symm.trans (if_pos ((tested n).mpr ⟨plain, holds⟩))

theorem search?_nearest_proc :
    let tree : TypeTree := {
      types := [(⟨.absolute, ["obj"]⟩, { parent? := none, procs := ["hit"] })], globals :=
        #[], globalProcs := ["hit"] }
    ∃ n ≤ 2, (⟨.absolute, ["obj", "proc", "hit"]⟩ : TypePath) =
      ⟨.absolute, ["obj", "item"].take n ++ ["proc", "hit"]⟩ ∧
      tree.Holds ⟨.absolute, ["obj", "proc", "hit"]⟩ := by
  intro tree
  have unmarked : tree.Unmarked := by
    intro path has
    have key : path.toAbsolute = ⟨.absolute, ["obj"]⟩ := by
      by_contra other
      simp [tree, hasType, entry?, lookup_cons, beq_eq_false_iff_ne.mpr other] at has
    have same : path.segments = ["obj"] := congrArg segments key
    rw [same]
    rfl
  have found := search?_nearest unmarked ⟨.absolute, ["obj", "item"]⟩ ⟨.relative, ["proc", "hit"]⟩
    (by simp [isSegment_iff])
  obtain ⟨n, short, same, -, holds, -⟩ := found
  exact ⟨n, short, same, holds⟩

/-- Where the base ends in a marker, the search misses the proc that the whole path names. -/
theorem search?_misses_marked :
    let tree : TypeTree := {
      types := [(⟨.absolute, ["obj"]⟩, { parent? := none, procs := ["hit"] })], globals := #[], globalProcs := [] }
    let hit : TypePath := ⟨.absolute, ["obj", "proc"] ++ ["hit"]⟩
    tree.search? ⟨.absolute, ["obj", "proc"]⟩ ⟨.relative, ["hit"]⟩ = none ∧ tree.Holds hit ∧
      Context.constantPath { tree, owner := .root } hit .unknown = pure (.plain (.atom (.proc hit)) .unknown) :=
  ⟨rfl, ⟨Nat.lt_add_one _, rfl⟩, rfl⟩

end TypeTree

end DreamMaker
