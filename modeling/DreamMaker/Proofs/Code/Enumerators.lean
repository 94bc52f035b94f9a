import Mathlib.Data.List.Chain
import DreamMaker.Proofs.Code.Nesting
import DreamMaker.Proofs.Emission.Proc

namespace DreamMaker

variable {op : Op}

/-- Where the enumerators that are live behind a place have been created, from those before it. -/
def enumeratorsAt (code : Listing) (i : Nat) (live : List Nat) : List Nat :=
  match code[i]? with
  | some (op, _) => op.enumerators i live
  | none => live

/-- Where the enumerators have been created that are not destroyed before a place in the written code, innermost
first. -/
def enclosing (code : Listing) : Nat → List Nat
  | 0 => []
  | i + 1 => enumeratorsAt code i (enclosing code i)

/-- A jump leads into the loop of an enumerator, or out of it. -/
def Crosses (code : Listing) (i j : Nat) : Prop :=
  (∃ label span, code[i]? = some (.jump label, span)) ∧ enclosing code i ≠ enclosing code j

/-- The enumerators that are live when control comes to a place by allowed steps, innermost first, by where they
are created. -/
inductive Enumerating (allowed : Nat → Nat → Prop) (code : Listing) : Nat → List Nat → Prop
  | start : Enumerating allowed code 0 []
  | next {i j live} : Enumerating allowed code i live → Flow code i j → allowed i j →
      Enumerating allowed code j (enumeratorsAt code i live)

/-- An operation that uses an enumerator finds the one in whose loop it is written, created four operations before
it moves on. -/
def FindsOwn (code : Listing) (i : Nat) (live : List Nat) : Prop :=
  ∀ op span, code[i]? = some (op, span) → op.usesEnumerator = true →
    ∃ created, live.head? = some created ∧ (enclosing code i).head? = some created ∧
      (∃ kind place, code[created]? = some (.createEnumerator kind, place)) ∧
      ∀ target exit, op = .enumerate target exit → created + 4 = i

theorem enumeratorsAt_eq (found : code[i]? = some (op, span)) :
    enumeratorsAt code i live = op.enumerators i live := by
  rw [enumeratorsAt, found]

/-- The enumerators that are live at the end of a path. -/
def liveAlong (code : Listing) : Nat → List Nat → List Nat → List Nat
  | _, [], live => live
  | i, j :: path, live => liveAlong code j path (enumeratorsAt code i live)

theorem Enumerating.along
    (run : Enumerating (fun _ _ => True) code i live) (chain : List.IsChain (Flow code) (i :: path)) :
    Enumerating (fun _ _ => True) code (path.getLastD i) (liveAlong code i path live) := by
  induction path generalizing i live with
  | nil => exact run
  | cons _ path ih =>
    obtain ⟨flow, rest⟩ := List.isChain_cons_cons.1 chain
    rw [List.getLastD_cons]
    exact ih (.next run flow trivial) rest

theorem mem_enumerators (member : created ∈ op.enumerators i live) :
    created ∈ live ∨ created = i ∧ ∃ kind, op = .createEnumerator kind := by
  cases op with
  | createEnumerator kind =>
    rcases List.mem_cons.1 member with rfl | member
    · exact .inr ⟨rfl, kind, rfl⟩
    · exact .inl member
  | destroyEnumerator => exact .inl (List.mem_of_mem_tail member)
  | _ => exact .inl member

theorem created_of_mem_enclosing (member : created ∈ enclosing code i) :
    ∃ kind span, code[created]? = some (.createEnumerator kind, span) := by
  induction i with
  | zero => cases member
  | succ i ih =>
    rw [enclosing] at member
    cases found : code[i]? with
    | none =>
      rw [enumeratorsAt, found] at member
      exact ih member
    | some entry =>
      rw [enumeratorsAt_eq found] at member
      rcases mem_enumerators member with inside | ⟨rfl, kind, same⟩
      · exact ih inside
      · exact ⟨kind, entry.2, by rw [found, ← same]⟩

section Paths

theorem Nested.suits (nested : Nested free given place live code behind) :
    ∃ state : Nat → List Nat, state 0 = live ∧ ∀ i op span, code[i]? = some (op, span) →
      op.Suits free given (place + i) (state i) ∧ state (i + 1) = op.enumerators (place + i) (state i) := by
  induction code generalizing place live with
  | nil => exact ⟨fun _ => live, rfl, nofun⟩
  | cons _ _ ih =>
    obtain ⟨state, starts, steps⟩ := ih nested.2
    refine ⟨fun i => i.casesOn live state, rfl, fun i op span found => ?_⟩
    cases i with
    | zero =>
      cases found
      exact ⟨nested.1, starts⟩
    | succ i =>
      rw [← Nat.succ_add_eq_add_succ]
      exact steps i op span found

/-- Every operation suits the enumerators in whose loops it is written. -/
theorem Nested.suits_enclosing (nested : Nested free given 0 [] code behind) (i : Nat) (op : Op)
    (span : Span) (found : code[i]? = some (op, span)) : op.Suits free given i (enclosing code i) := by
  obtain ⟨state, starts, steps⟩ := nested.suits
  have same (i : Nat) (within : i ≤ code.length) : state i = enclosing code i := by
    induction i with
    | zero => exact starts
    | succ i ih =>
      have found : code[i]? = some (code[i].1, code[i].2) := List.getElem?_eq_getElem within
      rw [(steps i _ _ found).2, enclosing, enumeratorsAt_eq found, ih (Nat.le_of_succ_le within), Nat.zero_add]
  have suits := (steps i op span found).1
  have within : i < code.length := (List.getElem?_eq_some_iff.1 found).1
  rw [Nat.zero_add, same i (Nat.le_of_lt within)] at suits
  exact suits

variable (suits : ∀ (i : Nat) (op : Op) (span : Span), code[i]? = some (op, span) →
  op.Suits free given i (enclosing code i))
include suits

/-- Control stays in the loops of the same enumerators, but where it jumps. -/
theorem enclosing_of_flow (flow : Flow code i j) (kept : ¬ (free ∧ Crosses code i j)) :
    enclosing code j = enumeratorsAt code i (enclosing code i) := by
  cases flow with
  | next => rfl
  | jump found goes landed places =>
    rw [enumeratorsAt_eq found, Op.enumerators_of_target goes]
    rcases (suits i _ _ found).lands _ goes with given? | ⟨allowed, rfl⟩
    · exact ((suits j _ _ landed).placed _ _ places given?).symm
    · by_contra differs
      exact kept ⟨allowed, ⟨_, _, found⟩, fun same => differs same.symm⟩

theorem Enumerating.eq_enclosing (kept : ∀ i j, allowed i j → ¬ (free ∧ Crosses code i j))
    (run : Enumerating allowed code i live) : live = enclosing code i := by
  induction run with
  | start => rfl
  | next _ flow allowed ih => rw [ih, enclosing_of_flow suits flow (kept _ _ allowed)]

theorem findsOwn_enclosing : FindsOwn code i (enclosing code i) := by
  intro op span found uses
  obtain ⟨_, _, live, moves⟩ := suits i op span found
  obtain ⟨created, _, same⟩ := List.exists_cons_of_ne_nil (live uses)
  have first : (enclosing code i).head? = some created := by rw [same, List.head?_cons]
  have member : created ∈ enclosing code i := by
    rw [same]
    exact .head _
  refine ⟨created, first, first, created_of_mem_enclosing member, fun target exit move => ?_⟩
  obtain ⟨_, head, four⟩ := moves target exit move
  cases first.symm.trans head
  exact four

end Paths

namespace ProcDefinition

theorem exists_suits {definition : ProcDefinition} {jumping : Prop}
    (admitted : ∀ action ∈ definition.actions, action.jumpsByName = true → jumping) :
    ∃ given : Label → Option (List Nat), ∀ (i : Nat) (op : Op) (span : Span),
      (definition.compile tree).1.ops.toList[i]? = some (op, span) →
      op.Suits jumping given i (enclosing (definition.compile tree).1.ops.toList i) := by
  let mode : Mode := { failing := True, jumping, loose := True }
  have admits : ∀ action ∈ definition.actions, mode.Admits action :=
    fun action member => ⟨admitted action member, fun _ _ => .inl trivial⟩
  obtain ⟨_, lowers, _⟩ := compile_lowers admits fun _ _ => .inr trivial
  obtain ⟨expected, nests⟩ := lowers.nests 0 []
  exact ⟨expected, (nests expected (fun _ _ _ => rfl) nofun nofun).2.suits_enclosing⟩

/-- Every enumerator is used by its own loop on all paths that do not jump by name into the loop of one or out of
it. -/
theorem compile_findsOwn (definition : ProcDefinition) (tree : TypeTree) :
    let ops := (definition.compile tree).1.ops.toList
    (∀ i live, Enumerating (fun i j => ¬ Crosses ops i j) ops i live → FindsOwn ops i live) ∧
      ((∀ action ∈ definition.actions, action.jumpsByName = false) →
        ∀ i live, Enumerating (fun _ _ => True) ops i live → FindsOwn ops i live) := by
  refine ⟨fun i live run => ?_, fun unnamed i live run => ?_⟩
  · have admitted : ∀ action ∈ definition.actions, action.jumpsByName = true → True := fun _ _ _ => trivial
    obtain ⟨given, suits⟩ := exists_suits admitted
    rw [run.eq_enclosing suits fun i j kept crosses => kept crosses.2]
    exact findsOwn_enclosing suits
  · have admitted : ∀ action ∈ definition.actions, action.jumpsByName = true → False := by
      intro action member named
      rw [unnamed action member] at named
      cases named
    obtain ⟨given, suits⟩ := exists_suits admitted
    rw [run.eq_enclosing suits fun i j _ crosses => crosses.1]
    exact findsOwn_enclosing suits

/-- `for (. in .) for (. in .) { if (.) break; continue }` -/
def nestedLoops : ProcDefinition :=
  let dot := .mk .result .unknown
  .ofActions "nested" [.forIn dot none dot (.ofActions [.forIn dot none dot
    (.ofActions [.if_ dot (.ofActions [.break_ none]) none, .continue_ none])])]

theorem nestedLoops_findsOwn :
    let ops := (nestedLoops.compile default).1.ops.toList
    (∀ action ∈ nestedLoops.actions, action.jumpsByName = false) ∧
      ∀ i live, Enumerating (fun _ _ => True) ops i live → FindsOwn ops i live := by
  have unnamed : ∀ action ∈ nestedLoops.actions, action.jumpsByName = false := by
    simp [nestedLoops, actions, ofActions, Block.ofActions, Block.actions, Statement.allActions, Statement.actions,
      Action.inner, Action.jumpsByName]
  exact ⟨unnamed, (compile_findsOwn nestedLoops default).2 unnamed⟩

/-- `outer: for (. in .) for (. in .) continue outer` -/
def continueOuter : ProcDefinition :=
  let dot := .mk .result .unknown
  .ofActions "outer" [.label "outer" (some (.ofActions [.forIn dot none dot (.ofActions [.forIn dot none dot
    (.ofActions [.continue_ (some "outer")])])]))]

/-- A proc goes on with an outer loop by name, which then finds the enumerator of the inner one. -/
theorem continueOuter_finds_inner :
    let ops := (continueOuter.compile default).1.ops.toList
    (continueOuter.compile default).2.2 = #[] ∧
      ∃ i live, Enumerating (fun _ _ => True) ops i live ∧ ¬ FindsOwn ops i live := by
  intro ops
  have path : List.IsChain (Flow ops) [0, 1, 2, 3, 4, 5, 6, 7, 8, 9, 10, 11, 12, 13, 14, 15, 16, 6, 7] := by
    decide +kernel
  refine ⟨Array.eq_empty_of_size_eq_zero (by decide +kernel), _, _, Enumerating.start.along path, fun finds => ?_⟩
  have inner : liveAlong ops 0 [1, 2, 3, 4, 5, 6, 7, 8, 9, 10, 11, 12, 13, 14, 15, 16, 6, 7] [] = [10, 3] := by
    decide +kernel
  have around : enclosing ops 7 = [3] := by decide +kernel
  have uses : ops[7]?.any (·.1.usesEnumerator) = true := by decide +kernel
  obtain ⟨⟨op, span⟩, found, uses⟩ := (Option.any_eq_true _ _).1 uses
  obtain ⟨created, top, own, _⟩ := finds op span found uses
  rw [inner] at top
  have own : (enclosing ops 7).head? = some created := own
  rw [around, ← top] at own
  cases own

end ProcDefinition

end DreamMaker
