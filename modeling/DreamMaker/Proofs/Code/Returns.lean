import Mathlib.Data.List.Chain
import DreamMaker.Proofs.Code.Trace
import DreamMaker.Proofs.Emission.Proc

namespace DreamMaker

/-- Control goes through all code as its termination says, if nothing is emitted behind what never goes on. -/
theorem Lowers.traced (strict : ¬ mode.loose) (lowers : Lowers mode piece m code t m') :
    ∃ expected, Traced piece m code t m' expected := by
  induction lowers with
  | nothing => exact ⟨fun _ => True, fun _ _ _ _ known _ _ => ⟨known, .nil fun _ => rfl⟩⟩
  | line line => exact ⟨fun _ => True, fun _ _ _ _ known _ _ => ⟨known, line.carries.weaken id fun _ => rfl⟩⟩
  | halted values =>
    exact ⟨fun _ => True, fun _ _ _ _ known _ _ => ⟨known, pushes_carries.weaken id fun _ => rfl⟩⟩
  | leave => exact ⟨fun _ => True, fun _ _ _ _ known _ _ => ⟨known, .plain rfl (.leave (.nil False.elim))⟩⟩
  | @breakLoop m loop outer a inside =>
    refine ⟨fun _ => True, fun live passes _ _ known escapes _ => ⟨known.escape 1, .jump (fun _ => .inl ?_)
      (.nil False.elim)⟩⟩
    exact escapes.loop { loop with escaped := true } (by simp [Marks.escape, inside]) rfl
  | @breakLabel m name label stop a _ found placed member ends =>
    refine ⟨fun _ => True, fun live passes _ _ known escapes _ => ?_⟩
    have broken : (m.change name fun label => { label with broken := true }).Known live passes :=
      known.change fun _ => ⟨rfl, rfl, rfl⟩
    refine ⟨broken.escape _, .jump (fun _ => .inl ?_) (.nil False.elim)⟩
    refine escapes.block name { label with broken := true } stop ?_ placed member rfl ends
    show (m.change name fun label => { label with broken := true }).label? name = _
    rw [Marks.label?_change, if_pos rfl, found]
    · rfl
    · exact fun _ => rfl
  | @continueLoop m loop outer a inside =>
    refine ⟨fun _ => True, fun live passes _ _ known _ _ =>
      ⟨known, .jump (fun _ => known.next loop ?_) (.nil False.elim)⟩⟩
    rw [inside]
    exact .head _
  | @continueLabel m name label next depth a _ found _ _ again =>
    exact ⟨fun _ => True, fun live passes _ _ known _ _ =>
      ⟨known.escape _, .jump (fun _ => known.again name label next depth found again) (.nil False.elim)⟩⟩
  | @goto m name a =>
    refine ⟨fun _ => True, fun live passes agrees _ known _ _ => ?_⟩
    have alive := known.start.startOf fun label low high => of_eq_true (agrees label low high)
    exact ⟨(known.mention a alive).escape _, .jump (fun _ => .inl alive) (.nil False.elim)⟩
  | @label m name a =>
    refine ⟨fun _ => True, fun live passes agrees _ known _ _ => ?_⟩
    have alive := known.start.startOf fun label low high => of_eq_true (agrees label low high)
    exact ⟨known.place a alive, .put rfl (.nil fun _ => rfl)⟩
  | labelBlock _ lowers ih =>
    obtain ⟨expected, traced⟩ := ih
    exact ⟨_, traced.labelBlock lowers.grows⟩
  | @append m _ _ _ _ t₁ _ lowers₁ lowers₂ goes ih₁ ih₂ =>
    obtain ⟨⟨one, traced₁⟩, ⟨two, traced₂⟩⟩ := ih₁, ih₂
    have reached : t₁.isUnconditional = false := by
      cases never : t₁.isUnconditional with
      | false => rfl
      | true => exact absurd (goes never) strict
    exact ⟨_, traced₁.append lowers₁.grows lowers₂.grows reached traced₂⟩
  | scope _ ih =>
    obtain ⟨expected, traced⟩ := ih
    refine ⟨expected, fun live passes agrees tested known escapes _ => ?_⟩
    obtain ⟨known', carries⟩ := traced live passes agrees
      (fun label found => tested label ((found.before _).after _)) known escapes trivial
    exact ⟨known', carries.scope⟩
  | skip form lowers ih =>
    obtain ⟨expected, traced⟩ := ih
    exact ⟨_, traced.skip form lowers.grows⟩
  | fork form lowers₁ lowers₂ ih₁ ih₂ =>
    obtain ⟨⟨one, traced₁⟩, ⟨two, traced₂⟩⟩ := ih₁, ih₂
    exact ⟨_, traced₁.fork form lowers₁.grows lowers₂.grows traced₂⟩
  | loop form lowers ih =>
    obtain ⟨expected, traced⟩ := ih
    exact ⟨_, traced.loop form rfl lowers.grows⟩
  | noRounds => exact ⟨fun _ => True, fun _ _ _ _ known _ _ => ⟨known, .nil fun _ => rfl⟩⟩
  | enumerator values _ _ ih =>
    obtain ⟨expected, traced⟩ := ih
    refine ⟨expected, fun live passes agrees tested known escapes _ => ?_⟩
    obtain ⟨known', carries⟩ := traced live passes agrees
      (fun label found => tested label ((((found.before _).after _).after _).behind)) known escapes trivial
    exact ⟨known', pushes_carries.append (.plain rfl (.plain rfl (carries.append
      (.plain rfl (.plain rfl (.nil id))))))⟩
  | switch form lowers₁ lowers₂ ih₁ ih₂ =>
    obtain ⟨⟨one, traced₁⟩, ⟨two, traced₂⟩⟩ := ih₁, ih₂
    exact ⟨_,
      traced₁.switch form lowers₁.grows lowers₂.grows (lowers₂.cases_isUnconditional _ _ _ rfl) traced₂⟩
  | noCases => exact ⟨fun _ => True, fun _ _ _ _ known _ _ => ⟨known, .nil id⟩⟩
  | case lowers₁ lowers₂ ih₁ ih₂ =>
    obtain ⟨⟨one, traced₁⟩, ⟨two, traced₂⟩⟩ := ih₁, ih₂
    refine ⟨_, traced₁.case lowers₁.grows lowers₂.grows (fun goes => ?_) traced₂⟩
    exact lowers₂.cases_isUnconditional _ _ _ rfl (by simp [goes])
  | spawn lowers ih =>
    obtain ⟨expected, traced⟩ := ih
    exact ⟨_, traced.spawn lowers.grows⟩
  | forget _ ih =>
    obtain ⟨expected, traced⟩ := ih
    refine ⟨expected, fun live passes agrees tested known escapes _ => ?_⟩
    obtain ⟨known', carries⟩ := traced live passes agrees tested known escapes trivial
    exact ⟨known', carries.weaken id fun _ => rfl⟩

namespace ProcDefinition

/-- A proc that is said to return does not come to the end of its code, but where `continue` jumps to the condition
behind the body of a loop. -/
theorem compile_returns (definition : ProcDefinition) (tree : TypeTree)
    (groups : ∀ inner, Action.group inner ∈ definition.actions →
      ∀ part ∈ Statement.allActions inner, part.isSimple = true)
    (returns : (definition.compile tree).1.termination.contains .procReturn = true) :
    let ops := (definition.compile tree).1.ops.toList
    ¬ Relation.ReflTransGen (FlowAvoiding (BottomTested ops) ops) 0 ops.length := by
  intro ops path
  let mode : Mode := { failing := True, jumping := True, loose := False }
  have admitted : ∀ action ∈ definition.actions, mode.Admits action := by
    refine fun action member => ⟨fun _ => trivial, fun inner same => .inr (groups inner ?_)⟩
    rw [← same]
    exact member
  obtain ⟨m, lowers, _⟩ := compile_lowers admitted fun _ _ => .inr trivial
  obtain ⟨expected, traced⟩ := lowers.traced not_false
  have known : Marks.initial.Known expected (BottomTested ops) := ⟨nofun, nofun, nofun⟩
  have escapes : m.Escapes expected := .outermost lowers.grows rfl rfl
  obtain ⟨_, carries⟩ := traced expected (BottomTested ops) (fun _ _ _ => rfl) (fun _ => id) known escapes trivial
  have goes : (definition.compile tree).1.termination.isUnconditional = false := carries.reach path
  rw [Termination.isUnconditional_of_contains_procReturn returns] at goes
  cases goes

/-- `var/x, y` -/
def twoVars : List Statement :=
  [.mk (.declare { (default : LocalVar) with name := "x" }) .unknown,
    .mk (.declare { (default : LocalVar) with name := "y" }) .unknown]

/-- `do { if (.) continue; return . } while (.)`, behind the declarations of two vars. -/
def retry : ProcDefinition :=
  .ofActions "retry" [.group twoVars,
    .doWhile (.ofActions [.if_ (.mk .result .unknown) (.ofActions [.continue_ none]) none,
      .return_ (some (.mk .result .unknown))]) (.mk .result .unknown)]

theorem retry_returns :
    let ops := (retry.compile default).1.ops.toList
    .group twoVars ∈ retry.actions ∧ (retry.compile default).1.termination.contains .procReturn = true ∧
      ¬ Relation.ReflTransGen (FlowAvoiding (BottomTested ops) ops) 0 ops.length := by
  have returns : (retry.compile default).1.termination.contains .procReturn = true := by decide +kernel
  have listed : .group twoVars ∈ retry.actions := .head _
  refine ⟨listed, returns, compile_returns retry default (fun inner member => ?_) returns⟩
  have only : inner = twoVars := by
    simpa [retry, actions, ofActions, Block.ofActions, Block.actions, Statement.allActions, Statement.actions,
      Action.inner, twoVars] using member
  rw [only]
  simp [twoVars, Statement.allActions, Statement.actions, Action.inner, Action.isSimple]

/-- A proc that is said to return, without a report, comes to the end of its code by `continue`. -/
theorem retry_reaches_end :
    let ops := (retry.compile default).1.ops.toList
    (retry.compile default).2.2 = #[] ∧ (retry.compile default).1.termination.contains .procReturn = true ∧
      Relation.ReflTransGen (Flow ops) 0 ops.length := by
  refine ⟨Array.eq_empty_of_size_eq_zero (by decide +kernel), by decide +kernel, ?_⟩
  refine List.relationReflTransGen_of_exists_isChain_cons
    [1, 2, 3, 4, 5, 6, 7, 8, 9, 10, 11, 17, 18, 19, 21, 22] ?_ ?_
  · decide +kernel
  · decide +kernel

end ProcDefinition

end DreamMaker
