import DreamMaker.Proofs.Parsing.Turns

/-!
What a phrase is read in: the type whose body it stands in, and whether an expression may declare a var. A reader that
changes either changes it back, also where it gives up.
-/

namespace DreamMaker

namespace Parsing

/-- A reader that goes on in another way if it does not leave what it is read in as it finds it. -/
def watch (alarm : (β : Type) → Parser β) (p : Parser α) : Parser α := fun s =>
  if (p s).2.scope = s.scope then p s else alarm α (p s).2

/-- Readers for phrases that are nested so deep, each of which is watched. -/
def watchedUpTo (alarm : (β : Type) → Parser β) : Nat → Rules
  | 0, phrase => watch alarm (rulesUpTo 0 phrase)
  | depth + 1, phrase => watch alarm (rule (watchedUpTo alarm depth) phrase)

variable {alarm : (β : Type) → Parser β}

theorem Setting.Joins.scope [Placed α] {S : Setting} {post : α → Point}
    {first second : Except ParseError α × State}
    (joins : S.Joins post first second) : first.2.scope = second.2.scope := by
  rcases first with ⟨error | a, s⟩ <;> rcases second with ⟨error' | b, t⟩
  · exact joins.2.toAgree.scope
  · exact joins.elim
  · exact joins.elim
  · exact joins.2.agree.scope

theorem Sim.watch [Placed α] {S : Setting} {p q : Parser α} {post : α → Point} (sim : Sim S bound pre p q post) :
    Sim S bound pre p (watch alarm q) post where
  reads := sim.reads
  drifts := sim.drifts
  valid := sim.valid
  meets s t ends light known together := by
    refine (sim.meets s t ends light known together).imp_right fun joins => ?_
    have kept := (sim.reads s ends known).1.scope
    have behind : (p s).2.scope = (q t).2.scope := joins.scope
    rwa [Parsing.watch, if_pos (behind.symm.trans (kept.trans together.agree.scope))]

/-- Watching the second reader of every phrase changes nothing. -/
theorem RulesSim.watch (rules : RulesSim bound r r') : RulesSim bound r fun phrase => watch alarm (r' phrase) where
  assignment := rules.assignment.watch
  ternary := rules.ternary.watch
  power := rules.power.watch
  unary := rules.unary.watch
  sign := rules.sign.watch
  statement := rules.statement.watch
  localVars stem? := (rules.localVars stem?).watch
  declaration := rules.declaration.watch

theorem watchedUpTo_sim : RulesSim depth (rulesUpTo depth) (watchedUpTo alarm depth) := by
  induction depth with
  | zero => exact (rulesUpTo_sim 0 0).watch
  | succ depth ih => exact (rule_sim ih).watch

/-- The places where a file has been read up to some declaration. -/
inductive Passing (rules : Rules) (first : State) : State → Prop
  | start : Passing rules first first
  | turn {s s' done more} : Passing rules first s → fileTurn rules done s = (.ok (.again more), s') →
      Passing rules first s'

theorem Passing.later (passing : Passing (rulesUpTo depth) first s) (ends : EndsOnce first.tokens) :
    Later first s := by
  induction passing with
  | start => exact .refl ends
  | @turn s _ done _ _ run ih =>
    have turn := (fileTurn_reads depth done s ih.ends trivial).1
    rw [run] at turn
    exact ih.trans turn

end Parsing

open Parsing

/-- Reading a phrase, whether it succeeds or not, leaves the type that is read and whether expressions may declare
as they were. So no phrase of a file sets off an alarm, and every declaration is read in the root type, where
expressions do not declare. -/
theorem SourceFile.parse_restores (source : List Lexeme) (log : Log) (alarm : (β : Type) → Parser β) :
    let tokens := Token.ofLexemes source
    (∀ depth s, EndsOnce s.tokens → (rulesUpTo depth .declaration s).2.scope = s.scope ∧
      (rulesUpTo depth .statement s).2.scope = s.scope ∧ (expression? (rulesUpTo depth) s).2.scope = s.scope) ∧
    (∃ s,
      sourceFile (watchedUpTo alarm (depthOf tokens)) (.ofTokens tokens log) = (.ok (parse source log).result, s) ∧
      s.reports = (parse source log).reports ∧ s.skips = (parse source log).skips) ∧
    ∀ s, Passing (rulesUpTo (depthOf tokens)) (.ofTokens tokens log) s → s.settle.owner = .root ∧
      s.settle.declares = false := by
  intro tokens
  have ends := Token.endsOnce_ofLexemes source
  refine ⟨fun depth s once => ?_, ?_, fun s passing => ?_⟩
  · have rules := rulesUpTo_sim depth 0
    have declaration : Sim .identical depth (.inner 0 0) (rulesUpTo depth .declaration) _ _ := rules.declaration
    have statement : Sim .identical depth (.inner 0 0) (rulesUpTo depth .statement) _ _ := rules.statement
    have expression : Sim .identical (depth + 1) (.inner 0 0) (expression? (rulesUpTo depth)) _ _ :=
      expression?_sim rules
    exact ⟨(declaration.reads s once trivial).1.scope, (statement.reads s once trivial).1.scope,
      (expression.reads s once trivial).1.scope⟩
  · obtain ⟨file, ok, -⟩ := sourceFile_total (depthOf tokens) _ (ends.ofTokens log)
    rcases run : readTo (depthOf tokens) tokens log with ⟨result, s⟩
    obtain rfl : result = .ok file := (congrArg Prod.fst run).symm.trans ok
    obtain ⟨same, exact_⟩ := sourceFile_of_light (S := .identical) rfl rfl rfl (watchedUpTo_sim) ends
      (sum_weight_lt_depthOf tokens) ⟨id, fun _ => rfl⟩ fun _ => rfl
    rw [run] at same exact_
    rw [parse_eq run]
    exact ⟨(sourceFile (watchedUpTo alarm (depthOf tokens)) (.ofTokens tokens log)).2,
      Prod.ext same rfl, exact_ trivial⟩
  · have start : (State.ofTokens tokens log).scope = (State.before tokens log).scope := scope_ofTokens ends
    have later := passing.later (ends.ofTokens log)
    have scope := (settle_later later.ends).scope.trans (later.scope.trans start)
    exact ⟨congrArg Prod.fst scope, congrArg Prod.snd scope⟩

/-- The head of a loop ends within the arguments of a call, where expressions do not declare. -/
theorem SourceFile.parse_restores_head :
    let s := State.ofTokens (Token.ofLexemes (Lexeme.scan (.file 0) "for (var/i in g(var/j"))
    (rulesUpTo 12 .statement s).1.isOk = false ∧ (rulesUpTo 12 .statement s).2.scope = (.root, false) := by
  intro s
  have ends : EndsOnce s.tokens := (Token.endsOnce_ofLexemes _).ofTokens {}
  refine ⟨by decide +kernel, ?_⟩
  rw [((parse_restores [] {} fun _ => failHere .expectedToken "").1 12 s ends).2.1]
  exact scope_ofTokens (Token.endsOnce_ofLexemes _)

end DreamMaker
