import DreamMaker.Proofs.Parsing.Walks
import DreamMaker.Proofs.Syntax.Alike

namespace DreamMaker.Parsing

variable {bound K : Nat} {r r' : Rules}

instance (S : Setting) : Merging S.view where
  merge a b := by
    rcases S.sees with blind | same
    · have idle : (S.view a).merge (S.view a) = S.view a := by simp [Span.merge]
      rw [blind b a, idle]
      exact blind _ _
    · simp only [same]

section Kinds

variable [Placed α] (bound : Nat)

/-- Readers of an expression, or of what stands inside of one line as an expression does. -/
abbrev ExprSim (p q : Parser α) : Prop := ∀ {S : Setting}, InnerSim S bound 1 p q

/-- Readers of an expression that may find none. -/
abbrev FindSim (p q : Parser (Option α)) : Prop :=
  ∀ {S : Setting} {level : Nat} {now : Token → Prop},
    Sim S bound ⟨.inner level, now, 0⟩ p q (optional (.inner level 0) (.inner level 1))

/-- Readers of statements, which may read what ends a source. -/
abbrev BodySim (p q : Parser α) : Prop := ∀ {S : Setting}, OuterSim S bound 1 p q

/-- Readers of statements that may find none. -/
abbrev ItemSim (p q : Parser (Option α)) : Prop :=
  ∀ {S : Setting} {level : Nat} {now : Token → Prop},
    Sim S bound ⟨.inner level, now, 0⟩ p q (optional (.inner level 0) (.outer level 1))

/-- Readers of statements that start with a keyword. -/
abbrev KeywordSim (keyword : Keyword) (p q : Parser α) : Prop :=
  ∀ {S : Setting} {level : Nat} {now : Token → Prop},
    Sim S bound ⟨.inner level, fun x => now x ∧ x.kind = .keyword keyword, 0⟩ p q fun _ => .outer level 1

/-- Readers that go on inside of a line, whether they find something or not. -/
abbrev TailSim (p q : Parser α) : Prop := ∀ {S : Setting}, InnerSim S bound 0 p q

end Kinds

/-- Readers for all phrases stay together on sources of less weight than the bound, which is one higher for
expressions. -/
structure RulesSim (bound : Nat) (r r' : Rules) : Prop where
  assignment : ExprSim (bound + 1) (r .assignment) (r' .assignment)
  ternary : ExprSim (bound + 1) (r .ternary) (r' .ternary)
  power : ExprSim (bound + 1) (r .power) (r' .power)
  unary : ExprSim (bound + 1) (r .unary) (r' .unary)
  sign : ExprSim (bound + 1) (r .sign) (r' .sign)
  statement : ItemSim bound (r .statement) (r' .statement)
  localVars : ∀ stem?, BodySim bound (r (.localVars stem?)) (r' (.localVars stem?))
  declaration : ItemSim bound (r .declaration) (r' .declaration)

variable {now : Token → Prop} {kind : Token.Kind}

section Expressions

variable (rules : RulesSim K r r')

include rules

theorem expression?_sim : FindSim (K + 1) (expression? r) (expression? r') := by
  refine declares_sim.bind_plain fun _ => kind_sim.bind_plain fun _ => .ite (fun _ => ?_) fun _ => ?_
  · exact rules.assignment.bind fun _ _ _ => .pure (by simp [*])
  · exact .pure (by simp [*])

theorem expression_sim : ExprSim (K + 1) (expression r) (expression r') :=
  (expression?_sim rules).bind_option failHere_sim fun _ _ same => .pure ⟨same, by simp⟩

theorem expressionAfter?_sim (proper : isProper mark = true) (others : Alike S.view other? other?') :
    InnerSim S (K + 2) 0 (expressionAfter? r mark other?) (expressionAfter? r' mark other?') := by
  refine (accept_sim proper).branch ?_ ?_
  · exact (expression_sim rules).bind_less (by simp) fun _ _ _ => .pure (by simp [*])
  · exact .pure ⟨others, by simp⟩

theorem argumentTurn_sim (same : Alike S.view args args') :
    TurnSim S (K + 1) (.inner level) 0 (argumentTurn r args) (argumentTurn r' args') := by
  refine (expression?_sim rules).forget.bind fun _ _ _ => ?_
  refine (accept_sim rfl).bind_plain fun comma => behind_sim.bind fun _ _ _ => ?_
  cases comma <;> exact .pure (by simp [*])

theorem argumentList_sim : TailSim (K + 1) (argumentList r) (argumentList r') :=
  .rounds (fun _ _ => argumentTurn_sim rules) rfl

theorem arguments_sim : ExprSim (K + 2) (arguments r) (arguments r') := by
  refine (expect_sim rfl).next <| (withDeclares_sim (argumentList_sim rules)).bind_less (by simp) fun _ _ same => ?_
  exact (expect_sim rfl).next <| .pure ⟨same, by simp⟩

theorem arguments?_sim : FindSim (K + 2) (arguments? r) (arguments? r') :=
  check_sim.branch ((arguments_sim rules).bind fun _ _ _ => .pure (by simp [*])) (.pure (by simp [*]))

end Expressions

section Paths

/-- The token that the reader looks at is read. -/
theorem advance_token (plain : isPlain token.kind = true) :
    Sim S bound ⟨.inner level, fun x => now x ∧ x = token, 0⟩ advance advance fun _ => .inner level 1 :=
  advance_plain fun _ known => known.2 ▸ plain

theorem isPlain_of_name (name : isName kind = true) : isPlain kind = true := by
  cases kind <;> simp_all [isName, isPlain]

theorem isPlain_of_segment (segment : isSegment kind = true) : isPlain kind = true := by
  cases kind <;> simp_all [isSegment, isPlain]

theorem isPlain_of_overloadable (operator : isOverloadable kind = true) : isPlain kind = true := by
  cases kind <;> simp_all [isOverloadable, isPlain]

theorem identifier_sim : ExprSim bound (identifier message) (identifier message) := by
  refine .current fun _ _ _ => .ite (fun name => ?_) fun _ => failHere_sim
  exact (advance_token (isPlain_of_name name)).next (.pure (by simp [*]))

theorem segment?_sim : FindSim bound segment? segment? := by
  refine .current fun _ _ _ => .ite (fun segment => ?_) fun _ => .pure (by simp [*])
  exact (advance_token (isPlain_of_segment segment)).next (.pure (by simp [*]))

theorem warnFilled_sim (spans : S.view token.span = S.view span) :
    StaySim S bound ⟨stage, now, 0⟩ (warnFilled token) (warnFilled { token with span }) :=
  .ite (fun _ => .pure (by simp [*])) fun _ => warn_sim spans

theorem overload_sim : TailSim bound overload overload := by
  intro _ _ now
  refine .current fun token _ spans => .ite (fun slash => ?_) fun _ => .ite (fun string => ?_) fun _ => ?_
  · have plain : isPlain token.kind = true := by rw [slash]; rfl
    have looks : ∀ x, now x ∧ x = token → isPlain x.kind = true := fun _ known => known.2 ▸ plain
    refine (peek_sim looks).bind_plain fun _ => .ite (fun _ => ?_) fun _ => .pure (by simp [*])
    exact (advance_token plain).next (.pure (by simp [*]))
  · have plain : isPlain token.kind = true := by rw [string]; rfl
    exact (warnFilled_sim spans).next <| (advance_token plain).next (.pure (by simp [*]))
  · refine .ite (fun operator => ?_) fun _ => .pure (by simp [*])
    exact (advance_token (isPlain_of_overloadable operator)).next (.pure (by simp [*]))

theorem anchor_sim : TailSim bound anchor anchor := by
  refine (accept_sim rfl).branch ((accept_sim rfl).branch (.pure (by simp [*])) (.pure (by simp [*]))) ?_
  exact (accept_sim rfl).branch (.pure (by simp [*]))
    ((accept_sim rfl).branch (.pure (by simp [*])) (.pure (by simp [*])))

theorem segmentFrom_sim : TailSim bound (segmentFrom name) (segmentFrom name) :=
  .ite (fun _ => overload_sim) fun _ => .pure (by simp [*])

theorem segmentTurn_sim (same : Alike S.view segments segments') :
    TurnSim S bound (.inner level) 0 (segmentTurn segments) (segmentTurn segments') := by
  obtain rfl : segments = segments' := by simpa using same
  refine .current fun _ _ _ => .ite (fun _ => .pure (by simp [*])) fun _ => ?_
  exact (accept_sim rfl).branch (segment?_sim.bind_option_plain (.pure (by simp [*])) fun _ =>
    segmentFrom_sim.bind_plain fun _ => .pure (by simp [*])) (.pure (by simp [*]))

theorem segments?_sim {anchor : Anchor} : FindSim bound (segments? anchor) (segments? anchor) := by
  refine segment?_sim.bind_option_plain (.pure (by simp [*])) fun _ => ?_
  exact (Sim.rounds (fun _ _ => segmentTurn_sim) rfl).bind_plain fun _ => .pure (by simp [*])

theorem path?_sim : FindSim bound path? path? :=
  anchor_sim.bind_plain fun _ => segments?_sim.last (by simp)

theorem warnNoType_sim (same : Alike S.view span span') :
    StaySim S bound ⟨stage, now, 0⟩ (warnNoType allowPath isPath span) (warnNoType allowPath isPath span') :=
  .ite (fun _ => .pure (by simp [*])) fun _ => warn_sim same

theorem moreTypes?_sim : FindSim bound (moreTypes? allowPath types) (moreTypes? allowPath types) := by
  refine .current fun token _ spans => .ite (fun _ => ?_) fun _ => ?_
  · have plain : isPlain token.kind = true := by cases kind : token.kind <;> simp_all [isPlain]
    refine (advance_token plain).next ?_
    cases ValueTypes.ofWord? token.text with
    | none => exact failAt_sim spans
    | some _ => exact .pure (by simp [*])
  · refine path?_sim.bind_option ?_ fun _ _ _ => ?_
    · exact (warnNoType_sim spans).next (.pure (by simp [*]))
    · exact (warnNoType_sim spans).next (.pure (by simp [*]))

theorem typesTurn_sim {inParens : Bool} (same : Alike S.view types types') :
    TurnSim S bound (.inner level) 0 (typesTurn allowPath inParens types) (typesTurn allowPath inParens types') := by
  obtain rfl : types = types' := by simpa using same
  refine (Sim.test (fun kind => decide (kind = .symbol .rightParen)) fun _ => rfl).bind_plain fun _ => ?_
  refine .ite (fun _ => .pure (by simp [*])) fun _ =>
    moreTypes?_sim.bind_option_plain (.pure (by simp [*])) fun _ => ?_
  exact (accept_sim rfl).branch (.pure (by simp [*])) (.pure (by simp [*]))

theorem expectIf_sim (proper : isProper wanted = true) :
    TailSim bound (expectIf needed wanted message) (expectIf needed wanted message) :=
  .ite (fun _ => (expect_sim proper).last (by simp)) fun _ => .pure (by simp [*])

theorem types?_sim : FindSim bound (types? allowPath) (types? allowPath) := by
  refine (accept_sim rfl).branch ((accept_sim rfl).bind_plain fun inParens => ?_) (.pure (by simp [*]))
  cases inParens
  · refine (Sim.rounds (fun _ _ => typesTurn_sim) rfl).bind_plain fun types => ?_
    exact (expectIf_sim rfl).next (.pure (by simp [*]))
  · refine (Sim.rounds (fun _ _ => typesTurn_sim) rfl).bind_plain fun types => ?_
    exact (expectIf_sim rfl).next (.pure (by simp [*]))

end Paths

section Arrays

theorem atDimensions_sim : TailSim bound atDimensions atDimensions :=
  (Sim.test (fun kind => decide (kind = .symbol .leftBracket) || decide (kind = .symbol .brackets)) fun _ =>
    rfl).last (by simp)

variable (rules : RulesSim K r r')

include rules

theorem dimensionTurn_sim (same : Alike S.view sizes sizes') :
    TurnSim S (K + 2) (.inner level) 0 (dimensionTurn r sizes) (dimensionTurn r' sizes') := by
  refine (accept_sim rfl).branch (.pure (by simp [*])) ((accept_sim rfl).branch ?_ (.pure (by simp [*])))
  refine (expression?_sim rules).forget.bind_less (by simp) fun _ _ _ => ?_
  exact (expect_sim rfl).next (.pure (by simp [*]))

theorem dimensions_sim : TailSim (K + 2) (dimensions r) (dimensions r') :=
  .rounds (fun _ _ => dimensionTurn_sim rules) rfl

theorem array_sim : TailSim (K + 2) (array r path) (array r' path) := by
  intro _ _ _
  refine atDimensions_sim.branch ?_ (.pure (by simp [*]))
  refine here_sim.bind fun _ _ starts => (dimensions_sim rules).bind fun _ _ _ => ?_
  exact since_pure starts (by intros; simp [*])

end Arrays

end DreamMaker.Parsing
