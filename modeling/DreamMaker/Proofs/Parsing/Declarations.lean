import DreamMaker.Proofs.Parsing.Statements

namespace DreamMaker.Parsing

variable {S : Setting} {start' start : Span} {K : Nat} {r r' : Rules}

section Ends

theorem endDeclaration_eq (ended : (closesBlock s.previous.kind || s.current.kind.endsStatement) = true) :
    endDeclaration s = (.ok (), s) := by
  show (if closesBlock s.previous.kind || s.current.kind.endsStatement then (pure () : Parser Unit)
    else failHere .unexpectedToken "Expected end of object statement") s = _
  rw [if_pos ended]
  rfl

/-- Behind what the first run reads, a declaration has ended for both runs. -/
theorem endDeclaration_sim : Sim S bound (.outer level 0) endDeclaration endDeclaration fun _ => .outer level 0 := by
  have inside : Sim S bound (.inner level 0) endDeclaration endDeclaration fun _ => .outer level 0 := by
    refine closedBlock_sim.bind_plain fun closed =>
      (Sim.test Token.Kind.endsStatement fun _ => rfl).bind_plain fun ended => ?_
    exact .ite (fun _ => .pure (by simp [*])) fun _ => failHere_sim
  refine ⟨inside.reads, fun s t ends light start together => ?_, fun _ _ _ adrift => adrift.elim, inside.valid⟩
  rcases together with inner | outer
  · exact inside.meets s t ends light start inner
  have ended : (closesBlock t.previous.kind || t.current.kind.endsStatement) = true := by
    rcases outer.ended with closed | delimiter
    · simp [closed]
    · simp [endsStatement_of_delimiter delimiter]
  rw [endDeclaration_eq (by simp [outer.spent.endsStatement]), endDeclaration_eq ended]
  exact .inr ⟨rfl, .inr outer⟩

end Ends

section Vars

theorem varDefinition_sim (values : Alike S.view value? value?') (spans : Alike S.view span span') :
    StaySim S bound ⟨stage, now, 0⟩ (varDefinition path value? types span)
      (varDefinition path value?' types span') := by
  unfold varDefinition
  dsimp only
  cases (path.segments.drop ((path.find? "var").getD 0 + 1)).getLast? with
  | none => exact failAt_sim spans
  | some _ => exact .pure (by simp [*])

theorem defaultMark_sim : TailSim bound defaultMark defaultMark :=
  (accept_sim rfl).branch (.pure (by simp [*])) (((accept_sim rfl).ignore rfl).last (by simp))

variable (rules : RulesSim K r r')

include rules

theorem varDefinitionAt_sim : TailSim (K + 2) (varDefinitionAt r path) (varDefinitionAt r' path) := by
  refine behind_sim.bind fun _ _ starts => (array_sim rules).bind fun _ _ arrays => ?_
  obtain ⟨path, _, _, rfl, rfl, lists⟩ := exists_of_alike_pair arrays
  refine (expressionAfter?_sim rules rfl lists).bind fun _ _ values => types?_sim.forget.bind_plain fun _ => ?_
  exact (since_sim starts).bind fun _ _ spans => (varDefinition_sim values spans).last (by simp)

theorem varDefinitionTurn_sim (same : Alike S.view so so') :
    TurnSim S (K + 2) (.inner level) 0 (varDefinitionTurn r so) (varDefinitionTurn r' so') := by
  obtain ⟨_, _, _, rfl, rfl, _⟩ := exists_of_alike_pair same
  refine (varDefinitionAt_sim rules).bind fun _ _ _ => (accept_sim rfl).branch ?_ (.pure (by simp [*]))
  refine path?_sim.bind_option_plain failHere_sim fun _ => ?_
  exact .pure (by simp [*])

theorem varDefinitions_sim (starts : Alike S.view start start') :
    InnerSim S (K + 2) 0 (varDefinitions r start) (varDefinitions r' start') := by
  refine owner_sim.bind_plain fun _ => (Sim.rounds (fun _ _ => varDefinitionTurn_sim rules) rfl).bind fun _ _ _ => ?_
  exact since_pure starts (by intros; simp [*])

theorem listSegments_sim : TailSim (K + 2) (listSegments r segments) (listSegments r' segments) := by
  intro _ _ _
  exact atDimensions_sim.branch ((dimensions_sim rules).next (.pure (by simp [*]))) (.pure (by simp [*]))

theorem expressionIf?_sim : TailSim (K + 1) (expressionIf? r wanted) (expressionIf? r' wanted) :=
  .ite (fun _ => (expression_sim rules).map (by simp +contextual)) fun _ => .pure (by simp [*])

theorem parameterAt_sim (starts : Alike S.view start start') :
    InnerSim S (K + 1) 0 (parameterAt r path start) (parameterAt r' path start') := by
  unfold parameterAt
  dsimp only
  rcases (if path.segments.head? = some "var" then path.segments.tail else path.segments).getLast? with _ | _
  · exact failAt_sim starts
  refine (listSegments_sim rules).bind_less (by simp) fun segments segments' same => ?_
  obtain rfl : segments = segments' := by simpa using same
  refine defaultMark_sim.bind_plain fun _ => ?_
  refine (expressionIf?_sim rules).bind fun _ _ _ => types?_sim.forget.bind_plain fun _ => ?_
  exact (expressionAfter?_sim rules rfl rfl).bind_less (by simp) fun _ _ _ =>
    since_pure starts (by intros; simp [*])

theorem parameter?_sim : FindSim (K + 2) (parameter? r) (parameter? r') := by
  refine (accept_sim rfl).branch (.pure (by simp [*])) (here_sim.bind fun _ _ starts => ?_)
  refine path?_sim.bind_option_plain (.pure (by simp [*])) fun _ => ?_
  exact (parameterAt_sim rules starts).map_less (by simp) (by simp +contextual)

theorem parameterTurn_sim {parameters : List Parameter} (same : Alike S.view parameters parameters') :
    TurnSim S (K + 2) (.inner level) 0 (parameterTurn r parameters) (parameterTurn r' parameters') := by
  refine (parameter?_sim rules).forget.bind fun _ _ _ => ?_
  exact (accept_sim rfl).branch (.pure (by simp [*])) (.pure (by simp [*]))

theorem parameters_sim : TailSim (K + 2) (parameters r) (parameters r') :=
  .rounds (fun _ _ => parameterTurn_sim rules) rfl

theorem procDefinition_sim (starts : Alike S.view start start') :
    OuterSim S (K + 1) 1 (procDefinition r start) (procDefinition r' start') := by
  refine (parameters_sim rules).bind_less (by simp) fun _ _ _ => (expect_sim rfl).next ?_
  refine types?_sim.forget.bind_plain fun _ => (body?_sim rules).forgetItem.bind_less (by simp) fun _ _ _ => ?_
  exact owner_sim.bind_plain fun _ => since_pure starts (by intros; simp [*])

end Vars

section Declarations

theorem objectHere?_opens : Opens (objectHere? r) := by
  refine .of_accepts (by simp [opensBlock, or_comm]) ?_ ?_
  · refine bind_ne_none fun _ => bind_ne_none fun _ => bind_ne_none fun body => bind_ne_none fun _ => ?_
    exact bind_ne_none fun _ => bind_ne_none fun _ => bind_ne_none fun _ => pure_some_ne_none body
  · exact bind_ne_none fun body => bind_ne_none fun _ => bind_ne_none fun _ => pure_some_ne_none body

variable (rules : RulesSim K r r')

include rules

theorem declarationTurn_sim (same : Alike S.view done done') :
    TurnSim S K (.loose level) 0 (declarationTurn r done) (declarationTurn r' done') := by
  refine delimiters_sim.next <| endsBlock_sim.branch (.pure (by simp [*])) ?_
  refine Sim.live ?_ fun _ known => isLive_of_item known
  refine (recovering_sim (fun _ known => stopsSkipping_of_item known) rules.declaration).bind_option ?_ fun _ _ _ =>
    ?_
  · exact .pure (by simp [*])
  · exact .pure (by simp [*])

theorem declarations_sim : Sim S K ⟨.loose level, now, 0⟩ (declarations r) (declarations r') fun _ =>
    .loose level 0 :=
  .rounds (fun _ _ => declarationTurn_sim rules) rfl

theorem objectHere?_sim : ItemSim (K + 1) (objectHere? r) (objectHere? r') := by
  refine (accept_sim rfl).branch ?_ (accept_indent.branch ?_ (.pure (by simp [*])))
  · refine .loosen (newlines_sim.next <| mayIndent.bind_plain fun _ => ?_)
    refine (declarations_sim rules).bind_less (by simp) fun body body' same => newlinesIf_sim.next ?_
    refine acceptIf_dedent.next <| newlines_sim.next <| (expect_sim rfl).next ?_
    exact .pure (by simp [*])
  · refine .loosen ((declarations_sim rules).bind_less (by simp) fun body body' same => newlines_sim.next ?_)
    exact expect_dedent.next (.pure (by simp [*]))

theorem objectBody?_sim : ItemSim (K + 1) (objectBody? r) (objectBody? r') :=
  beforeBlock_sim objectHere?_opens objectHere?_opens (objectHere?_sim rules)

section

variable (starts : Alike S.view start start')

include starts

theorem plainDeclaration_sim : InnerSim S (K + 1) 0 (plainDeclaration r path start)
    (plainDeclaration r' path start') := by
  refine .ite (fun _ => (varDefinitions_sim rules starts).last_less (by simp) (by simp)) fun _ =>
    (accept_sim rfl).branch ?_ (.pure (by simp [*]))
  exact (expression_sim rules).bind fun _ _ _ => since_pure starts (by intros; simp [*])

theorem declarationBody_sim : OuterSim S (K + 1) 0 (declarationBody r start) (declarationBody r' start') := by
  refine (accept_sim rfl).branch ((procDefinition_sim rules starts).bind fun _ _ _ => ?_) ?_
  · exact .pure (by simp [*])
  · refine owner_sim.bind_plain fun _ => (objectBody?_sim rules).bind_option
      ((plainDeclaration_sim rules starts).last (by simp)) ?_
    intro _ _ _
    exact since_pure starts (by intros; simp [*])

theorem declarationFrom_sim : Sim S (K + 1) ⟨.inner level, now, 0⟩ (declarationFrom r start)
    (declarationFrom r' start')
      (optional (.inner level 0) (.outer level 0)) := by
  refine (declarationBody_sim rules starts).bind fun _ _ _ => endDeclaration_sim.next ?_
  exact .pure (by simp [*])

end

theorem declaration?_sim : ItemSim (K + 1) (declaration? r) (declaration? r') := by
  refine here_sim.bind fun _ _ starts => path?_sim.bind_option_plain (.pure (by simp [*])) fun _ => ?_
  refine owner_sim.bind_plain fun _ => ?_
  exact (withOwner_sim (declarationFrom_sim rules starts)).last_less (by simp) (by rintro (_ | _) <;> simp)

/-- The rules lead from readers for the phrases inside of a phrase to readers for the phrase. -/
theorem rule_sim : RulesSim (K + 1) (rule r) (rule r') where
  assignment := assignment_sim rules
  ternary := ternary_sim rules
  power := power_sim rules
  unary := unary_sim rules
  sign := sign_sim rules
  statement := statement?_sim rules
  localVars _ := localVars_sim rules
  declaration := declaration?_sim rules

end Declarations

section Depth

/-- Readers that go so deep read sources that weigh less as all that go deeper do. -/
theorem rulesUpTo_sim (depth more : Nat) : RulesSim depth (rulesUpTo depth) (rulesUpTo (depth + more)) := by
  induction depth with
  | zero =>
    have fails : ∀ {α : Type} (s : State), ∃ error,
        (failHere .expectedExpression "Expected an expression" : Parser α) s = (.error error, s) :=
      fun s => ⟨_, failHere_eq⟩
    exact {
      assignment := .of_fails (by simp) fails
      ternary := .of_fails (by simp) fails
      power := .of_fails (by simp) fails
      unary := .of_fails (by simp) fails
      sign := .of_fails (by simp) fails
      statement := .of_fails (by simp) fails
      localVars := fun _ => .of_fails (by simp) fails
      declaration := .of_fails (by simp) fails }
  | succ depth ih =>
    rw [Nat.add_right_comm]
    exact rule_sim ih

end Depth

end DreamMaker.Parsing
