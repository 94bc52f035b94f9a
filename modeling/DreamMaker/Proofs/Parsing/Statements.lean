import DreamMaker.Proofs.Parsing.Blocks

namespace DreamMaker.Parsing

variable {S : Setting} {level bound K : Nat} {stage : Stage} {now : Token → Prop} {r r' : Rules}

/-- Two lists of which one is empty if the other is. -/
theorem isEmpty_alike [Placed α] {bs : List α} (same : Alike f as bs) :
    as.isEmpty = bs.isEmpty := by
  rw [← isEmpty_move, same, isEmpty_move]

section Vars

theorem localVar_sim (values : Alike S.view value? value?') (spans : Alike S.view span span') :
    StaySim S bound ⟨stage, now, 0⟩ (localVar path value? types span) (localVar path value?' types span') := by
  unfold localVar
  cases path.segments.getLast? with
  | none => exact failAt_sim spans
  | some _ => exact .pure (by simp [*])

theorem acceptIf_sim (proper : isProper wanted = true) :
    Sim S bound ⟨.inner level, now, 0⟩ (acceptIf allowed wanted) (acceptIf allowed wanted)
      (either (.inner level 0) (.inner level 1)) := by
  refine .ite (fun _ => ?_) fun _ => .pure (by simp [*])
  exact (accept_sim proper).last (by rintro (_ | _) <;> simp)

variable (rules : RulesSim K r r')

include rules

theorem varAt_sim : TailSim (K + 2) (varAt r path) (varAt r' path) := by
  refine here_sim.bind fun _ _ starts => (array_sim rules).bind fun _ _ arrays => ?_
  obtain ⟨path, _, _, rfl, rfl, lists⟩ := exists_of_alike_pair arrays
  refine (expressionAfter?_sim rules rfl lists).bind fun _ _ values => types?_sim.forget.bind_plain fun _ => ?_
  exact (since_sim starts).bind fun _ _ spans => (localVar_sim values spans).last (by simp)

theorem varTurn_sim (same : Alike S.view so so') :
    TurnSim S (K + 2) (.inner level) 0 (varTurn r allowMore so) (varTurn r' allowMore so') := by
  obtain ⟨_, _, _, rfl, rfl, _⟩ := exists_of_alike_pair same
  refine (varAt_sim rules).bind fun _ _ _ => (acceptIf_sim rfl).branch ?_ (.pure (by simp [*]))
  refine path?_sim.bind_option_plain failHere_sim fun _ => ?_
  exact .pure (by simp [*])

theorem varList_sim : TailSim (K + 2) (varList r path allowMore) (varList r' path allowMore) :=
  .rounds (fun _ _ => varTurn_sim rules) rfl

theorem indentedVarTurn_sim (same : Alike S.view vars vars') :
    Sim S K ((Stage.loose (level + 1)).past 0) (indentedVarTurn r stem? vars) (indentedVarTurn r' stem? vars')
      (turned (.loose (level + 1)) fun _ => .outer level 0) := by
  refine delimiters_sim.next <| accept_dedent.branch (.pure (by simp [*])) ?_
  refine check_sim.branch (.pure (by simp [*])) (.inside ((rules.localVars stem?).bind fun _ _ _ => ?_))
  exact .pure (by simp [*])

theorem bracedVarTurn_sim (same : Alike S.view vars vars') :
    TurnSim S K (.loose level) 0 (bracedVarTurn r stem? vars) (bracedVarTurn r' stem? vars') := by
  refine delimiters_sim.next <| endsBlock_sim.branch (.pure (by simp [*])) ?_
  refine Sim.live ?_ fun _ known => isLive_of_item known
  exact (rules.localVars stem?).bind fun _ _ _ => .pure (by simp [*])

theorem bracedVars_sim : OuterSim S K 1 (bracedVars r stem?) (bracedVars r' stem?) := by
  refine .loosen (newlines_sim.next <| mayIndent.bind_plain fun _ => ?_)
  refine (Sim.rounds (fun _ _ => bracedVarTurn_sim rules) rfl).bind fun _ _ same => ?_
  refine acceptIf_dedent.next <| newlinesIf_sim.next <| (expect_sim rfl).next ?_
  exact .pure ⟨same, by simp⟩

theorem varsHere?_sim : ItemSim (K + 1) (varsHere? r stem?) (varsHere? r' stem?) := by
  refine accept_indent.branch ?_ ((accept_sim rfl).branch ?_ (.pure (by simp [*])))
  · refine .loosen ((Sim.rounds (fun _ _ => indentedVarTurn_sim rules) rfl).map_less (by simp) fun _ _ same => ?_)
    simp [same]
  · exact (bracedVars_sim rules).map_less (by simp) (by simp +contextual)

omit rules in
theorem varsHere?_opens : Opens (varsHere? r stem?) :=
  .of_accepts (by simp [opensBlock]) (map_some_ne_none _) (map_some_ne_none _)

theorem varBlock?_sim : ItemSim (K + 1) (varBlock? r stem? allowed) (varBlock? r' stem? allowed) :=
  .ite (fun _ => beforeBlock_sim varsHere?_opens varsHere?_opens (varsHere?_sim rules)) fun _ => .pure (by simp [*])

theorem localVars_sim : BodySim (K + 1) (localVars r stem? true) (localVars r' stem? true) := by
  refine path?_sim.bind_option_plain ?_ fun path => ?_
  · refine (varBlock?_sim rules).bind_option ?_ fun _ _ same => .pure ⟨same, by simp⟩
    cases stem? <;> exact failHere_sim
  · refine (varBlock?_sim rules).bind_option ?_ fun _ _ same => .pure ⟨same, by simp⟩
    cases (underStem stem? (some path)).filter fun path => !path.segments.isEmpty with
    | none => exact failHere_sim
    | some path => exact (varList_sim rules).last_less (by simp) (by simp)

/-- A var inside of a line. -/
theorem inlineVars_sim : ExprSim (K + 2) (localVars r none false) (localVars r' none false) := by
  refine path?_sim.bind_option_plain failHere_sim fun path => ?_
  have no_block : FindSim (K + 2) (varBlock? r (underStem none (some path)) false)
    (varBlock? r' (underStem none (some path)) false) :=
    .pure (by simp [*])
  refine no_block.bind_option ?_ fun _ _ same => .pure ⟨same, by simp⟩
  cases (underStem none (some path)).filter fun path => !path.segments.isEmpty with
  | none => exact failHere_sim
  | some path => exact (varList_sim rules).last (by simp)

theorem varStatement_sim : KeywordSim (K + 2) .var (varStatement r) (varStatement r') := by
  intro S _ _
  refine (advance_kind rfl).next <| behind_sim.bind fun _ _ starts => ?_
  refine (localVars_sim rules).bind_less (by simp) fun vars vars' same => ?_
  have actions : Alike S.view (varsAction? vars) (varsAction? vars') := by simp [same]
  cases left : varsAction? vars <;> cases right : varsAction? vars' <;>
    rw [left, right] at actions <;> simp at actions
  · exact failAt_sim starts
  · exact .pure ⟨by simpa using actions, by simp⟩

end Vars

section Sets

theorem setMark_sim : ExprSim bound setMark setMark :=
  (accept_sim rfl).branch (.pure (by simp [*])) ((accept_sim rfl).branch (.pure (by simp [*])) failHere_sim)

variable (rules : RulesSim K r r')

include rules

theorem setTurn_sim {sets sets' : List Statement} (same : Alike S.view sets sets') :
    TurnSim S (K + 1) (.inner level) 1 (setTurn r sets) (setTurn r' sets') := by
  refine .current fun _ _ spans => .ite (fun kind => ?_) fun _ => failHere_sim
  refine (advance_token (by rw [kind]; rfl)).next <| setMark_sim.bind_plain fun _ => ?_
  refine (expression_sim rules).bind fun _ _ _ => (since_sim spans).bind fun _ _ _ => ?_
  exact (accept_sim rfl).branch (.pure (by simp [*])) (.pure (by simp [*]))

theorem setChain_sim (same : Alike S.view done done') : InnerSim S (K + 1) 1 (setChain r done) (setChain r' done') :=
  .rounds (fun _ _ => setTurn_sim rules) same

theorem setBlockTurn_sim {sets sets' : List Statement} (same : Alike S.view sets sets') :
    TurnSim S (K + 1) (.loose level) 0 (setBlockTurn r sets) (setBlockTurn r' sets') := by
  refine delimiters_sim.next <| endsBlock_sim.branch (.pure (by simp [*])) ?_
  refine Sim.live ?_ fun _ known => isLive_of_item known
  exact (setChain_sim rules same).bind fun _ _ _ => .pure (by simp [*])

theorem setsHere?_sim : ItemSim (K + 2) (setsHere? r) (setsHere? r') := by
  refine (accept_sim rfl).branch ?_ (accept_indent.branch ?_ (.pure (by simp [*])))
  · refine .loosen (newlines_sim.next <| mayIndent.bind_plain fun _ => ?_)
    refine (Sim.rounds (fun _ _ => setBlockTurn_sim rules) rfl).bind_less (by simp) fun sets sets' same => ?_
    refine acceptIf_dedent.next <| newlines_sim.next <| (expect_sim rfl).next ?_
    exact .pure (by simp [*])
  · refine .loosen
      ((Sim.rounds (fun _ _ => setBlockTurn_sim rules) rfl).bind_less (by simp) fun sets sets' same => ?_)
    refine accept_dedent.bind_plain fun closed => ?_
    cases closed <;> exact .pure (by simp [*])

omit rules in
theorem setsHere?_opens : Opens (setsHere? r) := by
  refine .of_accepts (by simp [opensBlock, or_comm]) ?_ ?_
  · refine bind_ne_none fun _ => bind_ne_none fun _ => bind_ne_none fun sets => ?_
    exact bind_ne_none fun _ => bind_ne_none fun _ => bind_ne_none fun _ => pure_some_ne_none sets
  · exact bind_ne_none fun sets => bind_ne_none fun _ => pure_some_ne_none sets

theorem sets_sim : BodySim (K + 1) (sets r) (sets r') := by
  refine (beforeBlock_sim setsHere?_opens setsHere?_opens (setsHere?_sim rules)).bind_option_less
    (by simp) ?_ fun _ _ same => .pure ⟨same, by simp⟩
  exact (setChain_sim rules rfl).last (by simp)

theorem setStatement_sim : KeywordSim (K + 2) .set (setStatement r) (setStatement r') := by
  intro S _ _
  refine (advance_kind rfl).next <| behind_sim.bind fun _ _ starts =>
    (sets_sim rules).bind_less (by simp) fun sets sets' same => ?_
  have actions : Alike S.view (setsAction? sets) (setsAction? sets') := by simp [same]
  cases left : setsAction? sets <;> cases right : setsAction? sets' <;>
    rw [left, right] at actions <;> simp at actions
  · exact failAt_sim starts
  · exact .pure ⟨by simpa using actions, by simp⟩

end Sets

section Conditions

variable {s t : State}

theorem warnAssignment_sim (same : Alike S.view condition condition') :
    StaySim S bound ⟨stage, now, 0⟩ (warnAssignment condition) (warnAssignment condition') := by
  have places : Alike S.view (assignmentSpan? condition) (assignmentSpan? condition') := by simp [same]
  unfold warnAssignment
  cases left : assignmentSpan? condition <;> cases right : assignmentSpan? condition' <;>
    rw [left, right] at places <;>
    simp at places
  · exact .pure (by simp [*])
  · exact warn_sim places

/-- Reads what stands behind the word `else`. -/
def elseTail (r : Rules) : Parser (Option Block) := do
  let _ ← acceptSymbol .colon
  return some (← body r)

theorem elseBody?_eq (walk : delimiters s = (.ok found, s₁)) : elseBody? r s =
      if s₁.current.kind = .keyword .else_ then elseTail r s₁.advance
      else (.ok none, if found then s₁.handBack s.current else s₁) := by
  show (delimiters >>= fun found => acceptKeyword .else_ >>= fun isElse =>
    if isElse then elseTail r else handBackIf found s.current >>= fun _ => pure none) s = _
  rw [Run.bind_of_ok walk, Run.bind_eq, acceptKeyword, run_accept]
  by_cases isElse : s₁.current.kind = .keyword .else_
  · rw [if_pos isElse, if_pos isElse]
    rfl
  · rw [if_neg isElse, if_neg isElse]
    cases found <;> rfl

/-- What is left of a source that is read to its end is at most one delimiter. -/
theorem delimiters_of_spent (spent : Spent s) :
    ∃ found s₁, delimiters s = (.ok found, s₁) ∧ s₁.current.kind = .endOfFile ∧
      Spent (if found then s₁.handBack s.current else s₁) ∧ s₁.scope = s.scope ∧
        s₁.reports = s.reports := by
  rw [show delimiters s = roundsOver (acceptTurn isDelimiter) s.tokens false s from acceptAll_eq isDelimiter]
  rcases spent with isEnd | ⟨delimiter, last, ahead, isEnd⟩
  · have kind := kind_of_end isEnd
    have other : isDelimiter s.current.kind = false := by rw [kind]; rfl
    refine ⟨false, s, ?_, kind, .inl isEnd, rfl, rfl⟩
    rw [State.tokens, roundsOver_cons, acceptTurn_eq, other]
    rfl
  · have kind := kind_of_end isEnd
    have behind : s.behind = [last] := by simp [State.behind, ahead, isInvalid, kind]
    have next := State.advance_eq behind
    have current : s.advance.current = last := by rw [next]
    have other : isDelimiter s.advance.current.kind = false := by rw [current, kind]; rfl
    refine ⟨true, s.advance, ?_, by rw [current, kind],
      .inr ⟨delimiter, last, ?_, isEnd⟩, by rw [next]; rfl, ?_⟩
    · rw [State.tokens, ahead, roundsOver_cons, acceptTurn_eq, if_pos delimiter]
      dsimp only
      rw [roundsOver_cons, acceptTurn_eq, other]
      rfl
    · rw [next]
      rfl
    · rw [next]
      simp [State.settled, ahead, isInvalid, kind]

/-- The second source goes on with delimiters and something that is no `else`. -/
theorem Setting.Passed.delimiters (passed : S.Passed s t) :
    ∃ found t₁, delimiters t = (.ok found, t₁) ∧ t₁.current.kind ≠ .keyword .else_ ∧
      S.Passed s (if found then t₁.handBack t.current else t₁) ∧
        (isDelimiter t.current.kind = false → t₁ = t ∧ found = false) ∧
      (isDelimiter t.current.kind = true → found = true) := by
  have divides : ∀ kind, isDelimiter kind = true → isDelimiter kind = true := fun _ => id
  have goes_on := passed.beyond.goes_on passed.apart
  obtain ⟨t₁, run, walked, -, stays, -⟩ := roundsOver_walk divides t.tokens false t goes_on (Nat.le_refl _)
  have after := passed.walked walked
  refine ⟨isDelimiter t.current.kind, t₁, run, after.closed.2, ?_, fun other => ⟨stays other, other⟩, id⟩
  cases delimiter : isDelimiter t.current.kind with
  | false => exact after
  | true =>
    refine { after with
      complains := after.complains, exact := (absurd · passed.inexact), beyond := ?_, valid := passed.valid }
    have idle : isIdle t.current = true := by simp [isIdle, delimiter]
    show (t.current :: t₁.tokens).dropWhile isIdle = S.rest
    rw [List.dropWhile_cons, if_pos idle]
    exact after.beyond

/-- Behind what the first run reads there is no `else` for either run. -/
theorem Setting.Outer.noElse (outer : S.Outer level s t) :
    ∃ s' t', elseBody? r s = (.ok none, s') ∧ elseBody? r' t = (.ok none, t') ∧ S.Outer level s' t' := by
  obtain ⟨found, s₁, walk, kind, spent, scope, reports⟩ := delimiters_of_spent outer.spent
  obtain ⟨found', t₁, walk', no_else, passed, stays, moves⟩ := outer.toPassed.delimiters
  rw [elseBody?_eq walk, if_neg (by simp [kind]), elseBody?_eq walk', if_neg no_else]
  refine ⟨_, _, rfl, rfl, ?_⟩
  have kept : ∀ s' : State, s' = (if found then s₁.handBack s.current else s₁) → s'.scope = s.scope ∧
      s'.reports = s.reports := by
    rintro s' rfl
    split
    · exact ⟨scope, reports⟩
    · exact ⟨scope, reports⟩
  obtain ⟨scope', reports'⟩ := kept _ rfl
  have ended : closesBlock (if found' then t₁.handBack t.current else t₁).previous.kind = true ∨
      isDelimiter (if found' then t₁.handBack t.current else t₁).current.kind = true := by
    cases delimiter : isDelimiter t.current.kind with
    | false =>
      obtain ⟨rfl, rfl⟩ := stays delimiter
      exact outer.ended
    | true =>
      rw [if_pos (moves delimiter)]
      exact .inr delimiter
  exact {
    owner := (congrArg Prod.fst scope').trans passed.owner
    declares := (congrArg Prod.snd scope').trans passed.declares
    complains := by
      rw [Complains, reports']
      exact passed.complains
    exact := fun exact_ => absurd (S.exact_whole exact_) outer.apart
    apart := outer.apart
    spent
    beyond := passed.beyond
    valid := passed.valid
    level := outer.level
    ended }

/-- The delimiter before the end of the first source is handed back. -/
theorem Setting.Passed.handDelimiterBack (passed : S.Passed s t) (ends : EndsOnce s.tokens)
    (isEnd : s.current.isEnd = true) (delimiter : isDelimiter x.kind = true) (kinds : y.kind = x.kind) :
    S.Outer 0 (s.handBack x) (t.handBack y) where
  toAgree := ⟨passed.owner, passed.declares, passed.complains, (absurd · passed.inexact)⟩
  apart := passed.apart
  spent := by
    have nothing := ends.eq_nil_of_end isEnd
    exact .inr ⟨delimiter, s.current, by rw [State.handBack, nothing], isEnd⟩
  beyond := by
    have idle : isIdle y = true := by simp [isIdle, kinds, delimiter]
    show (y :: t.tokens).dropWhile isIdle = S.rest
    rw [List.dropWhile_cons, if_pos idle]
    exact passed.beyond
  valid := by
    show isInvalid y = false
    rw [isInvalid]
    cases kind : x.kind <;> simp_all [isDelimiter]
  level := rfl
  ended := .inr (by rw [State.handBack, kinds]; exact delimiter)

theorem elseBody?_reads (reads : Reads (.inner level 0) (elseTail r) fun _ => .outer level 0) :
    Reads (.outer level 0) (elseBody? r) fun _ => .outer level 0 := by
  intro _ ends _
  obtain ⟨s₁, walk, before, back⟩ := acceptAll_later isDelimiter (fun _ => id) ends
  rw [elseBody?_eq walk]
  by_cases isElse : s₁.current.kind = .keyword .else_
  · have more : s₁.current.isEnd = false := by simp [Token.isEnd, isElse]
    have next := Later.advance before.ends more
    obtain ⟨after, _⟩ := reads s₁.advance next.ends trivial
    rw [if_pos isElse]
    have whole := (before.trans next).trans after
    exact ⟨whole, fun _ _ => ⟨whole.tokens.length_le, trivial⟩⟩
  · rw [if_neg isElse]
    exact ⟨back, fun _ _ => ⟨back.tokens.length_le, trivial⟩⟩

variable (rules : RulesSim K r r')

include rules

theorem inParens_sim : ExprSim (K + 2) (inParens r) (inParens r') := by
  refine (expect_sim rfl).next <| (expression_sim rules).bind_less (by simp) fun _ _ same => (expect_sim rfl).next ?_
  exact .pure ⟨same, by simp⟩

theorem elseTail_sim : Sim S K (.inner level 0) (elseTail r) (elseTail r') fun _ => .outer level 0 :=
  ((accept_sim rfl).ignore rfl).next <| (body_sim rules).bind fun _ _ _ => .pure (by simp [*])

omit rules in
theorem elseBody?_valid (tail : Sim S K (.inner level 0) (elseTail r) (elseTail r') fun _ => .outer level 0)
    (ends : EndsOnce s.tokens) (valid : isInvalid s.current = false) : Throughout (elseBody? r) s := by
  have lines : Sim S K (.loose level 0) delimiters delimiters _ := delimiters_sim
  have word : Sim S K (.inner level 0) (acceptKeyword .else_) (acceptKeyword .else_) _ := accept_sim rfl
  refine .bind (.note valid rfl rfl) fun _ same => ?_
  cases same
  refine lines.andThen ends trivial valid fun found later valid' => ?_
  refine word.andThen later.ends trivial valid' fun isElse later' valid'' => ?_
  cases isElse with
  | true => exact tail.valid _ later'.ends trivial valid''
  | false => exact (Throughout.handBackIf valid'' valid found).andPure fun _ => none

theorem elseBody?_sim : Sim S K (.outer level 0) (elseBody? r) (elseBody? r') fun _ => .outer level 0 := by
  have tail : Sim S K (.inner level 0) (elseTail r) (elseTail r') _ := elseTail_sim rules
  refine ⟨elseBody?_reads tail.reads, fun s t ends light start together => ?_, fun _ _ _ adrift => adrift.elim,
    fun s ends start => elseBody?_valid tail ends⟩
  rcases together with inner | outer
  · have same := inner.head
    obtain ⟨s₁, t₁, walk, walk', later, -, -, stays, after⟩ :=
      inner.walk isDelimiter (fun _ => id) ends s.tokens t.tokens false (Nat.le_refl _) (Nat.le_refl _)
    have weigh := later.weight_add
    have shorter := later.tokens.length_le
    rw [elseBody?_eq walk, elseBody?_eq walk']
    rcases after with joint | ⟨rfl, isEnd, passed, -⟩
    · obtain ⟨span, current, -⟩ := exists_span_of_alike joint.head
      have kinds : t₁.current.kind = s₁.current.kind := by rw [current]
      rw [kinds]
      by_cases isElse : s₁.current.kind = .keyword .else_
      · have plain : isPlain s₁.current.kind = true := by rw [isElse]; rfl
        have more := more_of_plain plain
        have next := Later.advance later.ends more
        have lighter := next.weight_add
        have fewer := Later.length_advance later.ends more
        rw [if_pos isElse, if_pos isElse]
        exact tail.meets _ _ next.ends (by dsimp only at light ⊢; omega) trivial
          (joint.advance_plain later.ends plain)
      · rw [if_neg isElse, if_neg isElse]
        refine .inr ⟨rfl, .inl ?_⟩
        cases found : isDelimiter s.current.kind with
        | false => exact joint
        | true =>
          have flat : opens s.current = 0 ∧ closes s.current = 0 := by
            cases kind : s.current.kind <;> simp_all [opens, closes, isDelimiter]
          exact joint.handBack inner.valid same flat
    · have kind := kind_of_end isEnd
      rw [if_neg (by simp [kind]), if_neg passed.closed.2]
      refine .inr ⟨rfl, ?_⟩
      cases found : isDelimiter s.current.kind with
      | false =>
        obtain ⟨rfl, rfl⟩ := stays found
        exact .inl inner
      | true =>
        obtain ⟨span, current, -⟩ := exists_span_of_alike same
        exact .inr (passed.handDelimiterBack later.ends isEnd found (by rw [current]))
  · obtain ⟨_, _, run, run', after⟩ := outer.noElse
    rw [run, run']
    exact .inr ⟨rfl, .inr after⟩

theorem ifStatement_sim : KeywordSim (K + 1) .if_ (ifStatement r) (ifStatement r') := by
  refine (advance_kind rfl).next <| (expect_sim rfl).next ?_
  refine (expression_sim rules).bind fun _ _ conditions => (warnAssignment_sim conditions).next ?_
  refine (expect_sim rfl).next <| ((accept_sim rfl).ignore rfl).next <|
    (body_sim rules).bind_less (by simp) fun _ _ _ => ?_
  exact (elseBody?_sim rules).bind_less (by simp) fun _ _ _ => .pure (by simp [*])

theorem whileStatement_sim : KeywordSim (K + 1) .while_ (whileStatement r) (whileStatement r') := by
  refine (advance_kind rfl).next <| (inParens_sim rules).bind_less (by simp) fun _ _ _ => ?_
  refine ((accept_plain rfl).ignore rfl).bind_plain fun _ => behind_sim.bind fun _ _ _ => ?_
  exact (body?_sim rules).forgetItem.bind_less (by simp) fun _ _ _ => .pure (by simp [*])

theorem doStatement_sim : KeywordSim (K + 1) .do_ (doStatement r) (doStatement r') := by
  intro S _ _
  refine (advance_kind rfl).next <| (body?_sim rules).bind_option_less
    (by simp) failHere_sim fun body body' bodies => ?_
  have empty : body.isEmpty = body'.isEmpty := by rw [← Block.isEmpty_move, bodies, Block.isEmpty_move]
  have kept : Alike S.view ((some body).filter fun body => !body.isEmpty)
      ((some body').filter fun body => !body.isEmpty) := by
    cases none_left : body'.isEmpty <;> simp [Option.filter, empty, none_left, bodies]
  cases left : (some body).filter fun body => !body.isEmpty <;>
    cases right : (some body').filter fun body => !body.isEmpty <;> rw [left, right] at kept <;> simp at kept
  · exact .loosenOuter failHere_sim
  · refine .loosenOuter (delimiters_sim.next <| (expect_sim rfl).next ?_)
    exact (inParens_sim rules).bind_less (by simp) fun _ _ _ => .pure (by simp [*])

theorem delay?_sim : TailSim (K + 2) (delay? r) (delay? r') := by
  refine (accept_sim rfl).branch ((accept_sim rfl).branch (.pure (by simp [*])) ?_) (.pure (by simp [*]))
  exact (expression_sim rules).bind_less (by simp) fun _ _ _ => (expect_sim rfl).next (.pure (by simp [*]))

theorem spawnStatement_sim : KeywordSim (K + 1) .spawn (spawnStatement r) (spawnStatement r') := by
  refine (advance_kind rfl).next <| (delay?_sim rules).bind_less (by simp) fun _ _ _ => ?_
  exact (requiredBody_sim rules).bind_less (by simp) fun _ _ _ => .pure (by simp [*])

theorem boundVar?_sim : TailSim (K + 2) (boundVar? r) (boundVar? r') :=
  (accept_sim rfl).branch ((inlineVars_sim rules).bind fun _ _ _ => .pure (by simp [*])) (.pure (by simp [*]))

theorem caughtVar?_sim : TailSim (K + 2) (caughtVar? r) (caughtVar? r') := by
  refine (accept_sim rfl).branch ((boundVar?_sim rules).bind fun _ _ same => ?_) (.pure (by simp [*]))
  exact (expect_sim rfl).next <| .pure ⟨same, by simp⟩

theorem tryStatement_sim : KeywordSim (K + 1) .try_ (tryStatement r) (tryStatement r') := by
  refine (advance_kind rfl).next <| (requiredBody_sim rules).bind_less (by simp) fun _ _ _ => ?_
  refine .loosenOuter (newlines_sim.next <| (expect_sim rfl).next ?_)
  refine (caughtVar?_sim rules).bind_less (by simp) fun _ _ _ =>
    (body?_sim rules).forgetItem.bind_less (by simp) fun _ _ _ => ?_
  exact .pure (by simp [*])

end Conditions

section Switches

theorem warnNoValue_sim (spans : Alike S.view span span') :
    StaySim S bound ⟨stage, now, 0⟩ (warnNoValue isEmpty span) (warnNoValue isEmpty span') :=
  .ite (fun _ => warn_sim spans) fun _ => .pure (by simp [*])

theorem warnElseIf_sim : TailSim bound warnElseIf warnElseIf :=
  .current fun _ _ spans => .ite (fun _ => (warn_sim spans).last (by simp)) fun _ => .pure (by simp [*])

variable (rules : RulesSim K r r')

include rules

theorem caseValue_sim {value : Expr} (same : Alike S.view value value') :
    InnerSim S (K + 2) 0 (caseValue r value) (caseValue r' value') := by
  refine (accept_sim rfl).branch ((expression?_sim rules).bind_option_less (by simp) ?_ fun _ _ _ => ?_)
    (.pure (by simp [*]))
  · exact here_sim.bind fun _ _ spans => (warn_sim spans).next (.pure (by simp [*]))
  · exact .pure (by simp [*])

theorem caseTurn_sim (same : Alike S.view values values') :
    TurnSim S (K + 1) (.inner level) 0 (caseTurn r values) (caseTurn r' values') := by
  refine (expression?_sim rules).bind_option ?_ fun _ _ found => ?_
  · rw [isEmpty_alike same]
    exact here_sim.bind fun _ _ spans => (warnNoValue_sim spans).next (.pure (by simp [*]))
  · refine (caseValue_sim rules found).bind_less (by simp) fun _ _ _ => ?_
    exact (accept_sim rfl).branch (.pure (by simp [*])) (.pure (by simp [*]))

theorem caseValues_sim : TailSim (K + 1) (caseValues r) (caseValues r') :=
  .rounds (fun _ _ => caseTurn_sim rules) rfl

theorem caseHead?_sim : ExprSim (K + 2) (caseHead? r) (caseHead? r') := by
  refine (accept_sim rfl).branch ?_ ((accept_sim rfl).branch (warnElseIf_sim.next (.pure (by simp [*]))) failHere_sim)
  refine (expect_sim rfl).next <| (caseValues_sim rules).bind_less (by simp) fun _ _ _ => (expect_sim rfl).next ?_
  exact .pure (by simp [*])

theorem switchCase_sim : BodySim (K + 1) (switchCase r) (switchCase r') := by
  refine here_sim.bind fun _ _ starts => (caseHead?_sim rules).bind_less (by simp) fun _ _ _ => ?_
  exact (body_sim rules).bind_less (by simp) fun _ _ _ => since_pure starts (by intros; simp [*])

theorem switchTurn_sim (same : Alike S.view cases cases') :
    TurnSim S (K + 1) (.loose level) 0 (switchTurn r cases) (switchTurn r' cases') := by
  refine delimiters_sim.next <| endsBlock_sim.branch (.pure (by simp [*])) ?_
  refine Sim.live ?_ fun _ known => isLive_of_item known
  exact (switchCase_sim rules).bind fun _ _ _ => .pure (by simp [*])

theorem switchCases_sim :
    Sim S (K + 1) ⟨.loose level, now, 0⟩ (switchCases r) (switchCases r') fun _ => .outer level 1 := by
  refine (accept_sim rfl).branch ?_ (accept_indent.branch ?_ failHere_sim)
  · refine .loosen (newlines_sim.next <| mayIndent.bind_plain fun _ => ?_)
    refine (Sim.rounds (fun _ _ => switchTurn_sim rules) rfl).bind fun cases cases' same => ?_
    refine expectIf_dedent.next <| newlines_sim.next <| (expect_sim rfl).next ?_
    exact .pure ⟨same, by simp⟩
  · refine .loosen ((Sim.rounds (fun _ _ => switchTurn_sim rules) rfl).bind fun cases cases' same => ?_)
    exact expect_dedent.next <| .pure ⟨same, by simp⟩

theorem switchStatement_sim : KeywordSim (K + 1) .switch (switchStatement r) (switchStatement r') := by
  refine (advance_kind rfl).next <| (inParens_sim rules).bind_less (by simp) fun _ _ _ => ?_
  refine .loosen (newlines_sim.next <| (switchCases_sim rules).bind fun _ _ _ => ?_)
  exact .pure (by simp [*])

end Switches

section Loops

variable {first first' : Expr}

/-- Tokens that separate the parts of a loop's head. -/
def separates (kind : Token.Kind) : Bool := kind = .symbol .semicolon || kind = .symbol .comma

theorem isPlain_of_separates {kind : Token.Kind} (separator : separates kind = true) : isPlain kind = true := by
  cases kind <;> simp_all [separates, isPlain]

theorem atSeparator_sim [joint : stage.Joint] :
    TestSim S bound stage now separates atSeparator := .decide fun _ => rfl

theorem advance_separator :
    Sim S bound ⟨.inner level, fun x => now x ∧ separates x.kind = true, 0⟩ advance advance fun _ =>
      .inner level 1 :=
  advance_plain fun _ known => isPlain_of_separates known.2

theorem loopStart_sim (same : Alike S.view first? first?') :
    InnerSim S bound 0 (loopStart first?) (loopStart first?') := by
  cases first? <;> cases first?' <;> simp at same
  · refine atSeparator_sim.branch ?_ failHere_sim
    exact here_sim.bind fun _ _ _ => .pure (by simp [*])
  · exact .pure ⟨same, by simp⟩

variable (rules : RulesSim K r r')

include rules

theorem rangeLoop_sim (same : Alike S.view first first') :
    OuterSim S (K + 1) 0 (rangeLoop r first) (rangeLoop r' first') := by
  intro _ _
  have sides : Alike S.view (assigned? first) (assigned? first') := by simp [same]
  unfold rangeLoop
  cases left : assigned? first <;> cases right : assigned? first' <;> rw [left, right] at sides <;>
    simp only [Alike, move_some, move_none, reduceCtorEq, Option.some.injEq] at sides
  · exact failHere_sim
  · obtain ⟨_, _⟩ := Prod.mk.inj sides
    refine (expression_sim rules).bind fun _ _ _ =>
      (expressionAfter?_sim rules rfl rfl).bind_less (by simp) fun _ _ _ => ?_
    refine (expect_sim rfl).next <| (loopBody_sim rules).bind_less (by simp) fun _ _ _ => ?_
    exact .pure (by simp [*])

theorem plainLoop_sim {types? : Option ValueTypes} (same : Alike S.view first first') :
    OuterSim S (K + 1) 0 (plainLoop r first types?) (plainLoop r' first' types?) := by
  refine (expect_sim rfl).next <| (loopBody_sim rules).bind_less (by simp) fun _ _ bodies => ?_
  exact .pure ⟨by rw [Alike, move_loopOver, move_loopOver, same, bodies], by simp⟩

theorem loopStep?_sim : TailSim (K + 2) (loopStep? r) (loopStep? r') := by
  refine atSeparator_sim.branch ?_ (.pure (by simp [*]))
  exact advance_separator.next <| check_sim.branch (.pure (by simp [*]))
    ((expression?_sim rules).forget.last_less (by simp) (by simp))

theorem steppedLoop_sim (same : Alike S.view first first') :
    Sim S (K + 1) ⟨.inner level, fun x => now x ∧ separates x.kind = true, 0⟩
      (steppedLoop r first) (steppedLoop r' first')
      fun _ => .outer level 0 := by
  have nulls : first.isNull = first'.isNull := by rw [← Expr.isNull_move, same, Expr.isNull_move]
  have starts : Alike S.view (if first.isNull then none else some first)
      (if first'.isNull then none else some first') := by
    cases null : first'.isNull <;> simp [nulls, null, same]
  refine advance_separator.next <| (accept_sim rfl).branch ?_ ?_
  · refine (loopBody_sim rules).bind_less (by simp) fun body body' bodies => .pure ⟨?_, by simp⟩
    simp only [Alike, Action.move_eq, Action.relocate, moveExpr?_eq, Block.relocate_eq]
    rw [starts, bodies]
  · refine (expression?_sim rules).forget.bind fun _ _ conditions => ?_
    refine (loopStep?_sim rules).bind_less (by simp) fun _ _ nexts => (expect_sim rfl).next ?_
    refine (loopBody_sim rules).bind_less (by simp) fun body body' bodies => .pure ⟨?_, by simp⟩
    simp only [Alike, Action.move_eq, Action.relocate, moveExpr?_eq, Block.relocate_eq]
    rw [starts, bodies, conditions, nexts]

theorem loopHead_sim : TailSim (K + 1) (loopHead r) (loopHead r') := by
  refine (expression?_sim rules).forget.bind fun _ _ _ => types?_sim.forget.bind_plain fun _ => ?_
  exact .pure (by simp [*])

theorem loopFrom_sim {types? : Option ValueTypes} (same : Alike S.view first first') :
    OuterSim S (K + 1) 0 (loopFrom r first types?) (loopFrom r' first' types?) := by
  refine (accept_sim rfl).branch ((rangeLoop_sim rules same).last (by simp)) ((accept_sim rfl).branch ?_ ?_)
  · refine (expression_sim rules).bind fun _ _ _ => (expect_sim rfl).next ?_
    exact (loopBody_sim rules).bind_less (by simp) fun _ _ _ => .pure (by simp [*])
  · exact atSeparator_sim.branch ((steppedLoop_sim rules same).last (by simp))
      ((plainLoop_sim rules same).last (by simp))

theorem forStatement_sim : KeywordSim (K + 1) .for_ (forStatement r) (forStatement r') := by
  refine (advance_kind rfl).next <| (expect_sim rfl).next <| (accept_sim rfl).branch ?_ ?_
  · exact (loopBody_sim rules).bind_less (by simp) fun _ _ _ => .pure (by simp [*])
  · refine (withDeclares_sim (loopHead_sim rules)).bind fun so so' heads => ?_
    obtain ⟨_, _⟩ := so
    obtain ⟨_, _⟩ := so'
    simp only [Alike, move_pair, move_of_unplaced, Prod.mk.injEq] at heads
    obtain ⟨firsts, rfl⟩ := heads
    exact (loopStart_sim firsts).bind fun _ _ starts => (loopFrom_sim rules starts).last (by simp)

end Loops

section Statements

theorem label?_sim : TailSim bound label? label? := by
  refine .current fun _ _ _ => .ite (fun kind => ?_) fun _ => .pure (by simp [*])
  exact (advance_token (by rw [kind]; rfl)).next (.pure (by simp [*]))

variable (rules : RulesSim K r r')

include rules

theorem nameStatement_sim {isLabel : Bool} (starts : Alike S.view start start') (spans : Alike S.view span span') :
    OuterSim S (K + 1) 0 (nameStatement r name start span isLabel) (nameStatement r' name start' span' isLabel) := by
  refine (Sim.test (fun kind => decide (kind = .symbol .colon)) fun _ => rfl).bind_plain fun _ =>
    .ite (fun _ => ?_) fun _ => ?_
  · exact (expression?_sim rules).forget.bind fun _ _ _ => since_pure starts (by intros; simp [*])
  · refine ((accept_sim rfl).ignore rfl).next <| (block?_sim rules).forgetItem.bind fun _ _ _ => ?_
    exact .pure (by simp [*])

theorem expressionStatement_sim {isLabel : Bool} (same : Alike S.view e e') (starts : Alike S.view start start') :
    OuterSim S (K + 1) 0 (expressionStatement r e start isLabel) (expressionStatement r' e' start' isLabel) := by
  intro _ _
  have names : e.name? = e'.name? := by rw [← Expr.name?_move, same, Expr.name?_move]
  have spans : Alike S.view (start.merge e.span) (start'.merge e'.span) := by simp [starts, same]
  have actions : Alike S.view (expressionAction e (start.merge e.span))
      (expressionAction e' (start'.merge e'.span)) := by
    rw [Alike, move_expressionAction, move_expressionAction, same, spans]
  unfold expressionStatement
  rw [names]
  cases e'.name? with
  | some _ => exact nameStatement_sim rules starts spans
  | none =>
    dsimp only
    cases left : expressionAction e (start.merge e.span) <;>
      cases right : expressionAction e' (start'.merge e'.span) <;>
      rw [left, right] at actions <;> simp at actions
    · subst actions
      exact failAt_sim spans
    · exact .pure ⟨by simpa using actions, by simp⟩

theorem valueInStatement?_sim : TailSim (K + 1) (valueInStatement? r) (valueInStatement? r') :=
  (Sim.test Token.Kind.endsStatement fun _ => rfl).branch (.pure (by simp [*])) (expression?_sim rules).forget

theorem delStatement_sim : KeywordSim (K + 2) .del (delStatement r) (delStatement r') := by
  refine (advance_kind rfl).next <| ((accept_sim rfl).ignore rfl).bind_plain fun _ => ?_
  refine (expression?_sim rules).bind_option_less (by simp) failHere_sim fun _ _ _ => (expectIf_sim rfl).next ?_
  exact .pure (by simp [*])

theorem keywordStatement?_sim (starts : Alike S.view start start') :
    Sim S (K + 1) ⟨.inner level, now, 0⟩ (keywordStatement? r start) (keywordStatement? r' start')
      (optional (.inner level 0) (.outer level 1)) := by
  refine kind_sim.bind_plain fun _ => ?_
  split
  · exact (ifStatement_sim rules).map (by simp +contextual)
  · refine (advance_kind rfl).next <| (valueInStatement?_sim rules).bind fun _ _ same => .pure (by simp [*])
  · exact (varStatement_sim rules).map_less (by simp) (by simp +contextual)
  · exact (forStatement_sim rules).map (by simp +contextual)
  · exact (setStatement_sim rules).map_less (by simp) (by simp +contextual)
  · exact (switchStatement_sim rules).map (by simp +contextual)
  · exact (advance_kind rfl).next <| label?_sim.bind_plain fun _ => .pure (by simp [*])
  · exact (advance_kind rfl).next <| label?_sim.bind_plain fun _ => .pure (by simp [*])
  · exact (spawnStatement_sim rules).map (by simp +contextual)
  · exact (whileStatement_sim rules).map (by simp +contextual)
  · exact (doStatement_sim rules).map (by simp +contextual)
  · refine (advance_kind rfl).next <| (valueInStatement?_sim rules).bind fun _ _ same => .pure (by simp [*])
  · exact (delStatement_sim rules).map_less (by simp) (by simp +contextual)
  · exact (tryStatement_sim rules).map (by simp +contextual)
  · exact (advance_kind rfl).next <| identifier_sim.bind_plain fun _ => .pure (by simp [*])
  · exact .pure (by simp [*])

theorem leadingExpression?_sim : FindSim (K + 1) (leadingExpression? r) (leadingExpression? r') :=
  check_sim.branch (.pure (by simp [*])) (expression?_sim rules)

theorem statement?_sim : ItemSim (K + 1) (statement? r) (statement? r') := by
  intro S level _
  refine here_sim.bind fun start start' starts => ((accept_sim rfl).ignore rfl).bind_plain fun isLabel => ?_
  refine (leadingExpression?_sim rules).bind_option
    (.ite (fun _ => failAt_sim starts) fun _ => ?_) fun e e' same => ?_
  · refine (keywordStatement?_sim rules starts).bind_option (.pure (by simp [*])) fun action action' actions => ?_
    exact since_pure starts (by intros; simp [*])
  · have names : (some e).bind Expr.name? = (some e').bind Expr.name? := by
      rw [Option.bind_some, Option.bind_some, ← Expr.name?_move, same, Expr.name?_move]
    have acts : Sim S (K + 1) (.inner level 0) (action? r (some e) start isLabel)
      (action? r' (some e') start' isLabel)
        (optional (.inner level 0) (.outer level 0)) :=
      (expressionStatement_sim rules same starts).map (by simp +contextual)
    rw [names]
    refine .ite (fun _ => failAt_sim starts) fun _ =>
      acts.bind_option (.pure (by simp [*])) fun action action' actions => ?_
    exact since_pure starts (by intros; simp [*])

end Statements

end DreamMaker.Parsing
