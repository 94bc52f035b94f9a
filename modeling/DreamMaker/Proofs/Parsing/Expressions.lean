import DreamMaker.Proofs.Parsing.Strings

namespace DreamMaker.Parsing

variable {op : UnaryOp} {S : Setting} {read bound level K : Nat} {now : Token → Prop} {kind : Token.Kind}
  {start' span start : Span} {token : Token} {r r' : Rules} {e e' : Expr}

/-- A token of a kind that the reader looks at is read. -/
theorem advance_kind (plain : isPlain kind = true) :
    Sim S bound ⟨.inner level, fun x => now x ∧ x.kind = kind, 0⟩ advance advance fun _ => .inner level 1 :=
  advance_plain fun _ known => known.2 ▸ plain

/-- Inside of a line any token of the line may be read. -/
theorem accept_plain (plain : isPlain wanted = true) :
    Sim S bound ⟨.inner level, now, 0⟩ (accept wanted) (accept wanted)
      (either ⟨.inner level, fun x => now x ∧ x.kind ≠ wanted, 0⟩ (.inner level 1)) :=
  .accept (advance_kind plain)

/-- Whether a test holds does not matter any more. -/
theorem Sim.ignore (start : pre.read = 0) (sim : Sim S bound pre p q (either ⟨stage, known, 0⟩ (stage.past read))) :
    Sim S bound pre p q fun _ => stage.past 0 := by
  obtain ⟨_, _, none_read⟩ := pre
  obtain rfl : none_read = 0 := start
  exact sim.last (by rintro (_ | _) <;> simp)

section Builtins

theorem weighted_sim {weight value : Expr} (weights : Alike S.view weight weight')
    (values : Alike S.view value value') :
    Sim S bound ⟨stage, now, 0⟩ (weighted weight value) (weighted weight' value') fun _ => ⟨stage, now, 0⟩ := by
  have probs : Alike S.view (probWeight? weight) (probWeight? weight') := by simp [weights]
  have spans : Alike S.view weight.span weight'.span := by simp [weights]
  unfold weighted
  cases prob : probWeight? weight <;> cases prob' : probWeight? weight' <;>
    rw [prob, prob'] at probs <;> simp at probs
  · exact (warn_sim spans).next (.pure (by simp [*]))
  · exact .pure (by simp [*])

theorem callExpression_sim (same : Alike S.view args args') (spans : Alike S.view span span') :
    Sim S bound ⟨stage, now, read⟩ (callExpression name args span) (callExpression name args' span')
      fun _ => ⟨stage, now, read⟩ := by
  have nodes : Alike S.view (callNode name args) (callNode name args') := by
    rw [Alike, move_callNode, move_callNode, same]
  unfold callExpression
  cases node : callNode name args <;> cases node' : callNode name args' <;>
    rw [node, node'] at nodes <;> simp at nodes
  · subst nodes
    exact failAt_sim spans
  · exact .pure (by simp [*])

variable (rules : RulesSim K r r')

include rules

theorem choice_sim : ExprSim (K + 1) (choice r) (choice r') := by
  refine (expression_sim rules).bind fun _ _ firsts => (accept_plain rfl).branch ?_ (.pure (by simp [*]))
  refine (expression_sim rules).bind fun _ _ values => ?_
  exact (weighted_sim firsts values).last (by simp)

theorem choiceTurn_sim (same : Alike S.view values values') :
    TurnSim S (K + 1) (.inner level) 0 (choiceTurn r values) (choiceTurn r' values') := by
  refine check_sim.branch (.pure (by simp [*])) ?_
  refine (choice_sim rules).bind fun _ _ _ => ?_
  exact (accept_sim rfl).branch (.pure (by simp [*])) (.pure (by simp [*]))

theorem choices_sim : ExprSim (K + 2) (choices r) (choices r') := by
  intro _ _ _
  refine here_sim.bind fun _ _ starts => (expect_sim rfl).next ?_
  refine (Sim.rounds (fun _ _ => choiceTurn_sim rules) rfl).bind_less (by simp) fun values values' same => ?_
  refine (expect_sim rfl).next <| (since_sim starts).bind fun _ _ spans => ?_
  have empty : values.isEmpty = values'.isEmpty := by rw [← isEmpty_move, same, isEmpty_move]
  rw [empty]
  exact .ite (fun _ => failAt_sim spans) fun _ => .pure ⟨same, by simp⟩

theorem locateIn_sim (same : Alike S.view xs ys) (starts : Alike S.view start start') :
    InnerSim S (K + 2) 0 (locateIn r xs start) (locateIn r' ys start') := by
  intro _ _
  have lengths : xs.length = ys.length := by rw [← length_move, same, length_move]
  unfold locateIn
  rw [lengths]
  refine .ite (fun _ => (since_sim starts).bind fun _ _ spans => failAt_sim spans) fun _ => ?_
  refine (expressionAfter?_sim rules rfl (by simp [same])).bind fun _ _ _ => ?_
  exact since_pure starts (by intros; simp [*])

theorem locate_sim (same : Alike S.view args args') (starts : Alike S.view start start') :
    InnerSim S (K + 2) 0 (locate r args start) (locate r' args' start') := by
  intro _ _
  have values : move S.view (args.map Argument.value) = move S.view (args'.map Argument.value) := by simp [same]
  unfold locate
  generalize args.map Argument.value = xs, args'.map Argument.value = ys at values
  have lengths : xs.length = ys.length := by rw [← length_move, values, length_move]
  by_cases three : xs.length = 3
  · obtain ⟨_, _, _, rfl⟩ := List.length_eq_three.mp three
    obtain ⟨_, _, _, rfl⟩ := List.length_eq_three.mp (lengths ▸ three)
    simp only [move_cons, List.cons.injEq] at values
    exact since_pure starts (by intros; simp [*])
  · split
    · exact absurd rfl three
    · split
      · exact absurd lengths three
      · exact locateIn_sim rules values starts

theorem input_sim (same : Alike S.view args args') (starts : Alike S.view start start') :
    InnerSim S (K + 2) 0 (input r args start) (input r' args' start') := by
  refine types?_sim.forget.bind_plain fun _ => (expressionAfter?_sim rules rfl rfl).bind fun _ _ _ => ?_
  exact since_pure starts (by intros; simp [*])

theorem namedCall_sim (starts : Alike S.view start start') :
    InnerSim S (K + 2) 1 (namedCall r name start) (namedCall r' name start') := by
  refine .ite (fun _ => ?_) fun _ => (arguments_sim rules).bind fun _ _ same => ?_
  · refine (choices_sim rules).bind fun _ _ same => ?_
    exact since_pure starts (by intros; simp [*])
  · refine .ite (fun _ => (input_sim rules same starts).last (by simp)) fun _ => ?_
    refine .ite (fun _ => (locate_sim rules same starts).last (by simp)) fun _ => ?_
    exact (since_sim starts).bind fun _ _ spans => (callExpression_sim same spans).last (by simp)

end Builtins

section Paths

theorem braceTurn_sim : Sim S bound (.told level 0) (braceTurn a) (braceTurn b)
      (turned (.told level) fun _ => .told level 0) := by
  refine (Sim.test (fun kind => decide (kind = .symbol .rightBrace)) fun _ => rfl).bind_plain fun _ => ?_
  refine (Sim.test (fun kind => decide (kind = .endOfFile)) fun _ => rfl).bind_plain fun ended =>
    .ite (fun _ => .pure (by simp [*])) fun _ => ?_
  refine (advance_told fun _ known => ?_).next (.pure (by simp [*]))
  have going : ended = false := by cases ended <;> simp_all
  simpa [Token.isEnd, going] using known.2

theorem modifiedType_sim (same : Alike S.view e e') : InnerSim S bound 0 (modifiedType e) (modifiedType e') := by
  intro _ _
  have starts : Alike S.view e.span e'.span := by simp [same]
  refine check_sim.branch ?_ (.pure ⟨same, by simp⟩)
  refine here_sim.bind fun _ _ places => (warn_told places).next ?_
  refine (Sim.rounds (fun _ _ _ => braceTurn_sim) rfl).next <| (expect_sim rfl).next ?_
  exact since_pure starts (by intros; simp [*])

theorem acceptTouching_sim (proper : isProper (.symbol symbol) = true) :
    Sim S bound ⟨.inner level, now, 0⟩ (acceptTouching symbol) (acceptTouching symbol)
      (either (.inner level 0) (.inner level 1)) := by
  refine .current fun _ _ _ => .ite (fun _ => .pure (by simp [*])) fun _ => ?_
  exact (accept_sim proper).last (by rintro (_ | _) <;> simp)

theorem searchedPath_sim : TailSim bound (searchedPath path searched) (searchedPath path searched) := by
  refine .ite (fun _ => ?_) fun _ => .pure (by simp [*])
  refine path?_sim.bind_option_plain failHere_sim fun _ => ?_
  exact .pure (by simp [*])

theorem pathExpression_sim (starts : Alike S.view start start') :
    InnerSim S bound 0 (pathExpression path start) (pathExpression path start') := by
  refine ((acceptTouching_sim rfl).ignore rfl).bind_plain fun _ => searchedPath_sim.bind fun _ _ nodes => ?_
  exact (since_sim starts).bind fun _ _ spans => (modifiedType_sim (by simpa [spans] using nodes)).last (by simp)

theorem declaredVar_sim (starts : Alike S.view start start') :
    InnerSim S bound 1 (declaredVar start) (declaredVar start') := by
  refine path?_sim.bind_option_plain failHere_sim fun path => ?_
  dsimp only
  cases (Modifiers.split path.segments.tail).2.getLast? with
  | none => exact failAt_sim starts
  | some _ => exact since_pure starts (by intros; simp [*])

theorem constant_sim {value : Literal} (spans : Alike S.view span span')
    (plain : ∀ token, now token → isPlain token.kind = true) :
    Sim S bound ⟨.inner level, now, 0⟩ (constant value span) (constant value span')
      (optional (.inner level 0) (.inner level 1)) :=
  (advance_plain plain).next (.pure (by simp [*]))

theorem pathBehind?_sim : TailSim bound (pathBehind? mark) (pathBehind? mark) := by
  unfold pathBehind?
  split
  · exact (accept_sim rfl).branch (segments?_sim.forget.last (by simp)) (segments?_sim.forget.last (by simp))
  · exact segments?_sim.forget
  · exact segments?_sim.forget

theorem advance_handBack_eq (p : Parser (Option α)) :
    (do advance; let found? ← p; handBackIf found?.isNone token; return found? : Parser (Option α)) s =
      match p s.advance with
      | (.ok none, s₁) => (.ok none, s₁.handBack token)
      | (.ok (some a), s₁) => (.ok (some a), s₁)
      | (.error error, s₁) => (.error error, s₁) := by
  rw [Run.bind_of_ok (run_advance s), Run.bind_eq]
  rcases p s.advance with ⟨_ | _ | _, s₁⟩ <;> rfl

/-- A token is read, and handed back if nothing is found behind it. -/
theorem Sim.handBack [Placed α] {p q : Parser (Option α)} {token' : Token}
    (plain : isPlain token.kind = true) (same : Alike S.view token token')
    (sim : Sim S bound (.inner level 0) p q fun _ => .inner level 0) :
    Sim S bound ⟨.inner level, fun x => now x ∧ x = token, 0⟩
      (do Parsing.advance; let found? ← p; handBackIf found?.isNone token; return found?)
      (do Parsing.advance; let found? ← q; handBackIf found?.isNone token'; return found?)
      (optional ⟨.inner level, fun x => now x ∧ x = token, 0⟩ (.inner level 1)) where
  reads s ends start := by
    obtain ⟨known, rfl⟩ := start
    have more := more_of_plain plain
    have first := Later.advance ends more
    have fewer := Later.length_advance ends more
    obtain ⟨later, ok⟩ := sim.reads s.advance first.ends trivial
    rw [advance_handBack_eq]
    rcases run : p s.advance with ⟨error | _ | a, s₁⟩ <;> rw [run] at later ok
    · exact ⟨first.trans later, fun _ failed => nomatch failed⟩
    · have back := later.handBack ends more
      refine ⟨back, fun a same => ?_⟩
      cases same
      exact ⟨back.tokens.length_le, known, rfl⟩
    · have shorter := (ok _ rfl).1
      refine ⟨first.trans later, fun a same => ?_⟩
      cases same
      exact ⟨by dsimp only [optional] at shorter ⊢; omega, trivial⟩
  meets s t ends light start together := by
    obtain ⟨known, rfl⟩ := start
    have more := more_of_plain plain
    have first := Later.advance ends more
    have weigh := first.weight_add
    have fewer := Later.length_advance ends more
    have inner := Setting.Inner.advance_plain together ends plain
    have valid : isInvalid token' = false := by
      obtain ⟨_, rfl, -⟩ := exists_span_of_alike ((Setting.Inner.head together).symm.trans same)
      exact Setting.Inner.valid together
    have met := sim.meets s.advance t.advance first.ends (by dsimp only at light ⊢; omega) trivial inner
    rw [advance_handBack_eq, advance_handBack_eq]
    rcases met with alone | joint
    · left
      rcases run : p s.advance with ⟨error | _ | a, s₁⟩ <;> rw [run] at alone
      · exact alone
      · exact .inl (alone.resolve_right id)
      · exact alone
    · right
      rcases run : p s.advance with ⟨error | _ | a, s₁⟩ <;>
        rcases run' : q t.advance with ⟨error' | _ | b, t₁⟩ <;>
        rw [run, run'] at joint
      · exact joint
      · exact joint.elim
      · exact joint.elim
      · exact joint.elim
      · exact ⟨rfl, Setting.Inner.handBack joint.2 valid same (flat_of_plain plain)⟩
      · exact absurd joint.1 (by simp)
      · exact joint.elim
      · exact absurd joint.1 (by simp)
      · exact joint
  drifts _ _ _ adrift := adrift.elim
  valid s ends start valid := by
    obtain ⟨-, rfl⟩ := start
    have first := Later.advance ends (more_of_plain plain)
    refine .bind (.change valid .advance (first.valid valid)) fun _ _ => ?_
    refine sim.andThen first.ends trivial (first.valid valid) fun found? _ valid' => ?_
    exact (Throughout.handBackIf valid' valid _).andPure fun _ => found?

theorem isPlain_of_marksPath (marks : marksPath kind = true) : isPlain kind = true := by
  cases kind <;> simp_all [marksPath, isPlain]

theorem markedPath?_sim (spans : S.view token.span = S.view span) :
    Sim S bound ⟨.inner level, fun x => now x ∧ x = token, 0⟩ (markedPath? token)
      (markedPath? { token with span })
      (optional ⟨.inner level, fun x => now x ∧ x = token, 0⟩ (.inner level 1)) := by
  refine .ite (fun marks => ?_) fun _ => .pure (by simp [*])
  refine .handBack (isPlain_of_marksPath marks) ?_ pathBehind?_sim
  show ({ token with span := S.view token.span } : Token) = { token with span := S.view span }
  rw [spans]

theorem isPlain_of_linkStart (starts : LinkStart.of token.kind token.spaced ≠ .nothing) :
    isPlain token.kind = true := by
  cases kind : token.kind <;> simp_all [LinkStart.of, isPlain]

theorem isPlain_of_postfix (operator : postfixOf? kind = some op) : isPlain kind = true := by
  cases kind <;> simp_all [postfixOf?, isPlain]

theorem isPlain_of_unary (operator : unaryOf? kind = some op) : isPlain kind = true := by
  cases kind <;> simp_all [unaryOf?, isPlain]

theorem isPlain_of_operator {op : BinaryOp} (operator : operatorOf? ops kind = some op) : isPlain kind = true := by
  cases kind <;> simp_all [operatorOf?, isPlain]

theorem isPlain_of_assignment {op : AssignOp} (operator : assignmentOf? kind = some op) : isPlain kind = true := by
  cases kind <;> simp_all [assignmentOf?, isPlain]

end Paths

section Values

/-- A reader of a token may go by what the token weighs. -/
theorem Sim.weigh [Placed α] {post : α → Point}
    (self : Sim S' bound' ⟨.inner level, fun x => now x ∧ x = token, 0⟩ p p post)
    (sim : weight token < bound → Sim S bound ⟨.inner level, fun x => now x ∧ x = token, 0⟩ p q post) :
    Sim S bound ⟨.inner level, fun x => now x ∧ x = token, 0⟩ p q post where
  reads := self.reads
  meets s t ends light start together := by
    have part : weight token ≤ s.weight := by
      rw [← start.2]
      exact List.le_sum_of_mem (List.mem_map_of_mem List.mem_cons_self)
    exact (sim (by dsimp only at light; omega)).meets s t ends light start together
  drifts _ _ _ adrift := adrift.elim
  valid := self.valid

variable (rules : RulesSim K r r')

include rules

section

variable (starts : Alike S.view start start')

include starts

theorem scopeTurn_sim (same : Alike S.view base? base?') :
    TurnSim S (K + 2) (.inner level) 0 (scopeTurn r start base?) (scopeTurn r' start' base?') := by
  refine .current fun _ _ spans => .ite (fun name => ?_) fun _ => ?_
  · refine (advance_token (isPlain_of_name name)).next ?_
    refine (arguments?_sim rules).forget.bind fun _ _ _ => (since_sim starts).bind fun _ _ _ => ?_
    exact (acceptTouching_sim rfl).branch (.pure (by simp [*])) (.pure (by simp [*]))
  · exact (warn_sim spans).next (.pure (by simp [*]))

theorem scope_sim (same : Alike S.view base? base?') :
    InnerSim S (K + 2) 0 (scope r base? start) (scope r' base?' start') :=
  .rounds (fun _ _ => scopeTurn_sim rules starts) same

theorem dynamicCall_sim : InnerSim S (K + 2) 1 (dynamicCall r start) (dynamicCall r' start') := by
  refine (arguments_sim rules).bind fun callee callee' same => (since_sim starts).bind fun _ _ spans => ?_
  have lengths : callee.length = callee'.length := by rw [← length_move, same, length_move]
  have empty : callee.isEmpty = callee'.isEmpty := by rw [← isEmpty_move, same, isEmpty_move]
  rw [lengths, empty]
  refine .ite (fun _ => failAt_sim spans) fun _ => (arguments_sim rules).bind fun _ _ _ => ?_
  exact since_pure starts (by intros; simp [*])

theorem grouped_sim : InnerSim S (K + 1) 1 (grouped r start) (grouped r' start') := by
  refine (expression?_sim rules).forget.bind fun _ _ _ => (expect_sim rfl).next ?_
  exact since_pure starts (by intros; simp [*])

theorem nameOrCall_sim :
    InnerSim S (K + 2) 0 (nameOrCall r name start allowCalls) (nameOrCall r' name start' allowCalls) := by
  refine (Sim.test (fun kind => decide (kind = .symbol .leftParen)) fun _ => rfl).bind_plain fun _ => ?_
  exact .ite (fun _ => (namedCall_sim rules starts).last (by simp)) fun _ => .pure (by simp [*])

theorem selfOrResult_sim : InnerSim S (K + 2) 0 (selfOrResult r start) (selfOrResult r' start') := by
  refine (arguments?_sim rules).bind_option (.pure (by simp [*])) fun _ _ _ => ?_
  exact since_pure starts (by intros; simp [*])

end

theorem stringToken_sim (spans : S.view token.span = S.view span) (string : token.kind = .string) :
    Sim S (K + 2) ⟨.inner level, fun x => now x ∧ x = token, 0⟩ (do advance; some <$> stringLiteral r token)
      (do advance; some <$> stringLiteral r' { token with span })
      (optional (.inner level 0) (.inner level 1)) := by
  have plain : isPlain token.kind = true := by rw [string]; rfl
  have self : Sim .identical 0 ⟨.inner level, fun x => now x ∧ x = token, 0⟩
    (do advance; some <$> stringLiteral r token)
      (do advance; some <$> stringLiteral r token) (optional (.inner level 0) (.inner level 1)) :=
    (advance_token plain).next <| (stringLiteral_sim rfl fun _ _ => .refl).map (by simp +contextual)
  refine .weigh self fun light => (advance_token plain).next ?_
  rw [weight, if_pos string] at light
  refine (stringLiteral_sim spans fun _ member => ?_).map (by simp +contextual)
  exact sameHole_of_light rules spans (by omega) member

theorem plainPrimary?_sim (spans : S.view token.span = S.view span) :
    Sim S (K + 2) ⟨.inner level, fun x => now x ∧ x = token, 0⟩ (plainPrimary? r token allowCalls)
      (plainPrimary? r' { token with span } allowCalls) (optional (.inner level 0) (.inner level 1)) := by
  have plain : ∀ {kind : Token.Kind}, token.kind = kind → isPlain kind = true → isPlain token.kind = true :=
    fun same plain => same ▸ plain
  have constants : ∀ {kind : Token.Kind} {value : Literal}, token.kind = kind → isPlain kind = true →
      Sim S (K + 2) ⟨.inner level, fun x => now x ∧ x = token, 0⟩
        (constant value token.span) (constant value span)
        (optional (.inner level 0) (.inner level 1)) :=
    fun same proper => constant_sim spans fun _ known => known.2 ▸ plain same proper
  unfold plainPrimary?
  dsimp only
  split <;> rename_i kind
  · refine (advance_token (plain kind rfl)).next ?_
    exact (grouped_sim rules spans).map_less (by simp) (by simp +contextual)
  · refine declares_sim.branch ?_ (.pure (by simp [*]))
    exact (declaredVar_sim spans).map (by simp +contextual)
  · exact constants kind rfl
  · exact constants kind rfl
  · exact constants kind rfl
  · exact constants kind rfl
  · exact constants kind rfl
  · exact stringToken_sim rules spans kind
  · have looks : ∀ x, now x ∧ x = token → isPlain x.kind = true := fun _ known => known.2 ▸ plain kind rfl
    exact (splitString_sim rules looks).map (by simp +contextual)
  · refine (advance_token (plain kind rfl)).next ?_
    exact (nameOrCall_sim rules spans).map (by simp +contextual)
  · refine (advance_token (plain kind rfl)).next ?_
    exact (nameOrCall_sim rules spans).map (by simp +contextual)
  · refine (advance_token (plain kind rfl)).next <| (arguments_sim rules).bind fun _ _ same => ?_
    exact since_pure spans (by intros; simp [*])
  · refine (advance_token (plain kind rfl)).next ?_
    exact (selfOrResult_sim rules spans).map (by simp +contextual)
  · refine (advance_token (plain kind rfl)).next ?_
    exact (scope_sim rules spans rfl).map (by simp +contextual)
  · refine (advance_token (plain kind rfl)).next ?_
    exact (dynamicCall_sim rules spans).map (by simp +contextual)
  · exact .pure (by simp [*])

theorem primary?_sim : FindSim (K + 2) (primary? r allowCalls) (primary? r' allowCalls) := by
  refine .current fun _ _ spans => (markedPath?_sim spans).bind_option_plain ?_ fun _ => ?_
  · exact plainPrimary?_sim rules spans
  · exact (pathExpression_sim spans).map (by simp +contextual)

theorem indexLink_sim (spans : S.view token.span = S.view span) (plain : isPlain token.kind = true) :
    Sim S (K + 2) ⟨.inner level, fun x => now x ∧ x = token, 0⟩ (indexLink r token allowCalls)
      (indexLink r' { token with span } allowCalls) fun _ => .inner level 1 := by
  refine (advance_token plain).next <| (expression_sim rules).bind_less (by simp) fun _ _ _ => ?_
  refine (expect_sim rfl).next <| (since_sim spans).bind fun _ _ _ => ?_
  refine (Sim.test (fun kind => decide (kind = .symbol .leftParen)) fun _ => rfl).bind_plain fun _ =>
    .ite (fun _ => ?_) fun _ => ?_
  · refine here_sim.bind fun _ _ calls => (warn_sim calls).next <| (arguments_sim rules).next ?_
    exact .pure (by simp [*])
  · exact .pure (by simp [*])

theorem argumentsIf?_sim : TailSim (K + 2) (argumentsIf? r allowed) (argumentsIf? r' allowed) :=
  .ite (fun _ => (arguments?_sim rules).forget) fun _ => .pure (by simp [*])

theorem nameLink_sim (spans : S.view token.span = S.view span)
    (plain : isPlain token.kind = true) :
    Sim S (K + 2) ⟨.inner level, fun x => now x ∧ x = token, 0⟩ (nameLink r token searched safe allowCalls)
      (nameLink r' { token with span } searched safe allowCalls) fun _ => .inner level 1 := by
  refine (advance_token plain).next <| .current fun _ _ places => .ite (fun isName => ?_) fun _ => ?_
  · refine (advance_token (isPlain_of_name isName)).next <| (argumentsIf?_sim rules).bind fun _ _ _ => ?_
    exact since_pure spans (by intros; simp [*])
  · exact (warn_sim places).next <| .pure ⟨by simp [show Alike S.view token.span span from spans], by simp⟩

theorem linkTurn_sim (same : Alike S.view so so') :
    TurnSim S (K + 2) (.inner level) 0 (linkTurn r allowCalls so) (linkTurn r' allowCalls so') := by
  obtain ⟨base, links⟩ := so
  obtain ⟨base', links'⟩ := so'
  obtain ⟨bases, more⟩ := Prod.mk.inj same
  have stays : Sim S (K + 2) (.inner level 0)
    (pure (.stop (linked base links)) : Parser (Turn (Expr × List Link) Expr))
      (pure (.stop (linked base' links'))) (turned (.inner level) fun _ => .inner level 0) :=
    .pure (by simp [*])
  have joins : ∀ a b : Except Expr Link, Alike S.view a b →
      Alike S.view (joined base links a) (joined base' links' b) := by
    intro a b same
    rw [Alike, move_joined, move_joined, same]
    exact congrArg₂ (fun base links => joined base links _) bases more
  have goes_on : ∀ {now : Token → Prop} {p q : Parser (Except Expr Link)},
      Sim S (K + 2) ⟨.inner level, now, 0⟩ p q (fun _ => .inner level 1) →
      Sim S (K + 2) ⟨.inner level, now, 0⟩ (joined base links <$> p) (joined base' links' <$> q)
        (turned (.inner level) fun _ => .inner level 0) := by
    intro now p q sim
    exact sim.map fun a b same => ⟨joins a b same, by cases a <;> simp [joined]⟩
  refine .current fun token _ spans => ?_
  cases starts : LinkStart.of token.kind token.spaced with
  | index => exact goes_on (indexLink_sim rules spans (isPlain_of_linkStart (by simp [starts])))
  | scope =>
    refine (advance_token (isPlain_of_linkStart (by simp [starts]))).next ?_
    exact (scope_sim rules (by simp [bases]) (by simp [bases, more])).bind fun _ _ _ => .pure (by simp [*])
  | name _ _ => exact goes_on (nameLink_sim rules spans (isPlain_of_linkStart (by simp [starts])))
  | colon =>
    have plain : isPlain token.kind = true := isPlain_of_linkStart (by simp [starts])
    have looks : ∀ x, True ∧ x = token → isPlain x.kind = true := fun _ known => known.2 ▸ plain
    have constants : base.isConstant = base'.isConstant := by rw [← Expr.isConstant_move, bases, Expr.isConstant_move]
    have empty : links.isEmpty = links'.isEmpty := by rw [← isEmpty_move, more, isEmpty_move]
    refine (peek_sim looks).bind_plain fun _ => ?_
    rw [constants, empty]
    exact .ite (fun _ => stays.enter (by simp) (by simp)) fun _ => goes_on (nameLink_sim rules spans plain)
  | nothing => exact stays.enter (by simp) (by simp)

theorem links_sim (same : Alike S.view base base') :
    InnerSim S (K + 2) 0 (links r base allowCalls) (links r' base' allowCalls) :=
  .rounds (fun _ _ => linkTurn_sim rules) (by simp [same])

theorem createdType?_sim : TailSim (K + 2) (createdType? r) (createdType? r') :=
  check_sim.branch (.pure (by simp [*])) ((primary?_sim rules).forget.last (by simp))

theorem newTarget_sim (same : Alike S.view type? type?') :
    InnerSim S (K + 2) 0 (newTarget r type?) (newTarget r' type?') := by
  cases type? <;> cases type?' <;> simp at same
  · exact .pure (by simp [*])
  · exact (links_sim rules same).bind fun _ _ _ => .pure (by simp [*])

theorem creation_sim : TailSim (K + 2) (creation r) (creation r') := by
  refine behind_sim.bind fun _ _ starts => (createdType?_sim rules).bind fun _ _ types => ?_
  refine (newTarget_sim rules types).bind fun _ _ targets => (arguments?_sim rules).forget.bind fun _ _ args => ?_
  exact (since_sim starts).bind fun _ _ spans => links_sim rules (by simp [targets, args, spans])

theorem value_sim : ExprSim (K + 2) (value r) (value r') := by
  refine (accept_sim rfl).branch ((creation_sim rules).last (by simp)) ?_
  exact (primary?_sim rules).bind_option failHere_sim fun _ _ same => (links_sim rules same).last (by simp)

theorem postfixed_sim : ExprSim (K + 2) (postfixed r) (postfixed r') := by
  refine (value_sim rules).bind fun _ _ same => kind_sim.bind_plain fun kind => ?_
  cases operator : postfixOf? kind with
  | none => exact .pure ⟨same, by simp⟩
  | some _ =>
    have plain := isPlain_of_postfix operator
    refine (advance_kind plain).next ?_
    exact since_pure (by simp [same]) (by intros; simp [*])

theorem sign_sim : ExprSim (K + 2) (sign r) (sign r') := by
  refine here_sim.bind fun _ _ _ => (accept_sim rfl).branch ?_ ((accept_sim rfl).branch ?_ ?_)
  · exact rules.sign.last_less (by simp) (by simp)
  · exact rules.sign.bind_less (by simp) fun _ _ _ => .pure (by simp [*])
  · exact (postfixed_sim rules).last (by simp)

theorem operand_sim : ExprSim (K + 1) (operand r op) (operand r' op) :=
  .ite (fun _ => (postfixed_sim rules).last_less (by simp) (by simp)) fun _ => rules.unary

theorem unary_sim : ExprSim (K + 2) (unary r) (unary r') := by
  refine here_sim.bind fun _ _ _ => kind_sim.bind_plain fun kind => ?_
  cases operator : unaryOf? kind with
  | none => exact (sign_sim rules).last (by simp)
  | some _ =>
    have plain := isPlain_of_unary operator
    refine (advance_kind plain).next <| (operand_sim rules).bind_less (by simp) fun _ _ _ => ?_
    exact .pure (by simp [*])

theorem power_sim : ExprSim (K + 2) (power r) (power r') := by
  refine (unary_sim rules).bind fun _ _ lefts => (accept_sim rfl).branch ?_ (.pure ⟨lefts, by simp⟩)
  exact rules.power.bind_less (by simp) fun _ _ _ => .pure (by simp [*])

omit rules in
theorem binaryTurn_sim {operand : Parser Expr} (sim : ExprSim (K + 2) operand operand')
    (lefts : Alike S.view left left') :
    TurnSim S (K + 2) (.inner level) 0 (binaryTurn operand ops left) (binaryTurn operand' ops left') := by
  refine kind_sim.bind_plain fun kind => ?_
  cases operator : operatorOf? ops kind with
  | none => exact .pure (by simp [*])
  | some _ =>
    have plain := isPlain_of_operator operator
    refine (advance_kind plain).next <| sim.bind fun _ _ _ => ?_
    exact .pure (by simp [*])

omit rules in
theorem binaryLevel_sim {operand : Parser Expr}
    (sim : ExprSim (K + 2) operand operand') : ExprSim (K + 2) (binaryLevel operand ops) (binaryLevel operand' ops) :=
  sim.bind fun _ _ same => (Sim.rounds (fun _ _ => binaryTurn_sim sim) same).last (by simp)

theorem binary_sim : ExprSim (K + 2) (binary r) (binary r') := by
  have levels : ∀ (levels : List (List (Symbol × BinaryOp))) {operand operand' : Parser Expr}, ExprSim
    (K + 2) operand operand' →
      ExprSim (K + 2) (levels.foldl binaryLevel operand) (levels.foldl binaryLevel operand') := by
    intro levels
    induction levels with
    | nil => exact fun sim => sim
    | cons _ levels ih => exact fun sim => ih (binaryLevel_sim sim)
  intro _ _ _
  exact levels binaryLevels (power_sim rules)

theorem alternatives_sim (same : Alike S.view yes yes') :
    InnerSim S (K + 2) 0 (alternatives r yes) (alternatives r' yes') := by
  refine (accept_sim rfl).branch (rules.ternary.bind_less (by simp) fun _ _ _ => .pure (by simp [*])) ?_
  have parts : Alike S.view (unwind? yes) (unwind? yes') := by simp [same]
  cases left : unwind? yes <;> cases right : unwind? yes' <;> rw [left, right] at parts <;>
    simp only [Alike, move_some, Option.some.injEq, reduceCtorEq, move_none] at parts
  · exact failHere_sim
  · exact .pure ⟨parts, by simp⟩

theorem ternary_sim : ExprSim (K + 2) (ternary r) (ternary r') := by
  refine (binary_sim rules).bind fun _ _ conditions => (accept_sim rfl).branch ?_ (.pure ⟨conditions, by simp⟩)
  refine rules.ternary.bind_less (by simp) fun yes yes' same =>
    (alternatives_sim rules same).bind fun parts parts' both => ?_
  obtain ⟨yes, _⟩ := parts
  obtain ⟨yes', _⟩ := parts'
  simp only [Alike, move_pair, Prod.mk.injEq] at both
  exact since_pure (by simp [conditions]) (by intros; simp [*])

theorem step?_sim : TailSim (K + 2) (step? r) (step? r') :=
  (accept_sim rfl).branch ((ternary_sim rules).bind fun _ _ _ => .pure (by simp [*])) (.pure (by simp [*]))

theorem membershipTurn_sim (same : Alike S.view e e') :
    TurnSim S (K + 2) (.inner level) 0 (membershipTurn r e) (membershipTurn r' e') := by
  refine (accept_sim rfl).branch ?_ (.pure (by simp [*]))
  refine (ternary_sim rules).bind fun _ _ _ => (accept_sim rfl).branch ?_ ?_
  · refine (ternary_sim rules).bind fun _ _ _ => (step?_sim rules).bind fun _ _ _ => ?_
    exact since_pure (by simp [same]) (by intros; simp [*])
  · exact .pure (by simp [*])

theorem membership_sim : ExprSim (K + 2) (membership r) (membership r') :=
  (ternary_sim rules).bind fun _ _ same => (Sim.rounds (fun _ _ => membershipTurn_sim rules) same).last (by simp)

theorem assignment_sim : ExprSim (K + 2) (assignment r) (assignment r') := by
  refine (membership_sim rules).bind fun _ _ targets => kind_sim.bind_plain fun kind => ?_
  cases operator : assignmentOf? kind with
  | none => exact .pure ⟨targets, by simp⟩
  | some _ =>
    have plain := isPlain_of_assignment operator
    refine (advance_kind plain).next <| rules.assignment.bind_less (by simp) fun _ _ _ => ?_
    exact .pure (by simp [*])

end Values

end DreamMaker.Parsing
