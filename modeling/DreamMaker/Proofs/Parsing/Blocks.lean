import DreamMaker.Proofs.Parsing.Expressions

namespace DreamMaker.Parsing

variable {K read : Nat} {S : Setting} {r r' : Rules} {stage : Stage} {token : Token} {q : Parser α}

section Indentation

theorem isLive_of_kind {kind : Token.Kind} (same : token.kind = kind)
    (live : kind ≠ .endOfFile ∧ isDelimiter kind = false) : isLive token = true := by
  simp [isLive, Token.isEnd, same, live]

theorem accept_indent [joint : stage.Joint] : Sim S bound ⟨stage, now, 0⟩ (accept .indent) (accept .indent)
      (either ⟨stage, fun x => now x ∧ x.kind ≠ .indent, 0⟩ ((Stage.inner (stage.level + 1)).past 1)) :=
  .accept ((advance_indent fun _ known => known.2).live (fun _ known => isLive_of_kind known.2 (by decide)))

theorem expect_indent [joint : stage.Joint] :
    Sim S bound ⟨stage, now, 0⟩ (expect .indent message) (expect .indent message)
      fun _ => (Stage.inner (stage.level + 1)).past 1 :=
  .expect ((advance_indent fun _ known => known.2).live (fun _ known => isLive_of_kind known.2 (by decide)))

theorem accept_dedent : Sim S bound ⟨.loose (level + 1), now, 0⟩ (accept .dedent) (accept .dedent)
      (either ⟨.loose (level + 1), fun x => now x ∧ x.kind ≠ .dedent, 0⟩ (.outer level 1)) :=
  .accept ((advance_dedent fun _ known => known.2).restage (by simp))

theorem expect_dedent : Sim S bound ⟨.loose (level + 1), now, 0⟩ (expect .dedent message) (expect .dedent message)
      fun _ => .outer level 1 :=
  .expect ((advance_dedent fun _ known => known.2).restage (by simp))

/-- Inside of an indentation the first source is not read to its end. -/
theorem Sim.inside [Placed α]
    (sim : Sim S bound ⟨.inner (level + 1), now, read⟩ p q post) :
      Sim S bound ⟨.loose (level + 1), now, read⟩ p q post :=
  sim.restage (by simp)

/-- A block in braces may be indented. -/
theorem mayIndent : Sim S bound ⟨.loose level, now, 0⟩ (accept .indent) (accept .indent)
      fun indented => (Stage.loose (level + indented.toNat)).past 0 :=
  accept_indent.last (by rintro (_ | _) <;> simp)

theorem acceptIf_dedent :
    Sim S bound ⟨.loose (level + indented.toNat), now, 0⟩ (acceptIf indented .dedent) (acceptIf indented .dedent)
      fun _ => .loose level 0 := by
  cases indented
  · exact .pure (by simp [*])
  · exact accept_dedent.last (by rintro (_ | _) <;> simp)

theorem expectIf_dedent :
    Sim S bound ⟨.loose (level + indented.toNat), now, 0⟩ (expectIf indented .dedent message)
      (expectIf indented .dedent message)
      fun _ => .loose level 0 := by
  cases indented
  · exact .pure (by simp [*])
  · exact expect_dedent.last (by simp)

theorem newlinesIf_sim :
    Sim S bound ⟨.loose level, now, 0⟩ (newlinesIf allowed) (newlinesIf allowed) fun _ => .loose level 0 :=
  .ite (fun _ => newlines_sim.next (.pure (by simp [*]))) fun _ => .pure (by simp [*])

end Indentation

section Ends

/-- Tokens that end the statements of a block. -/
def closesList (kind : Token.Kind) : Bool := closesBlock kind || kind = .endOfFile

theorem endsBlock_sim [joint : stage.Joint] : TestSim S bound stage now closesList endsBlock := .decide fun _ => rfl

theorem isLive_of_item (known : isDelimiter token.kind = false ∧ closesList token.kind = false) :
    isLive token = true := by
  obtain ⟨item, open_⟩ := known
  simp only [closesList, Bool.or_eq_false_iff] at open_
  simp [isLive, Token.isEnd, item, open_]

theorem stopsSkipping_of_item (known : isDelimiter token.kind = false ∧ closesList token.kind = false) :
    stopsSkipping token.kind = false := by
  obtain ⟨item, open_⟩ := known
  simp only [closesList, Bool.or_eq_false_iff] at open_
  simp [stopsSkipping, item, open_]

theorem closedBlock_sim : Sim S bound ⟨.inner level, now, 0⟩ closedBlock closedBlock fun _ =>
    ⟨.inner level, now, 0⟩ :=
  .look (fun _ => rfl) (fun _ => rfl)
    (fun _ _ inner => by simp [Setting.Inner.kind inner]) fun _ => id

theorem endStatement_eq {isLabel : Bool}
    (ended : (isLabel || closesBlock s.previous.kind || s.current.kind.endsStatement) = true) :
    endStatement isLabel s = (.ok (), s) := by
  show (if isLabel || closesBlock s.previous.kind || s.current.kind.endsStatement then (pure () : Parser Unit)
    else errorHere .unexpectedToken "Expected end of proc statement" >>= recover) s = _
  rw [if_pos ended]
  rfl

theorem endsStatement_of_delimiter {kind : Token.Kind} (delimiter : isDelimiter kind = true) :
    kind.endsStatement = true := by
  cases kind with
  | newline => rfl
  | symbol symbol => cases symbol <;> simp_all [isDelimiter, Token.Kind.endsStatement]
  | _ => simp [isDelimiter] at delimiter

theorem Spent.endsStatement (spent : Spent s) : s.current.kind.endsStatement = true := by
  rcases spent with atEnd | ⟨delimiter, -⟩
  · have kind := kind_of_end atEnd
    rw [kind]
    rfl
  · exact endsStatement_of_delimiter delimiter

theorem endStatement_inner {isLabel : Bool} :
    Sim S bound (.inner level 0) (endStatement isLabel) (endStatement isLabel) fun _ => .loose level 0 := by
  refine closedBlock_sim.bind_plain fun _ => (Sim.test Token.Kind.endsStatement fun _ => rfl).bind_plain fun _ => ?_
  refine .ite (fun _ => .pure (by simp [*])) fun _ => errorHere_sim.bind fun _ _ same =>
    (recover_sim same).last (by simp)

/-- Behind what the first run reads, a statement has ended for both runs. -/
theorem endStatement_sim {isLabel : Bool} (same : isLabel = isLabel') :
    Sim S bound (.outer level 0) (endStatement isLabel) (endStatement isLabel') fun _ => .loose level 0 := by
  subst same
  have inside : Sim S bound (.inner level 0) (endStatement isLabel) (endStatement isLabel) _ := endStatement_inner
  refine ⟨inside.reads, fun s t ends light start together => ?_, fun _ _ _ adrift => adrift.elim, inside.valid⟩
  rcases together with inner | outer
  · exact inside.meets s t ends light start inner
  · rw [endStatement_eq (by simp [outer.spent.endsStatement])]
    exact .inl (.inr ⟨outer.apart, outer.level, outer.spent⟩)

end Ends

section Skipping

theorem Sim.loosenTold [Placed α]
    (sim : Sim S bound ⟨.loose level, now, read⟩ p q post) : Sim S bound ⟨.told level, now, read⟩ p q post :=
  sim.restage (by simp)

theorem skipOver_any :
    Sim S bound ⟨.told level, now, 0⟩ skipOver skipOver fun _ =>
      ⟨.told level, fun x => isDelimiter x.kind = false, 0⟩ :=
  skipStatement_sim.next <| (acceptAll_told (by decide)).bind_plain fun _ => .pure (by simp [*])

/-- What is to be shown may depend on the current token. -/
theorem Sim.either_now [Placed α] (f : Token → Bool)
    (yes : Sim S bound ⟨stage, fun x => now x ∧ f x = true, read⟩ p q post)
    (no : Sim S bound ⟨stage, fun x => now x ∧ f x = false, read⟩ p q post) :
      Sim S bound ⟨stage, now, read⟩ p q post where
  reads s ends start := by
    cases known : f s.current with
    | true => exact yes.reads s ends ⟨start, known⟩
    | false => exact no.reads s ends ⟨start, known⟩
  meets s t ends light start together := by
    cases known : f s.current with
    | true => exact yes.meets s t ends light ⟨start, known⟩ together
    | false => exact no.meets s t ends light ⟨start, known⟩ together
  drifts s ends start adrift := by
    cases known : f s.current with
    | true => exact yes.drifts s ends ⟨start, known⟩ adrift
    | false => exact no.drifts s ends ⟨start, known⟩ adrift
  valid s ends start := by
    cases known : f s.current with
    | true => exact yes.valid s ends ⟨start, known⟩
    | false => exact no.valid s ends ⟨start, known⟩

/-- A reader that stops before a token of another kind has read something. -/
theorem Sim.progress [Placed α]
    (sim : Sim S bound ⟨stage, now, 0⟩ p q fun _ => ⟨stage', after, 0⟩)
    (changed : ∀ token, now token → ¬after token) :
    Sim S bound ⟨stage, now, 0⟩ p q fun _ => (stage'.past 1) := by
  have progress := sim.reads.progress fun _ => .inr changed
  exact (sim.sharpen progress fun _ => rfl).last (by simp)

/-- Where a statement has not come to the end of its block, something is skipped. -/
theorem skipOver_sim (open_ : ∀ token, now token → closesList token.kind = false) :
    Sim S bound ⟨.told level, now, 0⟩ skipOver skipOver fun _ => .told level 1 := by
  refine .either_now (fun token => isDelimiter token.kind) ?_ ?_
  · exact skipOver_any.progress fun _ known => by simp [known.2]
  · have skips : Sim S bound ⟨.told level, fun x => now x ∧ isDelimiter x.kind = false,
      0⟩ skipStatement skipStatement
        fun _ => .told level 1 :=
      skipStatement_sim.progress fun token known => by simp [stopsSkipping_of_item ⟨known.2, open_ token known.1⟩]
    exact skips.next <| (acceptAll_told (by decide)).bind_plain fun _ => .pure (by simp [*])

theorem skipPast_sim (more : ∀ token, now token → token.kind ≠ .dedent ∧ token.kind ≠ .endOfFile) :
    Sim S bound ⟨.told level, now, 0⟩ skipPast skipPast fun _ => .loose level 1 := by
  have rest : Sim S bound ⟨.told level, fun x => now x ∧ x.kind ≠ .symbol .rightBrace, 0⟩ skipOver skipOver
      fun _ => .told level 1 := by
    refine skipOver_sim fun token known => ?_
    obtain ⟨no_dedent, no_end⟩ := more token known.1
    simp [closesList, closesBlock, no_dedent, no_end, known.2]
  exact (accept_sim rfl).branch (.loosen (delimiters_sim.next (.pure (by simp [*])))) (rest.last (by simp))

end Skipping

section Opening

theorem map_some_ne_none (p : Parser α) (s s' : State) : (some <$> p) s ≠ (.ok none, s') := by
  rw [map_eq_pure_bind, Run.bind_eq]
  rcases p s with ⟨error | a, s₁⟩ <;> exact fun same => nomatch same

theorem pure_some_ne_none (a : α) (s s' : State) : (pure (some a) : Parser (Option α)) s ≠ (.ok none, s') :=
  fun same => nomatch same

theorem bind_ne_none {p : Parser β} {f : β → Parser (Option α)} (rest : ∀ b s s', f b s ≠ (.ok none, s'))
    (s s' : State) : (p >>= f) s ≠ (.ok none, s') := by
  rw [Run.bind_eq]
  rcases p s with ⟨_ | b, s₁⟩
  · exact fun same => nomatch same
  · exact rest b s₁ s'

/-- A reader that goes by the two tokens that open a block. -/
theorem Opens.of_accepts {q : Parser (Option α)}
    (kinds : ∀ kind, opensBlock kind = true ↔ kind = first ∨ kind = second)
    (found : ∀ s s', p s ≠ (.ok none, s')) (found' : ∀ s s', q s ≠ (.ok none, s')) :
    Opens (do if ← accept first then p else if ← accept second then q else return none) where
  eq_none s closed := by
    have no_first : s.current.kind ≠ first := fun same => by simp [(kinds _).mpr (.inl same)] at closed
    have no_second : s.current.kind ≠ second := fun same => by simp [(kinds _).mpr (.inr same)] at closed
    rw [Run.bind_eq, run_accept, if_neg no_first]
    show (accept second >>= fun found => if found then q else pure none) s = _
    rw [Run.bind_eq, run_accept, if_neg no_second]
    rfl
  ne_none s s' opened := by
    rw [Run.bind_eq, run_accept]
    by_cases same : s.current.kind = first
    · rw [if_pos same]
      exact found _ _
    have second_ := ((kinds _).mp opened).resolve_left same
    rw [if_neg same]
    show (accept second >>= fun found => if found then q else pure none) s ≠ _
    rw [Run.bind_eq, run_accept, if_pos second_]
    exact found' _ _

theorem blockHere?_opens : Opens (blockHere? r) := by
  refine ⟨fun s _ => ?_, fun s s' opened => ?_⟩
  · rw [blockHere?, Run.bind_of_ok (run_kind s)]
    refine congrFun (g := (pure none : Parser (Option Block))) ?_ s
    split <;> simp_all [opensBlock]
  · have kinds : s.current.kind = .indent ∨ s.current.kind = .symbol .leftBrace := by simpa [opensBlock] using opened
    rw [blockHere?, Run.bind_of_ok (run_kind s)]
    rcases kinds with kind | kind <;> rw [kind] <;> exact map_some_ne_none _ s s'

end Opening

section Blocks

variable (rules : RulesSim K r r')

include rules

theorem statementTurn_sim (same : Alike S.view done done') :
    Sim S K (.loose level 0) (statementTurn r done) (statementTurn r' done')
      (turned (.loose level) fun _ => ⟨.loose level, fun x => closesList x.kind = true, 0⟩) := by
  refine delimiters_sim.next <| endsBlock_sim.branch (.pure (by simp [*])) ?_
  refine Sim.live ?_ fun _ known => isLive_of_item known
  refine (recovering_sim (fun _ known => stopsSkipping_of_item known) rules.statement).bind_option ?_
    fun item item' items => ?_
  · exact .pure (by simp [*])
  · have labels : isLabel item = isLabel item' := by rw [← isLabel_move, items, isLabel_move]
    exact (endStatement_sim labels).next (.pure (by simp [*]))

theorem statements_sim : Sim S K ⟨.loose level, now, 0⟩ (statements r) (statements r')
      fun _ => ⟨.loose level, fun x => closesList x.kind = true, 0⟩ :=
  .rounds (fun _ _ => statementTurn_sim rules) rfl

theorem indentedBraces_sim (starts : Alike S.view start start') :
    Sim S K ((Stage.inner (level + 1)).past 0) (indentedBraces r start) (indentedBraces r' start')
      fun _ => .outer level 0 := by
  refine .loosen ((statements_sim rules).bind fun _ _ _ => (accept_sim rfl).branch ?_ ?_)
  · refine .loosen (newlines_sim.next <| accept_dedent.bind_plain fun closed => ?_)
    cases closed
    · exact since_pure starts (by intros; simp [*])
    · exact since_pure starts (by intros; simp [*])
  · refine expect_dedent.next <| .loosenOuter (newlines_sim.next <| (expect_sim rfl).next ?_)
    exact since_pure starts (by intros; simp [*])

theorem bracedTurn_sim {body : List Statement} (same : Alike S.view body body') :
    TurnSim S K (.loose level) 0 (bracedTurn r body) (bracedTurn r' body') := by
  refine check_sim.branch (.pure (by simp [*])) (check_sim.branch failHere_sim ?_)
  refine errorHere_sim.bind fun _ _ errors => (report_told (toReport_alike errors)).next ?_
  have dedent : Sim S K ⟨.told level, fun x =>
    ((True ∧ x.kind ≠ .symbol .rightBrace) ∧ x.kind ≠ .endOfFile), 0⟩
      (accept .dedent) (accept .dedent) _ := .accept (advance_told fun token known => by simp [Token.isEnd, known.2])
  refine dedent.bind_plain fun closed => ?_
  cases closed
  · refine (skipOver_sim fun token known => ?_).next <| .loosenTold ((statements_sim rules).bind fun _ _ found => ?_)
    · obtain ⟨⟨⟨-, no_brace⟩, no_end⟩, no_dedent⟩ := known
      simp [closesList, closesBlock, no_brace, no_end, no_dedent]
    · exact .pure (by simp [*])
  · refine skipOver_any.next <| .loosenTold ((statements_sim rules).bind fun _ _ found => ?_)
    exact .pure (by simp [*])

theorem bracedBlock_sim : BodySim (K + 1) (bracedBlock r) (bracedBlock r') := by
  refine here_sim.bind fun _ _ starts => (expect_sim rfl).next ?_
  refine .loosen
    (newlines_sim.next <| accept_indent.branch ((indentedBraces_sim rules starts).last_less (by simp) (by simp)) ?_)
  refine (statements_sim rules).bind_less (by simp) fun _ _ firsts => ?_
  refine (Sim.rounds (fun _ _ => bracedTurn_sim rules) firsts).bind_less (by simp) fun _ _ _ =>
    (expect_sim rfl).next ?_
  exact since_pure starts (by intros; simp [*])

theorem indentedTurn_sim {body : List Statement} (same : Alike S.view body body') :
    Sim S K ((Stage.loose (level + 1)).past 0) (indentedTurn r body) (indentedTurn r' body')
      (turned (.loose (level + 1)) fun _ => .outer level 0) := by
  refine accept_dedent.branch (.pure (by simp [*])) (check_sim.branch (.pure (by simp [*])) ?_)
  refine errorHere_sim.bind fun _ _ errors => (report_told (toReport_alike errors)).next ?_
  refine (skipPast_sim fun _ known => ?_).next <| (statements_sim rules).bind fun _ _ _ => ?_
  · exact ⟨known.1.2, known.2⟩
  · exact .pure (by simp [*])

theorem indentedBlock_sim : BodySim (K + 1) (indentedBlock r) (indentedBlock r') := by
  refine here_sim.bind fun _ _ starts => expect_indent.next ?_
  refine .loosen ((statements_sim rules).bind_less (by simp) fun _ _ firsts => ?_)
  refine (Sim.rounds (fun _ _ => indentedTurn_sim rules) firsts).bind_less (by simp) fun _ _ _ => ?_
  exact since_pure starts (by intros; simp [*])

theorem blockHere?_sim : ItemSim (K + 1) (blockHere? r) (blockHere? r') := by
  refine kind_sim.bind_plain fun _ => ?_
  split
  · exact (bracedBlock_sim rules).map (by simp +contextual)
  · exact (indentedBlock_sim rules).map (by simp +contextual)
  · exact .pure (by simp [*])

theorem block?_sim : ItemSim (K + 1) (block? r) (block? r') :=
  beforeBlock_sim blockHere?_opens blockHere?_opens (blockHere?_sim rules)

theorem statementHere?_sim : ItemSim K (statementHere? r) (statementHere? r') :=
  (Sim.test Token.Kind.endsStatement fun _ => rfl).branch (.pure (by simp [*])) rules.statement

theorem body?_sim : ItemSim K (body? r) (body? r') := by
  refine (block?_sim rules).bind_option_less (by simp) ?_ fun _ _ same => .pure (by simp [*])
  refine (statementHere?_sim rules).bind_option (.pure (by simp [*])) fun _ _ same => .pure (by simp [*])

omit rules in
/-- Whether something was found does not matter any more. -/
theorem Sim.forgetItem [Placed α] {q : Parser (Option α)}
    (sim : Sim S bound ⟨.inner level, now, 0⟩ p q (optional (.inner level 0) (.outer level read))) :
    Sim S bound ⟨.inner level, now, 0⟩ p q fun _ => .outer level 0 :=
  sim.last (by rintro (_ | _) <;> simp)

theorem body_sim : OuterSim S K 0 (body r) (body r') := by
  refine behind_sim.bind fun _ _ _ => (body?_sim rules).forgetItem.bind fun _ _ _ => ?_
  exact .pure (by simp [*])

theorem requiredBody_sim : OuterSim S K 0 (requiredBody r) (requiredBody r') := by
  refine behind_sim.bind fun _ _ spans => (body?_sim rules).bind_option ?_ fun _ _ same => .pure ⟨same, by simp⟩
  exact (warn_sim spans).next (.pure (by simp [*]))

theorem loopStatement_sim (heads : Alike S.view head head') :
    OuterSim S K 0 (loopStatement r head) (loopStatement r' head') := by
  refine here_sim.bind fun _ _ _ => (accept_plain rfl).branch (.pure (by simp [*])) ?_
  refine (statementHere?_sim rules).bind_option ?_ fun _ _ _ => .pure (by simp [*])
  exact (warn_sim heads).next (.pure (by simp [*]))

theorem loopBody_sim : OuterSim S K 0 (loopBody r) (loopBody r') := by
  refine behind_sim.bind fun _ _ heads => (block?_sim rules).bind_option_less (by simp) ?_ fun _ _ same =>
    .pure ⟨same, by simp⟩
  exact (loopStatement_sim rules heads).last (by simp)

end Blocks

end DreamMaker.Parsing
