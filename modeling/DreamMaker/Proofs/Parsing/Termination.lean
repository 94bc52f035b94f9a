import DreamMaker.Proofs.Parsing.Files

/-!
Reading a file comes to an end: it never fails, and it stops at the end of the file. Every turn of a loop that does
not leave it reads a token, and a hole of a string is shorter than the string, so how deep phrases are nested is
bounded by the length of the source.
-/

namespace DreamMaker.Parsing

open SourceFile

variable {stage : Stage} {S : Setting}

section Total

variable {σ : Type}

/-- A reader that never gives up. -/
def Total (p : Parser α) : Prop :=
  ∀ s : State, EndsOnce s.tokens → ∃ a, (p s).1 = .ok a ∧ EndsOnce (p s).2.tokens

theorem Total.pure (a : α) : Total (Pure.pure a : Parser α) := fun _ ends => ⟨a, rfl, ends⟩

theorem Total.bind (first : Total p) (rest : ∀ a, Total (f a)) : Total (p >>= f) := by
  intro s ends
  obtain ⟨a, ok, ends₁⟩ := first s ends
  rcases run : p s with ⟨_, s₁⟩
  rw [run] at ok ends₁
  subst ok
  rw [Run.bind_of_ok run]
  exact rest a s₁ ends₁

/-- A reader that changes nothing but what was reported or skipped. -/
theorem Total.of_tokens {f : State → α} {g : State → State} (run : ∀ s, p s = (.ok (f s), g s))
    (tokens : ∀ s, (g s).tokens = s.tokens) : Total p := by
  intro s ends
  rw [run]
  exact ⟨f s, rfl, by rw [tokens]; exact ends⟩

theorem attempt_total {reader : Parser α} (reads : Reads (stage.past 0) reader post) : Total (attempt reader) :=
  fun s ends => ⟨_, rfl, (reads s ends trivial).1.ends⟩

theorem advance_total : Total advance := by
  intro s ends
  refine ⟨(), rfl, ?_⟩
  rw [run_advance]
  cases here : s.current.isEnd with
  | false => exact (Later.advance ends here).ends
  | true =>
    have nothing := ends.eq_nil_of_end here
    have stays : s.advance.tokens = s.tokens := by
      simp [State.advance, State.dropInvalid, State.tokens, nothing]
    rw [stays]
    exact ends

/-- Every turn but the last reads a token, so there are enough turns. -/
theorem roundsOver_total {post : α → Point}
    (step : ∀ a, Reads (stage.past 0) (turn a) (turned stage post))
    (total : ∀ a, Total (turn a)) (fuel : List Token)
    (a : σ) (s : State) (ends : EndsOnce s.tokens) (enough : s.tokens.length ≤ fuel.length) :
    ∃ b, (roundsOver turn fuel a s).1 = .ok b ∧ EndsOnce (roundsOver turn fuel a s).2.tokens := by
  induction fuel generalizing a s with
  | nil => simp [State.tokens] at enough
  | cons _ fuel ih =>
    obtain ⟨out, ok, ends₁⟩ := total a s ends
    have reads := (step a s ends trivial).2 out ok
    rw [roundsOver_cons]
    rcases run : turn a s with ⟨_, s₁⟩
    rw [run] at ok ends₁ reads
    subst ok
    cases out with
    | again a' =>
      have fewer := reads.1
      simp only [List.length_cons] at fewer enough
      exact ih a' s₁ ends₁ (by omega)
    | stop b => exact ⟨b, rfl, ends₁⟩

theorem rounds_total {post : α → Point}
    (step : ∀ a, Reads (stage.past 0) (turn a) (turned stage post)) (total : ∀ a, Total (turn a)) (a : σ) :
    Total (rounds a turn) :=
  fun s ends => roundsOver_total step total s.tokens a s ends (Nat.le_refl _)

end Total

section Reading

theorem acceptAll_total (more : wanted .endOfFile = false) : Total (acceptAll wanted) := by
  have turns : ∀ found : Bool, Sim .identical 0 (.told 0 0) (acceptTurn wanted found) (acceptTurn wanted found) _ :=
    fun _ => acceptTurn_told more rfl
  refine rounds_total (fun found => (turns found).reads) (fun found s ends => ?_) false
  rw [acceptTurn_eq]
  split
  · obtain ⟨_, _, ends'⟩ := advance_total s ends
    exact ⟨_, rfl, ends'⟩
  · exact ⟨_, rfl, ends⟩

theorem leave_total : Total leave := by
  refine .bind (.of_tokens (fun _ => rfl) fun _ => rfl) fun atEnd => ?_
  cases atEnd
  · exact advance_total
  · exact .pure ()

theorem skipLines_total : Total (rounds () skipLineTurn) := by
  have turns : ∀ a : Unit, Sim .identical 0 (.told 0 0) (skipLineTurn a) (skipLineTurn a) _ :=
    fun _ => skipLineTurn_sim
  refine rounds_total (fun a => (turns a).reads) (fun _ => ?_) ()
  refine .bind (.of_tokens (fun _ => rfl) fun _ => rfl) fun _ => ?_
  split
  · exact .pure _
  · exact advance_total.bind fun _ => .pure _

theorem skipToTopLevel_total : Total (skipToTopLevel start) := by
  refine leave_total.bind fun _ => skipLines_total.bind fun _ => ?_
  exact .bind (.of_tokens (fun _ => rfl) fun _ => rfl) fun _ => .of_tokens (fun _ => rfl) fun _ => rfl

variable (depth : Nat)

theorem topLevel?_total : Total (topLevel? (rulesUpTo depth)) := by
  have declaration : Sim .identical depth (.inner 0 0) (rulesUpTo depth .declaration)
      (rulesUpTo (depth + 0) .declaration) _ := (rulesUpTo_sim depth 0).declaration
  refine .bind (.of_tokens (fun _ => rfl) fun _ => rfl) fun start =>
    (attempt_total declaration.reads).bind fun result => ?_
  have skips : ∀ error, Total (skipDeclaration start error) := fun error =>
    .bind (.of_tokens (fun _ => rfl) fun _ => rfl) fun _ => skipToTopLevel_total
  rcases result with error | _ | declaration
  · exact (skips error).bind fun _ => .pure none
  · exact .bind (.of_tokens (fun _ => rfl) fun _ => rfl) fun error => (skips error).bind fun _ => .pure none
  · exact .pure _

theorem fileTurn_reads (done : List Declaration) : Reads (.told 0 0) (fileTurn (rulesUpTo depth) done)
      (turned (.told 0) fun _ => ⟨.told 0, fun x => x.isEnd = true, 0⟩) := by
  have turn : Sim .identical depth (.told 0 0) (fileTurn (rulesUpTo depth) done)
      (fileTurn (rulesUpTo (depth + 0)) done) _ :=
        fileTurn_sim (rulesUpTo_sim depth 0) (by simp [Setting.identical]) rfl
  exact turn.reads

theorem sourceFile_total : Total (sourceFile (rulesUpTo depth)) := by
  refine .bind (.of_tokens (fun _ => rfl) fun _ => rfl) fun _ => ?_
  refine .bind (rounds_total (fileTurn_reads depth) (fun _ => ?_) []) fun _ => ?_
  · refine (acceptAll_total rfl).bind fun _ => .bind (.of_tokens (fun _ => rfl) fun _ => rfl) fun atEnd => ?_
    cases atEnd
    · exact (topLevel?_total depth).bind fun _ => .pure _
    · exact .pure _
  · exact .bind (.of_tokens (fun _ => rfl) fun _ => rfl) fun _ => .pure _

end Reading

section Loops

variable {σ : Type}

/-- Every turn that does not leave the loop reads at least one of the tokens that are left. -/
def Shrinks (turn : σ → Parser (Turn σ α)) : Prop :=
  ∀ a s, EndsOnce s.tokens → EndsOnce (turn a s).2.tokens ∧
    ∀ a', (turn a s).1 = .ok (.again a') → (turn a s).2.tokens.length < s.tokens.length

/-- The loops of the grammar, given readers for the phrases inside of a phrase. -/
structure LoopsShrink (rules : Rules) : Prop where
  file : Shrinks (fileTurn rules)
  declarations : Shrinks (declarationTurn rules)
  statements : Shrinks (statementTurn rules)
  braced : Shrinks (bracedTurn rules)
  indented : Shrinks (indentedTurn rules)
  bracedVars : ∀ stem?, Shrinks (bracedVarTurn rules stem?)
  indentedVars : ∀ stem?, Shrinks (indentedVarTurn rules stem?)
  sets : Shrinks (setBlockTurn rules)
  cases : Shrinks (switchTurn rules)
  arguments : Shrinks (argumentTurn rules)

theorem Shrinks.of_sim [Placed σ] [Placed α] (stage : Stage) {turn' : σ → Parser (Turn σ α)}
    (step : ∀ a b, Alike Setting.identical.view a b →
      Sim .identical bound (stage.past 0) (turn a) (turn' b) (turned stage post)) : Shrinks turn := by
  intro a s ends
  obtain ⟨later, ok⟩ := (step a a rfl).reads s ends trivial
  refine ⟨later.ends, fun _ again => ?_⟩
  have fewer := (ok _ again).1
  dsimp only at fewer
  omega

theorem loopsShrink (depth : Nat) : LoopsShrink (rulesUpTo depth) := by
  have rules := rulesUpTo_sim depth 0
  exact {
    file := .of_sim (.told 0) fun _ _ => fileTurn_sim rules (by simp [Setting.identical])
    declarations := .of_sim (.loose 0) fun _ _ => declarationTurn_sim rules
    statements := .of_sim (.loose 0) fun _ _ => statementTurn_sim rules
    braced := .of_sim (.loose 0) fun _ _ => bracedTurn_sim rules
    indented := .of_sim (.loose (0 + 1)) fun _ _ => indentedTurn_sim rules
    bracedVars := fun _ => .of_sim (.loose 0) fun _ _ => bracedVarTurn_sim rules
    indentedVars := fun _ => .of_sim (.loose (0 + 1)) fun _ _ => indentedVarTurn_sim rules
    sets := .of_sim (.loose 0) fun _ _ => setBlockTurn_sim rules
    cases := .of_sim (.loose 0) fun _ _ => switchTurn_sim rules
    arguments := .of_sim (.inner 0) fun _ _ => argumentTurn_sim rules }

end Loops

section Depth

theorem sum_weight_lt_depthOf (tokens : List Token) : (tokens.map weight).sum < depthOf tokens := by
  have counted : ∀ (tokens : List Token) (size : Nat), (tokens.map weight).sum + 4 * size ≤
      4 * tokens.foldl (fun size token => size + 1 + token.textValue.length) size := by
    intro tokens
    induction tokens with
    | nil => simp
    | cons token tokens ih =>
      intro size
      have rest := ih (size + 1 + token.textValue.length)
      have first : weight token ≤ 4 + 4 * token.textValue.length := by
        unfold weight
        split <;> omega
      simp only [List.map_cons, List.sum_cons, List.foldl_cons]
      omega
  have start := counted tokens 0
  unfold depthOf
  omega

/-- What a source gives at this depth. -/
def readTo (depth : Nat) (tokens : List Token) (log : Log := {}) : Except ParseError SourceFile × State :=
  sourceFile (rulesUpTo depth) (.ofTokens tokens log)

/-- Two sources that go on in the same way are read as the same file, if readers stay together on them. -/
theorem sourceFile_meets (whole : S.mode = .whole) (seen : S.view = id) (rules : RulesSim depth (rulesUpTo depth) r)
    (ends : EndsOnce tokens) (light : (tokens.map weight).sum < depth)
    (start : S.Inner 0 (.ofTokens tokens log) (.ofTokens tokens' log')) :
    (sourceFile r (.ofTokens tokens' log')).1 = (readTo depth tokens log).1 ∧
      S.Agree (readTo depth tokens log).2 (sourceFile r (.ofTokens tokens' log')).2 := by
  have told : S.mode ≠ .clean := by simp [whole]
  have sim : Sim S depth (.told 0 0) (sourceFile (rulesUpTo depth)) (sourceFile r) _ := sourceFile_sim rules told
  have lighter := Nat.lt_of_le_of_lt (weight_ofTokens ends log) light
  have met := (sim.meets _ _ (ends.ofTokens log) lighter trivial ⟨told, start⟩).joins whole
  obtain ⟨_, ok, -⟩ := sourceFile_total depth _ (ends.ofTokens log)
  unfold readTo
  rcases run : sourceFile (rulesUpTo depth) (.ofTokens tokens log) with ⟨_, _⟩
  rw [run] at met ok
  subst ok
  rcases run' : sourceFile r (.ofTokens tokens' log') with ⟨error | file', s'⟩ <;> rw [run'] at met
  · exact met.elim
  obtain ⟨same, -, inner⟩ := met
  rw [seen, move_id, move_id] at same
  exact ⟨congrArg Except.ok same.symm, inner.toAgree⟩

/-- Beyond the weight of the tokens neither the depth nor what was reported before changes anything. -/
theorem sourceFile_of_light (whole : S.mode = .whole) (seen : S.view = id) (plain : S.strays? = none)
    (rules : RulesSim depth (rulesUpTo depth) r) (ends : EndsOnce tokens) (light : (tokens.map weight).sum < depth)
    (tells : S.Tells log.reports.toList log'.reports.toList) (configs : S.exact → log.config = log'.config) :
    (sourceFile r (.ofTokens tokens log')).1 = (readTo depth tokens log).1 ∧
      (S.exact → (sourceFile r (.ofTokens tokens log')).2.reports = (readTo depth tokens log).2.reports ∧
        (sourceFile r (.ofTokens tokens log')).2.skips = (readTo depth tokens log).2.skips) := by
  have start : S.Inner 0 (.ofTokens tokens log) (.ofTokens tokens log') :=
    Setting.Ahead.ofTokens (.ofAlike whole (by rw [S.thin_of_plain plain]) ends) ends
      (tells.agree plain configs)
  obtain ⟨same, agree⟩ := sourceFile_meets whole seen rules ends light start
  refine ⟨same, fun exact_ => ?_⟩
  obtain ⟨reports, skips, -⟩ := agree.exact exact_
  exact ⟨((Setting.told_of_plain plain).1 reports).symm, skips.symm⟩

theorem readTo_of_light (ends : EndsOnce tokens) (light : (tokens.map weight).sum < depth) (more : Nat) (log : Log) :
    (readTo (depth + more) tokens log).1 = (readTo depth tokens log).1 ∧
      (readTo (depth + more) tokens log).2.reports = (readTo depth tokens log).2.reports ∧
      (readTo (depth + more) tokens log).2.skips = (readTo depth tokens log).2.skips := by
  obtain ⟨same, exact_⟩ := sourceFile_of_light (S := .identical) rfl rfl rfl (rulesUpTo_sim depth more) ends light
    (⟨id, fun _ => rfl⟩ : Setting.identical.Tells log.reports.toList log.reports.toList) fun _ => rfl
  exact ⟨same, exact_ trivial⟩

end Depth

end DreamMaker.Parsing

namespace DreamMaker

open Parsing

theorem SourceFile.parse_eq
    (run : readTo (depthOf (Token.ofLexemes source)) (Token.ofLexemes source) log = (.ok file, s)) :
    parse source log = ⟨file, s.reports, s.skips⟩ := by
  have whole : Parsing.run sourceFile (Token.ofLexemes source) log = (.ok file, s) := run
  rw [parse, whole]

/-- Beyond the weight of the tokens every depth gives the file. -/
theorem SourceFile.readTo_parse (source : List Lexeme) (deep : ((Token.ofLexemes source).map weight).sum < depth) :
    ∃ s, readTo depth (Token.ofLexemes source) = (.ok (parse source).result, s) ∧
      s.reports = (parse source).reports ∧ s.skips = (parse source).skips := by
  have ends := Token.endsOnce_ofLexemes source
  generalize tokens : Token.ofLexemes source = all at ends deep
  obtain ⟨file, ok, -⟩ := sourceFile_total (depthOf all) _ (ends.ofTokens _)
  rcases run : readTo (depthOf all) all with ⟨result, s⟩
  obtain rfl : result = .ok file := by
    rw [← ok]
    exact (congrArg Prod.fst run).symm
  have parsed := parse_eq (tokens ▸ run)
  rw [parsed]
  -- both depths are compared with the least one that is enough
  have light : (all.map weight).sum < (all.map weight).sum + 1 := Nat.lt_succ_self _
  obtain ⟨d, depth_eq⟩ := Nat.exists_eq_add_of_le (Nat.succ_le_of_lt (sum_weight_lt_depthOf all))
  obtain ⟨d', rfl⟩ := Nat.exists_eq_add_of_le (Nat.succ_le_of_lt deep)
  have first := readTo_of_light ends light d {}
  have second := readTo_of_light ends light d' {}
  rw [← depth_eq, run] at first
  refine ⟨(readTo ((all.map weight).sum + 1 + d') all).2, Prod.ext ?_ rfl, ?_, ?_⟩
  · exact second.1.trans first.1.symm
  · exact second.2.1.trans first.2.1.symm
  · exact second.2.2.trans first.2.2.symm

/-- Reading a file gives a tree and stops at its end. At whatever depth, the turns of its loops and the holes of
strings shrink what is left to read; from a depth on that is linear in the number of lexemes and the length of the
text in quotes, the depth changes nothing. -/
theorem SourceFile.parse_terminates (source : List Lexeme) :
    EndsOnce (State.ofTokens (Token.ofLexemes source)).tokens ∧
    (∃ s, Parsing.run sourceFile (Token.ofLexemes source) = (.ok (parse source).result, s) ∧
      s.current.isEnd = true ∧ s.ahead = []) ∧ (∀ depth, LoopsShrink (rulesUpTo depth)) ∧
    (∀ (token : Token) (hole : List Char), .hole hole ∈ Segment.split token.textValue.toList →
      (Text.trim hole).length < token.textValue.length) ∧
    ∀ more, ∃ s, readTo (4 * Lexeme.extent source + 2 + more) (Token.ofLexemes source) =
        (.ok (parse source).result, s) ∧
      s.reports = (parse source).reports ∧ s.skips = (parse source).skips := by
  have ends := Token.endsOnce_ofLexemes source
  have weighs := Token.weight_ofLexemes source
  obtain ⟨s, run, -⟩ := readTo_parse source (sum_weight_lt_depthOf (Token.ofLexemes source))
  refine ⟨ends.ofTokens _, ⟨s, run, ?_⟩, loopsShrink, fun token hole member => ?_, fun more => ?_⟩
  · have sim : Sim .identical (depthOf (Token.ofLexemes source)) (.told 0 0)
        (sourceFile (rulesUpTo (depthOf (Token.ofLexemes source))))
        (sourceFile (rulesUpTo (depthOf (Token.ofLexemes source) + 0))) _ :=
      sourceFile_sim (rulesUpTo_sim _ 0) (by simp [Setting.identical])
    obtain ⟨later, stops⟩ := sim.reads _ (ends.ofTokens {}) trivial
    rw [readTo] at run
    rw [run] at later stops
    have atEnd := (stops _ rfl).2
    exact ⟨atEnd, later.ends.eq_nil_of_end atEnd⟩
  · have inside := Segment.length_of_hole_mem member
    have trimmed := Text.length_trim hole
    rw [String.length_toList] at inside
    omega
  · exact readTo_parse source (by omega)

end DreamMaker
