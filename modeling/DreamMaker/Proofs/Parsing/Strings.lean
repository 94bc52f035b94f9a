import DreamMaker.Proofs.Parsing.Phrases
import DreamMaker.Proofs.Parsing.Weight
import DreamMaker.Proofs.Token.Moving

namespace DreamMaker.Parsing

open List Text

variable {span : Span} {format format' : Format} {tokens' : List Token} {token : Token} {post : α → Point}

/-- The tokens of a hole have the place of the string. -/
theorem move_holeTokens [Merging f] : move f (holeTokens text span) = holeTokens text (f span) := by
  have scanned := Lexeme.move_scanFrom (f := f) (.embedded span) (.embedded (f span))
    (fun _ _ _ _ => rfl) 0 .first .first true
    (String.ofList text).toList
  change move f (Token.ofLexemes (Lexeme.scanFrom (.embedded span) 0 .first true (String.ofList text).toList)) =
    Token.ofLexemes (Lexeme.scanFrom (.embedded (f span)) 0 .first true (String.ofList text).toList)
  rw [← scanned]
  obtain ⟨_, _, source⟩ := exists_cons_of_ne_nil
    Lexeme.scanFrom_ne_nil
  rw [source]
  exact Token.move_ofLexemes

theorem weight_holeTokens (text : List Char) (span : Span) :
    ((holeTokens text span).map weight).sum ≤ 4 * text.length + 5 := by
  have tokens := Token.weight_ofLexemes (Lexeme.scan (.embedded span) (String.ofList text))
  have extent := Lexeme.extent_scanFrom (.embedded span) 0 .first true (String.ofList text).toList
  rw [String.toList_ofList] at extent
  rw [holeTokens]
  rw [Lexeme.scan, String.toList_ofList] at tokens ⊢
  omega

namespace Setting

variable {S : Setting}

theorem told_of_plain (plain : S.strays? = none) : S.Told s t ↔ s.reports = t.reports := by
  rw [Told, plain]

theorem Tells.agree (tells : S.Tells log.reports.toList log'.reports.toList) (plain : S.strays? = none)
    (configs : S.exact → log.config = log'.config) : S.Agree (.before tokens log) (.before tokens' log') :=
  ⟨rfl, rfl, tells.complains, fun exact_ =>
    ⟨(told_of_plain plain).2 (Array.toList_inj.mp (tells.exact exact_)), rfl, configs exact_⟩⟩

/-- Two runs on sources that go on as the mode says start at the same place. -/
theorem Ahead.ofTokens
    (ahead : S.Ahead level tokens (S.thin tokens')) (ends : EndsOnce tokens)
    (before : S.Agree (.before tokens log) (.before tokens' log')) :
    S.Inner level (.ofTokens tokens log) (.ofTokens tokens' log') := by
  obtain ⟨after, dropped⟩ := ahead.dropInvalid ends
  obtain ⟨x, xs, follows⟩ := exists_cons_of_ne_nil ends.dropWhile_isInvalid.ne_nil
  rw [S.dropWhile_thin] at after
  obtain ⟨y, ys, follows', valid⟩ := after.exists_behind (follows ▸ cons_ne_nil x xs)
  have agree := before.settled rfl dropped
  rw [State.ofTokens, State.ofTokens, State.advance_eq (s := .before tokens log) follows,
    State.advance_eq (s := .before tokens' log') follows']
  exact {
    owner := rfl, declares := rfl, complains := agree.complains
    exact := fun exact_ => (agree.exact exact_).imp_left fun told => told.carry rfl rfl
      ((congrArg _ follows'.symm).trans (strays_eq (t := (State.before tokens' log').settled) rfl).symm)
    kind := rfl, behind := rfl, valid
    tokens := by
      show S.Ahead level (x :: xs) (S.thin (y :: ys))
      rwa [← follows, ← follows'] }

end Setting

variable {S : Setting}

section Holes

/-- The setting of a hole: all that is left of both sources is the hole, which ends for both of them. -/
def Setting.hole (S : Setting) : Setting where
  mode := .whole
  view := S.view
  sees := S.sees
  blind apart := absurd rfl apart
  exact := S.exact
  exact_whole _ := rfl
  exact_view := S.exact_view
  rest := []
  anew := Mode.not_anew

theorem wholeExpression_sim (rules : RulesSim K r r') (whole : S.mode = .whole) :
    Sim S (K + 1) ⟨.inner level, now, 0⟩ (wholeExpression r) (wholeExpression r') fun _ => .told level 0 := by
  have any : S.mode ≠ .clean := by simp [whole]
  refine .loosen (delimiters_sim.next ?_)
  refine Sim.restage ((expression_sim rules).bind fun _ _ same => ?_) (Setting.loose_weakens_of_whole whole)
  refine .loosen (delimiters_sim.next ?_)
  refine Sim.restage ((acceptAll_told (by simp)).bind_plain fun _ => ?_) (Setting.loose_weakens_told any)
  exact check_sim.branch (.pure ⟨same, by simp⟩) failHere_sim

/-- Readers for a hole, each in its own right, give the same for both runs. -/
structure Setting.SameHole (S : Setting) (r r' : Rules) (tokens tokens' : List Token) : Prop where
  result : ∀ config config', (S.exact → config = config') →
    move S.view (wholeExpression r (.ofTokens tokens { config })).1 =
      move S.view (wholeExpression r' (.ofTokens tokens' { config := config' })).1
  tells : ∀ config config', (S.exact → config = config') →
    S.Tells (wholeExpression r (.ofTokens tokens { config })).2.reports.toList
      (wholeExpression r' (.ofTokens tokens' { config := config' })).2.reports.toList

theorem Setting.SameHole.refl : Setting.identical.SameHole r r tokens tokens where
  result config config' same := by rw [same trivial]
  tells config config' same := by rw [same trivial]; exact Setting.tells_of_alike rfl

theorem EndsOnce.ofTokens (ends : EndsOnce tokens) (log : Log) : EndsOnce (State.ofTokens tokens log).tokens := by
  rw [State.ofTokens, State.tokens_advance (s := .before tokens log) ends.dropWhile_isInvalid.ne_nil]
  exact ends.dropWhile_isInvalid

theorem isInvalid_ofTokens (ends : EndsOnce tokens) : isInvalid (State.ofTokens tokens log).current = false := by
  obtain ⟨_, _, behind⟩ := exists_cons_of_ne_nil ends.dropWhile_isInvalid.ne_nil
  rw [State.ofTokens, State.advance_eq (s := .before tokens log) behind]
  exact Setting.isInvalid_of_behind behind

theorem weight_ofTokens (ends : EndsOnce tokens) (log : Log) :
    (State.ofTokens tokens log).weight ≤ (tokens.map weight).sum := by
  rw [State.weight, State.ofTokens, State.tokens_advance (s := .before tokens log) ends.dropWhile_isInvalid.ne_nil]
  exact ((dropWhile_sublist isInvalid).map weight).sum_le_sum fun _ _ => Nat.zero_le _

theorem Setting.Ahead.ofAlike (whole : S.mode = .whole) (same : Alike S.view tokens tokens')
    (ends : EndsOnce tokens) : S.Ahead level tokens tokens' := by
  obtain ⟨front, last, rfl, -⟩ := ends
  have split : tokens'.map (move S.view) = front.map (move S.view) ++ [last].map (move S.view) := by
    rw [← map_append]
    exact same.symm
  obtain ⟨front', onward, rfl, fronts, lasts⟩ := map_eq_append_iff.mp split
  refine ⟨front, last, front', onward, rfl, rfl, fronts.symm, ?_⟩
  simp only [Setting.Border, whole]
  exact lasts.symm

theorem Setting.Meets.joins [Placed α]
    (met : S.Meets post first second) (whole : S.mode = .whole) : S.Joins post first second := by
  rcases met with alone | joint
  · exfalso
    have apart : ∀ stage s, ¬S.Adrift stage s := by
      rintro (level | level | level | level | level) s adrift
      · exact adrift
      · exact adrift
      · exact adrift.apart whole
      · exact adrift.apart whole
      · rcases adrift with clean | loose
        · rw [whole] at clean
          cases clean
        · exact loose.apart whole
    rcases first with ⟨_ | _, s⟩
    · rcases alone with clean | ⟨line, -⟩
      · rw [whole] at clean
        cases clean
      · rw [whole] at line
        cases line
    · rcases alone with lost | adrift
      · have clean := lost.1
        rw [whole] at clean
        cases clean
      · exact apart _ _ adrift
  · exact joint

theorem Setting.Agree.tells (agree : S.hole.Agree s t) : S.Tells s.reports.toList t.reports.toList :=
  ⟨agree.complains, fun exact_ => congrArg Array.toList ((Setting.told_of_plain rfl).1 (agree.exact exact_).1)⟩

theorem sameHole (rules : RulesSim K r r') (same : Alike S.view tokens tokens')
    (ends : EndsOnce tokens) (light : (tokens.map weight).sum ≤ K) : S.SameHole r r' tokens tokens' := by
  have ahead : S.hole.Ahead 0 tokens tokens' := .ofAlike rfl same ends
  have sim : Sim S.hole (K + 1) (.inner 0 0) (wholeExpression r) (wholeExpression r') _ :=
    wholeExpression_sim rules rfl
  have met : ∀ config config', (S.exact → config = config') → S.hole.Joins (fun _ => .told 0 0)
      (wholeExpression r (.ofTokens tokens { config }))
        (wholeExpression r' (.ofTokens tokens' { config := config' })) := by
    intro config config' configs
    have lighter := Nat.lt_succ_of_le ((weight_ofTokens ends { config }).trans light)
    have nothing : S.hole.Tells ({ config } : Log).reports.toList ({ config := config' } : Log).reports.toList :=
      Setting.tells_of_alike rfl
    have start := ahead.ofTokens ends (nothing.agree rfl configs)
    exact (sim.meets _ _ (ends.ofTokens _) lighter trivial start).joins rfl
  refine ⟨fun config config' configs => ?_, fun config config' configs => ?_⟩
  all_goals
    have met := met config config' configs
    rcases run : wholeExpression r (.ofTokens tokens { config }) with ⟨error | e, s⟩ <;>
      rcases run' : wholeExpression r' (.ofTokens tokens' { config := config' }) with ⟨error' | e', t⟩ <;>
      rw [run, run'] at met
  · exact congrArg Except.error met.1
  · exact met.elim
  · exact met.elim
  · exact congrArg Except.ok met.1
  · exact met.2.tells
  · exact met.elim
  · exact met.elim
  · exact met.2.2.tells

end Holes

section Literals

/-- The same reader at every step. -/
theorem Sim.foldlM {σ : Type} [Placed α] {f g : α → σ → Parser α} (items : List σ)
    (step : ∀ item ∈ items, ∀ a b, Alike S.view a b →
      Sim S bound ⟨stage, now, 0⟩ (f a item) (g b item) fun _ => ⟨stage, now, 0⟩) (same : Alike S.view a b) :
    Sim S bound ⟨stage, now, 0⟩ (items.foldlM f a) (items.foldlM g b) fun _ => ⟨stage, now, 0⟩ := by
  induction items generalizing a b with
  | nil => exact .pure ⟨same, by simp⟩
  | cons item items ih =>
    refine (step item (by simp) a b same).bind fun _ _ same' => ?_
    exact ih (fun item member => step item (mem_cons_of_mem _ member)) same'

theorem heldIn_sim (same : Alike S.view result result') :
    StaySim S bound ⟨stage, now, 0⟩ (heldIn result) (heldIn result') := by
  rcases result with error | e <;> rcases result' with error' | e' <;> simp at same
  · exact (report_sim (toReport_alike same)).next (.pure (by simp [*]))
  · exact .pure (by simp [*])

theorem hole_eq :
    hole r cs span =
      if (trim cs).isEmpty then pure none
      else
        config >>= fun config =>
          reportAll (wholeExpression r (.ofTokens (holeTokens (trim cs) span) { config })).2.reports >>= fun _ =>
            heldIn (wholeExpression r (.ofTokens (holeTokens (trim cs) span) { config })).1 := by
  simp only [hole]
  generalize wholeExpression r = reader, holeTokens (trim cs) span = tokens
  rfl

/-- A reader that goes by how reports are shown. -/
theorem Sim.config [Placed α]
    (rest : ∀ config config', (S.exact → config = config') → Sim S bound pre (f config) (g config') post) :
    Sim S bound pre (Parsing.config >>= f) (Parsing.config >>= g) post where
  reads s := (rest s.config s.config fun _ => rfl).reads s
  meets s t ends light known together :=
    (rest s.config t.config fun exact_ => (together.agree.exact exact_).2.2).meets s t ends light known together
  drifts s := (rest s.config s.config fun _ => rfl).drifts s
  valid s ends start valid := .bind (.note valid rfl rfl) fun _ same => by
    cases same
    exact (rest s.config s.config fun _ => rfl).valid s ends start valid

theorem hole_sim (held : S.SameHole r r' (holeTokens (trim cs) span) (holeTokens (trim cs) span')) :
    StaySim S bound ⟨stage, now, 0⟩ (hole r cs span) (hole r' cs span') := by
  rw [hole_eq, hole_eq]
  refine .ite (fun _ => .pure (by simp [*])) fun _ => .config fun config config' configs => ?_
  exact (reportAll_sim (held.tells config config' configs)).next <| heldIn_sim (held.result config config' configs)

theorem addText_sim (formats : Alike S.view format format') (spans : Alike S.view span span') :
    Sim S bound ⟨stage, now, 0⟩ (addText format cs span) (addText format' cs span') fun _ =>
      ⟨stage, now, 0⟩ := by
  have left := Format.move_addText (f := S.view) format cs span
  have right := Format.move_addText (f := S.view) format' cs span'
  rw [formats, spans, ← right.1, ← right.2] at left
  exact (reportAll_sim (Setting.tells_of_alike left.2)).next <| .pure ⟨left.1, by simp⟩

theorem addSegment_sim {segment : Segment} (spans : Alike S.view span span') (formats : Alike S.view format format')
    (held : ∀ cs, segment = .hole cs →
      S.SameHole r r' (holeTokens (trim cs) span) (holeTokens (trim cs) span')) :
    StaySim S bound ⟨stage, now, 0⟩ (addSegment r span format segment) (addSegment r' span' format' segment) := by
  cases segment with
  | text cs => exact addText_sim formats spans
  | hole cs => exact (hole_sim (held cs rfl)).bind fun _ _ _ => .pure (by simp [*])
  | unclosed => exact (warn_sim spans).next <| .pure ⟨formats, by simp⟩

theorem stringLiteral_sim (spans : Alike S.view token.span span)
    (held : ∀ cs, .hole cs ∈ Segment.split token.textValue.toList →
      S.SameHole r r' (holeTokens (trim cs) token.span) (holeTokens (trim cs) span)) :
    StaySim S bound ⟨stage, now, 0⟩ (stringLiteral r token) (stringLiteral r' { token with span }) := by
  refine (Sim.foldlM _ (fun _ member format format' formats => ?_) rfl).bind fun format format' formats => ?_
  · refine addSegment_sim spans formats ?_
    rintro cs rfl
    exact held cs member
  · exact .pure (by simp [*])

/-- The holes of a string are shorter than it. -/
theorem sameHole_of_light (rules : RulesSim K r r')
    (spans : Alike S.view token.span span) (light : 4 * token.textValue.length ≤ K)
    (member : .hole cs ∈ Segment.split token.textValue.toList) :
    S.SameHole r r' (holeTokens (trim cs) token.span) (holeTokens (trim cs) span) := by
  have inside := Segment.length_of_hole_mem member
  have trimmed := length_trim cs
  have weigh := weight_holeTokens (trim cs) token.span
  rw [String.length_toList] at inside
  refine sameHole rules ?_ (Token.endsOnce_ofLexemes _) (by omega)
  rw [Alike, move_holeTokens, move_holeTokens, show S.view token.span = S.view span from spans]

theorem splitTurn_sim (rules : RulesSim K r r') (formats : Alike S.view format format') :
    TurnSim S (K + 1) (.inner level) 1 (splitTurn r format) (splitTurn r' format') := by
  refine (expression?_sim rules).forget.bind fun _ _ values => ?_
  refine .current fun _ _ spans => .ite (fun middle => ?_) fun _ => .ite (fun last => ?_) fun _ => failHere_sim
  · refine (advance_token (by rw [middle]; rfl)).next ?_
    exact (addText_sim (by simp [formats, values]) spans).bind fun _ _ more => .pure (by simp [*])
  · refine (advance_token (by rw [last]; rfl)).next ?_
    exact (addText_sim (by simp [formats, values]) spans).bind fun _ _ more => .pure (by simp [*])

theorem splitString_sim (rules : RulesSim K r r') (plain : ∀ token, now token → isPlain token.kind = true) :
    Sim S (K + 2) ⟨.inner level, now, 0⟩ (splitString r) (splitString r') fun _ => .inner level 1 := by
  refine .current fun token _ spans => (advance_plain fun x known => plain x known.1).next ?_
  refine (addText_sim rfl spans).bind fun _ _ more =>
    (Sim.rounds (fun _ _ => splitTurn_sim rules) more).bind_less (by simp) fun _ _ _ => ?_
  exact (since_sim spans).bind fun _ _ _ => .pure (by simp [*])

end Literals

end DreamMaker.Parsing
