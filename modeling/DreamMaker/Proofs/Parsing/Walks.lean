import Mathlib.Data.List.TakeWhile
import DreamMaker.Proofs.Parsing.Reading

namespace DreamMaker.Parsing

open List

variable {s : State} {S : Setting} {stage : Stage}

theorem kind_sim [joint : stage.Joint] :
    Sim S bound ⟨stage, now, 0⟩ kind kind fun kind => ⟨stage, fun x => now x ∧ x.kind = kind, 0⟩ :=
  .test (fun kind => kind) fun _ => rfl

theorem acceptTurn_sim (divides : ∀ kind, wanted kind = true → isDelimiter kind = true)
    (same : Alike S.view found found') :
    Sim S bound (.loose level 0) (acceptTurn wanted found) (acceptTurn wanted found')
      (turned (.loose level) fun _ => ⟨.loose level, fun x => wanted x.kind = false, 0⟩) := by
  refine kind_sim.bind_plain fun kind => .ite (fun yes => ?_) fun no => ?_
  · refine (advance_delimiter fun token known => ?_).next (.pure (by simp [*]))
    rw [known.2]
    exact divides kind yes
  · refine .pure ⟨by simpa using same, S.weakens_rfl, ?_, Nat.le_refl _⟩
    rintro token ⟨-, rfl⟩
    simpa using no

theorem acceptAll_sim (divides : ∀ kind, wanted kind = true → isDelimiter kind = true) :
    Sim S bound ⟨.loose level, now, 0⟩ (acceptAll wanted) (acceptAll wanted)
      fun _ => ⟨.loose level, fun x => wanted x.kind = false, 0⟩ :=
  .rounds (fun _ _ => acceptTurn_sim divides) rfl

theorem newlines_sim :
    Sim S bound ⟨.loose level, now, 0⟩ newlines newlines fun _ =>
      ⟨.loose level, fun x => x.kind ≠ .newline, 0⟩ :=
  (acceptAll_sim fun _ _ => by simp_all [isDelimiter]).last (by simp)

theorem delimiters_sim : Sim S bound ⟨.loose level, now, 0⟩ delimiters delimiters
      fun _ => ⟨.loose level, fun x => isDelimiter x.kind = false, 0⟩ :=
  acceptAll_sim fun _ => id

/-- Where something was reported, tokens of any kind may be read over. -/
theorem acceptTurn_told (more : wanted .endOfFile = false) (same : Alike S.view found found') :
    Sim S bound (.told level 0) (acceptTurn wanted found) (acceptTurn wanted found')
      (turned (.told level) fun _ => ⟨.told level, fun x => wanted x.kind = false, 0⟩) := by
  refine kind_sim.bind_plain fun kind => .ite (fun yes => ?_) fun no => ?_
  · refine (advance_told fun token known => ?_).next (.pure (by simp [*]))
    have other : kind ≠ .endOfFile := by
      rintro rfl
      rw [more] at yes
      cases yes
    simp [Token.isEnd, known.2, other]
  · refine .pure ⟨by simpa using same, S.weakens_rfl, ?_, Nat.le_refl _⟩
    rintro token ⟨-, rfl⟩
    simpa using no

theorem acceptAll_told (more : wanted .endOfFile = false) :
    Sim S bound ⟨.told level, now, 0⟩ (acceptAll wanted) (acceptAll wanted)
      fun _ => ⟨.told level, fun x => wanted x.kind = false, 0⟩ :=
  .rounds (fun _ _ => acceptTurn_told more) rfl

/-- Tokens at which the skipping of a statement stops. -/
def stopsSkipping (kind : Token.Kind) : Bool := kind = .endOfFile || isDelimiter kind || closesBlock kind

theorem stopsSkipping_of_none {kind : Token.Kind} (stops : blocksBehind? depth kind = none) :
    stopsSkipping kind = true := by
  unfold blocksBehind? at stops
  split at stops <;> simp_all [stopsSkipping, isDelimiter, closesBlock]

theorem skipTurn_sim (same : Alike S.view depth depth') :
    Sim S bound (.told level 0) (skipTurn depth) (skipTurn depth')
      (turned (.told level) fun _ => ⟨.told level, fun x => stopsSkipping x.kind = true, 0⟩) := by
  obtain rfl : depth = depth' := by simpa using same
  refine kind_sim.bind_plain fun kind => ?_
  cases step : blocksBehind? depth kind with
  | none =>
    refine .pure ⟨rfl, S.weakens_rfl, ?_, Nat.le_refl _⟩
    rintro token ⟨-, rfl⟩
    exact stopsSkipping_of_none step
  | some depth =>
    refine (advance_told fun token known => ?_).next <| .pure ⟨rfl, by simp⟩
    have more : kind ≠ .endOfFile := by rintro rfl; cases step
    simp [Token.isEnd, known.2, more]

theorem skipStatement_sim : Sim S bound ⟨.told level, now, 0⟩ skipStatement skipStatement
      fun _ => ⟨.told level, fun x => stopsSkipping x.kind = true, 0⟩ :=
  .rounds (fun _ _ => skipTurn_sim) rfl

/-- What a reader that stops before a token of another kind has read. -/
theorem Reads.progress (reads : Reads pre p post)
    (changed : ∀ a, (post a).read = pre.read + 1 ∨ ∀ token, pre.now token → ¬(post a).now token) :
    Reads pre p fun a => ⟨(post a).stage, (post a).now, pre.read + 1⟩ := by
  intro s ends start
  obtain ⟨later, ok⟩ := reads s ends start
  refine ⟨later, fun a result => ?_⟩
  obtain ⟨fewer, after⟩ := ok a result
  refine ⟨?_, after⟩
  rcases changed a with read | other
  · rwa [read] at fewer
  by_contra short
  have none_read : s.tokens.length ≤ (p s).2.tokens.length := by
    dsimp only at short
    omega
  exact other _ start (later.current_eq none_read ▸ after)

/-- A better bound on what the first of two readers reads. -/
theorem Sim.sharpen [Placed α] {post' : α → Point} (sim : Sim S bound pre p q post) (reads : Reads pre p post')
    (stages : ∀ a, (post' a).stage = (post a).stage) : Sim S bound pre p q post' where
  reads := reads
  meets s t ends light start together := by
    have met := sim.meets s t ends light start together
    unfold Setting.Meets Setting.Drifts Setting.Joins at met ⊢
    simpa only [stages] using met
  drifts s ends start adrift := by
    have alone := sim.drifts s ends start adrift
    unfold Setting.Drifts at alone ⊢
    simpa only [stages] using alone
  valid := sim.valid

theorem recover_sim (same : Alike S.view error error') [joint : stage.Joint] :
    Sim S bound ⟨stage, now, 0⟩ (recover error) (recover error')
      fun _ => ⟨.told stage.level, fun x => stopsSkipping x.kind = true, 0⟩ :=
  (report_told (toReport_alike same)).next <| skipStatement_sim

/-- Outside of runs without reports the level says nothing, or is zero. -/
theorem Setting.Inner.level_eq (inner : S.Inner level s t) (line : S.mode = .line) : level = 0 := by
  obtain ⟨_, _, _, _, _, _, _, border⟩ := inner.tokens
  simp only [Setting.Border, line] at border
  exact border.2.2.1

section Recovering

variable [Placed α]

/-- What is known behind a reader whose error is handed out. -/
@[simp, reducible] def attempted (level : Nat) (post : α → Point) : Except ParseError α → Point
  | .ok a => post a
  | .error _ => (Stage.failed level).past 0

@[simp] theorem attempt_eq {α : Type} (reader : Parser α) : attempt reader s = (.ok (reader s).1, (reader s).2) := rfl

theorem attempt_sim {reader' : Parser α} (sim : Sim S bound ⟨.inner level, now, 0⟩ reader reader' post) :
    Sim S bound ⟨.inner level, now, 0⟩ (attempt reader) (attempt reader') (attempted level post) where
  reads s ends start := by
    obtain ⟨later, ok⟩ := sim.reads s ends start
    refine ⟨later, fun result same => ?_⟩
    cases result with
    | error => exact ⟨later.tokens.length_le, trivial⟩
    | ok a => exact ok a (Except.ok.inj same)
  meets s t ends light start together := by
    have inner := together
    rw [attempt_eq, attempt_eq]
    rcases sim.meets s t ends light start together with alone | joint
    · left
      rcases run : reader s with ⟨error | a, s₁⟩ <;> rw [run] at alone
      · rcases alone with clean | ⟨line, spent⟩
        · exact .inr (.inl clean)
        · exact .inr (.inr ⟨by simp [line], inner.level_eq line, spent⟩)
      · exact alone
    · rcases run : reader s with ⟨error | a, s₁⟩ <;> rcases run' : reader' t with ⟨error' | b, t₁⟩ <;>
        rw [run, run'] at joint
      · by_cases clean : S.mode = .clean
        · exact .inl (.inr (.inl clean))
        · exact .inr ⟨by simp [joint.1], clean, joint.2.relevel (absurd · clean) fun line _ =>
            inner.level_eq line⟩
      · exact joint.elim
      · exact joint.elim
      · exact .inr ⟨by simp [joint.1], joint.2⟩
  drifts _ _ _ adrift := adrift.elim
  valid s ends start valid := .attempt (sim.valid s ends start valid)

variable {reader' : Parser (Option α)}

/-- An item that cannot be read is skipped, and with it at least one token. -/
theorem recovering_sim (live : ∀ token, now token → stopsSkipping token.kind = false)
    (sim : Sim S bound ⟨.inner level, now, 0⟩ reader reader' (optional (.inner level 0) (.outer level 1))) :
    Sim S bound ⟨.inner level, now, 0⟩ (recovering reader missing) (recovering reader' missing)
      (optional (.loose level 1) (.outer level 1)) := by
  have skipped : Sim S bound ⟨.inner level, now, 0⟩ (recovering reader missing) (recovering reader' missing)
      (optional ⟨.loose level, fun x => stopsSkipping x.kind = true, 0⟩ (.outer level 1)) := by
    refine (attempt_sim sim).bind fun result result' same => ?_
    rcases result with error | _ | item <;> rcases result' with error' | _ | item' <;> simp at same
    · have recovers : Sim S bound ((Stage.failed level).past 0) (recover error) (recover error')
          fun _ => ⟨.told level, fun x => stopsSkipping x.kind = true, 0⟩ :=
        (report_failed (toReport_alike same)).next <| skipStatement_sim
      exact recovers.next (.pure (by simp [*]))
    · exact errorHere_sim.bind fun _ _ same => (recover_sim same).next (.pure (by simp [*]))
    · exact .pure (by simp [*])
  have progress := skipped.reads.progress fun a => by
    cases a with
    | none => exact .inr fun token known => by simp [live token known]
    | some item => exact .inl rfl
  refine (skipped.sharpen progress fun _ => rfl).last fun a => ?_
  cases a <;> simp

end Recovering

section Walking

/-- What reading over delimiters leaves as it is. -/
structure Walked (s s' : State) : Prop where
  rest : s'.tokens.dropWhile isIdle = s.tokens.dropWhile isIdle
  valid : isInvalid s.current = false → isInvalid s'.current = false
  scope : s'.scope = s.scope
  reports : s.reports.toList <+: s'.reports.toList

theorem Walked.trans (first : Walked s s₁) (second : Walked s₁ s₂) : Walked s s₂ where
  rest := second.rest.trans first.rest
  valid := second.valid ∘ first.valid
  scope := second.scope.trans first.scope
  reports := first.reports.trans second.reports

theorem dropWhile_dropWhile_invalid (tokens : List Token) :
    (tokens.dropWhile isInvalid).dropWhile isIdle = tokens.dropWhile isIdle := by
  induction tokens with
  | nil => rfl
  | cons token tokens ih =>
    cases bad : isInvalid token with
    | false => simp [bad]
    | true => simpa [bad, isIdle] using ih

theorem acceptTurn_eq (wanted : Token.Kind → Bool) (found : Bool) (s : State) :
    acceptTurn wanted found s =
      if wanted s.current.kind then (.ok (.again true), s.advance) else (.ok (.stop found), s) := by
  show (if wanted s.current.kind then (do advance; return .again true) else pure (.stop found) :
    Parser (Turn Bool Bool)) s = _
  split <;> rfl

theorem State.previous_advance (s : State) : s.advance.previous = s.current := by
  unfold State.advance
  rcases State.dropInvalid s.reports s.ahead with ⟨reports, _ | _⟩ <;> rfl

/-- Reading over delimiters ends before something else, if there is something else. -/
theorem roundsOver_walk (divides : ∀ kind, wanted kind = true → isDelimiter kind = true)
    (fuel : List Token) (found : Bool)
    (s : State) (goes_on : s.tokens.dropWhile isIdle ≠ []) (enough : s.tokens.length ≤ fuel.length) :
    ∃ s', roundsOver (acceptTurn wanted) fuel found s = (.ok (found || wanted s.current.kind), s') ∧ Walked s s' ∧
      wanted s'.current.kind = false ∧ (wanted s.current.kind = false → s' = s) ∧
      (wanted s.current.kind = true → wanted s'.previous.kind = true) := by
  induction fuel generalizing found s with
  | nil => simp [State.tokens] at enough
  | cons _ fuel ih =>
    rw [roundsOver_cons, acceptTurn_eq]
    cases here : wanted s.current.kind with
    | false => exact ⟨s, by simp, ⟨rfl, id, rfl, prefix_rfl⟩, here, fun _ => rfl, by simp⟩
    | true =>
      have idle : isIdle s.current = true := by simp [isIdle, divides _ here]
      have goes_on' : s.ahead.dropWhile isIdle ≠ [] := by
        rwa [State.tokens, dropWhile_cons, if_pos idle] at goes_on
      rw [← dropWhile_dropWhile_invalid] at goes_on'
      have follows : s.behind ≠ [] := by
        intro nothing
        rw [State.behind] at nothing
        simp [nothing] at goes_on'
      have tokens := State.tokens_advance follows
      have shorter : s.advance.tokens.length ≤ fuel.length := by
        have dropped : s.behind.length ≤ s.ahead.length := (dropWhile_sublist _).length_le
        simp only [State.tokens, length_cons] at enough
        rw [tokens]
        omega
      obtain ⟨s', run, walked, other, stays, moves⟩ := ih true s.advance (by rw [tokens]; exact goes_on') shorter
      have previous : wanted s'.previous.kind = true := by
        cases next : wanted s.advance.current.kind with
        | false => rw [stays next, State.previous_advance, here]
        | true => exact moves next
      refine ⟨s', by simpa using run, .trans ?_ walked, other, by simp, fun _ => previous⟩
      obtain ⟨next, rest, behind⟩ := exists_cons_of_ne_nil follows
      have first := head?_dropWhile_not isInvalid s.ahead
      rw [show s.ahead.dropWhile isInvalid = next :: rest from behind] at first
      rw [State.advance_eq behind]
      exact {
        rest := by
          show (next :: rest).dropWhile isIdle = (s.current :: s.ahead).dropWhile isIdle
          rw [dropWhile_cons (x := s.current), if_pos idle, ← behind]
          exact dropWhile_dropWhile_invalid _
        valid := fun _ => by simpa using first
        scope := rfl
        reports := by simp [State.settled] }

theorem goes_on_of_end (ends : EndsOnce s.tokens) : s.tokens.dropWhile isIdle ≠ [] := by
  obtain ⟨_, last, split, isEnd, -⟩ := ends
  intro nothing
  have idle := List.dropWhile_eq_nil_iff.mp nothing last (by simp [split])
  have kind := kind_of_end isEnd
  simp [isIdle, isInvalid, isDelimiter, kind] at idle

theorem State.length_advance_le (s : State) : s.advance.tokens.length ≤ max 1 s.ahead.length := by
  cases behind : s.behind with
  | nil =>
    have nothing : s.advance.ahead = [] := by
      unfold State.behind at behind
      simp only [State.advance, State.dropInvalid_eq, behind]
    simp only [State.tokens, nothing, length_cons, length_nil]
    omega
  | cons _ _ =>
    rw [State.tokens_advance (by simp [behind])]
    have dropped : s.behind.length ≤ s.ahead.length := (dropWhile_sublist _).length_le
    omega

theorem Setting.Beyond.goes_on (beyond : S.Beyond tokens) (apart : S.mode ≠ .whole) :
    tokens.dropWhile isIdle ≠ [] := by
  obtain ⟨_, _, rest, -⟩ := S.anew apart
  rw [beyond, rest]
  exact cons_ne_nil _ _

theorem Setting.Passed.walked (passed : S.Passed s t) (walked : Walked t t') : S.Passed s t' where
  owner := passed.owner.trans (congrArg Prod.fst walked.scope).symm
  declares := passed.declares.trans (congrArg Prod.snd walked.scope).symm
  complains complaint := by
    obtain ⟨report, member, error⟩ := passed.complains complaint
    exact ⟨report, walked.reports.subset member, error⟩
  exact exact_ := absurd (S.exact_whole exact_) passed.apart
  apart := passed.apart
  spent := passed.spent
  beyond := walked.rest.trans passed.beyond
  valid := walked.valid passed.valid

/-- Both runs read over the same delimiters. Where the first one ends, the second goes on over those beyond. -/
theorem Setting.Inner.walk (wanted : Token.Kind → Bool)
    (divides : ∀ kind, wanted kind = true → isDelimiter kind = true)
    (inner : S.Inner level s t) (ends : EndsOnce s.tokens) (fuel fuel' : List Token) (found : Bool)
    (enough : s.tokens.length ≤ fuel.length) (enough' : t.tokens.length ≤ fuel'.length) :
    ∃ s₁ t₁, roundsOver (acceptTurn wanted) fuel found s = (.ok (found || wanted s.current.kind), s₁) ∧
      roundsOver (acceptTurn wanted) fuel' found t = (.ok (found || wanted s.current.kind), t₁) ∧
      Later s s₁ ∧ wanted s₁.current.kind = false ∧ wanted t₁.current.kind = false ∧
      (wanted s.current.kind = false → s₁ = s ∧ t₁ = t) ∧ (S.Inner level s₁ t₁ ∨
        level = 0 ∧ s₁.current.isEnd = true ∧ S.Passed s₁ t₁ ∧ wanted s₁.previous.kind = true ∧
          wanted t₁.previous.kind = true) := by
  induction fuel generalizing fuel' found s t with
  | nil => simp [State.tokens] at enough
  | cons _ fuel ih =>
    rcases fuel' with _ | ⟨_, fuel'⟩
    · simp [State.tokens] at enough'
    obtain ⟨_, current, -⟩ := exists_span_of_alike inner.head
    have kind : t.current.kind = s.current.kind := by rw [current]
    rw [roundsOver_cons, roundsOver_cons, acceptTurn_eq, acceptTurn_eq, kind]
    cases here : wanted s.current.kind with
    | false =>
      exact ⟨s, t, by simp, by simp, .refl ends, here, by rw [kind, here], fun _ => ⟨rfl, rfl⟩, .inl inner⟩
    | true =>
      have delimiter := divides _ here
      have more := more_of_delimiter delimiter
      have same_level : level + closes s.current ≤ level + opens s.current := by
        rw [closes_of_delimiter delimiter]
        omega
      have later := Later.advance ends more
      have fewer := Later.length_advance ends more
      have longer := inner.length_le
      have left : s.advance.tokens.length ≤ fuel.length := by
        simp only [length_cons] at enough
        omega
      have right : t.advance.tokens.length ≤ fuel'.length := by
        have shorter := t.length_advance_le
        simp only [State.tokens, length_cons] at enough' shorter fewer longer ⊢
        omega
      rcases inner.advance ends more (.inl same_level) with after | ⟨passed, zero, -, -, isEnd⟩
      · obtain ⟨s₁, t₁, run, run', later', other, other', -, joint⟩ :=
          ih after later.ends fuel' true left right
        refine ⟨s₁, t₁, by simpa using run, by simpa using run', later.trans later', other, other', ?_, joint⟩
        simp
      · have at_end : wanted s.advance.current.kind = false := by
          have kind := kind_of_end isEnd
          rw [kind]
          exact Bool.eq_false_iff.mpr fun yes => absurd (divides _ yes) (by decide)
        obtain ⟨s₁, run, -, -, stays, -⟩ := roundsOver_walk divides fuel true s.advance
          (goes_on_of_end later.ends) left
        obtain rfl := stays at_end
        have goes_on := passed.beyond.goes_on passed.apart
        obtain ⟨t₁, run', walked, other', stays', moves'⟩ :=
          roundsOver_walk divides fuel' true t.advance goes_on right
        refine ⟨s.advance, t₁, by simpa using run, by simpa using run', later, at_end, other', by simp, ?_⟩
        refine .inr ⟨zero, isEnd, passed.walked walked, by rw [State.previous_advance, here], ?_⟩
        cases next : wanted t.advance.current.kind with
        | false => rw [stays' next, State.previous_advance, kind, here]
        | true => exact moves' next

theorem acceptAll_eq (wanted : Token.Kind → Bool) :
    acceptAll wanted s = roundsOver (acceptTurn wanted) s.tokens false s := rfl

theorem Later.handBack (later : Later s.advance s₁) (ends : EndsOnce s.tokens)
    (more : s.current.isEnd = false) : Later s (s₁.handBack s.current) := by
  have first := Later.advance ends more
  have whole := first.trans later
  have tokens := State.tokens_advance (ends.tail more).dropWhile_isInvalid.ne_nil
  refine ⟨?_, later.ends.cons more, whole.reports, Nat.le_trans whole.alarms ?_, whole.skips, id, whole.scope⟩
  · refine List.Sublist.cons_cons _ (later.tokens.trans ?_)
    rw [tokens]
    exact dropWhile_sublist _
  · simp only [State.alarms, State.handBack, countP_cons]
    omega

/-- Behind delimiters a source is read on, also if the first of them is handed back. -/
theorem acceptAll_later (wanted : Token.Kind → Bool)
    (divides : ∀ kind, wanted kind = true → isDelimiter kind = true)
    (ends : EndsOnce s.tokens) : ∃ s₁, acceptAll wanted s = (.ok (wanted s.current.kind), s₁) ∧ Later s s₁ ∧
      Later s (if wanted s.current.kind then s₁.handBack s.current else s₁) := by
  obtain ⟨s₁, run, -, -, stays, -⟩ := roundsOver_walk divides s.tokens false s
    (goes_on_of_end ends) (Nat.le_refl _)
  refine ⟨s₁, by simpa [acceptAll_eq] using run, ?_⟩
  cases here : wanted s.current.kind with
  | false =>
    rw [stays here]
    exact ⟨.refl ends, .refl ends⟩
  | true =>
    have more := more_of_delimiter (divides _ here)
    have turns : ∀ a b, _ → Sim .identical 0 (.loose 0 0) (acceptTurn wanted a) (acceptTurn wanted b) _ :=
      fun _ _ => acceptTurn_sim divides
    have later :=
      ((Sim.roundsOver (b := true) turns s.ahead rfl).reads s.advance (Later.advance ends more).ends trivial).1
    have next : roundsOver (acceptTurn wanted) s.tokens false s = roundsOver
        (acceptTurn wanted) s.ahead true s.advance := by
      rw [State.tokens, roundsOver_cons, acceptTurn_eq, if_pos here]
    rw [← next, run] at later
    exact ⟨(Later.advance ends more).trans later, later.handBack ends more⟩

end Walking

section Blocks

variable [Placed α] {q : Parser (Option α)}

/-- Tokens that open a block. -/
def opensBlock (kind : Token.Kind) : Bool := kind = .indent || kind = .symbol .leftBrace

/-- A reader of a block, which finds one where it is opened and nowhere else. -/
structure Opens {α : Type} (p : Parser (Option α)) : Prop where
  eq_none : ∀ s : State, opensBlock s.current.kind = false → p s = (.ok none, s)
  ne_none : ∀ s s' : State, opensBlock s.current.kind = true → p s ≠ (.ok none, s')

theorem beforeBlock_eq {α : Type} (p : Parser (Option α))
    (walk : newlines s = (.ok found, s₁)) :
    beforeBlock p s = match p s₁ with
      | (.ok none, s₂) => (.ok none, if found then s₂.handBack s.current else s₂)
      | (.ok (some a), s₂) => (.ok (some a), s₂)
      | (.error error, s₂) => (.error error, s₂) := by
  show (newlines >>= fun found => p >>= fun result? =>
    handBackIf (result?.isNone && found) s.current >>= fun _ => pure result?) s = _
  rw [Run.bind_of_ok walk, Run.bind_eq]
  rcases p s₁ with ⟨_ | _ | _, s₂⟩ <;> cases found <;> rfl

section Finding

variable {α : Type}

theorem Opens.beforeBlock_of_open (opens : Opens p) (walk : newlines s = (.ok found, s₁))
    (here : opensBlock s₁.current.kind = true) : beforeBlock p s = p s₁ := by
  rw [beforeBlock_eq p walk]
  rcases run : p s₁ with ⟨_ | _ | _, s₂⟩
  · rfl
  · exact absurd run (opens.ne_none s₁ s₂ here)
  · rfl

theorem Opens.beforeBlock_of_closed (opens : Opens p) (walk : newlines s = (.ok found, s₁))
    (here : opensBlock s₁.current.kind = false) :
    beforeBlock p s = (.ok none, if found then s₁.handBack s.current else s₁) := by
  rw [beforeBlock_eq p walk, opens.eq_none s₁ here]

end Finding

theorem Setting.Passed.closed (passed : S.Passed s t) :
    opensBlock t.current.kind = false ∧ t.current.kind ≠ .keyword .else_ := by
  obtain ⟨_, _, rest, anew⟩ := S.anew passed.apart
  have beyond := passed.beyond
  cases idle : isIdle t.current with
  | true =>
    have delimiter : isDelimiter t.current.kind = true := by simpa [isIdle, passed.valid] using idle
    cases kind : t.current.kind <;> simp_all [isDelimiter, opensBlock]
  | false =>
    rw [Setting.Beyond, State.tokens, dropWhile_cons, idle, rest] at beyond
    obtain ⟨rfl, -⟩ := List.cons.inj beyond
    simp only [startsAnew, Bool.and_eq_true, decide_eq_true_eq] at anew
    exact ⟨by simp [opensBlock, anew.1.1.2, anew.1.2], anew.2⟩

theorem Setting.Agree.handBack (agree : S.Agree s t) (x : Token) (valid : isInvalid y = false) :
    S.Agree (s.handBack x) (t.handBack y) :=
  ⟨agree.owner, agree.declares, agree.complains, fun exact_ =>
    (agree.exact exact_).imp_left fun told => told.carry rfl rfl (strays_eq valid)⟩

theorem Setting.Inner.handBack (inner : S.Inner level s t) (valid : isInvalid y = false)
    (same : Alike S.view x y) (flat : opens x = 0 ∧ closes x = 0) : S.Inner level (s.handBack x) (t.handBack y) where
  toAgree := inner.toAgree.handBack x valid
  kind := inner.kind
  behind := inner.behind
  valid := valid
  tokens := by
    show S.Ahead level (x :: s.tokens) (S.thin (y :: t.tokens))
    rw [S.thin_cons valid]
    exact inner.tokens.cons same flat

/-- The line end before the end of the first source is read again. -/
theorem Setting.Passed.handBack (passed : S.Passed s t) (ends : EndsOnce s.tokens)
    (isEnd : s.current.isEnd = true) (kinds : s.previous.kind = t.previous.kind) (same : Alike S.view x y)
    (newline : x.kind = .newline) (valid : isInvalid y = false) : S.Inner 0 (s.handBack x) (t.handBack y) where
  toAgree := passed.toAgree.handBack x valid
  kind := kinds
  behind := S.blind passed.apart _ _
  valid := valid
  tokens := by
    rw [S.thin_of_apart passed.apart]
    have nothing := ends.eq_nil_of_end isEnd
    refine ⟨[x], s.current, [y], t.tokens, ?_, rfl, by simp [same], ?_⟩
    · show x :: s.current :: s.ahead = _
      rw [nothing]
      rfl
    · have beyond := passed.beyond
      unfold Setting.Border
      cases mode : S.mode with
      | whole => exact absurd mode passed.apart
      | clean => simp [beyond, endsLine, opens, newline]
      | line => simp [beyond, endsLine, opens, closes, newline]

theorem beforeBlock_reads {α : Type} {p : Parser (Option α)} (opens : Opens p)
    (reads : Reads (.inner level 0) p (optional (.inner level 0) (.outer level 1))) :
    Reads ⟨.inner level, now, 0⟩ (beforeBlock p) (optional (.inner level 0) (.outer level 1)) := by
  intro _ ends _
  obtain ⟨s₁, walk, before, back⟩ := acceptAll_later (· = .newline) (by simp [isDelimiter]) ends
  have shorter := before.tokens.length_le
  cases here : opensBlock s₁.current.kind with
  | true =>
    obtain ⟨after, ok⟩ := reads s₁ before.ends trivial
    rw [opens.beforeBlock_of_open walk here]
    refine ⟨before.trans after, fun a result => ?_⟩
    obtain ⟨fewer, known⟩ := ok a result
    exact ⟨by dsimp only at fewer ⊢; omega, known⟩
  | false =>
    rw [opens.beforeBlock_of_closed walk here]
    refine ⟨back, fun a same => ?_⟩
    cases same
    exact ⟨back.tokens.length_le, trivial⟩

theorem beforeBlock_sim (opens : Opens p) (opens' : Opens q) (sim : Sim S bound (.inner level 0) p q
      (optional (.inner level 0) (.outer level 1))) :
        Sim S bound ⟨.inner level, now, 0⟩ (beforeBlock p) (beforeBlock q)
      (optional (.inner level 0) (.outer level 1)) where
  reads := beforeBlock_reads opens sim.reads
  meets s t ends light start together := by
    have inner := together
    have same := inner.head
    obtain ⟨s₁, t₁, walk, walk', later, -, -, stays, after⟩ :=
      inner.walk (· = .newline) (by simp [isDelimiter]) ends s.tokens t.tokens false (Nat.le_refl _) (Nat.le_refl _)
    have weigh := later.weight_add
    have shorter := later.tokens.length_le
    -- where no line end was read, both runs are still where they were
    have joint : S.Inner level s₁ t₁ ∨ s.current.kind = .newline ∧ level = 0 ∧ s₁.current.isEnd = true ∧
        S.Passed s₁ t₁ ∧ s₁.previous.kind = t₁.previous.kind := by
      cases here : decide (s.current.kind = .newline) with
      | false =>
        obtain ⟨rfl, rfl⟩ := stays here
        exact .inl inner
      | true =>
        rcases after with joint | ⟨zero, isEnd, passed, previous, previous'⟩
        · exact .inl joint
        · refine .inr ⟨of_decide_eq_true here, zero, isEnd, passed, ?_⟩
          rw [of_decide_eq_true previous, of_decide_eq_true previous']
    rcases joint with joint | ⟨newline, rfl, isEnd, passed, kinds⟩
    · obtain ⟨_, current, -⟩ := exists_span_of_alike joint.head
      have kinds : t₁.current.kind = s₁.current.kind := by rw [current]
      cases here : opensBlock s₁.current.kind with
      | true =>
        rw [opens.beforeBlock_of_open walk here, opens'.beforeBlock_of_open walk' (kinds ▸ here)]
        exact sim.meets s₁ t₁ later.ends (by dsimp only at light ⊢; omega) trivial joint
      | false =>
        rw [opens.beforeBlock_of_closed walk here, opens'.beforeBlock_of_closed walk' (kinds ▸ here)]
        refine .inr ⟨rfl, ?_⟩
        split
        · rename_i found
          have newline := of_decide_eq_true found
          exact joint.handBack inner.valid same (by simp [Parsing.opens, closes, newline])
        · exact joint
    · have kind := kind_of_end isEnd
      rw [opens.beforeBlock_of_closed walk (by simp [opensBlock, kind]),
        opens'.beforeBlock_of_closed walk' passed.closed.1, if_pos (by simp [newline]), if_pos (by simp [newline])]
      exact .inr ⟨rfl, passed.handBack later.ends isEnd kinds same newline inner.valid⟩
  drifts _ _ _ adrift := adrift.elim
  valid s ends start valid := by
    have lines : Sim S bound (.loose level 0) newlines newlines _ := newlines_sim
    refine .bind (.note valid rfl rfl) fun _ same => ?_
    cases same
    refine lines.andThen ends trivial valid fun found later valid' => ?_
    refine sim.andThen later.ends trivial valid' fun result? _ valid'' => ?_
    exact (Throughout.handBackIf valid'' valid _).andPure fun _ => result?

end Blocks

end DreamMaker.Parsing
