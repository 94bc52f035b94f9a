import DreamMaker.Proofs.Parsing.Termination

/-!
The declarations of a file, one turn of the loop after the other. What is read at the start of a turn does not
depend on what was read before it.
-/

namespace DreamMaker.Parsing

open List State SourceFile

variable {r : Rules} {s₁ s : State}

/-- Tokens that are read over between the declarations of a file. -/
def isBetween (token : Token) : Bool := isInvalid token || dividesFile token.kind

section Lists

variable {q : α → Bool}

theorem divide_of_imp (weaker : ∀ a, p a = true → q a = true) (as : List α) :
    as.takeWhile q = as.takeWhile p ++ (as.dropWhile p).takeWhile q ∧
      as.dropWhile q = (as.dropWhile p).dropWhile q := by
  induction as with
  | nil => exact ⟨rfl, rfl⟩
  | cons a as ih =>
    cases first : p a with
    | false => simp [first]
    | true => simpa [first, weaker a first] using ih

end Lists

section Settling

/-- The state at the next declaration of a file, or at its end. -/
def State.settle (s : State) : State := (acceptAll dividesFile s).2

/-- What reading over the tokens between two declarations does. -/
structure Settles (s s' : State) : Prop where
  tokens : s'.tokens = s.tokens.dropWhile isBetween
  skips : s'.skips = s.skips
  reports : s'.reports.toList =
    s.reports.toList ++ ((s.tokens.takeWhile isBetween).filter isInvalid).map invalid

theorem isBetween_of_invalid (token : Token) (invalid : isInvalid token = true) : isBetween token = true := by
  simp [isBetween, invalid]

theorem not_isBetween_of_end (ends : token.isEnd = true) : isBetween token = false := by
  have kind := kind_of_end ends
  simp [isBetween, isInvalid, dividesFile, isDelimiter, kind]

theorem Settles.advance (ends : EndsOnce s.tokens) (divides : dividesFile s.current.kind = true)
    (valid : isInvalid s.current = false) (settles : Settles s.advance s') : Settles s s' := by
  have between : isBetween s.current = true := by simp [isBetween, divides]
  have more : s.current.isEnd = false := by
    cases atEnd : s.current.isEnd with
    | false => rfl
    | true =>
      rw [not_isBetween_of_end atEnd] at between
      cases between
  have tokens := State.tokens_advance (ends.tail more).dropWhile_isInvalid.ne_nil
  obtain ⟨_, _, behind⟩ := exists_cons_of_ne_nil (ends.tail more).dropWhile_isInvalid.ne_nil
  have state := State.advance_eq behind
  have dropped : (s.ahead.takeWhile isInvalid).filter isInvalid = s.ahead.takeWhile isInvalid :=
    filter_eq_self.mpr fun _ => mem_takeWhile_imp
  refine ⟨?_, settles.skips.trans (by rw [state]; rfl), ?_⟩
  · rw [settles.tokens, tokens, State.tokens, dropWhile_cons_of_pos between,
      (divide_of_imp isBetween_of_invalid s.ahead).2]
    rfl
  · rw [settles.reports, tokens, State.tokens, takeWhile_cons_of_pos between,
      (divide_of_imp isBetween_of_invalid s.ahead).1, filter_cons, valid, filter_append, dropped, state]
    simp [State.settled, State.behind]

theorem roundsOver_settles (fuel : List Token) (found : Bool) (s : State) (ends : EndsOnce s.tokens)
    (valid : isInvalid s.current = false) (enough : s.tokens.length ≤ fuel.length) :
    ∃ found' s', roundsOver (acceptTurn dividesFile) fuel found s = (.ok found', s') ∧ Settles s s' := by
  induction fuel generalizing found s with
  | nil => simp [tokens] at enough
  | cons _ fuel ih =>
    rw [roundsOver_cons, acceptTurn_eq]
    cases divides : dividesFile s.current.kind with
    | false =>
      have stops : isBetween s.current = false := by simp [isBetween, divides, valid]
      exact ⟨found, s, rfl, by simp [tokens, stops], rfl, by simp [tokens, stops]⟩
    | true =>
      have more : s.current.isEnd = false := by
        cases kind : s.current.kind <;> simp_all [Token.isEnd, dividesFile, isDelimiter]
      have later := Later.advance ends more
      have fewer := Later.length_advance ends more
      simp only [length_cons] at enough
      obtain ⟨found', s', run, settles⟩ := ih true s.advance later.ends (later.valid valid) (by omega)
      exact ⟨found', s', run, settles.advance ends divides valid⟩

/-- A run within a source, at a token that is not dropped. -/
structure Sits (s : State) : Prop where
  ends : EndsOnce s.tokens
  valid : isInvalid s.current = false

theorem Later.sits (later : Later s s') (sits : Sits s) : Sits s' := ⟨later.ends, later.valid sits.valid⟩

theorem Sits.ofTokens (ends : EndsOnce source) : Sits (.ofTokens source) :=
  ⟨ends.ofTokens {}, isInvalid_ofTokens ends⟩

theorem scope_ofTokens (ends : EndsOnce source) : (ofTokens source log).scope = (before source log).scope := by
  obtain ⟨_, _, behind⟩ := exists_cons_of_ne_nil ends.dropWhile_isInvalid.ne_nil
  rw [ofTokens, advance_eq (s := .before source log) behind]
  rfl

theorem acceptAll_settles (sits : Sits s) :
    ∃ found, acceptAll dividesFile s = (.ok found, s.settle) ∧ Settles s s.settle := by
  obtain ⟨found, s', run, settles⟩ := roundsOver_settles s.tokens false s sits.ends sits.valid (Nat.le_refl _)
  have whole : acceptAll dividesFile s = (.ok found, s') := run
  have same : s.settle = s' := by rw [settle, whole]
  rw [same]
  exact ⟨found, whole, settles⟩

theorem Sits.settles (sits : Sits s) : Settles s s.settle := by
  obtain ⟨-, -, settles⟩ := acceptAll_settles sits
  exact settles

theorem settle_later (ends : EndsOnce s.tokens) : Later s s.settle := by
  have walks : Sim .identical 0 (.told 0 0) (acceptAll dividesFile) (acceptAll dividesFile) _ := acceptAll_told rfl
  exact (walks.reads s ends trivial).1

end Settling

section Fresh

variable {α : Type}

/-- Here a reader does not look at what was read before. -/
def Fresh (p : Parser α) (s : State) : Prop := ∀ previous, p { s with previous } = p s

theorem Fresh.bind (first : Fresh p s) (f : α → Parser β) : Fresh (p >>= f) s := by
  intro previous
  simp [first previous]

theorem Fresh.after (run : ∀ previous, p { s with previous } = (.ok a, { s with previous }))
    {f : α → Parser β} (rest : Fresh (f a) s) : Fresh (p >>= f) s := by
  intro previous
  simp [run previous, run s.previous, rest previous]

theorem Fresh.look {look : State → α} (run : ∀ t, p t = (.ok (look t), t))
    (same : ∀ previous, look { s with previous } = look s) {f : α → Parser β} (rest : Fresh (f (look s)) s) :
    Fresh (p >>= f) s :=
  .after (fun previous => by rw [run, same]) rest

theorem State.advance_previous (s : State) (previous : Token) :
    ({ s with previous } : State).advance = s.advance := rfl

theorem advance_fresh : Fresh advance s := fun _ => by rw [run_advance, run_advance, s.advance_previous]

theorem accept_fresh (found : s.current.kind = wanted) : Fresh (accept wanted) s := by
  intro _
  rw [run_accept, run_accept, if_pos found, if_pos found, s.advance_previous]

theorem Fresh.reject (other : s.current.kind ≠ wanted) {f : Bool → Parser α} (rest : Fresh (f false) s) :
    Fresh (accept wanted >>= f) s :=
  .after (fun _ => by rw [run_accept, if_neg other]) rest

/-- Tokens that a path may start with. -/
def startsPath (kind : Token.Kind) : Bool :=
  kind = .symbol .slash || kind = .symbol .colon || kind = .symbol .period || isSegment kind

theorem anchor_eq_relative (slash : s.current.kind ≠ .symbol .slash) (colon : s.current.kind ≠ .symbol .colon)
    (period : s.current.kind ≠ .symbol .period) : anchor s = (.ok .relative, s) := by
  simp [anchor, slash, colon, period]

theorem path?_fresh (starts : startsPath s.current.kind = true) : Fresh path? s := by
  by_cases slash : s.current.kind = .symbol .slash
  · exact .bind (.bind (accept_fresh slash) _) _
  by_cases colon : s.current.kind = .symbol .colon
  · exact .bind (.reject slash (.bind (accept_fresh colon) _)) _
  by_cases period : s.current.kind = .symbol .period
  · exact .bind (.reject slash (.reject colon (.bind (accept_fresh period) _))) _
  have segment : isSegment s.current.kind = true := by simpa [startsPath, slash, colon, period] using starts
  refine .after (fun _ => anchor_eq_relative slash colon period) (.bind (.look run_current (fun _ => rfl) ?_) _)
  rw [if_pos segment]
  exact .bind advance_fresh _

theorem path?_eq_none (other : startsPath s.current.kind = false) : path? s = (.ok none, s) := by
  obtain ⟨⟨⟨slash, colon⟩, period⟩, segment⟩ :
    ((s.current.kind ≠ .symbol .slash ∧ s.current.kind ≠ .symbol .colon) ∧
      s.current.kind ≠ .symbol .period) ∧ isSegment s.current.kind = false := by
    simpa [startsPath] using other
  simp [path?, anchor_eq_relative slash colon period, segments?, segment?, segment]

theorem declaration?_fresh (starts : startsPath s.current.kind = true) : Fresh (declaration? r) s :=
  .look run_here (fun _ => rfl) (.bind (path?_fresh starts) _)

theorem declaration?_eq_none (other : startsPath s.current.kind = false) : declaration? r s = (.ok none, s) := by
  simp [declaration?, path?_eq_none other]

@[simp] theorem run_errorHere (kind : ParseError.Kind) (s : State) : errorHere kind message s =
      (.ok { kind, message, span := s.current.span, found? := some s.current.kind.name }, s) := rfl

theorem leave_fresh (more : s.current.isEnd = false) : Fresh leave s := by
  have kind : s.current.kind ≠ .endOfFile := by simpa [Token.isEnd] using more
  refine .look (run_check · .endOfFile) (fun _ => rfl) ?_
  rw [if_neg (by simpa using kind)]
  exact advance_fresh

theorem skipDeclaration_fresh (more : s.current.isEnd = false) : Fresh (skipDeclaration start error) s := by
  intro previous
  exact (leave_fresh (s := { s with reports := s.reports ++ #[error.toReport] }) more).bind _ previous

/-- What the first token of a declaration follows does not matter. -/
theorem topLevel?_fresh (more : s.current.isEnd = false) : Fresh (topLevel? (rulesUpTo (depth + 1))) s := by
  refine .look run_here (fun _ => rfl) ?_
  cases starts : startsPath s.current.kind with
  | true =>
    refine .bind (fun previous => ?_) _
    have same : rulesUpTo (depth + 1) .declaration { s with previous } = rulesUpTo (depth + 1) .declaration s :=
      declaration?_fresh starts previous
    rw [attempt_eq, attempt_eq, same]
  | false =>
    have nothing (previous : Token) : attempt (rulesUpTo (depth + 1) .declaration) { s with previous } =
        (.ok (.ok none), { s with previous }) := by
      have none_found : rulesUpTo (depth + 1) .declaration { s with previous } = (.ok none, { s with previous }) :=
        declaration?_eq_none starts
      rw [attempt_eq, none_found]
    refine .after nothing (.look (run_errorHere .unexpectedToken) (fun _ => rfl) ?_)
    exact .bind (skipDeclaration_fresh more) _

end Fresh

section Skipping

namespace State

/-- The next state, unless this is the last one. -/
def left (s : State) : State := if s.current.isEnd then s else s.advance

/-- The state at the next line without indentation. -/
def flush (s : State) : State := (rounds () skipLineTurn s).2

/-- Notes that tokens were skipped up to here. -/
def noteSkip (s : State) (start : Span) : State :=
  { s with
    skips := s.skips.push (start, s.current.span)
    reports := s.reports ++ #[.located .recovery start s!"Error recovery had to skip to {s.current.span.render}"] }

/-- The state behind a declaration that could not be read. -/
def skip (s : State) (start : Span) (error : ParseError) : State :=
  ({ s with reports := s.reports ++ #[error.toReport] } : State).left.flush.noteSkip start

/-- The error that no declaration starts here. -/
def missing (s : State) : ParseError :=
  { kind := .unexpectedToken, message := "Expected a type path", span := s.current.span, found? :=
    some s.current.kind.name }

end State

theorem leave_eq : leave s = (.ok (), s.left) := by
  by_cases atEnd : s.current.kind = .endOfFile <;> simp [leave, left, Token.isEnd, atEnd]

theorem skipLineTurn_eq :
    skipLineTurn () s = if startsTopLevel s.current then (.ok (.stop ()), s) else (.ok (.again ()), s.advance) := by
  show (if startsTopLevel s.current then (pure (.stop ()) : Parser (Turn Unit Unit))
    else do advance; return .again ()) s = _
  split <;> rfl

section

variable (ends : EndsOnce s.tokens)

include ends

theorem left_later : Later s s.left := by
  unfold left
  cases more : s.current.isEnd with
  | true => exact .refl ends
  | false => exact .advance ends more

theorem flush_later : rounds () skipLineTurn s = (.ok (), s.flush) ∧ Later s s.flush := by
  have skips : Sim .identical 0 (.told 0 0) (rounds () skipLineTurn) (rounds () skipLineTurn) _ :=
    .rounds (fun _ _ _ => skipLineTurn_sim) rfl
  obtain ⟨_, ok, -⟩ := skipLines_total s ends
  exact ⟨Prod.ext ok rfl, (skips.reads s ends trivial).1⟩

theorem noteSkip_later : Later s (s.noteSkip start) := by
  have reported :=
    Later.report ends #[.located .recovery start s!"Error recovery had to skip to {s.current.span.render}"]
  exact { reported with
    skips := by simp [noteSkip] }

theorem skip_later : Later s (s.skip start error) := by
  have reported := Later.report ends #[error.toReport]
  have left := left_later reported.ends
  have flushed := (flush_later left.ends).2
  exact ((reported.trans left).trans flushed).trans (noteSkip_later flushed.ends)

theorem skipDeclaration_eq (start : Span) (error : ParseError) :
    skipDeclaration start error s = (.ok (), s.skip start error) := by
  have reported := Later.report ends #[error.toReport]
  refine (Run.bind_of_ok (reportAll_eq #[error.toReport] s)).trans ((Run.bind_of_ok leave_eq).trans ?_)
  exact (Run.bind_of_ok (flush_later (left_later reported.ends).ends).1).trans rfl

end

section Declarations

theorem topLevel?_of_some (run : r .declaration s = (.ok (some declaration), s₁)) :
    topLevel? r s = (.ok (some declaration), s₁) := by
  simp [topLevel?, run]

theorem topLevel?_of_none (run : r .declaration s = (.ok none, s₁)) (ends : EndsOnce s₁.tokens) :
    topLevel? r s = (.ok none, s₁.skip s.current.span s₁.missing) := by
  simp [topLevel?, run, skipDeclaration_eq ends, missing]

theorem topLevel?_of_error (run : r .declaration s = (.error error, s₁)) (ends : EndsOnce s₁.tokens) :
    topLevel? r s = (.ok none, s₁.skip s.current.span error) := by
  simp [topLevel?, run, skipDeclaration_eq ends]

end Declarations

end Skipping

section Files

theorem settle_current (sits : Sits s) : isBetween s.settle.current = false := by
  have first := head?_dropWhile_not isBetween s.tokens
  rw [← sits.settles.tokens] at first
  simpa [tokens] using first

/-- A declaration of a file is read, or skipped with a report and a note. -/
theorem topLevel?_cases (ends : EndsOnce s.tokens) :
    (∃ declaration s₁, topLevel? (rulesUpTo depth) s = (.ok (some declaration), s₁) ∧ Later s s₁) ∨
      ∃ s₁ error, topLevel? (rulesUpTo depth) s = (.ok none, s₁.skip s.current.span error) ∧ Later s s₁ := by
  have declaration : Sim .identical depth (.inner 0 0) (rulesUpTo depth .declaration)
      (rulesUpTo (depth + 0) .declaration) _ := (rulesUpTo_sim depth 0).declaration
  have later := (declaration.reads s ends trivial).1
  rcases run : rulesUpTo depth .declaration s with ⟨error | _ | declaration, s₁⟩ <;> rw [run] at later
  · exact .inr ⟨s₁, error, topLevel?_of_error run later.ends, later⟩
  · exact .inr ⟨s₁, s₁.missing, topLevel?_of_none run later.ends, later⟩
  · exact .inl ⟨declaration, s₁, topLevel?_of_some run, later⟩

theorem topLevel?_later (ends : EndsOnce s.tokens)
    (run : topLevel? (rulesUpTo depth) s = (.ok found?, s₁)) : Later s s₁ := by
  rcases topLevel?_cases ends with ⟨_, s₂, found, later⟩ | ⟨s₂, _, skipped, later⟩
  · rw [found] at run
    cases run
    exact later
  · rw [skipped] at run
    cases run
    exact later.trans (skip_later later.ends)

/-- What is skipped is reported, and noted with the place where the skipping stops. -/
theorem topLevel?_none (ends : EndsOnce s.tokens) (run : topLevel? (rulesUpTo depth) s = (.ok none, s₁)) :
    s₁.reports.toList ≠ [] ∧ (s.current.span, s₁.current.span) ∈ s₁.skips.toList := by
  rcases topLevel?_cases ends with ⟨_, s₂, found, -⟩ | ⟨s₂, _, skipped, -⟩
  · rw [found] at run
    cases run
  · rw [skipped] at run
    cases run
    simp [skip, noteSkip]

/-- From a state at a declaration the declarations of a file are read up to its end. -/
inductive Leads (r : Rules) : State → List Declaration → State → Prop
  | stop {s : State} (atEnd : s.current.isEnd = true) : Leads r s [] s
  | turn {s s₁ t : State} {found? : Option Declaration} {more : List Declaration} (goes_on : s.current.isEnd = false)
      (run : topLevel? r s = (.ok found?, s₁)) (rest : Leads r s₁.settle more t) : Leads r s
        (found?.toList ++ more) t

variable {declarations : List Declaration} {found? : Option Declaration}

theorem Leads.later (leads : Leads (rulesUpTo depth) s declarations t) (ends : EndsOnce s.tokens) : Later s t := by
  induction leads with
  | stop => exact .refl ends
  | turn _ run _ ih =>
    have turn := topLevel?_later ends run
    have settled := turn.trans (settle_later turn.ends)
    exact settled.trans (ih settled.ends)

theorem Leads.cases_cons (leads : Leads r s (declaration :: more) t) :
    ∃ found? s₁ rest, s.current.isEnd = false ∧ topLevel? r s = (.ok found?, s₁) ∧
      Leads r s₁.settle rest t := by
  generalize all : declaration :: more = declarations at leads
  cases leads with
  | stop => cases all
  | turn goes_on run rest => exact ⟨_, _, _, goes_on, run, rest⟩

/-- A run that reports nothing skips nothing. -/
theorem Leads.found_of_silent (rest : Leads (rulesUpTo depth) s₁.settle declarations t)
    (ends : EndsOnce s.tokens) (run : topLevel? (rulesUpTo depth) s = (.ok found?, s₁))
    (silent : t.reports.toList = []) :
    ∃ declaration, found? = some declaration ∧ s₁.reports.toList = [] := by
  have settled := settle_later (topLevel?_later ends run).ends
  have kept := (settled.trans (rest.later settled.ends)).reports
  rw [silent] at kept
  have none_reported := prefix_nil.mp kept
  cases found? with
  | none => exact absurd none_reported (topLevel?_none ends run).1
  | some declaration => exact ⟨declaration, rfl, none_reported⟩

theorem Leads.atEnd_of_silent (leads : Leads (rulesUpTo depth) s [] t) (ends : EndsOnce s.tokens)
    (silent : t.reports.toList = []) : s.current.isEnd = true := by
  generalize nothing : [] = declarations at leads
  cases leads with
  | stop atEnd => exact atEnd
  | turn _ run rest =>
    obtain ⟨_, rfl, -⟩ := rest.found_of_silent ends run silent
    cases nothing

theorem fileTurn_eq (sits : Sits s) :
    fileTurn r done s = if s.settle.current.isEnd then (.ok (.stop done),
      s.settle) else match topLevel? r s.settle with
      | (.ok found?, s₁) => (.ok (.again (done ++ found?.toList)), s₁) | (.error error, s₁) =>
        (.error error, s₁) := by
  obtain ⟨found, run, -⟩ := acceptAll_settles sits
  by_cases atEnd : s.settle.current.kind = .endOfFile
  · simp [fileTurn, run, Token.isEnd, atEnd]
  · rcases found : topLevel? r s.settle with ⟨_ | _, _⟩ <;> simp [fileTurn, run, Token.isEnd, atEnd, found]

section Turn

variable (sits : Sits s) (goes_on : s.settle.current.isEnd = false)
  (run : topLevel? (rulesUpTo depth) s.settle = (.ok found?, s₁))

include sits goes_on run

theorem fileTurn_of_turn : fileTurn (rulesUpTo depth) done s = (.ok (.again (done ++ found?.toList)), s₁) := by
  rw [fileTurn_eq sits, if_neg (Bool.eq_false_iff.mp goes_on), run]

theorem length_lt_of_turn : s₁.tokens.length < s.tokens.length := by
  have shrinks := ((loopsShrink depth).file [] s sits.ends).2 ([] ++ found?.toList)
  rw [fileTurn_of_turn sits goes_on run] at shrinks
  exact shrinks rfl

end Turn

theorem Leads.roundsOver (leads : Leads (rulesUpTo depth) s.settle declarations t) (sits : Sits s) (fuel : List Token)
    (enough : s.tokens.length ≤ fuel.length) (done : List Declaration) :
    Parsing.roundsOver (fileTurn (rulesUpTo depth)) fuel done s = (.ok (done ++ declarations), t) := by
  generalize settled : s.settle = s' at leads
  induction leads generalizing s fuel done with
  | stop atEnd =>
    subst settled
    obtain ⟨token, fuel, rfl⟩ := exists_cons_of_length_pos (Nat.lt_of_lt_of_le (by simp [tokens]) enough)
    rw [roundsOver_cons, fileTurn_eq sits, if_pos atEnd, append_nil]
  | @turn _ _ t found? _ goes_on run _ ih =>
    subst settled
    obtain ⟨token, fuel, rfl⟩ := exists_cons_of_length_pos (Nat.lt_of_lt_of_le (by simp [tokens]) enough)
    have first := settle_later sits.ends
    have turn := first.trans (topLevel?_later first.ends run)
    have shorter := length_lt_of_turn sits goes_on run
    rw [length_cons] at enough
    rw [roundsOver_cons, fileTurn_of_turn sits goes_on run]
    have rounds := ih (turn.sits sits) fuel (by omega) (done ++ found?.toList) rfl
    rwa [append_assoc] at rounds

theorem exists_leads (depth : Nat) (s : State) (sits : Sits s) :
    ∃ declarations t, Leads (rulesUpTo depth) s.settle declarations t := by
  cases goes_on : s.settle.current.isEnd with
  | true => exact ⟨[], _, .stop goes_on⟩
  | false =>
    have first := settle_later sits.ends
    obtain ⟨_, ok, -⟩ := topLevel?_total depth s.settle first.ends
    rcases run : topLevel? (rulesUpTo depth) s.settle with ⟨_, s₁⟩
    rw [run] at ok
    subst ok
    have turn := first.trans (topLevel?_later first.ends run)
    have shorter := length_lt_of_turn sits goes_on run
    obtain ⟨_, t, rest⟩ := exists_leads depth s₁ (turn.sits sits)
    exact ⟨_, t, .turn goes_on run rest⟩
termination_by s.tokens.length

end Files

end DreamMaker.Parsing

namespace DreamMaker

open Parsing

/-- What the turns of the loop give is what reading the file gives. -/
theorem SourceFile.parse_of_leads {declarations : List Declaration}
    (deep : ((Token.ofLexemes source).map weight).sum < depth)
    (leads : Leads (rulesUpTo depth) (State.ofTokens (Token.ofLexemes source)).settle declarations t) :
    (parse source).result.declarations = declarations ∧ (parse source).reports = t.reports ∧
      (parse source).skips = t.skips := by
  have ends := Token.endsOnce_ofLexemes source
  obtain ⟨_, run, reports, skips⟩ := readTo_parse source deep
  have rounds := leads.roundsOver (.ofTokens ends) _ (Nat.le_refl _) []
  have read : readTo depth (Token.ofLexemes source) = (.ok ⟨declarations, _⟩, t) :=
    (Run.bind_of_ok (run_here _)).trans (Run.bind_of_ok rounds)
  rw [read] at run
  obtain ⟨file, rfl⟩ := Prod.mk.inj run
  rw [← reports, ← skips, ← Except.ok.inj file]
  exact ⟨rfl, rfl, rfl⟩

theorem SourceFile.exists_leads (source : List Lexeme) (deep : ((Token.ofLexemes source).map weight).sum < depth) :
    ∃ t, Leads (rulesUpTo depth) (State.ofTokens (Token.ofLexemes source)).settle
      (parse source).result.declarations t ∧
      t.reports = (parse source).reports ∧ t.skips = (parse source).skips := by
  have ends := Token.endsOnce_ofLexemes source
  obtain ⟨_, t, leads⟩ := Parsing.exists_leads depth _ (.ofTokens ends)
  obtain ⟨same, reports, skips⟩ := parse_of_leads deep leads
  exact ⟨t, same ▸ leads, reports.symm, skips.symm⟩

end DreamMaker
