import DreamMaker.Proofs.Parsing.Turns

/-!
A file is read part by part. A part that is read alone without an error, or whose errors are skipped within it, is
read in the same way in front of other parts, and they are read as if the file started there.
-/

namespace DreamMaker.Parsing

open List

theorem Later.weight_le (later : Later s s') : s'.weight ≤ s.weight := by
  have added := later.weight_add
  have shorter := later.tokens.length_le
  omega

namespace Setting

variable {S : Setting} {s t : State} {tokens' : List Token}

/-- Settings in which nothing is compared but what is read. -/
class Unseen (S : Setting) : Prop where
  plain : S.strays? = none
  inexact : ¬S.exact

/-- Both runs are at the same place, whatever was read before it. -/
structure Stands (S : Setting) (s t : State) : Prop extends S.Agree s t where
  valid : isInvalid t.current = false
  tokens : S.Ahead 0 s.tokens t.tokens

section

variable [unseen : S.Unseen]

theorem Stands.inner (stands : S.Stands s t) : S.Inner 0 s { t with previous := s.previous } where
  owner := stands.owner
  declares := stands.declares
  complains := stands.complains
  exact := stands.exact
  kind := rfl
  behind := rfl
  valid := stands.valid
  tokens := (S.thin_of_plain unseen.plain t.tokens).symm ▸ stands.tokens

theorem Inner.stands (inner : S.Inner 0 s t) : S.Stands s t :=
  ⟨inner.toAgree, inner.valid, S.thin_of_plain unseen.plain t.tokens ▸ inner.tokens⟩

end

section Between

variable {tokens front onward : List Token} {last : Token}

theorem getLast?_dropWhile {α : Type} {p : α → Bool} {as : List α} (left : as.dropWhile p ≠ []) :
    (as.dropWhile p).getLast? = as.getLast? := by
  obtain ⟨_, split⟩ := dropWhile_suffix p (l := as)
  have last := congrArg List.getLast? split
  rw [getLast?_append] at last
  rw [← last, getLast?_eq_some_getLast left]
  rfl

theorem dropWhile_alike (same : ∀ token, p (move f token) = p token) (alike : Alike f tokens tokens') :
    Alike f (tokens.dropWhile p) (tokens'.dropWhile p) := by
  rw [Alike, ← (takeWhile_move p same tokens).2, ← (takeWhile_move p same tokens').2, alike]

theorem opens_of_between (between : isBetween token = true) : opens token = 0 := by
  refine if_neg fun kind => ?_
  simp [isBetween, isInvalid, dividesFile, isDelimiter, kind] at between

theorem Border.settle (border : S.Border 0 front last onward)
    (left : front.dropWhile isBetween ≠ [])
    (flat : S.mode = .clean → ∀ token ∈ front.takeWhile isBetween, token.kind ≠ .dedent) :
    S.Border 0 (front.dropWhile isBetween) last onward := by
  unfold Border at border ⊢
  cases mode : S.mode with
  | whole => simpa only [mode] using border
  | clean =>
    simp only [mode] at border ⊢
    obtain ⟨beyond, ends, opened⟩ := border
    have no_indent : ((front.takeWhile isBetween).map opens).sum = 0 := by
      refine sum_eq_zero fun n member => ?_
      obtain ⟨token, known, rfl⟩ := mem_map.mp member
      exact opens_of_between (mem_takeWhile_imp known)
    have no_dedent : ((front.takeWhile isBetween).map closes).sum = 0 := by
      refine sum_eq_zero fun n member => ?_
      obtain ⟨token, known, rfl⟩ := mem_map.mp member
      exact if_neg (flat mode token known)
    rw [← takeWhile_append_dropWhile (l := front), map_append, map_append, sum_append,
      sum_append, no_indent, no_dedent, Nat.zero_add, Nat.zero_add] at opened
    exact ⟨beyond, by rwa [getLast?_dropWhile left], opened⟩
  | line =>
    simp only [mode] at border ⊢
    obtain ⟨beyond, ends, zero, plain⟩ := border
    exact ⟨beyond, by rwa [getLast?_dropWhile left], zero,
      fun token member => plain token ((dropWhile_sublist _).subset member)⟩

theorem isBetween_of_idle (token : Token) (idle : isIdle token = true) : isBetween token = true := by
  rcases Bool.or_eq_true_iff.mp idle with invalid | delimiter
  · simp [isBetween, invalid]
  · simp [isBetween, dividesFile, delimiter]

theorem not_isBetween_of_anew (anew : startsAnew token = true) : isBetween token = false := by
  simp only [startsAnew, isIdle, closesBlock, Bool.and_eq_true, Bool.not_eq_true', Bool.or_eq_false_iff] at anew
  simp [isBetween, dividesFile, anew]

/-- What lies beyond the first source starts behind all that stands between two declarations. -/
theorem Beyond.settle (apart : S.mode ≠ .whole) (beyond : S.Beyond tokens) : tokens.dropWhile isBetween = S.rest := by
  obtain ⟨_, _, rest, anew⟩ := S.anew apart
  rw [(divide_of_imp isBetween_of_idle _).2, show tokens.dropWhile isIdle = S.rest from beyond, rest]
  exact dropWhile_cons_of_neg (by simp [not_isBetween_of_anew anew])

/-- The second source is read up to where the first one ends. -/
def Reached (S : Setting) (tokens : List Token) : Prop :=
  if S.mode = .whole then ∃ token ∈ tokens.head?, token.isEnd = true else tokens = S.rest

theorem Beyond.reached (apart : S.mode ≠ .whole) (beyond : S.Beyond tokens) :
    S.Reached (tokens.dropWhile isBetween) := by
  rw [Reached, if_neg apart]
  exact beyond.settle apart

theorem reached_of_alike (whole : S.mode = .whole) (atEnd : last.isEnd = true) (same : Alike S.view [last] onward) :
    S.Reached (onward.dropWhile isBetween) := by
  obtain ⟨last', rfl, heads⟩ := map_eq_singleton_iff.mp same.symm
  obtain ⟨span, rfl, -⟩ := exists_span_of_alike heads.symm
  have stops : isBetween { last with span } = false := not_isBetween_of_end atEnd
  rw [Reached, if_pos whole, dropWhile_cons_of_neg (by simp [stops])]
  exact ⟨_, rfl, atEnd⟩

theorem Border.reached (border : S.Border 0 front last onward) (atEnd : last.isEnd = true) :
    S.Reached (onward.dropWhile isBetween) := by
  unfold Border at border
  split at border
  · exact reached_of_alike ‹_› atEnd border
  · exact border.1.reached (by simp [*])
  · exact border.1.reached (by simp [*])

theorem dropWhile_append_end (atEnd : last.isEnd = true) (front : List Token) :
    (front ++ [last]).dropWhile isBetween = front.dropWhile isBetween ++ [last] := by
  rw [dropWhile_append, dropWhile_cons_of_neg (by simp [not_isBetween_of_end atEnd])]
  split <;> simp_all

/-- Both runs are at the next declaration, or the first one is at its end. -/
def Settled (S : Setting) (tokens tokens' : List Token) : Prop :=
  (∃ token ∈ tokens.head?, token.isEnd = false) ∧ S.Ahead 0 tokens tokens' ∨
    (∃ token ∈ tokens.head?, token.isEnd = true) ∧ S.Reached tokens'

/-- Between the declarations both runs read over the same, up to the next declaration. -/
theorem settled_of_parts (ends : EndsOnce (front ++ [last])) (same : Alike S.view front front')
    (border : front ≠ [] → S.Border 0 front last onward) (reached : S.Reached (onward.dropWhile isBetween))
    (flat : S.mode = .clean → (∃ token ∈ ((front ++ [last]).dropWhile isBetween).head?, token.isEnd = false) →
      ∀ token ∈ front.takeWhile isBetween, token.kind ≠ .dedent) :
    S.Settled ((front ++ [last]).dropWhile isBetween) ((front' ++ onward).dropWhile isBetween) := by
  have alike := dropWhile_alike (p := isBetween) (fun _ => rfl) same
  rw [dropWhile_append_end ends.last] at flat ⊢
  cases left : front.dropWhile isBetween with
  | nil =>
    rw [left] at alike
    rw [dropWhile_append, map_eq_nil_iff.mp alike.symm]
    exact .inr ⟨⟨last, rfl, ends.last⟩, reached⟩
  | cons token more =>
    have member := (dropWhile_sublist isBetween).subset (left ▸ mem_cons_self ..)
    have goes_on : ∃ token' ∈ (token :: more ++ [last]).head?, token'.isEnd = false :=
      ⟨token, rfl, ends.front token member⟩
    have some_left : front.dropWhile isBetween ≠ [] := by simp [left]
    have border := (border (ne_nil_of_mem member)).settle some_left fun clean => flat clean (left ▸ goes_on)
    rw [left] at alike border
    obtain ⟨token', more', left', -⟩ := map_eq_cons_iff.mp alike.symm
    rw [left'] at alike
    refine .inl ⟨goes_on, token :: more, last, token' :: more', onward, rfl, ?_, alike, border⟩
    rw [dropWhile_append, left']
    rfl

/-- Some invalid token is dropped before the next declaration. -/
def DropsInvalid (tokens : List Token) : Prop := ∃ token ∈ tokens.takeWhile isBetween, isInvalid token = true

theorem dropsInvalid_alike (atEnd : last.isEnd = true)
    (same : Alike f front front') (drops : DropsInvalid (front ++ [last])) : DropsInvalid (front' ++ onward) := by
  obtain ⟨token, member, invalid⟩ := drops
  have taken : token ∈ front.takeWhile isBetween := by
    rw [List.takeWhile_append, takeWhile_cons_of_neg (by simp [not_isBetween_of_end atEnd]), append_nil] at member
    split at member
    · rename_i whole
      rwa [( takeWhile_prefix _).eq_of_length whole]
    · exact member
  have alike : Alike f (front.takeWhile isBetween) (front'.takeWhile isBetween) := by
    rw [Alike, ← (takeWhile_move isBetween (fun _ => rfl) front).1,
      ← (takeWhile_move isBetween (fun _ => rfl) front').1, same]
  have moved : move f token ∈ move f (front'.takeWhile isBetween) := alike ▸ mem_map_of_mem taken
  obtain ⟨_, member', tokens⟩ := mem_map.mp moved
  obtain ⟨span, rfl, -⟩ := exists_span_of_alike tokens.symm
  refine ⟨{ token with span }, ?_, invalid⟩
  rw [List.takeWhile_append]
  split
  · exact mem_append_left _ (( takeWhile_prefix _).subset member')
  · exact member'

theorem Ahead.dropsInvalid (ahead : S.Ahead 0 tokens tokens') (ends : EndsOnce tokens) (drops : DropsInvalid tokens) :
    DropsInvalid tokens' := by
  obtain ⟨_, _, _, _, rfl, rfl, same, -⟩ := ahead
  exact dropsInvalid_alike ends.last same drops

end Between

section Settling

variable [unseen : S.Unseen] (sits : Sits s) (sits' : Sits t)

include sits in
theorem complains_settle : Complains s.settle ↔ Complains s ∨ DropsInvalid s.tokens := by
  have settles := sits.settles
  unfold Complains DropsInvalid
  rw [settles.reports]
  constructor
  · rintro ⟨report, member, error⟩
    rcases mem_append.mp member with old | new
    · exact .inl ⟨report, old, error⟩
    · obtain ⟨token, dropped, rfl⟩ := mem_map.mp new
      exact .inr ⟨token, mem_of_mem_filter dropped, of_mem_filter dropped⟩
  · rintro (⟨report, member, error⟩ | ⟨token, member, invalid⟩)
    · exact ⟨report, mem_append_left _ member, error⟩
    · exact ⟨State.invalid token, mem_append_right _ (mem_map_of_mem (mem_filter.mpr ⟨member, invalid⟩)), rfl⟩

include sits in
theorem settle_of_spent (spent : Spent s) :
    ∃ last, last.isEnd = true ∧ s.tokens.dropWhile isBetween = [last] ∧ ¬DropsInvalid s.tokens := by
  rcases spent with atEnd | ⟨delimiter, last, ahead, isEnd⟩
  · have stops := not_isBetween_of_end atEnd
    have nothing := sits.ends.eq_nil_of_end atEnd
    exact ⟨s.current, atEnd, by simp [State.tokens, stops, nothing], by simp [DropsInvalid, State.tokens, stops]⟩
  · have between : isBetween s.current = true := by simp [isBetween, dividesFile, delimiter]
    have stops := not_isBetween_of_end isEnd
    refine ⟨last, isEnd, by simp [State.tokens, between, ahead, stops], ?_⟩
    simp [DropsInvalid, State.tokens, between, ahead, stops, sits.valid]

include sits sits'

theorem Agree.settle (agree : S.Agree s t) (drops : DropsInvalid s.tokens → DropsInvalid t.tokens) :
    S.Agree s.settle t.settle := by
  have scope := (settle_later sits.ends).scope
  have scope' := (settle_later sits'.ends).scope
  refine ⟨?_, ?_, fun complains => ?_, fun exact_ => absurd exact_ unseen.inexact⟩
  · exact (congrArg Prod.fst scope).trans (agree.owner.trans (congrArg Prod.fst scope').symm)
  · exact (congrArg Prod.snd scope).trans (agree.declares.trans (congrArg Prod.snd scope').symm)
  · rw [complains_settle sits']
    rcases (complains_settle sits).mp complains with before | invalid
    · exact .inl (agree.complains before)
    · exact .inr (drops invalid)

/-- Both runs are at the next declaration, or the first one is at its end. -/
structure Abreast (S : Setting) (s t : State) : Prop extends S.Agree s t where
  tokens : S.Settled s.tokens t.tokens

/-- Both runs come to the next declaration. -/
theorem Stands.settle (stands : S.Stands s t) (clean : S.mode = .clean → s.settle.current.isEnd = true) :
    S.Abreast s.settle t.settle := by
  have ends := sits.ends
  have left := sits.settles.tokens
  refine ⟨stands.toAgree.settle sits sits' (stands.tokens.dropsInvalid ends), ?_⟩
  obtain ⟨_, _, _, _, first, second, same, border⟩ := stands.tokens
  rw [first] at ends left
  rw [left, sits'.settles.tokens, second]
  refine settled_of_parts ends same (fun _ => border) (border.reached ends.last) fun mode ⟨_, head, goes_on⟩ => ?_
  rw [← left] at head
  obtain rfl := Option.some.inj head
  exact absurd ((clean mode).symm.trans goes_on) Bool.noConfusion

theorem Passed.settle (passed : S.Passed s t) : S.Abreast s.settle t.settle := by
  obtain ⟨last, isEnd, tokens, none_dropped⟩ := settle_of_spent sits passed.spent
  refine ⟨passed.toAgree.settle sits sits' fun drops => absurd drops none_dropped, ?_⟩
  rw [sits.settles.tokens, sits'.settles.tokens, tokens]
  exact .inr ⟨⟨last, rfl, isEnd⟩, passed.beyond.reached passed.apart⟩

end Settling

section Lines

variable (line : S.mode = .line) {x : Token}

theorem startsTopLevel_alike (same : Alike f x y) : startsTopLevel x = startsTopLevel y := by
  obtain ⟨_, rfl, -⟩ := exists_span_of_alike same
  rfl

theorem goes_on_alike (same : Alike f x y) (goes_on : x.isEnd = false) : y.isEnd = false := by
  obtain ⟨_, rfl, -⟩ := exists_span_of_alike same
  exact goes_on

theorem Inner.goes_on (inner : S.Inner 0 s t) (apart : S.mode ≠ .whole) (ends : EndsOnce s.tokens) :
    s.current.isEnd = false := by
  obtain ⟨front, _, _, _, left, -, -, border⟩ := inner.tokens
  rw [left] at ends
  cases front with
  | nil =>
    unfold Border at border
    split at border
    · contradiction
    · simp at border
    · simp at border
  | cons _ front =>
    obtain ⟨rfl, -⟩ := List.cons.inj left
    exact ends.front _ (mem_cons_self ..)

theorem Inner.report (inner : S.Inner 0 s t) (tells : S.Tells new.toList new'.toList) :
    S.Inner 0 { s with reports := s.reports ++ new } { t with reports := t.reports ++ new' } := by
  have agree := inner.toAgree.report tells
  exact {
    owner := agree.owner, declares := agree.declares, complains := agree.complains, exact := agree.exact
    kind := inner.kind, behind := inner.behind, valid := inner.valid, tokens := inner.tokens }

/-- The note on what is skipped is no error. -/
theorem Inner.noteSkip (inner : S.Inner 0 s t) (apart : S.mode ≠ .whole) :
    S.Inner 0 (s.noteSkip start) (t.noteSkip start') := by
  have tells : S.Tells #[.located .recovery start s!"Error recovery had to skip to {s.current.span.render}"].toList
      #[.located .recovery start' s!"Error recovery had to skip to {t.current.span.render}"].toList := by
    refine ⟨?_, fun exact_ => absurd (S.exact_whole exact_) apart⟩
    rintro ⟨_, member, error⟩
    obtain rfl := mem_singleton.mp member
    cases error
  exact { inner.report tells with exact := fun exact_ => absurd (S.exact_whole exact_) apart }

include line

theorem Inner.roundsOver_skip (inner : S.Inner 0 s t) (ends : EndsOnce s.tokens)
    (enough : s.tokens.length ≤ fuel.length) (enough' : s.tokens.length ≤ fuel'.length)
    (goes_on : (roundsOver skipLineTurn fuel () s).2.current.isEnd = false) :
    S.Inner 0 (roundsOver skipLineTurn fuel () s).2 (roundsOver skipLineTurn fuel' () t).2 := by
  induction fuel generalizing fuel' s t with
  | nil => simp [State.tokens] at enough
  | cons _ fuel ih =>
    rcases fuel' with _ | ⟨_, fuel'⟩
    · simp [State.tokens] at enough'
    have same := startsTopLevel_alike inner.head
    rw [roundsOver_cons, skipLineTurn_eq] at goes_on ⊢
    rw [roundsOver_cons, skipLineTurn_eq, ← same]
    cases stops : startsTopLevel s.current with
    | true => exact inner
    | false =>
      rw [stops] at goes_on
      have more := inner.goes_on (by simp [line]) ends
      have later := Later.advance ends more
      have fewer := Later.length_advance ends more
      simp only [length_cons] at enough enough'
      rcases inner.advance ends more (.inr ⟨by simp [line], rfl⟩) with inside | ⟨-, -, -, -, atEnd⟩
      · exact ih inside later.ends (by omega) (by omega) goes_on
      have rest : Sim .identical 0 (.told 0 0) (roundsOver skipLineTurn fuel ())
        (roundsOver skipLineTurn fuel ()) _ :=
        .roundsOver (fun _ _ _ => (skipLineTurn_sim : Sim _ 0 ..)) fuel rfl
      have stays := (rest.reads s.advance later.ends trivial).1.atEnd atEnd later.ends
      exact absurd (stays.symm.trans goes_on) Bool.noConfusion

theorem Inner.flush (inner : S.Inner 0 s t) (ends : EndsOnce s.tokens) (goes_on : s.flush.current.isEnd = false) :
    S.Inner 0 s.flush t.flush :=
  inner.roundsOver_skip line ends (Nat.le_refl _) inner.length_le goes_on

/-- Where the first run does not skip to its end, both skip the same. -/
theorem Inner.skip (inner : S.Inner 0 s t) (ends : EndsOnce s.tokens) (errors : Alike S.view error error')
    (goes_on : (s.skip start error).current.isEnd = false) :
      S.Inner 0 (s.skip start error) (t.skip start' error') := by
  have apart : S.mode ≠ .whole := by simp [line]
  have told : S.Inner 0 { s with reports := s.reports ++ #[error.toReport] }
    { t with reports := t.reports ++ #[error'.toReport] } :=
    Inner.report inner (tells_of_alike (by simp [toReport_alike errors]))
  have more := told.goes_on apart ends
  have more' : t.current.isEnd = false := goes_on_alike told.head more
  have left : ∀ {s : State}, s.current.isEnd = false → s.left = s.advance := fun more =>
    if_neg (Bool.eq_false_iff.mp more)
  unfold State.skip at goes_on ⊢
  rw [left more] at goes_on ⊢
  rw [left (s := { t with reports := t.reports ++ #[error'.toReport] }) more']
  have later := Later.advance (s := { s with reports := s.reports ++ #[error.toReport] }) ends more
  rcases told.advance ends more (.inr ⟨by simp [line], rfl⟩) with inside | ⟨-, -, -, -, atEnd⟩
  · exact (inside.flush line later.ends goes_on).noteSkip apart
  · have stays := (flush_later later.ends).2.atEnd atEnd later.ends
    exact absurd (stays.symm.trans goes_on) Bool.noConfusion

end Lines

theorem skip_of_spent (spent : Spent s) (ends : EndsOnce s.tokens) : (s.skip start error).current.isEnd = true := by
  have reported := Later.report ends #[error.toReport]
  have left := left_later reported.ends
  refine (flush_later left.ends).2.atEnd ?_ left.ends
  unfold State.left
  rcases spent with atEnd | ⟨_, last, ahead, isEnd⟩
  · rw [if_pos atEnd]
    exact atEnd
  have behind : ({ s with reports := s.reports ++ #[error.toReport] } : State).behind = [last] := by
    simp [State.behind, ahead, EndsOnce.isInvalid_last isEnd]
  split
  · assumption
  · rw [State.advance_eq behind]
    exact isEnd

section Turn

variable [S.Unseen] {depth : Nat}

/-- The runs part only where the first one reports something or skips to its end. -/
theorem Inner.turn (inner : S.Inner 0 s t) (ends : EndsOnce s.tokens) (light : s.weight < depth)
    (live : isLive s.current = true) (run : topLevel? (rulesUpTo depth) s = (.ok found?, s₁))
    (mode : S.mode ≠ .line) (clean : S.mode = .clean → s₁.reports.toList = []) :
    ∃ found?' t₁, topLevel? (rulesUpTo depth) t = (.ok found?', t₁) ∧ Alike S.view found? found?' ∧
      (S.Stands s₁ t₁ ∨ S.Passed s₁ t₁) := by
  have sim : Sim S depth ⟨.inner 0, fun token => isLive token = true, 0⟩ (topLevel? (rulesUpTo depth))
      (topLevel? (rulesUpTo (depth + 0))) _ := topLevel?_sim (rulesUpTo_sim depth 0) fun _ => id
  have met := sim.meets s t ends light live inner
  rw [run, Nat.add_zero] at met
  rcases met with alone | joint
  · exfalso
    rcases alone with ⟨mode, told⟩ | adrift
    · exact told (clean mode)
    cases found? with
    | some declaration => exact adrift
    | none =>
      have reported := (topLevel?_none ends run).1
      cases mode' : S.mode with
      | whole => exact adrift.apart mode'
      | clean => exact reported (clean mode')
      | line => exact mode mode'
  · rcases run' : topLevel? (rulesUpTo depth) t with ⟨error | found?', t₁⟩ <;> rw [run'] at joint
    · exact joint.elim
    refine ⟨found?', t₁, rfl, joint.1, ?_⟩
    cases found? with
    | none => exact .inl joint.2.2.stands
    | some declaration =>
      rcases joint.2 with inside | outer
      · exact .inl inside.stands
      · exact .inr outer.toPassed

theorem Inner.turn_line (inner : S.Inner 0 s t) (ends : EndsOnce s.tokens)
    (ends' : EndsOnce t.tokens) (light : s.weight < depth)
    (run : topLevel? (rulesUpTo depth) s = (.ok found?, s₁)) (line : S.mode = .line)
    (goes_on : found? = none → s₁.current.isEnd = false) :
    ∃ found?' t₁, topLevel? (rulesUpTo depth) t = (.ok found?', t₁) ∧ Alike S.view found? found?' ∧
      (S.Stands s₁ t₁ ∨ S.Passed s₁ t₁) := by
  have sim : Sim S depth (.inner 0 0) (rulesUpTo depth .declaration) (rulesUpTo (depth + 0) .declaration) _ :=
    (rulesUpTo_sim depth 0).declaration
  have met := sim.meets s t ends light trivial inner
  have later := (sim.reads s ends trivial).1
  have later' := (sim.reads t ends' trivial).1
  rw [Nat.add_zero] at met
  rcases met with alone | joint
  · -- the first run fails at its end, and skips nothing but the end
    rcases first : rulesUpTo depth .declaration s with ⟨error | found, s₂⟩ <;> rw [first] at alone later
    · rcases alone with clean | ⟨-, spent⟩
      · exact absurd (line.symm.trans clean) nofun
      · rw [topLevel?_of_error first later.ends] at run
        cases run
        exact absurd ((skip_of_spent spent later.ends).symm.trans (goes_on rfl)) Bool.noConfusion
    · rcases alone with ⟨clean, -⟩ | adrift
      · exact absurd (line.symm.trans clean) nofun
      · cases found <;> exact adrift.elim
  · rcases first : rulesUpTo depth .declaration s with ⟨error | found, s₂⟩ <;>
      rcases second : rulesUpTo depth .declaration t with ⟨error' | found', t₂⟩ <;>
      rw [first, second] at joint <;> rw [first] at later <;> rw [second] at later'
    · rw [topLevel?_of_error first later.ends] at run
      cases run
      exact ⟨none, _, topLevel?_of_error second later'.ends, rfl,
        .inl (joint.2.skip line later.ends joint.1 (goes_on rfl)).stands⟩
    · exact joint.elim
    · exact joint.elim
    · obtain ⟨same, together⟩ := joint
      cases found <;> cases found' <;> simp only [move_none, move_some, reduceCtorEq] at same
      · rw [topLevel?_of_none first later.ends] at run
        cases run
        have inside := together
        obtain ⟨_, current, spans⟩ := exists_span_of_alike inside.head
        have errors : Alike S.view s₂.missing t₂.missing := by
          unfold State.missing
          rw [current]
          exact error_alike spans
        exact ⟨none, _, topLevel?_of_none second later'.ends, rfl,
          .inl (inside.skip line later.ends errors (goes_on rfl)).stands⟩
      · rw [topLevel?_of_some first] at run
        cases run
        refine ⟨_, t₂, topLevel?_of_some second, by simpa using same, ?_⟩
        rcases together with inside | outer
        · exact .inl inside.stands
        · exact .inr outer.toPassed

/-- One turn of the loop: where the first run is of interest, the second run reads the same. -/
theorem Stands.turn (stands : S.Stands s t) (ends : EndsOnce s.tokens) (ends' : EndsOnce t.tokens)
    (light : s.weight < depth + 1) (live : isBetween s.current = false) (more : s.current.isEnd = false)
    (run : topLevel? (rulesUpTo (depth + 1)) s = (.ok found?, s₁))
    (clean : S.mode = .clean → s₁.reports.toList = [])
    (line : S.mode = .line → found? = none → s₁.current.isEnd = false) :
    ∃ found?' t₁, topLevel? (rulesUpTo (depth + 1)) t = (.ok found?', t₁) ∧ Alike S.view found? found?' ∧
      (S.Stands s₁ t₁ ∨ S.Passed s₁ t₁) := by
  have more' := goes_on_alike stands.tokens.head more
  have live : isLive s.current = true := by
    simp only [isBetween, dividesFile, Bool.or_eq_false_iff] at live
    simp [isLive, more, live]
  rw [← topLevel?_fresh more' s.previous]
  by_cases mode : S.mode = .line
  · exact stands.inner.turn_line ends ends' light run mode (line mode)
  · exact stands.inner.turn ends light live run mode clean

end Turn

section Run

variable {depth : Nat} {declarations : List Declaration}

/-- The second run reads the same declarations as the first, and comes to `t'` where the first ends. -/
structure Passes (S : Setting) (r : Rules) (declarations : List Declaration) (e t : State)
    (declarations' : List Declaration) (t' : State) : Prop extends S.Agree e t' where
  same : move S.view declarations = move S.view declarations'
  later : Later t t'
  reached : S.Reached t'.tokens
  leads : ∀ more u, Leads r t' more u → Leads r t (declarations' ++ more) u

theorem Passes.turn (goes_on : t.current.isEnd = false) (run : topLevel? r t = (.ok found?', t₁))
    (later : Later t t₁.settle) (same : Alike S.view found? found?') (rest : S.Passes r more e t₁.settle more' t') :
    S.Passes r (found?.toList ++ more) e t (found?'.toList ++ more') t' := {
  rest with
  same := by rw [move_append, move_append, move_toList, move_toList, same, rest.same]
  later := later.trans rest.later
  leads := fun further u leads => by
    rw [append_assoc]
    exact .turn goes_on run (rest.leads further u leads) }

variable [S.Unseen]

/-- A first run that reads at most one declaration and reports nothing, or skips nothing up to its end. -/
theorem Abreast.follow (leads : Leads (rulesUpTo (depth + 1)) s declarations e)
    (abreast : S.Abreast s t) (sits : Sits s)
    (sits' : Sits t) (live : isBetween s.current = false) (light : s.weight < depth + 1)
    (clean : S.mode = .clean → e.reports.toList = [] ∧ declarations.length ≤ 1)
    (line : S.mode = .line → ∀ token ∈ s.tokens,
      token.isEnd = true → ∀ skip ∈ e.skips.toList, skip.2 ≠ token.span) :
    ∃ declarations' t', S.Passes (rulesUpTo (depth + 1)) declarations e t declarations' t' := by
  generalize rules : rulesUpTo (depth + 1) = r at leads
  induction leads generalizing t with
  | @stop s atEnd =>
    rcases abreast.tokens with ⟨⟨_, ⟨⟩, goes_on⟩, -⟩ | ⟨-, reached⟩
    · exact absurd (atEnd.symm.trans goes_on) Bool.noConfusion
    · exact ⟨[], t,
        { abreast.toAgree with same := rfl, later := .refl sits'.ends, reached, leads := fun _ _ => id }⟩
  | @turn s s₁ e found? more goes_on run rest ih =>
    subst rules
    rcases abreast.tokens with ⟨-, ahead⟩ | ⟨⟨_, ⟨⟩, atEnd⟩, -⟩
    · have turn := topLevel?_later sits.ends run
      have later := turn.trans (settle_later turn.ends)
      have lighter := later.weight_le
      have silent (mode : S.mode = .clean) := rest.found_of_silent sits.ends run (clean mode).1
      have stops (lined : S.mode = .line) (nothing : found? = none) : s₁.current.isEnd = false := by
        rw [nothing] at run
        have noted := ((settle_later turn.ends).trans (rest.later later.ends)).skips.subset
          (topLevel?_none sits.ends run).2
        cases atEnd : s₁.current.isEnd with
        | false => rfl
        | true => exact absurd rfl (line lined _ (turn.tokens.subset (mem_cons_self ..)) atEnd _ noted)
      have stands : S.Stands s t := ⟨abreast.toAgree, sits'.valid, ahead⟩
      obtain ⟨_, t₁, run', same, behind⟩ := stands.turn sits.ends sits'.ends light live goes_on run
        (fun mode => (silent mode).elim fun _ => And.right) stops
      have turn' := topLevel?_later sits'.ends run'
      have later' := turn'.trans (settle_later turn'.ends)
      have next : S.Abreast s₁.settle t₁.settle := by
        rcases behind with stands | passed
        · refine stands.settle (turn.sits sits) (turn'.sits sits') fun mode => ?_
          obtain ⟨_, rfl, -⟩ := silent mode
          obtain rfl : more = [] := by simpa using (clean mode).2
          exact rest.atEnd_of_silent later.ends (clean mode).1
        · exact passed.settle (turn.sits sits) (turn'.sits sits')
      obtain ⟨_, t', passes⟩ := ih next (later.sits sits) (later'.sits sits')
        (settle_current (turn.sits sits)) (by omega)
        (fun mode => ⟨(clean mode).1, Nat.le_trans (by simp) (clean mode).2⟩)
        (fun lined token member => line lined token (later.tokens.subset member))
      exact ⟨_, t', passes.turn (goes_on_alike ahead.head goes_on) run' later' same⟩
    · exact absurd (atEnd.symm.trans goes_on) Bool.noConfusion

end Run

end Setting

end DreamMaker.Parsing
