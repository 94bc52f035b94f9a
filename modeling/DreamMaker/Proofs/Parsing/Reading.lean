import Mathlib.Data.List.Basic
import DreamMaker.Proofs.Parsing.Lockstep

namespace DreamMaker.Parsing

open List State

variable {token : Token} {span : Span} {kind : ParseError.Kind}

theorem exists_span_of_alike {y : Token} (same : Alike f x y) :
    ∃ span, y = { x with span } ∧ f x.span = f span := by
  obtain ⟨_, span', _, _, _⟩ := y
  obtain ⟨rfl, spans, rfl, rfl, rfl⟩ := Token.mk.inj same
  exact ⟨span', rfl, spans⟩

theorem move_report_of_id (same : ∀ a, f a = a) (report : Report) : move f report = report := by
  obtain ⟨⟨_, _, _, _ | span, _, _⟩, _⟩ := report
  · rfl
  · show (⟨⟨_, _, _, some (f span), _, _⟩, _⟩ : Report) = _
    rw [same]

theorem located_alike (spans : f span = f span') :
    Alike f (Report.located code span message) (.located code span' message) := by
  show Report.located code (f span) message = .located code (f span') message
  rw [spans]

theorem invalid_alike (same : Alike f x y) :
    Alike f (invalid x) (invalid y) := by
  obtain ⟨_, rfl, spans⟩ := exists_span_of_alike same
  exact located_alike spans

theorem invalids_alike {ys : List Token} (same : Alike f xs ys) :
    move f (xs.map invalid).toArray.toList = move f (ys.map invalid).toArray.toList := by
  induction xs generalizing ys with
  | nil =>
    obtain rfl : ys = [] := map_eq_nil_iff.mp same.symm
    rfl
  | cons _ xs ih =>
    cases ys with
    | nil => cases same
    | cons _ ys =>
      obtain ⟨head, tail⟩ := List.cons.inj same
      simp only [map_cons, move_cons, invalid_alike head]
      exact congrArg (_ :: ·) (ih tail)

theorem isError_of_alike {report : Report} (same : Alike f report report') :
    report.diagnostic.isError = report'.diagnostic.isError := by
  show (move f report).diagnostic.isError = (move f report').diagnostic.isError
  rw [same]

namespace Setting

variable {S : Setting} {ys : List Token} {t : State}

theorem Ahead.head (ahead : S.Ahead level (x :: xs) (y :: ys)) : Alike S.view x y := by
  obtain ⟨front, _, front', onward, left, right, same, border⟩ := ahead
  cases front with
  | nil =>
    obtain rfl : front' = [] := map_eq_nil_iff.mp same.symm
    obtain ⟨rfl, -⟩ := List.cons.inj left
    unfold Border at border
    split at border
    · rw [← show _ = onward from right] at border
      exact (List.cons.inj border).1
    · simp at border
    · simp at border
  | cons _ front =>
    cases front' with
    | nil => cases same
    | cons _ front' =>
      obtain ⟨rfl, -⟩ := List.cons.inj left
      obtain ⟨rfl, -⟩ := List.cons.inj right
      exact (List.cons.inj same).1

/-- The last token before the end of the first source is read. -/
structure Edge (S : Setting) (level : Nat) (x : Token) (xs ys : List Token) : Prop where
  apart : S.mode ≠ .whole
  level : level = 0
  ends : endsLine x = true
  last : ∃ last, xs = [last]
  beyond : S.Beyond ys

theorem Ahead.tail (ahead : S.Ahead level (x :: xs) (y :: ys)) (more : xs ≠ [])
    (opened : level' + closes x ≤ level + opens x ∨ S.mode ≠ .clean ∧ level' = level) :
    S.Ahead level' xs ys ∨ S.Edge level' x xs ys := by
  obtain ⟨front, last, front', onward, left, right, same, border⟩ := ahead
  rcases front with _ | ⟨_, front⟩
  · exact absurd (List.cons.inj left).2 more
  rcases front' with _ | ⟨_, front'⟩
  · cases same
  obtain ⟨rfl, rfl⟩ := List.cons.inj left
  obtain ⟨rfl, rfl⟩ := List.cons.inj right
  have same' := (List.cons.inj same).2
  cases mode : S.mode with
  | whole =>
    refine .inl ⟨front, last, front', onward, rfl, rfl, same', ?_⟩
    simp only [Border, mode] at border ⊢
    exact border
  | clean =>
    simp only [Border, mode, map_cons, sum_cons] at border
    obtain ⟨beyond, ends, open_⟩ := border
    simp only [mode, ne_eq, not_true, false_and, or_false] at opened
    cases front with
    | nil =>
      obtain rfl : front' = [] := map_eq_nil_iff.mp same'.symm
      simp only [map_nil] at open_
      refine .inr ⟨by simp [mode], by omega, by simpa using ends, ⟨last, rfl⟩, beyond⟩
    | cons second front =>
      refine .inl ⟨second :: front, last, front', onward, rfl, rfl, same', ?_⟩
      simp only [Border, mode]
      refine ⟨beyond, by simpa using ends, by omega⟩
  | line =>
    simp only [Border, mode] at border
    obtain ⟨beyond, ends, rfl, plain⟩ := border
    obtain ⟨_, front_plain⟩ := forall_mem_cons.mp plain
    have zero : level' = 0 := by omega
    cases front with
    | nil =>
      obtain rfl : front' = [] := map_eq_nil_iff.mp same'.symm
      exact .inr ⟨by simp [mode], zero, by simpa using ends, ⟨last, rfl⟩, beyond⟩
    | cons second front =>
      refine .inl ⟨second :: front, last, front', onward, rfl, rfl, same', ?_⟩
      simp only [Border, mode]
      exact ⟨beyond, by simpa using ends, zero, front_plain⟩

theorem Ahead.exists_cons (ahead : S.Ahead level (x :: xs) ys) : ∃ y ys', ys = y :: ys' := by
  cases ys with
  | nil => simpa using ahead.length_le
  | cons y ys' => exact ⟨y, ys', rfl⟩

theorem Ahead.cons (ahead : S.Ahead level xs ys) (same : Alike S.view x y) (flat : opens x = 0 ∧ closes x = 0) :
    S.Ahead level (x :: xs) (y :: ys) := by
  obtain ⟨front, last, front', onward, rfl, rfl, fronts, border⟩ := ahead
  refine ⟨x :: front, last, y :: front', onward, rfl, rfl, by simp [same, fronts], ?_⟩
  unfold Border at border ⊢
  split at border
  · exact border
  · obtain ⟨beyond, ⟨token, member, ends⟩, open_⟩ := border
    refine ⟨beyond, ⟨token, ?_, ends⟩, by simpa [flat] using open_⟩
    rw [getLast?_cons, Option.mem_def.mp member]
    rfl
  · obtain ⟨beyond, ⟨token, member, ends⟩, zero, plain⟩ := border
    refine ⟨beyond, ⟨token, ?_, ends⟩, zero, forall_mem_cons.mpr ⟨flat, plain⟩⟩
    rw [getLast?_cons, Option.mem_def.mp member]
    rfl

theorem Ahead.dropInvalid (ahead : S.Ahead level xs ys) (ends : EndsOnce xs) :
    S.Ahead level (xs.dropWhile isInvalid) (ys.dropWhile isInvalid) ∧
      Alike S.view (xs.takeWhile isInvalid) (ys.takeWhile isInvalid) := by
  induction xs generalizing ys with
  | nil => exact absurd rfl ends.ne_nil
  | cons x xs ih =>
    obtain ⟨_, ys, rfl⟩ := ahead.exists_cons
    have head := ahead.head
    obtain ⟨span, rfl, -⟩ := exists_span_of_alike head
    cases bad : isInvalid x with
    | false =>
      have good : isInvalid { x with span } = false := bad
      simp only [dropWhile_cons, takeWhile_cons, bad, good]
      exact ⟨ahead, rfl⟩
    | true =>
      have bad' : isInvalid { x with span } = true := bad
      have kind : x.kind = .invalid := by simpa [isInvalid] using bad
      have more : x.isEnd = false := by simp [Token.isEnd, kind]
      have ends' := ends.tail more
      have plain : level + closes x ≤ level + opens x ∨ S.mode ≠ .clean ∧ level = level := by
        simp [closes, opens, kind]
      rcases ahead.tail ends'.ne_nil plain with inside | edge
      · obtain ⟨after, dropped⟩ := ih inside ends'
        simp only [dropWhile_cons, takeWhile_cons, bad, bad', if_true, Alike, move_cons, head, dropped]
        exact ⟨after, trivial⟩
      · have ends := edge.ends
        simp [endsLine, kind] at ends

/-- What the second run reports for what the first one does. -/
structure Tells (S : Setting) (new new' : List Report) : Prop where
  complains : (∃ report ∈ new, report.diagnostic.isError = true) →
    ∃ report ∈ new', report.diagnostic.isError = true
  exact : S.exact → new = new'

theorem tells_of_alike (same : Alike S.view new new') : S.Tells new new' where
  complains := by
    rintro ⟨report, member, error⟩
    have moved : move S.view report ∈ move S.view new' := same ▸ mem_map_of_mem member
    obtain ⟨report', member', alike⟩ := mem_map.mp moved
    exact ⟨report', member', by rw [isError_of_alike alike, error]⟩
  exact exact_ := by
    have unmoved : ∀ reports : List Report, move S.view reports = reports := fun reports => by
      show reports.map (move S.view) = reports
      rw [funext (move_report_of_id (S.exact_view exact_))]
      exact map_id _
    rwa [Alike, unmoved, unmoved] at same

/-- The same is reported in both runs. -/
theorem Told.report (told : S.Told s t) (new : Array Report) :
    S.Told { s with reports := s.reports ++ new } { t with reports := t.reports ++ new } := by
  unfold Told at told ⊢
  split at told
  · rw [told]
  · obtain ⟨before, all, interleaves⟩ := told
    exact ⟨before, all, by simpa using interleaves.appendRight⟩

theorem Told.carry (told : S.Told s t) (left : s'.reports = s.reports) (right : t'.reports = t.reports)
    (strays : t'.tokens.filter isInvalid = t.tokens.filter isInvalid) : S.Told s' t' := by
  unfold Told at told ⊢
  rw [left, right, strays]
  exact told

theorem strays_eq (valid : isInvalid t.current = false) : t.tokens.filter isInvalid = t.ahead.filter isInvalid :=
  filter_cons_of_neg (by simp [valid])

theorem takeWhile_filter_not (p : Token → Bool) (tokens : List Token) : (tokens.filter (!p ·)).takeWhile p = [] := by
  cases kept : tokens.filter (!p ·) with
  | nil => rfl
  | cons token _ =>
    have known : token ∈ tokens.filter (!p ·) := by rw [kept]; exact .head _
    have other : p token = false := by simpa using (mem_filter.1 known).2
    rw [takeWhile_cons, other]
    rfl

theorem Agree.report (agree : S.Agree s t) (tells : S.Tells new.toList new'.toList) :
    S.Agree { s with reports := s.reports ++ new } { t with reports := t.reports ++ new' } where
  owner := agree.owner
  declares := agree.declares
  complains := by
    rintro ⟨report, member, error⟩
    simp only [Array.toList_append, mem_append] at member
    rcases member with old | added
    · obtain ⟨report', member', error'⟩ := agree.complains ⟨report, old, error⟩
      exact ⟨report', by simp [member'], error'⟩
    · obtain ⟨report', member', error'⟩ := tells.complains ⟨report, added, error⟩
      exact ⟨report', by simp [member'], error'⟩
  exact exact_ := by
    obtain ⟨told, skips⟩ := agree.exact exact_
    exact ⟨Array.toList_inj.mp (tells.exact exact_) ▸ told.report new, skips⟩

/-- Both runs drop the invalid tokens before the next valid one. -/
theorem Agree.settled (agree : S.Agree s t) (valid : isInvalid t.current = false)
    (dropped : Alike S.view (s.ahead.takeWhile isInvalid) ((S.thin t.ahead).takeWhile isInvalid)) :
    S.Agree s.settled t.settled := by
  rcases S.thin_cases with ⟨same, plain⟩ | ⟨_, given, thins⟩
  · rw [same] at dropped
    have told := agree.report (tells_of_alike (invalids_alike dropped))
    refine ⟨told.owner, told.declares, told.complains, fun exact_ => ?_⟩
    obtain ⟨reports, others⟩ := told.exact exact_
    refine ⟨?_, others⟩
    unfold Told at reports ⊢
    rw [plain (S.exact_whole exact_)] at reports ⊢
    exact reports
  · have none_dropped : s.ahead.takeWhile isInvalid = [] := by
      rw [thins, takeWhile_filter_not] at dropped
      exact map_eq_nil_iff.mp dropped
    have left : s.settled.reports = s.reports := by simp [State.settled, none_dropped]
    have split : t.ahead.filter isInvalid = t.ahead.takeWhile isInvalid ++ t.behind.filter isInvalid := by
      conv_lhs => rw [← takeWhile_append_dropWhile (p := isInvalid) (l := t.ahead), filter_append]
      rw [filter_eq_self.2 fun _ => mem_takeWhile_imp]
      rfl
    refine ⟨agree.owner, agree.declares, ?_, fun exact_ => ?_⟩
    · rw [Complains, left]
      intro complains
      obtain ⟨report, member, error⟩ := agree.complains complains
      exact ⟨report, by simp [State.settled, Array.mem_toList_iff.mp member], error⟩
    · obtain ⟨reports, others⟩ := agree.exact exact_
      refine ⟨?_, others⟩
      unfold Told at reports ⊢
      rw [given] at reports ⊢
      obtain ⟨told, all, interleaves⟩ := reports
      refine ⟨told ++ t.ahead.takeWhile isInvalid, ?_, ?_⟩
      · rw [← all, strays_eq valid, strays_eq (t := t.settled) valid, split, append_assoc]
        rfl
      · rw [left]
        simpa [State.settled] using interleaves.appendLeft

/-- Where nothing is left of the first source, the second goes on to what lies beyond. -/
theorem Beyond.dropInvalid (beyond : S.Beyond ys) : S.Beyond (ys.dropWhile isInvalid) := by
  induction ys with
  | nil => exact beyond
  | cons y ys ih =>
    cases bad : isInvalid y with
    | false => simpa [bad] using beyond
    | true =>
      have idle : isIdle y = true := by simp [isIdle, bad]
      simp only [Beyond, dropWhile_cons, idle] at beyond
      simpa only [dropWhile_cons, bad, if_true] using ih beyond

theorem Beyond.ne_nil (beyond : S.Beyond ys) (apart : S.mode ≠ .whole) : ys ≠ [] := by
  rintro rfl
  obtain ⟨_, _, rest, -⟩ := S.anew apart
  simp [Beyond, rest] at beyond

theorem isInvalid_of_behind {tokens rest : List Token} (behind : tokens.dropWhile isInvalid = token :: rest) :
    isInvalid token = false := by
  have first := head?_dropWhile_not isInvalid tokens
  rw [behind] at first
  simpa using first

theorem Inner.head (inner : S.Inner level s t) : Alike S.view s.current t.current :=
  inner.ahead.head

/-- Where the first source goes on, so does the second one behind its invalid tokens. -/
theorem Ahead.exists_behind (ahead : S.Ahead level xs (S.thin (ys.dropWhile isInvalid))) (more : xs ≠ []) :
    ∃ y ys', ys.dropWhile isInvalid = y :: ys' ∧ isInvalid y = false := by
  obtain ⟨_, xs, rfl⟩ := exists_cons_of_ne_nil more
  have longer := ahead.length_le.trans (S.length_thin_le _)
  obtain ⟨y, ys', behind⟩ := exists_cons_of_length_pos (Nat.lt_of_lt_of_le (Nat.succ_pos _) longer)
  exact ⟨y, ys', behind, isInvalid_of_behind behind⟩

/-- Behind the invalid tokens that both runs drop they are at the same place again. -/
theorem Inner.settled (inner : S.Inner level s t) (ends : EndsOnce s.ahead)
    (inside : S.Ahead level' s.ahead (S.thin t.ahead)) :
    ∃ x xs y ys, s.behind = x :: xs ∧ t.behind = y :: ys ∧ isInvalid y = false ∧
      S.Ahead level' (x :: xs) (S.thin (y :: ys)) ∧ S.Agree s.settled t.settled := by
  obtain ⟨after, dropped⟩ := inside.dropInvalid ends
  obtain ⟨x, xs, behind⟩ := exists_cons_of_ne_nil ends.dropWhile_isInvalid.ne_nil
  rw [S.dropWhile_thin] at after
  obtain ⟨y, ys, behind', valid⟩ := after.exists_behind (behind ▸ cons_ne_nil x xs)
  exact ⟨x, xs, y, ys, behind, behind', valid, by rwa [← behind, ← behind'],
    inner.toAgree.settled inner.valid dropped⟩

theorem Inner.advance (inner : S.Inner level s t) (ends : EndsOnce s.tokens) (more : s.current.isEnd = false)
    (opened : level' + closes s.current ≤ level + opens s.current ∨ S.mode ≠ .clean ∧ level' = level) :
    S.Inner level' s.advance t.advance ∨
      S.Passed s.advance t.advance ∧ level' = 0 ∧ endsLine s.current = true ∧ t.advance.previous = t.current ∧
        s.advance.current.isEnd = true := by
  have ends' := ends.tail more
  have head := inner.head
  rcases inner.ahead.tail ends'.ne_nil opened with inside | edge
  · left
    obtain ⟨_, _, y, ys, behind, behind', valid, tokens, agree⟩ := inner.settled ends' inside
    obtain ⟨_, current, spans⟩ := exists_span_of_alike head
    rw [advance_eq behind, advance_eq behind']
    exact {
      owner := agree.owner, declares := agree.declares, complains := agree.complains
      exact := fun exact_ => (agree.exact exact_).imp_left fun told => told.carry rfl rfl
        ((congrArg _ behind'.symm).trans (strays_eq (t := t.settled) inner.valid).symm)
      kind := by rw [current]
      behind := by rw [current]; exact spans
      valid, tokens }
  · right
    obtain ⟨last, only⟩ := edge.last
    have single : EndsOnce ([] ++ [last]) := only ▸ ends'
    have isEnd := single.last
    have valid := EndsOnce.isInvalid_last isEnd
    have behind : s.behind = [last] := by simp [State.behind, only, valid]
    have beyond := edge.beyond.dropInvalid
    rw [S.thin_of_apart edge.apart] at beyond
    obtain ⟨y, ys, behind'⟩ := exists_cons_of_ne_nil (beyond.ne_nil edge.apart)
    have valid' := isInvalid_of_behind behind'
    rw [behind'] at beyond
    have before := inner.complains
    have not_exact : ¬S.exact := fun exact_ => edge.apart (S.exact_whole exact_)
    rw [advance_eq behind, advance_eq behind']
    refine ⟨?_, edge.level, edge.ends, rfl, isEnd⟩
    exact {
      owner := inner.owner, declares := inner.declares
      complains := by
        rintro ⟨report, member, error⟩
        have old : report ∈ s.reports.toList := by simpa [State.settled, only, valid] using member
        obtain ⟨report', member', error'⟩ := before ⟨report, old, error⟩
        exact ⟨report', by simp [State.settled, Array.mem_toList_iff.mp member'], error'⟩
      exact := fun exact_ => absurd exact_ not_exact
      apart := edge.apart
      spent := .inl isEnd
      beyond := beyond
      valid := valid' }

end Setting

/-- Tokens that neither start nor end a line or a block of lines. -/
def isPlain : Token.Kind → Bool
  | .newline | .indent | .dedent | .endOfFile => false
  | _ => true

/-- Tokens that a source which is read to its end cannot hold any more. -/
def isLive (token : Token) : Bool := !token.isEnd && !isDelimiter token.kind

section Rules

variable {bound level read : Nat} [Placed α] [Placed β] {S : Setting} {stage : Stage} {now : Token → Prop}
  {post : α → Point}

/-- A reader that looks at the state and does not change it. -/
theorem Sim.look {f : State → α} {known : α → Token → Prop}
    (left : ∀ s, p s = (.ok (f s), s)) (right : ∀ s, q s = (.ok (f s), s))
    (same : ∀ s t, S.At stage s t → Alike S.view (f s) (f t))
    (kept : ∀ s : State, now s.current → known (f s) s.current) :
    Sim S bound ⟨stage, now, 0⟩ p q fun a => ⟨stage, known a, 0⟩ where
  reads s ends start := by
    rw [left]
    refine ⟨.refl ends, fun a result => ?_⟩
    cases result
    exact ⟨Nat.le_refl _, kept s start⟩
  meets s t _ _ _ together := by
    rw [left, right]
    exact .inr ⟨same s t together, together⟩
  drifts s _ _ adrift := by
    rw [left]
    exact .inr adrift
  valid s _ _ valid := .note valid (by rw [left]) (by rw [left])

theorem Setting.At.current (together : S.At stage s t) [joint : stage.Joint] :
    Alike S.view s.current t.current :=
  together.inner.head

theorem Setting.At.inner_or_outer (together : S.At stage s t) :
    (∃ level, S.Inner level s t) ∨ ∃ level, S.Outer level s t := by
  cases stage with
  | inner | loose => exact .inl ⟨_, together⟩
  | outer => exact together.imp (⟨_, ·⟩) (⟨_, ·⟩)
  | told | failed => exact .inl ⟨_, together.2⟩

theorem Setting.At.agree (together : S.At stage s t) : S.Agree s t := by
  rcases together.inner_or_outer with ⟨_, inner⟩ | ⟨_, outer⟩
  · exact inner.toAgree
  · exact outer.toAgree

theorem Setting.At.behind (together : S.At stage s t) : S.view s.previous.span = S.view t.previous.span := by
  rcases together.inner_or_outer with ⟨_, inner⟩ | ⟨_, outer⟩
  · exact inner.behind
  · exact S.blind outer.apart _ _

theorem current_sim [joint : stage.Joint] :
    Sim S bound ⟨stage, now, 0⟩ current current fun token => ⟨stage, fun x => now x ∧ x = token, 0⟩ :=
  .look (fun _ => rfl) (fun _ => rfl) (fun _ _ together => together.current)
    fun _ start => ⟨start, rfl⟩

/-- A reader that goes by the current token. -/
theorem Sim.current (rest : ∀ token span, S.view token.span = S.view span →
      Sim S bound ⟨stage, fun x => now x ∧ x = token, read⟩ (f token) (g { token with span }) post)
    [joint : stage.Joint] : Sim S bound ⟨stage, now, read⟩ (Parsing.current >>= f)
      (Parsing.current >>= g) post := by
  refine current_sim.bind fun token _ same => ?_
  obtain ⟨span, rfl, spans⟩ := exists_span_of_alike same
  exact rest token span spans

/-- A test on the kind of the current token. -/
theorem Sim.test [Unplaced α] (f : Token.Kind → α) [joint : stage.Joint]
    (test : ∀ s, p s = (.ok (f s.current.kind), s)) :
    Sim S bound ⟨stage, now, 0⟩ p p fun a => ⟨stage, fun x => now x ∧ f x.kind = a, 0⟩ := by
  refine .look test test (fun s _ together => ?_) fun _ start => ⟨start, rfl⟩
  obtain ⟨_, current, -⟩ := exists_span_of_alike together.current
  rw [current]

/-- Readers that decide whether the current token is of some kind. -/
abbrev TestSim (S : Setting) (bound : Nat) (stage : Stage) (now : Token → Prop) (f : Token.Kind → Bool)
    (p : Parser Bool) : Prop :=
  Sim S bound ⟨stage, now, 0⟩ p p
    (either ⟨stage, fun x => now x ∧ f x.kind = false, 0⟩ ⟨stage, fun x => now x ∧ f x.kind = true, 0⟩)

theorem TestSim.decide [joint : stage.Joint] (test : ∀ s, p s = (.ok (f s.current.kind), s)) :
    TestSim S bound stage now f p :=
  (Sim.test f test).last (by rintro (_ | _) <;> simp)

theorem here_sim [joint : stage.Joint] : Sim S bound ⟨stage, now, 0⟩ here here fun _ => ⟨stage, now, 0⟩ := by
  refine .look (fun _ => rfl) (fun _ => rfl) (fun _ _ together => ?_) fun _ => id
  obtain ⟨_, current, spans⟩ := exists_span_of_alike together.current
  rw [current]
  exact spans

theorem behind_sim : StaySim S bound ⟨stage, now, 0⟩ behind behind :=
  .look (fun _ => rfl) (fun _ => rfl) (fun _ _ together => together.behind) fun _ => id

theorem since_sim (same : Alike S.view start start') :
    StaySim S bound ⟨stage, now, 0⟩ (since start) (since start') :=
  behind_sim.bind fun _ _ behind => .pure ⟨S.merge_congr same behind, by simp⟩

/-- What was read takes the place from its start to here. -/
theorem since_pure {f g : Span → α} (starts : Alike S.view start start')
    (given : ∀ a b, Alike S.view a b →
      Alike S.view (f a) (g b) ∧ S.Fits ⟨stage, now, read⟩ (post (f a))) :
    Sim S bound ⟨stage, now, read⟩ (since start >>= fun span => pure (f span))
      (since start' >>= fun span => pure (g span)) post :=
  (since_sim starts).bind fun a b spans => .pure (given a b spans)

theorem owner_sim : StaySim S bound ⟨stage, now, 0⟩ owner owner :=
  .look (fun _ => rfl) (fun _ => rfl) (fun _ _ together => by simp [together.agree.owner]) fun _ => id

theorem declares_sim : StaySim S bound ⟨stage, now, 0⟩ declares declares :=
  .look (fun _ => rfl) (fun _ => rfl) (fun _ _ together => by simp [together.agree.declares])
    fun _ => id

/-- Where there is something left to read, the second run is at the same place. -/
theorem Sim.live (sim : Sim S bound ⟨.inner stage.level, now, read⟩ p q post)
    (live : ∀ token, now token → isLive token = true) [joint : stage.Joint] :
    Sim S bound ⟨stage, now, read⟩ p q post where
  reads := sim.reads
  meets s t ends light start together := sim.meets s t ends light start together.inner
  drifts s ends start adrift := by
    have spent : Spent s := by
      cases stage with
      | inner => exact adrift.elim
      | loose | told => exact adrift.spent
      | outer | failed => cases joint.isJoint
    have alive := live _ start
    rcases spent with atEnd | ⟨delimiter, -⟩
    · simp [isLive, atEnd] at alive
    · simp [isLive, delimiter] at alive
  valid := sim.valid

theorem Reads.advance {after : Stage} (more : ∀ token, now token → token.isEnd = false) :
    Reads ⟨stage, now, 0⟩ advance fun _ => after.past 1 := by
  intro _ ends start
  have more := more _ start
  exact ⟨.advance ends more, fun _ _ => ⟨Later.length_advance ends more, trivial⟩⟩

theorem Sim.advance {after : Stage} (more : ∀ token, now token → token.isEnd = false)
    (inside : ∀ s t, S.At stage s t → now s.current → EndsOnce s.tokens →
      S.At after s.advance t.advance ∨ S.Adrift after s.advance)
    (alone : ∀ s, S.Adrift stage s → now s.current → EndsOnce s.tokens → S.Adrift after s.advance) :
    Sim S bound ⟨stage, now, 0⟩ Parsing.advance Parsing.advance fun _ => after.past 1 where
  reads := .advance more
  meets s t ends _ start inner := by
    rcases inside s t inner start ends with together | adrift
    · exact .inr ⟨rfl, together⟩
    · exact .inl (.inr adrift)
  drifts s ends start adrift := .inr (alone s adrift start ends)
  valid s ends start valid := .change valid .advance ((Later.advance ends (more _ start)).valid valid)

theorem flat_of_plain (plain : isPlain token.kind = true) : opens token = 0 ∧ closes token = 0 := by
  cases kind : token.kind <;> simp_all [opens, closes, isPlain]

theorem more_of_plain (plain : isPlain token.kind = true) : token.isEnd = false := by
  cases kind : token.kind <;> simp_all [Token.isEnd, isPlain]

theorem more_of_delimiter (delimiter : isDelimiter token.kind = true) : token.isEnd = false := by
  unfold Token.isEnd
  cases kind : token.kind <;> simp [kind, isDelimiter] at delimiter ⊢

theorem closes_of_delimiter (delimiter : isDelimiter token.kind = true) : closes token = 0 := by
  unfold closes
  cases kind : token.kind <;> simp [kind, isDelimiter] at delimiter ⊢

theorem Setting.Inner.advance_plain (inner : S.Inner level s t) (ends : EndsOnce s.tokens)
    (plain : isPlain s.current.kind = true) : S.Inner level s.advance t.advance := by
  have flat := flat_of_plain plain
  have same_level : level + closes s.current ≤ level + opens s.current := by omega
  rcases inner.advance ends (more_of_plain plain) (.inl same_level) with after | ⟨-, -, ends, -⟩
  · exact after
  · cases kind : s.current.kind <;> simp_all [endsLine, isPlain]

theorem advance_plain (plain : ∀ token, now token → isPlain token.kind = true) :
    Sim S bound ⟨.inner level, now, 0⟩ advance advance fun _ => .inner level 1 :=
  .advance (fun token known => more_of_plain (plain token known))
    (fun _ _ inner start ends => .inl (Setting.Inner.advance_plain inner ends (plain _ start))) fun _ adrift =>
      adrift.elim

theorem advance_indent (indent : ∀ token, now token → token.kind = .indent) :
    Sim S bound ⟨.inner level, now, 0⟩ advance advance fun _ => (Stage.inner (level + 1)).past 1 := by
  have more : ∀ token, now token → token.isEnd = false := fun token known => by
    simp [Token.isEnd, indent token known]
  refine .advance more (fun s _ inner start ends => ?_) fun _ adrift => adrift.elim
  have kind := indent _ start
  have opened : level + 1 + closes s.current ≤ level + opens s.current := by simp [closes, opens, kind]
  rcases Setting.Inner.advance inner ends (more _ start) (.inl opened) with after | ⟨-, -, ends, -⟩
  · exact .inl after
  · simp [endsLine, kind] at ends

theorem advance_dedent (dedent : ∀ token, now token → token.kind = .dedent) :
    Sim S bound ⟨.inner (level + 1), now, 0⟩ advance advance fun _ => .outer level 1 := by
  have more : ∀ token, now token → token.isEnd = false := fun token known => by
    simp [Token.isEnd, dedent token known]
  refine .advance more (fun s _ inner start ends => ?_) fun _ adrift => adrift.elim
  have kind := dedent _ start
  have closed : level + closes s.current ≤ level + 1 + opens s.current := by simp [closes, kind]
  obtain ⟨_, same, -⟩ := exists_span_of_alike (Setting.Inner.head inner)
  rcases Setting.Inner.advance inner ends (more _ start) (.inl closed) with after | ⟨passed, zero, -, previous, -⟩
  · exact .inl (.inl after)
  · refine .inl (.inr { passed with level := zero, ended := .inl ?_ })
    rw [previous, same]
    simp [closesBlock, kind]

theorem Setting.Loose.advance (loose : S.Loose level s) (ends : EndsOnce s.tokens)
    (more : s.current.isEnd = false) : S.Loose level s.advance :=
  ⟨loose.apart, loose.level, loose.spent.later ends (.advance ends more)⟩

theorem advance_delimiter (delimiter : ∀ token, now token → isDelimiter token.kind = true) :
    Sim S bound ⟨.loose level, now, 0⟩ advance advance fun _ => .loose level 1 := by
  have more : ∀ token, now token → token.isEnd = false := fun token known =>
    more_of_delimiter (delimiter token known)
  refine .advance more (fun s _ inner start ends => ?_) fun s adrift start ends => adrift.advance ends (more _ start)
  have same_level : level + closes s.current ≤ level + opens s.current := by
    rw [closes_of_delimiter (delimiter _ start)]
    omega
  rcases Setting.Inner.advance inner ends (more _ start) (.inl same_level) with after | ⟨passed, zero, -⟩
  · exact .inl after
  · exact .inr ⟨passed.apart, zero, passed.spent⟩

/-- Where something was reported, indentations need not be counted any more. -/
theorem advance_told (more : ∀ token, now token → token.isEnd = false) :
    Sim S bound ⟨.told level, now, 0⟩ advance advance fun _ => .told level 1 := by
  refine .advance more (fun s _ told start ends => ?_) fun s adrift start ends => adrift.advance ends (more _ start)
  rcases told.2.advance ends (more _ start) (.inr ⟨told.1, rfl⟩) with after | ⟨passed, zero, -⟩
  · exact .inl ⟨told.1, after⟩
  · exact .inr ⟨passed.apart, zero, passed.spent⟩

section Accepting

variable {after : Point}

theorem check_sim [joint : stage.Joint] : Sim S bound ⟨stage, now, 0⟩ (check wanted) (check wanted)
      (either ⟨stage, fun x => now x ∧ x.kind ≠ wanted, 0⟩ ⟨stage, fun x =>
        now x ∧ x.kind = wanted, 0⟩) := by
  have test : Sim S bound ⟨stage, now, 0⟩ (check wanted) (check wanted)
      fun found => ⟨stage, fun x => now x ∧ decide (x.kind = wanted) = found, 0⟩ :=
    .test (fun kind => decide (kind = wanted)) fun _ => rfl
  exact test.last (by rintro (_ | _) <;> simp)

theorem exists_span_of_alike_error {error' : ParseError} (same : Alike f error error') :
    ∃ span, error' = { error with span } ∧ f error.span = f span := by
  obtain ⟨_, _, span', _, _⟩ := error'
  obtain ⟨rfl, rfl, spans, rfl, rfl⟩ := ParseError.mk.inj same
  exact ⟨span', rfl, spans⟩

theorem error_alike {error : ParseError} (spans : f error.span = f span) :
    Alike f error { error with span } := by
  show ({ error with span := f error.span } : ParseError) = { error with span := f span }
  rw [spans]

theorem errorHere_sim [joint : stage.Joint] :
    Sim S bound ⟨stage, now, 0⟩ (errorHere kind message) (errorHere kind message) fun _ => ⟨stage, now, 0⟩ := by
  refine current_sim.bind fun _ _ same => ?_
  obtain ⟨_, rfl, spans⟩ := exists_span_of_alike same
  exact .pure ⟨error_alike spans, S.weakens_rfl, fun _ => And.left, Nat.le_refl _⟩

theorem failHere_sim [joint : stage.Joint] :
    Sim S bound ⟨stage, now, read⟩ (failHere kind message) (failHere kind message) post :=
  errorHere_sim.bind fun _ _ same => .throw same

theorem failAt_sim (same : Alike S.view span span') :
    Sim S bound ⟨stage, now, read⟩ (failAt kind message span) (failAt kind message span') post :=
  .throw (error_alike same)

/-- Reading a token of one kind, given what reading it leads to. -/
theorem Sim.accept
    (found : Sim S bound ⟨stage, fun x => now x ∧ x.kind = wanted,
      0⟩ Parsing.advance Parsing.advance fun _ => after)
    [joint : stage.Joint] : Sim S bound ⟨stage, now, 0⟩ (Parsing.accept wanted) (Parsing.accept wanted)
      (either ⟨stage, fun x => now x ∧ x.kind ≠ wanted, 0⟩ after) := by
  refine check_sim.branch ?_ ?_
  · exact found.next (.pure (by simp))
  · exact .pure (by simp)

theorem Sim.expect
    (found : Sim S bound ⟨stage, fun x => now x ∧ x.kind = wanted,
      0⟩ Parsing.advance Parsing.advance fun _ => after)
    [joint : stage.Joint] :
    Sim S bound ⟨stage, now, 0⟩ (Parsing.expect wanted message) (Parsing.expect wanted message) fun _ => after := by
  refine check_sim.branch ?_ ?_
  · exact found.last (by simp)
  · refine errorHere_sim.bind fun _ _ same => ?_
    obtain ⟨_, rfl, spans⟩ := exists_span_of_alike_error same
    exact .throw (error_alike spans)

/-- Tokens that only a source with something left to read can hold. -/
def isProper (kind : Token.Kind) : Bool := isPlain kind && !isDelimiter kind

theorem advance_proper (proper : isProper wanted = true) [joint : stage.Joint] :
    Sim S bound ⟨stage, fun x => now x ∧ x.kind = wanted, 0⟩ advance advance fun _ => .inner stage.level 1 := by
  obtain ⟨plain, no_delimiter⟩ : isPlain wanted = true ∧ isDelimiter wanted = false := by
    simpa [isProper] using proper
  have step : Sim S bound ⟨.inner stage.level, fun x => now x ∧ x.kind = wanted, 0⟩ advance advance
      fun _ => .inner stage.level 1 :=
    advance_plain fun token known => known.2 ▸ plain
  refine step.live fun token known => ?_
  have no_end : wanted ≠ .endOfFile := by rintro rfl; cases plain
  simp [isLive, Token.isEnd, known.2, no_delimiter, no_end]

theorem accept_sim (proper : isProper wanted = true) [joint : stage.Joint] :
    Sim S bound ⟨stage, now, 0⟩ (accept wanted) (accept wanted)
      (either ⟨stage, fun x => now x ∧ x.kind ≠ wanted, 0⟩ (.inner stage.level 1)) :=
  .accept (advance_proper proper)

theorem expect_sim (proper : isProper wanted = true) [joint : stage.Joint] :
    Sim S bound ⟨stage, now, 0⟩ (expect wanted message) (expect wanted message) fun _ => .inner stage.level 1 :=
  .expect (advance_proper proper)

end Accepting

theorem peek_eq (follows : s.behind = token :: rest) : peek s = (.ok token.kind, s.settled) := by
  rw [peek, Run.get_bind, dropInvalid_eq, settled, follows, show s.ahead.dropWhile isInvalid = _ from follows]
  rfl

theorem peek_sim (plain : ∀ token, now token → isPlain token.kind = true) :
    Sim S bound ⟨.inner level, now, 0⟩ peek peek fun _ => ⟨.inner level, now, 0⟩ where
  reads s ends start := by
    have more := more_of_plain (plain _ start)
    obtain ⟨token, rest, behind⟩ := exists_cons_of_ne_nil (ends.tail more).dropWhile_isInvalid.ne_nil
    have later := Later.settled ends more
    rw [peek_eq behind]
    exact ⟨later, fun _ _ => ⟨later.tokens.length_le, start⟩⟩
  meets s t ends _ start together := by
    have inner := together
    have plain := plain _ start
    have more := more_of_plain plain
    have flat := flat_of_plain plain
    have ends' := ends.tail more
    have head := inner.head
    have kind := inner.kind
    have behind := inner.behind
    rcases inner.ahead.tail ends'.ne_nil (.inl (by omega : level + closes s.current ≤ level + opens s.current))
      with inside | edge
    · obtain ⟨token, rest, _, _, follows, follows', valid, after, agree⟩ := inner.settled ends' inside
      obtain ⟨_, same, -⟩ := exists_span_of_alike (S.thin_cons valid _ ▸ after).head
      rw [peek_eq follows, peek_eq follows']
      refine .inr ⟨by rw [same], { toAgree := agree, kind, behind, valid := inner.valid, tokens := ?_ }⟩
      show S.Ahead level (s.current :: s.behind) (S.thin (t.current :: t.behind))
      rw [S.thin_cons inner.valid, follows, follows']
      exact after.cons head flat
    · have ends := edge.ends
      cases kind : s.current.kind <;> simp_all [endsLine, isPlain]
  drifts _ _ _ adrift := adrift.elim
  valid s ends start valid := by
    have more := more_of_plain (plain _ start)
    obtain ⟨token, rest, follows⟩ := exists_cons_of_ne_nil (ends.tail more).dropWhile_isInvalid.ne_nil
    have run := peek_eq follows
    exact .change valid (by rw [run]; exact .peek) (by rw [run]; exact valid)

section Reporting

theorem Setting.At.carry (together : S.At stage s t) (agree : S.Agree s' t') (tokens : s'.tokens = s.tokens)
    (previous : s'.previous = s.previous) (tokens' : t'.tokens = t.tokens) (previous' : t'.previous = t.previous) :
    S.At stage s' t' := by
  obtain ⟨current', -⟩ := List.cons.inj tokens'
  have inner {level : Nat} (inner : S.Inner level s t) : S.Inner level s' t' :=
    ⟨agree, by rw [previous, previous', inner.kind], by rw [previous, previous', inner.behind],
      by rw [current', inner.valid], by rw [tokens, tokens']; exact inner.tokens⟩
  cases stage with
  | inner | loose => exact inner together
  | outer =>
    rcases together with together | outer
    · exact .inl (inner together)
    · have passed : S.Passed s' t' :=
        ⟨agree, outer.apart, outer.spent.carry tokens, by rw [tokens']; exact outer.beyond,
          by rw [current', outer.valid]⟩
      exact .inr ⟨passed, outer.level, by rw [previous', current']; exact outer.ended⟩
  | told | failed => exact ⟨together.1, inner together.2⟩

theorem Setting.Adrift.carry (adrift : S.Adrift stage s) (tokens : s'.tokens = s.tokens) : S.Adrift stage s' := by
  have loose {level : Nat} (loose : S.Loose level s) : S.Loose level s' :=
    ⟨loose.apart, loose.level, loose.spent.carry tokens⟩
  cases stage with
  | inner | outer => exact adrift.elim
  | loose | told => exact loose adrift
  | failed => exact adrift.imp id loose

theorem Setting.At.report (together : S.At stage s t) (tells : S.Tells new.toList new'.toList) :
    S.At stage { s with reports := s.reports ++ new } { t with reports := t.reports ++ new' } :=
  together.carry (together.agree.report tells) rfl rfl rfl rfl

@[simp] theorem reportAll_eq (new : Array Report) (s : State) :
    reportAll new s = (.ok (), { s with reports := s.reports ++ new }) := rfl

theorem reportAll_sim (tells : S.Tells new.toList new'.toList) :
    StaySim S bound ⟨stage, now, 0⟩ (reportAll new) (reportAll new') where
  reads s ends start := by
    exact ⟨.report ends new, fun _ _ => ⟨Nat.le_refl _, start⟩⟩
  meets s t _ _ _ together := .inr ⟨rfl, together.report tells⟩
  drifts _ _ _ adrift := .inr (adrift.carry rfl)
  valid _ _ _ valid := .note valid rfl rfl

variable {report : Report}

section

variable (same : Alike S.view report report')

include same

theorem report_sim : StaySim S bound ⟨stage, now, 0⟩ (Parsing.report report) (Parsing.report report') :=
  reportAll_sim (Setting.tells_of_alike (by simp [same]))

/-- A run that must not report anything is given up with its first report. -/
theorem report_told [joint : stage.Joint] :
    Sim S bound ⟨stage, now, 0⟩ (Parsing.report report) (Parsing.report report') fun _ =>
      ⟨.told stage.level, now, 0⟩ where
  reads s ends start := ⟨.report ends _, fun _ _ => ⟨Nat.le_refl _, start⟩⟩
  meets s t ends light start together := by
    by_cases clean : S.mode = .clean
    · exact .inl (.inl ⟨clean, by simp⟩)
    · have inner : S.At (.inner stage.level) s t := together.inner
      exact .inr ⟨rfl, clean, inner.report (Setting.tells_of_alike (by simp [same]))⟩
  drifts s _ _ adrift := by
    cases stage with
    | inner => exact adrift.elim
    | loose | told => exact .inr (Setting.Adrift.carry adrift rfl)
    | outer | failed => cases joint.isJoint
  valid _ _ _ valid := .note valid rfl rfl

theorem report_failed :
    Sim S bound ⟨.failed level, now, 0⟩ (Parsing.report report) (Parsing.report report') fun _ =>
      ⟨.told level, now, 0⟩ where
  reads s ends start := ⟨.report ends _, fun _ _ => ⟨Nat.le_refl _, start⟩⟩
  meets s t ends light start together := .inr ⟨rfl, together.report (Setting.tells_of_alike (by simp [same]))⟩
  drifts s _ _ adrift := by
    rcases adrift with clean | loose
    · exact .inl ⟨clean, by simp⟩
    · exact .inr ⟨loose.apart, loose.level, loose.spent⟩
  valid _ _ _ valid := .note valid rfl rfl

end

theorem warn_sim (same : Alike S.view span span') :
    StaySim S bound ⟨stage, now, 0⟩ (warn code span message) (warn code span' message) :=
  report_sim (located_alike same)

theorem warn_told (same : Alike S.view span span') [joint : stage.Joint] :
    Sim S bound ⟨stage, now, 0⟩ (warn code span message) (warn code span' message) fun _ =>
      ⟨.told stage.level, now, 0⟩ :=
  report_told (located_alike same)

theorem toReport_alike {error' : ParseError} (same : Alike f error error') :
    Alike f error.toReport error'.toReport := by
  obtain ⟨_, rfl, spans⟩ := exists_span_of_alike_error same
  exact located_alike spans

end Reporting

section Scopes

def State.scoped (s : State) (scope : TypePath × Bool) : State := { s with owner := scope.1, declares := scope.2 }

theorem Setting.Agree.scope (agree : S.Agree s t) : s.scope = t.scope := by
  rw [State.scope, State.scope, agree.owner, agree.declares]

theorem Setting.At.scoped (together : S.At stage s t) (scope : TypePath × Bool) :
    S.At stage (s.scoped scope) (t.scoped scope) :=
  together.carry ⟨rfl, rfl, together.agree.complains, together.agree.exact⟩ rfl rfl rfl rfl

theorem Setting.Drifts.scoped {α : Type} {post : α → Point} {result : Except ParseError α × State}
    (alone : S.Drifts post result) (scope : TypePath × Bool) : S.Drifts post (result.1, result.2.scoped scope) := by
  rcases result with ⟨_ | _, _⟩
  · exact alone
  · rcases alone with lost | adrift
    · exact .inl lost
    · exact .inr (adrift.carry rfl)

/-- A reader that is run in a scope of its own. -/
theorem Sim.scoped (inside : TypePath × Bool → TypePath × Bool)
    (outside : TypePath × Bool → TypePath × Bool → TypePath × Bool)
    (restores : ∀ scope, outside scope (inside scope) = scope)
    (left : ∀ s, w s = ((p (s.scoped (inside s.scope))).1,
      (p (s.scoped (inside s.scope))).2.scoped (outside s.scope (p (s.scoped (inside s.scope))).2.scope)))
    (right : ∀ t, w' t = ((q (t.scoped (inside t.scope))).1,
      (q (t.scoped (inside t.scope))).2.scoped (outside t.scope (q (t.scoped (inside t.scope))).2.scope)))
    (within : ∀ s, isInvalid s.current = false → Throughout p (s.scoped (inside s.scope)) → Throughout w s)
    (sim : Sim S bound ⟨stage, now, 0⟩ p q post) : Sim S bound ⟨stage, now, 0⟩ w w' post where
  reads s ends start := by
    obtain ⟨later, ok⟩ := sim.reads (s.scoped (inside s.scope)) ends start
    have scope : outside s.scope (p (s.scoped (inside s.scope))).2.scope = s.scope := by
      rw [later.scope]
      exact restores s.scope
    rw [left]
    exact ⟨⟨later.tokens, later.ends, later.reports, later.alarms, later.skips, later.valid, scope⟩, ok⟩
  meets s t ends light start together := by
    have scopes := together.agree.scope
    have met := sim.meets (s.scoped (inside s.scope)) (t.scoped (inside s.scope)) ends light start (together.scoped _)
    rw [left, right, ← scopes]
    rcases met with alone | joint
    · exact .inl (alone.scoped _)
    right
    rcases run : p (s.scoped (inside s.scope)) with ⟨error | a, s₁⟩ <;>
      rcases run' : q (t.scoped (inside s.scope)) with ⟨error' | b, t₁⟩ <;> rw [run, run'] at joint
    · have inner : S.At (.inner 0) s₁ t₁ := joint.2
      rw [← inner.agree.scope]
      exact ⟨joint.1, inner.scoped _⟩
    · exact joint
    · exact joint
    · rw [← joint.2.agree.scope]
      exact ⟨joint.1, joint.2.scoped _⟩
  drifts s ends start adrift := by
    rw [left]
    exact (sim.drifts (s.scoped (inside s.scope)) ends start (adrift.carry rfl)).scoped _
  valid s ends start valid := within s valid (sim.valid (s.scoped (inside s.scope)) ends start valid)

theorem ofExcept_eq {α : Type} {result : Except ParseError α} {s : State} :
    (ofExcept result : Parser α) s = (result, s) := by
  cases result <;> rfl

theorem withOwner_sim (sim : Sim S bound ⟨stage, now, 0⟩ p q post) :
    Sim S bound ⟨stage, now, 0⟩ (withOwner path p) (withOwner path q) post :=
  .scoped (fun scope => (path, scope.2)) (fun before after => (before.1, after.2))
    (fun _ => rfl) (fun _ => ofExcept_eq)
    (fun _ => ofExcept_eq) (fun _ valid inside => .within valid ⟨rfl, rfl⟩ (fun _ => ⟨rfl, rfl⟩) inside) sim

theorem withDeclares_sim {declares : Bool} (sim : Sim S bound ⟨stage, now, 0⟩ p q post) :
    Sim S bound ⟨stage, now, 0⟩ (withDeclares declares p) (withDeclares declares q) post :=
  .scoped (fun scope => (scope.1, declares)) (fun before after => (after.1, before.2))
    (fun _ => rfl) (fun _ => ofExcept_eq)
    (fun _ => ofExcept_eq) (fun _ valid inside => .within valid ⟨rfl, rfl⟩ (fun _ => ⟨rfl, rfl⟩) inside) sim

end Scopes

end Rules

end DreamMaker.Parsing
