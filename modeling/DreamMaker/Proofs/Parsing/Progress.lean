import Mathlib.Data.List.TakeWhile
import DreamMaker.Parsing.Grammar
import DreamMaker.Proofs.Run

namespace DreamMaker.Parsing

open List

variable {token : Token} {s : State}

def isInvalid (token : Token) : Bool := token.kind = .invalid

theorem kind_of_end (ends : token.isEnd = true) : token.kind = .endOfFile := of_decide_eq_true ends

/-- The end of the file comes once, as the last token. -/
def EndsOnce (tokens : List Token) : Prop :=
  ∃ front last, tokens = front ++ [last] ∧ last.isEnd = true ∧ ∀ token ∈ front, token.isEnd = false

namespace State

/-- The tokens that are still to be delivered. -/
def tokens (s : State) : List Token := s.current :: s.ahead

/-- The valid token behind the current one, and what follows it. -/
def behind (s : State) : List Token := s.ahead.dropWhile isInvalid

/-- The state without the invalid tokens behind the current one. -/
def settled (s : State) : State :=
  { s with ahead := s.behind, reports := s.reports ++ ((s.ahead.takeWhile isInvalid).map invalid).toArray }

theorem dropInvalid_eq (reports : Array Report) (tokens : List Token) : dropInvalid reports tokens =
      (reports ++ ((tokens.takeWhile isInvalid).map invalid).toArray, tokens.dropWhile isInvalid) := by
  induction tokens generalizing reports with
  | nil => simp [dropInvalid]
  | cons token _ ih =>
    by_cases bad : token.kind = .invalid
    · simp [dropInvalid, isInvalid, bad, ih]
    · simp [dropInvalid, isInvalid, bad]

/-- What `advance` does where a valid token follows. -/
theorem advance_eq (follows : s.behind = token :: rest) :
    s.advance = { s.settled with previous := s.current, current := token, ahead := rest } := by
  unfold advance settled
  rw [dropInvalid_eq]
  unfold behind at follows
  simp only [follows]

theorem tokens_advance (follows : s.behind ≠ []) : s.advance.tokens = s.behind := by
  cases behind : s.behind with
  | nil => exact absurd behind follows
  | cons _ _ => rw [advance_eq behind, tokens]

end State

namespace EndsOnce

theorem last (ends : EndsOnce (front ++ [token])) : token.isEnd = true := by
  obtain ⟨_, last, split, isEnd, -⟩ := ends
  obtain ⟨-, same⟩ := append_inj' split rfl
  rw [List.cons.inj same |>.1]
  exact isEnd

theorem front {front : List Token} (ends : EndsOnce (front ++ [token])) : ∀ other ∈ front, other.isEnd = false := by
  obtain ⟨_, _, split, -, others⟩ := ends
  obtain ⟨same, -⟩ := append_inj' split rfl
  rw [same]
  exact others

theorem ne_nil (ends : EndsOnce tokens) : tokens ≠ [] := by
  obtain ⟨_, _, rfl, -⟩ := ends
  simp

/-- At the end nothing follows. -/
theorem eq_nil_of_end (ends : EndsOnce (token :: rest)) (atEnd : token.isEnd = true) : rest = [] := by
  obtain ⟨front, _, split, -, others⟩ := ends
  cases front with
  | nil => exact (List.cons.inj split).2
  | cons first front =>
    have first_eq := (List.cons.inj split).1
    have more := others first (by simp)
    rw [← first_eq, atEnd] at more
    cases more

theorem tail (ends : EndsOnce (token :: rest)) (more : token.isEnd = false) : EndsOnce rest := by
  obtain ⟨front, last, split, isEnd, others⟩ := ends
  cases front with
  | nil =>
    have first_eq := (List.cons.inj split).1
    rw [first_eq, isEnd] at more
    cases more
  | cons _ front =>
    exact ⟨front, last, (List.cons.inj split).2, isEnd, fun token member => others token (by simp [member])⟩

theorem cons (ends : EndsOnce rest) (more : token.isEnd = false) : EndsOnce (token :: rest) := by
  obtain ⟨front, last, rfl, isEnd, others⟩ := ends
  exact ⟨token :: front, last, rfl, isEnd, forall_mem_cons.mpr ⟨more, others⟩⟩

theorem isInvalid_last (ends : token.isEnd = true) : isInvalid token = false := by
  have kind := kind_of_end ends
  simp [isInvalid, kind]

theorem dropWhile_isInvalid (ends : EndsOnce tokens) : EndsOnce (tokens.dropWhile isInvalid) := by
  obtain ⟨front, last, rfl, isEnd, others⟩ := ends
  have kept : (front ++ [last]).dropWhile isInvalid = front.dropWhile isInvalid ++ [last] := by
    rw [dropWhile_append]
    split
    · rename_i empty
      rw [isEmpty_iff.mp empty]
      simp [isInvalid_last isEnd]
    · rfl
  rw [kept]
  exact ⟨_, last, rfl, isEnd, fun token member => others token ((dropWhile_sublist _).subset member)⟩

end EndsOnce

/-- The errors that were reported, and the invalid tokens ahead that will be. -/
def State.alarms (s : State) : Nat :=
  s.reports.toList.countP (·.diagnostic.isError) + s.ahead.countP isInvalid

/-- What is not read from the tokens: the type whose body is read, and whether expressions may declare. -/
def State.scope (s : State) : TypePath × Bool := (s.owner, s.declares)

/-- What reading never undoes: tokens are read or dropped, reports are added, an invalid token is dropped with one,
and the file still ends once. -/
structure Later (s s' : State) : Prop where
  tokens : s'.tokens.Sublist s.tokens
  ends : EndsOnce s'.tokens
  reports : s.reports.toList <+: s'.reports.toList
  alarms : s.alarms ≤ s'.alarms
  skips : s.skips.toList <+: s'.skips.toList
  valid : isInvalid s.current = false → isInvalid s'.current = false
  scope : s'.scope = s.scope

theorem State.isError_invalid : (State.invalid token).diagnostic.isError = true := rfl

theorem countP_isError_invalid {dropped : List Token} (invalid : ∀ token ∈ dropped, isInvalid token = true) :
    (dropped.map State.invalid).countP (·.diagnostic.isError) = dropped.countP isInvalid := by
  rw [countP_map]
  exact countP_congr fun token member => by simp [State.isError_invalid, invalid token member]

theorem State.alarms_settled (s : State) : s.settled.alarms = s.alarms := by
  have dropped : ∀ token ∈ s.ahead.takeWhile isInvalid, isInvalid token = true := fun _ => mem_takeWhile_imp
  have split : s.ahead.countP isInvalid = (s.ahead.takeWhile isInvalid).countP isInvalid +
      s.behind.countP isInvalid := by
    rw [State.behind, ← countP_append, takeWhile_append_dropWhile]
  simp only [State.alarms, State.settled, Array.toList_append, countP_append, countP_isError_invalid dropped]
  omega

namespace Later

variable {s' : State}

theorem refl (ends : EndsOnce s.tokens) : Later s s :=
  ⟨.refl _, ends, prefix_rfl, Nat.le_refl _, prefix_rfl, id, rfl⟩

theorem trans (first : Later s s₁) (second : Later s₁ s₂) : Later s s₂ where
  tokens := second.tokens.trans first.tokens
  ends := second.ends
  reports := first.reports.trans second.reports
  alarms := Nat.le_trans first.alarms second.alarms
  skips := first.skips.trans second.skips
  valid := second.valid ∘ first.valid
  scope := second.scope.trans first.scope

/-- If no token was read, the current one is still the same. -/
theorem current_eq (later : Later s s') (none_read : s.tokens.length ≤ s'.tokens.length) :
    s'.current = s.current := by
  have same := later.tokens.eq_of_length_le none_read
  exact (List.cons.inj same).1

/-- The end of the file is never left. -/
theorem atEnd (later : Later s s') (atEnd : s.current.isEnd = true) (ends : EndsOnce s.tokens) :
    s'.current.isEnd = true := by
  have nothing := ends.eq_nil_of_end atEnd
  have short : s.tokens.length ≤ s'.tokens.length := by simp [State.tokens, nothing]
  rw [later.current_eq short]
  exact atEnd

variable (ends : EndsOnce s.tokens)

include ends

theorem report (new : Array Report) : Later s { s with reports := s.reports ++ new } :=
  ⟨.refl _, ends, by simp, by simp only [State.alarms, Array.toList_append, countP_append]; omega, prefix_rfl, id,
    rfl⟩

/-- The invalid tokens before the next valid one are dropped. -/
theorem settled (more : s.current.isEnd = false) : Later s s.settled where
  tokens := (dropWhile_sublist _).cons_cons _
  ends := (ends.tail more).dropWhile_isInvalid.cons more
  reports := by simp [State.settled]
  alarms := Nat.le_of_eq s.alarms_settled.symm
  skips := prefix_rfl
  valid := id
  scope := rfl

theorem advance (more : s.current.isEnd = false) : Later s s.advance := by
  have settled := settled ends more
  have ends' := (ends.tail more).dropWhile_isInvalid
  obtain ⟨token, rest, behind⟩ := exists_cons_of_ne_nil ends'.ne_nil
  rw [behind] at ends'
  have alarms := settled.alarms
  have first := head?_dropWhile_not isInvalid s.ahead
  rw [show s.ahead.dropWhile isInvalid = token :: rest from behind] at first
  have valid : isInvalid token = false := by simpa using first
  rw [State.advance_eq behind]
  refine ⟨?_, ends', settled.reports, ?_, prefix_rfl, fun _ => valid, rfl⟩
  · show (token :: rest).Sublist (s.current :: s.ahead)
    rw [← behind]
    exact (dropWhile_sublist _).cons _
  · -- the token that is current now is valid, so it was not counted before either
    have ahead : s.settled.ahead = token :: rest := behind
    simpa [State.alarms, ahead, valid] using alarms

theorem length_advance (more : s.current.isEnd = false) : s.advance.tokens.length + 1 ≤ s.tokens.length := by
  rw [State.tokens_advance (ends.tail more).dropWhile_isInvalid.ne_nil]
  exact Nat.succ_le_succ (dropWhile_sublist _).length_le

end Later

section Runs

variable (s : State)

@[simp] theorem run_current : current s = (.ok s.current, s) := rfl

@[simp] theorem run_kind : kind s = (.ok s.current.kind, s) := rfl

@[simp] theorem run_here : here s = (.ok s.current.span, s) := rfl

@[simp] theorem run_advance : advance s = (.ok (), s.advance) := rfl

@[simp] theorem run_declares : declares s = (.ok s.declares, s) := rfl

@[simp] theorem run_previous : previous s = (.ok s.previous, s) := rfl

@[simp] theorem run_behind : behind s = (.ok s.previous.span, s) := rfl

@[simp] theorem run_owner : owner s = (.ok s.owner, s) := rfl

@[simp] theorem run_since : since start s = (.ok (start.merge s.previous.span), s) := rfl

@[simp] theorem run_check (wanted : Token.Kind) : check wanted s = (.ok (decide (s.current.kind = wanted)), s) := rfl

@[simp] theorem run_accept :
    accept wanted s = if s.current.kind = wanted then (.ok true, s.advance) else (.ok false, s) := by
  rw [accept, Run.bind_eq, run_check]
  by_cases found : s.current.kind = wanted
  · simp only [found]
    rfl
  · simp only [found]
    rfl

@[simp] theorem run_expect (found : s.current.kind = wanted) : expect wanted message s = (.ok (), s.advance) := by
  rw [expect, Run.bind_eq, run_check]
  simp only [found]
  rfl

attribute [scoped simp] Run.bind_eq Run.map_eq checkSymbol acceptSymbol acceptKeyword expectSymbol atEnd

end Runs

/-- One change of a state. -/
inductive State.Changes (s : State) : State → Prop
  /-- Nothing is read. -/
  | note {s' : State} : s'.tokens = s.tokens → s'.previous = s.previous → Changes s s'
  | advance : Changes s s.advance
  | peek : Changes s s.settled
  | handBack (token : Token) : Changes s (s.handBack token)

/-- Whatever a reader comes to from a state by single changes, the current token is valid there. -/
inductive Throughout : {α : Type} → Parser α → State → Prop
  | change {α : Type} {p : Parser α} {s : State} : isInvalid s.current = false → s.Changes (p s).2 →
      isInvalid (p s).2.current = false → Throughout p s
  | bind {α β : Type} {p : Parser α} {f : α → Parser β} {s : State} : Throughout p s →
      (∀ a, (p s).1 = .ok a → Throughout (f a) (p s).2) → Throughout (p >>= f) s
  | attempt {α : Type} {p : Parser α} {s : State} : Throughout p s → Throughout (attempt p) s

variable {α β : Type} {p : Parser α}

theorem Throughout.note (valid : isInvalid s.current = false)
    (tokens : (p s).2.tokens = s.tokens) (previous : (p s).2.previous = s.previous) : Throughout p s :=
  .change valid (.note tokens previous) ((List.cons.inj tokens).1 ▸ valid)

theorem Throughout.ends_valid (throughout : Throughout p s) : isInvalid (p s).2.current = false := by
  induction throughout with
  | change _ _ valid => exact valid
  | @bind _ _ p _ s _ _ first rest =>
    rw [Run.bind_eq]
    rcases run : p s with ⟨error | a, s₁⟩ <;> rw [run] at first rest
    · exact first
    · exact rest a rfl
  | attempt _ ih => exact ih

theorem Throughout.andPure (throughout : Throughout p s) (f : α → β) :
    Throughout (do return f (← p)) s :=
  .bind throughout fun _ _ => .note throughout.ends_valid rfl rfl

theorem Throughout.handBackIf (valid : isInvalid s.current = false)
    (back : isInvalid token = false) (needed : Bool) : Throughout (Parsing.handBackIf needed token) s := by
  cases needed
  · exact .note valid rfl rfl
  · exact .change valid (.handBack token) back

/-- A reader that is run in a scope of its own. -/
theorem Throughout.within {leave : State → State → State}
    (valid : isInvalid s.current = false) (entered : (enter s).tokens = s.tokens ∧ (enter s).previous = s.previous)
    (left : ∀ s', (leave s s').tokens = s'.tokens ∧ (leave s s').previous = s'.previous)
    (inside : Throughout p (enter s)) :
    Throughout (get >>= fun before => modify enter >>= fun _ => Parsing.attempt p >>= fun result =>
      modify (leave before) >>= fun _ => (ofExcept result : Parser α)) s := by
  refine .bind (.note valid rfl rfl) fun before same => ?_
  cases same
  refine .bind (.note valid entered.1 entered.2) fun _ _ => .bind (.attempt inside) fun result _ => ?_
  have back : isInvalid (leave s (p (enter s)).2).current = false := by
    rw [(List.cons.inj (left _).1).1]
    exact inside.ends_valid
  refine .bind (.note inside.ends_valid (left _).1 (left _).2) fun _ _ => ?_
  cases result <;> exact .note back rfl rfl

/-- How the second of two runs stands to the first. The level counts the open indentations. -/
inductive Stage
  /-- Both runs are at the same place. -/
  | inner (level : Nat)
  /-- Both are at the same place, or both behind what the first one reads. -/
  | outer (level : Nat)
  /-- Both are at the same place, or the first has nothing left to read and the second may be anywhere. -/
  | loose (level : Nat)
  /-- As before, and the first has reported something. -/
  | told (level : Nat)
  /-- As before, and the first has met an error that it did not report yet. -/
  | failed (level : Nat)

namespace Stage

@[simp] def level : Stage → Nat
  | .inner level | .outer level | .loose level | .told level | .failed level => level

/-- As long as the first run has something to read, the second is at the same place. -/
def isJoint : Stage → Bool
  | .inner _ | .loose _ | .told _ => true
  | .outer _ | .failed _ => false

class Joint (stage : Stage) : Prop where
  isJoint : stage.isJoint = true

instance {level : Nat} : Joint (.inner level) := ⟨rfl⟩

instance {level : Nat} : Joint (.loose level) := ⟨rfl⟩

instance {level : Nat} : Joint (.told level) := ⟨rfl⟩

end Stage

/-- What is known at a place in a reader: how two runs stand to each other, what the current token is, and how many
were read. -/
structure Point where
  stage : Stage
  now : Token → Prop
  read : Nat

/-- Nothing is known of the current token. -/
abbrev Stage.past (stage : Stage) (read : Nat) : Point := ⟨stage, fun _ => True, read⟩

namespace Point

abbrev inner (level read : Nat) : Point := (Stage.inner level).past read

abbrev outer (level read : Nat) : Point := (Stage.outer level).past read

abbrev loose (level read : Nat) : Point := (Stage.loose level).past read

abbrev told (level read : Nat) : Point := (Stage.told level).past read

end Point

/-- What is known behind a test. -/
@[simp, reducible] def either (no yes : Point) : Bool → Point
  | false => no
  | true => yes

/-- What is known behind a reader that may find nothing. -/
@[simp, reducible] def optional {α : Type u} (none some : Point) : Option α → Point
  | .none => none
  | .some _ => some

/-- A reader makes the progress that it promises. -/
def Reads (pre : Point) (p : Parser α) (post : α → Point) : Prop :=
  ∀ s : State, EndsOnce s.tokens → pre.now s.current →
    Later s (p s).2 ∧ ∀ a, (p s).1 = .ok a →
      (p s).2.tokens.length + (post a).read ≤ s.tokens.length + pre.read ∧ (post a).now (p s).2.current

namespace Reads

theorem pure (read : (post a).read ≤ pre.read)
    (now : ∀ token, pre.now token → (post a).now token) : Reads pre (Pure.pure a) post := by
  intro _ ends before
  refine ⟨.refl ends, fun b same => ?_⟩
  have same : a = b := by simpa using same
  subst same
  exact ⟨Nat.add_le_add_left read _, now _ before⟩

theorem throw (error : ParseError) : Reads pre (MonadExcept.throw error) post :=
  fun _ ends _ => ⟨.refl ends, fun _ failed => nomatch failed⟩

theorem bind {post : β → Point}
    (first : Reads pre p mid) (rest : ∀ a, Reads (mid a) (f a) post) : Reads pre (p >>= f) post := by
  intro s ends before
  obtain ⟨later, ok⟩ := first s ends before
  rw [Run.bind_eq]
  rcases run : p s with ⟨_ | a, s₁⟩
  · rw [run] at later
    exact ⟨later, fun _ failed => nomatch failed⟩
  rw [run] at later ok
  obtain ⟨fewer, now⟩ := ok a rfl
  obtain ⟨after, done⟩ := rest a s₁ later.ends now
  refine ⟨later.trans after, fun b result => ?_⟩
  obtain ⟨fewer', now'⟩ := done b result
  exact ⟨Nat.le_trans fewer' fewer, now'⟩

/-- More may have been read before. -/
theorem frame {read : Nat} (reads : Reads ⟨stage, now, 0⟩ p post) :
    Reads ⟨stage, now, read⟩ p fun a => ⟨(post a).stage, (post a).now, read + (post a).read⟩ := by
  intro s ends before
  obtain ⟨later, ok⟩ := reads s ends before
  refine ⟨later, fun a result => ?_⟩
  obtain ⟨fewer, now⟩ := ok a result
  exact ⟨by dsimp only at fewer ⊢; omega, now⟩

end Reads

section Rounds

variable {turn : σ → Parser (Turn σ β)}

/-- What is known behind a turn: where it is not the last one, that a token was read. -/
@[simp, reducible] def turned (stage : Stage) (post : β → Point) : Turn σ β → Point
  | .again _ => stage.past 1
  | .stop b => post b

theorem failHere_eq {kind : ParseError.Kind} {message : String} : (failHere kind message : Parser α) s =
      (.error { kind, message, span := s.current.span, found? := some s.current.kind.name }, s) := rfl

theorem roundsOver_cons (turn : σ → Parser (Turn σ β)) (token : Token) (left : List Token) (a : σ) (s : State) :
    roundsOver turn (token :: left) a s = match turn a s with
      | (.ok (.again a'), s') => roundsOver turn left a' s'
      | (.ok (.stop b), s') => (.ok b, s')
      | (.error error, s') => (.error error, s') := by
  rw [roundsOver, Run.bind_eq]
  rcases turn a s with ⟨_ | _ | _, s'⟩ <;> rfl

end Rounds

end DreamMaker.Parsing
