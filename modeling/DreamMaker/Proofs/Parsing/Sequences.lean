import DreamMaker.Proofs.Parsing.Grouping
import DreamMaker.Proofs.Parsing.Turns
import DreamMaker.Proofs.Token.Outline

/-!
The items of a block, one behind the other. Whether a block is indented or stands in braces, its items are read as
those of its lines, and what divides them leaves no trace.
-/

namespace DreamMaker.Parsing

open List

variable {next : Token}

/-! ### Reading over what divides items -/

/-- Tokens that divide the items of a block. -/
def Dividers (tokens : List Token) : Prop := ∀ token ∈ tokens, isDelimiter token.kind = true

/-- These tokens come next, perhaps behind some that divide items. -/
def Near (s : State) (left : List Token) : Prop := ∃ before, Dividers before ∧ Stands s (before ++ left)

theorem roundsOver_acceptTurn (stop : wanted next.kind = false)
    (before fuel : List Token) (found : Bool) (stands : Stands s (before ++ next :: rest))
    (all : ∀ token ∈ before, wanted token.kind = true) (enough : before.length < fuel.length) :
    ∃ s', roundsOver (acceptTurn wanted) fuel found s = (.ok (found || !before.isEmpty), s') ∧
      Stands s' (next :: rest) ∧ Same s s' ∧ (before = [] → s' = s) := by
  induction before generalizing fuel found s with
  | nil =>
    obtain ⟨token, fuel, rfl⟩ := exists_cons_of_length_pos (Nat.lt_of_le_of_lt (Nat.zero_le _) enough)
    have other : wanted s.current.kind = false := by rw [stands.current]; exact stop
    exact ⟨s, by simp [roundsOver_cons, acceptTurn_eq, other], stands, .refl s, fun _ => rfl⟩
  | cons _ before ih =>
    obtain ⟨token, fuel, rfl⟩ := exists_cons_of_length_pos (Nat.lt_of_le_of_lt (Nat.zero_le _) enough)
    obtain ⟨here, others⟩ := forall_mem_cons.mp all
    obtain ⟨behind, kept⟩ := stands.advance (by simp)
    rw [length_cons, length_cons] at enough
    obtain ⟨s', run, after, kept', -⟩ := ih fuel true behind others (by omega)
    have wants : wanted s.current.kind = true := by rw [stands.current]; exact here
    refine ⟨s', ?_, after, kept.trans kept', by simp⟩
    rw [roundsOver_cons, acceptTurn_eq, wants]
    simpa using run

theorem Stands.acceptAll (stands : Stands s (before ++ next :: rest))
    (all : ∀ token ∈ before, wanted token.kind = true) (stop : wanted next.kind = false) :
    ∃ s', Parsing.acceptAll wanted s = (.ok (!before.isEmpty), s') ∧ Stands s' (next :: rest) ∧ Same s s' ∧
      (before = [] → s' = s) := by
  have enough : before.length < s.tokens.length := by
    rw [stands.tokens, length_append, length_cons]
    omega
  have run := roundsOver_acceptTurn stop before s.tokens false stands all enough
  rwa [Bool.false_or] at run

namespace Near

variable {after : List Token} {rest : List Token}

theorem of_stands (stands : Stands s left) : Near s left := ⟨[], by simp [Dividers], stands⟩

theorem pass (near : Near s (after ++ left)) (dividers : Dividers after) : Near s left := by
  obtain ⟨before, first, _⟩ := near
  refine ⟨before ++ after, fun token member => ?_, by rwa [append_assoc]⟩
  rcases mem_append.mp member with member | member
  · exact first token member
  · exact dividers token member

theorem delimiters (near : Near s (next :: rest)) (stop : isDelimiter next.kind = false) :
    ∃ found s', Parsing.delimiters s = (.ok found, s') ∧ Stands s' (next :: rest) ∧ Same s s' := by
  obtain ⟨_, dividers, stands⟩ := near
  obtain ⟨s', run, after, kept, -⟩ := stands.acceptAll dividers stop
  exact ⟨_, s', run, after, kept⟩

end Near

/-! ### Turns of a loop -/

section Turns

variable {items' : List α}

/-- The turns of a loop read these items, one in each turn. -/
inductive Goes (turn : List α → Parser (Turn (List α) (List α))) : State → List α → State → Prop
  | stay {s : State} : Goes turn s [] s
  | step {s s₁ s₂ : State} {item : α} {more : List α}
      (run : ∀ done, turn done s = (.ok (.again (done ++ [item])), s₁))
      (fewer : s₁.tokens.length < s.tokens.length) (rest : Goes turn s₁ more s₂) : Goes turn s (item :: more) s₂

theorem Goes.append (first : Goes turn s items s₁) (second : Goes turn s₁ items' s₂) :
    Goes turn s (items ++ items') s₂ := by
  induction first with
  | stay => exact second
  | step run fewer _ ih => exact .step run fewer (ih second)

theorem Goes.roundsOver (goes : Goes turn s items s₁) (stop : ∀ done, turn done s₁ = (.ok (.stop done), s₂))
    (fuel : List Token) (enough : s.tokens.length ≤ fuel.length) (done : List α) :
    Parsing.roundsOver turn fuel done s = (.ok (done ++ items), s₂) := by
  induction goes generalizing fuel done with
  | stay =>
    obtain ⟨token, fuel, rfl⟩ := exists_cons_of_length_pos (Nat.lt_of_lt_of_le (Nat.zero_lt_succ _) enough)
    rw [roundsOver_cons, stop, append_nil]
  | @step s _ _ item _ run _ _ ih =>
    obtain ⟨token, fuel, rfl⟩ := exists_cons_of_length_pos (Nat.lt_of_lt_of_le (Nat.zero_lt_succ _) enough)
    rw [length_cons] at enough
    have rounds := ih stop fuel (by omega) (done ++ [item])
    rw [roundsOver_cons, run]
    rwa [append_assoc] at rounds

theorem Goes.rounds (goes : Goes turn s items s₁) (stop : ∀ done, turn done s₁ = (.ok (.stop done), s₂)) :
    Parsing.rounds [] turn s = (.ok items, s₂) :=
  goes.roundsOver stop s.tokens (Nat.le_refl _) []

end Turns

/-! ### Items -/

/-- Tokens that the items of a block start with. -/
def startsItem : Token.Kind → Bool
  | .identifier | .keyword .return_ | .keyword .if_ | .keyword .while_ => true
  | _ => false

/-- The first of these tokens starts an item. -/
def Begins (tokens : List Token) : Prop := ∃ token more, tokens = token :: more ∧ startsItem token.kind = true

theorem Begins.ne_nil (begins : Begins tokens) : tokens ≠ [] := by
  obtain ⟨_, _, rfl, -⟩ := begins
  simp

/-- A token that neither divides items nor goes on with one. -/
structure Clear (token : Token) : Prop where
  divides : isDelimiter token.kind = false
  joins : token.kind ≠ .keyword .else_

/-- An item has ended: it has closed a block, or stands before what ends a statement. -/
def Ended (s : State) : Prop := closesBlock s.previous.kind = true ∨ s.current.kind.endsStatement = true

theorem startsItem_apart {kind : Token.Kind} (starts : startsItem kind = true) :
    isDelimiter kind = false ∧ closesBlock kind = false ∧ kind ≠ .endOfFile ∧
      kind ≠ .indent ∧ kind ≠ .newline ∧ kind ≠ .keyword .else_ := by
  unfold startsItem at starts
  split at starts
  · decide
  · decide
  · decide
  · decide
  · cases starts

theorem Clear.of_startsItem (starts : startsItem token.kind = true) : Clear token :=
  ⟨(startsItem_apart starts).1, (startsItem_apart starts).2.2.2.2.2⟩

theorem Clear.of_closesBlock (closes : closesBlock token.kind = true) : Clear token := by
  simp only [closesBlock, Bool.or_eq_true, decide_eq_true_eq] at closes
  rcases closes with kind | kind <;> exact ⟨by rw [kind]; rfl, by simp [kind]⟩

section Items

variable [Placed α] {owner : TypePath}

/-- A reader reads these tokens as an item up to its end, whatever stands behind them. -/
def ReadsItem (p : Parser (Option α)) (owner : TypePath) (tokens : List Token) (item : α) : Prop :=
  ∀ (s : State) (after : List Token) (next : Token) (rest : List Token), s.owner = owner →
    Stands s (tokens ++ (after ++ next :: rest)) → Dividers after → Clear next →
    ∃ found s', p s = (.ok (some found), s') ∧ unplaced found = item ∧
      Near s' (next :: rest) ∧ Same s s' ∧ Ended s' ∧
      s'.tokens.length < s.tokens.length

/-- The turns of a loop read these tokens as items, whatever stands behind them. -/
def ReadsItems (turn : List α → Parser (Turn (List α) (List α))) (owner : TypePath) (tokens : List Token)
    (items : List α) : Prop :=
  ∀ (s : State) (after : List Token) (next : Token) (rest : List Token), s.owner = owner →
    Near s (tokens ++ (after ++ next :: rest)) → Dividers after → Clear next →
    ∃ found s', Goes turn s found s' ∧ unplaced found = items ∧ Near s' (next :: rest) ∧ Same s s'

variable {turn : List α → Parser (Turn (List α) (List α))}

theorem ReadsItems.append (first : ReadsItems turn owner tokens items) (second : ReadsItems turn owner tokens' items')
    (begins : Begins tokens') : ReadsItems turn owner (tokens ++ tokens') (items ++ items') := by
  intro s after next rest inside near dividers behind
  obtain ⟨token, more, rfl, starts⟩ := begins
  rw [append_assoc] at near
  obtain ⟨found, s₁, goes, alike, middle, kept⟩ :=
    first s [] token (more ++ (after ++ next :: rest)) inside near (by simp [Dividers]) (.of_startsItem starts)
  obtain ⟨found', s₂, goes', alike', finish, kept'⟩ :=
    second s₁ after next rest (kept.owner.trans inside) middle dividers behind
  exact ⟨found ++ found', s₂, goes.append goes', by rw [unplaced, move_append, ← alike, ← alike'],
    finish, kept.trans kept'⟩

/-- A loop reads over what divides items and then an item, up to a token that closes the items. -/
structure Loop (turn : List α → Parser (Turn (List α) (List α))) (p : Parser (Option α))
    (closes : Token.Kind → Bool) :
    Prop where
  step : ∀ {s : State} {token : Token} {left : List Token}, Near s (token :: left) →
    startsItem token.kind = true →
    ∃ s₁, Stands s₁ (token :: left) ∧ Same s s₁ ∧
      ∀ {found : α} {s₂ : State}, p s₁ = (.ok (some found), s₂) → Ended s₂ →
      ∀ done, turn done s = (.ok (.again (done ++ [found])), s₂)
  clear : ∀ {token : Token}, closes token.kind = true → Clear token
  stop : ∀ {s : State} {closer : Token} {rest : List Token}, closes closer.kind = true → Near s (closer :: rest) →
    ∃ s', (∀ done, turn done s = (.ok (.stop done), s')) ∧ Stands s' (closer :: rest) ∧ Same s s'

variable {closes : Token.Kind → Bool}

theorem Loop.single (loop : Loop turn p closes) (begins : Begins tokens) (reads : ReadsItem p owner tokens item) :
    ReadsItems turn owner tokens [item] := by
  intro s after next rest inside near dividers clear
  obtain ⟨_, _, rfl, starts⟩ := begins
  obtain ⟨s₁, stands, kept, step⟩ := loop.step near starts
  obtain ⟨found, s₂, run, alike, finish, kept', ended, fewer⟩ :=
    reads s₁ after next rest (kept.owner.trans inside) stands dividers clear
  have shorter : s₁.tokens.length ≤ s.tokens.length := by
    obtain ⟨_, -, whole⟩ := near
    rw [stands.tokens, whole.tokens, length_append]
    exact Nat.le_add_left _ _
  have goes : Goes turn s [found] s₂ := .step (step run ended) (Nat.lt_of_lt_of_le fewer shorter) .stay
  exact ⟨[found], s₂, goes, congrArg ([·]) alike, finish, kept.trans kept'⟩

/-- The turns of a loop read items up to the token that closes them. -/
theorem Loop.rounds (loop : Loop turn p closes) (reads : ReadsItems turn owner tokens items) {after : List Token}
    (inside : s.owner = owner) (near : Near s (tokens ++ (after ++ closer :: rest)))
    (dividers : Dividers after) (closed : closes closer.kind = true) :
    ∃ found s', Parsing.rounds [] turn s = (.ok found, s') ∧ unplaced found = items ∧
      Stands s' (closer :: rest) ∧ Same s s' := by
  obtain ⟨found, _, goes, alike, middle, kept⟩ := reads s after closer rest inside near dividers (loop.clear closed)
  obtain ⟨s₂, stop, finish, kept'⟩ := loop.stop closed middle
  exact ⟨found, s₂, goes.rounds stop, alike, finish, kept.trans kept'⟩

end Items

variable {s : State} {left : List Token}

theorem begins_of_spells (spells : Spells style outline tokens)
    (starts : ∀ content ∈ outline.head.contents.head?, startsItem content.1 = true) : Begins tokens := by
  obtain ⟨token, more, rfl, first⟩ := spells.exists_head
  exact ⟨token, more, rfl, starts token.content first⟩

theorem recovering_of_some (run : p s = (.ok (some found), s')) :
    recovering p missing s = (.ok (some found), s') := by
  simp [recovering, run]

@[simp] theorem endsBlock_eq :
    endsBlock s = (.ok (closesBlock s.current.kind || decide (s.current.kind = .endOfFile)), s) := rfl

/-! ### Statements -/

theorem endStatement_of_ended (ended : Ended s) : endStatement label s = (.ok (), s) := by
  rcases ended with closed | ended <;> simp [endStatement, closedBlock, atStatementEnd, *]

theorem statementLoop {rules : Rules} : Loop (statementTurn rules) (rules .statement) closesBlock where
  step {s token left} near starts := by
    obtain ⟨divides, closes, ends, -⟩ := startsItem_apart starts
    obtain ⟨_, s₁, skipped, stands, kept⟩ := near.delimiters divides
    refine ⟨s₁, stands, kept, fun {found s₂} run ended done => ?_⟩
    simp [statementTurn, skipped, stands.current, closes, ends, recovering_of_some run, endStatement_of_ended ended]
  clear := Clear.of_closesBlock
  stop {s closer rest} closes near := by
    obtain ⟨_, s', run, stands, kept⟩ := near.delimiters (Clear.of_closesBlock closes).divides
    exact ⟨s', fun done => by simp [statementTurn, run, stands.current, closes], stands, kept⟩

/-! ### Blocks -/

section Blocks

/-- The tokens of a block: those that open it, those of its items and those that close it. -/
structure Encloses (style : Style) (tokens inside : List Token) : Prop where
  begins : Begins inside
  split : ∃ opening closing, opening.map (·.kind) = style.opening ∧ closing.map (·.kind) = style.closing ∧
    tokens = opening ++ (inside ++ closing)

/-- The token that opens a block. -/
def Style.opener : Style → Token.Kind
  | .indented => .indent
  | .braced => .symbol .leftBrace

/-- The token that closes a block. -/
def Style.closer : Style → Token.Kind
  | .indented => .dedent
  | .braced => .symbol .rightBrace

variable {style : Style} {tokens inside : List Token} {owner : TypePath} {body : List Statement}

theorem Encloses.exists_head (block : Encloses style tokens inside) :
    ∃ token more, tokens = token :: more ∧ token.kind = Style.opener style := by
  obtain ⟨_, _, opens, -, rfl⟩ := block.split
  cases style with
  | indented | braced =>
    obtain ⟨token, more, rfl, kind, -⟩ := map_eq_cons_iff.mp opens
    exact ⟨token, _, rfl, kind⟩

theorem Encloses.opens (block : Encloses style tokens inside) (stands : Stands s (tokens ++ left)) :
    s.current.kind = Style.opener style := by
  obtain ⟨_, _, rfl, kind⟩ := block.exists_head
  rw [stands.current, kind]

theorem Encloses.apart {wanted : Token.Kind} (block : Encloses style tokens inside)
    (stands : Stands s (tokens ++ left))
    (other : wanted ≠ .indent ∧ wanted ≠ .symbol .leftBrace) : s.current.kind ≠ wanted := by
  rw [block.opens stands]
  cases style with
  | indented => exact Ne.symm other.1
  | braced => exact Ne.symm other.2

/-- A block: what opens it, perhaps the end of a line, its items, and what closes it. -/
theorem Encloses.stands_inside (block : Encloses style tokens inside) (stands : Stands s (tokens ++ next :: rest)) :
    Same s s.advance ∧
      (style = .braced → s.advance.current.kind ≠ .indent ∧ newlines s.advance = (.ok false, s.advance)) ∧
      ∃ after closer, Dividers after ∧ closer.kind = Style.closer style ∧
        Near s.advance (inside ++ (after ++ closer :: next :: rest)) := by
  obtain ⟨_, _, opens, closes, rfl⟩ := block.split
  rw [append_assoc, append_assoc] at stands
  cases style with
  | indented =>
    obtain ⟨_, more, rfl, -, others⟩ := map_eq_cons_iff.mp opens
    obtain ⟨ending, rfl, newline⟩ := map_eq_singleton_iff.mp others
    obtain ⟨closer, rfl, dedent⟩ := map_eq_singleton_iff.mp closes
    obtain ⟨inner, kept⟩ := stands.advance (by simp)
    have divider : Dividers [ending] := by simp [Dividers, newline, isDelimiter]
    exact ⟨kept, by simp, [], closer, by simp [Dividers], dedent, (Near.of_stands inner).pass divider⟩
  | braced =>
    obtain ⟨_, rfl, -⟩ := map_eq_singleton_iff.mp opens
    obtain ⟨ending, more, rfl, newline, others⟩ := map_eq_cons_iff.mp closes
    obtain ⟨closer, rfl, close⟩ := map_eq_singleton_iff.mp others
    obtain ⟨inner, kept⟩ := stands.advance (by simp)
    obtain ⟨_, more, rfl, starts⟩ := block.begins
    obtain ⟨-, -, -, no_indent, no_line, -⟩ := startsItem_apart starts
    have first := inner.current
    refine ⟨kept, fun _ => ⟨by rw [first]; exact no_indent, run_acceptAll (by simp [first, no_line])⟩,
      [ending], closer,
      by simp [Dividers, newline, isDelimiter], close, .of_stands inner⟩

/-- In both styles the items of a block are read up to the token that closes it. -/
theorem Encloses.rounds [Placed α] {turn : List α → Parser (Turn (List α) (List α))}
    (block : Encloses style tokens inside)
    (loop : Loop turn p closesBlock) (reads : ReadsItems turn owner inside items) (inner : s.owner = owner)
    (stands : Stands s (tokens ++ next :: rest)) :
    ∃ found s₁, Parsing.rounds [] turn s.advance = (.ok found, s₁) ∧ unplaced found = items ∧
      s₁.current.kind = Style.closer style ∧ Stands s₁.advance (next :: rest) ∧ Same s s₁.advance ∧
      closesBlock s₁.advance.previous.kind = true := by
  obtain ⟨kept, -, _, closer, dividers, kind, near⟩ := block.stands_inside stands
  have closes : closesBlock closer.kind = true := by
    rw [kind]
    cases style <;> rfl
  obtain ⟨found, s₁, run, alike, behind, kept₁⟩ :=
    loop.rounds reads (kept.owner.trans inner) near dividers closes
  obtain ⟨finish, kept₂⟩ := behind.advance (by simp)
  refine ⟨found, s₁, run, alike, by rw [behind.current, kind], finish, (kept.trans kept₁).trans kept₂, ?_⟩
  simpa [State.previous_advance, behind.current] using closes

theorem beforeBlock_of_opener (opens : s.current.kind = Style.opener style) {block? : Parser (Option α)}
    (run : block? s = (.ok (some found), s')) : beforeBlock block? s = (.ok (some found), s') := by
  have no_lines : newlines s = (.ok false, s) := run_acceptAll (by rw [opens]; cases style <;> rfl)
  simp [beforeBlock, no_lines, run, handBackIf]

/-- A reader reads these tokens, which close a block, as this value, whatever stands behind them. -/
def ReadsBlock [Placed α] (p : Parser (Option α)) (owner : TypePath) (tokens : List Token) (item : α) : Prop :=
  ∀ (s : State) (left : List Token), s.owner = owner → left ≠ [] → Stands s (tokens ++ left) →
    ∃ found s', p s = (.ok (some found), s') ∧ unplaced found = item ∧ Stands s' left ∧ Same s s' ∧
      closesBlock s'.previous.kind = true

theorem ReadsBlock.readsItem [Placed α] {item : α} (reads : ReadsBlock p owner tokens item) (filled : tokens ≠ []) :
    ReadsItem p owner tokens item := by
  intro s after next rest inside stands dividers _
  obtain ⟨found, s', run, alike, behind, kept, closed⟩ := reads s (after ++ next :: rest) inside (by simp) stands
  have near : Near s' (after ++ next :: rest) := .of_stands behind
  refine ⟨found, s', run, alike, near.pass dividers, kept, .inl closed, ?_⟩
  have shorter := length_pos_of_ne_nil filled
  rw [behind.tokens, stands.tokens]
  simpa using shorter

/-- In both styles a block is read as its statements. -/
theorem ReadsBlock.block? (block : Encloses style tokens inside)
    (reads : ReadsItems (statementTurn rules) owner inside body) :
    ReadsBlock (Parsing.block? rules) owner tokens (.mk body .unknown) := by
  intro s _ inner filled stands
  obtain ⟨_, _, rfl⟩ := exists_cons_of_ne_nil filled
  have opens := block.opens stands
  obtain ⟨-, unled, -⟩ := block.stands_inside stands
  obtain ⟨found, s₁, run, alike, close, after, kept, closed⟩ := block.rounds statementLoop reads inner stands
  refine ⟨.mk found (s.current.span.merge s₁.advance.previous.span), s₁.advance,
    beforeBlock_of_opener opens ?_, ?_, after,
    kept, closed⟩
  · cases style with
    | indented =>
      simp only [Style.opener, Style.closer] at opens close
      have stop : indentedTurn rules found s₁ = (.ok (.stop found), s₁.advance) := by simp [indentedTurn, close]
      simp [blockHere?, indentedBlock, opens, statements, run, rounds_of_stop stop]
    | braced =>
      simp only [Style.opener, Style.closer] at opens close
      have stop : bracedTurn rules found s₁ = (.ok (.stop found), s₁) := by simp [bracedTurn, close]
      simp [blockHere?, bracedBlock, opens, unled, statements, run, rounds_of_stop stop, close]
  · rw [← alike]
    exact Block.move_mk

end Blocks

end DreamMaker.Parsing
