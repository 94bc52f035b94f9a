import DreamMaker.Proofs.Parsing.Progress
import DreamMaker.Proofs.Token.Spelling

namespace DreamMaker.Parsing

open List Operator

variable {level needed : Nat} {rules : Rules} {s s' : State}

/-! ### Readers and levels -/

/-- The binary operators of a level. -/
def operatorsAt (level : Nat) : List (Symbol × BinaryOp) := binaryLevels.getD (10 - level) []

/-- The reader of an operand in whose place only operators from some level on may stand. -/
def reader (rules : Rules) (needed : Nat) : Parser Expr :=
  if needed = 0 then assignment rules
  else if 12 ≤ needed then unary rules
  else (binaryLevels.take (11 - needed)).foldl binaryLevel (power rules)

theorem reader_eq_binaryLevel (low : 1 ≤ level) (high : level ≤ 10) :
    reader rules level = binaryLevel (reader rules (level + 1)) (operatorsAt level) := by
  match level with
  | 1 | 2 | 3 | 4 | 5 | 6 | 7 | 8 | 9 | 10 => rfl
  | 0 | _ + 11 => omega

theorem operatorOf?_symbol (other : op ≠ .power) :
    operatorOf? (operatorsAt (Operator.binary op).level) (.symbol (Operator.binary op).symbol) = some op := by
  cases op <;> first | rfl | exact absurd rfl other

theorem operatorOf?_of_lower {op : Operator} (lower : op.level < level) (high : level ≤ 10) :
    operatorOf? (operatorsAt level) (.symbol op.symbol) = none := by
  match level with
  | 0 => omega
  | _ + 11 => omega
  | 1 | 2 | 3 | 4 | 5 | 6 | 7 | 8 | 9 | 10 =>
    rcases op with op | op <;> cases op <;> first | rfl | exact absurd lower (by decide)

theorem assignmentOf?_symbol : assignmentOf? (.symbol (assign op).symbol) = some op := by
  cases op <;> rfl

/-- What may stand behind an operand: the end of the text, of a statement, of parentheses or of a hole, or an
operator that binds less tightly. -/
inductive Follows (needed : Nat) : Token.Kind → Prop
  | ends : Follows needed .endOfFile
  | line : Follows needed .newline
  | separates : Follows needed (.symbol .semicolon)
  | closes : Follows needed (.symbol .rightParen)
  | textGoesOn : Follows needed .stringMiddle
  | textEnds : Follows needed .stringEnd
  | operator (op : Operator) (lower : op.level < needed) : Follows needed (.symbol op.symbol)

namespace Follows

variable {kind : Token.Kind}

section

variable (follows : Follows needed kind)

include follows

theorem mono (below : needed ≤ needed') : Follows needed' kind := by
  cases follows with
  | ends => exact .ends
  | line => exact .line
  | separates => exact .separates
  | closes => exact .closes
  | textGoesOn => exact .textGoesOn
  | textEnds => exact .textEnds
  | operator op _ => exact .operator op (by omega)

theorem linkStart : LinkStart.of kind spaced = .nothing := by
  cases follows with
  | ends | line | separates | closes | textGoesOn | textEnds => rfl
  | operator op => rcases op with op | op <;> cases op <;> rfl

theorem postfixOf? : Parsing.postfixOf? kind = none := by
  cases follows with
  | ends | line | separates | closes | textGoesOn | textEnds => rfl
  | operator op => rcases op with op | op <;> cases op <;> rfl

/-- No operator is a parenthesis, a question mark or a keyword. -/
theorem apart : kind ≠ .symbol .leftParen ∧ kind ≠ .symbol .question ∧ kind ≠ .keyword .in_ := by
  cases follows with
  | ends | line | separates | closes | textGoesOn | textEnds => simp
  | operator op => rcases op with op | op <;> cases op <;> simp [symbol]

end

theorem ne_starStar (follows : Follows 11 kind) : kind ≠ .symbol .starStar := by
  cases follows with
  | ends | line | separates | closes | textGoesOn | textEnds => simp
  | operator op _ => rcases op with op | op <;> cases op <;> simp_all [symbol, level]

theorem operatorOf? (follows : Follows needed kind) (high : needed ≤ 10) :
    Parsing.operatorOf? (operatorsAt needed) kind = none := by
  cases follows with
  | ends | line | textGoesOn | textEnds => rfl
  | separates | closes =>
    match needed with
    | 0 | 1 | 2 | 3 | 4 | 5 | 6 | 7 | 8 | 9 | 10 => rfl
    | _ + 11 => omega
  | operator _ lower => exact operatorOf?_of_lower lower high

theorem assignmentOf? (follows : Follows 0 kind) : Parsing.assignmentOf? kind = none := by
  cases follows with
  | ends | line | separates | closes | textGoesOn | textEnds => rfl
  | operator _ _ => omega

end Follows

/-! ### Reading over tokens -/

/-- A state with valid tokens ahead. -/
structure Stands (s : State) (left : List Token) : Prop where
  tokens : s.tokens = left
  valid : ∀ token ∈ left, isInvalid token = false

/-- Nothing but the place in the source has changed. -/
structure Same (s s' : State) : Prop where
  owner : s'.owner = s.owner
  declares : s'.declares = s.declares
  reports : s'.reports = s.reports
  skips : s'.skips = s.skips

theorem Same.refl (s : State) : Same s s := ⟨rfl, rfl, rfl, rfl⟩

theorem Same.trans (first : Same s s₁) (second : Same s₁ s₂) : Same s s₂ :=
  ⟨second.owner.trans first.owner, second.declares.trans first.declares, second.reports.trans first.reports,
    second.skips.trans first.skips⟩

namespace Stands

theorem current (stands : Stands s (token :: rest)) : s.current = token := (List.cons.inj stands.tokens).1

theorem kind (stands : Stands s (token :: rest)) (content : token.content = said) : s.current.kind = said.1 := by
  rw [stands.current]
  exact congrArg Prod.fst content

theorem advance (stands : Stands s (token :: rest)) (more : rest ≠ []) :
    Stands s.advance rest ∧ Same s s.advance := by
  obtain ⟨next, rest', rfl⟩ := exists_cons_of_ne_nil more
  have ahead := (List.cons.inj stands.tokens).2
  have valid := stands.valid next (by simp)
  have behind : s.behind = next :: rest' := by rw [State.behind, ahead, dropWhile_cons, valid]; rfl
  have none_dropped : s.ahead.takeWhile isInvalid = [] := by rw [ahead, takeWhile_cons, valid]; rfl
  rw [State.advance_eq behind]
  refine ⟨⟨rfl, fun other member => stands.valid other (mem_cons_of_mem _ member)⟩, rfl, rfl, ?_, rfl⟩
  simp [State.settled, none_dropped]

end Stands

/-- A loop that stops in its first turn. -/
theorem rounds_of_stop (stop : turn start s = (.ok (.stop result), s')) : rounds start turn s = (.ok result, s') := by
  show roundsOver turn (s.current :: s.ahead) start s = _
  rw [roundsOver_cons, stop]

/-- The same tree at no place. -/
abbrev unplaced {α : Type} [Placed α] (tree : α) : α := move (fun _ => Span.unknown) tree

/-- Where these contents stand before something that may follow, a reader finds this expression. -/
def Finds (p : Parser Expr) (needed : Nat) (contents : List Token.Content) (e : Expr) : Prop :=
  ∀ (s : State) (front : List Token) (next : Token) (rest : List Token), Stands s (front ++ next :: rest) →
    front.map Token.content = contents → Follows needed next.kind →
    ∃ found s', p s = (.ok found, s') ∧ unplaced found = e ∧ Stands s' (next :: rest) ∧ Same s s'

/-! ### From one level to the next -/

section Levels

variable {contents : List Token.Content} {e found : Expr}

theorem Finds.power (finds : Finds (unary rules) 12 contents e) : Finds (power rules) 11 contents e := by
  intro s front next rest stands same follows
  obtain ⟨found, s', run, alike, after, kept⟩ := finds s front next rest stands same (follows.mono (by omega))
  exact ⟨found, s', by simp [Parsing.power, run, after.current, follows.ne_starStar], alike, after, kept⟩

/-- Where these contents stand, the reader of a level comes to its loop with this expression. -/
def Loops (rules : Rules) (level : Nat) (contents : List Token.Content) (e : Expr) : Prop :=
  ∀ (s : State) (front : List Token) (next : Token) (rest : List Token), Stands s (front ++ next :: rest) →
    front.map Token.content = contents → Follows (level + 1) next.kind →
    ∃ found s' left, reader rules level s =
        roundsOver (binaryTurn (reader rules (level + 1)) (operatorsAt level)) left found s' ∧
      (next :: rest).length ≤ left.length ∧ unplaced found = e ∧ Stands s' (next :: rest) ∧ Same s s'

theorem Loops.of_finds (low : 1 ≤ level) (high : level ≤ 10)
    (finds : Finds (reader rules (level + 1)) (level + 1) contents e) : Loops rules level contents e := by
  intro s front next rest stands same follows
  obtain ⟨found, s', run, alike, after, kept⟩ := finds s front next rest stands same follows
  refine ⟨found, s', s'.tokens, ?_, Nat.le_of_eq (by rw [after.tokens]), alike, after, kept⟩
  rw [reader_eq_binaryLevel low high, binaryLevel, Run.bind_of_ok run]
  rfl

theorem Loops.finds (high : level ≤ 10) (loops : Loops rules level contents e) :
    Finds (reader rules level) level contents e := by
  intro s front next rest stands same follows
  obtain ⟨found, s', left, run, enough, alike, after, kept⟩ :=
    loops s front next rest stands same (follows.mono (by omega))
  refine ⟨found, s', ?_, alike, after, kept⟩
  obtain ⟨_, _, rfl⟩ := exists_cons_of_ne_nil (show left ≠ [] by rintro rfl; simp at enough)
  have stops : binaryTurn (reader rules (level + 1)) (operatorsAt level) found s' = (.ok (.stop found), s') := by
    simp [binaryTurn, after.current, follows.operatorOf? high]
  rw [run, roundsOver_cons, stops]

/-- The tokens of an operator and its operands. -/
theorem exists_operands (same : front.map Token.content = contents ++ content :: contents') :
    ∃ front₁ token front₂, front = front₁ ++ token :: front₂ ∧ front₁.map Token.content = contents ∧
      token.kind = content.1 ∧ front₂.map Token.content = contents' := by
  obtain ⟨front₁, _, rfl, same₁, same₂⟩ := map_eq_append_iff.mp same
  obtain ⟨token, front₂, rfl, content, same₂⟩ := map_eq_cons_iff.mp same₂
  exact ⟨front₁, token, front₂, rfl, same₁, congrArg Prod.fst content, same₂⟩

/-- One turn of a loop reads an operator and the operand behind it. -/
theorem Loops.node (other : op ≠ .power) (left : Loops rules (Operator.binary op).level contents e)
    (right : Finds (reader rules ((Operator.binary op).level + 1)) ((Operator.binary op).level + 1) contents' e') :
    Loops rules (Operator.binary op).level
      (contents ++ (.symbol (Operator.binary op).symbol, (Operator.binary op).text, .none) :: contents')
      (.mk (.binary op e e') .unknown) := by
  intro s _ next rest stands same follows
  obtain ⟨front₁, token, front₂, rfl, same₁, kind, same₂⟩ := exists_operands same
  rw [append_assoc] at stands
  obtain ⟨found, s₁, fuel, run, enough, alike, after, kept⟩ :=
    left s front₁ token (front₂ ++ next :: rest) stands same₁ (by rw [kind]; exact .operator _ (by omega))
  obtain ⟨_, fuel', rfl⟩ := exists_cons_of_ne_nil (show fuel ≠ [] by rintro rfl; simp at enough)
  obtain ⟨behind, kept₁⟩ := after.advance (by simp)
  obtain ⟨found', s₂, run', alike', after', kept'⟩ := right s₁.advance front₂ next rest behind same₂ follows
  have turn : binaryTurn (reader rules ((Operator.binary op).level + 1))
    (operatorsAt (Operator.binary op).level) found s₁ =
      (.ok (.again (.mk (.binary op found found') (found.span.merge found'.span))), s₂) := by
    simp [binaryTurn, after.current, kind, operatorOf?_symbol other, run']
  refine ⟨.mk (.binary op found found') (found.span.merge found'.span), s₂, fuel', ?_, ?_, ?_, after',
    (kept.trans kept₁).trans kept'⟩
  · rw [run, roundsOver_cons, turn]
  · simp only [length_append, length_cons] at enough ⊢
    omega
  · rw [← alike, ← alike']
    rfl

/-- Two readers find the operands of an operator, one behind the other. -/
theorem Finds.operands {op : Operator} {next : Token} (left : Finds p needed contents e)
    (right : Finds q needed' contents' e') (lower : op.level < needed)
    (stands : Stands s (front ++ next :: rest))
    (same : front.map Token.content = contents ++ (.symbol op.symbol, op.text, .none) :: contents')
    (follows : Follows needed' next.kind) :
    ∃ found s₁ found' s₂, p s = (.ok found, s₁) ∧ s₁.current.kind = .symbol op.symbol ∧
      q s₁.advance = (.ok found', s₂) ∧ unplaced found = e ∧ unplaced found' = e' ∧
        Stands s₂ (next :: rest) ∧
      Same s s₂ := by
  obtain ⟨front₁, token, front₂, rfl, same₁, kind, same₂⟩ := exists_operands same
  rw [append_assoc] at stands
  obtain ⟨found, s₁, run, alike, after, kept⟩ :=
    left s front₁ token (front₂ ++ next :: rest) stands same₁ (by rw [kind]; exact .operator op lower)
  obtain ⟨behind, kept₁⟩ := after.advance (by simp)
  obtain ⟨found', s₂, run', alike', after', kept'⟩ := right s₁.advance front₂ next rest behind same₂ follows
  exact ⟨found, s₁, found', s₂, run, by rw [after.current, kind], run', alike, alike', after',
    (kept.trans kept₁).trans kept'⟩

/-- A power groups to the right. -/
theorem Finds.node_power (left : Finds (unary rules) 12 contents e) (right : Finds (rules .power) 11 contents' e') :
    Finds (Parsing.power rules) 11
      (contents ++ (.symbol (Operator.binary .power).symbol, (Operator.binary .power).text, .none) :: contents')
      (.mk (.binary .power e e') .unknown) := by
  intro _ _ _ _ stands same follows
  obtain ⟨found, s₁, found', s₂, run, kind, run', alike, alike', after, kept⟩ :=
    left.operands right (by decide) stands same follows
  refine ⟨.mk (.binary .power found found') (found.span.merge found'.span), s₂, ?_, ?_, after, kept⟩
  · have star : s₁.current.kind = .symbol .starStar := kind
    simp [Parsing.power, run, star, run']
  · rw [← alike, ← alike']
    rfl

/-- Neither a choice nor a membership follows. -/
theorem Finds.membership (finds : Finds (reader rules 1) 1 contents e) : Finds (membership rules) 1 contents e := by
  intro s front next rest stands same follows
  obtain ⟨found, s', run, alike, after, kept⟩ := finds s front next rest stands same follows
  have binary : Parsing.binary rules s = (.ok found, s') := run
  have stops : membershipTurn rules found s' = (.ok (.stop found), s') := by
    simp [membershipTurn, after.current, follows.apart]
  refine ⟨found, s', ?_, alike, after, kept⟩
  simp [Parsing.membership, Parsing.ternary, binary, after.current, follows.apart, rounds_of_stop stops]

theorem Finds.assignment (finds : Finds (Parsing.membership rules) 1 contents e) :
    Finds (assignment rules) 0 contents e := by
  intro s front next rest stands same follows
  obtain ⟨found, s', run, alike, after, kept⟩ := finds s front next rest stands same (follows.mono (by omega))
  exact ⟨found, s', by simp [Parsing.assignment, run, after.current, follows.assignmentOf?], alike, after, kept⟩

/-- An assignment groups to the right. -/
theorem Finds.node_assign (left : Finds (Parsing.membership rules) 1 contents e)
    (right : Finds (rules .assignment) 0 contents' e') : Finds (Parsing.assignment rules) 0
      (contents ++ (.symbol (assign op).symbol, (assign op).text, .none) :: contents')
      (.mk (.assign op e e') .unknown) := by
  intro _ _ _ _ stands same follows
  obtain ⟨found, _, found', s₂, run, kind, run', alike, alike', after, kept⟩ :=
    left.operands right (show (assign op).level < 1 from Nat.zero_lt_one) stands same follows
  refine ⟨.mk (.assign op found found') (found.span.merge found'.span), s₂, ?_, ?_, after, kept⟩
  · simp [Parsing.assignment, run, kind, assignmentOf?_symbol, run']
  · rw [← alike, ← alike']
    rfl

/-! ### Operands without operators -/

/-- Tokens that start an operand with neither a sign nor a path. -/
def startsOperand (kind : Token.Kind) : Prop :=
  kind = .identifier ∨ kind = .integer ∨ kind = .string ∨ kind = .symbol .leftParen ∨ kind = .float ∨
    kind = .stringBegin

theorem expression?_of_starts (starts : startsExpression s.declares s.current.kind = true)
    (run : rules .assignment s = (.ok found, s')) : expression? rules s = (.ok (some found), s') := by
  simp [expression?, starts, run]

theorem startsExpression_of_operand {kind : Token.Kind} (starts : startsOperand kind) {declares : Bool} :
    startsExpression declares kind = true := by
  rcases starts with rfl | rfl | rfl | rfl | rfl | rfl <;> rfl

theorem run_expression? (starts : startsOperand s.current.kind)
    (run : rules .assignment s = (.ok found, s')) : expression? rules s = (.ok (some found), s') :=
  expression?_of_starts (startsExpression_of_operand starts) run

/-- What `plainPrimary?` finds is all of an operand, if something that may follow stands behind it. -/
theorem sign_of_primary (starts : startsOperand s.current.kind)
    (run : plainPrimary? rules s.current true s = (.ok (some found), s')) (follows : Follows needed s'.current.kind) :
    sign rules s = (.ok found, s') := by
  have no_mark : marksPath s.current.kind = false := by
    rcases starts with kind | kind | kind | kind | kind | kind <;> rw [kind] <;> rfl
  have apart : s.current.kind ≠ .symbol .plus ∧ s.current.kind ≠ .symbol .minus ∧
      s.current.kind ≠ .keyword .new := by
    rcases starts with kind | kind | kind | kind | kind | kind <;> rw [kind] <;> decide
  have primary : primary? rules true s = (.ok (some found), s') := by simp [primary?, markedPath?, no_mark, run]
  have stops : linkTurn rules true (found, []) s' = (.ok (.stop found), s') := by
    simp [linkTurn, follows.linkStart, linked]
  have value : value rules s = (.ok found, s') := by
    simp [Parsing.value, apart, primary, links, rounds_of_stop stops]
  simp [sign, apart, postfixed, value, follows.postfixOf?]

theorem unary_of_sign (other : unaryOf? s.current.kind = none) : unary rules s = sign rules s := by
  simp [unary, other]

theorem unary_of_primary (starts : startsOperand s.current.kind)
    (run : plainPrimary? rules s.current true s = (.ok (some found), s')) (follows : Follows needed s'.current.kind) :
    unary rules s = (.ok found, s') := by
  have no_operator : unaryOf? s.current.kind = none := by
    rcases starts with kind | kind | kind | kind | kind | kind <;> rw [kind] <;> rfl
  rw [unary_of_sign no_operator, sign_of_primary starts run follows]

theorem exists_single
    (same : front.map Token.content = [content]) : ∃ token, front = [token] ∧ token.content = content := by
  obtain ⟨token, _, rfl, content, nothing⟩ := map_eq_cons_iff.mp same
  obtain rfl := map_eq_nil_iff.mp nothing
  exact ⟨token, rfl, content⟩

theorem Finds.name (text : String) : Finds (unary rules) 12 [(.identifier, text, .none)] (.ofName text .unknown) := by
  intro s _ _ _ stands same follows
  obtain ⟨_, rfl, content⟩ := exists_single same
  obtain ⟨after, kept⟩ := stands.advance (by simp)
  have kind := stands.kind content
  have spelled : s.current.text = text := by rw [stands.current]; exact congrArg (·.2.1) content
  refine ⟨.ofName text s.current.span, s.advance, ?_, rfl, after, kept⟩
  refine unary_of_primary (.inl kind) ?_ (by rw [after.current]; exact follows)
  simp [plainPrimary?, kind, spelled, nameOrCall, after.current, follows.apart]

theorem Finds.number (text : String) (n : Nat) :
    Finds (unary rules) 12 [(.integer, text, .integer n)] (.ofLiteral (.integer (Int64.ofNat n)) .unknown) := by
  intro s _ _ _ stands same follows
  obtain ⟨_, rfl, content⟩ := exists_single same
  obtain ⟨after, kept⟩ := stands.advance (by simp)
  have kind := stands.kind content
  have value : s.current.value = .integer n := by rw [stands.current]; exact congrArg (·.2.2) content
  refine ⟨.ofLiteral (.integer (Int64.ofNat n)) s.current.span, s.advance, ?_, rfl, after, kept⟩
  refine unary_of_primary (.inr (.inl kind)) ?_ (by rw [after.current]; exact follows)
  have integer : integerValue s.current = Int64.ofNat n := by
    simp only [integerValue, value]
    exact Int64.ofInt_eq_ofNat
  simp [plainPrimary?, kind, constant, integer]

/-- Parentheses leave no trace. -/
theorem Finds.parentheses (starts : startsOperand content.1)
    (finds : Finds (rules .assignment) 0 (content :: contents) e) : Finds (unary rules) 12
      ((.symbol .leftParen, "(", .none) :: (content :: contents) ++ [(.symbol .rightParen, ")", .none)]) e := by
  intro s _ next rest stands same follows
  obtain ⟨_, more, rfl, opens, same⟩ := map_eq_cons_iff.mp same
  obtain ⟨inner, _, rfl, held, close⟩ := map_eq_append_iff.mp same
  obtain ⟨closing, rfl, closes⟩ := exists_single close
  have kind := stands.kind opens
  have kind' : closing.kind = .symbol .rightParen := congrArg Prod.fst closes
  simp only [cons_append, append_assoc] at stands
  obtain ⟨inside, kept⟩ := stands.advance (by simp)
  obtain ⟨found, s₁, run, alike, behind, kept₁⟩ :=
    finds s.advance inner closing (next :: rest) inside held (by rw [kind']; exact .closes)
  obtain ⟨after, kept₂⟩ := behind.advance (by simp)
  refine ⟨found, s₁.advance, ?_, alike, after, (kept.trans kept₁).trans kept₂⟩
  refine unary_of_primary (.inr (.inr (.inr (.inl kind)))) ?_ (by rw [after.current]; exact follows)
  have first : startsOperand s.advance.current.kind := by
    obtain ⟨_, more, rfl, same, -⟩ := map_eq_cons_iff.mp held
    rw [← same] at starts
    rw [inside.current]
    exact starts
  have expression := run_expression? first run
  simp [plainPrimary?, kind, grouped, expression, behind.current, kind']

theorem run_acceptAll (other : wanted s.current.kind = false) : acceptAll wanted s = (.ok false, s) := by
  exact rounds_of_stop (by simp [acceptTurn, other])

theorem wholeExpression_of_assignment (starts : startsOperand s.current.kind)
    (run : rules .assignment s = (.ok found, s')) (ends : s'.current.kind = .endOfFile) :
    wholeExpression rules s = (.ok found, s') := by
  have before : isDelimiter s.current.kind = false := by
    rcases starts with kind | kind | kind | kind | kind | kind <;> rw [kind] <;> rfl
  have after : isDelimiter .endOfFile = false := rfl
  simp [wholeExpression, delimiters, run_acceptAll, before, expression, run_expression? starts run, after, ends]

/-- An expression that is all there is up to the end of the file. -/
theorem Finds.whole (finds : Finds (rules .assignment) 0 (content :: contents) e) (starts : startsOperand content.1)
    (stands : Stands s (front ++ [last])) (same : front.map Token.content = content :: contents)
    (ends : last.kind = .endOfFile) :
    ∃ found s', wholeExpression rules s = (.ok found, s') ∧ unplaced found = e ∧ Same s s' := by
  obtain ⟨found, s', run, alike, after, kept⟩ := finds s front last [] stands same (by rw [ends]; exact .ends)
  have first : startsOperand s.current.kind := by
    obtain ⟨_, _, rfl, same, -⟩ := map_eq_cons_iff.mp same
    rw [← same] at starts
    rw [stands.current]
    exact starts
  exact ⟨found, s', wholeExpression_of_assignment first run (by rw [after.current, ends]), alike, kept⟩

/-- Reading starts at the first token. -/
theorem stands_start (known : ∀ token ∈ tokens, token.kind ≠ .invalid) (ends : last.kind = .endOfFile) :
    Stands (State.ofTokens (tokens ++ [last])) (tokens ++ [last]) ∧
      Same (.before (tokens ++ [last])) (State.ofTokens (tokens ++ [last])) := by
  have valid : ∀ token ∈ tokens ++ [last], isInvalid token = false := by
    intro token member
    rcases mem_append.mp member with inner | final
    · simp [isInvalid, known token inner]
    · obtain rfl := mem_singleton.mp final
      simp [isInvalid, ends]
  have start : Stands (.before (tokens ++ [last])) ((State.before []).current :: (tokens ++ [last])) :=
    ⟨rfl, forall_mem_cons.mpr ⟨rfl, valid⟩⟩
  exact start.advance (by simp)

/-- An expression that is all of a source. -/
theorem Finds.parses (read : Token.ofLexemes source = tokens ++ [last])
    (known : ∀ token ∈ tokens, token.kind ≠ .invalid)
    (ends : last.kind = .endOfFile) (same : tokens.map Token.content = content :: contents)
    (starts : startsOperand content.1) (finds : ∀ depth, depthOf (tokens ++ [last]) = depth + 1 →
      Finds (rulesUpTo (depth + 1) .assignment) 0 (content :: contents) e) :
    ∃ found, (Expr.parse source).result = .ok found ∧ unplaced found = e ∧ (Expr.parse source).reports = #[] := by
  obtain ⟨stands, kept⟩ := stands_start known ends
  obtain ⟨depth, deeper⟩ : ∃ depth, depthOf (tokens ++ [last]) = depth + 1 := ⟨_, rfl⟩
  obtain ⟨found, s', run, alike, kept'⟩ := (finds depth deeper).whole starts stands same ends
  have parsed : Parsing.run wholeExpression (tokens ++ [last]) = (.ok found, s') := by
    rw [Parsing.run, deeper]
    exact run
  refine ⟨found, ?_, alike, ?_⟩
  · rw [Expr.parse, read, parsed]
  · rw [Expr.parse, read, parsed]
    exact (kept.trans kept').reports

/-! ### Trees -/

theorem Finds.lower (high : needed ≤ 11) (finds : Finds (reader rules (needed + 1)) (needed + 1) contents e) :
    Finds (reader rules needed) needed contents e := by
  by_cases last : needed = 11
  · subst last
    exact Finds.power finds
  by_cases first : needed = 0
  · subst first
    exact finds.membership.assignment
  exact (Loops.of_finds (by omega) (by omega) finds).finds (by omega)

theorem Finds.descend (below : needed ≤ level) (high : level ≤ 12)
    (finds : Finds (reader rules level) level contents e) : Finds (reader rules needed) needed contents e := by
  induction level with
  | zero =>
    obtain rfl : needed = 0 := by omega
    exact finds
  | succ level ih =>
    by_cases same : needed = level + 1
    · subst same
      exact finds
    · exact ih (by omega) (by omega) (finds.lower (by omega))

end Levels

theorem length_lt_depthOf (tokens : List Token) : 4 * tokens.length < depthOf tokens := by
  have size : ∀ (tokens : List Token) (start : Nat),
      start + tokens.length ≤ tokens.foldl (fun size token => size + 1 + token.textValue.length) start := by
    intro tokens
    induction tokens with
    | nil => exact fun start => Nat.le_refl _
    | cons token tokens ih =>
      intro start
      have rest := ih (start + 1 + token.textValue.length)
      rw [length_cons, foldl_cons]
      omega
  have bound := size tokens 0
  unfold depthOf
  omega

end DreamMaker.Parsing

namespace DreamMaker.OperatorTree

open Parsing

/-- A bound on how deep the phrases of a tree are nested. -/
def depth : OperatorTree → Nat
  | .name _ | .number _ => 0
  | .node _ left right => left.depth + right.depth + 2

/-- The contents of a node without parentheses around it. -/
def bare (op : Operator) (left right : OperatorTree) : List Token.Content :=
  left.contents op.leftLevel ++ (.symbol op.symbol, op.text, .none) :: right.contents op.rightLevel

theorem contents_node (op : Operator) (left right : OperatorTree) (needed : Nat) :
    (node op left right).contents needed = if op.level < needed then
      (.symbol .leftParen, "(", .none) :: bare op left right ++ [(.symbol .rightParen, ")", .none)]
    else bare op left right := by
  rw [contents, enclosed, bare]
  simp only [decide_eq_true_eq]

theorem exists_head_contents (tree : OperatorTree) (needed : Nat) :
    ∃ content rest, tree.contents needed = content :: rest ∧ startsOperand content.1 := by
  induction tree generalizing needed with
  | name _ => exact ⟨_, _, rfl, .inl rfl⟩
  | number _ => exact ⟨_, _, rfl, .inr (.inl rfl)⟩
  | node op _ _ ih_left =>
    rw [contents_node]
    split
    · exact ⟨_, _, rfl, .inr (.inr (.inr (.inl rfl)))⟩
    · obtain ⟨content, rest, same, starts⟩ := ih_left op.leftLevel
      exact ⟨content, _, by rw [bare, same]; rfl, starts⟩

/-- What the readers make of a tree. -/
structure Grouped (tree : OperatorTree) (depth : Nat) : Prop where
  finds : ∀ needed ≤ 12, Finds (reader (rulesUpTo depth) needed) needed (tree.contents needed) tree.toExpr
  loops : ∀ level, 1 ≤ level → level ≤ 10 → Loops (rulesUpTo depth) level (tree.contents level) tree.toExpr

theorem Grouped.of_leaf {tree : OperatorTree} {depth : Nat} (plain : ∀ needed, tree.contents needed = tree.contents 0)
    (finds : Finds (unary (rulesUpTo depth)) 12 (tree.contents 0) tree.toExpr) : tree.Grouped depth where
  finds needed high := by
    rw [plain]
    exact Finds.descend high (Nat.le_refl _) finds
  loops level low high := by
    rw [plain]
    exact .of_finds low high (Finds.descend (by omega) (Nat.le_refl _) finds)

section Node

variable {depth : Nat}

theorem loops_bare {op : BinaryOp} (other : op ≠ .power) (left_grouped : left.Grouped depth)
    (right_grouped : right.Grouped depth) :
    Loops (rulesUpTo depth) (Operator.binary op).level (bare (.binary op) left right)
      (node (.binary op) left right).toExpr := by
  have levels : 1 ≤ (Operator.binary op).level ∧ (Operator.binary op).level ≤ 10 ∧
      (Operator.binary op).leftLevel = (Operator.binary op).level ∧
      (Operator.binary op).rightLevel = (Operator.binary op).level + 1 := by
    cases op <;> first | decide | exact absurd rfl other
  obtain ⟨low, high, left_level, right_level⟩ := levels
  rw [bare, left_level, right_level]
  exact .node other (left_grouped.loops _ low high) (right_grouped.finds _ (by omega))

/-- The reader of an operator's own level finds it between its operands. -/
theorem finds_bare (left_grouped : left.Grouped (depth + 1)) (right_grouped : right.Grouped (depth + 1))
    (right_inner : right.Grouped depth) :
    Finds (reader (rulesUpTo (depth + 1)) op.level) op.level (bare op left right) (node op left right).toExpr := by
  cases op with
  | assign op => exact .node_assign (left_grouped.finds 1 (by omega)).membership (right_inner.finds 0 (by omega))
  | binary op =>
    by_cases power : op = .power
    · subst power
      exact .node_power (left_grouped.finds 12 (by omega)) (right_inner.finds 11 (by omega))
    · have high : (Operator.binary op).level ≤ 10 := by cases op <;> first | decide | exact absurd rfl power
      exact (loops_bare power left_grouped right_grouped).finds high

theorem Grouped.node (left_grouped : ∀ more, left.Grouped (depth + more))
    (right_grouped : ∀ more, right.Grouped (depth + more)) :
    (OperatorTree.node op left right).Grouped (depth + 2) := by
  have highest : op.level ≤ 11 := by rcases op with op | op <;> cases op <;> decide
  have whole : Finds (reader (rulesUpTo (depth + 1)) 0) 0 (bare op left right)
    (OperatorTree.node op left right).toExpr :=
    Finds.descend (by omega) (by omega) (finds_bare (left_grouped 1) (right_grouped 1) (right_grouped 0))
  have finds : ∀ needed ≤ 12, Finds (reader (rulesUpTo (depth + 2)) needed) needed
      ((OperatorTree.node op left right).contents needed) (OperatorTree.node op left right).toExpr := by
    intro needed high
    rw [contents_node]
    split
    · obtain ⟨_, _, same, starts⟩ := (OperatorTree.node op left right).exists_head_contents 0
      rw [contents_node, if_neg (by omega)] at same
      rw [same] at whole ⊢
      exact Finds.descend high (Nat.le_refl _) (Finds.parentheses starts whole)
    · exact Finds.descend (by omega) (by omega) (finds_bare (left_grouped 2) (right_grouped 2) (right_grouped 1))
  refine ⟨finds, fun level low high => ?_⟩
  by_cases own : op.level = level
  · cases op with
    | assign op =>
      have zero : 0 = level := own
      omega
    | binary op =>
      have other : op ≠ .power := by
        rintro rfl
        have eleven : 11 = level := own
        omega
      subst own
      rw [contents_node, if_neg (by omega)]
      exact loops_bare other (left_grouped 2) (right_grouped 2)
  · have same : (OperatorTree.node op left right).contents level =
        (OperatorTree.node op left right).contents (level + 1) := by
      rw [contents_node, contents_node]
      by_cases lower : op.level < level
      · rw [if_pos lower, if_pos (by omega)]
      · rw [if_neg lower, if_neg (by omega)]
    rw [same]
    exact .of_finds low high (finds (level + 1) (by omega))

end Node

theorem grouped (tree : OperatorTree) {depth : Nat} (deep : tree.depth ≤ depth) : tree.Grouped depth := by
  induction tree generalizing depth with
  | name word => exact .of_leaf (fun _ => rfl) (.name word.text)
  | number value => exact .of_leaf (fun _ => rfl) (.number _ value)
  | node _ left right ih_left ih_right =>
    have deep : left.depth + right.depth + 2 ≤ depth := deep
    obtain ⟨more, rfl⟩ : ∃ more, depth = left.depth + right.depth + more + 2 :=
      ⟨depth - (left.depth + right.depth + 2), by omega⟩
    exact .node (fun _ => ih_left (by omega)) (fun _ => ih_right (by omega))

theorem depth_le (tree : OperatorTree) (needed : Nat) : tree.depth ≤ 2 * (tree.contents needed).length := by
  induction tree generalizing needed with
  | name _ => exact Nat.zero_le _
  | number _ => exact Nat.zero_le _
  | node op _ _ ih_left ih_right =>
    have left_le := ih_left op.leftLevel
    have right_le := ih_right op.rightLevel
    rw [contents_node, bare, depth]
    split <;> simp only [List.length_cons, List.length_append] <;> omega

theorem valid_contents (tree : OperatorTree) (needed : Nat) :
    ∀ content ∈ tree.contents needed, content.1 ≠ .invalid := by
  induction tree generalizing needed with
  | name _ => simp [contents]
  | number _ => simp [contents]
  | node op left right ih_left ih_right =>
    have inner : ∀ content ∈ bare op left right, content.1 ≠ .invalid := by
      intro content member
      rw [bare, List.mem_append, List.mem_cons] at member
      rcases member with first | rfl | second
      · exact ih_left _ content first
      · simp
      · exact ih_right _ content second
    rw [contents_node]
    split
    · intro content member
      rw [List.cons_append, List.mem_cons, List.mem_append, List.mem_singleton] at member
      rcases member with rfl | member | rfl
      · simp
      · exact inner content member
      · simp
    · exact inner

/-- Scanning and reading the text of a tree gives back the tree, and there is nothing to report. -/
theorem parse_text (tree : OperatorTree) (origin : Lexeme.Origin) :
    ∃ e, (Expr.parse (Lexeme.scan origin tree.text)).result = .ok e ∧
      move (fun _ => Span.unknown) e = tree.toExpr ∧ (Expr.parse (Lexeme.scan origin tree.text)).reports = #[] := by
  obtain ⟨tokens, last, read, same, ends⟩ := tree.exists_tokens origin
  obtain ⟨content, rest, first, starts⟩ := tree.exists_head_contents 0
  refine Finds.parses read (fun token inner => ?_) ends (same.trans first) starts fun deeper depth => ?_
  · exact tree.valid_contents 0 _ (same ▸ List.mem_map_of_mem inner)
  have deep := length_lt_depthOf (tokens ++ [last])
  have enough : tree.depth ≤ deeper := by
    have bound := tree.depth_le 0
    rw [← same, List.length_map] at bound
    rw [List.length_append] at deep
    omega
  exact first ▸ (tree.grouped enough).finds 0 (by omega)

end DreamMaker.OperatorTree
