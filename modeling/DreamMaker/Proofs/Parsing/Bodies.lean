import DreamMaker.Proofs.Parsing.Sequences

/-!
Bodies of procs that return integers, call procs and branch on names. In both styles the text of a body is read as its
statements.
-/

namespace DreamMaker

open List

variable {next : Token}

/-! ### Integers -/

/-- An integer in decimal. -/
def Text.integer : Int → List Char
  | .ofNat n => Nat.toDigits 10 n
  | .negSucc n => '-' :: Nat.toDigits 10 (n + 1)

/-- What the tokens of an integer say. -/
def Token.integerContents : Int → List Token.Content
  | .ofNat n => [numberContent n]
  | .negSucc n => [(.symbol .minus, "-", .none), numberContent (n + 1)]

/-- The value of a number in decimal. -/
def Literal.ofNat (n : Nat) : Literal :=
  if n < 2 ^ 31 then .integer (Int64.ofNat n) else .float (Decimal.ofDecimal false n 0)

/-- The expression of an integer, at no place. -/
def Expr.ofInt : Int → Expr
  | .ofNat n => .ofLiteral (.ofNat n) .unknown
  | .negSucc n => Parsing.negated (.ofLiteral (.ofNat (n + 1)) .unknown) .unknown

theorem Text.exists_head_integer : ∃ c more, integer value ++ rest = c :: more ∧ Lexeme.isGap c = false := by
  cases value with
  | ofNat n =>
    obtain ⟨c, front, digits, digit, -⟩ := Lexeme.exists_digits n
    exact ⟨c, front ++ rest, by rw [integer, digits, cons_append], (Lexeme.Solid.of_isDigit digit).gap⟩
  | negSucc n => exact ⟨'-', _, rfl, rfl⟩

theorem Token.numberContent_kind (n : Nat) : (numberContent n).1 = .integer ∨ (numberContent n).1 = .float := by
  unfold numberContent
  split
  · exact .inl rfl
  · exact .inr rfl

theorem Token.integerContents_valid (value : Int) : ∀ content ∈ integerContents value, content.1 ≠ .invalid := by
  have number : ∀ n, (numberContent n).1 ≠ .invalid := fun n => by
    rcases numberContent_kind n with kind | kind <;> simp [kind]
  cases value with
  | ofNat n => simpa [integerContents] using number n
  | negSucc n => simpa [integerContents] using number (n + 1)

theorem Keyword.exists_chars (keyword : Keyword) :
    ∃ c more, keyword.word.toList = c :: more ∧ Text.startsWord c = true ∧
    (∀ d ∈ more, Text.continuesWord d = true) ∧
      Token.Kind.ofWord (String.ofList (c :: more)) = .keyword keyword := by
  cases keyword <;> exact ⟨_, _, rfl, rfl, all_eq_true.mp rfl, rfl⟩

namespace Layout.Lexes

variable {levels : List Nat} {nesting : Nat}

theorem minus (n : Nat) (rest : List Char) :
    Lexes origin levels nesting nesting ('-' :: (Nat.toDigits 10 n ++ rest)) [(.symbol .minus, "-", .none)]
      (Nat.toDigits 10 n ++ rest) := by
  obtain ⟨c, front, digits, digit, -⟩ := Lexeme.exists_digits n
  have alone : Lexeme.symbolTail '-' (c :: (front ++ rest)) = 0 := by
    simp [Lexeme.symbolTail, Lexeme.ne_of_isDigit digit (d := '-') rfl, Lexeme.ne_of_isDigit digit (d := '=') rfl]
  have step : Lexeme.step false '-' ([] ++ c :: (front ++ rest)) =
      .mark .punctuator '-' ([] ++ c :: (front ++ rest)) ([] : List Char).length := by
    have scanned : Lexeme.step false '-' (c :: (front ++ rest)) =
        .mark .punctuator '-' (c :: (front ++ rest)) (Lexeme.symbolTail '-' (c :: (front ++ rest))) := rfl
    rw [nil_append, scanned, alone, length_nil]
  rw [digits]
  refine single (by simp) fun _ start => ?_
  exact start.next_of_give (Lexeme.Scans.of_step (by decide) step) fun _ _ inner =>
    ⟨_, _, rfl, rfl, inner.queue, inner.levels, inner.nesting, inner.source⟩

theorem integer (value : Int) (closed : Closed rest) :
    Lexes origin levels nesting nesting (Text.integer value ++ rest) (Token.integerContents value) rest := by
  cases value with
  | ofNat n => exact number n closed
  | negSucc n => exact (minus (n + 1) rest).append (number (n + 1) closed)

/-- An integer behind a blank. -/
theorem blank_integer (closed : Closed rest) :
    Lexes origin levels nesting nesting (' ' :: (Text.integer value ++ rest)) (Token.integerContents value) rest := by
  obtain ⟨_, _, text, gap⟩ := Text.exists_head_integer
  have reads : Lexes origin levels nesting nesting _ _ rest := integer value closed
  rw [text] at reads ⊢
  exact blank gap (by cases value <;> simp [Token.integerContents]) reads

/-- A name and empty parentheses behind it. -/
theorem call (name : Name) : Lexes origin levels nesting nesting (name.chars ++ '(' :: ')' :: rest)
      [(.identifier, name.text, .none), (.symbol .leftParen, "(", .none), (.symbol .rightParen, ")", .none)] rest :=
  (Lexes.name name (mem_of_elem_eq_true rfl)).append ((leftParen _).append (rightParen rest))

/-- A keyword behind which a blank stands. -/
theorem keyword (keyword : Keyword) (rest : List Char) :
    Lexes origin levels nesting nesting (keyword.word.toList ++ ' ' :: rest) [(.keyword keyword, keyword.word, .none)]
      (' ' :: rest) := by
  obtain ⟨_, _, spelled, starts, continues, kind⟩ := keyword.exists_chars
  have reads : Lexes origin levels nesting nesting _ _ (' ' :: rest) :=
    word starts continues (mem_of_elem_eq_true rfl)
  rwa [kind, ← spelled, String.ofList_toList] at reads

end Layout.Lexes

/-! ### Lines -/

namespace TextLine

/-- A name with empty parentheses behind it. -/
def call (name : Name) : TextLine where
  chars := name.chars ++ ['(', ')']
  contents := [(.identifier, name.text, .none), (.symbol .leftParen, "(", .none), (.symbol .rightParen, ")", .none)]
  starts := ⟨name.first, _, rfl, name.starts⟩
  filled := by simp
  valid := by simp
  lexes _ _ _ _ := by
    rw [append_assoc]
    exact .call name

/-- The word `return` and an integer. -/
def return_ (value : Int) : TextLine where
  chars := Keyword.return_.word.toList ++ ' ' :: Text.integer value
  contents := (.keyword .return_, Keyword.return_.word, .none) :: Token.integerContents value
  starts := ⟨'r', _, rfl, rfl⟩
  filled := by simp
  valid := forall_mem_cons.mpr ⟨by simp, Token.integerContents_valid value⟩
  lexes _ _ _ closed := by
    rw [append_assoc]
    exact (Layout.Lexes.keyword .return_ _).append (.blank_integer closed)

/-- A keyword and a condition, which is a name. -/
def conditional (keyword : Keyword) (condition : Name) : TextLine where
  chars := keyword.word.toList ++ ' ' :: '(' :: (condition.chars ++ [')'])
  contents := [(.keyword keyword, keyword.word, .none), (.symbol .leftParen, "(", .none),
    (.identifier, condition.text, .none), (.symbol .rightParen, ")", .none)]
  starts := by
    obtain ⟨c, more, spelled, starts, -⟩ := keyword.exists_chars
    exact ⟨c, _, by rw [spelled]; rfl, starts⟩
  filled := by simp
  valid := by simp
  lexes _ _ rest _ := by
    have parenthesis : Closed (')' :: rest) := mem_of_elem_eq_true rfl
    simp only [append_assoc, cons_append, nil_append]
    exact (Layout.Lexes.keyword keyword _).append ((Layout.Lexes.blank rfl (by simp) (.leftParen _)).append
      ((Layout.Lexes.name condition parenthesis).append (.rightParen rest)))

end TextLine

/-! ### Trees -/

/-- The functions of the language that are not called without arguments. -/
def Parsing.needArguments : List String :=
  ["pick", "prob", "log", "istype", "get_step", "get_dir", "rgb", "initial", "nameof", "issaved", "isnull", "length",
    "sin", "cos", "tan", "arcsin", "arccos", "arctan", "sqrt", "abs"]

/-- A name that can be called without arguments. -/
structure CallName extends Name where
  bare : toName.text ∉ Parsing.needArguments

/-- What a name with empty parentheses behind it means. -/
def Parsing.bareCall (name : String) : Node :=
  if name = "input" then .input [] none none
  else if name = "locate" then .locate none none
  else match gatheringOf? name with
    | some gathering => .gather gathering []
    | none => .call (.named name) []

/-- Statements of a proc, one behind the other. -/
inductive StatementTree
  | return_ (value : Int)
  | call (name : CallName)
  | if_ (condition : Name) (body : StatementTree)
  | while_ (condition : Name) (body : StatementTree)
  | both (first second : StatementTree)

variable {value : Int}

namespace StatementTree

/-- The lines of the statements. -/
def outline : StatementTree → Outline
  | .return_ value => .leaf (.return_ value)
  | .call name => .leaf (.call name.toName)
  | .if_ condition body => .block (.conditional .if_ condition) body.outline
  | .while_ condition body => .block (.conditional .while_ condition) body.outline
  | .both first second => .both first.outline second.outline

/-- The statements at no place. -/
def statements : StatementTree → List Statement
  | .return_ value => [.mk (.return_ (some (.ofInt value))) .unknown]
  | .call name => [.mk (.expression (.mk (Parsing.bareCall name.text) .unknown)) .unknown]
  | .if_ condition body => [.mk (.if_ (.ofName condition.text .unknown) (.mk body.statements .unknown) none) .unknown]
  | .while_ condition body =>
    [.mk (.while_ (.ofName condition.text .unknown) (.mk body.statements .unknown)) .unknown]
  | .both first second => first.statements ++ second.statements

end StatementTree

namespace Parsing

variable {kind : Token.Kind} {style : Style} {span : Span}

/-! ### Expressions -/

section Expressions

/-- A number is an operand on its own. -/
theorem plainPrimary?_of_number (content : s.current.content = Token.numberContent n) : startsOperand s.current.kind ∧
      plainPrimary? rules s.current true s = (.ok (some (.ofLiteral (.ofNat n) s.current.span)), s.advance) := by
  unfold Token.numberContent at content
  by_cases small : n < 2 ^ 31
  · simp only [if_pos small] at content
    have kind : s.current.kind = .integer := congrArg Prod.fst content
    have value : s.current.value = .integer n := congrArg (·.2.2) content
    have integer : integerValue s.current = Int64.ofNat n := by
      simp only [integerValue, value]
      exact Int64.ofInt_eq_ofNat
    exact ⟨.inr (.inl kind), by simp [plainPrimary?, kind, constant, integer, Literal.ofNat, -Nat.reducePow, small]⟩
  · simp only [if_neg small] at content
    have kind : s.current.kind = .float := congrArg Prod.fst content
    have value : s.current.value = .float (Decimal.ofDecimal false n 0) := congrArg (·.2.2) content
    have float : floatValue s.current = Decimal.ofDecimal false n 0 := by simp only [floatValue, value]
    refine ⟨.inr (.inr (.inr (.inr (.inl kind)))), ?_⟩
    simp [plainPrimary?, kind, constant, float, Literal.ofNat, -Nat.reducePow, small]

theorem unplaced_negated {span' : Span} :
    unplaced (negated (.ofLiteral (.ofNat n) span) span') = negated (.ofLiteral (.ofNat n) .unknown) .unknown := by
  unfold Literal.ofNat
  split <;> rfl

/-- An integer is read as its value. -/
theorem Finds.integer (value : Int) (depth : Nat) :
    Finds (rulesUpTo (depth + 2) .assignment) 0 (Token.integerContents value) (.ofInt value) := by
  have operand : Finds (unary (rulesUpTo (depth + 1))) 12 (Token.integerContents value) (.ofInt value) := by
    intro s _ _ _ stands same follows
    cases value with
    | ofNat n =>
      obtain ⟨token, rfl, content⟩ := exists_single same
      obtain ⟨after, kept⟩ := stands.advance (by simp)
      rw [← stands.current] at content
      obtain ⟨starts, run⟩ := plainPrimary?_of_number content
      exact ⟨_, s.advance, unary_of_primary starts run (by rw [after.current]; exact follows), rfl, after, kept⟩
    | negSucc n =>
      obtain ⟨_, _, rfl, minus, number⟩ := map_eq_cons_iff.mp same
      obtain ⟨token, rfl, content⟩ := exists_single number
      obtain ⟨inner, kept⟩ := stands.advance (by simp)
      obtain ⟨after, kept'⟩ := inner.advance (by simp)
      have kind := stands.kind minus
      rw [← inner.current] at content
      obtain ⟨starts, run⟩ := plainPrimary?_of_number content
      have sign : rulesUpTo (depth + 1) .sign s.advance =
          (.ok (.ofLiteral (.ofNat (n + 1)) s.advance.current.span), s.advance.advance) :=
        sign_of_primary starts run (by rw [after.current]; exact follows)
      let span := s.current.span.merge s.advance.current.span
      let number := Expr.ofLiteral (.ofNat (n + 1)) s.advance.current.span
      refine ⟨negated number span, s.advance.advance, ?_, unplaced_negated, after, kept.trans kept'⟩
      rw [unary_of_sign (by rw [kind]; rfl)]
      simp [Parsing.sign, kind, sign]
      rfl
  exact Finds.descend (Nat.zero_le 12) (Nat.le_refl 12) operand

theorem run_withDeclares {declares : Bool}
    (run : p { s with declares } = (.ok a, s')) :
      withDeclares declares p s = (.ok a, { s' with declares := s.declares }) := by
  have whole : withDeclares declares p s =
    ((p { s with declares }).1, { (p { s with declares }).2 with declares := s.declares }) :=
    ofExcept_eq
  rw [whole, run]

/-- Between parentheses with nothing inside there are no arguments. -/
theorem arguments_of_empty
    (stands : Stands s (opening :: closing :: next :: rest)) (opens : opening.kind = .symbol .leftParen)
    (closes : closing.kind = .symbol .rightParen) : arguments rules s = (.ok [], s.advance.advance) := by
  obtain ⟨inner, -⟩ := stands.advance (by simp)
  have first : s.current.kind = .symbol .leftParen := by rw [stands.current, opens]
  have second : s.advance.current.kind = .symbol .rightParen := by rw [inner.current, closes]
  have turn : argumentTurn rules [] { s.advance with declares := false } =
      (.ok (.stop []), { s.advance with declares := false }) := by
    simp [argumentTurn, expression?, second, startsExpression, placed]
  have list : argumentList rules { s.advance with declares := false } =
    (.ok [], { s.advance with declares := false }) :=
    rounds_of_stop turn
  simp [arguments, first, run_withDeclares list, second]

/-- Built-in functions apart, a name without arguments behind it is the name of a proc. -/
theorem callNode_of_bare {name : String} (bare : name ∉ needArguments)
    (apart : name ≠ "input" ∧ name ≠ "locate") :
    callNode name [] = .ok (bareCall name) := by
  simp only [needArguments, mem_cons, not_mem_nil, or_false, not_or] at bare
  have no_function : functionOf? name = none := by
    unfold functionOf? MathFunction.ofName?
    simp [bare]
  have plain : callNode name [] = plainCall name [] := by
    unfold callNode
    simp [bare]
  rw [plain]
  unfold plainCall bareCall
  cases gatheringOf? name <;> simp [no_function, apart]

theorem Follows.apart_keyword {keyword : Keyword} (follows : Follows needed kind) : kind ≠ .keyword keyword := by
  rintro rfl
  cases follows

theorem namedCall_of_bare {name : String} {start : Span} (bare : name ∉ needArguments)
    (no_args : arguments rules s = (.ok [], s')) (follows : Follows needed s'.current.kind) :
    namedCall rules name start s = (.ok (.mk (bareCall name) (start.merge s'.previous.span)), s') := by
  have chosen : name ≠ "pick" := by rintro rfl; exact bare (by simp [needArguments])
  by_cases asked : name = "input"
  · subst asked
    simp [namedCall, no_args, input, types?, expressionAfter?, follows.apart_keyword, bareCall]
  by_cases placed : name = "locate"
  · subst placed
    simp [namedCall, no_args, locate, locateIn, expressionAfter?, follows.apart_keyword, bareCall]
  · simp [namedCall, chosen, asked, placed, no_args, callExpression, callNode_of_bare bare ⟨asked, placed⟩]

theorem bareCall_cases (name : String) : bareCall name = .input [] none none ∨ bareCall name = .locate none none ∨
    (∃ gathering, bareCall name = .gather gathering []) ∨ bareCall name = .call (.named name) [] := by
  unfold bareCall
  split
  · exact .inl rfl
  split
  · exact .inr (.inl rfl)
  split
  · exact .inr (.inr (.inl ⟨_, rfl⟩))
  · exact .inr (.inr (.inr rfl))

theorem unplaced_bareCall {name : String} :
    unplaced (.mk (bareCall name) span : Expr) = .mk (bareCall name) .unknown := by
  rcases bareCall_cases name with same | same | ⟨_, same⟩ | same <;> rw [same] <;> rfl

/-- A name with empty parentheses behind it is a call. -/
theorem Finds.call (name : CallName) (depth : Nat) :
    Finds (rulesUpTo (depth + 1) .assignment) 0 (TextLine.call name.toName).contents
      (.mk (bareCall name.text) .unknown) := by
  have operand : Finds (unary (rulesUpTo depth)) 12 (TextLine.call name.toName).contents
      (.mk (bareCall name.text) .unknown) := by
    intro s _ _ _ stands same follows
    obtain ⟨_, more, rfl, content, others⟩ := map_eq_cons_iff.mp same
    obtain ⟨opening, more, rfl, opens, others⟩ := map_eq_cons_iff.mp others
    obtain ⟨_, rfl, closes⟩ := exists_single others
    have kind := stands.kind content
    have spelled : s.current.text = name.text := by rw [stands.current]; exact congrArg (·.2.1) content
    have open_kind : opening.kind = .symbol .leftParen := congrArg Prod.fst opens
    obtain ⟨after, kept⟩ := stands.advance (by simp)
    obtain ⟨after₁, kept₁⟩ := after.advance (by simp)
    obtain ⟨after₂, kept₂⟩ := after₁.advance (by simp)
    have no_args : arguments (rulesUpTo depth) s.advance = (.ok [], s.advance.advance.advance) :=
      arguments_of_empty after open_kind (congrArg Prod.fst closes)
    rw [← after₂.current] at follows
    let span := s.current.span.merge s.advance.advance.advance.previous.span
    refine ⟨.mk (bareCall name.text) span, s.advance.advance.advance, unary_of_primary (.inl kind) ?_ follows,
      unplaced_bareCall, after₂, (kept.trans kept₁).trans kept₂⟩
    simp [plainPrimary?, kind, spelled, nameOrCall, after.current, open_kind,
      namedCall_of_bare name.bare no_args follows, span]
  exact Finds.descend (Nat.zero_le 12) (Nat.le_refl 12) operand

end Expressions

/-! ### Items on one line -/

theorem follows_of_isDelimiter (divides : isDelimiter kind = true) : Follows 0 kind := by
  simp only [isDelimiter, Bool.or_eq_true, decide_eq_true_eq] at divides
  rcases divides with rfl | rfl
  · exact .line
  · exact .separates

theorem endsStatement_of_isDelimiter (divides : isDelimiter kind = true) : kind.endsStatement = true := by
  simp only [isDelimiter, Bool.or_eq_true, decide_eq_true_eq] at divides
  rcases divides with rfl | rfl <;> rfl

section Lines

variable [Placed α] {owner : TypePath} {item : α}

/-- Where these contents stand before what divides items, a reader finds this item. -/
def ReadsLine (p : Parser (Option α)) (owner : TypePath) (contents : List Token.Content) (item : α) : Prop :=
  ∀ (s : State) (front : List Token) (ending : Token) (rest : List Token), s.owner = owner →
    Stands s (front ++ ending :: rest) → front.map Token.content = contents → isDelimiter ending.kind = true →
    ∃ found s', p s = (.ok (some found), s') ∧ unplaced found = item ∧ Stands s' (ending :: rest) ∧ Same s s'

theorem ReadsLine.readsItem (reads : ReadsLine p owner contents item) (filled : contents ≠ [])
    (words : front.map Token.content = contents) (ends : isDelimiter ending.kind = true) :
    ReadsItem p owner (front ++ [ending]) item := by
  intro s after next rest inside stands dividers _
  rw [append_assoc, singleton_append] at stands
  obtain ⟨found, s', run, alike, behind, kept⟩ := reads s front ending _ inside stands words ends
  refine ⟨found, s', run, alike, ?_, kept, .inr ?_, ?_⟩
  · have near : Near s' ((ending :: after) ++ next :: rest) := .of_stands behind
    exact near.pass (forall_mem_cons.mpr ⟨ends, dividers⟩)
  · rw [behind.current]
    exact endsStatement_of_isDelimiter ends
  · have some_front : 0 < front.length := length_pos_of_ne_nil (by rintro rfl; exact filled words.symm)
    rw [behind.tokens, stands.tokens, length_append]
    omega

end Lines

/-! ### Statements -/

section Statements

variable {owner : TypePath}

theorem statement?_of_keyword (kind : s.current.kind = .keyword keyword)
    (quiet : startsExpression s.declares (.keyword keyword) = false)
    (run : keywordStatement? rules s.current.span s = (.ok (some action), s')) :
    statement? rules s = (.ok (some (.mk action (s.current.span.merge s'.previous.span))), s') := by
  have no_value : leadingExpression? rules s = (.ok none, s) := by
    by_cases declares : keyword = .var <;> simp [leadingExpression?, expression?, kind, quiet, declares]
  simp [statement?, kind, no_value, action?, run]

theorem statement?_of_expression (starts : startsOperand s.current.kind)
    (run : rules .assignment s = (.ok e, s')) (unnamed : e.name? = none)
    (plain : expressionAction e (s.current.span.merge e.span) = .ok (.expression e)) :
    statement? rules s = (.ok (some (.mk (.expression e) (s.current.span.merge s'.previous.span))), s') := by
  have apart : s.current.kind ≠ .symbol .colon ∧ s.current.kind ≠ .keyword .var := by
    rcases starts with kind | kind | kind | kind | kind | kind <;> rw [kind] <;> decide
  have leads : leadingExpression? rules s = (.ok (some e), s') := by
    simp [leadingExpression?, apart.2, run_expression? starts run]
  simp [statement?, apart.1, leads, action?, expressionStatement, unnamed, plain]

theorem expressionAction_of_bareCall {name : String}
    (alike : unplaced e = .mk (bareCall name) span) : expressionAction e span' = .ok (.expression e) := by
  unfold expressionAction
  split
  · rcases bareCall_cases name with same | same | ⟨_, same⟩ | same <;> rw [same] at alike <;> cases alike
  · rcases bareCall_cases name with same | same | ⟨_, same⟩ | same <;> rw [same] at alike <;> cases alike
  · rfl

theorem ReadsLine.call (name : CallName) (depth : Nat) : ReadsLine (statement? (rulesUpTo (depth + 1))) owner
    (TextLine.call name.toName).contents (.mk (.expression (.mk (bareCall name.text) .unknown)) .unknown) := by
  intro s front ending rest _ stands words ends
  obtain ⟨found, s', run, alike, behind, kept⟩ :=
    Finds.call name depth s front ending rest stands words (follows_of_isDelimiter ends)
  obtain ⟨_, _, rfl, content, -⟩ := map_eq_cons_iff.mp words
  have starts : startsOperand s.current.kind := .inl (stands.kind content)
  have unnamed : found.name? = none := by
    have same : (unplaced found).name? = found.name? := Expr.name?_move
    rw [← same, alike]
    rcases bareCall_cases name.text with same | same | ⟨_, same⟩ | same <;> rw [same] <;> rfl
  refine ⟨_, s', statement?_of_expression starts run unnamed (expressionAction_of_bareCall alike), ?_, behind, kept⟩
  rw [← alike]
  rfl

theorem integerContents_starts : ∃ content more, Token.integerContents value = content :: more ∧
    (∀ declares, startsExpression declares content.1 = true) ∧ content.1.endsStatement = false := by
  have number (n : Nat) : (∀ declares, startsExpression declares (Token.numberContent n).1 = true) ∧
      (Token.numberContent n).1.endsStatement = false := by
    rcases Token.numberContent_kind n with kind | kind <;> rw [kind] <;> exact ⟨fun _ => rfl, rfl⟩
  cases value with
  | ofNat n => exact ⟨_, _, rfl, number n⟩
  | negSucc n => exact ⟨_, _, rfl, fun _ => rfl, rfl⟩

/-- Behind one token an integer is read up to the end of its line. -/
theorem exists_integer (depth : Nat) (words : front.map Token.content = content :: Token.integerContents value)
    (stands : Stands s (front ++ ending :: rest)) (ends : isDelimiter ending.kind = true) :
    s.current.kind = content.1 ∧ s.advance.current.kind.endsStatement = false ∧ ∃ found s',
      expression? (rulesUpTo (depth + 2)) s.advance = (.ok (some found), s') ∧ unplaced found = .ofInt value ∧
      Stands s' (ending :: rest) ∧ Same s s' := by
  obtain ⟨_, more, rfl, head, words⟩ := map_eq_cons_iff.mp words
  obtain ⟨_, _, split, starts, goes_on⟩ := integerContents_starts
  obtain ⟨_, more, rfl, first_content, -⟩ := map_eq_cons_iff.mp (words.trans split)
  obtain ⟨inner, kept⟩ := stands.advance (by simp)
  obtain ⟨found, s', run, alike, behind, kept'⟩ :=
    Finds.integer value depth s.advance _ ending rest inner words (follows_of_isDelimiter ends)
  have first_kind := inner.kind first_content
  exact ⟨stands.kind head, by rw [first_kind, goes_on], found, s',
    expression?_of_starts (by rw [first_kind]; exact starts _) run, alike, behind, kept.trans kept'⟩

theorem ReadsLine.return_ (value : Int) (depth : Nat) : ReadsLine (statement? (rulesUpTo (depth + 2))) owner
    (TextLine.return_ value).contents (.mk (.return_ (some (.ofInt value))) .unknown) := by
  intro s _ ending rest _ stands words ends
  obtain ⟨kind, goes_on, found, s', run, alike, behind, kept⟩ := exists_integer depth words stands ends
  have action : keywordStatement? (rulesUpTo (depth + 2)) s.current.span s =
      (.ok (some (.return_ (some found))), s') := by
    simp [keywordStatement?, kind, valueInStatement?, atStatementEnd, goes_on, run]
  refine ⟨_, s', statement?_of_keyword kind rfl action, ?_, behind, kept⟩
  rw [← alike]
  rfl

/-- Here stand the keyword and, in parentheses, what is read as the condition. -/
theorem exists_condition
    (words : front.map Token.content = (TextLine.conditional keyword condition).contents)
    (stands : Stands s (front ++ left))
    (more : left ≠ []) : s.current.kind = .keyword keyword ∧
      s.advance.current.kind = .symbol .leftParen ∧ ∃ found s₁,
      expression (rulesUpTo (depth + 1)) s.advance.advance = (.ok found, s₁) ∧
      unplaced found = .ofName condition.text .unknown ∧ s₁.current.kind = .symbol .rightParen ∧
      Stands s₁.advance left ∧ Same s s₁.advance := by
  obtain ⟨_, others, rfl, first, words⟩ := map_eq_cons_iff.mp words
  obtain ⟨_, others, rfl, opens, words⟩ := map_eq_cons_iff.mp words
  obtain ⟨name, others, rfl, named, words⟩ := map_eq_cons_iff.mp words
  obtain ⟨closing, rfl, closes⟩ := exists_single words
  obtain ⟨stands₁, kept₁⟩ := stands.advance (by simp)
  obtain ⟨stands₂, kept₂⟩ := stands₁.advance (by simp)
  have close_kind : closing.kind = .symbol .rightParen := congrArg Prod.fst closes
  have finds : Finds (rulesUpTo (depth + 1) .assignment) 0 [(.identifier, condition.text, .none)]
      (.ofName condition.text .unknown) := Finds.descend (Nat.zero_le 12) (Nat.le_refl 12) (.name condition.text)
  obtain ⟨found, s₁, run, alike, behind, kept₃⟩ :=
    finds s.advance.advance [name] closing left stands₂ (by simp [named])
    (by rw [close_kind]; exact .closes)
  obtain ⟨after, kept₄⟩ := behind.advance more
  have starts : startsOperand s.advance.advance.current.kind := .inl (stands₂.kind named)
  have reads : expression (rulesUpTo (depth + 1)) s.advance.advance = (.ok found, s₁) := by
    simp [expression, run_expression? starts run]
  exact ⟨stands.kind first, stands₁.kind opens, found, s₁, reads, alike, behind.kind closes, after,
    ((kept₁.trans kept₂).trans kept₃).trans kept₄⟩

theorem body?_of_block (run : block? rules s = (.ok (some found), s')) : body? rules s = (.ok (some found), s') := by
  simp [body?, run]

/-- Where nothing else is to be done, what divides items is looked over and the first of it handed back. -/
theorem elseBody?_of_clear (rules : Rules) {after : List Token}
    (stands : Stands s (after ++ next :: rest)) (dividers : Dividers after) (clear : Clear next)
    (closed : closesBlock s.previous.kind = true) :
    ∃ s', elseBody? rules s = (.ok none, s') ∧ Near s' (next :: rest) ∧ Same s s' ∧ Ended s' ∧
      s'.tokens.length ≤ s.tokens.length := by
  obtain ⟨s₁, run, behind, kept, unmoved⟩ := stands.acceptAll dividers clear.divides
  have looks : elseBody? rules s =
      (do handBackIf (!after.isEmpty) s.current; return none : Parser (Option Block)) s₁ := by
    simp [elseBody?, delimiters, run, behind.current, clear.joins]
  cases after with
  | nil =>
    obtain rfl := unmoved rfl
    exact ⟨s₁, looks, .of_stands behind, kept, .inl closed, Nat.le_refl _⟩
  | cons first _ =>
    have divides := dividers first (by simp)
    have left : (s₁.handBack s.current).tokens = first :: next :: rest := by
      show s.current :: s₁.tokens = _
      rw [stands.current, behind.tokens]
    have valid : ∀ token ∈ first :: next :: rest, isInvalid token = false :=
      forall_mem_cons.mpr ⟨stands.valid first (by simp), behind.valid⟩
    have near : Near (s₁.handBack s.current) ([first] ++ next :: rest) := .of_stands ⟨left, valid⟩
    refine ⟨s₁.handBack s.current, looks, near.pass (by simp [Dividers, divides]),
      ⟨kept.owner, kept.declares, kept.reports, kept.skips⟩,
      .inr ?_, ?_⟩
    · show s.current.kind.endsStatement = true
      rw [stands.current]
      exact endsStatement_of_isDelimiter divides
    · rw [left, stands.tokens]
      simp

section Conditional

variable {style : Style} {body : List Statement}

/-- A keyword, its condition and the block behind it are read one after the other. -/
theorem exists_conditional (words : front.map Token.content = (TextLine.conditional keyword condition).contents)
    (block : Encloses style tokens inside)
    (reads : ReadsItems (statementTurn (rulesUpTo (depth + 1))) owner inside body)
    (inner : s.owner = owner) (filled : left ≠ []) (stands : Stands s (front ++ tokens ++ left)) :
    s.current.kind = .keyword keyword ∧ s.advance.current.kind = .symbol .leftParen ∧ ∃ found s₁ body' s₂,
      expression (rulesUpTo (depth + 1)) s.advance.advance = (.ok found, s₁) ∧
      unplaced found = .ofName condition.text .unknown ∧ s₁.current.kind = .symbol .rightParen ∧
      (∀ {symbol}, symbol ≠ .leftBrace → s₁.advance.current.kind ≠ .symbol symbol) ∧
      body? (rulesUpTo (depth + 1)) s₁.advance = (.ok (some body'), s₂) ∧ unplaced body' = .mk body .unknown ∧
      Stands s₂ left ∧ Same s s₂ ∧ closesBlock s₂.previous.kind = true := by
  rw [append_assoc] at stands
  obtain ⟨kind, paren, found, s₁, run, alike, close, head, kept⟩ :=
    exists_condition words stands (by simp [filled])
  obtain ⟨body', s₂, run_body, alike_body, behind, kept', closed⟩ :=
    ReadsBlock.block? block reads s₁.advance left (kept.owner.trans inner) filled head
  exact ⟨kind, paren, found, s₁, body', s₂, run, alike, close, fun other =>
    block.apart head (by simpa using other),
    body?_of_block run_body, alike_body, behind, kept.trans kept', closed⟩

section

variable (block : Encloses style tokens inside)
  (reads : ReadsItems (statementTurn (rulesUpTo (depth + 1))) owner inside body)

include block reads

theorem ReadsBlock.while_ (words : front.map Token.content = (TextLine.conditional .while_ condition).contents) :
    ReadsBlock (statement? (rulesUpTo (depth + 1))) owner (front ++ tokens)
      (.mk (.while_ (.ofName condition.text .unknown) (.mk body .unknown)) .unknown) := by
  intro s _ inner filled stands
  obtain ⟨kind, paren, found, _, body', s₂, run, alike, close, none_of, run_body, alike_body,
    behind, kept, closed⟩ :=
    exists_conditional words block reads inner filled stands
  have action : keywordStatement? (rulesUpTo (depth + 1)) s.current.span s =
      (.ok (some (.while_ found body')), s₂) := by
    simp [keywordStatement?, kind, whileStatement, inParens, paren, run, close, none_of, run_body]
  refine ⟨_, s₂, statement?_of_keyword kind rfl action, ?_, behind, kept, closed⟩
  rw [← alike, ← alike_body]
  rfl

theorem ReadsItem.if_ (words : front.map Token.content = (TextLine.conditional .if_ condition).contents) :
    ReadsItem (statement? (rulesUpTo (depth + 1))) owner (front ++ tokens)
      (.mk (.if_ (.ofName condition.text .unknown) (.mk body .unknown) none) .unknown) := by
  intro s _ _ _ inner stands dividers clear
  obtain ⟨kind, paren, found, s₁, body', _, run, alike, close, none_of, run_body, alike_body,
    behind, kept, closed⟩ :=
    exists_conditional words block reads inner (by simp) stands
  obtain ⟨s₃, no_else, near, kept', ended, shorter⟩ :=
    elseBody?_of_clear (rulesUpTo (depth + 1)) behind dividers clear closed
  have no_assignment : warnAssignment found s₁ = (.ok (), s₁) := by
    have none_assigned : assignmentSpan? found = none := by
      unfold assignmentSpan?
      split
      · cases alike
      · rfl
    simp [warnAssignment, none_assigned]
  have action : keywordStatement? (rulesUpTo (depth + 1)) s.current.span s =
      (.ok (some (.if_ found body' none)), s₃) := by
    simp [keywordStatement?, kind, ifStatement, paren, run, no_assignment, close, none_of,
      Parsing.body, run_body, no_else]
  refine ⟨_, s₃, statement?_of_keyword kind rfl action, ?_, near, kept.trans kept', ended,
    Nat.lt_of_le_of_lt shorter ?_⟩
  · rw [← alike, ← alike_body]
    rfl
  · obtain ⟨_, _, rfl, -⟩ := block.exists_head
    rw [behind.tokens, stands.tokens]
    simp only [length_append, length_cons]
    omega

end

end Conditional

end Statements

theorem Style.isDelimiter_of_ending (ends : kind = style.ending) : isDelimiter kind = true := by
  cases style <;> rw [ends] <;> rfl

theorem startsItem_of_statement {tree : StatementTree} :
    ∀ content ∈ tree.outline.head.contents.head?, startsItem content.1 = true := by
  induction tree with
  | return_ | call | if_ | while_ =>
    rintro content ⟨⟩
    rfl
  | both _ _ ih_first => exact ih_first

/-- Tokens that are enough for a block and its head are enough for what is inside. -/
theorem exists_depth {line : TextLine} {closing : List Token} (words : front.map Token.content = line.contents)
    (enough : (front ++ (opening ++ (inside ++ closing))).length + 3 ≤ depth) :
    ∃ less, depth = less + 2 ∧ inside.length + 3 ≤ less + 1 := by
  have filled : 0 < front.length := length_pos_of_ne_nil (by rintro rfl; exact line.filled words.symm)
  simp only [length_append] at enough
  exact ⟨depth - 2, by omega, by omega⟩

/-- In both styles the statements of a body are read from its tokens. -/
theorem readsItems_of_statements {tree : StatementTree} (owner : TypePath)
    (spells : Spells style tree.outline tokens) (enough : tokens.length + 3 ≤ depth) :
    ReadsItems (statementTurn (rulesUpTo depth)) owner tokens tree.statements := by
  have begins := begins_of_spells spells startsItem_of_statement
  induction tree generalizing tokens depth with
  | return_ value =>
    obtain ⟨depth, rfl⟩ : ∃ less, depth = less + 3 := ⟨depth - 3, by omega⟩
    cases spells with
    | leaf words ends =>
      exact statementLoop.single begins
        ((ReadsLine.return_ value depth).readsItem (by simp [TextLine.return_]) words
          (Style.isDelimiter_of_ending ends))
  | call name =>
    obtain ⟨depth, rfl⟩ : ∃ less, depth = less + 2 := ⟨depth - 2, by omega⟩
    cases spells with
    | leaf words ends =>
      exact statementLoop.single begins
        ((ReadsLine.call name depth).readsItem (by simp [TextLine.call]) words (Style.isDelimiter_of_ending ends))
  | if_ condition body ih =>
    cases spells with
    | block words opens inner closes =>
      obtain ⟨depth, rfl, enough'⟩ := exists_depth words enough
      have begins' := begins_of_spells inner startsItem_of_statement
      exact statementLoop.single begins (.if_ ⟨begins', _, _, opens, closes, rfl⟩ (ih inner enough' begins') words)
  | while_ condition body ih =>
    cases spells with
    | block words opens inner closes =>
      obtain ⟨depth, rfl, enough'⟩ := exists_depth words enough
      have begins' := begins_of_spells inner startsItem_of_statement
      have reads := ReadsBlock.while_ ⟨begins', _, _, opens, closes, rfl⟩ (ih inner enough' begins') words
      exact statementLoop.single begins (reads.readsItem begins.ne_nil)
  | both _ _ ih_first ih_second =>
    cases spells with
    | both front back =>
      rw [length_append] at enough
      have begins' := begins_of_spells back startsItem_of_statement
      exact (ih_first front (by omega) (begins_of_spells front startsItem_of_statement)).append
        (ih_second back (by omega) begins') begins'

end Parsing

end DreamMaker
