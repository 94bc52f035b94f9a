import DreamMaker.Parsing.Declaration
import DreamMaker.Proofs.Syntax.Places

namespace DreamMaker

variable {α β : Type} {f : Span → Span}

/-- Moves of places that go together with merging them. -/
class Merging (f : Span → Span) : Prop where
  merge : ∀ a b : Span, f (a.merge b) = (f a).merge (f b)

@[simp] theorem move_merge [Merging f] (a b : Span) :
    move f (a.merge b) = (move f a).merge (move f b) := Merging.merge a b

@[simp] theorem move_map [Placed α] [Placed β] (g h : α → β) {as : List α}
    (same : ∀ a, move f (g a) = h (move f a)) : move f (as.map g) = (move f as).map h := by
  show (as.map g).map (move f) = (as.map (move f)).map h
  simp [same]

section Parts

variable [Placed α] [Placed β]

@[simp] theorem length_move (as : List α) : (move f as).length = as.length := List.length_map _

@[simp] theorem isEmpty_move (as : List α) : (move f as).isEmpty = as.isEmpty := by cases as <;> rfl

@[simp] theorem move_getElem? (as : List α) (i : Nat) : move f as[i]? = (move f as)[i]? := (List.getElem?_map ..).symm

@[simp] theorem move_getD (a? : Option α) : move f (a?.getD a) = (move f a?).getD (move f a) := by
  cases a? <;> rfl

@[simp] theorem move_toList (a? : Option α) : move f a?.toList = (move f a?).toList := by cases a? <;> rfl

@[simp] theorem move_getLast? (as : List α) : move f as.getLast? = (move f as).getLast? := List.getLast?_map.symm

@[simp] theorem move_dropLast (as : List α) : move f as.dropLast = (move f as).dropLast := List.map_dropLast ..

@[simp] theorem move_option_map (g h : α → β) {a? : Option α} (same : ∀ a, move f (g a) = h (move f a)) :
    move f (a?.map g) = (move f a?).map h := by
  cases a? <;> simp [same]

end Parts

namespace Expr

@[simp] theorem move_span (e : Expr) : move f e.span = (move f e).span := by cases e; rfl

@[simp] theorem move_withSpan (e : Expr) (span : Span) :
    move f (e.withSpan span) = (move f e).withSpan (move f span) := by
  cases e; rfl

@[simp] theorem move_ofLiteral (value : Literal) (span : Span) :
    move f (ofLiteral value span) = ofLiteral value (move f span) := rfl

@[simp] theorem move_null (span : Span) : move f (null span) = null (move f span) := rfl

@[simp] theorem move_string (text : String) (span : Span) :
    move f (string text span) = string text (move f span) := rfl

@[simp] theorem move_ofName (span : Span) : move f (ofName name span) = ofName name (move f span) := rfl

@[simp] theorem literal?_move (e : Expr) : (move f e).literal? = e.literal? := by
  obtain ⟨node, _⟩ := e
  cases node <;> rfl

@[simp] theorem isConstant_move (e : Expr) : (move f e).isConstant = e.isConstant := by
  rw [isConstant, isConstant, literal?_move]

@[simp] theorem isNull_move (e : Expr) : (move f e).isNull = e.isNull := by
  rw [isNull, isNull, literal?_move]

@[simp] theorem name?_move {e : Expr} : (move f e).name? = e.name? := by
  obtain ⟨node, _⟩ := e
  cases node <;> rfl

end Expr

@[simp] theorem Argument.move_value (arg : Argument) : move f arg.value = (move f arg).value := by cases arg; rfl

@[simp] theorem Argument.move_positional (value : Expr) : move f (positional value) = positional (move f value) := rfl

@[simp] theorem Link.move_span (link : Link) : move f link.span = (move f link).span := by cases link; rfl

namespace NewTarget

@[simp] theorem move_path (path : TypePath) : move f (NewTarget.path path) = .path path := rfl

@[simp] theorem move_value : move f (NewTarget.value type) = .value (move f type) := rfl

@[simp] theorem move_inferred : move f NewTarget.inferred = .inferred := rfl

end NewTarget

namespace Format

@[simp] theorem move_mk (text : String) (holes : List (Option Expr)) (next : Mark) (last? : Option Mark) :
    move f (Format.mk text holes next last?) = .mk text (move f holes) next last? := rfl

variable (format : Format)

@[simp] theorem move_addHole : move f (format.addHole value?) = (move f format).addHole (move f value?) := by
  cases format
  simp [addHole]

@[simp] theorem move_toExpr (span : Span) : move f (format.toExpr span) = (move f format).toExpr (move f span) := by
  obtain ⟨_, holes, _, _⟩ := format
  cases holes <;> simp [toExpr]

theorem move_addMacro (mark : Mark) (placement : Mark.Placement) (span : Span) :
    move f (format.addMacro mark placement span) = (move f format).addMacro mark placement (move f span) := by
  obtain ⟨_, _, _, last?⟩ := format
  cases placement with
  | before => by_cases reference : mark = .reference <;> simp [addMacro, reference]
  | after => cases last? with
    | none => rfl
    | some last => cases last <;> rfl
  | alone => rfl

theorem move_addText (cs : List Char) (span : Span) :
    move f (format.addText cs span).1 = ((move f format).addText cs (move f span)).1 ∧
      move f (format.addText cs span).2.toList = ((move f format).addText cs (move f span)).2.toList := by
  have steps : ∀ (glyphs : List Glyph) (format format' : Format) (reports reports' : Array Report),
      move f format = format' → move f reports.toList = reports'.toList →
      move f (glyphs.foldl (addGlyph span) (format, reports)).1 =
        (glyphs.foldl (addGlyph (move f span)) (format', reports')).1 ∧
        move f (glyphs.foldl (addGlyph span) (format, reports)).2.toList =
          (glyphs.foldl (addGlyph (move f span)) (format', reports')).2.toList := by
    intro glyphs
    induction glyphs with
    | nil => exact fun _ _ _ _ formats reports => ⟨formats, reports⟩
    | cons glyph glyphs ih =>
      intro format format' reports reports' formats same
      subst formats
      cases glyph with
      | char _ => exact ih _ _ _ _ rfl same
      | code mark placement =>
        have added := move_addMacro (f := f) format mark placement span
        rcases result : format.addMacro mark placement span with ⟨_, report?⟩
        rcases result' : (move f format).addMacro mark placement (move f span) with ⟨_, _⟩
        rw [result'] at added
        obtain ⟨rfl, rfl⟩ := Prod.mk.inj added
        simp only [List.foldl_cons, addGlyph, result']
        refine ih _ _ _ _ rfl ?_
        cases report? <;> simp [same]
  exact steps _ _ _ _ _ rfl rfl

end Format

namespace Block

@[simp] theorem move_empty (span : Span) : move f (empty span) = empty (move f span) := by simp [empty]

@[simp] theorem move_single : move f (single statement) = single (move f statement) := by
  cases statement
  simp [single, Statement.span]

@[simp] theorem isEmpty_move (block : Block) : (move f block).isEmpty = block.isEmpty := by
  cases block
  simp [isEmpty, statements]

end Block

@[simp] theorem LocalVar.move_mk (name : String) (type? : Option TypePath)
    (value? : Option Expr) (modifiers : Modifiers)
    (types : ValueTypes) (span : Span) : move f (LocalVar.mk name type? value? modifiers types span) =
      .mk name type? (move f value?) modifiers types (move f span) := by
  rw [← moveExpr?_eq]
  rfl

@[simp] theorem Parameter.move_mk (name : String) (type? : Option TypePath) (default? choices? : Option Expr)
    (types : ValueTypes) (span : Span) : move f (Parameter.mk name type? default? choices? types span) =
      .mk name type? (move f default?) (move f choices?) types (move f span) := by
  rw [← moveExpr?_eq, ← moveExpr?_eq]
  rfl

@[simp] theorem VarDefinition.move_mk (owner : TypePath) (name : String)
    (type? : Option TypePath) (modifiers : Modifiers) (value? : Option Expr) (types : ValueTypes) (span : Span) :
    move f (VarDefinition.mk owner name type? modifiers value? types span) =
      .mk owner name type? modifiers (move f value?) types (move f span) := by
  rw [← moveExpr?_eq]
  rfl

@[simp] theorem ProcDefinition.move_mk (owner : TypePath) (name : String) (isOverride isVerb : Bool)
    (parameters : List Parameter) (body? : Option Block) (returnTypes? : Option ValueTypes) (span : Span)
    (rooted : ∃ segments, owner = .absolute segments) :
    move f (ProcDefinition.mk owner name isOverride isVerb parameters body? returnTypes? span rooted) =
      .mk owner name isOverride isVerb (move f parameters) (move f body?) returnTypes? (move f span) rooted := by
  rw [← moveBlock?_eq]
  rfl

@[simp] theorem LocalVar.move_span (var : LocalVar) : move f var.span = (move f var).span := rfl

@[simp] theorem VarDefinition.move_span (var : VarDefinition) : move f var.span = (move f var).span := rfl

@[simp] theorem ProcDefinition.move_span (definition : ProcDefinition) :
    move f definition.span = (move f definition).span := rfl

@[simp] theorem Statement.move_action (statement : Statement) :
    statement.action.relocate f = (move f statement).action := by
  cases statement
  rfl

namespace Parsing

variable {e : Expr}

@[simp] theorem move_toArgument : move f (toArgument e) = toArgument (move f e) := by
  obtain ⟨node, span⟩ := e
  cases node with
  | assign op target value =>
    obtain ⟨node, span⟩ := target
    cases op <;> cases node <;> simp [toArgument]
    rename_i value
    cases value <;> simp
  | _ => simp [toArgument]

@[simp] theorem move_placed : move f (placed value? comma place) = placed (move f value?) comma (move f place) := by
  cases value? <;> cases comma <;> simp [placed]

@[simp] theorem move_sizedList? : move f (sizedList? sizes span) = sizedList? (move f sizes) (move f span) := by
  cases sizes <;> simp [sizedList?]

@[simp] theorem move_probWeight? : move f (probWeight? e) = probWeight? (move f e) := by
  obtain ⟨node, _⟩ := e
  cases node with
  | apply function _ => cases function <;> simp [probWeight?]
  | _ => simp [probWeight?]

@[simp] theorem move_linked [Merging f] (base : Expr) (links : List Link) :
    move f (linked base links) = linked (move f base) (move f links) := by
  unfold linked
  rw [← move_getLast?]
  cases links.getLast? <;> simp

@[simp] theorem move_namedLink :
    (namedLink name searched args?).relocate f = namedLink name searched (move f args?) := by
  cases args? <;> simp [namedLink]

@[simp] theorem move_joined (links : List Link) (result : Except Expr Link) :
    move f (joined base links result) = joined (move f base) (move f links) (move f result) := by
  cases result <;> simp [joined]

@[simp] theorem writtenPath?_move : writtenPath? (move f e) = writtenPath? e := by
  obtain ⟨node, _⟩ := e
  cases node with
  | literal value => cases value <;> rfl
  | _ => rfl

@[simp] theorem move_targetOf : move f (targetOf type) = targetOf (move f type) := by
  unfold targetOf
  rw [writtenPath?_move]
  cases writtenPath? type <;> simp

@[simp] theorem move_negated (operand : Expr) (span : Span) :
    move f (negated operand span) = negated (move f operand) (move f span) := by
  obtain ⟨node, span⟩ := operand
  cases node with
  | literal value => cases value <;> simp [negated]
  | _ => simp [negated]

@[simp] theorem move_searchedName? : move f (searchedName? link) = searchedName? (move f link) := by
  obtain ⟨kind, safe, _⟩ := link
  cases kind with
  | index index => cases safe <;> rfl
  | field name searched => cases searched <;> cases safe <;> simp [searchedName?]
  | call name searched _ => cases searched <;> cases safe <;> simp [searchedName?]

@[simp] theorem move_unwind? : move f (unwind? e) = unwind? (move f e) := by
  fun_induction unwind? e with
  | case1 op left right span ih =>
    rcases parts : unwind? right with _ | ⟨rest, last⟩ <;> rw [parts] at ih <;> simp [unwind?, ← ih]
  | case2 op operand span behind => simp [unwind?, behind]
  | case3 op operand span before ih =>
    rcases parts : unwind? operand with _ | ⟨rest, last⟩ <;> rw [parts] at ih <;> simp [unwind?, ← ih, before]
  | case4 base links span rest =>
    have name : move f (links.getLast?.bind searchedName?) = (move f links).getLast?.bind searchedName? := by
      rw [← move_getLast?]
      cases links.getLast? <;> simp
    simp only [Expr.move_mk, Node.move_eq, Node.relocate, moveLinks_eq, unwind?, ← name, ← move_dropLast,
      isEmpty_move, rest]
    split <;> exact move_option_map _ _ fun last => by simp
  | case5 e no_binary no_unary no_chain =>
    obtain ⟨node, span⟩ := e
    cases node with
    | binary op left right => exact absurd rfl (no_binary op left right span)
    | unary op operand => exact absurd rfl (no_unary op operand span)
    | chain base links => exact absurd rfl (no_chain base links span)
    | _ => simp [unwind?]

@[simp] theorem move_probCall : move f (probCall args) = probCall (move f args) := by
  rcases args with _ | ⟨⟨_ | key, value⟩, _ | ⟨next, rest⟩⟩ <;> simp [probCall]

@[simp] theorem move_rgbCall : move f (rgbCall args) = rgbCall (move f args) := by
  unfold rgbCall
  rw [length_move]
  split <;> simp

@[simp] theorem move_plainCall : move f (plainCall name args) = plainCall name (move f args) := by
  rcases args with _ | ⟨⟨key?, value⟩, _ | ⟨next, rest⟩⟩ <;> cases gathering : gatheringOf? name <;>
    cases function : functionOf? name <;> simp [plainCall, gathering, function, Argument.value]

theorem move_callNode : move f (callNode name args) = callNode name (move f args) := by
  unfold callNode
  rw [← move_map Argument.value Argument.value Argument.move_value]
  generalize args.map Argument.value = values
  rcases values with _ | ⟨a, _ | ⟨b, _ | ⟨c, rest⟩⟩⟩ <;>
    simp only [move_nil, move_cons] <;> split <;> simp_all

@[simp] theorem isLabel_move : isLabel (move f statement) = isLabel statement := by
  obtain ⟨action, _⟩ := statement
  cases action <;> simp [isLabel, Statement.action]

@[simp] theorem move_idle : move f (idle span) = idle (move f span) := by
  simp [idle]

@[simp] theorem move_varsAction? : move f (varsAction? vars) = varsAction? (move f vars) := by
  match vars with
  | [] => rfl
  | [var] => simp [varsAction?]
  | var :: next :: rest =>
    simp only [varsAction?, move_some, Action.move_eq, Action.relocate, moveStatements_eq]
    rw [move_map _ fun var : LocalVar => Statement.mk (.declare var) var.span]
    · rfl
    · simp

@[simp] theorem move_setsAction? (sets : List Statement) : move f (setsAction? sets) = setsAction? (move f sets) := by
  match sets with
  | [] => rfl
  | [set] => simp [setsAction?]
  | set :: next :: rest => simp [setsAction?]

@[simp] theorem move_assignmentSpan? : move f (assignmentSpan? e) = assignmentSpan? (move f e) := by
  obtain ⟨node, _⟩ := e
  cases node with
  | assign op _ _ => cases op <;> simp [assignmentSpan?]
  | _ => simp [assignmentSpan?]

@[simp] theorem move_assigned? : move f (assigned? e) = assigned? (move f e) := by
  obtain ⟨node, _⟩ := e
  cases node with
  | assign op _ _ => cases op <;> simp [assigned?]
  | _ => simp [assigned?]

@[simp] theorem move_loopOver (first : Expr) (types? : Option ValueTypes) (body : Block) :
    move f (loopOver first types? body) = loopOver (move f first) types? (move f body) := by
  obtain ⟨node, _⟩ := first
  cases node with
  | declare _ type? => cases type? <;> simp [loopOver]
  | _ => simp [loopOver]

theorem move_transferOf (kind : Transfer) (name : String) (receiver : Expr) (span : Span) :
    move f (transferOf kind name receiver values span) = transferOf kind name (move f receiver)
      (move f values) (move f span) := by
  unfold transferOf
  rw [length_move]
  split <;> simp

theorem move_outputOf : move f (outputOf name receiver message values span) =
      outputOf name (move f receiver) (move f message) (move f values) (move f span) := by
  unfold outputOf
  rcases values with _ | ⟨a, _ | ⟨b, _ | ⟨c, rest⟩⟩⟩ <;> simp only [move_nil, move_cons] <;> split <;>
    simp_all [move_transferOf]

theorem move_outputAction :
    move f (outputAction receiver message span) = outputAction (move f receiver) (move f message) (move f span) := by
  obtain ⟨node, _⟩ := message
  cases node with
  | call target _ =>
    cases target with
    | named _ => simp [outputAction, move_outputOf]
    | _ => simp [outputAction]
  | _ => simp [outputAction]

theorem move_expressionAction : move f (expressionAction e span) = expressionAction (move f e) (move f span) := by
  obtain ⟨node, _⟩ := e
  cases node with
  | binary op _ _ => cases op <;> simp [expressionAction, move_outputAction]
  | _ => simp [expressionAction]

@[simp] theorem move_varsDeclaration :
    move f (varsDeclaration vars span) = varsDeclaration (move f vars) (move f span) := by
  match vars with
  | [] => simp [varsDeclaration]
  | [var] => simp [varsDeclaration]
  | var :: next :: rest =>
    simp only [varsDeclaration, Declaration.move_mk, Item.move_eq, Item.relocate, moveDeclarations_eq]
    rw [move_map _ fun var : VarDefinition => Declaration.mk (.var var) var.span]
    · rfl
    · simp

end Parsing

end DreamMaker
