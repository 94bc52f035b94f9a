import DreamMaker.Parsing.State
import DreamMaker.Syntax.Format
import DreamMaker.Syntax.Statement

namespace DreamMaker

open CaseValue

variable {α β : Type}

/-- Things with places in them. -/
class Placed (α : Type) where
  /-- The same thing with every place replaced. -/
  move : (Span → Span) → α → α

export Placed (move)

/-- Things without any place in them. -/
class Unplaced (α : Type) [Placed α] : Prop where
  move_eq : ∀ (f : Span → Span) (a : α), move f a = a

/-- The same thing, apart from what the places say. -/
@[simp] abbrev Alike [Placed α] (f : Span → Span) (a b : α) : Prop := move f a = move f b

section Trees

variable (f : Span → Span)

mutual

def Expr.relocate : Expr → Expr
  | .mk node span => .mk node.relocate (f span)

def Node.relocate : Node → Node
  | .literal value => .literal value
  | .search base target => .search base target
  | .format text holes => .format text (moveHoles holes)
  | .name name => .name name
  | .result => .result
  | .declare name type? => .declare name type?
  | .unary op operand => .unary op operand.relocate
  | .binary op left right => .binary op left.relocate right.relocate
  | .assign op target value => .assign op target.relocate value.relocate
  | .ternary condition yes no => .ternary condition.relocate yes.relocate no.relocate
  | .member value container => .member value.relocate container.relocate
  | .between value start stop step? => .between value.relocate start.relocate stop.relocate (moveExpr? step?)
  | .new target args => .new target.relocate (moveArguments args)
  | .chain base links => .chain base.relocate (moveLinks links)
  | .call target args => .call target (moveArguments args)
  | .dynamicCall callee args => .dynamicCall (moveArguments callee) (moveArguments args)
  | .scope base? name call? => .scope (moveExpr? base?) name (moveArguments? call?)
  | .gather function args => .gather function (moveArguments args)
  | .pick choices => .pick (moveArguments choices)
  | .input args types? list? => .input (moveArguments args) types? (moveExpr? list?)
  | .apply function arg => .apply function arg.relocate
  | .applyPair function first second => .applyPair function first.relocate second.relocate
  | .log value base? => .log value.relocate (moveExpr? base?)
  | .isType value type? => .isType value.relocate (moveExpr? type?)
  | .locate type? container? => .locate (moveExpr? type?) (moveExpr? container?)
  | .locateAt x y z => .locateAt x.relocate y.relocate z.relocate

def NewTarget.relocate : NewTarget → NewTarget
  | .path path => .path path
  | .value type => .value type.relocate
  | .inferred => .inferred

def Argument.relocate : Argument → Argument
  | .mk key? value => .mk (moveExpr? key?) value.relocate

def Link.relocate : Link → Link
  | .mk kind safe span => .mk kind.relocate safe (f span)

def LinkKind.relocate : LinkKind → LinkKind
  | .field name searched => .field name searched
  | .index index => .index index.relocate
  | .call name searched args => .call name searched (moveArguments args)

def moveExpr? : Option Expr → Option Expr
  | none => none
  | some e => some e.relocate

def moveHoles : List (Option Expr) → List (Option Expr)
  | [] => []
  | hole :: rest => moveExpr? hole :: moveHoles rest

def moveArguments : List Argument → List Argument
  | [] => []
  | arg :: rest => arg.relocate :: moveArguments rest

def moveArguments? : Option (List Argument) → Option (List Argument)
  | none => none
  | some args => some (moveArguments args)

def moveLinks : List Link → List Link
  | [] => []
  | link :: rest => link.relocate :: moveLinks rest

end

def LocalVar.relocate (var : LocalVar) : LocalVar :=
  { var with value? := moveExpr? f var.value?, span := f var.span }

def CaseValue.relocate : CaseValue → CaseValue
  | .single value => .single (value.relocate f)
  | .range start stop => .range (start.relocate f) (stop.relocate f)

mutual

def Statement.relocate : Statement → Statement
  | .mk action span => .mk action.relocate (f span)

def Block.relocate : Block → Block
  | .mk statements span => .mk (moveStatements statements) (f span)

def Action.relocate : Action → Action
  | .expression value => .expression (value.relocate f)
  | .declare var => .declare (var.relocate f)
  | .group statements => .group (moveStatements statements)
  | .set name value wasIn => .set name (value.relocate f) wasIn
  | .return_ value? => .return_ (moveExpr? f value?)
  | .break_ label? => .break_ label?
  | .continue_ label? => .continue_ label?
  | .goto label => .goto label
  | .label name body? => .label name (moveBlock? body?)
  | .del value => .del (value.relocate f)
  | .throw value => .throw (value.relocate f)
  | .if_ condition body else? => .if_ (condition.relocate f) body.relocate (moveBlock? else?)
  | .for_ start? condition? next? body =>
    .for_ (moveExpr? f start?) (moveExpr? f condition?) (moveExpr? f next?) body.relocate
  | .forIn binder types? list body => .forIn (binder.relocate f) types? (list.relocate f) body.relocate
  | .forRange binder start stop step? body =>
    .forRange (binder.relocate f) (start.relocate f) (stop.relocate f) (moveExpr? f step?) body.relocate
  | .forType binder body => .forType (binder.relocate f) body.relocate
  | .forever body => .forever body.relocate
  | .while_ condition body => .while_ (condition.relocate f) body.relocate
  | .doWhile body condition => .doWhile body.relocate (condition.relocate f)
  | .switch value cases => .switch (value.relocate f) (moveCases cases)
  | .spawn delay? body => .spawn (moveExpr? f delay?) body.relocate
  | .tryCatch body binder? handler? => .tryCatch body.relocate
      (binder?.map (LocalVar.relocate f)) (moveBlock? handler?)
  | .output receiver message => .output (receiver.relocate f) (message.relocate f)
  | .input source target => .input (source.relocate f) (target.relocate f)
  | .transfer kind receiver first second =>
    .transfer kind (receiver.relocate f) (first.relocate f) (second.relocate f)
  | .link receiver url => .link (receiver.relocate f) (url.relocate f)

def Case.relocate : Case → Case
  | .mk values? body span => .mk (values?.map (List.map (relocate f))) body.relocate (f span)

def moveStatements : List Statement → List Statement
  | [] => []
  | statement :: rest => statement.relocate :: moveStatements rest

def moveBlock? : Option Block → Option Block
  | none => none
  | some block => some block.relocate

def moveCases : List Case → List Case
  | [] => []
  | case :: rest => case.relocate :: moveCases rest

end

def Parameter.relocate (parameter : Parameter) : Parameter :=
  { parameter with
    default? := moveExpr? f parameter.default?
    choices? := moveExpr? f parameter.choices?
    span := f parameter.span }

def ProcDefinition.relocate (definition : ProcDefinition) : ProcDefinition :=
  { definition with
    parameters := definition.parameters.map (Parameter.relocate f)
    body? := moveBlock? f definition.body?
    span := f definition.span }

def VarDefinition.relocate (definition : VarDefinition) : VarDefinition :=
  { definition with value? := moveExpr? f definition.value?, span := f definition.span }

mutual

def Declaration.relocate : Declaration → Declaration
  | .mk item span => .mk item.relocate (f span)

def Item.relocate : Item → Item
  | .object path body => .object path (moveDeclarations body)
  | .proc definition => .proc (definition.relocate f)
  | .var definition => .var (definition.relocate f)
  | .override owner name value => .override owner name (value.relocate f)
  | .group declarations => .group (moveDeclarations declarations)

def moveDeclarations : List Declaration → List Declaration
  | [] => []
  | declaration :: rest => declaration.relocate :: moveDeclarations rest

end

end Trees

section Instances

variable [Placed α] [Placed β]

instance : Placed Span := ⟨fun f span => f span⟩

instance : Placed Unit := ⟨fun _ a => a⟩
instance : Placed Bool := ⟨fun _ a => a⟩
instance : Placed Nat := ⟨fun _ a => a⟩
instance : Placed String := ⟨fun _ a => a⟩
instance : Placed TypePath := ⟨fun _ a => a⟩
instance : Placed Anchor := ⟨fun _ a => a⟩
instance : Placed ValueTypes := ⟨fun _ a => a⟩
instance : Placed Token.Kind := ⟨fun _ a => a⟩

instance : Placed (Option α) := ⟨fun f a? => a?.map (move f)⟩
instance : Placed (List α) := ⟨fun f as => as.map (move f)⟩
instance : Placed (α × β) := ⟨fun f ab => (move f ab.1, move f ab.2)⟩

instance : Placed (Except α β) :=
  ⟨fun f result => match result with
    | .ok b => .ok (move f b)
    | .error a => .error (move f a)⟩

instance : Placed (Parsing.Turn α β) :=
  ⟨fun f turn => match turn with
    | .again a => .again (move f a)
    | .stop b => .stop (move f b)⟩

instance : Placed Expr := ⟨Expr.relocate⟩
instance : Placed Node := ⟨Node.relocate⟩
instance : Placed NewTarget := ⟨NewTarget.relocate⟩
instance : Placed Argument := ⟨Argument.relocate⟩
instance : Placed Link := ⟨Link.relocate⟩
instance : Placed LinkKind := ⟨LinkKind.relocate⟩
instance : Placed LocalVar := ⟨LocalVar.relocate⟩
instance : Placed CaseValue := ⟨relocate⟩
instance : Placed Statement := ⟨Statement.relocate⟩
instance : Placed Block := ⟨Block.relocate⟩
instance : Placed Action := ⟨Action.relocate⟩
instance : Placed Case := ⟨Case.relocate⟩
instance : Placed Parameter := ⟨Parameter.relocate⟩
instance : Placed ProcDefinition := ⟨ProcDefinition.relocate⟩
instance : Placed VarDefinition := ⟨VarDefinition.relocate⟩
instance : Placed Declaration := ⟨Declaration.relocate⟩
instance : Placed Item := ⟨Item.relocate⟩

instance : Placed SourceFile := ⟨fun f file => ⟨move f file.declarations, f file.span⟩⟩

instance : Placed Token := ⟨fun f token => { token with span := f token.span }⟩
instance : Placed ParseError := ⟨fun f error => { error with span := f error.span }⟩

instance : Placed Report :=
  ⟨fun f report => { report with diagnostic := { report.diagnostic with span? := report.diagnostic.span?.map f } }⟩

instance : Placed Format := ⟨fun f format => { format with holes := move f format.holes }⟩

instance : Unplaced Unit := ⟨fun _ _ => rfl⟩
instance : Unplaced Bool := ⟨fun _ _ => rfl⟩
instance : Unplaced Nat := ⟨fun _ _ => rfl⟩
instance : Unplaced String := ⟨fun _ _ => rfl⟩
instance : Unplaced TypePath := ⟨fun _ _ => rfl⟩
instance : Unplaced Anchor := ⟨fun _ _ => rfl⟩
instance : Unplaced ValueTypes := ⟨fun _ _ => rfl⟩
instance : Unplaced Token.Kind := ⟨fun _ _ => rfl⟩

instance [Unplaced α] : Unplaced (Option α) where
  move_eq f a? := by
    have same : move (α := α) f = id := funext (Unplaced.move_eq f)
    show a?.map (move f) = a?
    rw [same, Option.map_id, id]

instance [Unplaced α] : Unplaced (List α) where
  move_eq f as := by
    have same : move (α := α) f = id := funext (Unplaced.move_eq f)
    show as.map (move f) = as
    rw [same, List.map_id]

end Instances

section Forms

variable {b : β} [Placed α] [Placed β] {f : Span → Span} {a : α} {statements : List Statement}

@[simp] theorem move_of_unplaced [Unplaced α] (a : α) : move f a = a := Unplaced.move_eq f a

theorem eq_of_alike {b : α} [Unplaced α] (same : Alike f a b) : a = b := by simpa using same

@[simp] theorem move_none : move f (none : Option α) = none := rfl

@[simp] theorem move_some (a : α) : move f (some a) = some (move f a) := rfl

@[simp] theorem move_nil : move f ([] : List α) = [] := rfl

@[simp] theorem move_cons (a : α) : move f (a :: as) = move f a :: move f as := rfl

@[simp] theorem move_append (as bs : List α) : move f (as ++ bs) = move f as ++ move f bs := List.map_append

@[simp] theorem move_pair (a : α) (b : β) : move f (a, b) = (move f a, move f b) := rfl

theorem exists_of_alike_pair [Unplaced α] {x y : α × β} (same : move f x = move f y) :
    ∃ a b b', x = (a, b) ∧ y = (a, b') ∧ move f b = move f b' := by
  obtain ⟨a, b⟩ := x
  obtain ⟨_, b'⟩ := y
  simp only [move_pair, move_of_unplaced, Prod.mk.injEq] at same
  exact ⟨a, b, b', rfl, by rw [same.1], same.2⟩

@[simp] theorem move_ok : move f (.ok b : Except α β) = .ok (move f b) := rfl

@[simp] theorem move_error : move f (.error a : Except α β) = .error (move f a) := rfl

@[simp] theorem move_again : move f (.again a : Parsing.Turn α β) = .again (move f a) := rfl

@[simp] theorem move_stop : move f (.stop b : Parsing.Turn α β) = .stop (move f b) := rfl

/-! The parts of a tree are moved one by one. -/

attribute [simp] Node.relocate LinkKind.relocate Action.relocate Item.relocate

@[simp] theorem Node.move_eq (node : Node) : move f node = node.relocate f := rfl

@[simp] theorem LinkKind.move_eq (kind : LinkKind) : move f kind = kind.relocate f := rfl

@[simp] theorem Action.move_eq (action : Action) : move f action = action.relocate f := rfl

@[simp] theorem Item.move_eq (item : Item) : move f item = item.relocate f := rfl

@[simp] theorem Expr.move_mk (node : Node) (span : Span) :
    move f (Expr.mk node span) = .mk (move f node) (move f span) := rfl

@[simp] theorem Argument.move_mk (key? : Option Expr) (value : Expr) :
    move f (Argument.mk key? value) = .mk (move f key?) (move f value) := by
  cases key? <;> rfl

@[simp] theorem Link.move_mk (kind : LinkKind) (safe : Bool) (span : Span) :
    move f (Link.mk kind safe span) = .mk (move f kind) safe (move f span) := rfl

@[simp] theorem CaseValue.move_single : move f (single value) = .single (move f value) := rfl

@[simp] theorem CaseValue.move_range : move f (range start stop) = .range (move f start) (move f stop) := rfl

@[simp] theorem Statement.move_mk (action : Action) (span : Span) :
    move f (Statement.mk action span) = .mk (move f action) (move f span) := rfl

@[simp] theorem Case.move_mk (values? : Option (List CaseValue)) (body : Block) (span : Span) :
    move f (Case.mk values? body span) = .mk (move f values?) (move f body) (move f span) := rfl

@[simp] theorem Declaration.move_mk (item : Item) (span : Span) :
    move f (Declaration.mk item span) = .mk (move f item) (move f span) := rfl

@[simp] theorem Expr.relocate_eq (e : Expr) : e.relocate f = move f e := rfl

@[simp] theorem NewTarget.relocate_eq (target : NewTarget) : target.relocate f = move f target := rfl

@[simp] theorem LocalVar.relocate_eq (var : LocalVar) : var.relocate f = move f var := rfl

@[simp] theorem Block.relocate_eq (block : Block) : block.relocate f = move f block := rfl

@[simp] theorem ProcDefinition.relocate_eq (definition : ProcDefinition) :
    definition.relocate f = move f definition := rfl

@[simp] theorem VarDefinition.relocate_eq (definition : VarDefinition) :
    definition.relocate f = move f definition := rfl

@[simp] theorem moveExpr?_eq : moveExpr? f e? = move f e? := by
  cases e? <;> rfl

@[simp] theorem moveHoles_eq : moveHoles f holes = move f holes := by
  induction holes with
  | nil => rfl
  | cons _ _ ih => rw [moveHoles, ih, moveExpr?_eq]; rfl

@[simp] theorem moveArguments_eq : moveArguments f args = move f args := by
  induction args with
  | nil => rfl
  | cons _ _ ih => rw [moveArguments, ih]; rfl

@[simp] theorem moveArguments?_eq : moveArguments? f args? = move f args? := by
  cases args? with
  | none => rfl
  | some _ => rw [moveArguments?, moveArguments_eq]; rfl

@[simp] theorem moveLinks_eq : moveLinks f links = move f links := by
  induction links with
  | nil => rfl
  | cons _ _ ih => rw [moveLinks, ih]; rfl

@[simp] theorem moveStatements_eq : moveStatements f statements = move f statements := by
  induction statements with
  | nil => rfl
  | cons _ _ ih => rw [moveStatements, ih]; rfl

@[simp] theorem Block.move_mk {span : Span} :
    move f (Block.mk statements span) = .mk (move f statements) (move f span) := by
  show Block.relocate f (.mk statements span) = _
  rw [Block.relocate, moveStatements_eq]
  rfl

@[simp] theorem moveBlock?_eq : moveBlock? f block? = move f block? := by
  cases block? <;> rfl

@[simp] theorem moveCases_eq : moveCases f cases = move f cases := by
  induction cases with
  | nil => rfl
  | cons _ _ ih => rw [moveCases, ih]; rfl

@[simp] theorem map_relocate_localVar (var? : Option LocalVar) : var?.map (LocalVar.relocate f) = move f var? := rfl

@[simp] theorem moveDeclarations_eq : moveDeclarations f declarations = move f declarations := by
  induction declarations with
  | nil => rfl
  | cons _ _ ih => rw [moveDeclarations, ih]; rfl

end Forms

section Stays

/-! Where no place is replaced, a tree stays as it is. -/

theorem Expr.relocate_id : (∀ e : Expr, e.relocate id = e) ∧ (∀ node : Node, node.relocate id = node) ∧
    (∀ args?, moveArguments? id args? = args?) ∧ (∀ args, moveArguments id args = args) ∧
    (∀ arg : Argument, arg.relocate id = arg) ∧ (∀ e?, moveExpr? id e? = e?) ∧
      (∀ links, moveLinks id links = links) ∧
    (∀ link : Link, link.relocate id = link) ∧ (∀ kind : LinkKind, kind.relocate id = kind) ∧
    (∀ target : NewTarget, target.relocate id = target) ∧ ∀ holes, moveHoles id holes = holes := by
  apply Expr.relocate.mutual_induct <;>
    simp_all only [Expr.relocate, Node.relocate, moveArguments?, moveArguments,
      Argument.relocate, moveExpr?, moveLinks,
      Link.relocate, LinkKind.relocate, NewTarget.relocate, moveHoles, id, implies_true]

theorem moveExpr?_id : moveExpr? id e? = e? := Expr.relocate_id.2.2.2.2.2.1 e?

theorem LocalVar.relocate_id (var : LocalVar) : var.relocate id = var := by
  rw [LocalVar.relocate, moveExpr?_id, id]

theorem CaseValue.relocate_id : ∀ value : CaseValue, value.relocate id = value
  | .single value => by rw [relocate, Expr.relocate_id.1]
  | .range start stop => by rw [relocate, Expr.relocate_id.1, Expr.relocate_id.1]

theorem Statement.relocate_id : (∀ statement : Statement, statement.relocate id = statement) ∧
    (∀ action : Action, action.relocate id = action) ∧ (∀ cases, moveCases id cases = cases) ∧
    (∀ case : Case, case.relocate id = case) ∧ (∀ block : Block, block.relocate id = block) ∧
    (∀ statements, moveStatements id statements = statements) ∧ ∀ block?, moveBlock? id block? = block? := by
  have binder : LocalVar.relocate id = id := funext LocalVar.relocate_id
  have values : CaseValue.relocate id = id := funext CaseValue.relocate_id
  apply Statement.relocate.mutual_induct <;>
    simp_all only [Statement.relocate, Action.relocate, moveCases, Case.relocate, Block.relocate, moveStatements,
      moveBlock?, moveExpr?_id, Expr.relocate_id.1, Option.map_id, List.map_id_fun, id, implies_true]

theorem Parameter.relocate_id (parameter : Parameter) : parameter.relocate id = parameter := by
  rw [Parameter.relocate, moveExpr?_id, moveExpr?_id, id]

theorem ProcDefinition.relocate_id (definition : ProcDefinition) : definition.relocate id = definition := by
  rw [ProcDefinition.relocate, funext Parameter.relocate_id, List.map_id', Statement.relocate_id.2.2.2.2.2.2, id]

theorem VarDefinition.relocate_id (definition : VarDefinition) : definition.relocate id = definition := by
  rw [VarDefinition.relocate, moveExpr?_id, id]

theorem Declaration.relocate_id : (∀ declaration : Declaration, declaration.relocate id = declaration) ∧
    (∀ item : Item, item.relocate id = item) ∧
      ∀ declarations, moveDeclarations id declarations = declarations := by
  apply Declaration.relocate.mutual_induct <;>
    simp_all only [Declaration.relocate, Item.relocate, moveDeclarations, ProcDefinition.relocate_id,
      VarDefinition.relocate_id, Expr.relocate_id.1, id, implies_true]

theorem SourceFile.move_id (file : SourceFile) : move id file = file := by
  show (⟨file.declarations.map (Declaration.relocate id), file.span⟩ : SourceFile) = file
  rw [funext Declaration.relocate_id.1, List.map_id']

end Stays

end DreamMaker
