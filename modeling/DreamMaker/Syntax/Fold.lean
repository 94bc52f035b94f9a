import DreamMaker.Syntax.Statement

namespace DreamMaker

namespace Literal

/-- The power of two integers, if it is one of 64 bits. Beyond an exponent of
63 only zero, one and minus one have powers that fit. -/
def power? (a b : Int64) : Option Int64 :=
  let base := a.toInt
  let exponent := b.toInt
  if exponent < 0 || (UInt32.size : Int) ≤ exponent then none
  else if 64 ≤ exponent then
    if base = 0 || base = 1 then some a
    else if base = -1 then some (if exponent % 2 = 0 then 1 else -1)
    else none
  else
    let exact := Int.pow base exponent.toNat
    if Int64.minValue.toInt ≤ exact && exact ≤ Int64.maxValue.toInt then some (Int64.ofInt exact) else none

/-- Operators on two integers that have a value unless they overflow. -/
def foldIntegers (op : BinaryOp) (a b : Int64) : Option Int64 :=
  let shiftable := 0 ≤ b && b < 64
  match op with
  | .add => some (a + b)
  | .sub => some (a - b)
  | .mul => some (a * b)
  | .mod => if b = 0 || (b = -1 && a = Int64.minValue) then none else some (a % b)
  | .leftShift => if shiftable then some (a <<< b) else none
  | .rightShift => if shiftable then some (a >>> b) else none
  | .bitAnd => some (a &&& b)
  | .bitOr => some (a ||| b)
  | .bitXor => some (a ^^^ b)
  | .power => power? a b
  | _ => none

def foldFloats (op : BinaryOp) (a b : Float) : Option Float :=
  match op with
  | .add => some (a + b)
  | .mul => some (a * b)
  | .div => if b == 0 then none else some (a / b)
  | _ => none

/-- The value of an operator on a constant. The complement keeps 24 bits. -/
def foldUnary (op : UnaryOp) (operand : Literal) : Option Literal :=
  match op, operand with
  | .neg, .integer value => some (.integer (-value))
  | .neg, .float value => some (.float (-value))
  | .bitNot, .integer value => some (.integer (~~~value &&& 0xFFFFFF))
  | .not, value => some (.integer (if value.truth then 0 else 1))
  | _, _ => none

/-- The value of an operator on two constants. Division is never done in
integers. -/
def foldPair (op : BinaryOp) (left right : Literal) : Option Literal :=
  match left, right with
  | .integer a, .integer b =>
    if op = .div then (foldFloats op (Decimal.ofInt a.toInt) (Decimal.ofInt b.toInt)).map .float
    else (foldIntegers op a b).map .integer
  | .string a, .string b => if op = .add then some (.string (a ++ b)) else none
  | left, right =>
    match left.number?, right.number? with
    | some a, some b => (foldFloats op a b).map .float
    | _, _ => none

/-- The value of an operator whose operands may be constants. If the left
operand of `&&` or `||` decides, the right one need not be constant. -/
def foldBinary (op : BinaryOp) (left? right? : Option Literal) : Option Literal :=
  left?.bind fun left => match op with
    | .or => if left.truth then some left else right?
    | .and => if left.truth then right? else some left
    | _ => right?.bind fun right => foldPair op left right

end Literal

mutual

def Expr.fold (e : Expr) : Expr :=
  match e with
  | .mk node span => .mk node.fold span

def Node.fold (node : Node) : Node :=
  match node with
  | .literal value => .literal value
  | .search base target => .search base target
  | .name name => .name name
  | .result => .result
  | .declare name type? => .declare name type?
  | .unary op operand =>
    let operand := operand.fold
    match operand.literal?.bind (Literal.foldUnary op) with
    | some value => .literal value
    | none => .unary op operand
  | .binary op left right =>
    let left := left.fold
    let right := right.fold
    match Literal.foldBinary op left.literal? right.literal? with
    | some value => .literal value
    | none => .binary op left right
  | .format text holes => .format text (foldHoles holes)
  | .assign op target value => .assign op target.fold value.fold
  | .ternary condition yes no => .ternary condition.fold yes.fold no.fold
  | .member value container => .member value.fold container.fold
  | .between value start stop step? => .between value.fold start.fold stop.fold (foldOption step?)
  | .new target args => .new target.fold (foldArguments args)
  | .chain base links => .chain base.fold (foldLinks links)
  | .call target args => .call target (foldArguments args)
  | .dynamicCall callee args => .dynamicCall (foldArguments callee) (foldArguments args)
  | .scope base? name none => .scope (foldOption base?) name none
  | .scope base? name (some args) => .scope (foldOption base?) name (some (foldArguments args))
  | .gather function args => .gather function (foldArguments args)
  | .pick choices => .pick (foldArguments choices)
  | .input args types? list? => .input (foldArguments args) types? (foldOption list?)
  | .apply function arg => .apply function arg.fold
  | .applyPair function first second => .applyPair function first.fold second.fold
  | .log value base? => .log value.fold (foldOption base?)
  | .isType value type? => .isType value.fold (foldOption type?)
  | .locate type? container? => .locate (foldOption type?) (foldOption container?)
  | .locateAt x y z => .locateAt x.fold y.fold z.fold

def NewTarget.fold (target : NewTarget) : NewTarget :=
  match target with
  | .path path => .path path
  | .value type => .value type.fold
  | .inferred => .inferred

def Argument.fold (arg : Argument) : Argument :=
  match arg with
  | .mk key? value => .mk (foldOption key?) value.fold

def Link.fold (link : Link) : Link :=
  match link with
  | .mk (.field name searched) safe span => .mk (.field name searched) safe span
  | .mk (.index index) safe span => .mk (.index index.fold) safe span
  | .mk (.call name searched args) safe span => .mk (.call name searched (foldArguments args)) safe span

def foldOption : Option Expr → Option Expr
  | none => none
  | some e => some e.fold

def foldHoles : List (Option Expr) → List (Option Expr)
  | [] => []
  | hole :: rest => foldOption hole :: foldHoles rest

def foldArguments : List Argument → List Argument
  | [] => []
  | arg :: rest => arg.fold :: foldArguments rest

def foldLinks : List Link → List Link
  | [] => []
  | link :: rest => link.fold :: foldLinks rest

end

namespace CaseValue

def fold : CaseValue → CaseValue
  | .single value => .single value.fold
  | .range start stop => .range start.fold stop.fold

end CaseValue

def LocalVar.fold (var : LocalVar) : LocalVar :=
  { var with value? := foldOption var.value? }

mutual

/-- The statement with all its expressions folded. What a loop binds is left
as it is written. -/
def Statement.fold (statement : Statement) : Statement :=
  match statement with
  | .mk action span => .mk action.fold span

def Block.fold (block : Block) : Block :=
  match block with
  | .mk statements span => .mk (foldStatements statements) span

def Action.fold (action : Action) : Action :=
  match action with
  | .expression value => .expression value.fold
  | .declare var => .declare var.fold
  | .group statements => .group (foldStatements statements)
  | .set name value wasIn => .set name value.fold wasIn
  | .return_ value? => .return_ (foldOption value?)
  | .break_ label? => .break_ label?
  | .continue_ label? => .continue_ label?
  | .goto label => .goto label
  | .label name body? => .label name (foldBlock body?)
  | .del value => .del value.fold
  | .throw value => .throw value.fold
  | .if_ condition body else? => .if_ condition.fold body.fold (foldBlock else?)
  | .for_ start? condition? next? body =>
    .for_ (foldOption start?) (foldOption condition?) (foldOption next?) body.fold
  | .forIn binder types? list body => .forIn binder types? list.fold body.fold
  | .forRange binder start stop step? body =>
    .forRange binder start.fold stop.fold (foldOption step?) body.fold
  | .forType binder body => .forType binder body.fold
  | .forever body => .forever body.fold
  | .while_ condition body => .while_ condition.fold body.fold
  | .doWhile body condition => .doWhile body.fold condition.fold
  | .switch value cases => .switch value.fold (foldCases cases)
  | .spawn delay? body => .spawn (foldOption delay?) body.fold
  | .tryCatch body binder? handler? =>
    .tryCatch body.fold (binder?.map LocalVar.fold) (foldBlock handler?)
  | .output receiver message => .output receiver.fold message.fold
  | .input source target => .input source.fold target.fold
  | .transfer kind receiver first second => .transfer kind receiver.fold first.fold second.fold
  | .link receiver url => .link receiver.fold url.fold

def Case.fold (case : Case) : Case :=
  match case with
  | .mk values? body span => .mk (values?.map fun values => values.map CaseValue.fold) body.fold span

def foldStatements : List Statement → List Statement
  | [] => []
  | statement :: rest => statement.fold :: foldStatements rest

def foldBlock : Option Block → Option Block
  | none => none
  | some block => some block.fold

def foldCases : List Case → List Case
  | [] => []
  | case :: rest => case.fold :: foldCases rest

end

def Parameter.fold (parameter : Parameter) : Parameter :=
  { parameter with
    default? := foldOption parameter.default?
    choices? := foldOption parameter.choices? }

def ProcDefinition.fold (definition : ProcDefinition) : ProcDefinition :=
  { definition with
    parameters := definition.parameters.map Parameter.fold
    body? := foldBlock definition.body? }

mutual

def Declaration.fold (declaration : Declaration) : Declaration :=
  match declaration with
  | .mk (.object path body) span => .mk (.object path (foldDeclarations body)) span
  | .mk (.group declarations) span => .mk (.group (foldDeclarations declarations)) span
  | .mk (.proc definition) span => .mk (.proc definition.fold) span
  | .mk (.var definition) span =>
    .mk (.var { definition with value? := foldOption definition.value? }) span
  | .mk (.override owner name value) span => .mk (.override owner name value.fold) span

def foldDeclarations : List Declaration → List Declaration
  | [] => []
  | declaration :: rest => declaration.fold :: foldDeclarations rest

end

def SourceFile.fold (file : SourceFile) : SourceFile :=
  { file with declarations := foldDeclarations file.declarations }

end DreamMaker
