namespace DreamMaker

inductive Severity where
  | note
  | warning
  | error
deriving DecidableEq, Repr, Inhabited

def Severity.render : Severity → String
  | .note => "note"
  | .warning => "warning"
  | .error => "error"

/-- Codes of the problems that are reported. Codes below 1000 are errors
whatever the configuration says. -/
inductive Code where
  | unknown
  | badToken
  | badExpression
  | missingExpression
  | invalidArgumentCount
  | invalidVarDefinition
  | missingBody
  | badLabel
  | invalidReference
  | badArgument
  | invalidArgumentKey
  | itemDoesntExist
  | hardConstContext
  | writeToConstant
  | duplicateVariable
  | malformedRange
  | invalidRange
  | invalidSetStatement
  | missingInterpolatedExpression
  | unimplementedAccess
  | emptyBlock
  | emptyProc
  | unreachableCode
  | suspiciousSwitchCase
  | assignmentInConditional
  | pickWeightedSyntax
  | extraToken
  | recovery
deriving DecidableEq, Repr, Inhabited

namespace Code

def all : List Code :=
  [.unknown, .badToken, .badExpression, .missingExpression, .invalidArgumentCount,
    .invalidVarDefinition, .missingBody, .badLabel, .invalidReference, .badArgument,
    .invalidArgumentKey, .itemDoesntExist, .hardConstContext, .writeToConstant, .duplicateVariable,
    .malformedRange, .invalidRange, .invalidSetStatement, .missingInterpolatedExpression,
    .unimplementedAccess, .emptyBlock, .emptyProc, .unreachableCode, .suspiciousSwitchCase,
    .assignmentInConditional, .pickWeightedSyntax, .extraToken, .recovery]

def number : Code → Nat
  | .unknown => 0
  | .badToken => 1
  | .badExpression => 11
  | .missingExpression => 12
  | .invalidArgumentCount => 13
  | .invalidVarDefinition => 14
  | .missingBody => 15
  | .badLabel => 19
  | .invalidReference => 50
  | .badArgument => 100
  | .invalidArgumentKey => 101
  | .itemDoesntExist => 404
  | .hardConstContext => 500
  | .writeToConstant => 501
  | .duplicateVariable => 2100
  | .malformedRange => 2300
  | .invalidRange => 2301
  | .invalidSetStatement => 2302
  | .missingInterpolatedExpression => 2500
  | .unimplementedAccess => 2800
  | .emptyBlock => 3100
  | .emptyProc => 3101
  | .unreachableCode => 3102
  | .suspiciousSwitchCase => 3201
  | .assignmentInConditional => 3202
  | .pickWeightedSyntax => 3203
  | .extraToken => 3205
  | .recovery => 3206

def title : Code → String
  | .unknown => "Unknown"
  | .badToken => "BadToken"
  | .badExpression => "BadExpression"
  | .missingExpression => "MissingExpression"
  | .invalidArgumentCount => "InvalidArgumentCount"
  | .invalidVarDefinition => "InvalidVarDefinition"
  | .missingBody => "MissingBody"
  | .badLabel => "BadLabel"
  | .invalidReference => "InvalidReference"
  | .badArgument => "BadArgument"
  | .invalidArgumentKey => "InvalidArgumentKey"
  | .itemDoesntExist => "ItemDoesntExist"
  | .hardConstContext => "HardConstContext"
  | .writeToConstant => "WriteToConstant"
  | .duplicateVariable => "DuplicateVariable"
  | .malformedRange => "MalformedRange"
  | .invalidRange => "InvalidRange"
  | .invalidSetStatement => "InvalidSetStatement"
  | .missingInterpolatedExpression => "MissingInterpolatedExpression"
  | .unimplementedAccess => "UnimplementedAccess"
  | .emptyBlock => "EmptyBlock"
  | .emptyProc => "EmptyProc"
  | .unreachableCode => "UnreachableCode"
  | .suspiciousSwitchCase => "SuspiciousSwitchCase"
  | .assignmentInConditional => "AssignmentInConditional"
  | .pickWeightedSyntax => "PickWeightedSyntax"
  | .extraToken => "ExtraToken"
  | .recovery => "ParserRecovery"

def isForced (code : Code) : Bool :=
  code.number < 1000

def severity (code : Code) : Severity :=
  if code.isForced then .error
  else
    match code with
    | .invalidSetStatement | .invalidRange => .error
    | .emptyProc | .recovery => .note
    | _ => .warning

def render (code : Code) : String :=
  let digits := toString code.number
  "OD" ++ String.ofList (List.replicate (4 - digits.length) '0') ++ digits

def ofNumber? (number : Nat) : Option Code :=
  all.find? fun code => code.number == number

/-- A decimal number below `2 ^ 32` with at most a plus sign before it. -/
def readNumber? (cs : List Char) : Option Nat :=
  let digits := match cs with
    | '+' :: rest => rest
    | _ => cs
  if digits.isEmpty || !digits.all Char.isDigit then none
  else
    let value := digits.foldl (fun n c => 10 * n + (c.toNat - 48)) 0
    if value < UInt32.size then some value else none

def sameWord (a b : List Char) : Bool :=
  a.map Char.toLower == b.map Char.toLower

/-- Reads a code given as `3100`, `OD3100` or `EmptyBlock`. -/
def read? (text : String) : Option Code :=
  let cs := text.toList
  let digits := match cs with
    | 'O' :: 'D' :: rest => rest
    | _ => cs
  match readNumber? digits with
  | some number => ofNumber? number
  | none => all.find? fun code => sameWord code.title.toList cs

def unknownText (text : String) : String :=
  s!"unknown diagnostic code {text}"

end Code

end DreamMaker
