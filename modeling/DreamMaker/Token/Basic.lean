import DreamMaker.Source.Span

namespace DreamMaker

inductive Keyword
  | null
  | break_
  | continue_
  | if_
  | else_
  | for_
  | switch
  | while_
  | do_
  | var
  | proc
  | new
  | del
  | return_
  | in_
  | to
  | as
  | set
  | call
  | spawn
  | goto
  | step
  | try_
  | catch_
  | throw
deriving DecidableEq, Repr, Inhabited

namespace Keyword

/-- The spelling of a keyword, and its main spelling if it has two. -/
def word : Keyword → String
  | .null => "null"
  | .break_ => "break"
  | .continue_ => "continue"
  | .if_ => "if"
  | .else_ => "else"
  | .for_ => "for"
  | .switch => "switch"
  | .while_ => "while"
  | .do_ => "do"
  | .var => "var"
  | .proc => "proc"
  | .new => "new"
  | .del => "del"
  | .return_ => "return"
  | .in_ => "in"
  | .to => "to"
  | .as => "as"
  | .set => "set"
  | .call => "call"
  | .spawn => "spawn"
  | .goto => "goto"
  | .step => "step"
  | .try_ => "try"
  | .catch_ => "catch"
  | .throw => "throw"

def ofWord? : String → Option Keyword
  | "null" => some .null
  | "break" => some .break_
  | "continue" => some .continue_
  | "if" => some .if_
  | "else" => some .else_
  | "for" => some .for_
  | "switch" => some .switch
  | "while" => some .while_
  | "do" => some .do_
  | "var" => some .var
  | "proc" => some .proc
  | "new" => some .new
  | "del" => some .del
  | "return" => some .return_
  | "in" => some .in_
  | "to" => some .to
  | "as" => some .as
  | "set" => some .set
  | "call" => some .call
  | "call_ext" => some .call
  | "spawn" => some .spawn
  | "goto" => some .goto
  | "step" => some .step
  | "try" => some .try_
  | "catch" => some .catch_
  | "throw" => some .throw
  | _ => none

end Keyword

inductive Symbol
  | plus
  | plusPlus
  | plusEquals
  | minus
  | minusMinus
  | minusEquals
  | star
  | starStar
  | starEquals
  | slash
  | slashEquals
  | percent
  | percentEquals
  | percentPercent
  | percentPercentEquals
  | equalsEquals
  | notEquals
  | tildeEquals
  | tildeNot
  | less
  | lessEquals
  | greater
  | greaterEquals
  | not
  | tilde
  | and
  | andAnd
  | andEquals
  | andAndEquals
  | bar
  | barBar
  | barEquals
  | barBarEquals
  | caret
  | caretEquals
  | lessLess
  | lessLessEquals
  | greaterGreater
  | greaterGreaterEquals
  | equals
  | colonEquals
  | leftParen
  | rightParen
  | leftBracket
  | rightBracket
  | leftBrace
  | rightBrace
  | brackets
  | bracketsEquals
  | comma
  | semicolon
  | colon
  | colonColon
  | period
  | periodPeriod
  | ellipsis
  | question
  | questionPeriod
  | questionColon
  | questionBracket
deriving DecidableEq, Repr, Inhabited

namespace Symbol

/-- The spelling of a symbol, and its main spelling if it has two. -/
def text : Symbol → String
  | .plus => "+"
  | .plusPlus => "++"
  | .plusEquals => "+="
  | .minus => "-"
  | .minusMinus => "--"
  | .minusEquals => "-="
  | .star => "*"
  | .starStar => "**"
  | .starEquals => "*="
  | .slash => "/"
  | .slashEquals => "/="
  | .percent => "%"
  | .percentEquals => "%="
  | .percentPercent => "%%"
  | .percentPercentEquals => "%%="
  | .equalsEquals => "=="
  | .notEquals => "!="
  | .tildeEquals => "~="
  | .tildeNot => "~!"
  | .less => "<"
  | .lessEquals => "<="
  | .greater => ">"
  | .greaterEquals => ">="
  | .not => "!"
  | .tilde => "~"
  | .and => "&"
  | .andAnd => "&&"
  | .andEquals => "&="
  | .andAndEquals => "&&="
  | .bar => "|"
  | .barBar => "||"
  | .barEquals => "|="
  | .barBarEquals => "||="
  | .caret => "^"
  | .caretEquals => "^="
  | .lessLess => "<<"
  | .lessLessEquals => "<<="
  | .greaterGreater => ">>"
  | .greaterGreaterEquals => ">>="
  | .equals => "="
  | .colonEquals => ":="
  | .leftParen => "("
  | .rightParen => ")"
  | .leftBracket => "["
  | .rightBracket => "]"
  | .leftBrace => "\x7b"
  | .rightBrace => "\x7d"
  | .brackets => "[]"
  | .bracketsEquals => "[]="
  | .comma => ","
  | .semicolon => ";"
  | .colon => ":"
  | .colonColon => "::"
  | .period => "."
  | .periodPeriod => ".."
  | .ellipsis => "..."
  | .question => "?"
  | .questionPeriod => "?."
  | .questionColon => "?:"
  | .questionBracket => "?["

def label : Symbol → String
  | .plus => "Plus"
  | .plusPlus => "PlusPlus"
  | .plusEquals => "PlusEquals"
  | .minus => "Minus"
  | .minusMinus => "MinusMinus"
  | .minusEquals => "MinusEquals"
  | .star => "Star"
  | .starStar => "StarStar"
  | .starEquals => "StarEquals"
  | .slash => "Slash"
  | .slashEquals => "SlashEquals"
  | .percent => "Modulus"
  | .percentEquals => "ModulusEquals"
  | .percentPercent => "ModulusModulus"
  | .percentPercentEquals => "ModulusModulusEquals"
  | .equalsEquals => "EqualsEquals"
  | .notEquals => "ExclamationEquals"
  | .tildeEquals => "TildeEquals"
  | .tildeNot => "TildeExclamation"
  | .less => "LessThan"
  | .lessEquals => "LessThanEquals"
  | .greater => "GreaterThan"
  | .greaterEquals => "GreaterThanEquals"
  | .not => "Exclamation"
  | .tilde => "Tilde"
  | .and => "And"
  | .andAnd => "AndAnd"
  | .andEquals => "AndEquals"
  | .andAndEquals => "AndAndEquals"
  | .bar => "Bar"
  | .barBar => "BarBar"
  | .barEquals => "BarEquals"
  | .barBarEquals => "BarBarEquals"
  | .caret => "Xor"
  | .caretEquals => "XorEquals"
  | .lessLess => "LeftShift"
  | .lessLessEquals => "LeftShiftEquals"
  | .greaterGreater => "RightShift"
  | .greaterGreaterEquals => "RightShiftEquals"
  | .equals => "Equals"
  | .colonEquals => "AssignInto"
  | .leftParen => "LeftParen"
  | .rightParen => "RightParen"
  | .leftBracket => "LeftBracket"
  | .rightBracket => "RightBracket"
  | .leftBrace => "LeftCurly"
  | .rightBrace => "RightCurly"
  | .brackets => "DoubleSquareBracket"
  | .bracketsEquals => "DoubleSquareBracketEquals"
  | .comma => "Comma"
  | .semicolon => "Semicolon"
  | .colon => "Colon"
  | .colonColon => "DoubleColon"
  | .period => "Period"
  | .periodPeriod => "SuperProc"
  | .ellipsis => "IndeterminateArgs"
  | .question => "Question"
  | .questionPeriod => "QuestionPeriod"
  | .questionColon => "QuestionColon"
  | .questionBracket => "QuestionLeftBracket"

/-- The symbol that a punctuator spells. Brackets and the marks with
lexemes of their own are not punctuators. -/
def ofPunctuator? : String → Option Symbol
  | "+" => some .plus
  | "++" => some .plusPlus
  | "+=" => some .plusEquals
  | "-" => some .minus
  | "--" => some .minusMinus
  | "-=" => some .minusEquals
  | "*" => some .star
  | "**" => some .starStar
  | "*=" => some .starEquals
  | "/" => some .slash
  | "/=" => some .slashEquals
  | "%" => some .percent
  | "%=" => some .percentEquals
  | "%%" => some .percentPercent
  | "%%=" => some .percentPercentEquals
  | "==" => some .equalsEquals
  | "!=" => some .notEquals
  | "<>" => some .notEquals
  | "~=" => some .tildeEquals
  | "~!" => some .tildeNot
  | "<" => some .less
  | "<=" => some .lessEquals
  | ">" => some .greater
  | ">=" => some .greaterEquals
  | "!" => some .not
  | "~" => some .tilde
  | "&" => some .and
  | "&&" => some .andAnd
  | "&=" => some .andEquals
  | "&&=" => some .andAndEquals
  | "|" => some .bar
  | "||" => some .barBar
  | "|=" => some .barEquals
  | "||=" => some .barBarEquals
  | "^" => some .caret
  | "^=" => some .caretEquals
  | "<<" => some .lessLess
  | "<<=" => some .lessLessEquals
  | ">>" => some .greaterGreater
  | ">>=" => some .greaterGreaterEquals
  | "=" => some .equals
  | ":=" => some .colonEquals
  | "\x7b" => some .leftBrace
  | "\x7d" => some .rightBrace
  | "[]" => some .brackets
  | "[]=" => some .bracketsEquals
  | "::" => some .colonColon
  | _ => none

def isAssignment : Symbol → Bool
  | .equals | .plusEquals | .minusEquals | .starEquals | .slashEquals | .percentEquals
  | .percentPercentEquals | .barEquals | .barBarEquals | .andEquals | .andAndEquals
  | .caretEquals | .lessLessEquals | .greaterGreaterEquals | .colonEquals => true
  | _ => false

end Symbol

/-- What a token is. Layout tokens stand for the lines and their indentation. -/
inductive Token.Kind
  | indent
  | dedent
  | newline
  | endOfFile
  | invalid
  | integer
  | float
  | string
  | resource
  | rawString
  | stringBegin
  | stringMiddle
  | stringEnd
  | identifier
  | keyword (keyword : Keyword)
  | symbol (symbol : Symbol)
deriving DecidableEq, Repr, Inhabited

namespace Token.Kind

def name : Kind → String
  | .indent => "indent"
  | .dedent => "dedent"
  | .newline => "newline"
  | .endOfFile => "end of file"
  | .invalid => "error"
  | .integer => "integer"
  | .float => "float"
  | .string | .stringBegin | .stringMiddle | .stringEnd => "string"
  | .resource => "resource"
  | .rawString => "raw string"
  | .identifier => "identifier"
  | .keyword k => k.word
  | .symbol s => s.text

def label : Kind → String
  | .indent => "Indent"
  | .dedent => "Dedent"
  | .newline => "Newline"
  | .endOfFile => "Eof"
  | .invalid => "Error"
  | .integer => "Integer"
  | .float => "Float"
  | .string => "String"
  | .resource => "Resource"
  | .rawString => "RawString"
  | .stringBegin => "StringBegin"
  | .stringMiddle => "StringMiddle"
  | .stringEnd => "StringEnd"
  | .identifier => "Identifier"
  | .keyword k => k.word.capitalize
  | .symbol s => s.label

def isKeyword : Kind → Bool
  | .keyword _ => true
  | _ => false

def isAssignment : Kind → Bool
  | .symbol s => s.isAssignment
  | _ => false

def endsStatement : Kind → Bool
  | .newline | .dedent | .endOfFile | .symbol .semicolon | .symbol .rightBrace => true
  | _ => false

end Token.Kind

/-- What a token says besides its kind: the value of a literal, the
indentation of the line that a newline starts, the body of a string or a complaint. -/
inductive Token.Value
  | none
  | integer (value : Int)
  | float (value : Float)
  | text (value : String)
deriving Repr, Inhabited

/-- A token with its place. `spaced` tells that blanks stand before it. -/
structure Token where
  kind : Token.Kind
  span : Span
  text : String
  value : Token.Value := .none
  spaced : Bool := false
deriving Repr, Inhabited

namespace Token

/-- Indentation of the line that a newline starts. The newline before a
closing brace starts none. -/
def lineIndentation? (token : Token) : Option Nat :=
  match token.kind, token.value with
  | .newline, .integer level => if 0 ≤ level then some level.toNat else Option.none
  | _, _ => Option.none

def textValue (token : Token) : String :=
  match token.value with
  | .text value => value
  | _ => ""

def isEnd (token : Token) : Bool :=
  token.kind = .endOfFile

def render (token : Token) : String :=
  s!"{token.kind.label}({token.text})"

end Token

end DreamMaker
