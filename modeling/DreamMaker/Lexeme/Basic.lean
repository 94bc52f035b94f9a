import DreamMaker.Source.Span

namespace DreamMaker

/-- What a lexeme is. Brackets and the marks that layout or longer symbols
are made of have kinds of their own; any other mark is a punctuator. -/
inductive Lexeme.Kind
  | blank
  | newline
  | punctuator
  | leftParen
  | rightParen
  | leftBracket
  | rightBracket
  | comma
  | colon
  | question
  | period
  | semicolon
  | word
  | number
  | quoted
  | quotedBegin
  | quotedMiddle
  | quotedEnd
  | invalid
  | endOfText
deriving DecidableEq, Repr, Inhabited

/-- A piece of text with its place. Quoted text carries its body and invalid
text the complaint about it as a value. -/
structure Lexeme where
  kind : Lexeme.Kind
  text : String
  value? : Option String := none
  span : Span
deriving DecidableEq, Repr, Inhabited

end DreamMaker
