namespace DreamMaker.Lexeme

def isGap (c : Char) : Bool :=
  c = ' ' || c = '\t'

def endsLine (c : Char) : Bool :=
  c = '\n' || c = '\r'

def atLineEnd : List Char → Bool
  | [] => false
  | c :: _ => endsLine c

/-- Length of the line ending that a text starts with: a line feed, or a run
of carriage returns and at most one line feed. -/
def lineEndLength : List Char → Nat
  | '\r' :: cs => match cs with
    | '\n' :: _ => 2
    | _ => 1 + if cs.head? = some '\r' then lineEndLength cs else 0
  | '\n' :: _ => 1
  | _ => 0

inductive Remark
  | outside
  /-- In a comment that ends with its line. `joined` tells that the line end
  here belongs to a backslash, and `returns` that some of it has been read. -/
  | line (joined returns : Bool)
  /-- In a block comment with `outer` more around it; `inLine` hides marks up
  to the end of the line. -/
  | block (outer : Nat) (inLine : Bool)

/-- Length of the comments that a text starts with, with the gaps behind
block comments; nothing if a block comment does not end. -/
def remarkLength? : Remark → List Char → Option Nat
  | .block _ _, [] => none
  | _, [] => some 0
  | .outside, c :: cs =>
    if isGap c then (remarkLength? .outside cs).map (· + 1)
    else match c, cs with
      | '/', '/' :: cs => (remarkLength? (.line false false) cs).map (· + 2)
      | '/', '*' :: cs => (remarkLength? (.block 0 false) cs).map (· + 2)
      | _, _ => some 0
  | .line joined returns, c :: cs =>
    if c = '\n' then
      if joined || returns then (remarkLength? (.line false false) cs).map (· + 1) else some 0
    else if c = '\r' then
      if joined || returns then (remarkLength? (.line false true) cs).map (· + 1) else some 0
    else (remarkLength? (.line (c = '\\') false) cs).map (· + 1)
  | .block outer true, c :: cs =>
    (remarkLength? (.block outer (!endsLine c)) cs).map (· + 1)
  | .block outer false, c :: cs =>
    match c, cs with
    | '*', '/' :: cs => match outer with
      | 0 => (remarkLength? .outside cs).map (· + 2)
      | outer + 1 => (remarkLength? (.block outer false) cs).map (· + 2)
    | '/', '*' :: cs => (remarkLength? (.block (outer + 1) false) cs).map (· + 2)
    | '/', '/' :: cs => (remarkLength? (.block outer true) cs).map (· + 2)
    | _, cs => (remarkLength? (.block outer false) cs).map (· + 1)

def commentsLength? (cs : List Char) : Option Nat :=
  remarkLength? .outside cs

end DreamMaker.Lexeme
