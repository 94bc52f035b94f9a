import DreamMaker.Decimal.Nearest
import DreamMaker.Token.Basic

namespace DreamMaker.Token

/-- The value of a number: infinity and no number have spellings of their
own, a number of 32 bits in hexadecimal or decimal is an integer, and whatever
else reads as a double is a float. -/
def numberValue? (text : String) : Option Value :=
  if text = "1.#INF" || text = "1#INF" then some (.float Decimal.infinity)
  else if text = "1.#IND" || text = "1#IND" then some (.float Decimal.notANumber)
  else
    let cs := text.toList
    let hexadecimal? := match cs with
      | '0' :: 'x' :: digits => Decimal.readInt32? 16 digits
      | _ => none
    match hexadecimal?.or (Decimal.readInt32? 10 cs) with
    | some n => some (.integer n)
    | none => (Decimal.readFloat? cs).map .float

end DreamMaker.Token
