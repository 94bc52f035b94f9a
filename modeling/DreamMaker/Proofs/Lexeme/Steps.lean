import DreamMaker.Lexeme.Scan

/-!
What one step of the scanner can do. The lexemes of a text are what its steps find, one behind another.
-/

namespace DreamMaker.Lexeme

open List

variable {c : Char} {cs : List Char} {kind : Kind} {text : String} {value? : Option String}

/-- Kinds of lexeme that stand between others. -/
def Kind.isLayout : Kind → Bool
  | .blank | .newline | .endOfText => true
  | _ => false

/-- How the marks are written that longer symbols are made of. -/
def Kind.spelling? : Kind → Option String
  | .leftBracket => some "["
  | .colon => some ":"
  | .question => some "?"
  | .period => some "."
  | _ => none

def opensComment (c : Char) (cs : List Char) : Bool := c = '/' && (cs.head? = some '/' || cs.head? = some '*')

/-- A backslash joins this line to the next. -/
def joinsLines (c : Char) (cs : List Char) : Bool := c = '\\' && atLineEnd cs

/-- Where text in quotes starts, so many characters ahead, and what is read of it. -/
inductive Quotes (c : Char) (cs : List Char) : Nat → Body → Prop
  | long (brace : c = '{') (quote : cs.head? = some '"') : Quotes c cs 1 (stringBody '"' true cs.tail)
  | short (quote : c = '"' ∨ c = '\'') : Quotes c cs 0 (stringBody c false cs)
  | raw (mark : c = '@') : Quotes c cs 0 (rawBody cs)

/-- The steps that there are at a character. -/
inductive Finds (lineStart : Bool) (c : Char) (cs : List Char) : Step → Prop
  | gap (gap : isGap c = true) : Finds lineStart c cs (gapStep lineStart c cs)
  | skip (more : Nat) (other : (endsLine c || opensComment c cs || joinsLines c cs) = true) :
    Finds lineStart c cs (.skip more)
  | newline (more : Nat) (ends : endsLine c = true) (inside : lineStart = false) :
    Finds lineStart c cs ⟨more, some (.newline, "\n", none)⟩
  | invalid (more : Nat) (complaint : String) : Finds lineStart c cs (.invalid c cs more complaint)
  | symbol : Finds lineStart c cs (.mark .punctuator c cs (symbolTail c cs))
  | number (digit : c.isDigit = true) (good : (numberTail c cs).2 = true) :
    Finds lineStart c cs (.mark .number c cs (numberTail c cs).1)
  | word (starts : Text.startsWord c = true) :
    Finds lineStart c cs (.mark .word c cs (cs.takeWhile Text.continuesWord).length)
  | quoted {ahead : Nat} {body : Body} (quotes : Quotes c cs ahead body) (complete : body.complaint? = none) :
    Finds lineStart c cs (.found .quoted c cs (ahead + body.length) (some (String.ofList body.value)))
  | mark {kind : Kind} {more : Nat} (marked : mark? c cs = some (kind, more)) : Finds lineStart c cs
    (.mark kind c cs more)

theorem Quotes.finds (quotes : Quotes c cs ahead body) : Finds lineStart c cs (.quoted c cs ahead body) := by
  unfold Step.quoted
  split
  · next complete => exact .quoted quotes complete
  · exact .invalid _ _

theorem markStep_finds : Finds lineStart c cs (markStep c cs) := by
  unfold markStep
  split
  · next long =>
    obtain ⟨brace, quote⟩ : c = '{' ∧ cs.head? = some '"' := by simpa using long
    exact (Quotes.long brace quote).finds
  split
  · next quote => exact (Quotes.short (by simpa using quote)).finds
  split
  · next mark => exact (Quotes.raw mark).finds
  split
  · next marked => exact .mark marked
  · exact .invalid _ _

theorem step_finds (lineStart : Bool) (c : Char) (cs : List Char) : Finds lineStart c cs (step lineStart c cs) := by
  unfold step
  split
  · next gap => exact .gap gap
  split
  · next ends =>
    cases lineStart with
    | true => exact .skip _ (by simp [ends])
    | false => exact .newline _ ends rfl
  split
  · next comment =>
    split
    · exact .invalid _ _
    · exact .skip _ (by simp [opensComment, comment])
  split
  · next joins => exact .skip _ (by simp [joinsLines, joins])
  split
  · exact .invalid _ _
  split
  · exact .symbol
  split
  · next digit =>
    dsimp only
    split
    · next good => exact .number digit good
    · exact .invalid _ _
  split
  · next starts => exact .word starts
  · exact markStep_finds

theorem kind_of_mark? (marked : mark? c cs = some (kind, more)) : kind.isLayout = false ∧ kind ≠ .quoted ∧
    (kind ≠ .word ∧ kind ≠ .number) ∧ ∀ text ∈ kind.spelling?, String.ofList
      (c :: cs.take more) = text := by
  unfold mark? at marked
  split at marked
  case h_10 | h_11 => split at marked <;> cases marked <;> simp [Kind.isLayout, Kind.spelling?]
  all_goals cases marked <;> simp [Kind.isLayout, Kind.spelling?]

theorem kind_of_gapStep (found : (gapStep lineStart c cs).found? = some (kind, text, value?)) :
    kind = .blank ∨ kind = .invalid := by
  unfold gapStep at found
  dsimp only at found
  split at found
  · split at found
    · cases found
      exact .inr rfl
    · split at found <;> cases found
      exact .inl rfl
  · cases found
    exact .inl rfl

theorem scanFrom_taken (origin : Origin) (place : Position) (lineStart : Bool) (front rest : List Char) :
    scanFrom origin front.length place lineStart (front ++ rest) = scanFrom origin 0 place lineStart rest := by
  induction front with
  | nil => rfl
  | cons _ front ih => exact ih

/-- Every text ends with the end of it, and each lexeme before that is what some step finds. -/
theorem scanFrom_found (origin : Origin) (taken : Nat) (place : Position) (lineStart : Bool) (cs : List Char) :
    ∃ front last, scanFrom origin taken place lineStart cs = front ++ [last] ∧ last.kind = .endOfText ∧
      ∀ l ∈ front, ∃ lineStart c cs, (step lineStart c cs).found? = some (l.kind, l.text, l.value?) := by
  induction cs generalizing taken place lineStart with
  | nil => exact ⟨[], _, rfl, rfl, by simp⟩
  | cons c cs ih =>
    cases taken with
    | succ taken => exact ih taken place lineStart
    | zero =>
      rw [scanFrom]
      split
      · exact ih _ _ _
      next kind text value? found =>
      obtain ⟨front, last, scanned, ends, steps⟩ := ih (step lineStart c cs).more
        (place.afterAll (c :: cs.take (step lineStart c cs).more)) (kind = .newline)
      refine ⟨_ :: front, last, congrArg (_ :: ·) scanned, ends, forall_mem_cons.mpr ⟨?_, steps⟩⟩
      exact ⟨lineStart, c, cs, found⟩

end DreamMaker.Lexeme
