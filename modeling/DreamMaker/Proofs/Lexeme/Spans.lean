import DreamMaker.Lexeme.Scan
import DreamMaker.Source.Lines

/-!
Where the lexemes of a file stand. Each one covers a piece of the text, behind the one before it, and its place is
that of the line in which it is found.
-/

namespace DreamMaker

open List

/-- The number of bytes of some characters. -/
def bytes (cs : List Char) : Nat := (String.ofList cs).utf8ByteSize

theorem bytes_append (ds : List Char) : bytes (cs ++ ds) = bytes cs + bytes ds := by
  rw [bytes, String.ofList_append, String.utf8ByteSize_append, bytes, bytes]

/-- The place behind these characters: a line further for each line feed, and a column for each character behind
the last. -/
def Position.behind (front : List Char) : Position where
  line := 1 + front.count '\n'
  column := 1 + (front.reverse.takeWhile (· ≠ '\n')).length
  offset := bytes front

namespace Position

theorem after_behind : (behind front).after c = behind (front ++ [c]) := by
  have size : bytes (front ++ [c]) = bytes front + c.utf8Size := by
    simp [bytes]
  unfold after behind
  rw [size]
  by_cases feed : c = '\n' <;> simp [feed, Nat.add_comm]

theorem afterAll_behind : (behind front).afterAll more = behind (front ++ more) := by
  induction more generalizing front with
  | nil => simp [afterAll]
  | cons c more ih =>
    have step : (behind front).afterAll (c :: more) = ((behind front).after c).afterAll more := rfl
    rw [step, after_behind, ih, append_assoc]
    rfl

end Position

namespace Lexeme

/-- A lexeme covers a piece of a text. -/
def Covers (id : Nat) (text : List Char) (l : Lexeme) : Prop :=
  ∃ front piece rest, text = front ++ piece ++ rest ∧ l.span = ⟨id, .behind front, .behind (front ++ piece)⟩

/-- Lexemes that cover pieces of a text one behind another, from here to the end. -/
structure Laid (id : Nat) (text : List Char) (start : Nat) (lexemes : List Lexeme) : Prop where
  covers : ∀ l ∈ lexemes, l.Covers id text
  starts : ∀ l ∈ lexemes, start ≤ l.span.start.offset
  ordered : lexemes.Pairwise fun l next => l.span.stop.offset ≤ next.span.start.offset
  ends : ∃ before, lexemes = before ++ [⟨.endOfText, "", none, ⟨id, .behind text, .behind text⟩⟩]

/-- The induction is on the text that is left. `front` and the characters taken have been passed. -/
theorem scanFrom_laid (id taken : Nat) (lineStart : Bool) (front cs : List Char) :
    Laid id (front ++ cs) (bytes (front ++ cs.take taken))
      (scanFrom (.file id) taken (.behind (front ++ cs.take taken)) lineStart cs) := by
  induction cs generalizing front taken lineStart with
  | nil =>
    rw [take_nil]
    refine ⟨?_, ?_, pairwise_singleton _ _, [], rfl⟩
    · exact forall_mem_singleton.2 ⟨front, [], [], by simp, by simp [Origin.span]⟩
    · exact forall_mem_singleton.2 (Nat.le_refl _)
  | cons c cs ih =>
    have passed (n : Nat) : front ++ c :: cs.take n = (front ++ [c]) ++ cs.take n := by simp
    have text : front ++ c :: cs = (front ++ [c]) ++ cs := by simp
    cases taken with
    | succ taken =>
      rw [take_succ_cons, passed, text]
      exact ih taken lineStart (front ++ [c])
    | zero =>
      rw [take_zero, append_nil, scanFrom, Position.afterAll_behind, passed, text]
      generalize (step lineStart c cs).more = more
      have further : bytes front ≤ bytes ((front ++ [c]) ++ cs.take more) := by
        rw [append_assoc, bytes_append]
        exact Nat.le_add_right _ _
      cases (step lineStart c cs).found? with
      | none =>
        have laid := ih more lineStart (front ++ [c])
        exact { laid with starts := fun l member => Nat.le_trans further (laid.starts l member) }
      | some found =>
        obtain ⟨kind, _, _⟩ := found
        have laid := ih more (kind = .newline) (front ++ [c])
        obtain ⟨before, ends⟩ := laid.ends
        refine ⟨forall_mem_cons.2 ⟨?_, laid.covers⟩, forall_mem_cons.2 ⟨Nat.le_refl _, ?_⟩,
          pairwise_cons.2 ⟨laid.starts, laid.ordered⟩, _ :: before, congrArg (_ :: ·) ends⟩
        · exact ⟨front, c :: cs.take more, cs.drop more, by simp, by simp [Origin.span]⟩
        · exact fun l member => Nat.le_trans further (laid.starts l member)

end Lexeme

namespace Lines

/-- Lines with the line feeds that end them. -/
def joined (lines : List (List Char)) : List Char := lines.flatMap (· ++ ['\n'])

/-- The characters before a place are the lines above it and the start of the line in which it lies. -/
theorem split_append : ∃ above begun left below,
    split (front ++ rest) = above ++ (begun ++ left) :: below ∧ front = joined above ++ begun ∧
      front.count '\n' = above.length := by
  induction front with
  | nil =>
    have some_line : split rest ≠ [] := by
      cases rest with
      | nil => simp [split]
      | cons c rest =>
        unfold split
        split
        · simp
        · split <;> simp
    obtain ⟨line, below, lines⟩ := exists_cons_of_ne_nil some_line
    exact ⟨[], [], line, below, lines, rfl, rfl⟩
  | cons c front ih =>
    obtain ⟨above, begun, left, below, lines, parts, count⟩ := ih
    rw [cons_append, split]
    by_cases feed : c = '\n'
    · refine ⟨[] :: above, begun, left, below, ?_, ?_, ?_⟩
      · rw [if_pos feed, lines]
        rfl
      · rw [parts, feed]
        rfl
      · simp [feed, count]
    · rw [if_neg feed, lines, count_cons_of_ne feed]
      cases above with
      | nil => exact ⟨[], c :: begun, left, below, rfl, by rw [parts]; rfl, count⟩
      | cons line above => exact ⟨(c :: line) :: above, begun, left, below, rfl, by rw [parts]; rfl, count⟩

/-- There is a line of this number, with this offset among its bytes and those of its line feed. -/
def Around (source : Lines) (place : Position) : Prop :=
  ∃ above line below, split source.text.toList = above ++ line :: below ∧ above.length + 1 = place.line ∧
    source.line? place.line = some (trim line) ∧ bytes (joined above) ≤ place.offset ∧
    place.offset ≤ bytes (joined above) + bytes line

theorem around_behind {name text : String} (start : text.toList = front ++ rest) :
    (ofText name text).Around (.behind front) := by
  obtain ⟨above, begun, left, below, lines, parts, count⟩ := split_append
  have offset : (Position.behind front).offset = bytes (joined above) + bytes begun := by
    rw [← bytes_append, ← parts]
    rfl
  have line : (Position.behind front).line = above.length + 1 := by
    rw [← count, Nat.add_comm]
    rfl
  refine ⟨above, begun ++ left, below, by rw [← lines, ← start]; rfl, line.symm, ?_, ?_, ?_⟩
  · rw [line]
    simp [line?, ofText, start, lines]
  · rw [offset]
    exact Nat.le_add_right _ _
  · rw [bytes_append]
    omega

end Lines

/-- The lexemes of a text cover it piece by piece up to its end, and each starts in the line that its place names.
-/
theorem Lexeme.scan_places (id : Nat) (name text : String) :
    (∀ l ∈ scan (.file id) text, l.Covers id text.toList ∧ l.span.start.offset ≤ l.span.stop.offset ∧
      l.span.stop.offset ≤ text.utf8ByteSize ∧ (Lines.ofText name text).Around l.span.start) ∧
    (scan (.file id) text).Pairwise (fun l next => l.span.stop.offset ≤ next.span.start.offset) ∧
    ∃ before, scan (.file id) text =
      before ++ [⟨.endOfText, "", none, ⟨id, .behind text.toList, .behind text.toList⟩⟩] := by
  have laid : Laid id text.toList 0 (scan (.file id) text) := scanFrom_laid id 0 true [] text.toList
  refine ⟨fun l member => ?_, laid.ordered, laid.ends⟩
  obtain ⟨front, piece, rest, parts, span⟩ := laid.covers l member
  have size : text.utf8ByteSize = bytes front + bytes piece + bytes rest := by
    rw [← bytes_append, ← bytes_append, ← parts, bytes, String.ofList_toList]
  refine ⟨⟨front, piece, rest, parts, span⟩, ?_, ?_, ?_⟩ <;> rw [span]
  · show bytes front ≤ bytes (front ++ piece)
    rw [bytes_append]
    omega
  · show bytes (front ++ piece) ≤ _
    rw [bytes_append]
    omega
  · exact Lines.around_behind (parts.trans (append_assoc _ _ _))

end DreamMaker
