import DreamMaker.Proofs.Parsing.Strings

/-!
Marks for holes in the text of a string. There is one for every hole, and one more for every character of such a mark
that is written in the string itself.
-/

namespace DreamMaker

open List

namespace Mark

/-- A character that stands for a hole. -/
def isHoleChar (c : Char) : Bool := (ofChar? c).any isHole

theorem isHoleChar_char (mark : Mark) : isHoleChar mark.char = mark.isHole := by
  cases mark <;> decide

/-- The only macro that is a mark for a hole changes how the next hole is marked. -/
theorem isHole_of_macro (known : ofMacro? word = some (mark, placement)) (isHole : mark.isHole = true) :
    mark = .reference ∧ placement = .before := by
  unfold ofMacro? at known
  split at known <;> cases known <;> first | exact ⟨rfl, rfl⟩ | cases isHole

end Mark

namespace Glyph

/-- A character that is taken for the mark of a hole. -/
def isStray : Glyph → Bool
  | .char c => Mark.isHoleChar c
  | .code _ _ => false

def IsRegular (glyph : Glyph) : Prop :=
  ∀ mark placement, glyph = .code mark placement → mark.isHole = true → mark = .reference ∧ placement = .before

theorem isRegular_escape : ∀ glyph ∈ (escape cs).1, glyph.IsRegular := by
  rintro glyph made _ _ rfl isHole
  unfold escape at made
  split at made
  · cases made
  split at made
  · cases made
  split at made
  · cases made
  · dsimp only at made
    split at made <;> cases made
    exact Mark.isHole_of_macro ‹_› isHole

theorem isRegular_decodeFrom (taken : Nat) (cs : List Char) : ∀ glyph ∈ decodeFrom taken cs, glyph.IsRegular := by
  induction cs generalizing taken with
  | nil => nofun
  | cons c cs ih =>
    cases taken with
    | succ taken => exact ih taken
    | zero =>
      rw [decodeFrom]
      by_cases backslash : c = '\\'
      · rw [if_pos backslash]
        refine forall_mem_append.2 ⟨fun glyph made => ?_, ih _⟩
        exact isRegular_escape glyph (Option.mem_toList.1 made)
      · rw [if_neg backslash]
        exact forall_mem_cons.2 ⟨nofun, ih 0⟩

end Glyph

/-- The characters in a piece of a string that are taken for marks of holes. -/
def Segment.strays : Segment → Nat
  | .text cs => (Glyph.decode cs).countP Glyph.isStray
  | _ => 0

/-- The number of holes that a text has marks for. -/
def holeMarks (text : String) : Nat := text.toList.countP Mark.isHoleChar

/-- The text has a mark for every hole, and so many more. -/
structure Format.Counts (format : Format) (strays : Nat) : Prop where
  next : format.next.isHole = true
  marks : holeMarks format.text = format.holes.length + strays

namespace Format.Counts

variable {format : Format}

theorem holeMarks_push (text : String) :
    holeMarks (text.push c) = holeMarks text + if Mark.isHoleChar c then 1 else 0 := by
  rw [holeMarks, String.toList_push, countP_append, countP_singleton]
  rfl

theorem addGlyph (counts : format.Counts strays) {glyph : Glyph} (regular : glyph.IsRegular) (span : Span)
    (reports : Array Report) :
    (addGlyph span (format, reports) glyph).1.Counts (strays + if glyph.isStray then 1 else 0) := by
  cases glyph with
  | char _ => exact ⟨counts.next, by rw [Format.addGlyph, holeMarks_push, counts.marks, Nat.add_assoc]; rfl⟩
  | code mark placement =>
    have plain (other : ¬(mark = .reference ∧ placement = .before)) :
        holeMarks (format.text.push mark.char) = format.holes.length + strays := by
      have noHole : ¬mark.isHole = true := fun isHole => other (regular mark placement rfl isHole)
      rw [holeMarks_push, Mark.isHoleChar_char, if_neg noHole, Nat.add_zero, counts.marks]
    cases placement with
    | before =>
      by_cases reference : mark = .reference
      · subst reference
        exact ⟨rfl, counts.marks⟩
      · have marks := plain fun same => reference same.1
        simp only [Format.addGlyph, addMacro, if_neg reference]
        exact ⟨rfl, marks⟩
    | after =>
      have marks := plain (by simp)
      simp only [Format.addGlyph, addMacro]
      split <;> exact ⟨counts.next, marks⟩
    | alone => exact ⟨counts.next, plain (by simp)⟩

theorem addText (counts : format.Counts strays) (cs : List Char) (span : Span) :
    (format.addText cs span).1.Counts (strays + (Glyph.decode cs).countP Glyph.isStray) := by
  have regular := Glyph.isRegular_decodeFrom 0 cs
  unfold Format.addText
  change ∀ glyph ∈ Glyph.decode cs, glyph.IsRegular at regular
  generalize Glyph.decode cs = glyphs at regular ⊢
  generalize (#[] : Array Report) = reports
  induction glyphs generalizing format strays reports with
  | nil => exact counts
  | cons glyph glyphs ih =>
    obtain ⟨first, rest⟩ := forall_mem_cons.1 regular
    have next := ih (counts.addGlyph first span reports) rest
      (Format.addGlyph span (format, reports) glyph).2
    rw [countP_cons, Nat.add_comm (countP _ _), ← Nat.add_assoc]
    exact next

theorem addHole (counts : format.Counts strays) (value? : Option Expr) : (format.addHole value?).Counts strays where
  next := rfl
  marks := by
    rw [Format.addHole, holeMarks_push, Mark.isHoleChar_char, if_pos counts.next, counts.marks, length_append]
    exact Nat.add_right_comm _ _ _

end Format.Counts

namespace Parsing

variable {format : Format}

/-- What is in a hole is read on its own, and what there is to report on it is reported. -/
theorem hole_of_ne_nil {span : Span} (some : Text.trim cs ≠ [])
    (read : wholeExpression rules (.ofTokens (holeTokens (Text.trim cs) span) { config := s.config }) = (result, t)) :
    hole rules cs span s = heldIn result { s with reports := s.reports ++ t.reports } := by
  have known : config s = (.ok s.config, s) := rfl
  have told : reportAll t.reports s = (.ok (), { s with reports := s.reports ++ t.reports }) := rfl
  rw [hole_eq, if_neg (by simpa using some), Run.bind_of_ok known, read, Run.bind_of_ok told]

/-- Reading a hole gives what it holds or nothing, and never fails. -/
theorem exists_hole {rules : Rules} {cs : List Char} {span : Span} {s : State} :
    ∃ value? s', hole rules cs span s = (.ok value?, s') := by
  by_cases empty : Text.trim cs = []
  · exact ⟨none, s, by rw [hole_eq, empty]; rfl⟩
  · rcases read : wholeExpression rules
      (.ofTokens (holeTokens (Text.trim cs) span) { config := s.config }) with ⟨_ | e, _⟩
    · exact ⟨none, _, hole_of_ne_nil empty read⟩
    · exact ⟨some e, _, hole_of_ne_nil empty read⟩

theorem addSegment_counts (span : Span) (segment : Segment) (counts : format.Counts strays) :
    ∃ format' s', addSegment rules span format segment s = (.ok format', s') ∧
      format'.Counts (strays + segment.strays) := by
  cases segment with
  | text cs => exact ⟨_, _, rfl, counts.addText cs span⟩
  | hole cs =>
    obtain ⟨value?, s', run⟩ := exists_hole
    exact ⟨_, s', Run.bind_of_ok run, counts.addHole value?⟩
  | unclosed => exact ⟨format, _, rfl, counts⟩

theorem foldlM_counts (rules : Rules) (span : Span) (segments : List Segment)
    (counts : format.Counts strays) (s : State) :
    ∃ format' s', segments.foldlM (addSegment rules span) format s = (.ok format', s') ∧
      format'.Counts (strays + (segments.map Segment.strays).sum) := by
  induction segments generalizing format strays s with
  | nil => exact ⟨format, s, rfl, counts⟩
  | cons segment segments ih =>
    obtain ⟨_, s₁, run, counts⟩ := addSegment_counts span segment counts
    obtain ⟨last, s₂, runs, counts⟩ := ih counts s₁
    rw [foldlM_cons, map_cons, sum_cons, ← Nat.add_assoc, Run.bind_of_ok run]
    exact ⟨last, s₂, runs, counts⟩

/-- A string is read as plain text, or as text with a mark for every hole, and other marks only where the string
itself has them. -/
theorem stringLiteral_marks (rules : Rules) (token : Token) (s : State) :
    let strays := ((Segment.split token.textValue.toList).map Segment.strays).sum
    ∃ e s', stringLiteral rules token s = (.ok e, s') ∧
      ((∃ text, e = .string text token.span ∧ holeMarks text = strays) ∨
        ∃ text holes, e = .mk (.format text holes) token.span ∧ holes ≠ [] ∧
          holeMarks text = holes.length + strays) := by
  have empty : ({} : Format).Counts 0 := ⟨rfl, rfl⟩
  obtain ⟨format, s', run, counts⟩ := foldlM_counts rules token.span (Segment.split token.textValue.toList) empty s
  refine ⟨format.toExpr token.span, s', Run.bind_of_ok run, ?_⟩
  have marks := counts.marks
  rw [Nat.zero_add] at marks
  unfold Format.toExpr
  cases held : format.holes with
  | nil => exact .inl ⟨format.text, rfl, by rw [marks, held]; exact Nat.zero_add _⟩
  | cons hole holes => exact .inr ⟨format.text, hole :: holes, rfl, nofun, by rw [marks, held]⟩

/-- An escape that stands for the mark of a hole leaves that mark in a text without holes. -/
theorem stringLiteral_marks_escape :
    let token : Token := { kind := .string, span := .unknown, text := "\"\\uff01\"", value := .text "\\uff01" }
    stringLiteral (rulesUpTo 0) token (.before [token]) = (.ok (.string "\uff01" .unknown), .before [token]) ∧
      holeMarks "\uff01" = 1 := by
  intro token
  have plain : Segment.split token.textValue.toList = [.text "\\uff01".toList] := by decide +kernel
  refine ⟨?_, by decide +kernel⟩
  simp only [stringLiteral, plain]
  rfl

end Parsing

end DreamMaker
