import DreamMaker.Proofs.Lexeme.Append
import DreamMaker.Proofs.Lexeme.Spans

/-!
Lines without text. The end of a line is found only behind a line that holds something, so what stands behind it is
the end of the text or a line with something on it. A line that is joined to the next one right behind its blanks
counts as one with something on it.
-/

namespace DreamMaker.Lexeme

open List

/-- Comments stop here: the text or the line ends, or something other than a blank or a comment follows. -/
def Uncovered : List Char → Prop
  | [] => True
  | c :: cs => endsLine c = true ∨ isGap c = false ∧ opensComment c cs = false

theorem uncovered_of_remarkLength? (found : remarkLength? remark cs = some n) : Uncovered (cs.drop n) := by
  fun_induction remarkLength? remark cs generalizing n with
  | case1 => cases found
  | case2 => cases found; trivial
  | case6 c cs gap line block =>
    cases found
    refine .inr ⟨by simpa using gap, ?_⟩
    rcases cs with _ | ⟨_, cs⟩
    · simp [opensComment]
    simp only [opensComment, head?_cons, Option.some.injEq, Bool.and_eq_false_iff, decide_eq_false_iff_not,
      Bool.or_eq_false_iff]
    by_cases slash : c = '/'
    · exact .inr ⟨fun same => line cs slash (by rw [same]), fun same => block cs slash (by rw [same])⟩
    · exact .inl slash
  | case8 | case10 => cases found; exact .inl rfl
  | case3 _ _ _ ih | case4 _ _ ih | case5 _ _ ih | case7 _ _ _ _ ih | case9 _ _ _ _ _ ih | case11 _ _ _ _ _ _ ih
  | case12 _ _ _ ih | case13 _ ih | case14 _ _ ih | case15 _ _ ih | case16 _ _ ih | case17 _ _ _ _ _ _ ih =>
    obtain ⟨_, inner, rfl⟩ := Option.map_eq_some_iff.mp found
    exact ih inner

/-- What is neither a blank nor the end of a line nor a comment nor joined to the next line is found. -/
theorem found_of_uncovered (gap : isGap c = false)
    (other : (endsLine c || opensComment c cs || joinsLines c cs) = false) (lineStart : Bool) :
    ∃ kind text value?, (step lineStart c cs).found? = some (kind, text, value?) ∧ kind.isLayout = false := by
  have finds := step_finds lineStart c cs
  generalize step lineStart c cs = s at finds
  cases finds with
  | gap blank => rw [gap] at blank; cases blank
  | skip more covers => rw [other] at covers; cases covers
  | newline more ends => simp [ends] at other
  | invalid | symbol | number | word | quoted => exact ⟨_, _, _, rfl, rfl⟩
  | mark marked => exact ⟨_, _, _, rfl, (kind_of_mark? marked).1⟩

/-- Behind a blank and perhaps comments a backslash joins the line to the next. -/
def Hangs (origin : Origin) (text : List Char) (blank : Lexeme) : Prop :=
  ∃ front gap remark rest, text = front ++ gap ++ remark ++ '\\' :: rest ∧ atLineEnd rest = true ∧
    commentsLength? (remark ++ '\\' :: rest) = some remark.length ∧ blank.text = String.ofList gap ∧
    blank.span = origin.span (.behind front) (.behind (front ++ gap ++ remark))

/-- What stands behind the end of a line: the end of the text, or a line that holds something, with blanks before
it or without. -/
inductive StartsLine (origin : Origin) (text : List Char) : List Lexeme → Prop
  | ends {last : Lexeme} (kind : last.kind = .endOfText) : StartsLine origin text [last]
  | flush {l : Lexeme} {rest : List Lexeme} (inside : l.kind.isLayout = false) : StartsLine origin text (l :: rest)
  | indented {blank l : Lexeme} {rest : List Lexeme} (kind : blank.kind = .blank) (inside : l.kind.isLayout = false) :
    StartsLine origin text (blank :: l :: rest)
  | hanging {blank : Lexeme} {rest : List Lexeme} (kind : blank.kind = .blank) (hangs : blank.Hangs origin text) :
    StartsLine origin text (blank :: rest)

theorem exists_of_drop_add {cs : List α} (rest : cs.drop (m + n) = d :: ds) :
    ∃ front back, cs = front ++ (back ++ d :: ds) ∧ front.length = m ∧ back.length = n := by
  have short := congrArg List.length rest
  rw [length_drop, length_cons] at short
  refine ⟨cs.take m, (cs.drop m).take n, ?_, by rw [length_take]; omega, by rw [length_take, length_drop]; omega⟩
  rw [← rest, ← drop_drop, take_append_drop, take_append_drop]

/-- Blanks at the start of a line are found where something stands behind them and comments. -/
theorem startsLine_of_gap (origin : Origin) (front gap : List Char) (place : Position)
    (comments : commentsLength? (remark ++ d :: ds) = some remark.length) (line : endsLine d = false) :
    StartsLine origin (front ++ gap ++ remark ++ d :: ds)
      (⟨.blank, String.ofList gap, none, origin.span (.behind front) (.behind (front ++ gap ++ remark))⟩ ::
        scanFrom origin 0 place false (d :: ds)) := by
  have open_ := uncovered_of_remarkLength? comments
  rw [drop_left, Uncovered, line] at open_
  obtain ⟨other, comment⟩ := open_.resolve_left (by simp)
  cases joins : joinsLines d ds with
  | true =>
    obtain ⟨rfl, ends⟩ : d = '\\' ∧ atLineEnd ds = true := by simpa [joinsLines] using joins
    exact .hanging rfl ⟨front, gap, remark, ds, rfl, ends, comments, rfl, rfl⟩
  | false =>
    obtain ⟨_, _, _, found, inside⟩ := found_of_uncovered other (by rw [line, comment, joins]; rfl) false
    rw [scanFrom]
    simp only [found]
    exact .indented rfl inside

/-- The induction is on the text that is left, of which some characters are taken. -/
theorem startsLine_scanFrom (origin : Origin) (front cs : List Char) (taken : Nat) :
    StartsLine origin (front ++ cs) (scanFrom origin taken (.behind (front ++ cs.take taken)) true cs) := by
  induction cs generalizing front taken with
  | nil => exact .ends rfl
  | cons c cs ih =>
    have passed (n : Nat) : front ++ c :: cs.take n = (front ++ [c]) ++ cs.take n := by simp
    cases taken with
    | succ taken =>
      rw [take_succ_cons, passed, append_cons]
      exact ih (front ++ [c]) taken
    | zero =>
      rw [take_zero, append_nil, scanFrom, Position.afterAll_behind]
      have skips (more : Nat) : StartsLine origin (front ++ c :: cs)
          (scanFrom origin more (.behind (front ++ c :: cs.take more)) true cs) := by
        rw [passed, append_cons]
        exact ih (front ++ [c]) more
      have finds := step_finds true c cs
      generalize step true c cs = s at finds
      cases finds with
      | skip more => exact skips more
      | newline more _ inside => cases inside
      | invalid | symbol | number | word | quoted => exact .flush rfl
      | mark marked => exact .flush (kind_of_mark? marked).1
      | gap =>
        simp only [gapStep, if_true]
        rcases comments : commentsLength? (cs.drop (cs.takeWhile isGap).length) with _ | n
        · exact .flush rfl
        dsimp only
        cases holds : (cs.drop ((cs.takeWhile isGap).length + n)).isEmpty ||
            atLineEnd (cs.drop ((cs.takeWhile isGap).length + n)) with
        | true => exact skips _
        | false =>
          rcases rest : cs.drop ((cs.takeWhile isGap).length + n) with _ | ⟨d, ds⟩
          · simp [rest] at holds
          rw [rest] at holds
          obtain ⟨gap, remark, rfl, length, rfl⟩ := exists_of_drop_add rest
          rw [← length, drop_left] at comments
          have found := startsLine_of_gap origin front (c :: gap) (.behind (front ++ (c :: gap) ++ remark)) comments
            (by simpa [atLineEnd] using holds)
          have scanned := scanFrom_taken origin (.behind (front ++ (c :: gap) ++ remark)) false
            (gap ++ remark) (d :: ds)
          rw [← scanned] at found
          simpa [← length, take_append, take_of_length_le (Nat.le_add_right gap.length remark.length)] using found

/-- Behind each end of a line another line starts. -/
def Lined (origin : Origin) (text : List Char) : List Lexeme → Prop
  | [] => True
  | l :: rest => (l.kind = .newline → StartsLine origin text rest) ∧ Lined origin text rest

theorem lined_scanFrom (origin : Origin) (front cs : List Char) (taken : Nat) (lineStart : Bool) :
    Lined origin (front ++ cs) (scanFrom origin taken (.behind (front ++ cs.take taken)) lineStart cs) := by
  induction cs generalizing front taken lineStart with
  | nil => exact ⟨nofun, trivial⟩
  | cons c cs ih =>
    have passed (n : Nat) : front ++ c :: cs.take n = (front ++ [c]) ++ cs.take n := by simp
    rw [append_cons]
    cases taken with
    | succ taken =>
      rw [take_succ_cons, passed]
      exact ih (front ++ [c]) taken lineStart
    | zero =>
      rw [take_zero, append_nil, scanFrom, Position.afterAll_behind, passed]
      cases (step lineStart c cs).found? with
      | none => exact ih (front ++ [c]) _ lineStart
      | some found =>
        obtain ⟨kind, _, _⟩ := found
        refine ⟨fun newline => ?_, ih (front ++ [c]) _ _⟩
        simp only [show kind = .newline from newline, decide_true]
        exact startsLine_scanFrom origin (front ++ [c]) cs _

/-- Every end of a line in a text is followed by the end of the text, or by a line that holds something, with one
blank before it or none. Only a line that is joined to the next one right behind its blanks may hold just these. -/
theorem scan_lined (origin : Origin) (text : String) : Lined origin text.toList (scan origin text) :=
  lined_scanFrom origin [] text.toList 0 true

/-- Blanks that are joined to a line without anything are not dropped. -/
theorem scan_hanging : (scan (.file 0) "a\n \\\n\nb").map (·.kind) =
    [.word, .newline, .blank, .newline, .word, .endOfText] := by
  decide +kernel

end DreamMaker.Lexeme
