import Mathlib.Data.List.TakeWhile
import DreamMaker.Proofs.Token.Spending

/-!
The texts of tokens. What tokens say one behind another is what their lexemes say: nothing that is looked at ahead is
lost, and nothing is said twice.
-/

namespace DreamMaker

open List Lexeme

namespace Lexeme

/-- What lexemes say, apart from blanks and line ends. -/
def written (source : List Lexeme) : String := String.join ((source.filter (!·.kind.isLayout)).map (·.text))

theorem written_cons (l : Lexeme) (source : List Lexeme) :
    written (l :: source) = (if l.kind.isLayout then "" else l.text) ++ written source := by
  cases layout : l.kind.isLayout <;> simp [written, layout, String.join_cons]

theorem written_append : written (front ++ back) = written front ++ written back := by
  simp [written, String.join_append]

/-- Marks are written as such, and nothing stands behind the end of the text. -/
structure Spelled (source : List Lexeme) : Prop where
  marks : ∀ l ∈ source, ∀ text ∈ l.kind.spelling?, l.text = text
  last : ∀ l ∈ source.dropLast, l.kind ≠ .endOfText

theorem Spelled.of_suffix (spelled : Spelled source) (suffix : rest <:+ source) : Spelled rest where
  marks l member := spelled.marks l (suffix.subset member)
  last l member := by
    obtain ⟨_, rfl⟩ := suffix
    have some : rest ≠ [] := by rintro rfl; cases member
    exact spelled.last l (by rw [dropLast_append_of_ne_nil some]; exact mem_append_right _ member)

/-- Only single characters are marks that longer symbols are made of. -/
theorem spelling?_of_step {l : Lexeme} (found : (step lineStart c cs).found? = some (l.kind, l.text, l.value?)) :
    ∀ text ∈ l.kind.spelling?, l.text = text := by
  have finds := step_finds lineStart c cs
  generalize step lineStart c cs = s at finds found
  obtain ⟨_, text, _, _⟩ := l
  cases finds with
  | gap => rcases kind_of_gapStep found with rfl | rfl <;> nofun
  | skip => cases found
  | newline | invalid | symbol | number | word | quoted => cases found; nofun
  | mark marked =>
    cases found
    exact (kind_of_mark? marked).2.2.2

theorem spelled_scan (origin : Origin) (text : String) : Spelled (scan origin text) := by
  obtain ⟨_, _, scanned, ends, steps⟩ := scanFrom_found origin 0 .first true text.toList
  rw [scan, scanned]
  constructor
  · intro l member
    rcases mem_append.mp member with inside | behind
    · obtain ⟨lineStart, c, cs, found⟩ := steps l inside
      exact spelling?_of_step found
    · rw [mem_singleton.mp behind, ends]
      nofun
  · rw [dropLast_concat]
    intro l member
    obtain ⟨lineStart, c, cs, found⟩ := steps l member
    exact (step_holds lineStart c cs _ _ _ found).1

end Lexeme

namespace Token

/-- What tokens say, apart from those that stand for layout. -/
def written (tokens : List Token) : String := String.join ((tokens.filter (!·.kind.isLayout)).map (·.text))

theorem written_cons (token : Token) (tokens : List Token) :
    written (token :: tokens) = (if token.kind.isLayout then "" else token.text) ++ written tokens := by
  cases layout : token.kind.isLayout <;> simp [written, layout, String.join_cons]

end Token

namespace Layout

open Lexeme (Spelled)

variable {s : Layout} {l : Lexeme}

/-- A token is handed out that says, with the queue and what is left to read, what was to be said. The file ends
when nothing is left. -/
structure Tells (text : String) (given : Token × Layout) : Prop where
  text : Token.written (given.1 :: given.2.queue) ++ written given.2.source = text
  ends : ∀ token ∈ given.1 :: given.2.queue, token.isEnd = true → given.2.source = []

theorem endFile_tells (source : s.source = []) : Tells "" (s.endFile l) := by
  unfold endFile
  cases s.levels.length - 1 with
  | zero => exact ⟨by simp [give, source, Token.written, Token.Kind.isLayout, written], fun _ _ _ => source⟩
  | succ _ =>
    refine ⟨?_, fun _ _ _ => source⟩
    simp [replicate_succ, give, source, Token.written, Token.Kind.isLayout, written]

theorem written_lineStart (source : List Lexeme) : written (lineStart source).2 = written source := by
  cases source with
  | nil => rfl
  | cons l _ => by_cases blank : l.kind = .blank <;> simp [lineStart, blank, written, Lexeme.Kind.isLayout]

theorem startLine_tells (empty : s.queue = []) : Tells (written s.source) (s.startLine l) := by
  unfold startLine
  rw [← written_lineStart]
  generalize lineStart s.source = line
  dsimp only
  split
  · exact ⟨by simp [Token.written, Token.Kind.isLayout], by simp [Token.isEnd]⟩
  split
  · split
    · exact ⟨by simp [Token.written, Token.Kind.isLayout], by simp [Token.isEnd]⟩
    · exact ⟨by simp [Token.written, Token.Kind.isLayout], by simp [Token.isEnd]⟩
  · exact ⟨by simp [empty, Token.written, Token.Kind.isLayout], by simp [empty, Token.isEnd]⟩

theorem next_tells (spelled : Spelled s.source) (ends : ∀ token ∈ s.queue, token.isEnd = true → s.source = []) :
    Tells (Token.written s.queue ++ written s.source) s.next := by
  cases queue : s.queue with
  | cons token rest =>
    have same : s.next = (token, { s with queue := rest }) := by rw [next, queue]
    rw [same]
    exact ⟨rfl, queue ▸ ends⟩
  | nil =>
    obtain ⟨skipped, l, source, spaced, lastSpan, split, layout, starts⟩ := exists_starts queue
    have unsaid : written skipped = "" := by
      rw [written, filter_eq_nil_iff.mpr (by simpa using layout)]
      rfl
    rw [show Token.written [] = "" from rfl, String.empty_append]
    generalize s.next = given at starts
    rcases split with split | ⟨split, rfl, atEnd⟩
    · rw [split] at spelled
      rw [split, written_append, unsaid, String.empty_append, written_cons]
      cases starts with
      | line newline =>
        rw [newline]
        exact String.empty_append ▸ startLine_tells (s := { s with source, spaced, lastSpan }) queue
      | finish ends =>
        have nothing : source = [] := by
          cases source with
          | nil => rfl
          | cons m rest => exact absurd ends (spelled.last l (by simp))
        rw [ends, nothing]
        exact endFile_tells rfl
      | @token more rest token queue _ _ inside taken piece =>
        obtain rfl : source = more ++ rest := taken
        have said := piece.text fun m member => spelled.marks m
          (by simp only [mem_cons, mem_append] at member ⊢; tauto)
        have written : written more = String.join (more.map (·.text)) := by
          rw [written, filter_eq_self.mpr fun m member => by simp [piece.inside m member]]
        constructor
        · rw [written_append, written, inside, ← String.append_assoc, if_neg (by simp), ← said]
          exact congrArg (· ++ _) ((Token.written_cons ..).trans (Token.written_cons token queue).symm)
        · intro _ member ends
          rcases mem_cons.mp member with rfl | member
          · cases (piece.goes_on _ mem_cons_self).1.symm.trans ends
          · cases (piece.goes_on _ (mem_cons_of_mem _ member)).1.symm.trans ends
    · rw [split, unsaid]
      cases starts with
      | line newline => simp [atEnd] at newline
      | finish => exact endFile_tells rfl
      | token inside => simp [atEnd, Lexeme.Kind.isLayout] at inside

/-- Up to the end of the file everything is said that was to be said. -/
theorem Sound.written_handed (sound : s.Sound) (spelled : Spelled s.source)
    (ends : ∀ token ∈ s.queue, token.isEnd = true → s.source = []) (last : (s.after n).next.1.isEnd = true) :
    Token.written (s.handed (n + 1)) = Token.written s.queue ++ written s.source := by
  have tells := next_tells spelled ends
  induction n generalizing s with
  | zero =>
    have queue := (next_calls.levels_of_end sound (of_decide_eq_true last)).2
    rw [pending, map_eq_nil_iff] at queue
    rw [← tells.text, tells.ends _ mem_cons_self last, queue]
    simp [handed, written]
  | succ n ih =>
    have spelled' := spelled.of_suffix source_next
    have ends' := fun token member => tells.ends token (mem_cons_of_mem _ member)
    rw [handed, Token.written_cons, ih sound.next spelled' ends' last (next_tells spelled' ends'), ← tells.text,
      Token.written_cons, String.append_assoc]

end Layout

/-- The tokens of a text say, one behind another, what its lexemes say, apart from layout. -/
theorem Token.ofLexemes_written (origin : Lexeme.Origin) (text : String) :
    String.join (((ofLexemes (scan origin text)).filter (!·.kind.isLayout)).map (·.text)) =
      String.join (((scan origin text).filter (!·.kind.isLayout)).map (·.text)) := by
  have sound := Layout.Sound.ofSource (scan origin text)
  have spelled := spelled_scan origin text
  obtain ⟨_, _, last, more⟩ := sound.exists_end
  have start : (Layout.ofSource (scan origin text)).remaining = 4 * (scan origin text).length := rfl
  rw [ofLexemes, Layout.tokensFrom_eq_handed (by omega) last more]
  have said := sound.written_handed spelled (by simp [Layout.ofSource]) last
  simpa [Layout.ofSource, written, Lexeme.written] using said

end DreamMaker
