import DreamMaker.Proofs.Token.Spelling

/-!
Comments between words. A block comment leaves nothing behind, so a word goes on over a comment that touches it.
-/

namespace DreamMaker

open List

/-- A word of a text, which may be a keyword. -/
structure Text.Word where
  first : Char
  more : List Char
  starts : startsWord first = true
  continues : ∀ c ∈ more, continuesWord c = true

namespace Text.Word

def chars (word : Word) : List Char := word.first :: word.more

def text (word : Word) : String := String.ofList word.chars

end Text.Word

namespace Lexeme

/-- What stands between the marks of a block comment. Other comments may stand in it, and marks behind two slashes
do not count. -/
inductive Remarks : List Char → Prop
  | close : Remarks ['*', '/']
  | nest {inner rest : List Char} (nested : Remarks inner) (behind : Remarks rest) :
      Remarks ('/' :: '*' :: (inner ++ rest))
  | line {front : List Char} {c : Char} {rest : List Char} (inside : ∀ d ∈ front, endsLine d = false)
      (ends : endsLine c = true) (behind : Remarks rest) : Remarks ('/' :: '/' :: (front ++ c :: rest))
  | char {c : Char} {rest : List Char} (goes_on : ¬(c = '*' ∧ rest.head? = some '/'))
      (opens : opensComment c rest = false) (behind : Remarks rest) : Remarks (c :: rest)

variable {c : Char} {rest : List Char}

theorem remarkLength?_line (inside : ∀ d ∈ front, endsLine d = false) (ends : endsLine c = true) :
    remarkLength? (.block outer true) (front ++ c :: rest) =
      (remarkLength? (.block outer false) rest).map (· + (front.length + 1)) := by
  induction front with
  | nil => simp [remarkLength?, ends]
  | cons d front ih =>
    obtain ⟨first, others⟩ := forall_mem_cons.mp inside
    simp [remarkLength?, first, ih others, Function.comp_def, Nat.add_assoc]

/-- Behind a block comment what is around it goes on. -/
theorem remarkLength?_remarks (remarks : Remarks body) : remarkLength? (.block outer false) (body ++ rest) =
      (remarkLength? (match outer with | 0 => .outside | outer + 1 => .block outer false) rest).map
        (· + body.length) := by
  induction remarks generalizing outer rest with
  | close => cases outer <;> simp [remarkLength?]
  | nest _ _ ih_inner ih =>
    simp [remarkLength?, ih_inner, ih, Function.comp_def, Nat.add_assoc, Nat.add_left_comm]
  | line inside ends _ ih =>
    simp [remarkLength?, remarkLength?_line inside ends, ih, Function.comp_def, Nat.add_assoc, Nat.add_left_comm]
  | @char _ body goes_on opens behind ih =>
    obtain ⟨_, body, rfl⟩ := exists_cons_of_ne_nil (show body ≠ [] by rintro rfl; cases behind)
    simp only [opensComment, head?_cons, Option.some.injEq, Bool.and_eq_false_iff, decide_eq_false_iff_not,
      Bool.or_eq_false_iff] at goes_on opens
    rw [cons_append, remarkLength?.eq_12, ih, Option.map_map]
    · rfl
    · rintro _ rfl ⟨⟩; exact goes_on ⟨rfl, rfl⟩
    · rintro _ rfl ⟨⟩; simp at opens
    · rintro _ rfl ⟨⟩; simp at opens

section

variable (origin : Origin) (word : Text.Word)

/-- Nothing is found of a comment in front of a word. -/
theorem scanFrom_remarks (remarks : Remarks body) {place : Position} :
    ∃ place', scanFrom origin 0 place false ('/' :: '*' :: (body ++ word.chars)) =
      scanFrom origin 0 place' false word.chars := by
  have solid := Solid.of_startsWord word.starts
  have slash : word.first ≠ '/' := by
    intro same
    have starts := word.starts
    rw [same] at starts
    cases starts
  have outside : remarkLength? .outside word.chars = some 0 := by
    rw [Text.Word.chars, remarkLength?.eq_5, if_neg (by simp [solid.gap])]
    · exact fun _ same => absurd same slash
    · exact fun _ same => absurd same slash
  have length : commentsLength? ('/' :: '*' :: (body ++ word.chars)) = some (body.length + 2) := by
    simp [commentsLength?, remarkLength?, isGap, remarkLength?_remarks remarks, outside]
  have step : step false '/' ('*' :: (body ++ word.chars)) = .skip ('*' :: body).length := by
    simp [Lexeme.step, isGap, endsLine, length]
  rw [scanFrom, step]
  exact ⟨_, scanFrom_taken origin _ false ('*' :: body) word.chars⟩

theorem scans_gap (gap : ∀ d ∈ c :: blanks, isGap d = true) (other : isGap d = false) :
    Scans origin .blank (c :: blanks) (d :: rest) := by
  obtain ⟨first, others⟩ := forall_mem_cons.mp gap
  refine Scans.of_step (by decide) ?_
  have taken : (blanks ++ d :: rest).takeWhile isGap = blanks := by
    rw [takeWhile_append_of_pos others, takeWhile_cons_of_neg (by simp [other]), append_nil]
  simp [step, first, gapStep, taken, Step.mark, Step.found]

theorem scanFrom_word {place : Position} : ∃ span last, scanFrom origin 0 place false word.chars =
    [⟨.word, word.text, none, span⟩, ⟨.endOfText, "", none, last⟩] := by
  obtain ⟨_, span, scanned⟩ := scans_word word.starts word.continues takeWhile_nil place
  rw [append_nil] at scanned
  exact ⟨span, _, scanned⟩

/-- The lexemes of a word, perhaps with a gap, a comment and another word behind it. -/
theorem scan_words {other : Text.Word} (gap : ∀ d ∈ blanks, isGap d = true) (remarks : Remarks body) :
    ∃ span span' last, ∃ middle : List Lexeme, scan origin
      (String.ofList (word.chars ++ blanks ++ '/' :: '*' :: (body ++ other.chars))) =
        ⟨.word, word.text, none, span⟩ ::
          (middle ++ [⟨.word, other.text, none, span'⟩, ⟨.endOfText, "", none, last⟩]) ∧
      (blanks = [] ∧ middle = [] ∨ blanks ≠ [] ∧ ∃ blank, middle = [blank] ∧ blank.kind = .blank) := by
  rw [scan, String.toList_ofList, append_assoc]
  have start := (Solid.of_startsWord word.starts).scanFrom origin .first true
    (word.more ++ (blanks ++ '/' :: '*' :: (body ++ other.chars)))
  rw [show word.chars ++ _ = word.first :: (word.more ++ _) from rfl, start]
  have stops : (blanks ++ '/' :: '*' :: (body ++ other.chars)).takeWhile Text.continuesWord = [] := by
    cases blanks with
    | nil => rfl
    | cons d blanks =>
      have blank : d = ' ' ∨ d = '\t' := by simpa [isGap] using gap d mem_cons_self
      rcases blank with rfl | rfl <;> rfl
  obtain ⟨place, span, scanned⟩ := scans_word word.starts word.continues stops .first
  rw [cons_append] at scanned
  rw [scanned]
  cases blanks with
  | nil =>
    obtain ⟨place', skipped⟩ := scanFrom_remarks origin other remarks
    obtain ⟨span', last, behind⟩ := scanFrom_word origin other
    exact ⟨span, span', last, [], by rw [nil_append, skipped, behind]; rfl, .inl ⟨rfl, rfl⟩⟩
  | cons d blanks =>
    obtain ⟨place', span', found⟩ := scans_gap origin gap (d := '/') rfl place
    obtain ⟨_, skipped⟩ := scanFrom_remarks origin other remarks
    obtain ⟨span'', last, behind⟩ := scanFrom_word origin other
    exact ⟨span, span'', last, [_], by rw [found, skipped, behind]; rfl, .inr ⟨by simp, _, rfl, rfl⟩⟩

end

end Lexeme

namespace Token

/-- What the tokens of a text say. -/
def lexed (origin : Lexeme.Origin) (cs : List Char) : List Content :=
  (ofLexemes (Lexeme.scan origin (String.ofList cs))).map content

def wordContent (word : String) : Content := (.ofWord word, word, .none)

section Words

attribute [local simp] ofLexemes Layout.ofSource Layout.tokensFrom Layout.next Layout.read Layout.give?
  Layout.giveWord wordContent
  Kind.ofWord Layout.give Layout.endFile isEnd

theorem ofLexemes_word (span last : Span) :
    (ofLexemes [⟨.word, word, none, span⟩, ⟨.endOfText, "", none, last⟩]).map content =
      [wordContent word, (.endOfFile, "", .none)] := by
  simp
  cases Keyword.ofWord? word <;> rfl

theorem ofLexemes_touching (u : String) (span span' last : Span) :
    (ofLexemes [⟨.word, u, none, span⟩, ⟨.word, v, none, span'⟩,
      ⟨.endOfText, "", none, last⟩]).map content = [wordContent (u ++ v), (.endOfFile, "", .none)] := by
  simp
  cases Keyword.ofWord? (u ++ v) <;> rfl

theorem ofLexemes_apart {u : String} {span span' last : Span} (kind : blank.kind = .blank) :
    (ofLexemes [⟨.word, u, none, span⟩, blank, ⟨.word, v, none, span'⟩,
      ⟨.endOfText, "", none, last⟩]).map content = [wordContent u, wordContent v, (.endOfFile, "", .none)] := by
  simp [kind]
  cases Keyword.ofWord? u <;> cases Keyword.ofWord? v <;> rfl

end Words

theorem lexed_word {origin : Lexeme.Origin} {word : Text.Word} :
    lexed origin word.chars = [wordContent word.text, (.endOfFile, "", .none)] := by
  obtain ⟨_, _, scanned⟩ := Lexeme.scanFrom_word origin word
  rw [lexed, Lexeme.scan, String.toList_ofList, Text.Word.chars, (Lexeme.Solid.of_startsWord word.starts).scanFrom]
  rw [Text.Word.chars] at scanned
  rw [scanned, ofLexemes_word]

/-- A word goes on behind a comment that touches it. With blanks before the comment both words are read as they are
alone. -/
theorem lexed_comment {blanks body : List Char} (origin : Lexeme.Origin) (u v : Text.Word)
    (gap : ∀ c ∈ blanks, Lexeme.isGap c = true) (remarks : Lexeme.Remarks body) :
    lexed origin (u.chars ++ blanks ++ '/' :: '*' :: (body ++ v.chars)) =
        (if blanks = [] then [wordContent (u.text ++ v.text)] else [wordContent u.text, wordContent v.text]) ++
          [(.endOfFile, "", .none)] ∧
      lexed origin u.chars = [wordContent u.text, (.endOfFile, "", .none)] ∧
      lexed origin v.chars = [wordContent v.text, (.endOfFile, "", .none)] := by
  refine ⟨?_, lexed_word, lexed_word⟩
  obtain ⟨_, _, _, _, scanned, ⟨touching, rfl⟩ | ⟨apart, _, rfl, kind⟩⟩ :=
    Lexeme.scan_words origin u gap remarks
  · rw [lexed, scanned, if_pos touching]
    exact ofLexemes_touching ..
  · rw [lexed, scanned, if_neg apart]
    exact ofLexemes_apart kind

/-- A comment over two lines with another one in it, between a keyword and a name. -/
theorem lexed_comment_nested :
    lexed (.file 0) "var \t/*a/**/\n*/x".toList =
      [(.keyword .var, "var", .none), (.identifier, "x", .none), (.endOfFile, "", .none)] := by
  have gap : ∀ c ∈ [' ', '\t'], Lexeme.isGap c = true := by simp [Lexeme.isGap]
  have behind : Lexeme.Remarks ['\n', '*', '/'] := .char (by decide) rfl .close
  have remarks : Lexeme.Remarks "a/**/\n*/".toList := .char (by decide) rfl (.nest .close behind)
  exact (lexed_comment (.file 0) ⟨'v', ['a', 'r'], rfl, by simp; decide⟩ ⟨'x', [], rfl, by simp⟩ gap remarks).1

/-- A comment between two words that touches both does not part them. -/
theorem lexed_comment_touching :
    (ofLexemes (Lexeme.scan (.file 0) "var/**/x")).map (fun token => (token.kind, token.text)) =
      [(.identifier, "varx"), (.endOfFile, "")] := by
  decide +kernel

end Token

end DreamMaker
