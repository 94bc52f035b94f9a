import Mathlib.Data.List.Basic
import DreamMaker.Parsing.Path
import DreamMaker.Text.Word

/-!
The text of a path. A path of words can be read from its text again, and so can the path of an overload, though the
names of two overloads hold the mark that stands between segments.
-/

namespace DreamMaker

open List

/-- A text that is one word. -/
def Text.IsWord (text : String) : Prop :=
  ∃ c cs, text.toList = c :: cs ∧ startsWord c = true ∧ ∀ d ∈ cs, continuesWord d = true

/-- The names of the overloads of operators. -/
inductive IsOverload : String → Prop
  | divide : IsOverload "operator/"
  | convert : IsOverload "operator\"\""
  | symbol {text : String} {symbol : Symbol} (spells : Symbol.ofPunctuator? text = some symbol)
      (overloads : Parsing.isOverloadable (.symbol symbol) = true) : IsOverload ("operator" ++ text)

namespace TypePath

/-- A segment that stands for itself. -/
@[mk_iff] structure IsSegment (segment : String) : Prop where
  nonempty : segment ≠ ""
  down : segment ≠ ".."

variable {segment : String} {segments : List String}

theorem foldUp_of_ne (plain : ∀ segment ∈ segments, segment ≠ "..") :
    foldUp kept segments = kept.reverse ++ segments := by
  induction segments generalizing kept with
  | nil => exact (append_nil _).symm
  | cons segment _ ih =>
    obtain ⟨here, others⟩ := forall_mem_cons.mp plain
    rw [foldUp, if_neg here, ih others, reverse_cons, append_assoc, singleton_append]

theorem normalize_eq (plain : ∀ segment ∈ segments, IsSegment segment) : normalize segments = segments := by
  have filled : segments.filter (fun segment => !segment.isEmpty) = segments :=
    filter_eq_self.mpr fun segment member => by simpa using (plain segment member).nonempty
  rw [normalize, filled]
  exact foldUp_of_ne fun segment member => (plain segment member).down

theorem isSegment_of_mem_normalize (segments : List String) :
    ∀ segment ∈ normalize segments, IsSegment segment := by
  have fold (kept segments : List String) (filled : ∀ segment ∈ segments, segment ≠ "")
      (plain : ∀ segment ∈ kept, IsSegment segment) : ∀ segment ∈ foldUp kept segments, IsSegment segment := by
    induction segments generalizing kept with
    | nil => simpa [foldUp] using plain
    | cons _ _ ih =>
      obtain ⟨here, filled⟩ := forall_mem_cons.mp filled
      rw [foldUp]
      split
      · exact ih _ filled fun segment member => plain segment (mem_of_mem_tail member)
      · next up => exact ih _ filled (forall_mem_cons.mpr ⟨⟨here, up⟩, plain⟩)
  refine fold [] _ (fun segment member => ?_) (forall_mem_nil _)
  simpa using (mem_filter.mp member).2

/-! The pieces of a text. -/

theorem piecesFrom_append :
    piecesFrom piece (front ++ '/' :: rest) = piecesFrom piece front ++ pieces rest := by
  induction front generalizing piece with
  | nil => simp [piecesFrom, pieces]; split <;> rfl
  | cons c front ih => by_cases slash : c = '/' <;> simp [piecesFrom, slash, ih]; split <;> rfl

theorem pieces_append (front rest : List Char) : pieces (front ++ '/' :: rest) = pieces front ++ pieces rest :=
  piecesFrom_append

theorem pieces_of_solid {cs : List Char} (solid : '/' ∉ cs) :
    pieces cs = if cs.isEmpty then [] else [String.ofList cs] := by
  have from_ (piece : List Char) : piecesFrom piece cs = piecesFrom (cs.reverse ++ piece) [] := by
    induction cs generalizing piece with
    | nil => rfl
    | cons c cs ih =>
      obtain ⟨here, others⟩ := not_or.mp (mem_cons.not.mp solid)
      rw [show piecesFrom piece (c :: cs) = piecesFrom (c :: piece) cs from if_neg (Ne.symm here),
        ih others, reverse_cons,
        append_assoc, singleton_append]
  rw [pieces, from_, append_nil, piecesFrom, reverse_reverse, isEmpty_reverse]

/-- A text without a slash is one piece. -/
theorem pieces_single (filled : segment ≠ "") (solid : '/' ∉ segment.toList) :
    pieces segment.toList = [segment] := by
  rw [pieces_of_solid solid, if_neg (by simpa using filled), String.ofList_toList]

/-- The text of segments. -/
abbrev joined (segments : List String) : List Char := ['/'].intercalate (segments.map String.toList)

theorem joined_append (segments : List String) (front back : String) :
    joined (segments ++ [front ++ back]) = joined (segments ++ [front]) ++ back.toList := by
  induction segments with
  | nil => simp [joined]
  | cons _ segments ih =>
    obtain ⟨_, _, split⟩ := exists_cons_of_ne_nil (show segments ++ [front] ≠ [] by simp)
    obtain ⟨_, _, split'⟩ := exists_cons_of_ne_nil (show segments ++ [front ++ back] ≠ [] by simp)
    rw [split, split'] at ih
    simp only [joined, cons_append, split, split', map_cons, intercalate_cons_cons, append_assoc] at ih ⊢
    rw [ih]

theorem pieces_joined (solid : ∀ segment ∈ segments, segment ≠ "" ∧ '/' ∉ segment.toList) :
    pieces (joined segments) = segments := by
  induction segments with
  | nil => rfl
  | cons segment segments ih =>
    obtain ⟨⟨filled, free⟩, others⟩ := forall_mem_cons.mp solid
    have single := pieces_single filled free
    cases segments with
    | nil => simpa [joined] using single
    | cons _ _ =>
      have rest := ih others
      simp only [joined, map_cons, intercalate_cons_cons, append_assoc, singleton_append] at rest ⊢
      rw [pieces_append, single, rest]
      rfl

/-! Reading the text of a path. -/

/-- A segment that starts as a word does. -/
def StartsWord (segment : String) : Prop := ∃ c cs, segment.toList = c :: cs ∧ Text.startsWord c = true

theorem StartsWord.ne (starts : StartsWord segment) (other : ∀ c ∈ word.toList.head?, Text.startsWord c = false) :
    segment ≠ word := by
  rintro rfl
  obtain ⟨c, _, text, starts⟩ := starts
  exact absurd (other c (by rw [text]; rfl)) (by simp [starts])

theorem StartsWord.isSegment (starts : StartsWord segment) : IsSegment segment :=
  ⟨starts.ne (by simp), starts.ne fun _ first => by cases first; rfl⟩

theorem startsWord_operator (text : String) : StartsWord ("operator" ++ text) :=
  ⟨'o', "perator".toList ++ text.toList, by rw [String.toList_append]; rfl, rfl⟩

/-- A segment that is a piece of its own. -/
structure IsPiece (segment : String) : Prop where
  starts : StartsWord segment
  solid : '/' ∉ segment.toList

theorem isPiece_of_isWord (word : Text.IsWord segment) : IsPiece segment := by
  obtain ⟨c, cs, text, starts, continues⟩ := word
  refine ⟨⟨c, cs, text, starts⟩, ?_⟩
  rw [text, mem_cons, not_or]
  exact ⟨fun slash => (by subst slash; cases starts), fun slash => (by cases continues _ slash)⟩

/-- A piece is one more segment. -/
theorem add_piece (piece : IsPiece name) {path : TypePath} (plain : ∀ segment ∈ path.segments, IsSegment segment) :
    (path.add name).segments = path.segments ++ [name] ∧
      ∀ segment ∈ (path.add name).segments, IsSegment segment := by
  have all : ∀ segment ∈ path.segments ++ [name], IsSegment segment :=
    forall_mem_append.mpr ⟨plain, by simpa using piece.starts.isSegment⟩
  rw [add, pieces_single piece.starts.isSegment.nonempty piece.solid, ofSegments, normalize_eq all]
  exact ⟨rfl, all⟩

/-- What the last segment of a path may be. Two overloads have a name with a slash in it. -/
def IsName (segment : String) : Prop :=
  IsPiece segment ∨ segment = "operator" ++ "/" ∨ segment = "operator" ++ "/="

theorem IsName.starts (named : IsName segment) : StartsWord segment := by
  rcases named with piece | rfl | rfl
  · exact piece.starts
  · exact startsWord_operator "/"
  · exact startsWord_operator "/="

theorem isName_of_isOverload (overload : IsOverload segment) : IsName segment := by
  cases overload with
  | divide => exact .inr (.inl rfl)
  | convert => exact .inl ⟨startsWord_operator "\"\"", by decide⟩
  | @symbol text symbol spells overloads =>
    by_cases slash : text = "/="
    · exact .inr (.inr (by rw [slash]))
    have solid : '/' ∉ text.toList := by
      unfold Symbol.ofPunctuator? at spells
      split at spells <;> cases spells <;> first | decide | exact absurd rfl slash | cases overloads
    refine .inl ⟨startsWord_operator text, ?_⟩
    rw [String.toList_append, mem_append, not_or]
    exact ⟨by decide, solid⟩

/-- Segments as the text of a path may hold them: pieces, behind which an overload may stand. -/
structure AreSegments (segments : List String) : Prop where
  front : ∀ segment ∈ segments.dropLast, IsPiece segment
  last : ∀ segment ∈ segments.getLast?, IsName segment

theorem AreSegments.starts (known : AreSegments segments) : ∀ segment ∈ segments, StartsWord segment := by
  intro segment member
  rcases eq_nil_or_concat segments with rfl | ⟨_, last, rfl⟩
  · cases member
  rw [concat_eq_append] at known member
  rcases mem_append.mp member with inside | behind
  · exact (known.front segment (by simpa using inside)).starts
  · rw [mem_singleton.mp behind]
    exact (known.last last (by simp)).starts

theorem readSegments_joined (known : AreSegments segments) (start : front = [] ∨ front = ['/']) :
    readSegments (front ++ joined segments) = segments := by
  rcases eq_nil_or_concat segments with rfl | ⟨words, last, rfl⟩
  · rcases start with rfl | rfl <;> decide
  rw [concat_eq_append] at known ⊢
  have read (last : String) (piece : IsPiece last) : pieces
      (front ++ joined (words ++ [last])) = words ++ [last] := by
    have skips (cs : List Char) : pieces (front ++ cs) = pieces cs := by
      rcases start with rfl | rfl
      · rfl
      · exact pieces_append [] cs
    have pieces_ : ∀ segment ∈ words ++ [last], IsPiece segment := by
      simpa [or_imp, forall_and, piece] using known.front
    rw [skips, pieces_joined fun segment member =>
      ⟨(pieces_ _ member).starts.isSegment.nonempty, (pieces_ _ member).solid⟩]
  have operator : IsPiece "operator" := ⟨startsWord_operator "", by decide⟩
  have ends := congrArg (front ++ ·) (joined_append words "" last)
  simp only [String.empty_append, ← append_assoc] at ends
  generalize front ++ joined (words ++ [""]) = before at ends
  rcases known.last last (by simp) with piece | rfl | rfl
  · have no_slash : "operator/".toList.isSuffixOf (front ++ joined (words ++ [last])) = false := by
      refine Bool.eq_false_iff.mpr fun suffix => piece.solid ?_
      obtain ⟨rest, split⟩ := isSuffixOf_iff_suffix.mp suffix
      have same := congrArg getLast? (split.trans ends)
      obtain ⟨c, cs, text, -⟩ := piece.starts
      rw [getLast?_append, getLast?_append, text, getLast?_cons] at same
      rw [text]
      exact mem_of_getLast? (getLast?_cons.trans same.symm)
    have no_equals : "operator/=".toList.isSuffixOf (front ++ joined (words ++ [last])) = false := by
      refine Bool.eq_false_iff.mpr fun suffix => ?_
      obtain ⟨rest, split⟩ := isSuffixOf_iff_suffix.mp suffix
      have same := (congrArg pieces split).trans (read last piece)
      rw [show rest ++ "operator/=".toList = (rest ++ "operator".toList) ++ '/' :: ['='] by simp,
        pieces_append] at same
      have same : "=" = last := List.cons.inj (append_inj' same rfl).2 |>.1
      exact absurd same.symm (piece.starts.ne fun c first => by cases first; rfl)
    simp only [readSegments, no_slash, no_equals, read last piece, Bool.false_and, Bool.false_eq_true, if_false]
  · have suffix : "operator/".toList.isSuffixOf (front ++ joined (words ++ ["operator" ++ "/"])) = true :=
      isSuffixOf_iff_suffix.mpr ⟨before, ends.symm⟩
    rw [readSegments, if_pos suffix, joined_append, ← append_assoc,
      show "/".toList = '/' :: [] from rfl, pieces_append,
      read _ operator]
    simp [replaceLast, pieces, piecesFrom]
  · have suffix : "operator/=".toList.isSuffixOf (front ++ joined (words ++ ["operator" ++ "/="])) = true :=
      isSuffixOf_iff_suffix.mpr ⟨before, ends.symm⟩
    have no_slash : "operator/".toList.isSuffixOf (front ++ joined (words ++ ["operator" ++ "/="])) = false := by
      refine Bool.eq_false_iff.mpr fun suffix => ?_
      obtain ⟨rest, split⟩ := isSuffixOf_iff_suffix.mp suffix
      have same := congrArg getLast? (split.trans ends)
      simp at same
    rw [readSegments, no_slash, suffix, joined_append, ← append_assoc,
      show "/=".toList = '/' :: ['='] from rfl, pieces_append,
      read _ operator]
    simp [replaceLast, pieces, piecesFrom]

/-- A path can be read from its text, if its segments are words and the last one may be an overload. -/
theorem parse_render (path : TypePath) (words : ∀ segment ∈ path.segments.dropLast, Text.IsWord segment)
    (last : ∀ segment ∈ path.segments.getLast?, Text.IsWord segment ∨ IsOverload segment) :
      parse path.render = path := by
  obtain ⟨anchor, segments⟩ := path
  have known : AreSegments segments :=
    ⟨fun segment member => isPiece_of_isWord (words segment member),
      fun segment member => (last segment member).elim (.inl ∘ isPiece_of_isWord) isName_of_isOverload⟩
  have normal : normalize segments = segments := normalize_eq fun segment member =>
    (known.starts segment member).isSegment
  have plain := readSegments_joined known (.inl rfl)
  have behind_slash := readSegments_joined known (.inr rfl)
  have first : joined segments = [] ∨ ∃ c cs, joined segments = c :: cs ∧ Text.startsWord c = true := by
    cases segments with
    | nil => exact .inl rfl
    | cons segment rest =>
      obtain ⟨c, cs, text, starts⟩ := known.starts segment mem_cons_self
      cases rest <;> exact .inr ⟨c, _, by simp [joined, text]; rfl, starts⟩
  have text : (TypePath.render ⟨anchor, segments⟩).toList = anchor.mark.toList ++ joined segments := by
    rw [render, String.toList_append, String.toList_intercalate]
    rfl
  rw [parse, text]
  cases anchor with
  | absolute =>
    show ofSegments .absolute (readSegments (['/'] ++ joined segments)) = _
    rw [behind_slash, ofSegments, normal]
  | downward =>
    show ofSegments .downward (readSegments (joined segments)) = _
    rw [show joined segments = [] ++ joined segments from rfl, plain, ofSegments, normal]
  | relative =>
    have read : readChars (joined segments) = ofSegments .relative (readSegments (joined segments)) := by
      rcases first with nothing | ⟨c, cs, text, starts⟩
      · rw [nothing]; rfl
      · rw [text, readChars.eq_def]
        split <;> first | rfl | (rename_i same; cases same; cases starts)
    exact read.trans (by rw [← nil_append (joined segments), plain, ofSegments, normal])
  | upward =>
    have read : readChars ('.' :: joined segments) = ofSegments .upward (readSegments (joined segments)) := by
      rcases first with nothing | ⟨c, cs, text, starts⟩
      · rw [nothing]; rfl
      rw [text, readChars.eq_def]
      split
      case h_4 same => cases same; rfl
      case h_5 others => exact absurd rfl (others _)
      all_goals (rename_i same; cases same) <;> cases starts
    exact read.trans (by rw [← nil_append (joined segments), plain, ofSegments, normal])

theorem parse_render_overload : parse (render ⟨.absolute, ["datum", "proc", "operator/="]⟩) =
    ⟨.absolute, ["datum", "proc", "operator/="]⟩ := by
  have word {segment : String} (c : Char) (cs : List Char) (text : segment = String.ofList (c :: cs))
    (starts : Text.startsWord c = true)
      (continues : cs.all Text.continuesWord = true) : Text.IsWord segment :=
    ⟨c, cs, by rw [text, String.toList_ofList], starts, all_eq_true.mp continues⟩
  refine parse_render _ ?_ ?_
  · simpa using ⟨word 'd' ['a', 't', 'u', 'm'] rfl rfl rfl, word 'p' ['r', 'o', 'c'] rfl rfl rfl⟩
  · have overload : IsOverload ("operator" ++ "/=") := .symbol rfl rfl
    simpa using .inr overload

end TypePath

end DreamMaker
