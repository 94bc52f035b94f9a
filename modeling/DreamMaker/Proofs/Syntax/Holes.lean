import DreamMaker.Parsing.Text
import DreamMaker.Proofs.Lexeme.Looks

/-!
The holes of a string are found twice: by the reader of quoted text, which follows the strings inside of holes, and
again in the value of the string, by quotes, backslashes and brackets alone. Both find the same, unless a quote
mark strays.
-/

namespace DreamMaker

open List

variable {cs piece : List Char} {quote : Char} {long : Bool}

namespace Segment

variable {outer : Nat} {c : Char} {rest : List Char}

def hole? : Segment → Option (List Char)
  | .hole cs => some cs
  | _ => none

/-- The texts of the holes among segments. -/
def holes (segments : List Segment) : List (List Char) := segments.filterMap hole?

/-! ### Where a hole ends -/

theorem holeLength?_outside : holeLength? outer none (c :: cs) =
    if c = '"' || c = '\'' then (holeLength? outer (some c) cs).map (· + 1)
    else if c = '[' then (holeLength? (outer + 1) none cs).map (· + 1) else if c = ']' then match outer with
      | 0 => some 0 | outer + 1 => (holeLength? outer none cs).map (· + 1)
    else (holeLength? outer none cs).map (· + 1) := rfl

theorem holeLength?_quoted (no_backslash : c ≠ '\\') : holeLength? outer (some quote) (c :: cs) =
      (holeLength? outer (if c = quote then none else some quote) cs).map (· + 1) := by
  rw [holeLength?.eq_def]
  exact if_neg no_backslash

theorem holeLength?_escape :
    holeLength? outer (some quote) ('\\' :: c :: cs) = (holeLength? outer (some quote) cs).map (· + 2) := rfl

/-- Read with so many brackets open, and inside of such quotes, a hole ends behind these characters. -/
structure Ends (outer : Nat) (quote? : Option Char) (cs hole rest : List Char) : Prop where
  text : cs = hole ++ ']' :: rest
  length : holeLength? outer quote? cs = some hole.length

/-- Inside of quotes a backslash before the first character makes no difference. -/
structure Deep (outer : Nat) (quote : Char) (cs hole rest : List Char) : Prop where
  bare : Ends outer (some quote) cs hole rest
  escaped : Ends outer (some quote) ('\\' :: cs) ('\\' :: hole) rest

namespace Ends

variable {hole : List Char}

theorem stop : Ends 0 none (']' :: cs) [] cs := ⟨rfl, rfl⟩

theorem plain (ends : Ends outer none cs hole rest) (no_quote : c ≠ '"' ∧ c ≠ '\'')
    (no_bracket : c ≠ '[' ∧ c ≠ ']') :
    Ends outer none (c :: cs) (c :: hole) rest := by
  refine ⟨by rw [ends.text]; rfl, ?_⟩
  rw [holeLength?_outside]
  simp [no_quote, no_bracket, ends.length]

theorem opens (ends : Ends (outer + 1) none cs hole rest) : Ends outer none ('[' :: cs) ('[' :: hole) rest := by
  refine ⟨by rw [ends.text]; rfl, ?_⟩
  rw [holeLength?_outside]
  simp [ends.length]

theorem closes (ends : Ends outer none cs hole rest) : Ends (outer + 1) none (']' :: cs) (']' :: hole) rest := by
  refine ⟨by rw [ends.text]; rfl, ?_⟩
  rw [holeLength?_outside]
  simp [ends.length]

theorem enter (ends : Ends outer (some quote) cs hole rest) (mark : quote = '"' ∨ quote = '\'') :
    Ends outer none (quote :: cs) (quote :: hole) rest := by
  refine ⟨by rw [ends.text]; rfl, ?_⟩
  rw [holeLength?_outside]
  rcases mark with rfl | rfl <;> simp [ends.length]

theorem leave (ends : Ends outer none cs hole rest) (no_backslash : quote ≠ '\\') :
    Ends outer (some quote) (quote :: cs) (quote :: hole) rest := by
  refine ⟨by rw [ends.text]; rfl, ?_⟩
  rw [holeLength?_quoted no_backslash]
  simp [ends.length]

variable (ends : Ends outer (some quote) cs hole rest)

include ends

theorem escape (c : Char) : Ends outer (some quote) ('\\' :: c :: cs) ('\\' :: c :: hole) rest := by
  refine ⟨by rw [ends.text]; rfl, ?_⟩
  rw [holeLength?_escape]
  simp [ends.length]

theorem copy (no_backslash : c ≠ '\\') (no_quote : c ≠ quote) :
    Ends outer (some quote) (c :: cs) (c :: hole) rest := by
  refine ⟨by rw [ends.text]; rfl, ?_⟩
  rw [holeLength?_quoted no_backslash]
  simp [no_quote, ends.length]

/-- A backslash before a piece without backslashes has no effect on what follows. -/
theorem deep (some : piece ≠ [])
    (no_backslash : '\\' ∉ piece) (no_quote : quote ∉ piece) :
      Deep outer quote (piece ++ cs) (piece ++ hole) rest := by
  have all : ∀ {piece : List Char}, '\\' ∉ piece → quote ∉ piece →
      Ends outer (Option.some quote) (piece ++ cs) (piece ++ hole) rest := by
    intro piece no_backslash no_quote
    induction piece with
    | nil => exact ends
    | cons c piece ih =>
      rw [mem_cons, not_or] at no_backslash no_quote
      exact (ih no_backslash.2 no_quote.2).copy (Ne.symm no_backslash.1) (Ne.symm no_quote.1)
  refine ⟨all no_backslash no_quote, ?_⟩
  obtain ⟨c, piece, rfl⟩ := exists_cons_of_ne_nil some
  rw [mem_cons, not_or] at no_backslash no_quote
  exact (all no_backslash.2 no_quote.2).escape c

end Ends

namespace Deep

variable {hole : List Char}

theorem cons (deep : Deep outer quote cs hole rest) (no_quote : c ≠ quote) :
    Deep outer quote (c :: cs) (c :: hole) rest := by
  refine ⟨?_, deep.bare.escape c⟩
  by_cases backslash : c = '\\'
  · rw [backslash]
    exact deep.escaped
  · exact deep.bare.copy backslash no_quote

theorem append (deep : Deep outer quote cs hole rest) (no_quote : quote ∉ piece) :
    Deep outer quote (piece ++ cs) (piece ++ hole) rest := by
  induction piece with
  | nil => exact deep
  | cons _ piece ih =>
    rw [mem_cons, not_or] at no_quote
    exact (ih no_quote.2).cons (Ne.symm no_quote.1)

end Deep

/-! ### Cutting a value -/

theorem splitFrom_plain (no_backslash : c ≠ '\\') (no_bracket : c ≠ '[') (run cs : List Char) :
    splitFrom 0 run (c :: cs) = splitFrom 0 (c :: run) cs := by
  conv => lhs; unfold splitFrom
  rw [if_neg no_backslash, if_neg no_bracket]

theorem splitFrom_escape : splitFrom 0 run ('\\' :: d :: cs) = splitFrom 0 (d :: '\\' :: run) cs :=rfl

theorem splitFrom_taken (front run cs : List Char) :
    splitFrom front.length run (front ++ cs) = splitFrom 0 run cs := by
  induction front with
  | nil => rfl
  | cons _ front ih => exact ih

theorem splitFrom_hole {hole : List Char} (ends : Ends 0 none cs hole rest) (run : List Char) :
    splitFrom 0 run ('[' :: cs) = .text run.reverse :: .hole hole :: split rest := by
  have text : cs.take hole.length = hole := by rw [ends.text, take_left]
  have behind : splitFrom (hole.length + 1) [] cs = split rest := by
    have taken := splitFrom_taken (hole ++ [']']) [] rest
    rwa [length_append, append_assoc, singleton_append, ← ends.text] at taken
  conv => lhs; unfold splitFrom
  simp [ends.length, text, behind]

end Segment

namespace Lexeme

variable {glances : List Glance}

open Segment

variable {outer outer' : List Quote} {inner' inner : Quote} {value : List Char} {depth : Nat}
  {terminator : Char}

/-! ### Both at once -/

/-- In the text of a string the pieces show the holes that are cut out. -/
def Cuts (value : List Char) (glances : List Glance) : Prop :=
  ∀ run, Segment.holes (splitFrom 0 run value) = Glance.holes [] glances ∧ .unclosed ∉ splitFrom 0 run value

/-- In a hole the pieces show the rest of the hole up to its end, and then those behind it. -/
def Held (ends : List Char → List Char → Prop) (glances : List Glance) : Prop :=
  ∃ hole rest, ends hole rest ∧ (∀ before,
    Glance.holes before glances = (before ++ hole) :: Segment.holes (split rest)) ∧
    .unclosed ∉ split rest

theorem Held.step (held : Held ends glances) (inside : glance.before.outer ≠ []) (stays : glance.after.outer ≠ [])
    (step : ∀ hole rest, ends hole rest → ends' (glance.piece ++ hole) rest) : Held ends' (glance :: glances) := by
  obtain ⟨hole, rest, found, shown, closed⟩ := held
  refine ⟨glance.piece ++ hole, rest, step hole rest found, fun _ => ?_, closed⟩
  simp [Glance.holes, inside, stays, shown]

/-- What the pieces from a place show of the value, by what the reader is inside of there. -/
def Shows : Quote → List Quote → List Char → List Glance → Prop
  | .text _ _, [], value, glances => Cuts value glances
  | .hole depth, [.text _ _], value, glances => Held (Ends depth none value) glances
  | .text quote _, [.hole depth, .text _ _], value, glances => Held (Ends depth (some quote) value) glances
  | _, outer, value, glances => ∀ deeper quote long depth terminator long',
    outer = deeper ++ [.text quote long, .hole depth, .text terminator long'] → Held (Deep depth quote value) glances

/-- Strings are written with one of two quote marks. -/
def Quote.Written : Quote → Prop
  | .text terminator _ => terminator = '"' ∨ terminator = '\''
  | .hole _ => True

/-- What is around the reader stays, or it goes into something, or it leaves what it is inside of. -/
theorem Moves.around (moves : Moves inner outer piece inner' outer') (written : inner.Written) :
    outer' = outer ∧ inner'.Written ∨ outer' = inner :: outer ∧ inner'.Written ∨
      outer = inner' :: outer' ∧ piece ≠ [] ∧ '\\' ∉ piece := by
  cases moves with
  | nothing | escape | copy => exact .inl ⟨rfl, written⟩
  | plain | opens | closes => exact .inl ⟨rfl, trivial⟩
  | hole => exact .inr (.inl ⟨rfl, trivial⟩)
  | string mark => exact .inr (.inl ⟨rfl, mark⟩)
  | longString => exact .inr (.inl ⟨rfl, .inl rfl⟩)
  | leaves => exact .inr (.inr ⟨rfl, by simp, by decide⟩)
  | ends | endsLong =>
    refine .inr (.inr ⟨rfl, by simp, ?_⟩)
    rcases written with rfl | rfl <;> decide

theorem Moves.written
    (moves : Moves inner outer piece inner' outer') (written : ∀ quote ∈ inner :: outer, quote.Written) :
    ∀ quote ∈ inner' :: outer', quote.Written := by
  obtain ⟨first, rest⟩ := forall_mem_cons.mp written
  rcases moves.around first with ⟨rfl, new⟩ | ⟨rfl, new⟩ | ⟨rfl, -⟩
  · exact forall_mem_cons.mpr ⟨new, rest⟩
  · exact forall_mem_cons.mpr ⟨new, written⟩
  · exact rest

theorem Shows.deep
    (shows_ : Shows inner (deeper ++ [.text quote long, .hole depth, .text terminator long']) value glances) :
    Held (Deep depth quote value) glances := by
  generalize around : deeper ++ [.text quote long, .hole depth, .text terminator long'] = outer at shows_
  have length := congrArg List.length around
  unfold Shows at shows_
  split at shows_
  · simp at length
  · simp at length
  · simp at length
  · exact shows_ deeper quote long depth terminator long' around.symm

section Steps

variable {joining joining' : Bool}

theorem Cuts.step (moves : Moves (.text terminator long) [] piece inner' outer')
    (next : Shows inner' outer' value glances) :
    Cuts (piece ++ value)
      (⟨⟨.text terminator long, [], joining⟩, piece, ⟨inner', outer', joining'⟩⟩ :: glances) := by
  intro run
  show Segment.holes (splitFrom 0 run (piece ++ value)) = Glance.holes [] glances ∧ _
  cases moves with
  | nothing => exact next run
  | escape _ =>
    exact next _
  | copy no_backslash no_bracket =>
    rw [singleton_append, splitFrom_plain no_backslash no_bracket]
    exact next _
  | hole =>
    obtain ⟨hole, _, ends, holes, closed⟩ := next
    rw [singleton_append, splitFrom_hole ends, holes []]
    exact ⟨rfl, by simpa using closed⟩

theorem Held.step_hole
    (moves : Moves (.hole depth) [.text terminator long] piece inner' outer')
    (next : Shows inner' outer' value glances) :
    Held (Ends depth none (piece ++ value))
      (⟨⟨.hole depth, [.text terminator long], joining⟩, piece, ⟨inner', outer', joining'⟩⟩ :: glances) :=
  by
  cases moves with
  | nothing => exact Held.step next nofun nofun fun hole rest ends => ends
  | plain no_quote no_bracket => exact Held.step next nofun nofun fun hole rest ends => ends.plain no_quote no_bracket
  | opens => exact Held.step next nofun nofun fun hole rest ends => ends.opens
  | closes => exact Held.step next nofun nofun fun hole rest ends => ends.closes
  | string mark => exact Held.step next nofun nofun fun hole rest ends => ends.enter mark
  | longString =>
    exact Held.step next nofun nofun fun hole rest ends => (ends.enter (.inl rfl)).plain (by decide) (by decide)
  | leaves =>
    obtain ⟨holes, closed⟩ := next []
    exact ⟨[], value, .stop, fun _ => by simp [Glance.holes, ← holes, split], closed⟩

theorem Held.step_string (mark : quote = '"' ∨ quote = '\'')
    (moves : Moves (.text quote long) [.hole depth, .text terminator long'] piece inner' outer')
    (calm : Glance.strays ⟨⟨.text quote long, [.hole depth, .text terminator long'], joining⟩, piece,
      ⟨inner', outer', joining'⟩⟩ = false)
    (next : Shows inner' outer' value glances) : Held (Ends depth (some quote) (piece ++ value))
      (⟨⟨.text quote long, [.hole depth, .text terminator long'], joining⟩, piece,
        ⟨inner', outer', joining'⟩⟩ :: glances) := by
  have no_backslash : quote ≠ '\\' := by rcases mark with rfl | rfl <;> decide
  have no_bracket : '[' ≠ quote := by rcases mark with rfl | rfl <;> decide
  cases moves with
  | nothing => exact Held.step next nofun nofun fun hole rest ends => ends
  | escape c => exact Held.step next nofun nofun fun hole rest ends => ends.escape c
  | copy other =>
    refine Held.step next nofun nofun fun hole rest ends => ends.copy other ?_
    rintro rfl
    simp [Glance.strays, Quoting.innerQuote?] at calm
  | hole =>
    have deep := next [] quote long depth terminator long' rfl
    exact Held.step deep nofun nofun fun hole rest deep => deep.bare.copy (by decide) no_bracket
  | ends => exact Held.step next nofun nofun fun hole rest ends => ends.leave no_backslash
  | endsLong =>
    exact Held.step next nofun nofun fun hole rest ends => (ends.plain (by decide) (by decide)).leave no_backslash

/-- Deep inside of a string no quote mark of it is read. -/
theorem Held.step_deep (written : inner.Written)
    (moves : Moves inner (deeper ++ [.text quote long, .hole depth, .text terminator long']) piece inner' outer')
    (calm :
      Glance.strays ⟨⟨inner, deeper ++ [.text quote long, .hole depth, .text terminator long'], joining⟩, piece,
      ⟨inner', outer', joining'⟩⟩ = false) (next : Shows inner' outer' value glances) :
    Held (Deep depth quote (piece ++ value))
      (⟨⟨inner, deeper ++ [.text quote long, .hole depth, .text terminator long'], joining⟩, piece,
        ⟨inner', outer', joining'⟩⟩ :: glances) := by
  have absent : quote ∉ piece := by simpa [Glance.strays, Quoting.innerQuote?] using calm
  rcases moves.around written with ⟨rfl, -⟩ | ⟨rfl, -⟩ | ⟨around, some, no_backslash⟩
  · exact Held.step next.deep (by simp) (by simp) fun hole rest deep => deep.append absent
  · rw [← cons_append] at next
    exact Held.step next.deep (by simp) (by simp) fun hole rest deep => deep.append absent
  cases deeper with
  | nil =>
    obtain ⟨rfl, rfl⟩ := List.cons.inj around
    exact Held.step next (by simp) (by simp) fun hole rest ends => ends.deep some no_backslash absent
  | cons _ deeper =>
    obtain ⟨rfl, rfl⟩ := List.cons.inj around
    exact Held.step next.deep (by simp) (by simp) fun hole rest deep => deep.append absent

theorem Shows.step (written : ∀ quote ∈ inner :: outer, quote.Written)
    (moves : Moves inner outer piece inner' outer')
    (calm : Glance.strays ⟨⟨inner, outer, joining⟩, piece, ⟨inner', outer', joining'⟩⟩ = false)
    (next : Shows inner' outer' value glances) :
    Shows inner outer (piece ++ value)
      (⟨⟨inner, outer, joining⟩, piece, ⟨inner', outer', joining'⟩⟩ :: glances) := by
  have first := written inner (by simp)
  unfold Shows
  split
  · exact Cuts.step moves next
  · exact Held.step_hole moves next
  · exact Held.step_string first moves calm next
  · rintro _ quote _ _ _ _ rfl
    exact Held.step_deep first moves calm next

end Steps

/-- From any place the pieces show what is cut out of the value, if no quote mark strays. -/
theorem shows_bodyFrom (complete : (bodyFrom taken q cs).complaint? = none)
    (written : ∀ quote ∈ q.inner :: q.outer, quote.Written)
    (calm : ∀ glance ∈ glancesFrom taken q cs, glance.strays = false) :
    Shows q.inner q.outer (bodyFrom taken q cs).value (glancesFrom taken q cs) := by
  induction cs generalizing taken q with
  | nil => cases complete
  | cons c cs ih =>
    cases taken with
    | succ taken => exact ih complete written calm
    | zero =>
      rcases looked : q.look c cs.head? with _ | ⟨_, _, _⟩
      · obtain ⟨read, seen⟩ := bodyFrom_of_stop looked
        rw [read] at complete ⊢
        rw [seen]
        have stops := q.look_stops looked complete
        rcases q with ⟨inner, outer, _⟩
        obtain rfl : outer = [] := stops.alone
        cases inner with
        | text terminator long =>
          rw [stops.value terminator long rfl]
          exact fun _ => ⟨rfl, by simp [splitFrom]⟩
        | hole depth =>
          intro _ quote long depth terminator _ around
          simp at around
      · obtain ⟨read, seen⟩ := bodyFrom_of_go looked
        rw [read] at complete ⊢
        rw [seen] at calm ⊢
        obtain ⟨first, rest⟩ := forall_mem_cons.mp calm
        have moves := Quoting.look_moves looked
        exact Shows.step written moves first (ih complete (moves.written written) rest)

end Lexeme

theorem Segment.holes_split {l : Lexeme} (held : l.Holds long cs)
    (calm : ∀ glance ∈ l.glances, glance.strays = false) :
    holes (split (l.value?.getD "").toList) = l.holes ∧ .unclosed ∉ split (l.value?.getD "").toList := by
  rw [held.glances] at calm
  have written : ∀ quote ∈ [Lexeme.Quote.text '"' long], quote.Written := by
    intro quote member
    obtain rfl := mem_singleton.mp member
    exact .inl rfl
  have cuts : Lexeme.Cuts (Lexeme.stringBody '"' long cs).value l.glances := by
    rw [held.glances]
    exact Lexeme.shows_bodyFrom held.complete written calm
  rw [held.value, Option.getD_some, String.toList_ofList]
  exact cuts []

open Parsing in
/-- Where a string is read in which no quote mark strays, the holes in its value are those that the scanner went
through, in order and with the same text, and each has its closing bracket. -/
theorem Parsing.stringLiteral_holes {origin : Lexeme.Origin} {text : String} {l : Lexeme}
    (member : l ∈ Lexeme.scan origin text) (quoted : l.kind = .quoted) (string : Layout.stringKind l = .string)
    (calm : ∀ glance ∈ l.glances, glance.strays = false) :
    ∃ segments, Segment.holes segments = l.holes ∧ .unclosed ∉ segments ∧
      ∀ (rules : Rules) (s s' : Layout) (token : Token), s.give? l = some (token, s') →
        stringLiteral rules token = do
          let format ← segments.foldlM (addSegment rules token.span) {}
          return format.toExpr token.span := by
  obtain ⟨_, _, held⟩ := Lexeme.exists_holds member quoted string
  obtain ⟨same, closed⟩ := Segment.holes_split held calm
  refine ⟨_, same, closed, fun rules s s' token given => ?_⟩
  have value : token.textValue = l.value?.getD "" := by
    simp only [Layout.give?, quoted, Option.some.injEq] at given
    have made : (s.giveString (Layout.stringKind l) l).1 = token := congrArg Prod.fst given
    rw [← made]
    rfl
  rw [stringLiteral, value]

/-- The string `"["a[1]\"]" + {"b[x]"}]['c']"` has two holes, and the strings in the first have holes, brackets and a
quote mark behind a backslash. -/
theorem Parsing.stringLiteral_holes_nested :
    ∃ l ∈ Lexeme.scan (.file 0) "\"[\"a[1]\\\"]\" + \x7b\"b[x]\"\x7d]['c']\"",
      l.holes = ["\"a[1]\\\"]\" + \x7b\"b[x]\"\x7d".toList, "'c'".toList] ∧
      ∃ segments, Segment.holes segments = l.holes ∧ .unclosed ∉ segments ∧
        ∀ (rules : Rules) (s s' : Layout) (token : Token), s.give? l = some (token, s') →
          stringLiteral rules token = do
            let format ← segments.foldlM (addSegment rules token.span) {}
            return format.toExpr token.span := by
  obtain ⟨l, member, quoted, string, calm, shown⟩ :
      ∃ l ∈ Lexeme.scan (.file 0) "\"[\"a[1]\\\"]\" + \x7b\"b[x]\"\x7d]['c']\"",
        l.kind = .quoted ∧ Layout.stringKind l = .string ∧ (∀ glance ∈ l.glances, glance.strays = false) ∧
        l.holes = ["\"a[1]\\\"]\" + \x7b\"b[x]\"\x7d".toList, "'c'".toList] := by
    decide +kernel
  exact ⟨l, member, shown, stringLiteral_holes member quoted string calm⟩

/-- In `"["["]"]"]"` the scanner goes through one hole. In the value that hole ends at the first bracket behind two
quote marks. -/
theorem Parsing.stringLiteral_cuts_early :
    (Lexeme.scan (.file 0) "\"[\"[\"]\"]\"]\"").map (·.kind) = [.quoted, .endOfText] ∧
      ∃ l ∈ Lexeme.scan (.file 0) "\"[\"[\"]\"]\"]\"", l.kind = .quoted ∧ Layout.stringKind l = .string ∧
        l.holes = ["\"[\"]\"]\"".toList] ∧ Segment.holes
          (Segment.split (l.value?.getD "").toList) = ["\"[\"".toList] := by
  decide +kernel

end DreamMaker
