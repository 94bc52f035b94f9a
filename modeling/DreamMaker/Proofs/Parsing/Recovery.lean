import DreamMaker.Proofs.Parsing.Parts
import DreamMaker.Proofs.Token.Append

/-!
Errors in one line of a file stay there. Where what is skipped ends before the line does, the parts of the file
above and below the line are read as they are read alone.
-/

namespace DreamMaker

open List DreamMaker.Span Lexeme Token

variable {front : List Token} {last : Token}

namespace Lexeme

/-- The lexemes of a text, wherever it stands. -/
def seen (cs : List Char) : List Lexeme := scanFrom (.embedded .unknown) 0 .first true cs

theorem hide_scanFrom (origin : Origin) (taken : Nat) (place place' : Position) (lineStart : Bool) (cs : List Char) :
    move hide (scanFrom origin taken place lineStart cs) = scanFrom (.embedded .unknown) taken place' lineStart cs :=
  move_scanFrom _ _ (fun _ _ _ _ => rfl) taken place place' lineStart cs

/-- A text that starts at the first column, as does the first that is read of it. -/
structure Flush (cs : List Char) : Prop where
  column : ∀ c ∈ cs.head?, isGap c = false
  first : ∀ l ∈ (seen cs).head?, l.kind ≠ .blank

/-- A text of whole lines that closes what it opens. -/
structure Chunk (cs : List Char) : Prop extends Flush cs where
  line : EndsLine cs
  reaches : reachesLine 0 true cs = true
  closed : ((seen cs).map (·.kind)).foldl Kind.nesting 0 = 0

/-- One line only. -/
def OneLine (cs : List Char) : Prop := ((seen cs).map (·.kind)).count .newline = 1

instance (cs : List Char) : Decidable (OneLine cs) := inferInstanceAs (Decidable (_ = _))

instance (cs : List Char) : Decidable (Flush cs) :=
  decidable_of_iff ((cs.head?.all fun c => !isGap c) = true ∧ ((seen cs).head?.all fun l => l.kind != .blank) = true)
    ⟨fun ⟨column, first⟩ =>
      ⟨by simpa [Option.all_eq_true] using column, by simpa [Option.all_eq_true] using first⟩,
      fun ⟨column, first⟩ =>
        ⟨by simpa [Option.all_eq_true] using column, by simpa [Option.all_eq_true] using first⟩⟩

instance (cs : List Char) : Decidable (Chunk cs) :=
  decidable_of_iff (Flush cs ∧ cs.getLast? = some '\n' ∧ reachesLine 0 true cs = true ∧
      ((seen cs).map (·.kind)).foldl Kind.nesting 0 = 0)
    ⟨fun ⟨flush, line, reaches, closed⟩ => ⟨flush, line, reaches, closed⟩,
      fun ⟨flush, line, reaches, closed⟩ => ⟨flush, line, reaches, closed⟩⟩

theorem Flush.nil : Flush [] := ⟨by simp, by simp [seen, scanFrom]⟩

theorem scanFrom_eq_seen : scanFrom (.embedded .unknown) 0 place true cs = seen cs :=
  (hide_scanFrom (.embedded .unknown) 0 .first place true cs).symm.trans (hide_scanFrom _ _ _ _ _ _)

namespace Chunk

/-- What stands behind the lines of a chunk is scanned as if it stood alone. -/
theorem exists_lexemes (chunk : Chunk cs) :
    ∃ lexemes, OfLines lexemes ∧ ∀ rest, Flush rest → seen (cs ++ rest) = lexemes ++ seen rest := by
  obtain ⟨lexemes, _, lines, -, scans⟩ := scanFrom_append .first (.inr chunk.line) chunk.reaches
  refine ⟨lexemes, lines, fun rest flush => ?_⟩
  rw [seen, scans rest flush.column, scanFrom_eq_seen]

theorem append (chunk : Chunk cs) (flush : Flush rest) : Flush (cs ++ rest) := by
  obtain ⟨lexemes, -, scans⟩ := chunk.exists_lexemes
  obtain ⟨c, cs, rfl⟩ := exists_cons_of_ne_nil chunk.line.ne_nil
  refine ⟨chunk.column, ?_⟩
  rw [scans rest flush]
  have first := chunk.first
  rw [← append_nil (c :: cs), scans [] .nil] at first
  cases lexemes with
  | nil => exact flush.first
  | cons _ lexemes => exact first

/-- The tokens of a chunk come before the tokens of what stands behind it. -/
theorem exists_tokens (chunk : Chunk cs) :
    ∃ tokens, Token.OfLines tokens ∧ (OneLine cs → ∀ token ∈ tokens, token.kind ≠ .indent) ∧
      ∀ rest, Flush rest → move hide (ofLexemes (seen (cs ++ rest))) =
        move hide tokens ++ move hide (ofLexemes (seen rest)) := by
  obtain ⟨lexemes, lines, scans⟩ := chunk.exists_lexemes
  have alone : seen cs = lexemes ++ seen [] := by rw [← scans [] .nil, append_nil]
  have closed := chunk.closed
  rw [alone, map_append, foldl_append] at closed
  obtain ⟨tokens, ofLines, flat, same⟩ := exists_ofLexemes_append lines closed
  refine ⟨tokens, ofLines, fun oneLine => flat ?_, fun rest flush => by rw [scans rest flush, same _ flush.first]⟩
  rintro _ _ more rfl newline
  by_contra goes_on
  have last := lines.line (more.getLast goes_on)
    (by rw [getLast?_append, getLast?_cons_of_ne_nil goes_on, getLast?_eq_some_getLast goes_on]; rfl)
  have counted : 0 < (more.map (·.kind)).count .newline :=
    count_pos_iff.mpr (mem_map.mpr ⟨_, getLast_mem goes_on, last⟩)
  have once : ((seen cs).map (·.kind)).count .newline = 1 := oneLine
  rw [alone] at once
  simp only [map_append, map_cons, count_append, count_cons, newline, beq_self_eq_true, if_true] at once
  omega

end Chunk

end Lexeme

theorem Token.hide_ofLexemes_scan (origin : Lexeme.Origin) (text : String) :
    Alike hide (ofLexemes (scan origin text)) (ofLexemes (seen text.toList)) := by
  obtain ⟨_, _, split⟩ := exists_cons_of_ne_nil scanFrom_ne_nil
  obtain ⟨_, _, split'⟩ := exists_cons_of_ne_nil scanFrom_ne_nil
  have places := hide_scanFrom origin 0 .first .first true text.toList
  have places' := hide_scanFrom (.embedded .unknown) 0 .first .first true text.toList
  rw [Alike, scan, seen, split, split', move_ofLexemes, move_ofLexemes, ← split, ← split', places, places']

namespace Parsing

variable {source tokens onward : List Token} {t t' : State} {depth : Nat}

section Starts

variable (ends : EndsOnce source)

include ends

theorem tokens_ofTokens : (State.ofTokens source).tokens = source.dropWhile isInvalid :=
  State.tokens_advance ends.dropWhile_isInvalid.ne_nil

theorem reports_ofTokens :
    (State.ofTokens source).reports.toList = (source.takeWhile isInvalid).map State.invalid := by
  obtain ⟨_, _, behind⟩ := exists_cons_of_ne_nil ends.dropWhile_isInvalid.ne_nil
  rw [State.ofTokens, State.advance_eq (s := .before source) behind]
  simp [State.settled, State.before]

/-- Where a file starts with an error, an invalid token stands before its first declaration. -/
theorem dropsInvalid_of_complains (complains : Complains (State.ofTokens source).settle) :
    Setting.DropsInvalid source := by
  have all := (divide_of_imp isBetween_of_invalid source).1
  unfold Setting.DropsInvalid
  rw [all]
  rcases (Setting.complains_settle (.ofTokens ends)).mp complains with ⟨_, member, -⟩ | ⟨token, member, invalid⟩
  · rw [reports_ofTokens ends] at member
    obtain ⟨token, dropped, -⟩ := mem_map.mp member
    exact ⟨token, mem_append_left _ dropped, mem_takeWhile_imp dropped⟩
  · rw [tokens_ofTokens ends] at member
    exact ⟨token, mem_append_right _ member, invalid⟩

theorem tokens_settle_ofTokens : (State.ofTokens source).settle.tokens = source.dropWhile isBetween := by
  have settles := (Sits.ofTokens ends).settles
  rw [settles.tokens, tokens_ofTokens ends, ← (divide_of_imp isBetween_of_invalid _).2]

end Starts

section Invalid

/-- Where an invalid token is left behind, an error was reported. -/
theorem Later.complains (later : Later t t') (valid : isInvalid t.current = false)
    (fewer : t'.tokens.countP isInvalid < t.tokens.countP isInvalid) : Complains t' := by
  have alarms := later.alarms
  have valid' := later.valid valid
  simp only [State.tokens, countP_cons, valid, Bool.false_eq_true, if_false] at fewer
  unfold State.alarms at alarms
  have told : 0 < t'.reports.toList.countP (·.diagnostic.isError) := by omega
  obtain ⟨report, member, error⟩ := countP_pos_iff.mp told
  exact ⟨report, member, error⟩

end Invalid

section Lines

variable {tokens : List Token}

theorem sum_of_kind (kind : Token.Kind) (tokens : List Token) :
    (tokens.map fun token => if token.kind = kind then 1 else 0).sum = (tokens.map (·.kind)).count kind := by
  induction tokens with
  | nil => rfl
  | cons token tokens ih =>
    rw [map_cons, sum_cons, ih]
    by_cases same : token.kind = kind <;> simp [same, Nat.add_comm]

theorem sum_opens : (tokens.map opens).sum = (tokens.map (·.kind)).count .indent := sum_of_kind ..

theorem sum_closes : (tokens.map closes).sum = (tokens.map (·.kind)).count .dedent := sum_of_kind ..

/-- No block ends before the first declaration. -/
theorem flat_of_lines (lines : Token.OfLines tokens) :
    ∀ token ∈ tokens.takeWhile isBetween, token.kind ≠ .dedent := by
  intro token member dedent
  have opened := lines.opened (tokens.takeWhile isBetween).length
  rw [← prefix_iff_eq_take.mp ( takeWhile_prefix isBetween), ← sum_opens] at opened
  have none_open : ((tokens.takeWhile isBetween).map opens).sum = 0 := by
    refine sum_eq_zero fun _ known => ?_
    obtain ⟨token, between, rfl⟩ := mem_map.mp known
    exact Setting.opens_of_between (mem_takeWhile_imp between)
  have closed : 0 < ((tokens.takeWhile isBetween).map (·.kind)).count .dedent :=
    count_pos_iff.mpr (mem_map.mpr ⟨token, member, dedent⟩)
  omega

/-- Where no block starts, none ends. -/
theorem not_dedent_of_plain (lines : Token.OfLines tokens) (plain : ∀ token ∈ tokens, token.kind ≠ .indent) :
    ∀ token ∈ tokens, token.kind ≠ .dedent := by
  have none_open : (tokens.map (·.kind)).count .indent = 0 := by
    refine count_eq_zero.mpr fun member => ?_
    obtain ⟨token, known, kind⟩ := mem_map.mp member
    exact plain token known kind
  intro token member dedent
  exact count_eq_zero.mp (lines.closed.trans none_open) (mem_map.mpr ⟨token, member, dedent⟩)

theorem dropWhile_isIdle_of_flat (flat : ∀ token ∈ tokens.takeWhile isBetween, token.kind ≠ .dedent) :
    tokens.dropWhile isIdle = tokens.dropWhile isBetween := by
  induction tokens with
  | nil => rfl
  | cons token tokens ih =>
    cases between : isBetween token with
    | false =>
      have live : isIdle token = false := by
        cases idle : isIdle token with
        | false => rfl
        | true => rw [Setting.isBetween_of_idle token idle] at between; cases between
      rw [dropWhile_cons_of_neg (by simp [live]), dropWhile_cons_of_neg (by simp [between])]
    | true =>
      rw [takeWhile_cons_of_pos between] at flat
      obtain ⟨kind, others⟩ := forall_mem_cons.mp flat
      have idle : isIdle token = true := by
        simpa [isBetween, dividesFile, isIdle, kind] using between
      rw [dropWhile_cons_of_pos idle, dropWhile_cons_of_pos between, ih others]

theorem kinds_of_alike (same : Alike hide tokens tokens') : tokens.map (·.kind) = tokens'.map (·.kind) := by
  have kinds := congrArg (List.map (·.kind)) same
  simpa [move, Function.comp_def] using kinds

theorem lines_of_alike (lines : Token.OfLines tokens) (same : Alike hide tokens tokens') :
    Token.OfLines tokens' := by
  have kinds := kinds_of_alike same
  refine ⟨fun token member => ?_, fun token last => ?_, fun k => ?_, by rw [← kinds]; exact lines.closed⟩
  · obtain ⟨token', member', kind⟩ := mem_map.mp (kinds ▸ mem_map_of_mem member)
    have more := lines.goes_on token' member'
    unfold isEnd at more ⊢
    rwa [← kind]
  · have ends : (tokens.map (·.kind)).getLast? = some token.kind := by
      rw [kinds, getLast?_map, Option.mem_def.mp last]
      rfl
    rw [getLast?_map] at ends
    obtain ⟨token', last', kind⟩ := Option.map_eq_some_iff.mp ends
    rw [← kind]
    exact lines.last token' last'
  · rw [map_take, ← kinds, ← map_take]
    exact lines.opened k

end Lines

/-- Two runs whose places are not compared. -/
def Setting.unseen (mode : Mode) (rest : List Token)
    (anew : mode ≠ .whole → ∃ head tail, rest = head :: tail ∧ startsAnew head = true) : Setting where
  mode := mode
  view := hide
  sees := .inl fun _ _ => rfl
  blind _ _ _ := rfl
  exact := False
  exact_whole := False.elim
  exact_view := False.elim
  rest := rest
  anew := anew

instance : (Setting.unseen mode rest anew).Unseen := ⟨rfl, id⟩

theorem startsAnew_of_path (starts : startsPath token.kind = true) : startsAnew token = true := by
  unfold startsPath at starts
  unfold startsAnew isIdle isInvalid isDelimiter closesBlock
  cases kind : token.kind with
  | symbol symbol => cases symbol <;> simp_all [isSegment]
  | keyword keyword => cases keyword <;> simp_all [isSegment]
  | identifier => rfl
  | _ => simp [kind, isSegment] at starts

/-- What is found starts with a token that goes on with nothing before it. -/
theorem startsAnew_of_found (ends : EndsOnce s.tokens)
    (run : topLevel? (rulesUpTo (depth + 1)) s = (.ok (some declaration), s₁)) : startsAnew s.current = true := by
  cases starts : startsPath s.current.kind with
  | true => exact startsAnew_of_path starts
  | false =>
    have nothing : rulesUpTo (depth + 1) .declaration s = (.ok none, s) := declaration?_eq_none starts
    rw [topLevel?_of_none nothing ends] at run
    cases run

theorem weight_of_end (ends : token.isEnd = true) : weight token = 1 := by
  have kind := kind_of_end ends
  simp [weight, kind]

theorem weights_of_alike {tokens' : List Token} (same : Alike hide tokens tokens') :
    (tokens.map weight).sum = (tokens'.map weight).sum := by
  have weights := congrArg (List.map weight) same
  have moved (tokens : List Token) : (move hide tokens).map weight = tokens.map weight := map_map ..
  rw [moved, moved] at weights
  rw [weights]

/-- A run that is at the first declaration of these tokens, or at their end. -/
structure Comes (t : State) (tokens : List Token) : Prop extends Sits t where
  scope : t.scope = (State.before []).scope
  tokens : t.tokens = tokens.dropWhile isBetween

/-- What is read of a part that stands alone. Its tokens are `front`, and `last` is the end of the file. -/
structure Part (depth : Nat) (front : List Token) (last : Token) (declarations : List Declaration)
    (e : State) : Prop where
  ends : EndsOnce (front ++ [last])
  lines : Token.OfLines front
  light : ((front ++ [last]).map weight).sum < depth + 1
  leads : Leads (rulesUpTo (depth + 1)) (State.ofTokens (front ++ [last])).settle declarations e

theorem comes_ofTokens (ends : EndsOnce source) : Comes (State.ofTokens source).settle source where
  toSits := (settle_later (ends.ofTokens {})).sits (.ofTokens ends)
  scope := (settle_later (ends.ofTokens {})).scope.trans (scope_ofTokens ends)
  tokens := tokens_settle_ofTokens ends

namespace Part

variable {declarations : List Declaration} {S : Setting} {e : State}

section

variable (part : Part depth front last declarations e)

include part

theorem start : Comes (State.ofTokens (front ++ [last])).settle (front ++ [last]) := comes_ofTokens part.ends

theorem light_start : (State.ofTokens (front ++ [last])).settle.weight < depth + 1 := by
  have lighter := (settle_later (part.ends.ofTokens {})).weight_le
  have first := weight_ofTokens part.ends {}
  have light := part.light
  omega

theorem not_complains (silent : e.reports.toList = []) : ¬Complains (State.ofTokens (front ++ [last])).settle := by
  rintro ⟨_, member, -⟩
  have kept := (part.leads.later part.start.ends).reports.subset member
  rw [silent] at kept
  cases kept

theorem line (filled : front ≠ []) : ∃ token ∈ front.getLast?, endsLine token = true := by
  refine ⟨_, getLast?_eq_some_getLast filled, ?_⟩
  rcases part.lines.last _ (getLast?_eq_some_getLast filled) with kind | kind <;> simp [endsLine, kind]

/-- In both runs a part is read in the same way. -/
theorem passes [S.Unseen] (border : front ≠ [] → S.Border 0 front last onward)
    (reached : S.Reached (onward.dropWhile isBetween))
    (same : Alike S.view front front') (comes : Comes t (front' ++ onward))
    (complains : Complains (State.ofTokens (front ++ [last])).settle → Complains t)
    (clean : S.mode = .clean → e.reports.toList = [] ∧ declarations.length ≤ 1)
    (stops : S.mode = .line → ∀ skip ∈ e.skips.toList, skip.2 ≠ last.span) :
    ∃ declarations' t', S.Passes (rulesUpTo (depth + 1)) declarations e t declarations' t' := by
  have scope := part.start.scope.trans comes.scope.symm
  have abreast : S.Abreast (State.ofTokens (front ++ [last])).settle t := by
    refine ⟨⟨congrArg Prod.fst scope, congrArg Prod.snd scope, complains, fun exact_ =>
      absurd exact_ Setting.Unseen.inexact⟩, ?_⟩
    rw [part.start.tokens, comes.tokens]
    exact Setting.settled_of_parts part.ends same border reached fun _ _ => flat_of_lines part.lines
  refine abreast.follow part.leads part.start.toSits comes.toSits
    (settle_current (.ofTokens part.ends)) part.light_start clean
    fun mode token member isEnd => ?_
  rw [part.start.tokens] at member
  rcases mem_append.mp ((dropWhile_sublist _).subset member) with inside | behind
  · rw [part.lines.goes_on token inside] at isEnd
    cases isEnd
  · rw [mem_singleton.mp behind]
    exact stops mode

end

theorem dropWhile_ne_nil (part : Part depth front last [declaration] e) : front.dropWhile isBetween ≠ [] := by
  intro nothing
  have first := part.start.tokens
  rw [Setting.dropWhile_append_end part.ends.last, nothing] at first
  obtain ⟨_, _, _, goes_on, -⟩ := part.leads.cases_cons
  rw [(List.cons.inj first).1, part.ends.last] at goes_on
  cases goes_on

/-- Behind a part the second run comes to what follows it. -/
theorem comes_behind (passes : S.Passes (rulesUpTo (depth + 1)) declarations e t declarations' t')
    (apart : S.mode ≠ .whole)
    (behind : onward.dropWhile isIdle = S.rest) (comes : Comes t tokens) : Comes t' onward where
  toSits := passes.later.sits comes.toSits
  scope := passes.later.scope.trans comes.scope
  tokens := by
    have reached := passes.reached
    rw [Setting.Reached, if_neg apart, ← Setting.Beyond.settle apart behind] at reached
    exact reached

/-- A part that is read without a report is read in the same way in front of another one. -/
theorem passes_clean (part : Part depth front last [declaration] e) (silent : e.reports.toList = [])
    (same : Alike hide front front') (comes : Comes t (front' ++ onward))
    (anew : ∃ head tail, onward.dropWhile isIdle = head :: tail ∧ startsAnew head = true) :
    ∃ declarations' t', (Setting.unseen .clean (onward.dropWhile isIdle) fun _ => anew).Passes
      (rulesUpTo (depth + 1)) [declaration] e t
      declarations' t' := by
  have balanced : (front.map opens).sum + 0 ≤ (front.map closes).sum := by
    rw [sum_opens, sum_closes, part.lines.closed, Nat.add_zero]
  exact part.passes (fun filled => ⟨rfl, part.line filled, balanced⟩) (Setting.Beyond.reached nofun rfl) same comes
    (absurd · (part.not_complains silent)) (fun _ => ⟨silent, Nat.le_refl _⟩) nofun

/-- A line with errors is read alike in front of another part, if no skipping goes on to its end. -/
theorem passes_line (part : Part depth front last declarations e) (plain : ∀ token ∈ front, token.kind ≠ .indent)
    (stops : ∀ skip ∈ e.skips.toList, skip.2 ≠ last.span) (same : Alike hide front front')
    (comes : Comes t (front' ++ onward))
    (complains : Complains (State.ofTokens (front ++ [last])).settle → Complains t)
    (anew : ∃ head tail, onward.dropWhile isIdle = head :: tail ∧ startsAnew head = true) :
    ∃ declarations' t', (Setting.unseen .line (onward.dropWhile isIdle) fun _ => anew).Passes
      (rulesUpTo (depth + 1)) declarations e t
      declarations' t' := by
  have level : ∀ token ∈ front, opens token = 0 ∧ closes token = 0 := fun token member =>
    ⟨if_neg (plain token member), if_neg (not_dedent_of_plain part.lines plain token member)⟩
  exact part.passes (fun filled => ⟨rfl, part.line filled, rfl, level⟩)
    (Setting.Beyond.reached nofun rfl) same comes complains
    nofun fun _ => stops

/-- The last part of a file is read as it is alone. -/
theorem leads_last (part : Part depth front last declarations e) (same : Alike hide front front')
    (lasts : Alike hide last last') (comes : Comes t (front' ++ [last']))
    (complains : Complains (State.ofTokens (front ++ [last])).settle → Complains t) :
    ∃ declarations' t', Alike hide declarations declarations' ∧
      Leads (rulesUpTo (depth + 1)) t declarations' t' := by
  let S := Setting.unseen .whole [] fun apart => absurd rfl apart
  have ends : Alike S.view [last] [last'] := congrArg ([·]) lasts
  obtain ⟨declarations', t', passes⟩ := part.passes (S := S) (fun _ => ends)
    (Setting.reached_of_alike rfl part.ends.last ends) same
    comes complains nofun nofun
  obtain ⟨_, ⟨⟩, atEnd⟩ := passes.reached
  exact ⟨declarations', t', passes.same, by simpa using passes.leads [] t' (.stop atEnd)⟩

/-- A part that is read without a report starts a declaration of its own. -/
theorem exists_anew (part : Part depth front last [declaration] e) (silent : e.reports.toList = [])
    (same : Alike hide front front') (onward : List Token) :
    ∃ head tail, (front' ++ onward).dropWhile isIdle = head :: tail ∧ startsAnew head = true := by
  obtain ⟨_, _, _, -, run, rest⟩ := part.leads.cases_cons
  obtain ⟨declaration, rfl, -⟩ := rest.found_of_silent part.start.ends run silent
  have first := part.start.tokens
  obtain ⟨head, tail, split⟩ := exists_cons_of_ne_nil part.dropWhile_ne_nil
  rw [dropWhile_append, split] at first
  have anew := startsAnew_of_found part.start.ends run
  rw [(List.cons.inj first).1] at anew
  have alike := Setting.dropWhile_alike (p := isBetween) (fun _ => rfl) same
  rw [split] at alike
  obtain ⟨_, tail', split', heads, -⟩ := map_eq_cons_iff.mp alike.symm
  obtain ⟨span, rfl, -⟩ := exists_span_of_alike heads.symm
  refine ⟨{ head with span }, tail' ++ onward, ?_, anew⟩
  rw [dropWhile_append, dropWhile_isIdle_of_flat (flat_of_lines (lines_of_alike part.lines same)), split']
  rfl

/-- A line that does not go on with what stands above it, or the part below it. -/
theorem exists_anew_line (part : Part depth front last declarations e)
    (plain : ∀ token ∈ front, token.kind ≠ .indent)
    (apart : ∀ token ∈ ((front ++ [last]).dropWhile isIdle).head?,
      token.kind ≠ .symbol .leftBrace ∧ token.kind ≠ .symbol .rightBrace ∧ token.kind ≠ .keyword .else_)
    (same : Alike hide front front')
    (below : ∃ head tail, onward.dropWhile isIdle = head :: tail ∧ startsAnew head = true) :
    ∃ head tail, (front' ++ onward).dropWhile isIdle = head :: tail ∧ startsAnew head = true := by
  have alike := Setting.dropWhile_alike (p := isIdle) (fun _ => rfl) same
  cases left : front.dropWhile isIdle with
  | nil =>
    rw [left] at alike
    rw [dropWhile_append, map_eq_nil_iff.mp alike.symm]
    exact below
  | cons head tail =>
    rw [left] at alike
    obtain ⟨_, tail', left', heads, -⟩ := map_eq_cons_iff.mp alike.symm
    obtain ⟨span, rfl, -⟩ := exists_span_of_alike heads.symm
    refine ⟨{ head with span }, tail' ++ onward, by rw [dropWhile_append, left']; rfl, ?_⟩
    have member := (dropWhile_sublist isIdle).subset (left ▸ mem_cons_self ..)
    have live := head?_dropWhile_not isIdle front
    rw [left] at live
    obtain ⟨open_, close, other⟩ := apart head (by rw [dropWhile_append, left]; rfl)
    have idle : isIdle head = false := by simpa using live
    show startsAnew head = true
    simp [startsAnew, idle, closesBlock, plain head member,
      not_dedent_of_plain part.lines plain head member, open_, close, other]

end Part

/-- An invalid token before the first declaration of what follows is reported on the way there. -/
theorem Comes.complains (comes : Comes t (front ++ onward)) (left : front.dropWhile isBetween ≠ [])
    (later : Later t t') (behind : Comes t' onward) (drops : Setting.DropsInvalid onward) : Complains t' := by
  obtain ⟨token, member, invalid⟩ := drops
  have dropped := countP_pos_iff.mpr ⟨token, member, invalid⟩
  have split := congrArg (List.countP isInvalid) (takeWhile_append_dropWhile (p := isBetween) (l := onward))
  rw [countP_append] at split
  refine later.complains comes.valid ?_
  rw [behind.tokens, comes.tokens, dropWhile_append, if_neg (by simpa using left), countP_append]
  omega

section File

variable {declarations : List Declaration}

/-- A file of three parts, of which the one in the middle is a line with errors. -/
theorem leads_parts (reads₁ : Part depth above last₁ [first] e₁) (silent₁ : e₁.reports.toList = [])
    (reads₂ : Part depth line last₂ declarations e₂) (plain : ∀ token ∈ line, token.kind ≠ .indent)
    (apart : ∀ token ∈ ((line ++ [last₂]).dropWhile isIdle).head?,
      token.kind ≠ .symbol .leftBrace ∧ token.kind ≠ .symbol .rightBrace ∧ token.kind ≠ .keyword .else_)
    (complains : Complains e₂) (stops : ∀ skip ∈ e₂.skips.toList, skip.2 ≠ last₂.span)
    (reads₃ : Part depth below last₃ [final] e₃) (silent₃ : e₃.reports.toList = [])
    (same₁ : Alike hide above above') (same₂ : Alike hide line line')
    (same₃ : Alike hide below below') (lasts : Alike hide last₃ last)
    (ends : EndsOnce (above' ++ (line' ++ (below' ++ [last])))) :
    ∃ first' more final' t, Leads (rulesUpTo (depth + 1))
      (State.ofTokens (above' ++ (line' ++ (below' ++ [last])))).settle
        (first' :: more ++ [final']) t ∧
      Alike hide first first' ∧ Alike hide final final' ∧ Complains t := by
  have start := comes_ofTokens ends
  have anew_below := reads₃.exists_anew silent₃ same₃ [last]
  have anew := reads₂.exists_anew_line plain apart same₂ anew_below
  obtain ⟨firsts, t₁, passes₁⟩ := reads₁.passes_clean silent₁ same₁ start anew
  have comes₁ := Part.comes_behind passes₁ (by simp [Setting.unseen]) rfl start
  have left : above'.dropWhile isBetween ≠ [] := by
    intro nothing
    have alike := Setting.dropWhile_alike (p := isBetween) (fun _ => rfl) same₁
    rw [nothing] at alike
    exact reads₁.dropWhile_ne_nil (map_eq_nil_iff.mp alike)
  have complains₁ (early : Complains (State.ofTokens (line ++ [last₂])).settle) : Complains t₁ := by
    have drops := dropsInvalid_of_complains reads₂.ends early
    exact start.complains left passes₁.later comes₁ (Setting.dropsInvalid_alike reads₂.ends.last same₂ drops)
  obtain ⟨more, _, passes₂⟩ := reads₂.passes_line plain stops same₂ comes₁ complains₁ anew_below
  have comes₂ := Part.comes_behind passes₂ (by simp [Setting.unseen]) rfl comes₁
  obtain ⟨finals, t₃, same_finals, leads₃⟩ :=
    reads₃.leads_last same₃ lasts comes₂ fun early => absurd early (reads₃.not_complains silent₃)
  obtain ⟨first', rfl, same_first⟩ := map_eq_singleton_iff.mp passes₁.same.symm
  obtain ⟨final', rfl, same_final⟩ := map_eq_singleton_iff.mp same_finals.symm
  refine ⟨first', more, final', t₃, passes₁.leads _ t₃ (passes₂.leads _ t₃ leads₃),
    same_first.symm, same_final.symm, ?_⟩
  · obtain ⟨report, member, error⟩ := passes₂.complains complains
    exact ⟨report, (leads₃.later comes₂.ends).reports.subset member, error⟩

end File

end Parsing

open Parsing

/-- The tokens of a chunk that stands alone, and those of a text that starts with it. -/
structure Token.Opens (origin : Lexeme.Origin) (text : String) (front : List Token) (last : Token) : Prop where
  source : ofLexemes (scan origin text) = front ++ [last]
  lines : Token.OfLines front
  plain : Lexeme.OneLine text.toList → ∀ token ∈ front, token.kind ≠ .indent
  behind : ∀ rest, Lexeme.Flush rest → move hide (ofLexemes (seen (text.toList ++ rest))) =
    move hide front ++ move hide (ofLexemes (seen rest))

theorem Lexeme.Chunk.exists_opens {text : String} (chunk : Lexeme.Chunk text.toList) (origin : Lexeme.Origin) :
    ∃ front last, Token.Opens origin text front last := by
  obtain ⟨tokens, lines, plain, behind⟩ := chunk.exists_tokens
  have alone := hide_ofLexemes_scan origin text
  rw [Alike, ← append_nil text.toList, behind [] .nil] at alone
  obtain ⟨front, onward, source, fronts, lasts⟩ := map_eq_append_iff.mp alone
  have single : (ofLexemes (seen [])).length = 1 := rfl
  obtain ⟨last, rfl⟩ := length_eq_one_iff.mp
    (by simpa [single] using congrArg List.length lasts : onward.length = 1)
  replace fronts : Alike hide front tokens := fronts
  refine ⟨front, last, source, lines_of_alike lines fronts.symm, fun single _ member kind =>
    ?_, fun rest flush => ?_⟩
  · obtain ⟨token', member', kind'⟩ := mem_map.mp (kinds_of_alike fronts ▸ mem_map_of_mem member)
    exact plain single token' member' (kind'.trans kind)
  · rw [behind rest flush, fronts]

namespace Token

variable {text : String}

/-- The tokens of a text are those of its parts. -/
theorem Opens.exists_parts (opens₁ : Opens origin a front₁ last₁) (line : Lexeme.Chunk b.toList)
    (opens₂ : Opens origin b front₂ last₂)
    (below : Lexeme.Chunk c.toList) (opens₃ : Opens origin c front₃ last₃) :
    ∃ above' line' below' last, ofLexemes (scan origin (a ++ b ++ c)) = above' ++ (line' ++ (below' ++ [last])) ∧
      Alike hide front₁ above' ∧ Alike hide front₂ line' ∧
      Alike hide front₃ below' ∧ Alike hide last₃ last := by
  have whole := hide_ofLexemes_scan origin (a ++ b ++ c)
  have alone := hide_ofLexemes_scan origin c
  rw [Alike, String.toList_append, String.toList_append, append_assoc, opens₁.behind _ (line.append below.toFlush),
    opens₂.behind _ below.toFlush, ← alone, opens₃.source] at whole
  obtain ⟨above', _, source, same₁, rests⟩ := map_eq_append_iff.mp whole
  obtain ⟨line', onward, rfl, same₂, same₃⟩ := map_eq_append_iff.mp rests
  obtain ⟨below', last, rfl⟩ : ∃ below' last, onward = below' ++ [last] := by
    have some_over : onward ≠ [] := fun nothing => by simp [nothing] at same₃
    exact ⟨_, _, (dropLast_append_getLast some_over).symm⟩
  rw [move_append, map_append] at same₃
  obtain ⟨fronts, lasts⟩ := append_inj' same₃ rfl
  exact ⟨above', line', below', last, source, same₁.symm, same₂.symm, fronts.symm, (List.cons.inj lasts).1.symm⟩

/-- What is read from a chunk that stands alone. -/
theorem Opens.exists_part (opens : Opens origin text front last) (depth : Nat)
    (light : (front.map weight).sum < depth) :
    ∃ e, Part depth front last (SourceFile.parse (scan origin text)).result.declarations e ∧
      e.reports = (SourceFile.parse (scan origin text)).reports ∧
        e.skips = (SourceFile.parse (scan origin text)).skips := by
  have ends := endsOnce_ofLexemes (scan origin text)
  rw [opens.source] at ends
  have weights : ((front ++ [last]).map weight).sum < depth + 1 := by
    rw [map_append, sum_append, map_singleton, weight_of_end ends.last]
    exact Nat.succ_lt_succ light
  obtain ⟨e, leads, reports, skips⟩ := SourceFile.exists_leads _ (opens.source ▸ weights)
  rw [opens.source] at leads
  exact ⟨e, ⟨ends, opens.lines, weights, leads⟩, reports, skips⟩

end Token

namespace SourceFile

open Lexeme (scan)

/-- Two texts, each read without a report to one declaration, and between them a line with an error. -/
structure Interrupted (origin : Lexeme.Origin) (a b c : String) (first final : Declaration) : Prop where
  above : Lexeme.Chunk a.toList
  line : Lexeme.Chunk b.toList
  below : Lexeme.Chunk c.toList
  single : Lexeme.OneLine b.toList
  reads_above : (parse (scan origin a)).result.declarations = [first]
  silent_above : (parse (scan origin a)).reports = #[]
  reads_below : (parse (scan origin c)).result.declarations = [final]
  silent_below : (parse (scan origin c)).reports = #[]
  error : ∃ report ∈ (parse (scan origin b)).reports.toList, report.diagnostic.isError = true

/-- The error in a line is reported, and what is declared above and below it is read, where the line goes on with
nothing above it and the skipped part ends in it. -/
theorem parse_recovers {origin : Lexeme.Origin} {a b c : String} {first final : Declaration}
    (given : Interrupted origin a b c first final)
    (apart : ∀ token ∈ ((ofLexemes (scan origin b)).dropWhile isIdle).head?,
      token.kind ≠ .symbol .leftBrace ∧ token.kind ≠ .symbol .rightBrace ∧ token.kind ≠ .keyword .else_)
    (stops : ∀ token ∈ (ofLexemes (scan origin b)).getLast?,
      ∀ skip ∈ (parse (scan origin b)).skips.toList, skip.2 ≠ token.span) :
    (∃ report ∈ (parse (scan origin (a ++ b ++ c))).reports.toList, report.diagnostic.isError = true) ∧
      ∃ first' more final', (parse (scan origin (a ++ b ++ c))).result.declarations = first' :: more ++ [final'] ∧
        move hide first' = move hide first ∧ move hide final' = move hide final := by
  obtain ⟨_, _, opens₁⟩ := given.above.exists_opens origin
  obtain ⟨_, last₂, opens₂⟩ := given.line.exists_opens origin
  obtain ⟨_, _, opens₃⟩ := given.below.exists_opens origin
  obtain ⟨_, _, _, last, source, same₁, same₂, same₃, lasts⟩ :=
    opens₁.exists_parts given.line opens₂ given.below opens₃
  have ends := endsOnce_ofLexemes (scan origin (a ++ b ++ c))
  rw [source] at ends
  -- all parts are read with a depth that is enough for the whole
  obtain ⟨depth, deep⟩ : ∃ depth, ((ofLexemes (scan origin (a ++ b ++ c))).map weight).sum = depth := ⟨_, rfl⟩
  have total := deep
  have positive := weight_pos last
  rw [source] at total
  simp only [map_append, sum_append, map_cons, sum_cons] at total
  obtain ⟨e₁, part₁, reports₁, -⟩ := opens₁.exists_part depth (by rw [weights_of_alike same₁]; omega)
  obtain ⟨e₂, part₂, reports₂, skips₂⟩ := opens₂.exists_part depth
    (by rw [weights_of_alike same₂]; omega)
  obtain ⟨e₃, part₃, reports₃, -⟩ := opens₃.exists_part depth (by rw [weights_of_alike same₃]; omega)
  rw [given.reads_above] at part₁
  rw [given.reads_below] at part₃
  have quiet₁ : e₁.reports.toList = [] := by rw [reports₁, given.silent_above]
  have quiet₃ : e₃.reports.toList = [] := by rw [reports₃, given.silent_below]
  have complains : Complains e₂ := by
    rw [Complains, reports₂]
    exact given.error
  have plain := opens₂.plain given.single
  rw [opens₂.source] at apart stops
  have stops₂ : ∀ skip ∈ e₂.skips.toList, skip.2 ≠ last₂.span := by
    rw [skips₂]
    exact stops last₂ (by simp)
  obtain ⟨first', more, final', _, leads, same_first, same_final, told⟩ :=
    leads_parts part₁ quiet₁ part₂ plain apart complains stops₂ part₃ quiet₃
      same₁ same₂ same₃ lasts ends
  rw [← source] at leads
  obtain ⟨declarations, reports, -⟩ := SourceFile.parse_of_leads (by omega) leads
  exact ⟨reports ▸ told, first', more, final', declarations, same_first.symm, same_final.symm⟩

theorem exists_interrupted (lines : Lexeme.Chunk a.toList ∧ Lexeme.Chunk b.toList ∧ Lexeme.Chunk c.toList ∧
    Lexeme.OneLine b.toList)
    (one : (parse (scan origin a)).result.declarations.length = 1 ∧
      (parse (scan origin c)).result.declarations.length = 1)
    (silent : (parse (scan origin a)).reports.size = 0 ∧ (parse (scan origin c)).reports.size = 0)
    (error : ∃ report ∈ (parse (scan origin b)).reports.toList, report.diagnostic.isError = true) :
    ∃ first final, Interrupted origin a b c first final := by
  obtain ⟨above, line, below, single⟩ := lines
  obtain ⟨first, reads_above⟩ := length_eq_one_iff.mp one.1
  obtain ⟨final, reads_below⟩ := length_eq_one_iff.mp one.2
  exact ⟨first, final, above, line, below, single, reads_above, Array.eq_empty_of_size_eq_zero silent.1, reads_below,
    Array.eq_empty_of_size_eq_zero silent.2, error⟩

theorem parse_recovers_parenthesis :
    ∃ first final, Interrupted (.file 0) "/obj/a\n" "/obj/b = )\n" "/obj/c\n" first final ∧
      ∃ first' more final',
        (parse (scan (.file 0) ("/obj/a\n" ++ "/obj/b = )\n" ++ "/obj/c\n"))).result.declarations =
        first' :: more ++ [final'] ∧ move hide first' = move hide first ∧ move hide final' = move hide final := by
  obtain ⟨first, final, given⟩ : ∃ first final, Interrupted
    (.file 0) "/obj/a\n" "/obj/b = )\n" "/obj/c\n" first final :=
    exists_interrupted (by decide +kernel) (by decide +kernel) (by decide +kernel) (by decide +kernel)
  exact ⟨first, final, given, (parse_recovers given (by decide +kernel) (by decide +kernel)).2⟩

/-- The path of a type, and how many declarations its body holds. -/
def outline? : Declaration → Option (TypePath × Nat)
  | .mk (.object path body) _ => some (path, body.length)
  | _ => none

theorem outline?_move (f : Span → Span) : outline? (move f declaration) = outline? declaration := by
  obtain ⟨item, _⟩ := declaration
  cases item with
  | _ => simp [outline?]

/-- An error at the end of the line takes the line below, and a block in it belongs to what stands above. -/
theorem parse_not_local : (∃ first final, Interrupted (.file 0) "/obj/a\n" "/obj/b =\n" "/obj/c\n" first final ∧
      ∀ found ∈ (parse (scan (.file 0) ("/obj/a\n" ++ "/obj/b =\n" ++ "/obj/c\n"))).result.declarations,
        move hide found ≠ move hide final) ∧
    ∃ first final, Interrupted (.file 0) "/obj/a\n" "\x7b x = 1 \x7d\n" "/obj/c\n" first final ∧
      (parse (scan (.file 0) ("/obj/a\n" ++ "\x7b x = 1 \x7d\n" ++ "/obj/c\n"))).reports = #[] ∧
      ∀ found ∈ (parse (scan (.file 0) ("/obj/a\n" ++ "\x7b x = 1 \x7d\n" ++ "/obj/c\n"))).result.declarations,
        move hide found ≠ move hide first := by
  constructor
  · obtain ⟨first, final, given⟩ : ∃ first final, Interrupted
      (.file 0) "/obj/a\n" "/obj/b =\n" "/obj/c\n" first final :=
      exists_interrupted (by decide +kernel) (by decide +kernel) (by decide +kernel) (by decide +kernel)
    refine ⟨first, final, given, fun found member same => ?_⟩
    have outlines := congrArg outline? same
    rw [outline?_move, outline?_move] at outlines
    have other : ∀ found ∈ (parse (scan (.file 0) ("/obj/a\n" ++ "/obj/b =\n" ++ "/obj/c\n"))).result.declarations,
        ∀ final ∈ (parse (scan (.file 0) "/obj/c\n")).result.declarations, outline? found ≠ outline? final := by
          decide +kernel
    exact other found member final (by simp [given.reads_below]) outlines
  · obtain ⟨first, final, given⟩ : ∃ first final, Interrupted
      (.file 0) "/obj/a\n" "\x7b x = 1 \x7d\n" "/obj/c\n" first final :=
      exists_interrupted (by decide +kernel) (by decide +kernel) (by decide +kernel) (by decide +kernel)
    refine ⟨first, final, given, Array.eq_empty_of_size_eq_zero (by decide +kernel), fun found member same => ?_⟩
    have outlines := congrArg outline? same
    rw [outline?_move, outline?_move] at outlines
    have other :
      ∀ found ∈ (parse (scan (.file 0) ("/obj/a\n" ++ "\x7b x = 1 \x7d\n" ++ "/obj/c\n"))).result.declarations,
        ∀ first ∈ (parse (scan (.file 0) "/obj/a\n")).result.declarations, outline? found ≠ outline? first := by
          decide +kernel
    exact other found member first (by simp [given.reads_above]) outlines

end SourceFile

end DreamMaker
