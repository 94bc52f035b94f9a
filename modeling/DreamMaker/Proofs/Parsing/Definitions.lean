import DreamMaker.Proofs.Parsing.Bodies
import DreamMaker.Proofs.Path

/-!
Definitions of types, whose bodies hold new defaults of vars, procs and further definitions. With indented blocks
or with blocks in braces, they are read as the same file, with nothing to report.
-/

namespace DreamMaker

open List

variable {next : Token}

/-! ### Paths of names -/

namespace Name

variable {name : Name}

theorem text_ne_keyword (reserved : Keyword.ofWord? word = some keyword) : name.text ≠ word := by
  rintro rfl
  have free := name.free
  rw [show String.ofList (name.first :: name.more) = name.text from rfl, reserved] at free
  cases free

end Name

namespace TypePath

variable {name : Name}

/-- The path of names from the root. -/
def ofNames (names : List Name) : TypePath := ⟨.absolute, names.map Name.text⟩

variable (names : List Name)

theorem normalize_names : normalize (names.map Name.text) = names.map Name.text := by
  refine normalize_eq fun _ member => ?_
  obtain ⟨name, -, rfl⟩ := mem_map.mp member
  exact StartsWord.isSegment ⟨name.first, name.more, String.toList_ofList, name.starts⟩

/-- A name inside a path is the last name of a longer path. -/
theorem combine_ofNames : (ofNames names).combine
    (.ofSegments .relative [name.text]) = ofNames (names ++ [name]) := by
  have single : normalize [name.text] = [name.text] := normalize_names [name]
  have whole := normalize_names (names ++ [name])
  rw [map_append, map_singleton] at whole
  simp only [combine, ofSegments, ofNames, single, reduceCtorEq, if_false, whole, map_append, map_singleton]

theorem find?_ofNames (reserved : Keyword.ofWord? word = some keyword) : (ofNames names).find? word = none := by
  refine findIdx?_eq_none_iff.mpr fun _ member => ?_
  obtain ⟨_, -, rfl⟩ := mem_map.mp member
  simpa using Name.text_ne_keyword reserved

theorem parent?_ofNames : (ofNames (names ++ [name])).parent? = some (ofNames names) := by
  simp [parent?, ofNames]

theorem lastName_ofNames : (ofNames (names ++ [name])).lastName = name.text := by
  simp [lastName, last?, ofNames]

end TypePath

/-! ### Lines and trees -/

namespace TextLine

/-- A name alone. -/
def object (name : Name) : TextLine where
  chars := name.chars
  contents := [(.identifier, name.text, .none)]
  starts := ⟨name.first, _, rfl, name.starts⟩
  filled := by simp
  valid := by simp
  lexes _ _ _ closed := .name name closed

/-- A name, an equals sign and an integer. -/
def override (name : Name) (value : Int) : TextLine where
  chars := name.chars ++ ' ' :: '=' :: ' ' :: Text.integer value
  contents := (.identifier, name.text, .none) :: (.symbol .equals, "=", .none) :: Token.integerContents value
  starts := ⟨name.first, _, rfl, name.starts⟩
  filled := by simp
  valid := by simpa using Token.integerContents_valid value
  lexes _ _ _ closed := by
    rw [append_assoc]
    exact (Layout.Lexes.name name (mem_of_elem_eq_true rfl)).append
      ((Layout.Lexes.operator (.assign .assign) _).append (.blank_integer closed))

end TextLine

/-- Definitions in the body of a type, one behind the other. -/
inductive DefinitionTree
  | override (name : Name) (value : Int)
  | proc (name : Name) (body : StatementTree)
  | object (name : Name) (body : DefinitionTree)
  | both (first second : DefinitionTree)

namespace DefinitionTree

/-- The lines of the definitions. -/
def outline : DefinitionTree → Outline
  | .override name value => .leaf (.override name value)
  | .proc name body => .block (.call name) body.outline
  | .object name body => .block (.object name) body.outline
  | .both first second => .both first.outline second.outline

/-- The text of definitions, in one of the styles. -/
def text (style : Style) (trees : List DefinitionTree) : String := Outline.text style (trees.map outline)

example : let a : Name := ⟨'a', [], rfl, by simp, rfl⟩
    let f : CallName := ⟨⟨'f', [], rfl, by simp, rfl⟩, by decide⟩
    let tree : DefinitionTree :=
      .object a (.both (.override a 1) (.proc f.toName (.both (.if_ a (.call f)) (.return_ (-2)))))
    text .indented [tree] = "a\n\ta = 1\n\tf()\n\t\tif (a)\n\t\t\tf()\n\t\treturn -2\n" ∧
      text .braced [tree] = "a \x7b a = 1; f() \x7b if (a) \x7b f(); \x7d return -2; \x7d \x7d\n" :=
  ⟨rfl, rfl⟩

theorem exists_owner (path : TypePath) : ∃ segments,
    path.slice 0 (path.procMarker?.getD (path.segments.length - 1)) = .absolute segments := ⟨_, rfl⟩

/-- A proc at a path, at no place. -/
def procAt (path : TypePath) (body : List Statement) : ProcDefinition where
  owner := path.slice 0 (path.procMarker?.getD (path.segments.length - 1))
  name := path.lastName
  isOverride := path.procMarker?.isNone
  isVerb := (path.procMarker?.bind fun i => path.segments[i]?) = some "verb"
  parameters := []
  body? := some (.mk body .unknown)
  returnTypes? := none
  span := .unknown
  rooted := exists_owner path

/-- What the definitions declare in the type with this path, at no place. -/
def declarations (owner : List Name) : DefinitionTree → List Declaration
  | .override name value => [.mk (.override (.ofNames owner) name.text (.ofInt value)) .unknown]
  | .proc name body => [.mk (.proc (procAt (.ofNames (owner ++ [name])) body.statements)) .unknown]
  | .object name body =>
    [.mk (.object (.ofNames (owner ++ [name])) (body.declarations (owner ++ [name]))) .unknown]
  | .both first second => first.declarations owner ++ second.declarations owner

end DefinitionTree

namespace Parsing

variable {style : Style}

/-! ### Loops -/

theorem declarationLoop (rules : Rules) : Loop (declarationTurn rules) (rules .declaration) closesBlock where
  step {s token left} near starts := by
    obtain ⟨divides, closes, ends, -⟩ := startsItem_apart starts
    obtain ⟨_, s₁, skipped, stands, kept⟩ := near.delimiters divides
    refine ⟨s₁, stands, kept, fun {found s₂} run _ done => ?_⟩
    simp [declarationTurn, skipped, stands.current, closes, ends, recovering_of_some run]
  clear := Clear.of_closesBlock
  stop {s closer rest} closes near := by
    obtain ⟨_, s', run, stands, kept⟩ := near.delimiters (Clear.of_closesBlock closes).divides
    exact ⟨s', fun done => by simp [declarationTurn, run, stands.current, closes], stands, kept⟩

theorem Near.acceptAll_dividesFile (near : Near s (next :: rest)) (stop : dividesFile next.kind = false) :
    ∃ found s', acceptAll dividesFile s = (.ok found, s') ∧ Stands s' (next :: rest) ∧ Same s s' := by
  obtain ⟨before, dividers, stands⟩ := near
  have all : ∀ token ∈ before, dividesFile token.kind = true := fun token member => by
    simp [dividesFile, dividers token member]
  obtain ⟨s', run, after, kept, -⟩ := stands.acceptAll all stop
  exact ⟨_, s', run, after, kept⟩

theorem fileLoop (rules : Rules) : Loop (fileTurn rules) (rules .declaration) (· = .endOfFile) where
  step {s token left} near starts := by
    obtain ⟨divides, closes, ends, -⟩ := startsItem_apart starts
    have other : dividesFile token.kind = false := by
      simp only [closesBlock, Bool.or_eq_false_iff] at closes
      simp only [dividesFile, divides, closes.1, Bool.or_self]
    obtain ⟨_, s₁, skipped, stands, kept⟩ := near.acceptAll_dividesFile other
    refine ⟨s₁, stands, kept, fun {found s₂} run _ done => ?_⟩
    simp [fileTurn, skipped, stands.current, ends, topLevel?_of_some run]
  clear {token} ends := by
    have kind := of_decide_eq_true ends
    exact ⟨by rw [kind]; rfl, by simp [kind]⟩
  stop {s closer rest} ends near := by
    have kind := of_decide_eq_true ends
    obtain ⟨_, s', run, stands, kept⟩ := near.acceptAll_dividesFile (by rw [kind]; rfl)
    exact ⟨s', fun done => by simp [fileTurn, run, stands.current, kind], stands, kept⟩

/-! ### Declarations -/

section Declarations

theorem path?_of_name {word : Token} (stands : Stands s (word :: next :: rest))
    (kind : word.kind = .identifier) (other : next.kind ≠ .symbol .slash) :
    path? s = (.ok (some (.ofSegments .relative [word.text])), s.advance) := by
  have here : s.current.kind = .identifier := by rw [stands.current, kind]
  obtain ⟨inner, -⟩ := stands.advance (by simp)
  have first : segment? s = (.ok (some word.text), s.advance) := by
    simp [segment?, isSegment, stands.current, kind]
  have stop : segmentTurn [word.text] s.advance = (.ok (.stop [word.text]), s.advance) := by
    rw [segmentTurn, Run.bind_of_ok (run_current s.advance)]
    split <;> simp [inner.current, other]
  have relative : anchor s = (.ok .relative, s) :=
    anchor_eq_relative (by simp [here]) (by simp [here]) (by simp [here])
  simp [path?, relative, segments?, first, rounds_of_stop stop]

theorem run_withOwner {owner : TypePath} (run : p { s with owner } = (.ok a, s')) :
    withOwner owner p s = (.ok a, { s' with owner := s.owner }) := by
  have whole : withOwner owner p s = ((p { s with owner }).1, { (p { s with owner }).2 with owner := s.owner }) :=
    ofExcept_eq
  rw [whole, run]

theorem declarationFrom_of_body (run : declarationBody rules start s = (.ok item, s')) (ended : Ended s') :
    declarationFrom rules start s = (.ok (some item), s') := by
  have ends : endDeclaration s' = (.ok (), s') := by
    rcases ended with closed | ended <;> simp [endDeclaration, closedBlock, atStatementEnd, *]
  simp [declarationFrom, run, ends]

/-- A name and what is read behind it, inside the path that ends with the name, are a declaration. -/
theorem ReadsItem.declaration {word : Token} (content : word.content = (.identifier, name.text, .none))
    (other : next.kind ≠ .symbol .slash)
    (reads : ∀ start, ReadsItem (declarationFrom rules start) (.ofNames (names ++ [name])) (next :: tokens) item) :
    ReadsItem (declaration? rules) (.ofNames names) (word :: next :: tokens) item := by
  intro s after behind rest inside stands dividers clear
  have kind := congrArg Prod.fst content
  have text : word.text = name.text := congrArg (·.2.1) content
  obtain ⟨inner, kept⟩ := stands.advance (by simp)
  obtain ⟨found, s', run, alike, near, kept', ended, fewer⟩ := reads s.current.span
    { s.advance with owner := .ofNames (names ++ [name]) } after behind rest rfl
      ⟨inner.tokens, inner.valid⟩ dividers clear
  refine ⟨found, { s' with owner := s.advance.owner }, ?_, alike, ?_, ?_, ended, ?_⟩
  · simp [declaration?, path?_of_name stands kind other, text, kept.owner, inside,
      TypePath.combine_ofNames, run_withOwner run]
  · obtain ⟨before, dividing, stands'⟩ := near
    exact ⟨before, dividing, stands'.tokens, stands'.valid⟩
  · exact kept.trans ⟨rfl, kept'.declares, kept'.reports, kept'.skips⟩
  · refine Nat.lt_trans fewer ?_
    show s.advance.tokens.length < s.tokens.length
    rw [inner.tokens, stands.tokens]
    exact Nat.lt_succ_self _

theorem objectBody?_eq_none (other : s.current.kind ≠ .newline ∧ s.current.kind ≠ .indent ∧
    s.current.kind ≠ .symbol .leftBrace) :
    objectBody? rules s = (.ok none, s) := by
  have no_lines : newlines s = (.ok false, s) := run_acceptAll (by simp [other.1])
  simp [objectBody?, beforeBlock, no_lines, objectHere?, other, handBackIf]

theorem ReadsLine.override (names : List Name) (name : Name) (value : Int) (depth : Nat) (start : Span) :
    ReadsLine (declarationFrom (rulesUpTo (depth + 2)) start) (.ofNames (names ++ [name]))
      ((.symbol .equals, "=", .none) :: Token.integerContents value)
      (.mk (.override (.ofNames names) name.text (.ofInt value)) .unknown) := by
  intro s _ ending rest inside stands words ends
  obtain ⟨kind, -, found, s', run, alike, behind, kept⟩ := exists_integer depth words stands ends
  have reads : expression (rulesUpTo (depth + 2)) s.advance = (.ok found, s') := by simp [expression, run]
  have no_var : (TypePath.ofNames (names ++ [name])).find? "var" = none :=
    TypePath.find?_ofNames _ (show Keyword.ofWord? "var" = some .var from rfl)
  have body : declarationBody (rulesUpTo (depth + 2)) start s =
      (.ok (.mk (.override (.ofNames names) name.text found) (start.merge s'.previous.span)), s') := by
    simp [declarationBody, kind, inside, objectBody?_eq_none, plainDeclaration, no_var, TypePath.parent?_ofNames,
      TypePath.lastName_ofNames, reads]
  have ended : Ended s' := .inr (by rw [behind.current]; exact endsStatement_of_isDelimiter ends)
  refine ⟨_, s', declarationFrom_of_body body ended, ?_, behind, kept⟩
  rw [← alike]
  rfl

section Blocks

variable {rest : List Token} {owner : TypePath} {body : List Declaration}

/-- In both styles the body of a type is read as its declarations. -/
theorem ReadsBlock.objectBody? (block : Encloses style tokens inside)
    (reads : ReadsItems (declarationTurn rules) owner inside body) :
    ReadsBlock (Parsing.objectBody? rules) owner tokens body := by
  intro _ _ inner filled stands
  obtain ⟨_, _, rfl⟩ := exists_cons_of_ne_nil filled
  have opens := block.opens stands
  obtain ⟨-, unled, -⟩ := block.stands_inside stands
  obtain ⟨found, s₁, run, alike, close, after, kept, closed⟩ :=
    block.rounds (declarationLoop rules) reads inner stands
  have no_lines : newlines s₁ = (.ok false, s₁) := run_acceptAll (by rw [close]; cases style <;> rfl)
  refine ⟨found, s₁.advance, beforeBlock_of_opener opens ?_, alike, after, kept, closed⟩
  cases style with
  | indented =>
    simp only [Style.opener, Style.closer] at opens close
    simp [objectHere?, opens, declarations, run, no_lines, close]
  | braced =>
    simp only [Style.opener, Style.closer] at opens close
    simp [objectHere?, opens, unled, declarations, run, newlinesIf, acceptIf, no_lines, close]

theorem ReadsBlock.object (block : Encloses style tokens inside)
    (reads : ReadsItems (declarationTurn rules) owner inside body) (start : Span) :
    ReadsBlock (declarationFrom rules start) owner tokens (.mk (.object owner body) .unknown) := by
  intro s left inner filled stands
  obtain ⟨found, s', run, alike, behind, kept, closed⟩ := objectBody? block reads s left inner filled stands
  have no_paren : s.current.kind ≠ .symbol .leftParen := block.apart stands (by decide)
  have whole : declarationBody rules start s =
      (.ok (.mk (.object owner found) (start.merge s'.previous.span)), s') := by
    simp [declarationBody, no_paren, inner, run]
  refine ⟨_, s', declarationFrom_of_body whole (.inl closed), ?_, behind, kept, closed⟩
  rw [← alike, unplaced, Declaration.move_mk, Item.move_eq, Item.relocate, moveDeclarations_eq]
  rfl

/-- Between parentheses with nothing inside there are no parameters. -/
theorem parameters_of_empty (close : s.current.kind = .symbol .rightParen) : parameters rules s = (.ok [], s) := by
  have no_path := path?_eq_none (by rw [close]; rfl)
  exact rounds_of_stop (by simp [parameterTurn, parameter?, close, no_path])

theorem ReadsBlock.proc {statements : List Statement}
    (words : front.map Token.content = [(.symbol .leftParen, "(", .none), (.symbol .rightParen, ")", .none)])
    (block : Encloses style tokens inside) (reads : ReadsItems (statementTurn rules) owner inside statements)
    (start : Span) :
    ReadsBlock (declarationFrom rules start) owner (front ++ tokens)
      (.mk (.proc (DefinitionTree.procAt owner statements)) .unknown) := by
  intro s left inner filled stands
  obtain ⟨_, _, rfl, first, words⟩ := map_eq_cons_iff.mp words
  obtain ⟨_, rfl, second⟩ := exists_single words
  obtain ⟨stands₁, kept₁⟩ := stands.advance (by simp)
  obtain ⟨stands₂, kept₂⟩ := stands₁.advance (by simp [filled])
  have kept := kept₁.trans kept₂
  have open_kind := stands.kind first
  have close_kind := stands₁.kind second
  obtain ⟨found, s', run, alike, behind, kept', closed⟩ :=
    ReadsBlock.block? block reads s.advance.advance left (kept.owner.trans inner) filled stands₂
  have no_types : s.advance.advance.current.kind ≠ .keyword .as := block.apart stands₂ (by decide)
  have outer : s'.owner = owner := by rw [kept'.owner, kept.owner, inner]
  let span := start.merge s'.previous.span
  let definition : ProcDefinition := { DefinitionTree.procAt owner [] with body? := some found, span }
  have defined : procDefinition rules start s.advance = (.ok definition, s') := by
    simp [procDefinition, parameters_of_empty close_kind, close_kind, types?, no_types, body?_of_block run, outer]
    rfl
  have whole : declarationBody rules start s = (.ok (.mk (.proc definition) span), s') := by
    simp [declarationBody, open_kind, defined]
    rfl
  refine ⟨_, s', declarationFrom_of_body whole (.inl closed), ?_, behind, kept.trans kept', closed⟩
  have moved : found.relocate (fun _ => .unknown) = .mk statements .unknown := alike
  show Declaration.mk (.proc { DefinitionTree.procAt owner [] with body? := some (found.relocate _) }) .unknown = _
  rw [moved]
  rfl

end Blocks

end Declarations

/-! ### Trees -/

theorem startsItem_of_definition {tree : DefinitionTree} :
    ∀ content ∈ tree.outline.head.contents.head?, startsItem content.1 = true := by
  induction tree with
  | override | proc | object =>
    rintro content ⟨⟩
    rfl
  | both _ _ ih_first => exact ih_first

/-- In both styles definitions are read from their tokens, in a file and in the body of a type. -/
theorem readsItems_of_definitions {tree : DefinitionTree} (names : List Name)
    (spells : Spells style tree.outline tokens) (enough : tokens.length + 3 ≤ depth) {closes : Token.Kind → Bool}
    (loop : Loop turn (rulesUpTo depth .declaration) closes) :
    ReadsItems turn (.ofNames names) tokens (tree.declarations names) := by
  have begins := begins_of_spells spells startsItem_of_definition
  induction tree generalizing names tokens depth turn closes with
  | override name value =>
    obtain ⟨depth, rfl⟩ : ∃ less, depth = less + 3 := ⟨depth - 3, by omega⟩
    cases spells with
    | leaf words ends =>
      obtain ⟨word, more, rfl, content, words⟩ := map_eq_cons_iff.mp words
      have reads := fun start => (ReadsLine.override names name value depth start).readsItem (by simp) words
        (Style.isDelimiter_of_ending ends)
      obtain ⟨mark, more, rfl, equals, -⟩ := map_eq_cons_iff.mp words
      have kind : mark.kind = .symbol .equals := congrArg Prod.fst equals
      exact loop.single begins (.declaration content (by simp [kind]) reads)
  | proc name body =>
    cases spells with
    | block words opens inner closes =>
      obtain ⟨depth, rfl, enough'⟩ := exists_depth words enough
      obtain ⟨word, more, rfl, content, words⟩ := map_eq_cons_iff.mp words
      have block : Encloses style _ _ := ⟨begins_of_spells inner startsItem_of_statement, _, _, opens, closes, rfl⟩
      have reads := ReadsBlock.proc words block (readsItems_of_statements (.ofNames (names ++ [name])) inner enough')
      obtain ⟨mark, more, rfl, paren, -⟩ := map_eq_cons_iff.mp words
      have kind : mark.kind = .symbol .leftParen := congrArg Prod.fst paren
      exact loop.single begins (.declaration content (by simp [kind]) fun start => (reads start).readsItem (by simp))
  | object name body ih =>
    cases spells with
    | block words opens inner closes =>
      obtain ⟨depth, rfl, enough'⟩ := exists_depth words enough
      obtain ⟨word, rfl, content⟩ := exists_single words
      have body_begins := begins_of_spells inner startsItem_of_definition
      have block : Encloses style _ _ := ⟨body_begins, _, _, opens, closes, rfl⟩
      have reads := ReadsBlock.object block (ih (names ++ [name]) inner enough' (declarationLoop _) body_begins)
      obtain ⟨mark, more, split, kind⟩ := block.exists_head
      rw [split] at begins reads ⊢
      refine loop.single begins (.declaration content ?_ fun start => (reads start).readsItem (by simp))
      rw [kind]
      cases style <;> exact nofun
  | both _ _ ih_first ih_second =>
    cases spells with
    | both front back =>
      rw [length_append] at enough
      have first_begins := begins_of_spells front startsItem_of_definition
      have second_begins := begins_of_spells back startsItem_of_definition
      exact (ih_first names front (by omega) loop first_begins).append
        (ih_second names back (by omega) loop second_begins) second_begins

/-! ### Files -/

theorem exists_clear {trees : List DefinitionTree}
    (spells : SpellsAll style (trees.map DefinitionTree.outline) tokens) (ends : last.kind = .endOfFile) :
    ∃ next left, tokens ++ [last] = next :: left ∧ Clear next := by
  cases trees with
  | nil =>
    cases spells with
    | nil => exact ⟨last, [], rfl, by rw [ends]; rfl, by simp [ends]⟩
  | cons _ trees =>
    cases spells with
    | cons spelled _ _ =>
      obtain ⟨token, _, rfl, starts⟩ := begins_of_spells spelled startsItem_of_definition
      exact ⟨token, _, rfl, .of_startsItem starts⟩

/-- The turns of a file read definitions, one behind the other, up to the end of the file. -/
theorem exists_goes_of_definitions {trees : List DefinitionTree}
    (spells : SpellsAll style (trees.map DefinitionTree.outline) tokens) (ends : last.kind = .endOfFile)
    (enough : tokens.length + 3 ≤ depth) (outer : s.owner = .ofNames []) (near : Near s (tokens ++ [last])) :
    ∃ found s', Goes (fileTurn (rulesUpTo depth)) s found s' ∧
      unplaced found = trees.flatMap (·.declarations []) ∧ Near s' [last] ∧ Same s s' := by
  induction trees generalizing tokens s with
  | nil =>
    cases spells with
    | nil => exact ⟨[], s, .stay, rfl, near, .refl s⟩
  | cons _ trees ih =>
    cases spells with
    | @cons _ _ _ gap _ spelled between rest =>
      simp only [length_append] at enough
      have dividers : Dividers gap := fun token member => by rw [between token member]; rfl
      obtain ⟨next, left, behind, clear⟩ := exists_clear rest ends
      rw [append_assoc, append_assoc, behind] at near
      obtain ⟨found, _, goes, alike, near', kept⟩ :=
        readsItems_of_definitions [] spelled (by omega)
          (fileLoop (rulesUpTo depth)) s gap next left outer near dividers clear
      rw [← behind] at near'
      obtain ⟨found', s₂, goes', alike', finish, kept'⟩ := ih rest (by omega) (kept.owner.trans outer) near'
      refine ⟨found ++ found', s₂, goes.append goes', ?_, finish, kept.trans kept'⟩
      rw [unplaced, move_append, flatMap_cons, ← alike, ← alike']

end Parsing

namespace DefinitionTree

open Parsing

/-- In both styles the text of definitions is read as what they declare, and there is nothing to report. -/
theorem exists_parse_text : ∃ file, SourceFile.parse
    (Lexeme.scan origin (text style trees)) = ⟨file, #[], #[]⟩ ∧
      unplaced file = ⟨trees.flatMap (·.declarations []), .unknown⟩ := by
  obtain ⟨tokens, last, read, spells, ends⟩ := Outline.exists_tokens style (trees.map outline) origin
  obtain ⟨stands, kept⟩ := stands_start spells.kind_ne_invalid ends
  have enough : tokens.length + 3 ≤ depthOf (tokens ++ [last]) := by
    have deep := length_lt_depthOf (tokens ++ [last])
    rw [length_append, length_singleton] at deep
    omega
  obtain ⟨found, _, goes, alike, near, kept₁⟩ :=
    exists_goes_of_definitions spells ends enough kept.owner (.of_stands stands)
  obtain ⟨s₂, stop, -, kept₂⟩ := (fileLoop _).stop (decide_eq_true ends) near
  have same := (kept.trans kept₁).trans kept₂
  let span := (State.ofTokens (tokens ++ [last])).current.span.merge s₂.previous.span
  have run : Parsing.run sourceFile (tokens ++ [last]) = (.ok ⟨found, span⟩, s₂) := by
    have declared := goes.rounds stop
    exact (Run.bind_of_ok (run_here _)).trans ((Run.bind_of_ok declared).trans rfl)
  refine ⟨⟨found, span⟩, ?_, ?_⟩
  · rw [SourceFile.parse, text, read, run]
    exact congrArg₂ (Parsed.mk _) same.reports same.skips
  · rw [← alike]
    rfl

/-- Braces and indentation are the same: with indented blocks, or with one definition per line and its blocks in
braces, a text is read with nothing to report and as the same file but for the places. -/
theorem parse_braced_alike_indented (trees : List DefinitionTree) (origin : Lexeme.Origin) :
    let indented := SourceFile.parse (Lexeme.scan origin (text .indented trees))
    let braced := SourceFile.parse (Lexeme.scan origin (text .braced trees))
    indented.reports = #[] ∧ indented.skips = #[] ∧ braced.reports = #[] ∧ braced.skips = #[] ∧
      Alike (fun _ => Span.unknown) braced.result indented.result ∧
      unplaced indented.result = ⟨trees.flatMap (·.declarations []), .unknown⟩ := by
  obtain ⟨_, read, alike⟩ := exists_parse_text
  obtain ⟨_, read', alike'⟩ := exists_parse_text
  rw [read, read']
  exact ⟨rfl, rfl, rfl, rfl, alike'.trans alike.symm, alike⟩

/-- In neither style can a function that needs arguments be called without them. -/
theorem needArguments_reported :
    let reported (text : String) : Bool := !(SourceFile.parse (Lexeme.scan (.file 0) text)).reports.isEmpty
    Parsing.needArguments.all (fun name =>
      reported ("a()\n\t" ++ name ++ "()\n") && reported ("a() \x7b " ++ name ++ "(); \x7d\n")) = true := by
  decide +kernel

end DefinitionTree

end DreamMaker
