import Mathlib.Data.List.Find
import Mathlib.Data.List.TakeWhile
import DreamMaker.Proofs.Lexeme.Steps
import DreamMaker.Token.Layout

/-!
The lexemes of one token. What is handed out at a lexeme depends on it and on the few behind it that belong to the
same token.
-/

namespace DreamMaker

open List

/-- Kinds of token that stand for lines, their indentation and the end of the file. -/
def Token.Kind.isLayout : Token.Kind → Bool
  | .indent | .dedent | .newline | .endOfFile => true
  | _ => false

namespace Lexeme

/-- The open parentheses and brackets behind a lexeme of this kind. -/
def Kind.nesting (before : Nat) : Kind → Nat
  | .leftParen | .leftBracket => before + 1
  | .rightParen | .rightBracket => before - 1
  | _ => before

/-- The length of the text in quotes. -/
def held (l : Lexeme) : Nat := if l.kind = .quoted then (l.value?.getD "").length else 0

/-- Lexemes that a word goes on over. -/
def joinsWord (l : Lexeme) : Bool := l.kind = .word || l.kind = .number

theorem kind_of_joinsWord {l : Lexeme} (joins : joinsWord l = true) : l.kind = .word ∨ l.kind = .number := by
  simpa [joinsWord] using joins

/-- Sources that are related start with the same lexeme and go on alike, or both with layout. -/
def Agrees (R : Nat → List Lexeme → List Lexeme → Prop) : Prop :=
  ∀ opened source source', R opened source source' →
    (∃ l tail tail', source = l :: tail ∧ source' = l :: tail' ∧ R (l.kind.nesting opened) tail tail') ∨
      (∀ l ∈ source.head?, l.kind.isLayout = true) ∧ ∀ l ∈ source'.head?, l.kind.isLayout = true

namespace Agrees

variable {R : Nat → List Lexeme → List Lexeme → Prop} {source source' : List Lexeme} {kinds : List Kind}

/-- Marks that a symbol goes on with are found in both. -/
theorem take (agrees : Agrees R) (related : R opened source source')
    (marks : ∀ kind ∈ kinds, kind.isLayout = false) :
    ((source'.take kinds.length).map (·.kind) = kinds ↔ (source.take kinds.length).map (·.kind) = kinds) ∧
    ((source.take kinds.length).map (·.kind) = kinds → source'.take kinds.length = source.take kinds.length ∧
      R (kinds.foldl Kind.nesting opened) (source.drop kinds.length) (source'.drop kinds.length)) := by
  induction kinds generalizing opened source source' with
  | nil => exact ⟨Iff.rfl, fun _ => ⟨rfl, related⟩⟩
  | cons kind kinds ih =>
    obtain ⟨mark, marks⟩ := forall_mem_cons.mp marks
    rcases agrees _ _ _ related with ⟨l, _, _, rfl, rfl, rest⟩ | ⟨layout, layout'⟩
    · obtain ⟨same, both⟩ := ih rest marks
      simp only [length_cons, take_succ_cons, map_cons, List.cons.injEq, same, drop_succ_cons, true_and, foldl_cons]
      rintro ⟨rfl, fits⟩
      exact both fits
    · have apart (source : List Lexeme) (layout : ∀ l ∈ source.head?, l.kind.isLayout = true) :
          (source.take (kind :: kinds).length).map (·.kind) ≠ kind :: kinds := by
        cases source with
        | nil => simp
        | cons l source =>
          rintro fits
          obtain ⟨rfl, -⟩ := List.cons.inj fits
          cases mark.symm.trans (layout l rfl)
      exact ⟨iff_of_false (apart _ layout') (apart _ layout), fun fits => absurd fits (apart _ layout)⟩

/-- A word goes on over the same lexemes in both. -/
theorem words (agrees : Agrees R) (related : R opened source source') :
    source'.takeWhile joinsWord = source.takeWhile joinsWord ∧
      R opened (source.dropWhile joinsWord) (source'.dropWhile joinsWord) := by
  have apart (source : List Lexeme) (layout : ∀ l ∈ source.head?, l.kind.isLayout = true) :
      source.takeWhile joinsWord = [] ∧ source.dropWhile joinsWord = source := by
    cases source with
    | nil => exact ⟨rfl, rfl⟩
    | cons l source =>
      have kind := layout l rfl
      cases joins : joinsWord l with
      | false => simp [joins]
      | true => rcases kind_of_joinsWord joins with word | word <;> rw [word] at kind <;> cases kind
  induction source generalizing source' with
  | nil =>
    rcases agrees _ _ _ related with ⟨_, _, _, same, -⟩ | ⟨-, layout⟩
    · cases same
    · rw [(apart source' layout).1, (apart source' layout).2]
      exact ⟨rfl, related⟩
  | cons m source ih =>
    rcases agrees _ _ _ related with ⟨l, _, _, same, rfl, rest⟩ | ⟨layout, layout'⟩
    · cases same
      cases joins : joinsWord m with
      | false => simpa [joins] using related
      | true =>
        have flat : m.kind.nesting opened = opened := by
          rcases kind_of_joinsWord joins with kind | kind <;> rw [kind] <;> rfl
        rw [flat] at rest
        simpa [joins] using ih rest
    · rw [(apart _ layout).1, (apart _ layout).2, (apart _ layout').1, (apart _ layout').2]
      exact ⟨rfl, related⟩

end Agrees

end Lexeme

namespace Layout

open Lexeme

variable {s : Layout} {l : Lexeme} {source' more : List Lexeme} {queue : List Token} {token : Token}
  {longer : List (List Kind × Symbol)}

/-- A token, with what is put into the queue, is made of a lexeme and those that it goes on over. -/
structure Piece (l : Lexeme) (more : List Lexeme) (token : Token) (queue : List Token) : Prop where
  kinds : token.kind.isLayout = false ∧ queue = [] ∨ token.kind = .newline ∧
    queue.map (·.kind) = [.symbol .rightBrace]
  inside : ∀ m ∈ more, m.kind.isLayout = false
  held : token.kind = .string → token.textValue.length = l.held
  text : (∀ m ∈ l :: more, ∀ text ∈ m.kind.spelling?, m.text = text) →
    String.join (((token :: queue).filter (!·.kind.isLayout)).map (·.text)) = l.text ++
      String.join (more.map (·.text))

theorem text_of_plain (inside : token.kind.isLayout = false) (empty : queue = []) :
    String.join (((token :: queue).filter (!·.kind.isLayout)).map (·.text)) = token.text := by
  simp [empty, inside]

theorem Piece.single (inside : token.kind.isLayout = false) (empty : queue = []) (text : token.text = l.text)
    (held : token.kind = .string → token.textValue.length = l.held) : Piece l [] token queue where
  kinds := .inl ⟨inside, empty⟩
  inside := by simp
  held := held
  text _ := by simp [text_of_plain inside empty, text]

theorem Piece.goes_on (piece : Piece l more token queue) :
    ∀ t ∈ token :: queue, t.isEnd = false ∧ t.kind ≠ .indent := by
  intro t member
  have kind := mem_map_of_mem (f := Token.kind) member
  rcases piece.kinds with ⟨inside, rfl⟩ | ⟨newline, brace⟩
  · rw [mem_singleton.mp kind, Token.isEnd, mem_singleton.mp kind]
    constructor
    · cases ends : token.kind <;> simp [ends, Token.Kind.isLayout] at inside ⊢
    · intro indent
      rw [indent] at inside
      cases inside
  · simp only [map_cons, newline, brace, mem_cons, not_mem_nil, or_false] at kind
    rcases kind with kind | kind <;> simp [Token.isEnd, kind]

/-- What can be handed out at a lexeme. -/
inductive Starts (s : Layout) (l : Lexeme) : Token × Layout → Prop
  | line (newline : l.kind = .newline) (outside : s.nesting = 0) : Starts s l (s.startLine l)
  | finish (ends : l.kind = .endOfText) : Starts s l (s.endFile l)
  | token {more rest : List Lexeme} {token : Token} {queue : List Token} {nesting : Nat} {last : Span}
      (inside : l.kind.isLayout = false) (split : s.source = more ++ rest) (piece : Piece l more token queue) :
      Starts s l ({ s with source := rest, queue, nesting, lastSpan := last }.give token)

theorem giveLongest_starts (inside : l.kind.isLayout = false) (empty : s.queue = [])
    (entries : ∀ entry ∈ longer, (∀ kind ∈ entry.1, kind.isLayout = false ∧ kind.spelling?.isSome = true) ∧
      ((∀ text ∈ l.kind.spelling?, l.text = text) →
        entry.2.text = l.text ++ String.join (entry.1.map fun kind => kind.spelling?.getD ""))) :
    Starts s l (s.giveLongest l alone longer) := by
  unfold giveLongest
  dsimp only
  split
  · exact .token inside (nil_append _).symm (.single rfl empty rfl nofun)
  next kinds symbol found =>
  have fits : (s.source.take kinds.length).map (·.kind) = kinds := by simpa using find?_some found
  obtain ⟨known, text⟩ := entries _ (mem_of_find?_eq_some found)
  have known (m : Lexeme) (member : m ∈ s.source.take kinds.length) :=
    known m.kind (by rw [← fits]; exact mem_map_of_mem member)
  have piece (place : Span) : Piece l (s.source.take kinds.length)
      { kind := .symbol symbol, span := place, text := symbol.text } s.queue := by
    refine ⟨.inl ⟨rfl, empty⟩, fun m member => (known m member).1, nofun, fun marks => ?_⟩
    obtain ⟨first, others⟩ := forall_mem_cons.mp marks
    have same : (s.source.take kinds.length).map (·.text) = kinds.map fun kind => kind.spelling?.getD "" := by
      conv_rhs => rw [← fits, map_map]
      refine map_congr_left fun m member => ?_
      obtain ⟨text, spelling⟩ := Option.isSome_iff_exists.mp (known m member).2
      rw [others m member text spelling, Function.comp_apply, spelling]
      rfl
    rw [text_of_plain rfl empty, text first, same]
  split <;> exact .token inside (take_append_drop ..).symm (piece _)

theorem giveWord_starts (word : l.kind = .word) (empty : s.queue = []) : Starts s l (s.giveWord l) := by
  have joined (text : String) (more : List Lexeme) :
      more.foldl (fun text m => text ++ m.text) text = text ++ String.join (more.map (·.text)) := by
    induction more generalizing text with
    | nil => simp
    | cons m more ih => simp [ih, String.join_cons, String.append_assoc]
  have kinds : (s.giveWord l).1.kind.isLayout = false ∧ (s.giveWord l).1.kind ≠ .string := by
    simp only [giveWord, give]
    split <;> simp [Token.Kind.isLayout]
  refine .token (by rw [word]; rfl) takeWhile_append_dropWhile.symm
    ⟨.inl ⟨kinds.1, empty⟩, fun m member => ?_, fun string => absurd string kinds.2, fun _ => ?_⟩
  · rcases kind_of_joinsWord (mem_takeWhile_imp member) with kind | kind <;> rw [kind] <;> rfl
  · refine (text_of_plain ?_ empty).trans (joined _ _)
    exact kinds.1

theorem givePunctuator_starts (punctuator : l.kind = .punctuator) (empty : s.queue = []) :
    Starts s l (s.givePunctuator l) := by
  have inside : l.kind.isLayout = false := by rw [punctuator]; rfl
  unfold givePunctuator
  split
  · next brace =>
    have text : l.text = "\x7d" := by
      unfold Symbol.ofPunctuator? at brace
      split at brace <;> first | assumption | cases brace
    exact .token inside (nil_append _).symm ⟨.inr ⟨rfl, rfl⟩, by simp, nofun, fun _ => by
      simp [Token.Kind.isLayout, text]⟩
  · exact .token inside (nil_append _).symm (.single rfl empty rfl nofun)
  · exact .token inside (nil_append _).symm (.single rfl empty rfl nofun)

theorem isLayout_stringKind : (stringKind l).isLayout = false := by
  unfold stringKind
  split <;> rfl

theorem give?_starts (empty : s.queue = []) (found : s.give? l = some given) : Starts s l given := by
  have plain {token : Token} {n : Nat} (inside : l.kind.isLayout = false) (kind : token.kind.isLayout = false)
    (text : token.text = l.text)
      (held : token.kind = .string → token.textValue.length = l.held) : Starts s l
        ({ s with nesting := n }.give token) :=
    .token inside (nil_append _).symm (.single kind empty text held)
  cases kind : l.kind <;> rw [kind] at plain <;> simp only [give?, kind, Option.some.injEq, reduceCtorEq] at found
  case newline =>
    split at found <;> cases found
    exact .line kind (by omega)
  case endOfText => subst found; exact .finish kind
  case question =>
    subst found
    refine giveLongest_starts (by rw [kind]; rfl) empty ?_
    simp +contextual [kind, Kind.spelling?, Kind.isLayout]
    exact ⟨fun _ => rfl, fun _ => rfl, fun _ => rfl⟩
  case period =>
    subst found
    refine giveLongest_starts (by rw [kind]; rfl) empty ?_
    simp +contextual [kind, Kind.spelling?, Kind.isLayout]
    exact ⟨fun _ => rfl, fun _ => rfl⟩
  case punctuator => subst found; exact givePunctuator_starts kind empty
  case word => subst found; exact giveWord_starts kind empty
  case number => subst found; exact plain rfl (by split <;> rfl) rfl (by split <;> simp)
  case quoted => subst found; exact plain rfl isLayout_stringKind rfl fun _ => by simp [held, kind, Token.textValue]
  all_goals subst found; exact plain rfl rfl rfl (by simp)

section

variable {R : Nat → List Lexeme → List Lexeme → Prop} (agrees : Agrees R)

include agrees

theorem giveLongest_agrees (related : R s.nesting s.source source')
    (entries : ∀ entry ∈ longer, (∀ kind ∈ entry.1, kind.isLayout = false) ∧
      ∀ n, entry.1.foldl Kind.nesting n = if entry.2 = .questionBracket then n + 1 else n) :
    ∃ rest, { s with source := source' }.giveLongest l alone longer =
        ((s.giveLongest l alone longer).1, { (s.giveLongest l alone longer).2 with source := rest }) ∧
      R (s.giveLongest l alone longer).2.nesting (s.giveLongest l alone longer).2.source rest := by
  have same : longer.find? (fun entry => decide ((source'.take entry.1.length).map (·.kind) = entry.1)) =
      longer.find? fun entry => decide ((s.source.take entry.1.length).map (·.kind) = entry.1) :=
    find?_congr fun entry known => decide_eq_decide.mpr (agrees.take related (entries entry known).1).1
  unfold giveLongest
  dsimp only
  rw [same]
  cases found : longer.find? fun entry => decide ((s.source.take entry.1.length).map (·.kind) = entry.1) with
  | none => exact ⟨source', rfl, related⟩
  | some entry =>
    obtain ⟨marks, nests⟩ := entries _ (mem_of_find?_eq_some found)
    obtain ⟨taken, rest⟩ := (agrees.take related marks).2 (by simpa using find?_some found)
    rw [nests] at rest
    dsimp only
    rw [taken]
    by_cases bracket : entry.2 = .questionBracket
    · simp only [if_pos bracket] at rest ⊢
      exact ⟨_, rfl, rest⟩
    · simp only [if_neg bracket] at rest ⊢
      exact ⟨_, rfl, rest⟩

/-- The same is handed out where the sources are related. -/
theorem give?_agrees (inside : l.kind.isLayout = false) (related : R (l.kind.nesting s.nesting) s.source source')
    (found : s.give? l = some given) :
    ∃ rest, ({ s with source := source' } : Layout).give? l = some (given.1, { given.2 with source := rest }) ∧
      R given.2.nesting given.2.source rest := by
  cases kind : l.kind <;> rw [kind] at inside related <;>
    simp only [give?, kind, Option.some.injEq, reduceCtorEq] at found ⊢
  case newline | endOfText => cases inside
  case question => subst found; exact giveLongest_agrees agrees related (by simp [Kind.isLayout, Kind.nesting])
  case period => subst found; exact giveLongest_agrees agrees related (by simp [Kind.isLayout, Kind.nesting])
  case punctuator =>
    subst found
    unfold givePunctuator
    split <;> exact ⟨_, rfl, related⟩
  case word =>
    subst found
    obtain ⟨taken, rest⟩ := agrees.words related
    unfold giveWord
    simp only [show (fun m : Lexeme => decide (m.kind = .word) || decide (m.kind = .number)) =
      joinsWord from rfl, taken]
    exact ⟨_, rfl, rest⟩
  all_goals subst found; exact ⟨_, rfl, related⟩

end

end Layout

end DreamMaker
