import DreamMaker.Proofs.Lexeme.Steps
import DreamMaker.Token.Layout

/-!
What a reader of quoted text does step by step: the pieces that it reads, what it is inside of before and behind each
of them, and the holes that it finds on the way.
-/

namespace DreamMaker.Lexeme

open List

variable {q next : Quoting} {next? : Option Char} {text : String} {value? : Option String}

/-- A piece that a reader of quoted text has read, and where it stood before and stands behind it. -/
structure Glance where
  before : Quoting
  piece : List Char
  after : Quoting

/-- The pieces of the body of quoted text, in order. -/
def glancesFrom (taken : Nat) (q : Quoting) : List Char → List Glance
  | [] => []
  | c :: cs => match taken with
    | taken + 1 => glancesFrom taken q cs
    | 0 => match q.look c cs.head? with
      | .stop _ => []
      | .go next piece more => ⟨q, piece, next⟩ :: glancesFrom more next cs

/-- The texts of the outermost holes. `hole` is what has been read of the one that is open. -/
def Glance.holes (hole : List Char) : List Glance → List (List Char)
  | [] => []
  | glance :: glances =>
    if glance.before.outer.isEmpty then holes [] glances
    else if glance.after.outer.isEmpty then hole :: holes [] glances
    else holes (hole ++ glance.piece) glances

/-- The quote mark of the string in an outermost hole that a reader is inside of. -/
def Quoting.innerQuote? (q : Quoting) : Option Char :=
  match (q.inner :: q.outer).reverse with
  | _ :: _ :: .text quote _ :: _ => some quote
  | _ => none

/-- A quote mark strays if it stands in an outermost hole of a string that is written with it, neither ending a
string there nor behind a backslash. -/
def Glance.strays (glance : Glance) : Bool :=
  match glance.before.innerQuote? with
  | none => false
  | some quote =>
    if glance.before.outer.length = 2 then glance.piece == [quote] && glance.after.outer.length == 2
    else glance.piece.contains quote

/-- The pieces of a string. -/
def glances (l : Lexeme) : List Glance :=
  match l.text.toList with
  | '{' :: '"' :: cs => glancesFrom 0 { inner := .text '"' true } cs
  | _ :: cs => glancesFrom 0 { inner := .text '"' false } cs
  | [] => []

/-- The texts of the outermost holes of a string. -/
def holes (l : Lexeme) : List (List Char) := Glance.holes [] l.glances

/-! ### What a look can do -/

/-- The ways from one place to another over a piece. What the reader is inside of comes first. -/
inductive Moves : Quote → List Quote → List Char → Quote → List Quote → Prop
  | nothing {inner : Quote} {outer : List Quote} : Moves inner outer [] inner outer
  | escape {terminator : Char} {long : Bool} {outer : List Quote} (c : Char) :
    Moves (.text terminator long) outer ['\\', c] (.text terminator long) outer
  | copy {terminator c : Char} {long : Bool} {outer : List Quote} (no_backslash : c ≠ '\\') (no_bracket : c ≠ '[') :
    Moves (.text terminator long) outer [c] (.text terminator long) outer
  | hole {terminator : Char} {long : Bool} {outer : List Quote} :
    Moves (.text terminator long) outer ['['] (.hole 0) (.text terminator long :: outer)
  | ends {terminator : Char} {inner : Quote} {outer : List Quote} :
    Moves (.text terminator false) (inner :: outer) [terminator] inner outer
  | endsLong {terminator : Char} {inner : Quote} {outer : List Quote} :
    Moves (.text terminator true) (inner :: outer) [terminator, '}'] inner outer
  | plain {depth : Nat} {outer : List Quote} {c : Char} (no_quote : c ≠ '"' ∧ c ≠ '\'')
    (no_bracket : c ≠ '[' ∧ c ≠ ']') :
    Moves (.hole depth) outer [c] (.hole depth) outer
  | opens {depth : Nat} {outer : List Quote} : Moves (.hole depth) outer ['['] (.hole (depth + 1)) outer
  | closes {depth : Nat} {outer : List Quote} : Moves (.hole (depth + 1)) outer [']'] (.hole depth) outer
  | leaves {inner : Quote} {outer : List Quote} : Moves (.hole 0) (inner :: outer) [']'] inner outer
  | string {depth : Nat} {outer : List Quote} {c : Char} (quote : c = '"' ∨ c = '\'') :
    Moves (.hole depth) outer [c] (.text c false) (.hole depth :: outer)
  | longString {depth : Nat} {outer : List Quote} :
    Moves (.hole depth) outer ['{', '"'] (.text '"' true) (.hole depth :: outer)

variable {c : Char}

/-- What is left is left for what is around it. -/
theorem Quoting.leave_eq_go
    (goes : q.leave marks value = .go next piece more) : piece = marks ∧ q.outer = next.inner :: next.outer := by
  rcases q with ⟨_, _ | ⟨_, _⟩, _⟩
  · cases goes
  · cases goes
    exact ⟨rfl, rfl⟩

theorem Quoting.look_moves
    (goes : q.look c next? = .go next piece more) : Moves q.inner q.outer piece next.inner next.outer := by
  rcases q with ⟨inner, outer, _⟩
  cases inner with
  | text _ long =>
    simp only [look] at goes
    split at goes
    · cases goes
      exact .nothing
    split at goes
    · cases goes
    split at goes
    · split at goes
      · cases goes
      · split at goes <;> cases goes
        · exact .nothing
        · exact .escape _
    split at goes
    · cases goes
      exact .hole
    next no_backslash no_bracket =>
    split at goes
    · next same =>
      subst same
      split at goes
      · next short =>
        obtain ⟨rfl, around⟩ := leave_eq_go goes
        obtain rfl : long = false := by simpa using short
        rw [show outer = _ from around]
        exact .ends
      · next long_ =>
        obtain rfl : long = true := by simpa using long_
        split at goes
        · obtain ⟨rfl, around⟩ := leave_eq_go goes
          rw [show outer = _ from around]
          exact .endsLong
        · cases goes
          exact .copy no_backslash no_bracket
    · cases goes
      exact .copy no_backslash no_bracket
  | hole _ =>
    simp only [look] at goes
    split at goes
    · cases goes
      exact .nothing
    split at goes
    · next same =>
      cases goes
      rw [same]
      exact .opens
    · next no_opening =>
      split at goes
      · next same =>
        rw [same] at goes
        split at goes
        · cases goes
          exact .closes
        · obtain ⟨rfl, around⟩ := leave_eq_go goes
          rw [show outer = _ from around]
          exact .leaves
      · next no_closing =>
        split at goes
        · next quote =>
          cases goes
          exact .string (by simpa using quote)
        · next no_quote =>
          split at goes
          · cases goes
            exact .longString
          · cases goes
            exact .plain (by simpa using no_quote) ⟨no_opening, no_closing⟩

/-- How the reader stops where the text is complete. -/
structure Stops (q : Quoting) (c : Char) (next? : Option Char) (body : Body) : Prop where
  alone : q.outer = []
  marks : 1 ≤ body.length
  value : ∀ terminator long, q.inner = .text terminator long → body.value = []
  /-- The character behind the first mark counts only if it is a mark too. -/
  look : ∀ other? : Option Char, (1 < body.length → other? = next?) → q.look c other? = .stop body

variable {long : Bool}

theorem Quoting.leave_eq_stop
    (stops : q.leave marks value = .stop body) : q.outer = [] ∧ body = ⟨value, marks.length, none⟩ := by
  rcases q with ⟨_, _ | ⟨_, _⟩, _⟩
  · cases stops
    exact ⟨rfl, by simp [Body.after, Body.complete]⟩
  · cases stops

theorem Quoting.look_stops
    (stops : q.look c next? = .stop body) (complete : body.complaint? = none) : Stops q c next? body := by
  rcases q with ⟨inner, _, _⟩
  cases inner with
  | text _ _ =>
    simp only [look] at stops
    split at stops
    · cases stops
    split at stops
    · cases stops
      cases complete
    split at stops
    · split at stops
      · cases stops
        cases complete
      · split at stops <;> cases stops
    split at stops
    · cases stops
    next no_gap goes_on no_backslash no_bracket =>
    split at stops
    · next mark =>
      split at stops
      · next short =>
        obtain ⟨alone, rfl⟩ := leave_eq_stop stops
        refine ⟨alone, Nat.le_refl _, fun _ _ _ => rfl, fun other? _ => ?_⟩
        simp only [look, if_neg no_gap, if_neg goes_on, if_neg no_backslash, if_neg no_bracket,
          if_pos mark, if_pos short]
        exact stops
      · next long_ =>
        split at stops
        · next brace =>
          obtain ⟨alone, rfl⟩ := leave_eq_stop stops
          refine ⟨alone, by simp, fun _ _ _ => rfl, fun other? same => ?_⟩
          obtain rfl := same (by simp)
          simp only [look, if_neg no_gap, if_neg goes_on, if_neg no_backslash, if_neg no_bracket, if_pos mark,
            if_neg long_, if_pos brace]
          exact stops
        · cases stops
    · cases stops
  | hole _ =>
    simp only [look] at stops
    split at stops
    · cases stops
    split at stops
    · cases stops
    next no_gap no_opening =>
    split at stops
    · next closing =>
      split at stops
      · cases stops
      obtain ⟨alone, rfl⟩ := leave_eq_stop stops
      refine ⟨alone, Nat.le_refl _, nofun, fun other? _ => ?_⟩
      simp only [look, if_neg no_gap, if_neg no_opening, if_pos closing]
      exact stops
    · split at stops
      · cases stops
      · split at stops <;> cases stops

/-! ### Bodies -/

theorem bodyFrom_of_stop (stops : q.look c cs.head? = .stop body) :
    bodyFrom 0 q (c :: cs) = body ∧ glancesFrom 0 q (c :: cs) = [] := by
  simp only [bodyFrom, glancesFrom, stops, and_self]

theorem bodyFrom_of_go (goes : q.look c cs.head? = .go next piece more) :
    bodyFrom 0 q (c :: cs) = (bodyFrom more next cs).after piece (more + 1) ∧
      glancesFrom 0 q (c :: cs) = ⟨q, piece, next⟩ :: glancesFrom more next cs := by
  simp only [bodyFrom, glancesFrom, goes, and_self]

theorem length_bodyFrom_pos
    (complete : (bodyFrom taken q cs).complaint? = none) : 1 ≤ (bodyFrom taken q cs).length := by
  induction cs generalizing taken q with
  | nil => cases complete
  | cons c cs ih =>
    cases taken with
    | succ taken => exact ih complete
    | zero =>
      rcases looked : q.look c cs.head? with _ | ⟨_, _, _⟩
      · rw [(bodyFrom_of_stop looked).1] at complete ⊢
        exact (q.look_stops looked complete).marks
      · rw [(bodyFrom_of_go looked).1]
        simp only [Body.after]
        omega

/-- A body that is complete does not depend on what stands behind it. -/
theorem bodyFrom_take {q : Quoting} (complete : (bodyFrom taken q cs).complaint? = none) :
    bodyFrom taken q (cs.take (taken + (bodyFrom taken q cs).length)) = bodyFrom taken q cs ∧
      glancesFrom taken q (cs.take (taken + (bodyFrom taken q cs).length)) = glancesFrom taken q cs := by
  induction cs generalizing taken q with
  | nil => cases complete
  | cons c cs ih =>
    cases taken with
    | succ taken =>
      rw [Nat.add_right_comm]
      exact ih complete
    | zero =>
      have head : ∀ n, 1 ≤ n → (cs.take n).head? = cs.head? := by
        intro n some
        rw [head?_take, if_neg (by omega)]
      rcases looked : q.look c cs.head? with body | ⟨next, piece, more⟩
      · obtain ⟨read, seen⟩ := bodyFrom_of_stop looked
        rw [read] at complete
        have stops := q.look_stops looked complete
        obtain ⟨n, length⟩ : ∃ n, body.length = n + 1 := ⟨body.length - 1, by have := stops.marks; omega⟩
        have again := stops.look _ fun more => head n (by omega)
        rw [read, seen, Nat.zero_add, length]
        exact bodyFrom_of_stop again
      · obtain ⟨read, seen⟩ := bodyFrom_of_go looked
        rw [read] at complete
        have inner := ih complete
        have some := length_bodyFrom_pos complete
        have again : q.look c (cs.take (more + (bodyFrom more next cs).length)).head? = .go next piece more := by
          rw [head _ (by omega), looked]
        have length : 0 + (bodyFrom 0 q (c :: cs)).length = more + (bodyFrom more next cs).length + 1 := by
          rw [read]
          simp only [Body.after]
          omega
        obtain ⟨read', seen'⟩ := bodyFrom_of_go again
        rw [length, take_succ_cons, read', seen', read, seen, inner.1, inner.2]
        exact ⟨rfl, rfl⟩

/-! ### Strings among the lexemes of a text -/

/-- What stands before the body of a string. -/
def opening (long : Bool) : List Char := if long then ['{', '"'] else ['"']

/-- A string as it is scanned: its text is its body between marks, and its value is that of the body. -/
structure Holds (l : Lexeme) (long : Bool) (cs : List Char) : Prop where
  text : l.text.toList = opening long ++ cs
  complete : (stringBody '"' long cs).complaint? = none
  value : l.value? = some (String.ofList (stringBody '"' long cs).value)

theorem Holds.glances (holds : Holds l long cs) : l.glances = glancesFrom 0 { inner := .text '"' long } cs := by
  rw [Lexeme.glances, holds.text]
  cases long <;> rfl

/-- The string that a step finds is the body behind its marks. -/
theorem Holds.of_body (complete : (stringBody '"' long rest).complaint? = none)
    (text : l.text.toList = opening long ++ rest.take (stringBody '"' long rest).length)
    (value : l.value? = some (String.ofList (stringBody '"' long rest).value)) :
    Holds l long (rest.take (stringBody '"' long rest).length) := by
  have same : stringBody '"' long (rest.take (stringBody '"' long rest).length) = stringBody '"' long rest := by
    have taken := (@bodyFrom_take 0 _ _ complete).1
    rwa [Nat.zero_add] at taken
  exact ⟨text, by rw [same]; exact complete, by rw [same]; exact value⟩

theorem exists_holds_of_step (found : (step lineStart c cs).found? = some (l.kind, l.text, l.value?))
    (quoted : l.kind = .quoted) (string : Layout.stringKind l = .string) : ∃ long body, Holds l long body := by
  have finds := step_finds lineStart c cs
  generalize step lineStart c cs = s at finds found
  rw [quoted] at found
  cases finds with
  | gap => rcases kind_of_gapStep found with kind | kind <;> cases kind
  | skip | newline | invalid | symbol | number | word => cases found
  | mark marked => exact absurd (Prod.mk.inj (Option.some.inj found)).1 (kind_of_mark? marked).2.1
  | @quoted ahead body quotes complete =>
    obtain ⟨text, value⟩ : String.ofList (c :: cs.take (ahead + body.length)) = l.text ∧
        some (String.ofList body.value) = l.value? := by simpa [Step.found] using found
    have chars : l.text.toList = c :: cs.take (ahead + body.length) := by rw [← text, String.toList_ofList]
    cases quotes with
    | long brace head =>
      subst brace
      obtain ⟨_, rfl⟩ := head?_eq_some_iff.mp head
      refine ⟨true, _, .of_body complete ?_ value.symm⟩
      rw [chars, Nat.add_comm]
      rfl
    | short quote =>
      rw [Nat.zero_add] at chars
      have double : c = '"' := quote.resolve_right fun single => by
        subst single
        simp [Layout.stringKind, chars] at string
      subst double
      exact ⟨false, _, .of_body complete chars value.symm⟩
    | raw mark =>
      subst mark
      simp [Layout.stringKind, chars] at string

theorem exists_holds (member : l ∈ scanFrom origin taken place lineStart cs) (quoted : l.kind = .quoted)
    (string : Layout.stringKind l = .string) : ∃ long body, Holds l long body := by
  obtain ⟨_, _, scanned, ends, steps⟩ := scanFrom_found origin taken place lineStart cs
  rcases mem_append.mp (scanned ▸ member) with inside | behind
  · obtain ⟨lineStart, _, cs, found⟩ := steps l inside
    exact exists_holds_of_step found quoted string
  · rw [mem_singleton.mp behind, ends] at quoted
    cases quoted

end DreamMaker.Lexeme
