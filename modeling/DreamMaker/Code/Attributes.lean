import DreamMaker.Resolution.Error
import DreamMaker.Term.Constant

namespace DreamMaker

inductive Attribute
  | waitFor
  | unimplemented
  | hidden
  | popupMenu
  | instant
  | background
  | name
  | description
  | category
  | invisibility
deriving DecidableEq, Repr

namespace Attribute

def word : Attribute → String
  | .waitFor => "waitfor"
  | .unimplemented => "opendream_unimplemented"
  | .hidden => "hidden"
  | .popupMenu => "popup_menu"
  | .instant => "instant"
  | .background => "background"
  | .name => "name"
  | .description => "desc"
  | .category => "category"
  | .invisibility => "invisibility"

def ofWord? : String → Option Attribute
  | "waitfor" => some .waitFor
  | "opendream_unimplemented" => some .unimplemented
  | "hidden" => some .hidden
  | "popup_menu" => some .popupMenu
  | "instant" => some .instant
  | "background" => some .background
  | "name" => some .name
  | "desc" => some .description
  | "category" => some .category
  | "invisibility" => some .invisibility
  | _ => none

theorem word_of_ofWord? {word : String} {key : Attribute} (known : ofWord? word = some key) : key.word = word := by
  unfold ofWord? at known
  split at known <;> cases known <;> rfl

def Slot : Attribute → Type
  | .name | .description => String
  | .category => Option String -- nothing stands for null
  | .invisibility => Nat
  | .waitFor | .unimplemented | .hidden | .popupMenu | .instant | .background => Bool

/-- A number as an invisibility: rounded down, and brought into the range. -/
def invisibilityLevel (value : Float) : Nat :=
  if 100 ≤ value then 100 else value.toUInt8.toNat

def read (value : Term) : (key : Attribute) → Except SemanticError.Cause key.Slot
  | .waitFor | .unimplemented | .hidden | .instant | .background => .ok (value.truth?.getD false)
  | .popupMenu => .ok (!value.truth?.getD false)
  | .name => match value.atom? with
    | some (.string text) => .ok text
    | _ => .error (.attributeNotText "name")
  | .description => match value.atom? with
    | some (.string text) => .ok text
    | _ => .error (.attributeNotText "desc")
  | .category => match value.atom? with
    | some (.string text) => .ok (some text)
    | some .null => .ok none
    | _ => .error .categoryNotText
  | .invisibility => match value.atom? with
    | some (.number level) => .ok (invisibilityLevel level)
    | _ => .error .invisibilityNotNumber

end Attribute

structure Attributes where
  isUnimplemented : Bool := false
  isHidden : Bool := false
  hidesPopupMenu : Bool := false
  isInstant : Bool := false
  /-- It lets others run each time one of its loops comes round. -/
  isBackground : Bool := false
  waitFor : Bool := true
  name? : Option String := none
  description? : Option String := none
  /-- The category of a verb, and within it `none` for null. -/
  category? : Option (Option String) := none
  /-- From 0 to 100. -/
  invisibility? : Option Nat := none
deriving DecidableEq, Repr, Inhabited

namespace Attributes

def write (attributes : Attributes) : (key : Attribute) → key.Slot → Attributes
  | .waitFor, holds => { attributes with waitFor := holds }
  | .unimplemented, holds => { attributes with isUnimplemented := holds }
  | .hidden, holds => { attributes with isHidden := holds }
  | .popupMenu, holds => { attributes with hidesPopupMenu := holds }
  | .instant, holds => { attributes with isInstant := holds }
  | .background, holds => { attributes with isBackground := holds }
  | .name, text => { attributes with name? := some text }
  | .description, text => { attributes with description? := some text }
  | .category, text? => { attributes with category? := some text? }
  | .invisibility, level => { attributes with invisibility? := some level }

/-- The attributes after `set name = value`. The value has to be a constant,
and of unknown names it may be any. -/
def apply (attributes : Attributes) (name : String) (value : Term) (span : Span) : Except SemanticError Attributes :=
  match Attribute.ofWord? name with
  | none => .ok attributes
  | some key => match key.read value with
    | .ok slot => .ok (attributes.write key slot)
    | .error cause => .error { cause, span }

def reports (name : String) (span : Span) : List Report :=
  if name = "popup_menu" || name = "instant" then
    [.located .unimplementedAccess span s!"set {name} is not implemented"]
  else []

theorem write_write (attributes : Attributes) (key : Attribute) (slot : key.Slot) :
    (attributes.write key slot).write key slot = attributes.write key slot := by
  cases key <;> rfl

theorem write_comm (attributes : Attributes) {key other : Attribute} (apart : key ≠ other) (slot : key.Slot)
    (slot' : other.Slot) :
      (attributes.write key slot).write other slot' = (attributes.write other slot').write key slot := by
  cases key <;> cases other <;> first | rfl | exact absurd rfl apart

/-- A value that is taken once more changes nothing, wherever it stands. -/
theorem apply_again {attributes after : Attributes} {name : String} {value : Term} {span : Span}
    (taken : attributes.apply name value span = .ok after) (place : Span) :
      after.apply name value place = .ok after := by
  unfold apply at taken ⊢
  cases known : Attribute.ofWord? name with
  | none => rfl
  | some key =>
    simp only [known] at taken ⊢
    cases read : key.read value with
    | error cause => simp [read] at taken
    | ok slot =>
      simp only [read, Except.ok.injEq] at taken ⊢
      rw [← taken, write_write]

/-- What one attribute is does not depend on the others. -/
theorem apply_of_ne {attributes after : Attributes} {name other : String} {value known : Term} {span place : Span}
    (apart : other ≠ name) (taken : attributes.apply name value span = .ok after)
    (holds : attributes.apply other known place = .ok attributes) : after.apply other known place = .ok after := by
  unfold apply at taken holds ⊢
  cases second : Attribute.ofWord? other with
  | none => rfl
  | some key' =>
    simp only [second] at holds ⊢
    cases read' : key'.read known with
    | error cause => simp [read'] at holds
    | ok slot' =>
      simp only [read', Except.ok.injEq] at holds ⊢
      cases first : Attribute.ofWord? name with
      | none =>
        simp only [first, Except.ok.injEq] at taken
        rw [← taken, holds]
      | some key =>
        have keys : key ≠ key' := by
          rintro rfl
          exact apart ((Attribute.word_of_ofWord? second).symm.trans (Attribute.word_of_ofWord? first))
        simp only [first] at taken
        cases read : key.read value with
        | error cause => simp [read] at taken
        | ok slot =>
          simp only [read, Except.ok.injEq] at taken
          rw [← taken, write_comm attributes keys, holds]

end Attributes

/-- The attributes of a proc, and the values that were accepted for them. -/
structure Settings where
  attributes : Attributes := {}
  values : String → Option Term := fun _ => none
  /-- To accept it once more changes nothing. -/
  settled : ∀ name value, values name = some value →
    ∀ span, attributes.apply name value span = .ok attributes := by
    exact fun _ _ none => nomatch none

namespace Settings

def apply (settings : Settings) (name : String) (value : Term) (span : Span) : Except SemanticError Settings :=
  match taken : settings.attributes.apply name value span with
  | .error error => .error error
  | .ok attributes => .ok {
      attributes
      values := fun other => if other = name then some value else settings.values other
      settled := by
        intro other known accepted place
        by_cases same : other = name
        · rw [if_pos same, Option.some.injEq] at accepted
          rw [same, ← accepted]
          exact Attributes.apply_again taken place
        · rw [if_neg same] at accepted
          exact Attributes.apply_of_ne same taken (settings.settled other known accepted place) }

/-- The value that was accepted last can be taken once more, and nothing changes. -/
theorem apply_again (settings : Settings) {name : String} {value : Term}
    (accepted : settings.values name = some value)
    (span : Span) : settings.apply name value span = .ok settings := by
  have values : (fun other => if other = name then some value else settings.values other) = settings.values := by
    funext other
    split
    · rename_i same
      rw [same, accepted]
    · rfl
  have stays := settings.settled name value accepted span
  unfold apply
  split
  · rename_i error failed
    rw [stays] at failed
    cases failed
  · rename_i attributes taken
    obtain ⟨before, known, settled⟩ := settings
    obtain rfl : before = attributes := Except.ok.inj (stays.symm.trans taken)
    simp only [Except.ok.injEq, Settings.mk.injEq, true_and]
    exact values

end Settings

end DreamMaker
