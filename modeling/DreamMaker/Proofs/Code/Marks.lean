import DreamMaker.Code.Compile

namespace DreamMaker

/-- Operations with their places, in order. -/
abbrev Listing := List (Op × Span)

/-- The part of a proc that is being compiled which has to do with labels. -/
@[ext]
structure Marks where
  count : Nat
  loops : List OpenLoop
  labels : List NamedLabel
  active : List String

def Assembly.marks (s : Assembly) : Marks := ⟨s.labelCount, s.loops, s.labels, s.active⟩

namespace Marks

variable {f : NamedLabel → NamedLabel}

def initial : Marks := ⟨0, [], [], []⟩

section

variable (m : Marks)

def label? (name : String) : Option NamedLabel := m.labels.find? (·.name == name)

/-- Hands out some labels. -/
def fresh (number : Nat) : Marks := { m with count := m.count + number }

/-- Notes that something jumps out of so many loops, from the innermost on. -/
def escape (number : Nat) : Marks :=
  { m with loops := (m.loops.take number).map ({ · with escaped := true }) ++ m.loops.drop number }

def change (name : String) (f : NamedLabel → NamedLabel) : Marks :=
  { m with labels := m.labels.map fun label => if label.name == name then f label else label }

/-- The label at which a name starts, or will start. -/
def startOf (name : String) : Label :=
  match m.label? name with
  | some label => label.start
  | none => ⟨m.count⟩

/-- Makes a name known, at the place where it is used first. -/
def mention (name : String) (span : Span) : Marks :=
  match m.label? name with
  | some _ => m
  | none =>
    { m with
      count := m.count + 1
      labels := { name, start := ⟨m.count⟩, placed := false, firstUse := span } :: m.labels }

def place (name : String) (span : Span) : Marks :=
  (m.mention name span).change name fun label => { label with placed := true, depth := m.loops.length }

/-- Opens the block behind a name, which ends at a new label. -/
def openBlock (name : String) : Marks :=
  let m' := (m.fresh 1).change name fun label => { label with stop? := some ⟨m.count⟩ }
  { m' with active := name :: m.active }

def closeBlock : Marks := { m with active := m.active.tail }

def isBroken (name : String) : Bool := (m.label? name).any NamedLabel.broken

def openLoop (next stop : Label) : Marks :=
  { m with
    loops := { next, stop } :: m.loops
    labels := m.labels.map fun label =>
      if m.active.contains label.name && label.next?.isNone then
        { label with next? := some (next, m.loops.length) }
      else label }

def closeLoop : Marks := { m with loops := m.loops.tail }

/-- Whether something jumped out of the innermost loop. -/
def isEscaped : Bool := m.loops.head?.any OpenLoop.escaped

/-- Leaves everything around behind, for a part that is run on its own. -/
def detach : Marks := { m with loops := [], active := [] }

end

/-- Returns to what was around before. -/
def attach (m outer : Marks) : Marks := { m with loops := outer.loops, active := outer.active }

/-! What a name stands for after a change. -/

theorem label?_mem {m : Marks} (known : m.label? name = some label) : label ∈ m.labels :=
  List.mem_of_find?_eq_some known

theorem find?_map_name (labels : List NamedLabel) (keeps : ∀ label, (f label).name = label.name) (name : String) :
    (labels.map f).find? (·.name == name) = (labels.find? (·.name == name)).map f := by
  simp only [List.find?_map, Function.comp_def, keeps]

variable (m : Marks)

theorem label?_change
    (keeps : ∀ label, (f label).name = label.name) (other : String) :
    (m.change name f).label? other = if other = name then (m.label? other).map f else m.label? other := by
  unfold change label?
  rw [find?_map_name]
  · cases known : m.labels.find? (·.name == other) with
    | none => simp
    | some label =>
      have same : label.name = other := by simpa using List.find?_some known
      by_cases equal : other = name <;> simp [same, equal]
  · intro label
    split <;> simp [keeps]

/-- What a name stands for before it is mentioned. -/
def labelOrNew (m : Marks) (name : String) (span : Span) : NamedLabel :=
  (m.label? name).getD { name, start := ⟨m.count⟩, placed := false, firstUse := span }

theorem labelOrNew_start (name : String) (span : Span) : (m.labelOrNew name span).start = m.startOf name := by
  unfold labelOrNew startOf
  cases m.label? name <;> rfl

theorem label?_mention :
    (m.mention name span).label? other =
      if other = name then some (m.labelOrNew name span) else m.label? other := by
  unfold mention labelOrNew
  cases known : m.label? name with
  | some _ =>
    by_cases equal : other = name
    · simp [equal, known]
    · simp [equal]
  | none =>
    by_cases equal : other = name
    · simp [label?, equal]
    · have differs : ¬ name = other := fun h => equal h.symm
      simp [label?, equal, differs]

theorem label?_openLoop (next stop : Label) (name : String) :
    (m.openLoop next stop).label? name = (m.label? name).map fun label =>
      if m.active.contains name && label.next?.isNone then
        { label with next? := some (next, m.loops.length) }
      else label := by
  unfold openLoop label?
  rw [find?_map_name]
  · cases known : m.labels.find? (·.name == name) with
    | none => rfl
    | some label =>
      have same : label.name = name := by simpa using List.find?_some known
      simp [same]
  · intro label
    split <;> rfl

theorem label?_place (name : String) (span : Span) (other : String) :
    (m.place name span).label? other =
      if other = name then
        some { m.labelOrNew name span with placed := true, depth := m.loops.length }
      else m.label? other := by
  rw [place, label?_change, label?_mention]
  · by_cases equal : other = name
    · simp [equal]
    · simp [equal]
  · intro _
    rfl

theorem mention_count_le (name : String) (span : Span) : m.count ≤ (m.mention name span).count := by
  unfold mention
  split <;> simp

theorem mention_active (name : String) (span : Span) : (m.mention name span).active = m.active := by
  unfold mention
  split <;> rfl

theorem mention_loops (name : String) (span : Span) : (m.mention name span).loops = m.loops := by
  unfold mention
  split <;> rfl

end Marks

end DreamMaker
