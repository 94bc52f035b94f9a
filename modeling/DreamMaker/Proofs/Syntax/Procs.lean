import DreamMaker.Parsing.Grammar
import DreamMaker.Proofs.Path

/-!
The path of a proc: that of its type, then the mark of a proc or a verb, then its name. It tells procs apart, unless
a name holds the sign that stands between segments.
-/

namespace DreamMaker.ProcDefinition

open List TypePath

variable {definition other : ProcDefinition}

theorem owner_eq (definition : ProcDefinition) : definition.owner = ⟨.absolute, definition.owner.segments⟩ := by
  obtain ⟨segments, rooted⟩ := definition.rooted
  rw [rooted]
  rfl

theorem segments_path (piece : IsPiece definition.name) : definition.path.segments =
    definition.owner.segments ++ [if definition.isVerb then "verb" else "proc", definition.name] := by
  have marker : IsPiece (if definition.isVerb then "verb" else "proc") := by
    split <;> exact ⟨⟨_, _, rfl, rfl⟩, by decide⟩
  have plain : ∀ segment ∈ definition.owner.segments, IsSegment segment := by
    obtain ⟨segments, rooted⟩ := definition.rooted
    rw [rooted]
    exact isSegment_of_mem_normalize segments
  obtain ⟨marked, plain⟩ := add_piece marker plain
  rw [path, (add_piece piece plain).1, marked, append_assoc]
  rfl

/-- The path of a proc has two segments more than that of its type, and tells the type, the name and whether it is
a verb. -/
theorem path_tells (piece : IsPiece definition.name) (piece' : IsPiece other.name) :
    definition.path.segments = definition.owner.segments ++
        [if definition.isVerb then "verb" else "proc", definition.name] ∧
      (definition.path = other.path →
        definition.owner = other.owner ∧ definition.isVerb = other.isVerb ∧ definition.name = other.name) := by
  have whole := segments_path piece
  refine ⟨whole, fun same => ?_⟩
  rw [same, segments_path piece'] at whole
  obtain ⟨owners, ends⟩ := append_inj' whole rfl
  obtain ⟨markers, names⟩ := cons.inj ends
  refine ⟨?_, ?_, (cons.inj names).1.symm⟩
  · rw [definition.owner_eq, other.owner_eq, owners]
  · revert markers
    cases definition.isVerb <;> cases other.isVerb <;> simp

/-- A proc and a verb of one name that are read from a text have different paths. -/
theorem path_tells_verb :
    let text := "/obj/proc/f()\n\treturn\n/obj/verb/f()\n\treturn\n"
    let procs := (SourceFile.parse (Lexeme.scan (.file 0) text)).result.procs
    procs.map (fun proc => (proc.name, proc.isVerb)) = [("f", false), ("f", true)] ∧
      ∀ a ∈ procs, ∀ b ∈ procs, a.path = b.path → a.isVerb = b.isVerb := by
  intro _ procs
  have read : procs.map (fun proc => (proc.name, proc.isVerb)) = [("f", false), ("f", true)] := by decide +kernel
  have named : ∀ proc ∈ procs, proc.name = "f" := by decide +kernel
  have piece (proc : ProcDefinition) (member : proc ∈ procs) : IsPiece proc.name :=
    named proc member ▸ ⟨⟨'f', [], rfl, rfl⟩, by decide⟩
  exact ⟨read, fun a here b there same => ((path_tells (piece a here) (piece b there)).2 same).2.1⟩

/-- The name of an overload may hold the sign between segments. -/
theorem path_of_divide :
    let text := "/datum/proc/operator/(x)\n\treturn 1\n/datum/proc/operator(x)\n\treturn 2\n"
    (SourceFile.parse (Lexeme.scan (.file 0) text)).result.procs.map (fun proc => (proc.name, proc.path.render)) =
      [("operator/", "/datum/proc/operator"), ("operator", "/datum/proc/operator")] := by
  decide +kernel

end DreamMaker.ProcDefinition
