import DreamMaker.Proofs.Emission.Monitor

/-!
Where `break` and `continue` jump to. The labels of a loop are handed out in a row: it starts at the first one,
goes on at the second and ends at the third.
-/

namespace DreamMaker

open List

namespace Assembly

variable {s : Assembly} {label? : Option String}

/-- The operations that have been emitted. -/
def emitted (s : Assembly) : List Op := s.ops.toList.map Prod.fst

/-- The loop that starts at this label has been started and has not ended. -/
def IsOpen (s : Assembly) (n : Nat) : Prop := .loopStart ⟨n⟩ ∈ s.emitted ∧ .loopEnd ⟨n + 2⟩ ∉ s.emitted

/-- A statement jumps to a target of this kind, or it emits nothing and does not leave. -/
def JumpsTo (target : Label → Prop) (span : Span) (s : Assembly) (outcome : Outcome) : Prop :=
  (outcome.1 ≠ .ok .loopExit ∧ outcome.2.ops = s.ops) ∨
    ∃ label, target label ∧ outcome.2.ops = s.ops.push (.jump label, span)

/-- `break` leads to the end of a loop that is open, or of a block that is being compiled. -/
def BreaksTo (s : Assembly) (target : Label) : Option String → Prop
  | none => ∃ n, target = ⟨n + 2⟩ ∧ s.IsOpen n
  | some name => name ∈ s.active ∧ ∃ label, s.label? name = some label ∧ label.stop? = some target ∧
      .mark label.start ∈ s.emitted ∧ .mark target ∉ s.emitted

/-- `continue` leads to the next round of an open loop. Behind a name that is the first loop in the block, which
may have ended. -/
def ContinuesTo (s : Assembly) (target : Label) : Option String → Prop
  | none => ∃ n, target = ⟨n + 1⟩ ∧ s.IsOpen n
  | some name => name ∈ s.active ∧ ∃ label n, s.label? name = some label ∧ target = ⟨n + 1⟩ ∧
      [.mark label.start, .loopStart ⟨n⟩] <+ s.emitted ∧
      (s.IsOpen n ∨ ∃ later, s.IsOpen later ∧
        [.mark label.start, .loopStart ⟨n⟩, .loopEnd ⟨n + 2⟩, .loopStart ⟨later⟩] <+ s.emitted)

/-- What is said of `break` and `continue` holds of a statement. -/
def Exits : Action → Span → Assembly → Outcome → Prop
  | .break_ label?, span, s, outcome => JumpsTo (s.BreaksTo · label?) span s outcome
  | .continue_ label?, span, s, outcome => JumpsTo (s.ContinuesTo · label?) span s outcome
  | _, _, _, _ => True

/-- A label that is still to be placed has not been placed. -/
theorem not_emitted (tidy : Tidy pending s.marks s.ops.toList)
    (waits : label ∈ pending) (places : op.placed? = some label) : op ∉ s.emitted := by
  intro emitted
  obtain ⟨entry, member, rfl⟩ := mem_map.1 emitted
  have placed : label ∈ placedLabels s.ops.toList := mem_filterMap.2 ⟨entry, member, places⟩
  exact (nodup_append.1 tidy.once).2.2 label placed label waits rfl

section

variable (tidy : Tidy pending s.marks s.ops.toList)
  (inside : Around pending around s.marks s.emitted)

include tidy inside

theorem isOpen_of_mem (member : n ∈ around) : s.IsOpen n :=
  ⟨(inside.started n member).1, not_emitted tidy (inside.started n member).2 rfl⟩

/-- The innermost loop. -/
theorem isOpen_of_cons (loops : s.loops = loop :: outer) :
    ∃ n, loop.next = ⟨n + 1⟩ ∧ loop.stop = ⟨n + 2⟩ ∧ s.IsOpen n := by
  have same := inside.loops
  rw [show s.marks.loops = loop :: outer from loops, map_cons] at same
  cases around with
  | nil => cases same
  | cons n _ =>
    rw [map_cons, List.cons.injEq, Prod.mk.injEq] at same
    exact ⟨n, same.1.1, same.1.2, isOpen_of_mem tidy inside (.head _)⟩

theorem Breaks.breaksTo (breaks : Breaks s.marks label? target m) : s.BreaksTo target label? := by
  cases breaks with
  | loop loops =>
    obtain ⟨n, _, stop, opened⟩ := isOpen_of_cons tidy inside loops
    exact ⟨n, stop, opened⟩
  | @block name label _ known _ active ends =>
    obtain ⟨label', known', _, marked, stop, waits, ends'⟩ := inside.blocks name active
    obtain rfl : label = label' := Option.some.inj (known.symm.trans known')
    obtain rfl : target = stop := Option.some.inj (ends.symm.trans ends')
    exact ⟨active, label, known, ends, marked, not_emitted tidy waits rfl⟩

theorem Continues.continuesTo (continues : Continues s.marks label? target m) : s.ContinuesTo target label? := by
  cases continues with
  | loop loops =>
    obtain ⟨n, next, _, opened⟩ := isOpen_of_cons tidy inside loops
    exact ⟨n, next, opened⟩
  | @block name label _ depth known _ active goesOn deeper =>
    obtain ⟨first, same, begun, place⟩ := inside.firsts.found name active label target depth known goesOn
    refine ⟨active, label, first, known, same, begun, ?_⟩
    rcases place with here | ⟨_, later⟩
    · exact .inl (isOpen_of_mem tidy inside (mem_reverse.1 (mem_of_getElem? here)))
    -- More loops are around than around the first one, and the innermost of them has started behind its end.
    rw [inside.length] at deeper
    rcases around with _ | ⟨n, others⟩
    · cases deeper
    have innermost : n ∈ (n :: others).take ((n :: others).length - depth) := by
      obtain ⟨count, enough⟩ := Nat.exists_eq_add_of_lt deeper
      rw [enough, show depth + count + 1 - depth = count + 1 by omega]
      exact .head _
    exact .inr ⟨n, isOpen_of_mem tidy inside (.head _), later n innermost⟩

end

theorem exits_of_stands {span : Span}
    (stands : Stands Mode.any last .statements s.marks s.ops.toList (compileAction span action s).2.marks) :
    Exits action span s (compileAction span action s) := by
  obtain ⟨_, _, _, tidy, inside⟩ := stands.sited
  cases action with
  | break_ label? =>
    rw [compileAction]
    obtain ⟨error, run⟩ | ⟨target, m, breaks, run⟩ := breakOut_cases
    · rw [run]
      exact .inl ⟨by rintro ⟨⟩, rfl⟩
    · rw [run]
      exact .inr ⟨target, breaks.breaksTo tidy inside, rfl⟩
  | continue_ label? =>
    rw [compileAction]
    obtain ⟨error, run⟩ | run | ⟨next, m, continues, run⟩ := continueTarget?_cases
    · rw [continueOn, Run.bind_of_error run]
      exact .inl ⟨by rintro ⟨⟩, rfl⟩
    · rw [continueOn, Run.bind_of_ok run]
      exact .inl ⟨by rintro ⟨⟩, rfl⟩
    · rw [continueOn, Run.bind_of_ok run]
      exact .inr ⟨next, continues.continuesTo tidy inside, rfl⟩
  | _ => trivial

end Assembly

/-! Loops in the code of a proc. -/

/-- Every loop that starts goes on somewhere behind its start, and ends behind that. -/
def WholeLoops (ops : List Op) : Prop :=
  ∀ n, .loopStart ⟨n⟩ ∈ ops → [.loopStart ⟨n⟩, .loopContinue ⟨n + 1⟩, .loopEnd ⟨n + 2⟩] <+ ops

theorem WholeLoops.append (one : WholeLoops first) (two : WholeLoops second) : WholeLoops (first ++ second) := by
  intro n started
  rcases mem_append.1 started with started | started
  · exact (one n started).trans (sublist_append_left _ _)
  · exact (two n started).trans (sublist_append_right _ _)

theorem WholeLoops.of_places (places : placedLabels code = []) : WholeLoops (code.map Prod.fst) := by
  intro n started
  obtain ⟨⟨_, _⟩, member, rfl⟩ := mem_map.1 started
  have placed : (⟨n⟩ : Label) ∈ placedLabels code := mem_filterMap.2 ⟨_, member, rfl⟩
  rw [places] at placed
  cases placed

theorem WholeLoops.nil : WholeLoops [] := nofun

theorem WholeLoops.cons (op : Op) (other : ∀ label, op ≠ .loopStart label) (rest : WholeLoops ops) :
    WholeLoops (op :: ops) :=
  fun n started => (rest n (mem_of_ne_of_mem (other _).symm started)).cons _

theorem Fork.wholeLoops {count : Nat} {head : Listing}
    (fork : Fork count other stop head link) : WholeLoops (head.map Prod.fst) ∧ WholeLoops (link.map Prod.fst) := by
  cases fork <;> simp [WholeLoops]

theorem LoopForm.wholeLoops {next : Label} {head tail : Listing}
    (form : LoopForm start next stop piece head tail certain) :
    .loopContinue next ∈ head.map Prod.fst ++ tail.map Prod.fst ∧
      WholeLoops (head.map Prod.fst) ∧ WholeLoops (tail.map Prod.fst) := by
  cases form with
  | endless pause | while_ pause | doWhile pause | each pause => cases pause <;> simp [WholeLoops]
  | doOnce => simp [WholeLoops]
  | forever step pause | for_ step pause => cases step <;> cases pause <;> simp [WholeLoops]

theorem Lowers.wholeLoops (lowers : Lowers mode piece m code t m') : WholeLoops (code.map Prod.fst) := by
  induction lowers with
  | nothing | leave | breakLoop | breakLabel | continueLoop | continueLabel | goto | label | noRounds | noCases =>
    simp [WholeLoops]
  | line line => exact .of_places line.inert.1
  | halted values => exact .of_places placedLabels_pushes
  | @labelBlock m m' name body t a b _ _ ih =>
    simpa using .cons (.mark (m.startOf name)) nofun (ih.append (.cons (.mark ⟨(m.place name a).count⟩) nofun .nil))
  | scope _ ih => simpa using .cons .enterScope nofun (ih.append (.cons .exitScope nofun .nil))
  | append _ _ _ ih₁ ih₂ => simpa using ih₁.append ih₂
  | @skip m m' _ body t a form _ ih =>
    simpa using (WholeLoops.of_places form.labels.1).append (ih.append (.cons (.mark ⟨m.count⟩) nofun .nil))
  | @fork m m₁ m₂ _ stop _ _ _ _ _ _ _ form _ _ ih₁ ih₂ =>
    obtain ⟨head, link⟩ := form.wholeLoops
    simpa using head.append (ih₁.append (link.append (ih₂.append (.cons (.mark stop) nofun .nil))))
  | @loop piece m m' head tail _ body t a b _ _ form _ ih =>
    obtain ⟨goesOn, first, behind⟩ := form.wholeLoops
    let inner : List Op :=
      head.map Prod.fst ++ (.enterScope :: (body.map Prod.fst ++ [.exitScope])) ++ tail.map Prod.fst
    have whole := (first.append (.cons .enterScope nofun (ih.append (.cons .exitScope nofun .nil)))).append behind
    have next : .loopContinue ⟨m.count + 1⟩ ∈ inner := by
      rcases mem_append.1 goesOn with before | behind
      · exact mem_append_left _ (mem_append_left _ before)
      · exact mem_append_right _ behind
    have ends : WholeLoops [.loopEnd ⟨m.count + 2⟩] := .cons _ nofun .nil
    have all : WholeLoops (.loopStart ⟨m.count⟩ :: (inner ++ [.loopEnd ⟨m.count + 2⟩])) := by
      intro n started
      rcases mem_cons.1 started with same | inside
      · cases same
        exact ((singleton_sublist.2 next).append (.refl [Op.loopEnd ⟨m.count + 2⟩])).cons_cons _
      · exact ((whole.append ends) n inside).cons _
    simpa [inner] using all
  | @enumerator m m' kind _ _ _ _ _ _ values _ _ ih =>
    have rounds := WholeLoops.cons .enterScope nofun
      (ih.append (.cons .exitScope nofun (.cons .destroyEnumerator nofun .nil)))
    simpa using (WholeLoops.of_places placedLabels_pushes).append (.cons (.createEnumerator kind) nofun rounds)
  | @switch m m₁ m₂ value labels _ _ _ _ _ _ _ _ _ form _ _ ih₁ ih₂ =>
    let stop : Label := ⟨m.count + labels.length⟩
    have bodies := ih₁.append (.cons (.jump stop) nofun (ih₂.append (.cons (.mark stop) nofun .nil)))
    simpa using .cons (.push value) nofun ((WholeLoops.of_places form.labels.1).append (.cons .pop nofun bodies))
  | @case m m₁ m₂ stop label _ _ _ _ _ _ _ _ _ _ ih₁ ih₂ =>
    simpa using .cons (.mark label) nofun (ih₁.append (.cons (.jump stop) nofun ih₂))
  | @spawn m m' value null _ _ _ _ _ _ _ _ ih =>
    have returned : WholeLoops [.push null, .return_, .mark ⟨m.count⟩] := by simp [WholeLoops]
    simpa using .cons (.push value) nofun (.cons (.spawn ⟨m.count⟩) nofun (ih.append returned))
  | forget _ ih => exact ih

namespace ProcDefinition

/-- `break` and `continue` jump to an open loop or to the end of a block that is being compiled, but for a
`continue` behind the name of a block whose first loop has ended while a later one is open. -/
theorem compile_exits (definition : ProcDefinition) (tree : TypeTree) (log : Log) :
    definition.Always tree log Assembly.Exits ∧
      WholeLoops ((definition.compile tree log).1.ops.toList.map Prod.fst) := by
  refine ⟨always_of_stands fun _ _ _ stands => Assembly.exits_of_stands stands, ?_⟩
  obtain ⟨_, lowers⟩ := definition.assembled_lowers
  exact lowers.wholeLoops

/-- `twice: { for (. in .) .; for (. in .) continue twice }` -/
def twoLoops : ProcDefinition :=
  let dot := .mk .result .unknown
  .ofActions "twice" [.label "twice" (some (.ofActions [.forIn dot none dot (.ofActions [.expression dot]),
    .forIn dot none dot (.ofActions [.continue_ (some "twice")])]))]

/-- Whether a statement has jumped to the next round of a loop that has ended. -/
def restartsEnded (s s' : Assembly) : Bool :=
  s'.ops.size != s.ops.size && s'.ops.back?.any fun entry => match entry.1 with
    | .jump target => s.emitted.any fun op => match op with
      | .loopEnd stop => stop.index == target.index + 1
      | _ => false
    | _ => false

/-- In the second loop of a block, a `continue` behind its name jumps to the first one, which has ended. -/
theorem twoLoops_continues_ended :
    ¬ twoLoops.Always default {} fun action span s outcome => ∀ label?, action = .continue_ label? →
      Assembly.JumpsTo (fun target => ∃ n, target = ⟨n + 1⟩ ∧ s.IsOpen n) span s outcome := by
  -- A monitor that empties the code after such a jump makes a difference.
  let monitor : Assembly.Monitor := fun action _ s outcome => match action with
    | .continue_ _ => if restartsEnded s outcome.2 then (outcome.1, { outcome.2 with ops := #[] }) else outcome
    | _ => outcome
  intro always
  have same := always monitor (by
    intro action span s outcome right
    unfold monitor
    split
    · rename_i label?
      have fresh : restartsEnded s outcome.2 = false := by
        unfold restartsEnded
        obtain ⟨_, nothing⟩ | ⟨_, ⟨n, rfl, _, open_⟩, jumped⟩ := right label? rfl
        · simp [nothing]
        rw [jumped]
        simp only [Array.back?_push, Option.any_some, Bool.and_eq_false_iff, any_eq_false]
        right
        intro op member
        split
        · rename_i stop
          rintro ended
          rw [beq_iff_eq] at ended
          exact open_ (by rwa [show (⟨n + 2⟩ : Label) = stop by cases stop; cases ended; rfl])
        · simp
      rw [fresh]
      rfl
    · rfl)
  have sizes := congrArg (fun result => result.1.ops.size) same
  revert sizes
  decide +kernel

end ProcDefinition

end DreamMaker
