import DreamMaker.Proofs.Code.Marks
import DreamMaker.Proofs.Code.Termination

namespace DreamMaker

/-- What may happen while a proc is compiled. -/
structure Mode where
  /-- A statement fails behind values that it has pushed. -/
  failing : Prop
  /-- Something jumps to a label by its name. -/
  jumping : Prop
  /-- A group of statements goes on behind one that never does. -/
  loose : Prop

/-- The number of values that an operation takes which ends a simple statement. -/
def Op.consumes? : Op → Option Nat
  | .pop | .delete | .throw => some 1
  | .output | .link => some 2
  | .transfer _ => some 3
  | _ => none

/-- The number of values that an enumerator is created from. -/
def Enumerator.arity : Enumerator → Nat
  | .list | .filteredList _ => 1
  | .range => 3
  | .objects _ => 0

def pushes (values : List (Term × Span)) : Listing := values.map fun value => (.push value.1, value.2)

/-- The code of a statement that neither jumps nor holds other statements. -/
inductive Line : Listing → Prop
  | operate {op span} (values : List (Term × Span)) :
      op.consumes? = some values.length → Line (pushes values ++ [(op, span)])
  | store {value target a b c} : Line [(.push value, a), (.assign target, b), (.pop, c)]
  | input {source target a} : Line [(.input source target, a)]

/-- Code that goes on at a label if a value is false. -/
inductive Check (target : Label) : Listing → Prop
  | value {value a b} : Check target [(.push value, a), (.jumpIfFalse target, b)]
  | null {value a b c} : Check target [(.push value, a), (.isNull, b), (.jumpIfFalse target, c)]

/-- Code before and between two parts of which one is run: the second starts at `other`, and both end at `stop`. -/
inductive Fork (count : Nat) : Label → Label → Listing → Listing → Prop
  | condition {value a b c d} :
      Fork count ⟨count + 1⟩ ⟨count⟩ [(.push value, a), (.jumpIfFalse ⟨count + 1⟩, b)]
        [(.jump ⟨count⟩, c), (.mark ⟨count + 1⟩, d)]
  | handler {binder? a b c d} :
      Fork count ⟨count⟩ ⟨count + 1⟩ [(.tryStart ⟨count⟩ binder?, a)]
        [(.tryEnd, b), (.jump ⟨count + 1⟩, c), (.mark ⟨count⟩, d)]

/-- A value that is computed and dropped, or nothing. -/
inductive Pause : Listing → Prop
  | none : Pause []
  | value {value a b} : Pause [(.push value, a), (.pop, b)]

/-- Statements, the rounds of a loop over an enumerator, or the bodies of the cases of a switch. -/
inductive Piece
  | statements
  | rounds
  | cases (stop : Label) (labels : List Label) (known : Termination)

/-- Code around the body of a loop, and whether the body is run at least once and only a jump leads out. -/
inductive LoopForm (start next stop : Label) : Piece → Listing → Listing → Bool → Prop
  | endless {pause a b} : Pause pause →
      LoopForm start next stop .statements [(.loopContinue next, a)] (pause ++ [(.jump start, b)]) true
  | while_ {value pause a b c d} : Pause pause →
      LoopForm start next stop .statements
        [(.loopContinue next, a), (.push value, b), (.jumpIfFalse stop, c)] (pause ++ [(.jump start, d)]) false
  | doWhile {value pause a b c d} : Pause pause →
      LoopForm start next stop .statements []
        ((.loopContinue next, a) :: (.push value, b) :: (.jumpIfFalse stop, c) :: (pause ++ [(.jump start, d)])) true
  /-- The condition of the loop fails. -/
  | doOnce {a} : LoopForm start next stop .statements [] [(.loopContinue next, a)] false
  | forever {step pause a b} : Pause step → Pause pause →
      LoopForm start next stop .statements [] ((.loopContinue next, a) :: (step ++ pause ++ [(.jump start, b)])) true
  | for_ {value step pause a b c d} : Pause step → Pause pause →
      LoopForm start next stop .statements [(.push value, a), (.jumpIfFalse stop, b)]
        ((.loopContinue next, c) :: (step ++ pause ++ [(.jump start, d)])) false
  | each {target pause a b c} : Pause pause →
      LoopForm start next stop .rounds [(.loopContinue next, a), (.enumerate target stop, b)]
        (pause ++ [(.jump start, c)]) false

/-- Tests of the value of a switch for one of its cases. -/
inductive CaseTests (target : Label) : Listing → Prop
  | done : CaseTests target []
  | single {value a b rest} : CaseTests target rest →
      CaseTests target ((.push value, a) :: (.switchCase target, b) :: rest)
  | range {lower upper a b c rest} : CaseTests target rest →
      CaseTests target ((.push lower, a) :: (.push upper, b) :: (.switchCaseRange target, c) :: rest)

/-- The tests of all cases. The labels of the cases are handed out one after another. -/
inductive SwitchTests : Nat → List Label → Listing → Prop
  | done {count} : SwitchTests count [] []
  | next {count labels tests rest} : CaseTests ⟨count⟩ tests → SwitchTests (count + 1) labels rest →
      SwitchTests count (⟨count⟩ :: labels) (tests ++ rest)

/-- The code that is emitted for a piece of a proc, how the piece ends, and what
becomes of the labels. Every way to compile a statement is one of the rules. -/
inductive Lowers (mode : Mode) : Piece → Marks → Listing → Termination → Marks → Prop
  | nothing {m} : Lowers mode .statements m [] .none m
  | line {m code} : Line code → Lowers mode .statements m code .none m
  | halted {m} (values : List (Term × Span)) : mode.failing → Lowers mode .statements m (pushes values) .none m
  | leave {m value a b} : Lowers mode .statements m [(.push value, a), (.return_, b)] .procReturn m
  | breakLoop {m loop outer a} : m.loops = loop :: outer →
      Lowers mode .statements m [(.jump loop.stop, a)] .loopExit (m.escape 1)
  | breakLabel {m name label stop a} : mode.jumping → m.label? name = some label → label.placed = true →
      name ∈ m.active → label.stop? = some stop →
      Lowers mode .statements m [(.jump stop, a)] .loopExit
        ((m.change name fun label => { label with broken := true }).escape (m.loops.length - label.depth))
  | continueLoop {m loop outer a} : m.loops = loop :: outer →
      Lowers mode .statements m [(.jump loop.next, a)] .loopExit m
  | continueLabel {m name label next depth a} : mode.jumping → m.label? name = some label → label.placed = true →
      name ∈ m.active → label.next? = some (next, depth) → depth < m.loops.length →
      Lowers mode .statements m [(.jump next, a)] .loopExit (m.escape (m.loops.length - (depth + 1)))
  | goto {m name a} : mode.jumping →
      Lowers mode .statements m [(.jump (m.startOf name), a)] .none ((m.mention name a).escape m.loops.length)
  | label {m name a} : (m.label? name).any NamedLabel.placed = false →
      Lowers mode .statements m [(.mark (m.startOf name), a)] .none (m.place name a)
  | labelBlock {m m' name body t a b} : (m.label? name).any NamedLabel.placed = false →
      Lowers mode .statements ((m.place name a).openBlock name) body t m' →
      Lowers mode .statements m
        ((.mark (m.startOf name), a) :: (body ++ [(.mark ⟨(m.place name a).count⟩, b)]))
        (if m'.isBroken name then t.leaveLoop false else t) m'.closeBlock
  | append {m m₁ m₂ first second t₁ t₂} : Lowers mode .statements m first t₁ m₁ →
      Lowers mode .statements m₁ second t₂ m₂ →
      (t₁.isUnconditional = true → mode.loose) →
      Lowers mode .statements m (first ++ second) (t₁.union t₂) m₂
  | scope {m m' body t a b} : Lowers mode .statements m body t m' →
      Lowers mode .statements m ((.enterScope, a) :: (body ++ [(.exitScope, b)])) t m'
  | skip {m m' check body t a} : Check ⟨m.count⟩ check → Lowers mode .statements (m.fresh 1) body t m' →
      Lowers mode .statements m (check ++ body ++ [(.mark ⟨m.count⟩, a)]) (t.branch .none) m'
  | fork {m m₁ m₂ other stop head link first second t₁ t₂ a} : Fork m.count other stop head link →
      Lowers mode .statements (m.fresh 2) first t₁ m₁ → Lowers mode .statements m₁ second t₂ m₂ →
      Lowers mode .statements m (head ++ first ++ link ++ second ++ [(.mark stop, a)]) (t₁.branch t₂) m₂
  | loop {piece m m' head tail certain body t a b c d} :
      LoopForm ⟨m.count⟩ ⟨m.count + 1⟩ ⟨m.count + 2⟩ piece head tail certain →
      Lowers mode .statements ((m.fresh 3).openLoop ⟨m.count + 1⟩ ⟨m.count + 2⟩) body t m' →
      Lowers mode piece m
        ((.loopStart ⟨m.count⟩, a) :: (head ++ ((.enterScope, b) :: (body ++ [(.exitScope, c)])) ++ tail ++
          [(.loopEnd ⟨m.count + 2⟩, d)]))
        (t.leaveLoop (certain && !m'.isEscaped)) m'.closeLoop
  /-- The var of a loop over an enumerator fails. -/
  | noRounds {m} : Lowers mode .rounds m [] .none m
  | enumerator {m m' kind body t a b c d} (values : List (Term × Span)) : kind.arity = values.length →
      Lowers mode .rounds m body t m' →
      Lowers mode .statements m
        (pushes values ++ (.createEnumerator kind, a) :: (.enterScope, b) ::
          (body ++ [(.exitScope, c), (.destroyEnumerator, d)])) t m'
  | switch {m m₁ m₂ value labels tests default bodies t₁ t₂ a b c d} : SwitchTests m.count labels tests →
      Lowers mode .statements (m.fresh (labels.length + 1)) default t₁ m₁ →
      Lowers mode (.cases ⟨m.count + labels.length⟩ labels t₁) m₁ bodies t₂ m₂ →
      Lowers mode .statements m
        ((.push value, a) :: (tests ++ (.pop, b) :: (default ++ (.jump ⟨m.count + labels.length⟩, c) ::
          (bodies ++ [(.mark ⟨m.count + labels.length⟩, d)])))) t₂ m₂
  | noCases {m stop known} : Lowers mode (.cases stop [] known) m [] known m
  | case {m m₁ m₂ stop label labels known first rest t₁ t₂ a b} : Lowers mode .statements m first t₁ m₁ →
      Lowers mode (.cases stop labels (known.branch t₁)) m₁ rest t₂ m₂ →
      Lowers mode (.cases stop (label :: labels) known) m
        ((.mark label, a) :: (first ++ (.jump stop, b) :: rest)) t₂ m₂
  | spawn {m m' value null body t a b c d e} : Lowers mode .statements (m.fresh 1).detach body t m' →
      Lowers mode .statements m
        ((.push value, a) :: (.spawn ⟨m.count⟩, b) ::
          (body ++ [(.push null, c), (.return_, d), (.mark ⟨m.count⟩, e)]))
        .none (m'.attach m)
  /-- What is known of a statement that fails is forgotten. -/
  | forget {m m' code t} : Lowers mode .statements m code t m' → Lowers mode .statements m code .none m'

end DreamMaker
