import DreamMaker.Proofs.Congruence.Coupling
import DreamMaker.Proofs.Syntax.Actions

/-!
What the code of a proc writes to. No expression in it writes to a `const` local or to a `const` field of `src`.
-/

namespace DreamMaker

open List

variable {owner : TypePath} {reports : Array Report} {locals : List Local}

/-- What evaluating a term writes to. -/
def Term.Form.written? : Term.Form → Option Term
  | .assign _ target _ => some target
  | .unary op operand => if op.isMutating then some operand else none
  | _ => none

/-- What an operation itself stores a value into. -/
def Op.targets : Op → List Term
  | .assign target => [target]
  | .enumerate target _ => [target]
  | .tryStart _ binder? => binder?.toList
  | .input _ target => [target]
  | _ => []

/-- A local that is declared `const`. -/
def CompiledProc.IsConstLocal (proc : CompiledProc) (place : Term) : Prop :=
  ∃ var ∈ proc.locals, var.constant?.isSome ∧ ∃ name, place.form = .var (.local name var.id)

/-- A field that is declared `const` on the type of `src`. -/
def TypeTree.IsConstField (tree : TypeTree) (owner : TypePath) (place : Term) : Prop :=
  ∃ name field, place.form = .var (.field name) ∧ tree.field? owner name = some field ∧ field.isConst

/-- What is written to by the code of a proc of a type. -/
structure CompiledProc.SparesConstants (proc : CompiledProc) (tree : TypeTree) (owner : TypePath)
    (reports : Array Report) : Prop where
  evaluated : ∀ entry ∈ proc.ops, ∀ operand ∈ entry.1.operands, ∀ part : Term, part.IsPart operand →
    ∀ place, part.form.written? = some place → ¬ proc.IsConstLocal place ∧ ¬ tree.IsConstField owner place
  stored : ∀ entry ∈ proc.ops, ∀ place ∈ entry.1.targets, proc.IsConstLocal place →
    ∃ report ∈ reports, report.diagnostic.code = .duplicateVariable
  storedField : ∀ entry ∈ proc.ops, ∀ place ∈ entry.1.targets, tree.IsConstField owner place →
    (∃ exit, entry.1 = .enumerate place exit) ∨ ∃ source, entry.1 = .input source place

/-- The same on a tree with the same types, and among more reports. -/
theorem CompiledProc.SparesConstants.of_sameTypes {proc : CompiledProc}
    (spares : proc.SparesConstants other owner reports) (same : tree.SameTypes other)
    (kept : ∀ report ∈ reports, report ∈ more) : proc.SparesConstants tree owner more := by
  have isConst {place : Term} (isConst : tree.IsConstField owner place) : other.IsConstField owner place := by
    obtain ⟨name, field, named, found, isConst⟩ := isConst
    exact ⟨name, field, named, (same.field? owner name).trans found, isConst⟩
  refine ⟨?_, ?_, ?_⟩
  · intro entry member operand held part isPart place written
    obtain ⟨notLocal, notField⟩ := spares.evaluated entry member operand held part isPart place written
    exact ⟨notLocal, fun field => notField (isConst field)⟩
  · intro entry member place held isLocal
    obtain ⟨report, reported, code⟩ := spares.stored entry member place held isLocal
    exact ⟨report, kept report reported, code⟩
  · intro entry member place held field
    exact spares.storedField entry member place held (isConst field)

/-- The local of this id is not `const`. -/
def Local.Variable (locals : List Local) (id : Nat) : Prop :=
  ∀ var rest, var :: rest <:+ locals → rest.length = id → var.constant? = none

theorem Local.variable_length (suffix : var :: rest <:+ locals)
    (nonconst : var.constant? = none) : Variable locals rest.length := by
  intro _ _ suffix' length
  have same :=
    List.IsSuffix.eq_of_length (suffix_of_suffix_length_le suffix' suffix (by simp [length])) (by simp [length])
  obtain ⟨rfl, _⟩ := List.cons.inj same
  exact nonconst

namespace Coupling

/-- A proc and itself, with its locals and reports at the end. -/
def constants (tree : TypeTree) (owner : TypePath) (name : String) (before : Array Report) (locals : List Local)
    (reports : Array Report) : Coupling where
  ids := id
  fits form :=
    (∀ name id, form = .var (.local name id) → Local.Variable locals id ∨
      ∃ report ∈ reports, report.diagnostic.code = .duplicateVariable) ∧
    ∀ place, form.written? = some place →
      (∀ name id, place.form = .var (.local name id) → Local.Variable locals id) ∧
        ¬ tree.IsConstField owner place
  writable := Local.Variable locals
  owner := owner
  name := name
  before := before
  before' := before
  world tree₁ globals tree₂ globals' := tree₂ = tree₁ ∧ globals' = globals ∧ tree.SameTypes tree₁
  guard locals' reports' := locals' <:+ locals ∧ ∀ report ∈ reports', report ∈ reports

theorem lawful_constants {name : String} {before : Array Report} :
    (constants tree owner name before locals reports).Lawful where
  neutral form neutral := by
    refine ⟨fun name id isLocal => ?_, fun place written => ?_⟩
    · rw [isLocal] at neutral
      cases neutral
    · cases form with
      | assign => cases neutral
      | unary op _ => simp_all [Term.Form.written?, Term.Form.isNeutral]
      | _ => cases written
  field _ := ⟨by simp, by simp [Term.Form.written?]⟩
  initial _ _ := ⟨by simp, by simp [Term.Form.written?]⟩
  global _ _ := ⟨by simp, by simp [Term.Form.written?]⟩
  globalVars := ⟨by simp, by simp [Term.Form.written?]⟩
  types known := by
    obtain ⟨rfl, _, _⟩ := known
    exact .refl _
  vars known owner name := by
    obtain ⟨rfl, _, _⟩ := known
    exact Option.map_id'.symm
  own known name := by
    obtain ⟨rfl, rfl, _⟩ := known
    exact congrArg (Option.map · _) (funext fun id => Option.map_id'.symm)
  register known name type? value? := by
    obtain ⟨rfl, rfl, same⟩ := known
    exact ⟨rfl, rfl, same.trans (TypeTree.sameTypes_registerGlobal _ _ _ _ _)⟩
  written := by
    intro _ _ _ _ known place writable nonconst
    obtain ⟨_, _, same⟩ := known
    have spared : ¬ tree.IsConstField owner place := by
      rintro ⟨name, field, named, found, isConst⟩
      have := nonconst name field named ((same.field? owner name).trans found)
      rw [isConst] at this
      cases this
    refine ⟨fun op _ => ⟨by simp, fun other written => ?_⟩, fun op => ⟨by simp, fun other written => ?_⟩⟩
    · cases written
      exact ⟨writable, spared⟩
    · simp only [Term.Form.written?] at written
      split at written
      · cases written
        exact ⟨writable, spared⟩
      · cases written
  fewerLocals guarded := ⟨(suffix_cons _ _).trans guarded.1, guarded.2⟩
  fewerReports kept guarded := ⟨guarded.1, fun report member => guarded.2 report (kept report member)⟩
  declared {name type? rest reports'} guarded := by
    have nonconst := Local.variable_length guarded.1 rfl
    refine ⟨⟨fun name id isLocal => ?_, by simp [Term.Form.written?]⟩, nonconst⟩
    cases isLocal
    exact .inl nonconst
  duplicate code guarded name id :=
    ⟨fun _ _ _ => .inr ⟨_, guarded.2 _ Array.mem_push_self, code⟩, by simp [Term.Form.written?]⟩

end Coupling

namespace ProcDefinition

/-- One proc: it spares constants, keeps the types, and takes no report back. -/
theorem compile_spares (definition : ProcDefinition) (known : tree.hasType definition.owner)
    (log : Log) :
    let compiled := definition.compile tree log
    compiled.1.SparesConstants tree definition.owner.toAbsolute compiled.2.2 ∧ tree.SameTypes compiled.2.1 ∧
      ∀ report ∈ log.reports, report ∈ compiled.2.2 := by
  intro compiled
  let coupling := Coupling.constants tree definition.owner.toAbsolute definition.name log.reports compiled.1.locals
    compiled.2.2
  have lawful : coupling.Lawful := Coupling.lawful_constants
  have outcome : coupling.Outcome compiled compiled := by
    refine lawful.compile rfl rfl ?_ ⟨rfl, rfl, .refl tree⟩ log.config ⟨suffix_rfl, fun _ member => member⟩
    rintro _ _ _ _ _ ⟨rfl, rfl, same⟩
    refine ⟨rfl, rfl, same.trans (TypeTree.sameTypes_addVerb ?_ _)⟩
    rw [same.hasType]
    exact known
  have variable_of {place : Term} (isConst : compiled.1.IsConstLocal place) :
      ∃ name id, place.form = .var (.local name id) ∧ ¬ Local.Variable compiled.1.locals id := by
    obtain ⟨var, member, isConst, name, isLocal⟩ := isConst
    obtain ⟨latest, rest, split⟩ := append_of_mem member
    have suffix : var :: rest <:+ compiled.1.locals := ⟨latest, split.symm⟩
    refine ⟨name, var.id, isLocal, fun nonconst => ?_⟩
    rw [nonconst var rest suffix (outcome.numbered var rest suffix).symm] at isConst
    cases isConst
  have targets {op : Op} {place : Term} (member : place ∈ op.targets) : place ∈ op.operands := by
    cases op with
    | input source target => exact mem_cons_of_mem _ member
    | assign | enumerate | tryStart => exact member
    | _ => cases member
  refine ⟨⟨?_, ?_, ?_⟩, ?_, ?_⟩
  · intro entry member operand held part isPart place written
    obtain ⟨_, spared⟩ := (outcome.ops entry member).operands operand held part isPart
    obtain ⟨nonconst, notField⟩ := spared place written
    refine ⟨fun isConst => ?_, notField⟩
    obtain ⟨name, id, isLocal, isConst⟩ := variable_of isConst
    exact isConst (nonconst name id isLocal)
  · intro entry member place held isConst
    obtain ⟨fit, _⟩ := (outcome.ops entry member).operands place (targets held) place (.self place)
    obtain ⟨name, id, isLocal, isConst⟩ := variable_of isConst
    rcases fit name id isLocal with nonconst | reported
    · exact absurd nonconst isConst
    · exact reported
  · rintro ⟨op, _⟩ member place held ⟨_, _, named, _⟩
    have isLocal (stored : place ∈ op.stored?) : False := by
      obtain ⟨name, id, isLocal⟩ := (outcome.ops _ member).stored place stored
      rw [named] at isLocal
      cases isLocal
    cases op with
    | enumerate target exit =>
      rw [mem_singleton.1 held]
      exact .inl ⟨exit, rfl⟩
    | input source target =>
      rw [mem_singleton.1 held]
      exact .inr ⟨source, rfl⟩
    | assign target => exact (isLocal (congrArg some (mem_singleton.1 held).symm)).elim
    | tryStart _ _ => exact (isLocal (Option.mem_toList.1 held)).elim
    | _ => cases held
  · obtain ⟨_, _, _, _, same⟩ := outcome.world
    exact same
  · obtain ⟨_, reports, _⟩ := outcome.reports
    intro report member
    rw [reports]
    exact Array.mem_append_left _ member

/-- What holds of one proc after another holds of all. -/
theorem compileAll_spares
    (known : ∀ definition ∈ definitions, base.hasType definition.owner) (same : base.SameTypes tree) (log : Log) :
    let compiled := compileAll tree log definitions
    compiled.1.length = definitions.length ∧ (∀ report ∈ log.reports, report ∈ compiled.2.2) ∧
      ∀ pair ∈ definitions.zip compiled.1,
        pair.2.SparesConstants base pair.1.owner.toAbsolute compiled.2.2 := by
  induction definitions generalizing tree log with
  | nil =>
    refine ⟨rfl, fun _ member => member, fun pair member => ?_⟩
    cases member
  | cons definition _ ih =>
    have here : tree.hasType definition.owner := by
      rw [same.hasType]
      exact known definition mem_cons_self
    obtain ⟨spares, kept, reported⟩ := definition.compile_spares here log
    rcases run : definition.compile tree log with ⟨_, _, reports⟩
    rw [run] at spares kept reported
    obtain ⟨length, later, others⟩ := ih (fun other member => known other (mem_cons_of_mem _ member))
      (same.trans kept) { log with reports }
    simp only [compileAll, run]
    refine ⟨congrArg (· + 1) length, fun report member => later report (reported report member), ?_⟩
    intro pair member
    rcases mem_cons.1 member with rfl | member
    · exact spares.of_sameTypes same later
    · exact others pair member

end ProcDefinition

/-- No expression in the code of a file writes to a `const` local or a `const` field of `src`. An operation stores
into a `const` local only where a second one of that name is reported, and into a `const` field only to go through
a list or to read input. -/
theorem SourceFile.constants_spared (file : SourceFile) (log : Log) :
    (file.compile log).procs.length = file.procs.length ∧ ∀ pair ∈ file.procs.zip (file.compile log).procs,
        pair.2.SparesConstants (TypeTree.ofFile file) pair.1.owner.toAbsolute (file.compile log).reports := by
  let tree := TypeTree.ofFile file
  obtain ⟨length, _, spares⟩ := ProcDefinition.compileAll_spares (fun _ => TypeTree.hasType_owner)
    (.refl tree) { log with reports := (tree.resolveGlobals log.reports).2 }
  exact ⟨length, spares⟩

/-! Files. -/

/-- A type with `var/const/limit` and a proc with `var/const/step`, which writes to both and to a var. -/
def SourceFile.counter : SourceFile :=
  let owner : TypePath := .absolute ["obj", "counter"]
  let limit : VarDefinition :=
    { (default : VarDefinition) with owner, name := "limit", modifiers := { isConst := true } }
  let step : LocalVar := { (default : LocalVar) with
    name := "step", modifiers := { isConst := true }, value? := some (.ofLiteral (.string "up") .unknown) }
  let last : LocalVar := { (default : LocalVar) with name := "last" }
  let actions := [.declare step, .declare last, .write "last", .write "step", .write "limit"]
  let definition : ProcDefinition := { ProcDefinition.ofActions "count" actions with owner, rooted := ⟨_, rfl⟩ }
  { declarations := [.mk (.var limit) .unknown, .mk (.proc definition) .unknown], span := .unknown }

theorem SourceFile.constants_spared_counter : (∃ pair ∈ counter.procs.zip (counter.compile {}).procs,
      pair.2.SparesConstants (TypeTree.ofFile counter) pair.1.owner.toAbsolute (counter.compile {}).reports) ∧
    (counter.compile {}).procs.map (fun proc => proc.locals.map fun var => (var.name, var.constant?.isSome)) =
      [[("last", false), ("step", true)]] := by
  have locals : (counter.compile {}).procs.map
    (fun proc => proc.locals.map fun var => (var.name, var.constant?.isSome)) =
      [[("last", false), ("step", true)]] := by decide +kernel
  refine ⟨?_, locals⟩
  obtain ⟨length, spares⟩ := constants_spared counter {}
  have one : (counter.procs.zip (counter.compile {}).procs).length = 1 := by
    rw [length_zip, length]
    rfl
  obtain ⟨pair, only⟩ := length_eq_one_iff.1 one
  have member : pair ∈ counter.procs.zip (counter.compile {}).procs := by
    rw [only]
    exact mem_singleton_self pair
  exact ⟨pair, member, spares pair member⟩

/-- `var/const/LIMIT = null` and a proc that writes to it. -/
def SourceFile.limited : SourceFile :=
  let limit : VarDefinition := { (default : VarDefinition) with
    owner := .root, name := "LIMIT", modifiers := { isConst := true }, value? := some (.null .unknown) }
  { declarations := [.mk (.var limit) .unknown, .mk (.proc (.ofActions "raise" [.write "LIMIT"])) .unknown]
    span := .unknown }

/-- Whether a global var is written to. -/
def Term.Form.writesGlobal (name : String) (id : Nat) (form : Form) : Bool :=
  match form.written?.map Term.form with
  | some (.var (.global name' id')) => name' == name && id' == id
  | _ => false

/-- A `const` global var is written to without a report. -/
theorem SourceFile.constGlobal_written :
    (∃ var : VarDefinition, var.modifiers.isConst ∧ var.owner = .root ∧ var.name = "LIMIT" ∧
      .mk (.var var) .unknown ∈ limited.declarations) ∧ (limited.compile {}).reports = #[] ∧
    ∃ proc ∈ (limited.compile {}).procs, ∃ entry ∈ proc.ops, ∃ operand ∈ entry.1.operands, ∃ place,
      operand.form.written? = some place ∧ place.form = .var (.global "LIMIT" 0) := by
  refine ⟨⟨_, rfl, rfl, rfl, mem_cons_self⟩, Array.eq_empty_of_size_eq_zero (by decide +kernel), ?_⟩
  have writes : (limited.compile {}).procs.any
    (fun proc => proc.ops.any fun entry => entry.1.operands.any fun operand =>
      operand.form.writesGlobal "LIMIT" 0) = true := by decide +kernel
  simp only [any_eq_true, Array.any_eq_true'] at writes
  obtain ⟨proc, inFile, entry, inProc, operand, inOp, written⟩ := writes
  refine ⟨proc, inFile, entry, inProc, operand, inOp, ?_⟩
  unfold Term.Form.writesGlobal at written
  split at written
  · rename_i isGlobal
    obtain ⟨rfl, rfl⟩ : _ = "LIMIT" ∧ _ = 0 := by simpa using written
    exact Option.map_eq_some_iff.1 isGlobal
  · cases written

end DreamMaker
