import DreamMaker.Proofs.Congruence.Compile
import DreamMaker.Proofs.Resolution.Parts
import DreamMaker.Proofs.Resolution.Reports

/-!
Two runs of compiling one proc, on trees with the same types, do the same apart from the ids of global vars, as
long as what the coupling says of locals and reports holds.
-/

namespace DreamMaker

open List

/-- What the second run has of its own: its tree, the global vars declared in it, and its reports. -/
structure Surroundings where
  tree : TypeTree
  globals : List (String × Nat)
  reports : Array Report

/-- The same proc in other surroundings, where global vars have other ids. -/
def Assembly.transplant (s : Assembly) (ids : Nat → Nat) (other : Surroundings) : Assembly :=
  { s with tree := other.tree, frame := { s.frame with globals := other.globals }, reports := other.reports
           ops := s.ops.map fun op => (op.1.renumber ids, op.2) }

/-- What is said of two runs of a proc. -/
structure Coupling where
  /-- The ids that global vars have in the second run. -/
  ids : Nat → Nat
  /-- What terms are made of. -/
  fits : Term.Form → Prop
  /-- The locals that expressions may write to. -/
  writable : Nat → Prop
  owner : TypePath
  name : String
  /-- The reports that the two runs start with. -/
  before : Array Report
  before' : Array Report
  /-- What is known of the two trees and of the global vars that the proc has declared in them. -/
  world : TypeTree → List (String × Nat) → TypeTree → List (String × Nat) → Prop
  /-- What is known of locals and reports at the end of the first run, and so all along. -/
  guard : List Local → Array Report → Prop

namespace Coupling

def path (coupling : Coupling) : TypePath := (coupling.owner.add "proc").add coupling.name

/-- The locals in a term are those that are visible where it stands. -/
def Visible (coupling : Coupling) (form : Term.Form) : Prop :=
  coupling.fits form ∧ ∀ name id, form = .var (.local name id) → coupling.writable id

/-- What has to hold for the runs to stay together. -/
structure Lawful (coupling : Coupling) : Prop where
  neutral (form : Term.Form) : form.isNeutral → coupling.fits form
  field (name : String) : coupling.fits (.var (.field name))
  initial (owner : TypePath) (name : String) : coupling.fits (.var (.initial owner name))
  global (name : String) (id : Nat) : coupling.fits (.var (.global name id))
  globalVars : coupling.fits (.ambient .globalVars)
  types : coupling.world tree globals tree' globals' → tree.SameTypes tree'
  vars : coupling.world tree globals tree' globals' → ∀ owner name,
      tree'.globalVar? owner name = (tree.globalVar? owner name).map (GlobalVar.renumber coupling.ids)
  own : coupling.world tree globals tree' globals' → ∀ name,
      (globals'.lookup name).map (fun id => tree'.globals[id]?) =
        (globals.lookup name).map fun id => tree.globals[id]?.map (GlobalVar.renumber coupling.ids)
  register : coupling.world tree globals tree' globals' → ∀ name type? value?,
      coupling.world (tree.registerGlobal coupling.path name type? value?).2
        ((name, (tree.registerGlobal coupling.path name type? value?).1) :: globals)
        (tree'.registerGlobal coupling.path name type? value?).2
        ((name, (tree'.registerGlobal coupling.path name type? value?).1) :: globals')
  written : coupling.world tree globals tree' globals' → ∀ {place : Term},
      (∀ name id, place.form = .var (.local name id) → coupling.writable id) →
      (∀ name field, place.form = .var (.field name) → tree.field? coupling.owner name = some field →
        field.isConst = false) →
      (∀ op value, coupling.fits (.assign op place value)) ∧ ∀ op, coupling.fits (.unary op place)
  fewerLocals {var : Local} {locals : List Local} {reports : Array Report} :
    coupling.guard (var :: locals) reports → coupling.guard locals reports
  fewerReports {locals : List Local} {reports more : Array Report} (kept : ∀ report ∈ reports, report ∈ more) :
    coupling.guard locals more → coupling.guard locals reports
  declared {name : String} {type? : Option TypePath} {locals : List Local} {reports : Array Report} :
    coupling.guard ({ name, id := locals.length, type?, constant? := none } :: locals) reports →
      coupling.fits (.var (.local name locals.length)) ∧ coupling.writable locals.length
  duplicate {locals : List Local} {reports : Array Report} {report : Report}
    (code : report.diagnostic.code = .duplicateVariable) :
    coupling.guard locals (reports.push report) → ∀ name id, coupling.fits (.var (.local name id))

/-- The first run, and what is around the second one. -/
structure Related (coupling : Coupling) (s : Assembly) (other : Surroundings) : Prop where
  owner : s.frame.owner = coupling.owner
  name : s.frame.name = coupling.name
  world : coupling.world s.tree s.frame.globals other.tree other.globals
  found : ∃ found, s.reports = coupling.before ++ found ∧ other.reports = coupling.before' ++ found
  visible : ∀ scope ∈ s.frame.scope :: s.frame.outer, ∀ var ∈ scope,
    var.constant? = none → coupling.fits (.var (.local var.name var.id)) ∧ coupling.writable var.id
  constant : ∀ scope ∈ s.frame.scope :: s.frame.outer, ∀ var ∈ scope,
    ∀ constant ∈ var.constant?, constant.isConstant
  numbered : ∀ var rest, var :: rest <:+ s.frame.locals → var.id = rest.length
  ops : ∀ op ∈ s.ops, op.1.Fits coupling.fits

def Guarded (coupling : Coupling) (s : Assembly) : Prop := coupling.guard s.frame.locals s.reports

/-- What holds behind a step holds before it, and then the second run does the same as the first. -/
structure Steps (coupling : Coupling) (φ : Prop) {α : Type} [Numbered α]
    (x y : Assembly → α × Assembly) : Prop where
  guarded : ∀ s, coupling.Guarded (x s).2 → coupling.Guarded s
  runs : φ → ∀ s other, coupling.Related s other → coupling.Guarded (x s).2 → ∃ other',
    coupling.Related (x s).2 other' ∧
      y (s.transplant coupling.ids other) =
        (Numbered.renumber coupling.ids (x s).1, (x s).2.transplant coupling.ids other') ∧
      Numbered.AllFit coupling.fits (x s).1

variable {coupling : Coupling} [Numbered α] [Numbered β] {s : Assembly}

theorem Related.withShared (related : coupling.Related s other) (t : Assembly) :
    coupling.Related (t.withShared s) other :=
  ⟨related.owner, related.name, related.world, related.found, related.visible, related.constant, related.numbered,
    related.ops⟩

theorem Related.withLocal (related : coupling.Related s other) {name : String}
    (fit : constant? = none → coupling.fits (.var (.local name s.frame.locals.length)) ∧
      coupling.writable s.frame.locals.length) (known : ∀ constant ∈ constant?, constant.isConstant) :
    coupling.Related (s.withLocal { name, id := s.frame.locals.length, type?, constant? }) other := by
  refine { related with visible := ?_, constant := ?_, numbered := ?_ }
  · intro scope member var held
    rcases mem_cons.1 member with rfl | outer
    · rcases mem_cons.1 held with rfl | old
      · exact fit
      · exact related.visible _ mem_cons_self var old
    · exact related.visible scope (mem_cons_of_mem _ outer) var held
  · intro scope member var held
    rcases mem_cons.1 member with rfl | outer
    · rcases mem_cons.1 held with rfl | old
      · exact known
      · exact related.constant _ mem_cons_self var old
    · exact related.constant scope (mem_cons_of_mem _ outer) var held
  · intro var rest suffix
    rcases suffix_cons_iff.1 suffix with here | old
    · obtain ⟨rfl, rfl⟩ := List.cons.inj here
      rfl
    · exact related.numbered var rest old

theorem exists_scope {name : String} (found : s.context.local? name = some var) :
    ∃ scope ∈ s.frame.scope :: s.frame.outer, var ∈ scope ∧ var.name = name := by
  obtain ⟨scope, member, here⟩ := exists_of_findSome?_eq_some found
  exact ⟨scope, member, mem_of_find?_eq_some here, by simpa using find?_some here⟩

/-- Names stand for the same in both runs. -/
theorem Related.paired (lawful : coupling.Lawful) (related : coupling.Related s other) :
    s.context.Paired coupling.ids (s.transplant coupling.ids other).context where
  types := lawful.types related.world
  owner := rfl
  visibility := rfl
  path := rfl
  locals _ := rfl
  globals name := by
    have own := lawful.own related.world name
    have vars := lawful.vars related.world s.frame.owner name
    have first : s.context.frame?.bind (·.global? name) = s.frame.globals.lookup name := rfl
    have second : (s.transplant coupling.ids other).context.frame?.bind
      (·.global? name) = other.globals.lookup name := rfl
    have sees (s : Assembly) : s.context.visibility.seesGlobals = true := rfl
    rw [Context.global?, Context.global?, if_pos (sees _), if_pos (sees _), first, second]
    generalize s.frame.globals.lookup name = id? at own ⊢
    generalize other.globals.lookup name = id?' at own ⊢
    rcases id? with _ | id <;> rcases id?' with _ | id'
    · exact vars
    · cases own
    · cases own
    · exact Option.some.inj own
  globalVars := lawful.vars related.world
  constant found given := by
    obtain ⟨scope, member, here, rfl⟩ := exists_scope found
    exact Term.renumber_of_isConstant _ _ (related.constant scope member _ here _ given)

theorem Lawful.visible_of_isNeutral (lawful : coupling.Lawful) (neutral : form.isNeutral) :
    coupling.Visible form := by
  refine ⟨lawful.neutral form neutral, fun _ _ isLocal => ?_⟩
  rw [isLocal] at neutral
  cases neutral

/-- What is bound in the first run is made of what fits. -/
theorem Related.fits (lawful : coupling.Lawful) (related : coupling.Related s other) :
    s.context.Fits (fun _ => True) (fun _ => True) coupling.Visible where
  null := trivial
  makes makes _ below _ := by
    rcases makes.isNeutral_or with neutral | ⟨_, _, _, scopes⟩ | ⟨_, place, writes, form, held⟩
    · exact lawful.visible_of_isNeutral neutral
    · cases scopes with
      | vars => exact ⟨lawful.globalVars, by rintro _ _ ⟨⟩⟩
      | initial => exact ⟨lawful.initial _ _, by rintro _ _ ⟨⟩⟩
      | global => exact ⟨lawful.global _ _, by rintro _ _ ⟨⟩⟩
    · have accepted := lawful.written related.world (below place held).2 fun name field named found => by
        have nonconst := writes.noField
        rw [← related.owner] at found
        simp only [Context.isConstField, named] at nonconst
        rwa [show s.context.tree.field? s.context.owner name = some field from found] at nonconst
      rcases form with ⟨op, value, rfl⟩ | ⟨op, rfl⟩
      · exact ⟨accepted.1 op value, by simp⟩
      · exact ⟨accepted.2 op, by simp⟩
  names names := by
    cases names with
    | atom => exact Term.each_mk.2 ⟨lawful.visible_of_isNeutral rfl, forall_mem_nil _⟩
    | ambient neutral => exact Term.each_mk.2 ⟨lawful.visible_of_isNeutral neutral, forall_mem_nil _⟩
    | constant found given =>
      obtain ⟨scope, member, here, rfl⟩ := exists_scope found
      have known := related.constant scope member _ here _ given
      exact Term.each_of_isConstant (fun _ => lawful.visible_of_isNeutral rfl)
        (fun _ => lawful.visible_of_isNeutral rfl) _
        (Term.isConstant_withSpan.trans known)
    | «local» found changes =>
      obtain ⟨scope, member, here, rfl⟩ := exists_scope found
      obtain ⟨fit, writable⟩ := related.visible scope member _ here changes
      refine Term.each_mk.2 ⟨⟨fit, ?_⟩, forall_mem_nil _⟩
      rintro _ _ ⟨⟩
      exact writable
    | field => exact Term.each_mk.2 ⟨⟨lawful.field _, by simp⟩, forall_mem_nil _⟩
    | global => exact Term.each_mk.2 ⟨⟨lawful.global _ _, by rintro _ _ ⟨⟩⟩, forall_mem_nil _⟩
  roots _ roots _ := by
    cases roots with
    | vars => exact ⟨lawful.globalVars, by rintro _ _ ⟨⟩⟩
    | var => exact ⟨lawful.global _ _, by rintro _ _ ⟨⟩⟩
  link _ _ _ _ := ⟨lawful.global _ _, by rintro _ _ ⟨⟩⟩
  chain _ _ := lawful.visible_of_isNeutral rfl
  globalCall _ _ := lawful.visible_of_isNeutral rfl
  nullTest _ := ⟨lawful.visible_of_isNeutral rfl, lawful.visible_of_isNeutral rfl⟩

namespace Steps

variable {φ : Prop}

theorem weaken (holds : ψ → φ) {y : Assembly → α × Assembly} (steps : coupling.Steps φ x y) :
    coupling.Steps ψ x y :=
  ⟨steps.guarded, fun held => steps.runs (holds held)⟩

theorem pure (a : α) (fit : φ → Numbered.AllFit coupling.fits a) :
    coupling.Steps φ (Pure.pure a : Assemble α) (Pure.pure (Numbered.renumber coupling.ids a) : Assemble α) where
  guarded _ guarded := guarded
  runs holds _ other related _ := ⟨other, related, rfl, fit holds⟩

theorem bind {x y : Assemble α} {g : α → Assemble β} (first : coupling.Steps φ x y)
    (rest : ∀ s, coupling.Steps (φ ∧ Numbered.AllFit coupling.fits (x s).1) (f (x s).1)
      (g (Numbered.renumber coupling.ids (x s).1))) : coupling.Steps φ (x >>= f) (y >>= g) where
  guarded s guarded := first.guarded s ((rest s).guarded _ guarded)
  runs holds s other related guarded := by
    obtain ⟨other₁, related₁, run₁, fit₁⟩ := first.runs holds s other related ((rest s).guarded _ guarded)
    obtain ⟨other₂, related₂, run₂, fit₂⟩ := (rest s).runs ⟨holds, fit₁⟩ _ other₁ related₁ guarded
    refine ⟨other₂, related₂, ?_, fit₂⟩
    rw [Run.state_bind, run₁]
    exact run₂

theorem flow [Numbered.Plain α] {x : Assembly → α × Assembly}
    (apart : ∀ s shared, x (s.withShared shared) = ((x s).1, (x s).2.withShared shared)) : coupling.Steps φ x x := by
  have shares (s : Assembly) : (x s).2 = (x s).2.withShared s := congrArg Prod.snd (apart s s)
  refine ⟨fun s guarded => ?_, fun _ s other related _ => ⟨other, ?_, ?_, Numbered.allFit_plain⟩⟩
  · rwa [shares s] at guarded
  · rw [shares s]
    exact related.withShared _
  · rw [Numbered.Plain.renumber_eq, shares s]
    exact apart s (s.transplant coupling.ids other)

/-- A step that goes by what is the same in both runs. -/
theorem look
    (apart : ∀ s other, coupling.Related s other → f (s.transplant coupling.ids other) = f s)
    (rest : ∀ s, coupling.Steps φ (f s) (f s)) :
      coupling.Steps φ (get >>= f : Assemble β) (get >>= f : Assemble β) where
  guarded s guarded := (rest s).guarded s guarded
  runs holds s other related guarded := by
    obtain ⟨other', related', run, fit⟩ := (rest s).runs holds s other related guarded
    refine ⟨other', related', ?_, fit⟩
    rw [Run.state_get_bind, apart s other related]
    exact run

theorem report (lawful : coupling.Lawful) (report : Report) :
    coupling.Steps φ (Assembly.report report) (Assembly.report report) where
  guarded s guarded := lawful.fewerReports (fun _ member => Array.mem_push_of_mem _ member) guarded
  runs _ s other related _ := by
    obtain ⟨found, reports, reports'⟩ := related.found
    refine ⟨{ other with reports := other.reports.push report }, ?_, rfl, nofun⟩
    refine { related with found := ⟨found.push report, ?_, ?_⟩ }
    · show s.reports.push report = _
      rw [reports, Array.push_append]
    · show other.reports.push report = _
      rw [reports', Array.push_append]

theorem emit (fit : φ → op.Fits coupling.fits) (span : Span) :
    coupling.Steps φ (Assembly.emit op span) (Assembly.emit (op.renumber coupling.ids) span) where
  guarded _ guarded := guarded
  runs holds s other related _ := by
    refine ⟨other, ?_, ?_, nofun⟩
    · refine { related with ops := fun entry member => ?_ }
      rcases Array.mem_push.1 member with old | rfl
      · exact related.ops entry old
      · exact fit holds
    · have ops : (s.ops.push (op, span)).map (fun op => (op.1.renumber coupling.ids, op.2)) =
          (s.ops.map fun op => (op.1.renumber coupling.ids, op.2)).push (op.renumber coupling.ids, span) :=
        Array.map_push
      exact congrArg (fun ops => ((), { s.transplant coupling.ids other with ops })) ops.symm

/-- Binding names gives the same in both runs. -/
theorem resolving (lawful : coupling.Lawful) {action : Context → Resolve Term}
    (runs : ∀ {ids context context'}, context.Paired ids context' →
      Resolve.Runs ids (fun _ => True) (Resolution.Binds context (fun _ => True) e)
        (action context) (action context')) :
    coupling.Steps φ (Assembly.resolving action) (Assembly.resolving action) where
  guarded s guarded := lawful.fewerReports ((Resolve.Runs.tame (runs (.refl s.context))).keeps s.reports) guarded
  runs _ s other related _ := by
    obtain ⟨found, reports, reports'⟩ := related.found
    obtain ⟨more, meets⟩ := runs (related.paired lawful) s.reports other.reports
    refine ⟨{ other with reports := other.reports ++ more }, ?_, ?_, ?_⟩
    · refine { related with found := ⟨found ++ more, ?_, ?_⟩ }
      · show (action s.context s.reports).2 = _
        rw [meets.reports, reports, Array.append_assoc]
      · show other.reports ++ more = _
        rw [reports', Array.append_assoc]
    · show ((action (s.transplant coupling.ids other).context other.reports).1,
        { s.transplant coupling.ids other with
          reports := (action (s.transplant coupling.ids other).context other.reports).2 }) = _
      rw [meets.renumbered, meets.reports']
      rfl
    · show ∀ term ∈ Numbered.terms (action s.context s.reports).1, _
      rcases run : (action s.context s.reports).1 with _ | term
      · nofun
      · have each := (meets.holds term run fun _ _ => trivial).each (related.fits lawful) fun _ _ => trivial
        exact forall_mem_singleton.2 fun part isPart => (each part isPart).1

theorem hasType (lawful : coupling.Lawful) (path : TypePath) {yes no : Assemble β} (has : coupling.Steps φ yes yes)
    (lacks : coupling.Steps φ no no) :
    coupling.Steps φ (get >>= fun s => if s.tree.hasType path then yes else no : Assemble β)
      (get >>= fun s => if s.tree.hasType path then yes else no : Assemble β) := by
  refine look (fun s other related => ?_) fun s => ?_
  · rw [show (s.transplant coupling.ids other).tree.hasType path = s.tree.hasType path from
      (lawful.types related.world).hasType path]
  · split
    · exact has
    · exact lacks

/-- A step that opens or closes scopes. -/
theorem rescope {change : Frame → Frame}
    (others : ∀ frame globals, change { frame with globals } = { change frame with globals })
    (same : ∀ frame, change frame = { frame with scope := (change frame).scope, outer := (change frame).outer })
    (scopes : ∀ frame, ∀ scope ∈ (change frame).scope :: (change frame).outer,
      scope = [] ∨ scope ∈ frame.scope :: frame.outer) :
    coupling.Steps φ (modify fun s => { s with frame := change s.frame } : Assemble Unit)
      (modify fun s => { s with frame := change s.frame } : Assemble Unit) where
  guarded s guarded := by
    have locals : (change s.frame).locals = s.frame.locals := by rw [same]
    have guarded : coupling.guard (change s.frame).locals s.reports := guarded
    rwa [locals] at guarded
  runs _ s other related _ := by
    refine ⟨other, ?_, ?_, nofun⟩
    · show coupling.Related { s with frame := change s.frame } other
      refine ⟨?_, ?_, ?_, related.found, ?_, ?_, ?_, related.ops⟩
      · show (change s.frame).owner = _
        rw [same]
        exact related.owner
      · show (change s.frame).name = _
        rw [same]
        exact related.name
      · show coupling.world s.tree (change s.frame).globals other.tree other.globals
        rw [same]
        exact related.world
      · intro scope member var held
        rcases scopes s.frame scope member with rfl | old
        · cases held
        · exact related.visible scope old var held
      · intro scope member var held
        rcases scopes s.frame scope member with rfl | old
        · cases held
        · exact related.constant scope old var held
      · show ∀ var rest, var :: rest <:+ (change s.frame).locals → _
        rw [same]
        exact related.numbered
    · exact congrArg (fun frame => ((), { s.transplant coupling.ids other with frame }))
        (others s.frame other.globals)

theorem openScope : coupling.Steps φ (modify fun s => { s with frame := s.frame.openScope } : Assemble Unit)
    (modify fun s => { s with frame := s.frame.openScope } : Assemble Unit) := by
  refine rescope (fun _ _ => rfl) (fun _ => rfl) fun frame _ member => ?_
  rcases mem_cons.1 member with rfl | old
  · exact .inl rfl
  · exact .inr old

theorem closeScope : coupling.Steps φ (modify fun s => { s with frame := s.frame.closeScope } : Assemble Unit)
    (modify fun s => { s with frame := s.frame.closeScope } : Assemble Unit) := by
  refine rescope (fun frame _ => ?_) (fun frame => ?_) fun frame scope member => ?_
  · rcases frame with ⟨owner, name, scope, _ | ⟨next, outer⟩, globals, locals⟩ <;> rfl
  · rcases frame with ⟨owner, name, scope, _ | ⟨next, outer⟩, globals, locals⟩ <;> rfl
  · rcases frame with ⟨owner, name, _, _ | ⟨next, outer⟩, globals, locals⟩
    · exact .inr member
    · exact .inr (mem_cons_of_mem _ member)

section

variable (lawful : coupling.Lawful)

include lawful

/-- A local is declared in both runs, with the same id, or in none. -/
theorem declare (name : String) (type? : Option TypePath)
    (known : ∀ constant ∈ constant?, constant.isConstant) {g : Option Local → Assemble β}
    (refused : coupling.Steps φ (f none) (g none))
    (declared : ∀ id, coupling.Steps (φ ∧ (constant? = none → coupling.fits (.var (.local name id))))
      (f (some { name, id, type?, constant? })) (g (some { name, id, type?, constant? }))) :
    coupling.Steps φ (Assembly.declare? name type? constant? >>= f)
      (Assembly.declare? name type? constant? >>= g) := by
  refine ⟨fun s guarded => ?_, fun holds s other related guarded => ?_⟩
  all_goals
    rw [Run.state_bind] at guarded
    by_cases taken : s.frame.scope.any (·.name == name)
  · rw [Assembly.declare?_taken taken] at guarded
    exact refused.guarded s guarded
  · rw [Assembly.declare?_free taken] at guarded
    exact lawful.fewerLocals ((declared _).guarded _ guarded)
  · rw [Run.state_bind, Run.state_bind, Assembly.declare?_taken taken,
      Assembly.declare?_taken (s := s.transplant coupling.ids other) taken]
    rw [Assembly.declare?_taken taken] at guarded
    exact refused.runs holds s other related guarded
  · rw [Run.state_bind, Run.state_bind, Assembly.declare?_free taken,
      Assembly.declare?_free (s := s.transplant coupling.ids other) taken]
    rw [Assembly.declare?_free taken] at guarded
    have guarded' := (declared _).guarded _ guarded
    have fit : constant? = none → coupling.fits (.var (.local name s.frame.locals.length)) ∧
        coupling.writable s.frame.locals.length := by
      rintro rfl
      exact lawful.declared guarded'
    exact (declared _).runs ⟨holds, fun none => (fit none).1⟩ _ other (related.withLocal fit known) guarded

theorem reuseLocal (name : String) (span : Span) (missing : SemanticError.Cause) :
    coupling.Steps φ (Assembly.reuseLocal name span missing) (Assembly.reuseLocal name span missing) := by
  have reported : coupling.Steps φ (Assembly.duplicateVar name span) (Assembly.duplicateVar name span) :=
    report lawful _
  refine ⟨fun s guarded => ?_, fun holds s other related guarded => ?_⟩
  all_goals rw [Assembly.reuseLocal_run] at guarded
  · exact reported.guarded s guarded
  · obtain ⟨other', related', after, _⟩ := reported.runs holds s other related guarded
    have code : (Report.located .duplicateVariable span s!"Duplicate var {name}").diagnostic.code =
      .duplicateVariable := rfl
    have fit := lawful.duplicate code guarded
    rw [Assembly.reuseLocal_run, Assembly.reuseLocal_run, after]
    refine ⟨other', related', ?_, ?_⟩
    · have same : (s.transplant coupling.ids other).frame.local? name = s.frame.local? name := rfl
      rw [same]
      cases s.frame.local? name <;> rfl
    · cases s.frame.local? name with
      | none => exact forall_mem_nil _
      | some var => exact forall_mem_singleton.2 (Term.each_mk.2 ⟨fit _ _, forall_mem_nil _⟩)

theorem bindLocal (name : String) (type? : Option TypePath) (span : Span) (missing : SemanticError.Cause) :
    coupling.Steps φ (Assembly.bindLocal name type? span missing) (Assembly.bindLocal name type? span missing) := by
  rw [Assembly.bindLocal_eq]
  refine declare lawful name type? (fun _ held => by cases held) (reuseLocal lawful name span missing) fun id => ?_
  refine pure (Except.ok (Term.localVar name id type? span)) fun holds => ?_
  exact forall_mem_singleton.2 (Term.each_mk.2 ⟨holds.2 rfl, nofun⟩)

theorem refuseSetting (setting : Setting)
    (reported :
      coupling.Steps φ (Assembly.reportSetting setting .lenientSet) (Assembly.reportSetting setting .lenientSet))
    (applied : ∀ value, coupling.Steps φ (Assembly.applySetting setting value .lenientSet)
      (Assembly.applySetting setting value .lenientSet)) :
    coupling.Steps φ (Assembly.refuseSetting setting) (Assembly.refuseSetting setting) := by
  refine bind (report lawful _) fun _ => weaken And.left (look (fun _ _ _ => rfl) fun s => ?_)
  cases s.settings.values setting.name with
  | none => exact report lawful _
  | some value =>
    dsimp only
    split
    · exact applied value
    · exact reported

theorem registerGlobal (name : String) (type? : Option TypePath) (value? : Option Expr) :
    let register : Assemble Unit := modify fun s =>
      let (id, tree) := s.tree.registerGlobal s.frame.path name type? value?
      { s with tree, frame := s.frame.addGlobal name id }
    coupling.Steps φ register register where
  guarded _ guarded := guarded
  runs _ s other related _ := by
    have path : s.frame.path = coupling.path := by
      unfold Frame.path path
      rw [related.owner, related.name]
    have world := lawful.register related.world name type? value?
    rw [← path] at world
    exact ⟨⟨_, _, other.reports⟩, { related with world }, rfl, nofun⟩

end

/-- Listing the proc as a verb. -/
theorem addVerb {owner path : TypePath} (kept : ∀ {tree tree' globals globals'},
      coupling.world tree globals tree' globals' →
        coupling.world (tree.addVerb owner path) globals (tree'.addVerb owner path) globals') :
    coupling.Steps φ (MonadState.modifyGet fun s =>
      ((), { s with tree := s.tree.addVerb owner path }) : Assemble Unit)
      (MonadState.modifyGet fun s => ((), { s with tree := s.tree.addVerb owner path }) : Assemble Unit) where
  guarded _ guarded := guarded
  runs _ _ other related _ :=
    ⟨{ other with tree := other.tree.addVerb owner path }, { related with world := kept related.world }, rfl, nofun⟩

end Steps

/-- The runs stay together through every step of compiling. -/
theorem Lawful.congruence (lawful : coupling.Lawful) :
    Assembly.Congruence coupling.ids coupling.fits (fun φ _ _ x y => coupling.Steps φ x y) where
  neutral := lawful.neutral
  weaken holds _ _ _ _ := Steps.weaken holds
  pure := Steps.pure
  bind := Steps.bind
  flow := Steps.flow
  look apart := Steps.look fun s other _ => apart s (s.transplant coupling.ids other)
  hasType := Steps.hasType lawful
  report := Steps.report lawful
  emit := Steps.emit
  resolve e inferred? := Steps.resolving lawful fun paired => paired.runs_expr _ e inferred?
  resolveConstant e := Steps.resolving lawful fun paired => paired.runs_constant _
  openScope := Steps.openScope
  closeScope := Steps.closeScope
  declare name type? _ _ refused declared := by
    refine Steps.declare lawful name type? (fun _ held => by cases held) refused fun id => ?_
    exact (declared id).weaken fun holds => ⟨holds.1, holds.2 rfl⟩
  declareConst name type? _ known _ _ rest := by
    refine Steps.declare lawful name type? (fun _ held => ?_) (rest none) fun id => (rest _).weaken And.left
    cases held
    exact known
  bindLocal := Steps.bindLocal lawful
  refuseSetting := Steps.refuseSetting lawful
  registerGlobal := Steps.registerGlobal lawful

/-- What comes of a proc in the two runs. -/
structure Outcome (coupling : Coupling) (first second : CompiledProc × TypeTree × Array Report) : Prop where
  proc : second.1 = { first.1 with ops := first.1.ops.map fun op => (op.1.renumber coupling.ids, op.2) }
  world : ∃ globals globals', coupling.world first.2.1 globals second.2.1 globals'
  reports : ∃ found, first.2.2 = coupling.before ++ found ∧ second.2.2 = coupling.before' ++ found
  ops : ∀ op ∈ first.1.ops, op.1.Fits coupling.fits
  numbered : ∀ var rest, var :: rest <:+ first.1.locals → var.id = rest.length

theorem Lawful.compile (lawful : coupling.Lawful) {definition : ProcDefinition}
    (owner : definition.owner.toAbsolute = coupling.owner) (name : definition.name = coupling.name)
    (verb : definition.isVerb → ∀ {tree tree' globals globals'}, coupling.world tree globals tree' globals' →
      coupling.world (tree.addVerb definition.owner definition.path) globals
        (tree'.addVerb definition.owner definition.path) globals')
    (world : coupling.world tree [] tree' []) (config : Config)
    (guarded : coupling.guard (definition.compile tree ⟨config, coupling.before⟩).1.locals
      (definition.compile tree ⟨config, coupling.before⟩).2.2) :
    coupling.Outcome (definition.compile tree ⟨config, coupling.before⟩)
      (definition.compile tree' ⟨config, coupling.before'⟩) := by
  let start := definition.start tree ⟨config, coupling.before⟩
  have related : coupling.Related start ⟨tree', [], coupling.before'⟩ :=
    { owner, name, world
      found := ⟨#[], Array.append_empty.symm, Array.append_empty.symm⟩
      visible := by
        intro scope member var held
        rw [mem_singleton.1 member] at held
        cases held
      constant := by
        intro scope member var held
        rw [mem_singleton.1 member] at held
        cases held
      numbered := by
        intro var _ suffix
        cases suffix_nil.1 suffix
      ops := nofun }
  have steps : coupling.Steps True (Assembly.proc definition) (Assembly.proc definition) :=
    lawful.congruence.proc definition fun isVerb => Steps.addVerb (verb isVerb)
  obtain ⟨other, after, run, _⟩ := steps.runs trivial start _ related guarded
  have second : definition.compile tree' ⟨config, coupling.before'⟩ =
      ({ (definition.compile tree ⟨config, coupling.before⟩).1 with
          ops := (Assembly.proc definition start).2.ops.map fun op => (op.1.renumber coupling.ids, op.2) },
        other.tree, other.reports) := by
    have begin : start.transplant coupling.ids ⟨tree', [], coupling.before'⟩ =
        definition.start tree' ⟨config, coupling.before'⟩ := by
      simp only [Assembly.transplant, start, ProcDefinition.start, Array.map_empty]
    rw [begin] at run
    exact congrArg (fun out : Termination × Assembly => definition.finish out.1 out.2) run
  rw [second]
  exact ⟨rfl, ⟨_, _, after.world⟩, after.found, after.ops, after.numbered⟩

end Coupling

end DreamMaker
