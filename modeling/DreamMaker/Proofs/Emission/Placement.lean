import DreamMaker.Proofs.Emission.Monitor

/-!
Names that are declared get placed. Statements that are left out are the exception, and there is a report about them.
-/

namespace DreamMaker

open List

/-- A report about statements that are left out: nothing leads to them, one around them fails, or their name is
taken. -/
inductive Report.Omits : Report → Prop
  | unreachable {report} : report.diagnostic.code = .unreachableCode → Omits report
  | failed (error : SemanticError) : Omits error.toReport
  | taken (span : Span) (name : String) :
      Omits (.located .duplicateVariable span s!"A label with the name \"{name}\" already exists")

variable {name : String}

/-- One of the statements gives a name to its place. -/
def Declares (name : String) (actions : List Action) : Prop := ∃ body?, .label name body? ∈ actions

/-- A switch with one case for all other values, if any. Every other statement passes. -/
def Action.HasOneDefault (action : Action) : Prop :=
  ∀ value cases, action = .switch value cases → (cases.filter (·.values?.isNone)).length ≤ 1

theorem Declares.append (declares : Declares name (first ++ second)) :
    Declares name first ∨ Declares name second := by
  obtain ⟨body?, member⟩ := declares
  exact (mem_append.1 member).imp (⟨body?, ·⟩) (⟨body?, ·⟩)

theorem Declares.nil : ¬ Declares name [] := fun ⟨_, member⟩ => nomatch member

/-- One of the statements names its place, and every switch among them has one case for all other values. -/
structure Names (name : String) (actions : List Action) : Prop where
  declares : Declares name actions
  one : ∀ action ∈ actions, action.HasOneDefault

theorem Names.append (names : Names name (first ++ second)) : Names name first ∨ Names name second :=
  names.declares.append.imp (⟨·, fun part member => names.one part (mem_append_left _ member)⟩)
    (⟨·, fun part member => names.one part (mem_append_right _ member)⟩)

namespace Assembly

variable {α : Type} {name : String} {span : Span} {s : Assembly}

/-- A name has been placed, or it has been reported that something is left out. -/
def Found (name : String) (s : Assembly) : Prop :=
  (∃ label, s.marks.label? name = some label ∧ label.placed = true) ∨ ∃ report ∈ s.reports, report.Omits

/-- A step behind which a name is found. -/
def Finds (name : String) (x : Assemble α) : Prop := ∀ s, Found name (x s).2

/-- A step that fails, or behind which a name is found. -/
def Reaches (name : String) (x : Attempt α) : Prop := ∀ s, (∃ error, (x s).1 = .error error) ∨ Found name (x s).2

theorem Found.later (found : Found name s) (keeps : Keeps s s') (later : s.marks.Later s'.marks) : Found name s' := by
  rcases found with ⟨label, known, placed⟩ | ⟨report, told, omits⟩
  · obtain ⟨label', known', _, stays⟩ := later name label known
    exact .inl ⟨label', known', stays placed⟩
  · exact .inr ⟨report, keeps report told, omits⟩

theorem Found.quiet (found : Found name s) (quiet : Quiet s s') : Found name s' :=
  found.later quiet.keeps (by rw [quiet.marks]; exact .refl)

theorem Found.writes (found : Found name s) (code : Listing) : Found name (s.writes code) :=
  found.later (writes_keeps s) (by rw [writes_marks]; exact .refl)

theorem Found.compiles (found : Found name s) (compiles : Compiles Mode.any piece x) : Found name (x s).2 := by
  obtain ⟨_, _, lowers⟩ := compiles.emits s (tolerates_any)
  exact found.later (compiles.keeps s) lowers.grows.later

theorem Found.told {report : Report} (omits : report.Omits) (s : Assembly) :
    Found name { s with reports := s.reports.push report } :=
  .inr ⟨report, Array.mem_push_self, omits⟩

theorem Found.discard (span : Span) (reason : String) (s : Assembly) : Found name (discard span reason s).2 :=
  .told (.unreachable rfl) s

theorem Reaches.bind (rest : ∀ a, Reaches name (f a)) : Reaches name (x >>= f) := by
  intro s
  rw [Run.bind_eq]
  rcases x s with ⟨error | a, s'⟩
  · exact .inl ⟨error, rfl⟩
  · exact rest a s'

theorem Reaches.lift (finds : Finds name x) : Reaches name (liftM x : Attempt α) :=
  fun s => .inr (finds s)

theorem Reaches.settle (reaches : Reaches name x) : Finds name (settle x) := by
  intro s
  have reached := reaches s
  rw [settle_eq]
  rcases run : x s with ⟨error | _, s'⟩
  · exact .told (.failed error) s'
  · rw [run] at reached
    exact reached.resolve_left nofun

theorem Finds.inScope (finds : Finds name x) (span : Span) : Finds name (inScope span x) :=
  fun _ => finds _

theorem Reaches.tryInScope (reaches : Reaches name x) (span : Span) : Reaches name (tryInScope span x) :=
  fun _ => reaches _

theorem Finds.then (rest : ∀ a, Finds name (f a)) : Finds name (x >>= f) :=
  fun s => rest (x s).1 (x s).2

/-! Statements that hold others. -/

theorem chain_finds {parts : List Part} (compiles : ∀ part ∈ parts, Compiles Mode.any .statements part.code)
    (member : part ∈ parts) (finds : Finds name part.code) (stops : Bool) (known : Termination) :
    Finds name (chain stops known parts) := by
  induction parts generalizing known with
  | nil => cases member
  | cons first rest ih =>
    intro s
    have later : ∀ part ∈ rest, Compiles Mode.any .statements part.code := fun part member =>
      compiles part (.tail _ member)
    rw [chain]
    split
    · exact .told (.unreachable rfl) s
    rcases member with _ | ⟨_, member⟩
    · obtain ⟨keeps, emits⟩ := chain_emits later (.inr (.inl trivial))
        (known.union (part.code s).1) (part.code s).2
      obtain ⟨_, _, _, _, lowers⟩ := emits (tolerates_any)
      exact (finds s).later keeps lowers.grows.later
    · exact ih later member _ (first.code s).2

theorem sequence_finds {parts : List Part} (compiles : ∀ part ∈ parts, Compiles Mode.any .statements part.code)
    (member : part ∈ parts) (finds : Finds name part.code) : Finds name (sequence .none parts) := by
  rw [sequence_eq]
  exact chain_finds compiles member finds true .none

theorem placeLabel_places (body? : Option Part)
    (compiles : ∀ body ∈ body?, Compiles Mode.any .statements body.code) (s : Assembly) :
    ∃ label, (placeLabel name body? span s).2.marks.label? name = some label ∧ label.placed = true := by
  cases free : (s.marks.label? name).any NamedLabel.placed with
  | true =>
    obtain ⟨label, known, placed⟩ := (Option.any_eq_true ..).1 free
    rw [placeLabel_taken free]
    exact ⟨label, known, placed⟩
  | false =>
    have here : ∃ label, (s.marks.place name span).label? name = some label ∧ label.placed = true :=
      ⟨_, by rw [Marks.label?_place, if_pos rfl], rfl⟩
    rw [placeLabel_eq free]
    rcases body? with _ | body
    · exact here
    obtain ⟨_, _, lowers⟩ := (compiles body rfl).emits (s.inBlock name span) (tolerates_any)
    obtain ⟨label, known, placed⟩ := here
    have inside : (s.inBlock name span).marks.label? name =
        some { label with stop? := some ⟨(s.marks.place name span).count⟩ } := by
      show ((s.marks.place name span).openBlock name).label? name = _
      rw [Marks.label?_openBlock, if_pos rfl, known]
      rfl
    obtain ⟨label', known', _, stays⟩ := lowers.grows.later name _ inside
    dsimp only
    rw [labelBlock_eq rfl]
    exact ⟨label', known', stays placed⟩

theorem labelBlock_finds (finds : Finds name body.code) : Finds name (placeLabel other (some body) span) := by
  intro s
  cases free : (s.marks.label? other).any NamedLabel.placed with
  | true =>
    rw [placeLabel_taken free]
    exact .told (.taken span other) s
  | false =>
    rw [placeLabel_eq free]
    dsimp only
    rw [labelBlock_eq rfl]
    exact finds (s.inBlock other span)

/-! Loops. -/

theorem Loops.finds (loops : Loops piece loop span) (finds : Finds name body.code) : Finds name (loop body) := by
  obtain ⟨head, _, _, _, _, ends, code⟩ := loops
  intro s
  rw [code, loopCode_eq ends]
  let after := (body.code (s.inLoop (head s.marks.count) span)).2
  have closed : Found name (after.withMarks after.marks.closeLoop) := finds (s.inLoop (head s.marks.count) span)
  exact closed.writes _

theorem doWhileLoop_reaches (finds : Finds name body.code) : Reaches name (doWhileLoop body condition span) := by
  intro s
  have behind : Found name (s.behindBody body span) := finds (s.inLoop [] span)
  have quiet := (resolve_silent condition none).quiet (s.behindBody body span)
  rw [doWhileLoop_eq]
  rcases run : resolve condition none (s.behindBody body span) with ⟨error | value, s'⟩ <;> rw [run] at quiet
  · exact .inl ⟨error, rfl⟩
  · exact .inr ((behind.quiet quiet).writes _)

theorem enumeratorLoop_reaches (finds : Finds name body.code) : Reaches name (enumeratorLoop binder body span) := by
  have each : Reaches name (tryInScope span (do enumerate (← loopVar binder) body span : Attempt Termination)) :=
    .tryInScope (.bind fun target => .lift ((enumerate_loops).finds finds)) span
  exact fun s => (each s).imp_right (Found.writes · [(.destroyEnumerator, span)])

theorem Shape.reaches {count : Nat} {f : (ι → Part) → Attempt Termination} (shape : Shape count f)
    {parts : ι → Part} (compiles : ∀ i, Compiles Mode.any .statements (parts i).code)
    (finds : Finds name (parts j).code) : Reaches name (f parts) := by
  induction shape with
  | silent _ _ ih => exact .bind ih
  | simple _ _ ih => exact .bind fun _ => ih
  | values _ _ ih => exact .bind fun _ => ih
  | scope _ ih => exact .tryInScope ih _
  | fails => exact fun s => .inl ⟨_, rfl⟩
  | part only => exact .lift (only j ▸ finds)
  | omitted => exact fun s => .inr (.discard _ _ s)
  | chosen => exact fun s => .inr ((Found.discard _ _ s).compiles (compiles _))
  | skip _ only => exact fun s => .inr (((only j ▸ finds) _).writes _)
  | @fork _ k? _ _ _ _ _ _ all =>
    refine fun s => .inr (Found.writes ?_ _)
    rcases all j with rfl | rfl
    · cases k? with
      | none => exact (finds _).writes _
      | some k => exact ((finds _).writes _).compiles (compiles k)
    · exact finds _
  | spawn only => exact fun s => .inr ((only j ▸ finds) (s.inSpawn _))
  | loop loops only => exact .lift (loops.finds (only j ▸ finds))
  | doWhile only => exact doWhileLoop_reaches (only j ▸ finds)
  | enumerator _ only => exact .bind fun _ => enumeratorLoop_reaches (only j ▸ finds)

section Switches

variable {branches : List Branch}

theorem exists_mem_caseTests (member : branch ∈ branches)
    (valued : branch.values?.isSome = true) (s : Assembly) :
      ∃ entry ∈ (caseTests branches s).1, entry.2 = branch := by
  induction branches generalizing s with
  | nil => cases member
  | cons first _ ih =>
    rw [caseTests]
    cases given : first.values? with
    | none =>
      rcases member with _ | ⟨_, member⟩
      · rw [given] at valued
        cases valued
      · exact ih member s
    | some values =>
      rcases member with _ | ⟨_, member⟩
      · exact ⟨_, .head _, rfl⟩
      · obtain ⟨entry, found, same⟩ := ih member
          (values.forM (caseTest ⟨s.marks.count⟩) (s.withMarks (s.marks.fresh 1))).2
        exact ⟨entry, .tail _ found, same⟩

theorem caseBodies_finds (compiles : ∀ entry ∈ labelled, Compiles Mode.any .statements entry.2.body.code)
    (member : entry ∈ labelled) (finds : Finds name entry.2.body.code) (stop : Label) (known : Termination) :
    Finds name (caseBodies stop known labelled) := by
  induction labelled generalizing known with
  | nil => cases member
  | cons _ rest ih =>
    have later : ∀ entry ∈ rest, Compiles Mode.any .statements entry.2.body.code := fun entry member =>
      compiles entry (.tail _ member)
    intro _
    rcases member with _ | ⟨_, member⟩
    · exact ((finds _).writes [(.jump stop, entry.2.span)]).compiles (caseBodies_compiles stop _ later)
    · exact ih later member _ _

theorem defaultCode_eq (one : (branches.filter (·.values?.isNone)).length ≤ 1) (member : branch ∈ branches)
    (default : branch.values?.isNone = true) :
    defaultCode branches = branch.body.code := by
  have known : branch ∈ branches.filter (·.values?.isNone) := mem_filter.2 ⟨member, default⟩
  have only : branches.filter (·.values?.isNone) = [branch] := by
    obtain ⟨_, same⟩ := length_eq_one_iff.1 (Nat.le_antisymm one (length_pos_of_mem known))
    rw [same] at known ⊢
    rw [mem_singleton.1 known]
  have found : branches.reverse.find? (·.values?.isNone) = some branch := by
    rw [← head?_filter, filter_reverse, only]
    rfl
  rw [defaultCode, found]

variable (one : (branches.filter (·.values?.isNone)).length ≤ 1)
  (compiles : ∀ branch ∈ branches, Compiles Mode.any .statements branch.body.code)

include compiles

theorem onlyCase_finds (member : branch ∈ branches) (finds : Finds name branch.body.code)
    (selected? : Option Nat) (index : Nat) :
    Finds name (onlyCase selected? index .none branches) := by
  induction branches generalizing index with
  | nil => cases member
  | cons _ rest ih =>
    have later : ∀ branch ∈ rest, Compiles Mode.any .statements branch.body.code := fun branch member =>
      compiles branch (.tail _ member)
    intro s
    rw [onlyCase]
    split
    · rename_i chosen
      have passed := lt_of_chosen chosen
      rcases member with _ | ⟨_, member⟩
      · exact (finds s).quiet (onlyCase_passed (index + 1) passed _ rest _).1
      -- All that follow are left out, and there is one.
      obtain ⟨_, more, rfl⟩ := exists_cons_of_ne_nil (ne_nil_of_mem member)
      have other : selected? ≠ some (index + 1) := fun same => Nat.lt_irrefl _ (passed _ same)
      rw [Run.state_bind, onlyCase, if_neg other]
      exact (Found.discard _ _ _).quiet (onlyCase_passed (index + 2)
        (fun i known => Nat.lt_succ_of_lt (passed i known)) _ more _).1
    · rcases member with _ | ⟨_, member⟩
      · exact (Found.discard _ _ s).compiles (onlyCase_compiles selected? (index + 1) later)
      · exact ih later member (index + 1) _

include one

theorem openSwitch_finds (member : branch ∈ branches) (finds : Finds name branch.body.code) :
    Finds name (openSwitch value branches span) := by
  intro s
  have inside := (caseTests_tested branches (s.writes [(.push value, span)])).members
  rw [openSwitch_eq]
  refine Found.writes ?_ _
  cases given : branch.values? with
  | none =>
    refine Found.compiles (Found.writes ?_ _) (caseBodies_compiles _ _ fun entry known =>
      compiles entry.2 (inside entry known))
    rw [defaultCode_eq one member (by rw [given]; rfl)]
    exact finds _
  | some _ =>
    obtain ⟨entry, found, rfl⟩ := exists_mem_caseTests member (by rw [given]; rfl) (s.writes [(.push value, span)])
    exact caseBodies_finds (fun entry known => compiles entry.2 (inside entry known)) found finds _ _ _

theorem switch_reaches (finds : ∃ branch ∈ branches, Finds name branch.body.code) :
    Reaches name (switch value branches span) := by
  obtain ⟨branch, member, finds⟩ := finds
  refine .bind fun value => ?_
  split
  · exact .lift (.then fun _ => onlyCase_finds compiles member finds _ 0)
  · exact .lift (openSwitch_finds one compiles member finds)

end Switches

/-! Statements and blocks. -/

mutual

theorem not_declares_of_isSet : (st : Statement) → st.isSet = true → ¬ Declares name st.actions
  | .mk action span, sets => by
    rintro ⟨body?, member⟩
    rw [Statement.actions] at member
    cases action with
    | set => simp [Action.inner] at member
    | group inner =>
      have all : Statement.areSets inner = true := by
        rw [Statement.isSet, Bool.and_eq_true] at sets
        exact sets.2
      rcases member with _ | ⟨_, member⟩
      exact not_declares_of_areSets inner all ⟨body?, member⟩
    | _ => cases sets

theorem not_declares_of_areSets : (inner : List Statement) → Statement.areSets inner = true →
    ¬ Declares name (Statement.allActions inner)
  | [], _ => by
    exact Declares.nil
  | first :: rest, sets => by
    rw [Statement.areSets, Bool.and_eq_true] at sets
    intro declares
    rcases declares.append with here | there
    · exact not_declares_of_isSet first sets.1 here
    · exact not_declares_of_areSets rest sets.2 there

end

/-- A name has been placed behind the statement that declares it. -/
theorem compileLabel_places :
    ∃ label, (compileAction span (.label name body?) s).2.marks.label? name = some label ∧ label.placed = true := by
  cases body? with
  | none =>
    exact placeLabel_places none (by simp) s
  | some body =>
    exact placeLabel_places (some (block body)) (by simpa using block_compiles) s

theorem branches_defaults (cases : List Case) :
    ((branches cases).filter (·.values?.isNone)).length = (cases.filter (·.values?.isNone)).length := by
  induction cases with
  | nil => rfl
  | cons case rest ih =>
    obtain ⟨values?, _, _⟩ := case
    cases values? with
    | none => exact congrArg (· + 1) ih
    | some _ => exact ih

theorem statements_find : Traversal
    (fun span action => action.HasOneDefault → Names name action.inner → Reaches name (compileAction span action))
    (fun body => Names name body.actions → Finds name (block body).code)
    (fun inner => Names name (Statement.allActions inner) → ∃ part ∈ parts inner, Finds name part.code)
    (fun cases => Names name (Case.allActions cases) → ∃ branch ∈ branches cases,
      Finds name branch.body.code) where
  leaf span action leaf _ names := by
    have none_ : action.inner = [] := by
      unfold Action.inner
      split <;> first | rfl | cases leaf
    rw [none_] at names
    exact absurd names.declares Declares.nil
  group span inner find _ names := by
    rw [compileAction, together_eq]
    obtain ⟨part, member, finds⟩ := find names
    exact .lift (chain_finds parts_compile member finds false .none)
  label span other body finds _ names := .lift (labelBlock_finds (finds names))
  switch span value cases find itself names := by
    have single : ((branches cases).filter (·.values?.isNone)).length ≤ 1 := by
      rw [branches_defaults]
      exact itself value cases rfl
    exact switch_reaches single branches_compile (find names)
  held {_ _ _ _ blocks} holds finds _ names := by
    obtain ⟨body?, member⟩ := names.declares
    obtain ⟨i, inside⟩ := holds.inner.1 member
    rw [holds.code]
    refine holds.shape.reaches (fun i => block_compiles) (finds i ⟨⟨body?, inside⟩, fun part member => ?_⟩)
    exact names.one part (holds.inner.2 ⟨i, member⟩)
  body statements span find names := by
    obtain ⟨part, member, finds⟩ := find names
    exact .inScope (.then fun _ => .then fun _ => sequence_finds parts_compile member finds) span
  done names := absurd names.declares Declares.nil
  next action span rest reaches later names := by
    have first (here : Names name (Statement.actions (.mk action span))) : Finds name
        (statement (.mk action span)) := by
      refine Reaches.settle ?_
      obtain ⟨⟨body?, member⟩, one⟩ := here
      rcases member with _ | ⟨_, member⟩
      · exact fun _ => .inr (.inl compileLabel_places)
      · exact reaches (one action (.head _)) ⟨⟨body?, member⟩, fun part inner => one part (.tail _ inner)⟩
    rw [parts]
    split
    · rename_i sets
      exact later (names.append.resolve_left fun here => not_declares_of_isSet _ sets here.declares)
    rcases names.append with here | there
    · exact ⟨_, .head _, first here⟩
    · obtain ⟨part, member, finds⟩ := later there
      exact ⟨part, .tail _ member, finds⟩
  decided names := absurd names.declares Declares.nil
  branch values? body span rest first later names := by
    rcases names.append with here | there
    · exact ⟨_, .head _, first here⟩
    · obtain ⟨branch, member, finds⟩ := later there
      exact ⟨branch, .tail _ member, finds⟩

/-- A name that a proc declares is found. -/
theorem proc_finds (one : ∀ action ∈ definition.actions, action.HasOneDefault)
    (declares : Declares name definition.actions) : Found name (proc definition s).2 := by
  unfold ProcDefinition.actions at one declares
  unfold proc
  cases found : definition.body? with
  | none =>
    rw [found] at declares
    exact absurd declares Declares.nil
  | some body =>
    rw [found] at one declares
    obtain ⟨statements, _⟩ := body
    obtain ⟨_, member, finds⟩ := statements_find.of_statements statements ⟨declares, one⟩
    have all := sequence_finds parts_compile member finds
    have body : Finds name (procBody statements) := by
      refine .then fun _ s => ?_
      exact (all s).quiet (Silent.forM (fun label => report_silent (missing label)) _ _)
    cases statements with
    | nil => cases member
    | cons _ _ =>
      cases definition.isVerb with
      | true => exact Finds.then (fun _ => .then fun _ => body) s
      | false => exact Finds.then (fun _ => body) s

end Assembly

end DreamMaker
