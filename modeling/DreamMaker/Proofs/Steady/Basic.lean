import DreamMaker.Proofs.Congruence.Compile
import DreamMaker.Proofs.Resolution.Reports

/-!
Steps of compiling that do not go by what was reported or how it is shown. The one place that looks at it takes a
value once more that was accepted before, and that changes nothing.
-/

namespace DreamMaker.Assembly

/-- The same proc with another log. -/
def relog (s : Assembly) (log : Log) : Assembly := { s with reports := log.reports, config := log.config }

/-- A step that does the same whatever the log says, apart from the log. -/
def Steady (x : Assembly → α × Assembly) : Prop :=
  ∀ s log, ∃ log', x (s.relog log) = ((x s).1, (x s).2.relog log')

namespace Steady

variable {α : Type} {x : Assembly → α × Assembly}

/-- A step that does not look at the log at all. -/
theorem of_comm (comm : ∀ s log, x (s.relog log) = ((x s).1, (x s).2.relog log)) : Steady x :=
  fun s log => ⟨log, comm s log⟩

theorem pure (a : α) : Steady (Pure.pure a : Assemble α) := of_comm fun _ _ => rfl

theorem modify (f : Assembly → Assembly) (comm : ∀ s log, f (s.relog log) = (f s).relog log) :
    Steady (modify f : Assemble PUnit) :=
  of_comm fun s log => congrArg (Prod.mk PUnit.unit) (comm s log)

theorem report (r : Report) : Steady (report r) := fun _ log => ⟨{ log with reports := log.reports.push r }, rfl⟩

/-- The second step has to do only with what the first one gives. -/
theorem bind {x : Assemble α} (first : Steady x) (rest : ∀ s, Steady (f (x s).1)) : Steady (x >>= f) := by
  intro s log
  obtain ⟨log₁, same⟩ := first s log
  obtain ⟨log₂, after⟩ := rest s (x s).2 log₁
  exact ⟨log₂, by rw [Run.state_bind, same]; exact after⟩

theorem look {f : Assembly → Assemble β} (same : ∀ s log, f (s.relog log) = f s) (rest : ∀ s, Steady (f s)) :
    Steady (get >>= f) := by
  intro s log
  rw [Run.state_get_bind, same]
  exact rest s s log

/-- A step that has to do only with labels, loops and attributes. -/
theorem flow (apart : ∀ s shared, x (s.withShared shared) = ((x s).1, (x s).2.withShared shared)) : Steady x := by
  refine of_comm fun s log => ?_
  have shares : (x s).2 = (x s).2.withShared s := congrArg Prod.snd (apart s s)
  rw [shares]
  exact apart s (s.relog log)

theorem resolving {action : Context → Resolve α} (tame : ∀ context, (action context).Tame) :
    Steady (resolving action) := by
  intro s log
  have same := (tame s.context).steady s.reports log.reports
  refine ⟨{ log with reports := (action s.context log.reports).2 }, ?_⟩
  exact congrArg (fun result => (result, _)) same

theorem declare? (name : String) (type? : Option TypePath) (constant? : Option Term) :
    Steady (declare? name type? constant?) := by
  refine of_comm fun s log => ?_
  rw [Assembly.declare?, Run.modifyGet_eq, Run.modifyGet_eq, show (s.relog log).frame = s.frame from rfl]
  rcases s.frame.declare name type? constant? with _ | ⟨var, frame⟩ <;> rfl

theorem bindLocal (name : String) (type? : Option TypePath) (span : Span) (missing : SemanticError.Cause) :
    Steady (bindLocal name type? span missing) := by
  rw [bindLocal_eq]
  refine bind (declare? name type? none) fun s => ?_
  cases (Assembly.declare? name type? none s).1 with
  | some var => exact of_comm fun _ _ => rfl
  | none =>
    intro s log
    obtain ⟨log', after⟩ := report (.located .duplicateVariable span s!"Duplicate var {name}") s log
    refine ⟨log', ?_⟩
    show reuseLocal name span missing (s.relog log) =
      ((reuseLocal name span missing s).1, (reuseLocal name span missing s).2.relog log')
    rw [reuseLocal_run, reuseLocal_run]
    exact congrArg (Prod.mk _) (congrArg Prod.snd after)

end Steady

/-! Attributes. -/

/-- Reports leave everything else as it is. -/
theorem reportSetting_eq (setting : Setting) (topic : Topic) (s : Assembly) :
    ∃ log, reportSetting setting topic s = ((), s.relog log) := by
  unfold reportSetting
  generalize Attributes.reports setting.name setting.span = found
  induction found generalizing s with
  | nil => exact ⟨⟨s.config, s.reports⟩, rfl⟩
  | cons r found ih =>
    obtain ⟨log, same⟩ := ih { s with reports := s.reports.push (r.about topic) }
    exact ⟨log, same⟩

/-- A value that was accepted before is accepted once more, and nothing but reports comes of it. -/
theorem applySetting_again (accepted : s.settings.values setting.name = some value) :
    applySetting setting value topic s = reportSetting setting topic s := by
  rw [applySetting, Run.state_get_bind, s.settings.apply_again accepted setting.span]
  obtain ⟨_, same⟩ := reportSetting_eq setting topic s
  show (reportSetting setting topic >>= fun _ => modify fun s' => { s' with settings := s.settings }) s = _
  rw [Run.state_bind, same]
  rfl

/-- Whether a value that is not constant is an error or not, the attributes stay as they are. -/
theorem refuseSetting_steady (reported : Steady (reportSetting setting .lenientSet)) :
    Steady (refuseSetting setting) := by
  refine .bind (.report _) fun _ => ?_
  have either (s : Assembly) (value : Term) (accepted : s.settings.values setting.name = some value) :
      (if s.config.covers .lenientSet then applySetting setting value .lenientSet else reportSetting
        setting .lenientSet) s =
        reportSetting setting .lenientSet s := by
    split
    · exact applySetting_again accepted
    · rfl
  intro s log
  rw [Run.state_get_bind, Run.state_get_bind, show (s.relog log).settings = s.settings from rfl]
  cases accepted : s.settings.values setting.name with
  | some value =>
    dsimp only
    rw [either s value accepted, either (s.relog log) value accepted]
    exact reported s log
  | none => exact Steady.report _ s log

/-- Every step of compiling is steady. -/
theorem Steady.congruence : Congruence id (fun _ => True) (fun φ _ _ x y => φ → y = x ∧ Steady x) where
  neutral _ _ := trivial
  weaken holds _ _ _ _ related held := related (holds held)
  pure a _ _ := ⟨by rw [Numbered.renumber_id], .pure a⟩
  bind first rest holds := by
    obtain ⟨rfl, steady⟩ := first holds
    have rest (s) := rest s ⟨holds, fun _ _ _ _ => trivial⟩
    refine ⟨funext fun s => ?_, .bind steady fun s => (rest s).2⟩
    have same := (rest s).1
    rw [Numbered.renumber_id] at same
    rw [Run.state_bind, Run.state_bind, same]
  flow apart _ := ⟨rfl, .flow apart⟩
  look apart rest holds := ⟨rfl, .look (fun s log => apart s (s.relog log)) fun s => (rest s holds).2⟩
  hasType path _ _ has lacks holds := by
    refine ⟨rfl, .look (fun _ _ => rfl) fun s => ?_⟩
    split
    · exact (has holds).2
    · exact (lacks holds).2
  report report _ := ⟨rfl, .report report⟩
  emit _ span _ := ⟨by rw [Op.renumber_id], .modify _ fun _ _ => rfl⟩
  resolve e inferred? _ := ⟨rfl, .resolving fun context => e.resolve_tame⟩
  resolveConstant e _ := ⟨rfl, .resolving fun context => e.resolveConstant_tame⟩
  openScope _ := ⟨rfl, .modify _ fun _ _ => rfl⟩
  closeScope _ := ⟨rfl, .modify _ fun _ _ => rfl⟩
  declare name type? f g refused declared holds := by
    have rest (s : Assembly) : g (Assembly.declare? name type? none s).1 = f (Assembly.declare? name type? none s).1 ∧
        Steady (f (Assembly.declare? name type? none s).1) := by
      by_cases taken : s.frame.scope.any (·.name == name)
      · rw [declare?_taken taken]
        exact refused holds
      · rw [declare?_free taken]
        exact declared _ ⟨holds, trivial⟩
    refine ⟨funext fun s => ?_, .bind (.declare? name type? none) fun s => (rest s).2⟩
    rw [Run.state_bind, Run.state_bind, (rest s).1]
  declareConst name type? constant known f g rest holds := by
    refine ⟨funext fun s => ?_, .bind (.declare? name type? (some constant)) fun s => (rest _ holds).2⟩
    rw [Run.state_bind, Run.state_bind, (rest _ holds).1]
  bindLocal name type? span missing _ := ⟨rfl, .bindLocal name type? span missing⟩
  refuseSetting setting reported _ holds := ⟨rfl, refuseSetting_steady (reported holds).2⟩
  registerGlobal _ _ _ _ := ⟨rfl, .modify _ fun _ _ => rfl⟩

theorem proc_steady {definition : ProcDefinition} : Steady (proc definition) := by
  have kept : True → proc definition = proc definition ∧ Steady (proc definition) :=
    Steady.congruence.proc definition fun _ _ => ⟨rfl, .modify _ fun _ _ => rfl⟩
  exact (kept trivial).2

end DreamMaker.Assembly
