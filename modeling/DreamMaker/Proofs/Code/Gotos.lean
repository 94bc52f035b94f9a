import DreamMaker.Proofs.Emission.Placement

/-!
Where `goto` jumps to. A name that is declared somewhere in a proc is found from everywhere in it, unless the
statement that declares it is left out.
-/

namespace DreamMaker

open List

variable {m' : Marks}

/-- No name stands for two labels. -/
def Marks.Distinct (m : Marks) : Prop := (m.labels.map NamedLabel.name).Nodup

namespace Marks.Distinct

variable {m : Marks}

variable (distinct : m.Distinct) {name : String}

include distinct

theorem map (keeps : ∀ label, (f label).name = label.name) (labels : m'.labels = m.labels.map f) : m'.Distinct := by
  rw [Distinct, labels, map_map, show NamedLabel.name ∘ f = NamedLabel.name from funext keeps]
  exact distinct

theorem change (keeps : ∀ label, (f label).name = label.name) : (m.change name f).Distinct := by
  refine distinct.map (fun label => ?_) rfl
  split <;> simp [keeps]

theorem mention (name : String) (span : Span) : (m.mention name span).Distinct := by
  unfold Marks.mention
  split
  · exact distinct
  rename_i unknown
  refine nodup_cons.2 ⟨fun known => ?_, distinct⟩
  obtain ⟨label, member, same⟩ := mem_map.1 known
  exact absurd (find?_eq_none.1 unknown label member) (by simp [same])

theorem openLoop (next stop : Label) : (m.openLoop next stop).Distinct := by
  refine distinct.map (fun _ => ?_) rfl
  split <;> rfl

theorem eq_of_name (known : m.label? name = some label)
    (member : label' ∈ m.labels) (same : label'.name = name) : label' = label := by
  have here : label.name = name := by simpa using find?_some known
  exact inj_on_of_nodup_map distinct member (label?_mem known) (same.trans here.symm)

end Marks.Distinct

theorem Lowers.distinct (lowers : Lowers mode piece m code t m') : m.Distinct → m'.Distinct := by
  have broken {m : Marks} {name : String} (distinct : m.Distinct) :
      (m.change name fun label => { label with broken := true }).Distinct := distinct.change fun _ => rfl
  have placed {m : Marks} {name : String} {span : Span} (distinct : m.Distinct) : (m.place name span).Distinct :=
    (distinct.mention name span).change fun _ => rfl
  induction lowers with
  | nothing | line | halted | leave | continueLoop | noRounds | noCases | breakLoop | continueLabel => exact id
  | breakLabel => exact broken
  | goto => exact fun distinct => distinct.mention _ _
  | label => exact placed
  | labelBlock _ _ ih => exact fun distinct => ih ((placed distinct).change fun _ => rfl)
  | scope _ ih | skip _ _ ih | enumerator _ _ _ ih | spawn _ ih | forget _ ih => exact ih
  | append _ _ _ ih₁ ih₂ | fork _ _ _ ih₁ ih₂ | switch _ _ _ ih₁ ih₂ | case _ _ ih₁ ih₂ =>
    exact ih₂ ∘ ih₁
  | @loop _ m _ _ _ _ _ _ _ _ _ _ _ _ ih =>
    exact fun distinct => ih (Marks.Distinct.openLoop distinct ⟨m.count + 1⟩ ⟨m.count + 2⟩)

namespace ProcDefinition

open Assembly

/-- The last diagnostics of a proc are those about unknown labels, one for each label that is missing. -/
def TellsMissing (definition : ProcDefinition) (tree : TypeTree) (config : Config) : Prop :=
  ∃ earlier, (Sink.ofReports config (definition.compile tree { config }).2.2).items.toList =
    earlier ++ (definition.assembled tree { config }).missingLabels.filterMap fun label =>
      config.show? (.located .itemDoesntExist label.firstUse s!"Unknown label {label.name}")

theorem tellsMissing (definition : ProcDefinition) (tree : TypeTree) (config : Config) :
    definition.TellsMissing tree config := by
  obtain ⟨earlier, told⟩ := (definition.lowered_start tree { config }).told
  refine ⟨earlier.filterMap config.admit?, ?_⟩
  have last : (definition.compile tree { config }).2.2.toList = _ := told
  rw [Sink.ofReports, Array.toList_filterMap, last, filterMap_append, filterMap_map]
  rfl

/-- A name is found from everywhere in a proc: every `goto` behind it jumps to a place in the code. If not, no
statement that declares it is compiled, because something is left out with a report or a switch has several cases
for all other values. The names that are missing are those that diagnostics call unknown. -/
theorem compile_finds (definition : ProcDefinition) (tree : TypeTree) (config : Config) (name : String) :
    let last := definition.assembled tree { config }
    definition.TellsMissing tree config ∧
    (((∀ label ∈ last.missingLabels, label.name ≠ name) ∧
      definition.Always tree { config } fun action span s outcome => action = .goto name →
        ∃ target ∈ placedLabels (definition.compile tree { config }).1.ops.toList,
          outcome.2.ops = s.ops.push (.jump target, span)) ∨
    (definition.Always tree { config } (fun action _ _ _ => ∀ body?, action ≠ .label name body?) ∧
      (Declares name definition.actions → (∃ report ∈ last.reports, report.Omits) ∨
        ∃ action ∈ definition.actions, ¬ action.HasOneDefault))) := by
  intro last
  refine ⟨definition.tellsMissing tree config, ?_⟩
  obtain ⟨_, lowers⟩ := definition.assembled_lowers
  by_cases found : ∃ label, last.marks.label? name = some label ∧ label.placed = true
  · obtain ⟨label, known, placed⟩ := found
    refine .inl ⟨fun _ missing same => ?_, always_of_stands ?_⟩
    · rw [missingLabels, mem_mergeSort, mem_filter] at missing
      have distinct := lowers.distinct nodup_nil
      rw [distinct.eq_of_name known missing.1 same, placed] at missing
      exact absurd missing.2 (by simp)
    · rintro action span s stands rfl
      have run : compileAction span (.goto name) s = (.ok .none,
          (s.withMarks ((s.marks.mention name span).escape s.marks.loops.length)).writes
            [(.jump (s.marks.startOf name), span)]) := by
        exact congrArg (fun result : Termination × Assembly => (Except.ok result.1, result.2)) goto_eq
      rw [run] at stands ⊢
      have mentioned : (s.marks.mention name span).label? name = some (s.marks.labelOrNew name span) := by
        rw [Marks.label?_mention, if_pos rfl]
      obtain ⟨label', known', start, _⟩ := stands.later name _ mentioned
      obtain rfl : label = label' := Option.some.inj (known.symm.trans known')
      have inside := ((lowers.tidy [] [] (forall_mem_nil _) tidy_initial).known name label known).placed placed
      rw [append_nil, start, Marks.labelOrNew_start] at inside
      exact ⟨_, inside, rfl⟩
  · refine .inr ⟨always_of_stands ?_, fun declares => ?_⟩
    · rintro action span s stands body? rfl
      obtain ⟨label, known, placed⟩ := compileLabel_places
      obtain ⟨label', known', _, stays⟩ := stands.later name label known
      exact found ⟨label', known', stays placed⟩
    · by_cases one : ∀ action ∈ definition.actions, action.HasOneDefault
      · exact .inl ((proc_finds one declares).resolve_left found)
      · right
        simpa only [not_forall, exists_prop] using one

/-- `if (.) goto done; return; done:` -/
def returnsFirst : ProcDefinition :=
  .ofActions "early" [.if_ (.mk .result .unknown) (.ofActions [.goto "done"]) none, .return_ none, .label "done" none]

/-- Behind a `return` a name is not placed, so the `goto` that stands before it leads nowhere. -/
theorem returnsFirst_misses :
    (returnsFirst.actions.filter fun action => match action with
      | .label name _ => name == "done"
      | _ => false).length = 1 ∧
    (returnsFirst.assembled default {}).missingLabels.map NamedLabel.name = ["done"] ∧
    ∃ target ∈ targetLabels (returnsFirst.compile default).1.ops.toList,
      target ∉ placedLabels (returnsFirst.compile default).1.ops.toList := by
  decide +kernel

end ProcDefinition

end DreamMaker
