import DreamMaker.Proofs.Parsing.Declarations

namespace DreamMaker.Parsing

variable {S : Setting}

section Skipping

/-- Tokens at which the skipping of a declaration stops. -/
def startsTopLevel (token : Token) : Bool := token.isEnd || token.lineIndentation? = some 0

theorem not_startsTopLevel_of_live (live : isLive token = true) : startsTopLevel token = false := by
  obtain ⟨more, no_delimiter⟩ : token.isEnd = false ∧ isDelimiter token.kind = false := by
    simpa [isLive] using live
  have inside : token.lineIndentation? = none := by
    unfold Token.lineIndentation?
    split
    · rename_i newline _
      simp [isDelimiter, newline] at no_delimiter
    · rfl
  simp [startsTopLevel, more, inside]

theorem leave_sim : Sim S bound ⟨.told level, now, 0⟩ leave leave fun _ => .told level 0 := by
  refine check_sim.branch (.pure (by simp [*])) ((advance_told fun _ known => ?_).last (by simp))
  simpa [Token.isEnd] using known.2

theorem skipLineTurn_sim : Sim S bound (.told level 0) (skipLineTurn a) (skipLineTurn b)
      (turned (.told level) fun _ => ⟨.told level, fun x => startsTopLevel x = true, 0⟩) := by
  refine .current fun _ _ _ => .ite (fun stops => ?_) fun goes_on => ?_
  · refine .pure ⟨rfl, S.weakens_rfl, ?_, Nat.le_refl _⟩
    rintro _ ⟨-, rfl⟩
    exact stops
  · refine (advance_told fun x known => ?_).next <| .pure ⟨rfl, by simp⟩
    rw [known.2]
    simp only [Bool.or_eq_true, not_or, Bool.not_eq_true] at goes_on
    exact goes_on.1

theorem span_eq_of_exact {a : Span} (exact_ : S.exact) (same : Alike S.view a b) : a = b :=
  (S.exact_view exact_ a).symm.trans (same.trans (S.exact_view exact_ b))

theorem addSkip_sim (starts : Alike S.view start start') (stops : Alike S.view stop stop') :
    Sim S bound ⟨.told level, now, 0⟩ (modify fun s => { s with skips := s.skips.push (start, stop) })
      (modify fun s => { s with skips := s.skips.push (start', stop') }) fun _ => ⟨.told level, now, 0⟩ where
  reads s ends known := by
    have longer : s.skips.toList <+: (s.skips.push (start, stop)).toList := by simp
    exact ⟨⟨.refl _, ends, List.prefix_rfl, Nat.le_refl _, longer, id, rfl⟩,
      fun _ _ => ⟨Nat.le_refl _, known⟩⟩
  meets s t _ _ _ told := by
    refine .inr ⟨rfl, told.1, { told.2 with exact := fun exact_ => ?_ }⟩
    obtain ⟨reports, skips, configs⟩ := told.2.exact exact_
    obtain rfl := span_eq_of_exact exact_ starts
    obtain rfl := span_eq_of_exact exact_ stops
    exact ⟨reports, congrArg (·.push (start, stop)) skips, configs⟩
  drifts s _ _ adrift := .inr ⟨adrift.apart, adrift.level, adrift.spent⟩
  valid _ _ _ valid := .note valid rfl rfl

/-- The report on what is skipped says where the skipping stops. It is no error. -/
theorem warnSkip_sim {other : Span} (starts : Alike S.view start start') (stops : Alike S.view stop other) :
    Sim S bound ⟨.told level, now, 0⟩ (warn .recovery start s!"Error recovery had to skip to {stop.render}")
      (warn .recovery start' s!"Error recovery had to skip to {other.render}") fun _ => ⟨.told level, now, 0⟩ := by
  refine reportAll_sim ⟨?_, fun exact_ => ?_⟩
  · rintro ⟨_, member, error⟩
    obtain rfl := List.mem_singleton.mp member
    cases error
  · obtain rfl := span_eq_of_exact exact_ starts
    obtain rfl := span_eq_of_exact exact_ stops
    rfl

theorem skipToTopLevel_sim (starts : Alike S.view start start') :
    Sim S bound ⟨.told level, now, 0⟩ (skipToTopLevel start) (skipToTopLevel start')
      fun _ => ⟨.told level, fun x => startsTopLevel x = true, 0⟩ := by
  refine leave_sim.next <| (Sim.rounds (fun _ _ _ => skipLineTurn_sim) rfl).next ?_
  refine here_sim.bind fun _ _ stops => (addSkip_sim starts stops).next ?_
  exact warnSkip_sim starts stops

end Skipping

section Files

variable {r r' : Rules}

theorem move_sourceFile (same : Alike f all all')
    (spans : Alike f span span') : Alike f (SourceFile.mk all span) (SourceFile.mk all' span') := by
  show SourceFile.mk (move f all) (move f span) = SourceFile.mk (move f all') (move f span')
  rw [same, spans]

variable (rules : RulesSim K r r') (told : S.mode ≠ .clean)

include rules

/-- Where something stands that is no end of a line or of the file, skipping it reads a token. -/
theorem topLevel?_sim (live : ∀ token, now token → isLive token = true) :
    Sim S K ⟨.inner level, now, 0⟩ (topLevel? r) (topLevel? r') (optional (.told level 1) (.outer level 1)) := by
  have skipped : Sim S K ⟨.inner level, now, 0⟩ (topLevel? r) (topLevel? r')
      (optional ⟨.told level, fun x => startsTopLevel x = true, 0⟩ (.outer level 1)) := by
    refine here_sim.bind fun start start' starts => ?_
    refine (attempt_sim rules.declaration).bind fun result result' same => ?_
    rcases result with error | _ | declaration <;> rcases result' with error' | _ | declaration' <;> simp at same
    · have skips : Sim S K ((Stage.failed level).past 0) (skipDeclaration start error) (skipDeclaration start' error')
          fun _ => ⟨.told level, fun x => startsTopLevel x = true, 0⟩ :=
        (report_failed (toReport_alike same)).next <| skipToTopLevel_sim starts
      exact skips.next (.pure (by simp [*]))
    · refine errorHere_sim.bind fun error error' errors => ?_
      have skips : Sim S K (.inner level 0) (skipDeclaration start error) (skipDeclaration start' error')
          fun _ => ⟨.told level, fun x => startsTopLevel x = true, 0⟩ :=
        (report_told (toReport_alike errors)).next <| skipToTopLevel_sim starts
      exact skips.next (.pure (by simp [*]))
    · exact .pure (by simp [*])
  have progress := skipped.reads.progress fun a => by
    cases a with
    | none =>
      refine .inr fun token known => ?_
      simp [not_startsTopLevel_of_live (live token known)]
    | some declaration => exact .inl rfl
  refine (skipped.sharpen progress fun _ => rfl).last fun a => ?_
  cases a <;> simp

include told

theorem fileTurn_sim (same : Alike S.view done done') : Sim S K (.told 0 0) (fileTurn r done) (fileTurn r' done')
      (turned (.told 0) fun _ => ⟨.told 0, fun x => x.isEnd = true, 0⟩) := by
  have live : ∀ token : Token, dividesFile token.kind = false → token.kind ≠ .endOfFile →
      isLive token = true := by
    intro token inside more
    simp only [dividesFile, Bool.or_eq_false_iff] at inside
    simp [isLive, Token.isEnd, more, inside.1]
  refine (acceptAll_told rfl).bind_plain fun _ => check_sim.branch ?_ ?_
  · refine .pure ⟨by simp [same], S.weakens_rfl, fun token known => ?_, Nat.zero_le _⟩
    simpa [Token.isEnd] using known.2
  · refine Sim.live
      ((topLevel?_sim rules fun token known => live token known.1 known.2).bind fun found found' more => ?_)
      fun token known => live token known.1 known.2
    cases found <;> cases found' <;> simp at more
    · exact .pure ⟨by simp [same], by simp⟩
    · exact .pure ⟨by simp [same, more], Setting.outer_weakens_told told, by simp, by simp⟩

theorem sourceFile_sim :
    Sim S K ⟨.told 0, now, 0⟩ (sourceFile r) (sourceFile r') fun _ =>
      ⟨.told 0, fun x => x.isEnd = true, 0⟩ := by
  refine here_sim.bind fun _ _ starts => ?_
  refine (Sim.rounds (fun _ _ => fileTurn_sim rules told) rfl).bind fun _ _ same =>
    (since_sim starts).bind fun _ _ spans => ?_
  exact .pure ⟨move_sourceFile same spans, by simp⟩

end Files

end DreamMaker.Parsing
