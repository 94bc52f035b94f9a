import DreamMaker.Proofs.Code.Surroundings

namespace DreamMaker

open List

/-- Where a piece of a proc stands: the labels before it, the code in front of it, and the labels behind it. At the
end of the proc the labels are `last`. -/
inductive Stands (mode : Mode) (last : Marks) : Piece → Marks → Listing → Marks → Prop
  | whole : Stands mode last .statements Marks.initial [] last
  | emit {piece m code m' more} : placedLabels more = [] → targetLabels more = [] →
    Stands mode last piece m code m' →
      Stands mode last piece m (code ++ more) m'
  | first {m m₁ m₂ code more t} : Lowers mode .statements m₁ more t m₂ →
    Stands mode last .statements m code m₂ →
      Stands mode last .statements m code m₁
  | second {m m₁ m₂ code more t} : Lowers mode .statements m more t m₁ →
    Stands mode last .statements m code m₂ →
      Stands mode last .statements m₁ (code ++ more) m₂
  | block {m m' code name a} : (m.label? name).any NamedLabel.placed = false →
      Stands mode last .statements m code m'.closeBlock →
      Stands mode last .statements ((m.place name a).openBlock name) (code ++ [(.mark (m.startOf name), a)]) m'
  | skip {m m' code check} : Check ⟨m.count⟩ check → Stands mode last .statements m code m' →
      Stands mode last .statements (m.fresh 1) (code ++ check) m'
  | either {m m₁ m₂ code other stop head link second t} : Fork m.count other stop head link →
      Lowers mode .statements m₁ second t m₂ → Stands mode last .statements m code m₂ →
      Stands mode last .statements (m.fresh 2) (code ++ head) m₁
  | or {m m₁ m₂ code other stop head link first t} : Fork m.count other stop head link →
      Lowers mode .statements (m.fresh 2) first t m₁ → Stands mode last .statements m code m₂ →
      Stands mode last .statements m₁ (code ++ (head ++ first ++ link)) m₂
  | loop {piece m m' code head tail certain a} :
      LoopForm ⟨m.count⟩ ⟨m.count + 1⟩ ⟨m.count + 2⟩ piece head tail certain →
      Stands mode last piece m code m'.closeLoop →
      Stands mode last .statements ((m.fresh 3).openLoop ⟨m.count + 1⟩ ⟨m.count + 2⟩)
        (code ++ (.loopStart ⟨m.count⟩, a) :: head) m'
  | rounds {m code m'} : Stands mode last .statements m code m' → Stands mode last .rounds m code m'
  | default {m m₁ m₂ code value labels tests bodies t₁ t₂ a b} : SwitchTests m.count labels tests →
      Lowers mode (.cases ⟨m.count + labels.length⟩ labels t₁) m₁ bodies t₂ m₂ →
      Stands mode last .statements m code m₂ →
      Stands mode last .statements (m.fresh (labels.length + 1))
        (code ++ (.push value, a) :: (tests ++ [(.pop, b)])) m₁
  | cases {m m₁ m₂ code value labels tests default t a b c} : SwitchTests m.count labels tests →
      Lowers mode .statements (m.fresh (labels.length + 1)) default t m₁ →
      Stands mode last .statements m code m₂ →
      Stands mode last (.cases ⟨m.count + labels.length⟩ labels t) m₁
        (code ++ (.push value, a) :: (tests ++ [(.pop, b)]) ++
          (default ++ [(.jump ⟨m.count + labels.length⟩, c)])) m₂
  | case {m m₁ m₂ code stop label labels known known' rest t a} :
      Lowers mode (.cases stop labels known') m₁ rest t m₂ →
      Stands mode last (.cases stop (label :: labels) known) m code m₂ →
      Stands mode last .statements m (code ++ [(.mark label, a)]) m₁
  | others {m m₁ m₂ code stop label labels known first t a b} : Lowers mode .statements m first t m₁ →
      Stands mode last (.cases stop (label :: labels) known) m code m₂ →
      Stands mode last (.cases stop labels (known.branch t)) m₁
        (code ++ (.mark label, a) :: (first ++ [(.jump stop, b)])) m₂
  | spawn {m m' code a} : Stands mode last .statements m code (m'.attach m) →
      Stands mode last .statements (m.fresh 1).detach (code ++ [(.spawn ⟨m.count⟩, a)]) m'

/-- What is known of the names behind a piece of code is still known at the end of the proc. -/
theorem Stands.later (stands : Stands mode last piece m code m') : m'.Later last := by
  induction stands with
  | whole => exact .refl
  | emit _ _ _ ih | skip _ _ ih | rounds _ ih => exact ih
  | second _ _ ih | or _ _ _ ih | others _ _ ih | cases _ _ _ ih => exact ih
  | first lowers _ ih | either _ lowers _ ih | default _ lowers _ ih | case lowers _ ih =>
    exact lowers.grows.later.trans ih
  | block _ _ ih | loop _ _ ih | spawn _ ih => exact ih

/-- The labels of a piece are in order, and what is noted of the loops and blocks around it is right. -/
def Sited (piece : Piece) (m : Marks) (code : Listing) : Prop :=
  ∃ pending around, (∀ label ∈ piece.exits, label ∈ pending) ∧ Tidy (piece.labels ++ pending) m code ∧
    Around pending around m (code.map Prod.fst)

theorem Sited.emit (sited : Sited piece m code) (places : placedLabels more = [])
    (jumps : targetLabels more = []) : Sited piece m (code ++ more) := by
  obtain ⟨pending, around, exits, tidy, inside⟩ := sited
  refine ⟨pending, around, exits, tidy.emit_inert more places jumps, ?_⟩
  rw [map_append]
  exact inside.emit _

theorem Lowers.sited (lowers : Lowers mode .statements m more t m')
    (sited : Sited .statements m code) : Sited .statements m' (code ++ more) := by
  obtain ⟨pending, around, exits, tidy, inside⟩ := sited
  refine ⟨pending, around, exits, lowers.tidy pending code exits tidy, ?_⟩
  rw [map_append]
  exact lowers.around inside

theorem Stands.sited (stands : Stands mode last piece m code m') : Sited piece m code := by
  induction stands with
  | whole =>
    refine ⟨[], [], nofun, tidy_initial, rfl, nofun, nofun, nofun, nofun⟩
  | emit places jumps _ ih => exact ih.emit places jumps
  | first _ _ ih => exact ih
  | second lowers _ ih => exact lowers.sited ih
  | @block m m' code name a free _ ih =>
    obtain ⟨pending, around, _, tidy, inside⟩ := ih
    refine ⟨⟨(m.place name a).count⟩ :: pending, around, forall_mem_nil _,
      (tidy.place free a).openBlock name, ?_⟩
    simpa using inside.openBlock free a
  | @skip m m' code check form _ ih =>
    obtain ⟨pending, around, _, tidy, inside⟩ := ih
    have handed := tidy.fresh [⟨m.count⟩] 1 (by simp) (by simp)
    refine ⟨⟨m.count⟩ :: pending, around, forall_mem_nil _,
      handed.emit check form.labels.1 (by simp [form.labels.2]), ?_⟩
    rw [map_append]
    exact ((inside.fresh 1).emit _).wait fun _ => mem_cons_of_mem _
  | @either m m₁ m₂ code other stop head link second t fork _ _ ih =>
    obtain ⟨pending, around, _, tidy, inside⟩ := ih
    have handed := tidy.fresh [other, stop] 2 fork.labels.1 fork.labels.2
    refine ⟨other :: stop :: pending, around, forall_mem_nil _, fork.tidy_head handed, ?_⟩
    rw [map_append]
    exact ((inside.fresh 2).emit _).wait fun _ member => .tail _ (.tail _ member)
  | @or m m₁ m₂ code other stop head link first t fork lowers _ ih =>
    obtain ⟨pending, around, _, tidy, inside⟩ := ih
    have handed := tidy.fresh [other, stop] 2 fork.labels.1 fork.labels.2
    have one := lowers.tidy (other :: stop :: pending) _ (forall_mem_nil _) (fork.tidy_head handed)
    have left := (lowers.around ((inside.fresh 2).emit (head.map Prod.fst))).emit (link.map Prod.fst)
    refine ⟨stop :: pending, around, forall_mem_nil _, by simpa [Piece.labels] using fork.tidy_link one, ?_⟩
    simpa using left.wait fun _ => mem_cons_of_mem _
  | @loop piece m m' code head _ _ a form _ ih =>
    obtain ⟨pending, around, _, tidy, inside⟩ := ih
    obtain ⟨waiting, rounds, opened⟩ := form.tidy_head tidy a
    have waits : Around (waiting ++ pending) around (m.fresh 3) (code.map Prod.fst) :=
      (inside.fresh 3).wait fun _ => mem_append_right _
    have entered := (waits.openLoop (mem_append_left _ rounds.ends)).emit (head.map Prod.fst)
    exact ⟨waiting ++ pending, m.count :: around, forall_mem_nil _,
      by simpa [Piece.labels] using opened, by simpa using entered⟩
  | rounds _ ih => exact ih
  | @default m m₁ m₂ code value labels tests _ _ _ a b form _ _ ih =>
    obtain ⟨pending, around, _, tidy, inside⟩ := ih
    refine ⟨labels ++ ⟨m.count + labels.length⟩ :: pending, around, forall_mem_nil _,
      form.tidy tidy value a b, ?_⟩
    rw [map_append]
    exact ((inside.fresh (labels.length + 1)).emit _).wait fun _ member => mem_append_right _ (.tail _ member)
  | @cases m m₁ m₂ code value labels tests default t a b c form lowers _ ih =>
    obtain ⟨pending, around, _, tidy, inside⟩ := ih
    have first := lowers.tidy _ _ (forall_mem_nil _) (form.tidy tidy value a b)
    have jumped := first.jump (mem_append_right _ (mem_append_right _ (.head _))) c
    have tested := (inside.fresh (labels.length + 1)).emit (.push value :: (tests.map Prod.fst ++ [.pop]))
    have left := (lowers.around tested).emit [.jump ⟨m.count + labels.length⟩]
    refine ⟨⟨m.count + labels.length⟩ :: pending, around, by simp [Piece.exits],
      by simpa [Piece.labels] using jumped, ?_⟩
    simpa using left.wait fun _ => mem_cons_of_mem _
  | @case m m₁ m₂ code stop label labels known _ _ t a _ _ ih =>
    obtain ⟨pending, around, _, tidy, inside⟩ := ih
    refine ⟨labels ++ pending, around, forall_mem_nil _, tidy.put (.mark label) a rfl rfl, ?_⟩
    rw [map_append]
    exact (inside.emit _).wait fun _ => mem_append_right _
  | @others m m₁ m₂ code stop label labels known first t a b lowers _ ih =>
    obtain ⟨pending, around, exits, tidy, inside⟩ := ih
    have one := lowers.tidy (labels ++ pending) _ (forall_mem_nil _) (tidy.put (.mark label) a rfl rfl)
    have jumped := one.jump (mem_append_right _ (mem_append_right _ (exits stop (.head _)))) b
    have left := (lowers.around (inside.emit [.mark label])).emit [.jump stop]
    exact ⟨pending, around, exits, by simpa [Piece.labels] using jumped, by simpa using left⟩
  | @spawn m m' code a _ ih =>
    obtain ⟨pending, around, _, tidy, inside⟩ := ih
    have handed := tidy.fresh [⟨m.count⟩] 1 (by simp) (by simp)
    have begun := handed.emit [(.spawn ⟨m.count⟩, a)] rfl (by simp [targetLabels, Op.target?])
    refine ⟨⟨m.count⟩ :: pending, [], forall_mem_nil _, Settles.around begun (forall_mem_nil _), ?_⟩
    rw [map_append]
    exact ((inside.fresh 1).detach.emit _).wait fun _ => mem_cons_of_mem _

end DreamMaker
