namespace DreamMaker.Run

variable {x : ExceptT ε (StateM σ) α}

theorem state_bind (x : StateM σ α) (f : α → StateM σ β) : (x >>= f) s = f (x s).1 (x s).2 := rfl

theorem state_get_bind (f : σ → StateM σ β) : (get >>= f) s = f s s := rfl

theorem modifyGet_eq (f : σ → α × σ) : (modifyGet f : StateM σ α) s = f s := rfl

/-- Of two steps the second is run only if the first does not fail. -/
theorem bind_eq (x : ExceptT ε (StateM σ) α) (f : α → ExceptT ε (StateM σ) β) (s : σ) :
    (x >>= f) s = match x s with
      | (.ok a, s') => f a s'
      | (.error error, s') => (.error error, s') := by
  show (match x s with | (result, s') => ExceptT.bindCont f result s') = _
  rcases x s with ⟨_ | a, s'⟩ <;> rfl

theorem map_eq (f : α → β) (x : ExceptT ε (StateM σ) α) :
    (f <$> x) s = match x s with
      | (.ok a, s') => (.ok (f a), s')
      | (.error error, s') => (.error error, s') := by
  rw [map_eq_pure_bind, bind_eq]
  rfl

theorem bind_of_ok (run : x s = (.ok a, s')) : (x >>= f) s = f a s' := by
  rw [bind_eq, run]

theorem bind_of_error (run : x s = (.error error, s')) : (x >>= f) s = (.error error, s') := by
  rw [bind_eq, run]

theorem error_of_bind (run : (x >>= f) s = (.error error, s')) :
    x s = (.error error, s') ∨ ∃ a middle, x s = (.ok a, middle) ∧ f a middle = (.error error, s') := by
  rw [bind_eq] at run
  rcases first : x s with ⟨_ | a, middle⟩ <;> rw [first] at run
  · cases run
    exact .inl rfl
  · exact .inr ⟨a, middle, rfl, run⟩

/-- What two steps do to the state, they do one after the other, if such changes go together. -/
theorem bind_rel {f : α → ExceptT ε (StateM σ) β} {R : σ → σ → Prop}
    (trans : ∀ {a b c}, R a b → R b c → R a c)
    (first : ∀ s, R s (x s).2) (second : ∀ a s, R s (f a s).2) (s : σ) : R s ((x >>= f) s).2 := by
  have one := first s
  rw [bind_eq]
  rcases run : x s with ⟨error | a, s'⟩ <;> rw [run] at one
  · exact one
  · exact trans one (second a s')

theorem bind_cause {f : α → ExceptT ε (StateM σ) β} {P : ε → Prop}
    (first : ∀ s error, (x s).1 = .error error → P error)
    (second : ∀ a s error, (f a s).1 = .error error → P error) (s : σ) (error : ε)
    (failed : ((x >>= f) s).1 = .error error) : P error := by
  obtain alone | ⟨a, middle, _, behind⟩ := error_of_bind (Prod.ext failed rfl)
  · exact first s error (by rw [alone])
  · exact second a middle error (by rw [behind])

theorem tryCatch_eq (x : ExceptT ε (StateM σ) α) (handler : ε → ExceptT ε (StateM σ) α) :
    (tryCatch x handler : ExceptT ε (StateM σ) α) s = match x s with
      | (.ok a, s') => (.ok a, s')
      | (.error error, s') => handler error s' := by
  show (match (x s).1 with
    | .ok a => pure (.ok a)
    | .error error => (handler error).run : StateM σ (Except ε α)) (x s).2 = _
  rcases x s with ⟨_ | a, s'⟩ <;> rfl

@[simp] theorem pure_eq (a : α) (s : σ) : (pure a : ExceptT ε (StateM σ) α) s = (.ok a, s) := rfl

@[simp] theorem throw_eq (error : ε) (s : σ) : (throw error : ExceptT ε (StateM σ) α) s = (.error error, s) := rfl

/-- A step that cannot fail comes before one that may. -/
theorem lift_bind (x : StateM σ α) (f : α → ExceptT ε (StateM σ) β) :
    ((liftM x : ExceptT ε (StateM σ) α) >>= f) s = f (x s).1 (x s).2 := rfl

theorem get_bind (f : σ → ExceptT ε (StateM σ) β) (s : σ) : (get >>= f) s = f s s := rfl

end DreamMaker.Run
