import DemandPaging.Machine

namespace DemandPaging

variable {α β : Type} {m m' : Machine}

theorem bind_ok {x : KernelM α} {f : α → KernelM β} {b : β} :
    (x >>= f) m = .ok b m' ↔ ∃ a m₁, x m = .ok a m₁ ∧ f a m₁ = .ok b m' := by
  change EStateM.bind x f m = .ok b m' ↔ _
  unfold EStateM.bind
  cases h : x m with
  | ok a m₁ =>
      constructor
      · intro hf
        exact ⟨a, m₁, rfl, hf⟩
      · rintro ⟨a', m₂, hx, hf⟩
        cases hx
        exact hf
  | error e m₁ =>
      constructor
      · intro hf
        cases hf
      · rintro ⟨a', m₂, hx, _⟩
        cases hx

theorem pure_ok {a b : α} : (pure a : KernelM α) m = .ok b m' ↔ a = b ∧ m = m' := by
  constructor
  · intro h
    cases h
    exact ⟨rfl, rfl⟩
  · rintro ⟨rfl, rfl⟩
    rfl

theorem bind_pure_ok {x : KernelM α} {f : α → β} {b : β} :
    (x >>= fun a => pure (f a)) m = .ok b m' ↔ ∃ a, x m = .ok a m' ∧ f a = b := by
  constructor
  · intro h
    obtain ⟨a, m₁, hx, h⟩ := bind_ok.1 h
    obtain ⟨rfl, rfl⟩ := pure_ok.1 h
    exact ⟨a, hx, rfl⟩
  · rintro ⟨a, hx, rfl⟩
    exact bind_ok.2 ⟨a, m', hx, rfl⟩

theorem get_ok {s : Machine} : (get : KernelM Machine) m = .ok s m' ↔ m = s ∧ m = m' := by
  constructor
  · intro h
    cases h
    exact ⟨rfl, rfl⟩
  · rintro ⟨rfl, rfl⟩
    rfl

theorem bind_get_ok {f : Machine → KernelM β} {b : β} :
    (get >>= f) m = .ok b m' ↔ f m m = .ok b m' := by
  constructor
  · intro h
    obtain ⟨s, m₁, hget, h⟩ := bind_ok.1 h
    obtain ⟨rfl, rfl⟩ := get_ok.1 hget
    exact h
  · intro h
    exact bind_ok.2 ⟨m, m, get_ok.2 ⟨rfl, rfl⟩, h⟩

theorem set_ok {s : Machine} {u : PUnit} : (set s : KernelM PUnit) m = .ok u m' ↔ s = m' := by
  constructor
  · intro h
    cases h
    rfl
  · rintro rfl
    rfl

theorem modify_ok {f : Machine → Machine} {u : PUnit} :
    (modify f : KernelM PUnit) m = .ok u m' ↔ f m = m' := by
  constructor
  · intro h
    cases h
    rfl
  · rintro rfl
    rfl

theorem modifyGet_ok {f : Machine → α × Machine} {a : α} :
    (modifyGet f : KernelM α) m = .ok a m' ↔ f m = (a, m') := by
  change EStateM.modifyGet f m = _ ↔ _
  unfold EStateM.modifyGet
  constructor
  · intro h
    cases hf : f m with
    | mk b m₁ =>
        rw [hf] at h
        cases h
        rfl
  · intro h
    rw [h]

theorem throw_ok {e : Panic} {a : α} : (throw e : KernelM α) m = .ok a m' ↔ False := by
  constructor
  · intro h
    cases h
  · exact False.elim

theorem ofExcept_ok {x : Except Panic α} {a : α} :
    (ofExcept x) m = .ok a m' ↔ x = .ok a ∧ m = m' := by
  cases x with
  | ok b => simp only [ofExcept, pure_ok, Except.ok.injEq]
  | error e => simp only [ofExcept, throw_ok, reduceCtorEq, false_and]

theorem emit_ok {event : Event} {u : Unit} :
    emit event m = .ok u m' ↔ { m with console := event :: m.console } = m' :=
  modify_ok

end DemandPaging
