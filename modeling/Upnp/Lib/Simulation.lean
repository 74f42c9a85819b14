/-
  Simulations: what one machine does is done by another one.

  A `Simulation` matches a step of the upper machine by a run of the lower one, of any
  length, from related states to related states.  `E` says what the actions and events of
  the upper machine have to do with those of the lower one.

  * `Simulation.run`: so every run of the upper machine is matched by a run of the lower
    one, and what holds after every run of the lower machine can be used of the upper;
  * `Bisimulation.run_iff`: two machines that take the same actions in related states,
    with the same events, have the same runs.
-/
import Upnp.Lib.Machine

namespace Lib

universe u v w

namespace Machine

variable {σ τ : Type u} {α β : Type v} {ε δ : Type w}

/-- `N` does what `M` does, between states that `R` relates. -/
structure Simulation (M : Machine σ α ε) (N : Machine τ β δ) (R : σ → τ → Prop)
    (E : List α → List ε → List β → List δ → Prop) : Prop where
  init : R M.init N.init
  nil : E [] [] [] []
  append : ∀ {as as' es es' bs bs' ds ds'}, E as es bs ds → E as' es' bs' ds' →
    E (as ++ as') (es ++ es') (bs ++ bs') (ds ++ ds')
  step : ∀ {s t a s' es}, R s t → M.step s a = some (s', es) →
    ∃ bs ds t', N.RunFrom t bs ds t' ∧ R s' t' ∧ E [a] es bs ds

variable {M : Machine σ α ε} {N : Machine τ β δ} {R : σ → τ → Prop}
  {E : List α → List ε → List β → List δ → Prop} {as : List α} {es : List ε} {s : σ}

/-- **Every run is matched by a run of the lower machine.** -/
theorem Simulation.run (h : Simulation M N R E) (hr : M.Run as es s) :
    ∃ bs ds t, N.Run bs ds t ∧ R s t ∧ E as es bs ds := by
  refine hr.invariant (P := fun as es s => ∃ bs ds t, N.Run bs ds t ∧ R s t ∧ E as es bs ds)
    ⟨[], [], N.init, rfl, h.init, h.nil⟩ ?_
  rintro as es s₁ a s₂ es' - ⟨bs, ds, t, hrun, hrel, he⟩ hs
  obtain ⟨bs', ds', t', hrun', hrel', he'⟩ := h.step hrel hs
  exact ⟨bs ++ bs', ds ++ ds', t', hrun.append hrun', hrel',
    h.append he he'⟩

section
variable {σ τ : Type u} {α : Type v} {ε : Type w}

/-- In related states the same actions are possible, with the same events. -/
structure Bisimulation (M : Machine σ α ε) (N : Machine τ α ε) (R : σ → τ → Prop) : Prop where
  init : R M.init N.init
  step : ∀ {s t}, R s t → ∀ a,
    Option.Rel (fun r r' => R r.1 r'.1 ∧ r.2 = r'.2) (M.step s a) (N.step t a)

variable {M : Machine σ α ε} {N : Machine τ α ε} {R : σ → τ → Prop} {as : List α} {es : List ε}

theorem Bisimulation.symm (h : Bisimulation M N R) : Bisimulation N M fun t s => R s t where
  init := h.init
  step {t s} hr a := by
    have hstep := h.step hr a
    generalize M.step s a = x at hstep ⊢
    generalize N.step t a = y at hstep ⊢
    cases hstep with
    | some hr => exact .some ⟨hr.1, hr.2.symm⟩
    | none => exact .none

theorem Bisimulation.run {s : σ} (h : Bisimulation M N R) (hr : M.Run as es s) :
    ∃ t, N.Run as es t ∧ R s t := by
  refine hr.invariant (P := fun as es s => ∃ t, N.Run as es t ∧ R s t) ⟨N.init, rfl, h.init⟩ ?_
  rintro as es s₁ a s₂ es' - ⟨t, hrun, hrel⟩ hs
  have hstep := h.step hrel a
  rw [hs] at hstep
  generalize ht : N.step t a = y at hstep
  cases hstep with
  | @some _ r hr =>
    obtain ⟨hr, rfl⟩ := hr
    exact ⟨r.1, hrun.snoc ht, hr⟩

/-- **The same runs are possible.** -/
theorem Bisimulation.run_iff (h : Bisimulation M N R) :
    (∃ s, M.Run as es s) ↔ ∃ t, N.Run as es t := by
  constructor
  · rintro ⟨s, hs⟩
    exact (h.run hs).imp fun _ ht => ht.1
  · rintro ⟨t, ht⟩
    exact (h.symm.run ht).imp fun _ hs => hs.1

end

end Machine

end Lib
