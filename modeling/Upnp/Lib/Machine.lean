/-
  Machines that take actions one after the other and report events.

  A `Machine` has a partial step function: `step s a` is `none` where the action
  `a` is not possible in the state `s`.  A `Run` takes a list of actions and
  collects their events in order; it is computed by `runFrom`, so a concrete
  run is checked by evaluation.

  * `Run.invariant`: what holds at the start and is kept by each step, as the
    actions and the events grow at their ends, holds after every run;
  * `Meets C`: every step of a run meets `C`, a condition on the action and the
    state before it (`meets_append`);
  * `RunFrom.meets_iff`: where the steps that meet `C` report nothing bad and keep
    an invariant, and the others report something bad, the runs that meet `C` are
    those that report nothing bad;
  * `Steps R`: `R` allows every step of a run (`RunFrom.steps_iff_meets`);
  * `RunFrom.countdown`: a number that certain actions decrease by one, and all
    others leave alone, counts how many of them are still to come
    (`RunFrom.countdown_le` for a number that the others do not increase).
-/
import Mathlib.Data.List.Induction

namespace Lib

universe u v w

/-- A state to begin in, and what an action makes of a state. -/
structure Machine (σ : Type u) (α : Type v) (ε : Type w) where
  init : σ
  step : σ → α → Option (σ × List ε)

namespace Machine

variable {σ : Type u} {α : Type v} {ε : Type w} (M : Machine σ α ε)

/-- Take the actions in turn: the last state, and all events. -/
def runFrom (s : σ) : List α → Option (σ × List ε)
  | [] => some (s, [])
  | a :: as =>
    (M.step s a).bind fun r => (runFrom r.1 as).map fun r' => (r'.1, r.2 ++ r'.2)

/-- A run from the state `s`, with its actions and its events. -/
def RunFrom (s : σ) (as : List α) (es : List ε) (s' : σ) : Prop :=
  M.runFrom s as = some (s', es)

/-- A run from the initial state. -/
def Run (as : List α) (es : List ε) (s : σ) : Prop := M.RunFrom M.init as es s

instance [DecidableEq σ] [DecidableEq ε] (as : List α) (es : List ε) (s : σ) :
    Decidable (M.Run as es s) :=
  inferInstanceAs (Decidable (M.runFrom M.init as = some (s, es)))

variable {M} {s s' t : σ} {a : α} {as bs : List α} {es es' : List ε}

theorem runFrom_nil : M.RunFrom s [] es s' ↔ s' = s ∧ es = [] := by
  simp only [RunFrom, runFrom, Option.some.injEq, Prod.mk.injEq]
  exact and_congr eq_comm eq_comm

theorem runFrom_cons : M.RunFrom s (a :: as) es s' ↔
    ∃ s₁ es₁ es₂, M.step s a = some (s₁, es₁) ∧ M.RunFrom s₁ as es₂ s' ∧ es = es₁ ++ es₂ := by
  simp only [RunFrom, runFrom, Option.bind_eq_some_iff, Option.map_eq_some_iff, Prod.exists,
    Prod.mk.injEq]
  constructor
  · rintro ⟨s₁, es₁, h, s₂, es₂, h', rfl, rfl⟩
    exact ⟨s₁, es₁, es₂, h, h', rfl⟩
  · rintro ⟨s₁, es₁, es₂, h, h', rfl⟩
    exact ⟨s₁, es₁, h, s', es₂, h', rfl, rfl⟩

theorem runFrom_append : M.RunFrom s (as ++ bs) es s' ↔
    ∃ s₁ es₁ es₂, M.RunFrom s as es₁ s₁ ∧ M.RunFrom s₁ bs es₂ s' ∧ es = es₁ ++ es₂ := by
  induction as generalizing s es with
  | nil =>
    constructor
    · exact fun h => ⟨s, [], es, rfl, h, rfl⟩
    · rintro ⟨s₁, es₁, es₂, h, h', rfl⟩
      obtain ⟨rfl, rfl⟩ := runFrom_nil.1 h
      exact h'
  | cons a as ih =>
    simp only [List.cons_append, runFrom_cons, ih]
    constructor
    · rintro ⟨s₁, es₁, -, h, ⟨s₂, es₂, es₃, h₂, h₃, rfl⟩, rfl⟩
      exact ⟨s₂, es₁ ++ es₂, es₃, ⟨s₁, es₁, es₂, h, h₂, rfl⟩, h₃, by simp⟩
    · rintro ⟨s₂, -, es₃, ⟨s₁, es₁, es₂, h, h₂, rfl⟩, h₃, rfl⟩
      exact ⟨s₁, es₁, es₂ ++ es₃, h, ⟨s₂, es₂, es₃, h₂, h₃, rfl⟩, by simp⟩

theorem runFrom_snoc : M.RunFrom s (as ++ [a]) es s' ↔
    ∃ s₁ es₁ es₂, M.RunFrom s as es₁ s₁ ∧ M.step s₁ a = some (s', es₂) ∧ es = es₁ ++ es₂ := by
  have hone : ∀ s₁ es₂, M.RunFrom s₁ [a] es₂ s' ↔ M.step s₁ a = some (s', es₂) := by
    intro s₁ es₂
    rw [runFrom_cons]
    constructor
    · rintro ⟨s₂, es₁, es₃, h, h', rfl⟩
      obtain ⟨rfl, rfl⟩ := runFrom_nil.1 h'
      simpa using h
    · exact fun h => ⟨s', es₂, [], h, rfl, by simp⟩
  simp only [runFrom_append, hone]

theorem RunFrom.cons (hstep : M.step s a = some (t, es)) (h : M.RunFrom t as es' s') :
    M.RunFrom s (a :: as) (es ++ es') s' :=
  runFrom_cons.2 ⟨t, es, es', hstep, h, rfl⟩

theorem RunFrom.append (h : M.RunFrom s as es t) (h' : M.RunFrom t bs es' s') :
    M.RunFrom s (as ++ bs) (es ++ es') s' :=
  runFrom_append.2 ⟨t, es, es', h, h', rfl⟩

theorem RunFrom.snoc (h : M.RunFrom s as es t) (hstep : M.step t a = some (s', es')) :
    M.RunFrom s (as ++ [a]) (es ++ es') s' :=
  runFrom_snoc.2 ⟨t, es, es', h, hstep, rfl⟩

/-- **The invariant rule.**  What holds at the start and is kept by every step
    holds after every run. -/
theorem RunFrom.invariant {P : List α → List ε → σ → Prop} (h : M.RunFrom s as es s')
    (start : P [] [] s)
    (step : ∀ {as es s₁ a s₂ es'}, M.RunFrom s as es s₁ → P as es s₁ →
      M.step s₁ a = some (s₂, es') → P (as ++ [a]) (es ++ es') s₂) : P as es s' := by
  induction as using List.reverseRecOn generalizing es s' with
  | nil => obtain ⟨rfl, rfl⟩ := runFrom_nil.1 h; exact start
  | append_singleton as a ih =>
    obtain ⟨s₁, es₁, es₂, h₁, h₂, rfl⟩ := runFrom_snoc.1 h
    exact step h₁ (ih h₁) h₂

/-! ## Conditions on every step -/

variable (M) in
/-- Every step of the run taking `as` meets `C` in the state before it. -/
def Meets (C : σ → α → Prop) (s : σ) : List α → Prop
  | [] => True
  | a :: as => C s a ∧ ∀ r, M.step s a = some r → Meets C r.1 as

variable {C : σ → α → Prop}

theorem Meets.cons {r : σ × List ε} (h : M.step s a = some r) (hc : C s a)
    (hm : M.Meets C r.1 as) : M.Meets C s (a :: as) := by
  refine ⟨hc, fun r' hr' => ?_⟩
  rwa [← Option.some.inj (h.symm.trans hr')]

theorem meets_append (h : M.RunFrom s as es s') :
    M.Meets C s (as ++ bs) ↔ M.Meets C s as ∧ M.Meets C s' bs := by
  induction as generalizing s es with
  | nil => obtain ⟨rfl, -⟩ := runFrom_nil.1 h; simp [Meets]
  | cons a as ih =>
    obtain ⟨s₁, es₁, es₂, h₁, h₂, rfl⟩ := runFrom_cons.1 h
    simp only [List.cons_append, Meets, h₁, Option.some.injEq, forall_eq', ih h₂, and_assoc]

theorem meets_snoc (h : M.RunFrom s as es s') :
    M.Meets C s (as ++ [a]) ↔ M.Meets C s as ∧ C s' a := by
  rw [meets_append h]; simp [Meets]

/-- **The runs whose steps all meet `C` are those that report nothing bad**, and
    what a step that meets `C` keeps holds after them. -/
theorem RunFrom.meets_iff {P : List α → List ε → σ → Prop} {G : ε → Prop}
    (h : M.RunFrom s as es s') (start : P [] [] s)
    (keep : ∀ {as es s₁ a s₂ es'}, P as es s₁ → C s₁ a → M.step s₁ a = some (s₂, es') →
      P (as ++ [a]) (es ++ es') s₂ ∧ ∀ e ∈ es', G e)
    (fail : ∀ {as es s₁ a s₂ es'}, P as es s₁ → ¬ C s₁ a → M.step s₁ a = some (s₂, es') →
      ∃ e ∈ es', ¬ G e) :
    (M.Meets C s as ↔ ∀ e ∈ es, G e) ∧ (M.Meets C s as → P as es s') := by
  refine h.invariant (P := fun as es s' => (M.Meets C s as ↔ ∀ e ∈ es, G e) ∧
    (M.Meets C s as → P as es s')) ⟨iff_of_true trivial nofun, fun _ => start⟩ ?_
  rintro as es s₁ a s₂ es' hrun ⟨hiff, hp⟩ hstep
  rw [meets_snoc hrun]
  by_cases hm : M.Meets C s as
  · by_cases hc : C s₁ a
    · obtain ⟨hp', hg⟩ := keep (hp hm) hc hstep
      refine ⟨iff_of_true ⟨hm, hc⟩ ?_, fun _ => hp'⟩
      intro e he
      exact (List.mem_append.1 he).elim (hiff.1 hm e) (hg e)
    · obtain ⟨e, he, hg⟩ := fail (hp hm) hc hstep
      exact ⟨iff_of_false (fun h => hc h.2) fun h => hg (h e (List.mem_append_right _ he)),
        fun h => absurd h.2 hc⟩
  · refine ⟨iff_of_false (fun h => hm h.1) fun h => hm (hiff.2 ?_), fun h => absurd h.1 hm⟩
    intro e he
    exact h e (List.mem_append_left _ he)

variable (M) in
/-- Every step of the run taking `as` is one that `R` allows. -/
def Steps (R : σ → α → σ × List ε → Prop) (s : σ) : List α → Prop
  | [] => True
  | a :: as => ∀ r, M.step s a = some r → R s a r ∧ Steps R r.1 as

/-- **Where the steps that `R` allows are those that meet `C`**, and keep an
    invariant, **so are the runs.** -/
theorem RunFrom.steps_iff_meets {I : σ → Prop} {R : σ → α → σ × List ε → Prop}
    (h : M.RunFrom s as es s') (start : I s)
    (allowed : ∀ {s a r}, I s → M.step s a = some r → (R s a r ↔ C s a))
    (keep : ∀ {s a r}, I s → C s a → M.step s a = some r → I r.1) :
    (M.Steps R s as ↔ M.Meets C s as) ∧ (M.Meets C s as → I s') := by
  induction as generalizing s es with
  | nil =>
    obtain ⟨rfl, -⟩ := runFrom_nil.1 h
    exact ⟨Iff.rfl, fun _ => start⟩
  | cons a as ih =>
    obtain ⟨s₁, es₁, es₂, h₁, h₂, -⟩ := runFrom_cons.1 h
    simp only [Steps, Meets, h₁, Option.some.injEq, forall_eq', allowed start h₁]
    by_cases hc : C s a
    · obtain ⟨hiff, hi⟩ := ih h₂ (keep start hc h₁)
      exact ⟨and_congr_right fun _ => hiff, fun hm => hi hm.2⟩
    · exact ⟨iff_of_false (fun h => hc h.1) fun h => hc h.1, fun h => absurd h.1 hc⟩

/-! ## Counting down -/

/-- **A number that every `act` decreases by one, and every other action leaves
    alone, counts the `act`s still to come.**  `I` is an invariant of the states
    the run passes through. -/
theorem RunFrom.countdown {I : σ → Prop} {f : σ → ℕ} {act : α → Bool}
    (h : M.RunFrom s as es s') (start : I s)
    (keep : ∀ {s a s' es}, I s → M.step s a = some (s', es) → I s')
    (down : ∀ {s a s' es}, I s → M.step s a = some (s', es) →
      f s' + (if act a then 1 else 0) = f s) :
    I s' ∧ f s' + as.countP act = f s := by
  refine h.invariant (P := fun as _ s' => I s' ∧ f s' + as.countP act = f s) ⟨start, by simp⟩ ?_
  rintro as es s₁ a s₂ es' - ⟨hI, hf⟩ hs
  refine ⟨keep hI hs, ?_⟩
  have := down hI hs
  rw [List.countP_append, List.countP_singleton]
  omega

/-- **A number that every `act` decreases, and no other action increases, bounds how
    many of them there can be.** -/
theorem RunFrom.countdown_le {I : σ → Prop} {f : σ → ℕ} {act : α → Bool}
    (h : M.RunFrom s as es s') (start : I s)
    (keep : ∀ {s a s' es}, I s → M.step s a = some (s', es) → I s')
    (down : ∀ {s a s' es}, I s → M.step s a = some (s', es) →
      f s' + (if act a then 1 else 0) ≤ f s) :
    I s' ∧ f s' + as.countP act ≤ f s := by
  refine h.invariant (P := fun as _ s' => I s' ∧ f s' + as.countP act ≤ f s) ⟨start, by simp⟩ ?_
  rintro as es s₁ a s₂ es' - ⟨hI, hf⟩ hs
  refine ⟨keep hI hs, ?_⟩
  have := down hI hs
  rw [List.countP_append, List.countP_singleton]
  omega

end Machine

end Lib
