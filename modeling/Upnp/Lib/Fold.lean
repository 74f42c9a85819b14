/-
  Loops that may fail, as `List.foldlM` over `Except`.

  * `foldlM_spec`: what each round of a loop establishes, from the elements it
    has seen, the loop establishes for the whole list, and it does not fail;
  * `foldlM_collect`: a loop whose rounds each add something to a list.
-/
import Mathlib.Data.List.Induction

namespace Lib

universe u v w
variable {ε : Type u} {α : Type v} {σ : Type u} {β : Type w}

/-- **No round fails and each keeps the invariant, so the loop does.** -/
theorem foldlM_spec {f : σ → α → Except ε σ} {P : List α → σ → Prop}
    (hf : ∀ l a s, P l s → ∃ s', f s a = .ok s' ∧ P (l ++ [a]) s') (l : List α) {s : σ}
    (h : P [] s) : ∃ s', l.foldlM f s = .ok s' ∧ P l s' := by
  induction l using List.reverseRecOn with
  | nil => exact ⟨s, rfl, h⟩
  | append_singleton l a ih =>
    obtain ⟨s₁, h₁, hP⟩ := ih
    obtain ⟨s₂, h₂, hP'⟩ := hf l a s₁ hP
    refine ⟨s₂, ?_, hP'⟩
    rw [List.foldlM_append, h₁]
    exact (bind_pure _).trans h₂

/-- **What the rounds add to `m`, the loop adds in order.** -/
theorem foldlM_collect {f : σ → α → Except ε σ} {m : σ → List β} {g : α → List β}
    (hf : ∀ s a, ∃ s', f s a = .ok s' ∧ m s' = m s ++ g a) (l : List α) (s : σ) :
    ∃ s', l.foldlM f s = .ok s' ∧ m s' = m s ++ l.flatMap g := by
  refine foldlM_spec (P := fun l s' => m s' = m s ++ l.flatMap g) ?_ l (by simp)
  intro l a s₁ h
  obtain ⟨s₂, h₂, hm⟩ := hf s₁ a
  exact ⟨s₂, h₂, by rw [hm, h, List.flatMap_append, List.flatMap_singleton, List.append_assoc]⟩

/-- A filter in front of a `flatMap`, as a test inside. -/
theorem flatMap_filter (p : α → Prop) [DecidablePred p] (f : α → List β) (l : List α) :
    (l.filter p).flatMap f = l.flatMap fun a => if p a then f a else [] := by
  induction l with
  | nil => rfl
  | cons a l ih =>
    rw [List.flatMap_cons, ← ih]
    by_cases h : p a <;> simp [h]

end Lib
