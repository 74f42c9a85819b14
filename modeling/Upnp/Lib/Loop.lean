/-
  Loops that end, each round of which goes on with a new state or ends the loop
  with a value.

  * `rounds`: up to so many rounds of a loop;
  * `rounds_eq`: a loop in which a number goes down from round to round ends, with
    the value that its rounds do not change (`eq_of_rounds` whenever it ends);
  * `rounds_eq_none`: a loop that always goes on does not end.
-/
import Mathlib.Data.Nat.Notation

namespace Lib

universe u v
variable {σ : Type u} {ρ : Type v}

/-- Up to `n` rounds from the state `s`: the value that the loop ends with, if it
    does so within them. -/
def rounds (round : σ → σ ⊕ ρ) : ℕ → σ → Option ρ
  | 0, _ => none
  | n + 1, s =>
    match round s with
    | .inl s' => rounds round n s'
    | .inr r => some r

/-- A round comes closer to the value `g` of its state: it ends with this value, or
    keeps `I` and the value and makes `f` smaller. -/
def Nears (I : σ → Prop) (f : σ → ℕ) (g : σ → ρ) (s : σ) : σ ⊕ ρ → Prop
  | .inl s' => I s' ∧ f s' < f s ∧ g s = g s'
  | .inr r => g s = r

variable {round : σ → σ ⊕ ρ} {I : σ → Prop} {f : σ → ℕ} {g : σ → ρ}

/-- **A loop whose rounds all come closer to the value of their state ends with it**,
    within as many rounds as `f` allows. -/
theorem rounds_eq (h : ∀ s, I s → Nears I f g s (round s)) {n : ℕ} {s : σ} (hI : I s)
    (hn : f s < n) : rounds round n s = some (g s) := by
  induction n generalizing s with
  | zero => exact absurd hn (Nat.not_lt_zero _)
  | succ n ih =>
    have hs := h s hI
    rcases hr : round s with s' | r
    · rw [hr] at hs
      obtain ⟨hI', hlt, hg⟩ := hs
      simp only [rounds, hr, hg]
      exact ih hI' (by omega)
    · rw [hr] at hs
      simp only [rounds, hr, Option.some.injEq]
      exact hs.symm

/-- A loop that ends, ends with the value of its state. -/
theorem eq_of_rounds (h : ∀ s, I s → Nears I f g s (round s)) {n : ℕ} {s : σ} (hI : I s) {r : ρ}
    (hr : rounds round n s = some r) : r = g s := by
  induction n generalizing s with
  | zero => cases hr
  | succ n ih =>
    have hs := h s hI
    simp only [rounds] at hr
    split at hr
    · rename_i s' hround
      rw [hround] at hs
      exact (ih hs.1 hr).trans hs.2.2.symm
    · rename_i r' hround
      rw [hround] at hs
      cases hr
      exact hs.symm

/-- A loop whose rounds all go on does not end. -/
theorem rounds_eq_none (h : ∀ s, ∃ s', round s = .inl s') (n : ℕ) (s : σ) :
    rounds round n s = none := by
  induction n generalizing s with
  | zero => rfl
  | succ n ih =>
    obtain ⟨s', hs⟩ := h s
    simp only [rounds, hs]
    exact ih s'

end Lib
