/-
  Searching a list for the first suffix with a property, and cutting it at the
  first occurrence of a token.

  * `firstSuffix p s`: what stands before the first non-empty suffix of `s`
    satisfying `p`, and that suffix (`firstSuffix_eq_some`,
    `firstSuffix_eq_none`);
  * `cut tok s`: what stands before and after the first occurrence of `tok` in
    `s` (`cut_eq_some`, `cut_eq_none`), with `cut_singleton_eq_some` for a
    one-element token.
-/
import Mathlib.Data.List.Infix

namespace Lib

universe u
variable {α : Type u}

/-- What stands before the first non-empty suffix satisfying `p`, and that suffix. -/
def firstSuffix (p : List α → Bool) : List α → Option (List α × List α)
  | [] => none
  | a :: s => if p (a :: s) then some ([], a :: s)
      else (firstSuffix p s).map fun r => (a :: r.1, r.2)

variable {p : List α → Bool}

theorem firstSuffix_eq_none {s : List α} :
    firstSuffix p s = none ↔ ∀ x y, s = x ++ y → y ≠ [] → p y = false := by
  induction s with
  | nil =>
    simp only [firstSuffix, true_iff]
    intro x y h hy
    exact absurd (List.append_eq_nil_iff.1 h.symm).2 hy
  | cons a s ih =>
    constructor
    · intro h x y hs hy
      simp only [firstSuffix] at h
      split at h
      · cases h
      · rename_i hp
        rcases x with _ | ⟨b, x⟩
        · simp only [List.nil_append] at hs; subst hs; simpa using hp
        · simp only [List.cons_append, List.cons.injEq] at hs
          exact ih.1 (by simpa using h) x y hs.2 hy
    · intro h
      simp only [firstSuffix]
      rw [if_neg (by simp [h [] (a :: s) rfl (by simp)])]
      simp only [Option.map_eq_none_iff]
      exact ih.2 fun x y hs hy => h (a :: x) y (by simp [hs]) hy

/-- The first suffix is found when none of the longer ones satisfies `p`. -/
theorem firstSuffix_append {y : List α} (hy : y ≠ []) (hp : p y = true) :
    ∀ {x : List α}, (∀ x₁ x₂, x = x₁ ++ x₂ → x₂ ≠ [] → p (x₂ ++ y) = false) →
      firstSuffix p (x ++ y) = some (x, y)
  | [], _ => by
    cases y with
    | nil => exact absurd rfl hy
    | cons b y => simp [firstSuffix, hp]
  | a :: x, h => by
    have h₀ := h [] (a :: x) rfl (by simp)
    have ih := firstSuffix_append hy hp fun x₁ x₂ (hx : x = x₁ ++ x₂) =>
      h (a :: x₁) x₂ (by simp [hx])
    simp only [List.cons_append] at h₀ ⊢
    simp [firstSuffix, h₀, ih]

theorem firstSuffix_spec : ∀ {s x y : List α}, firstSuffix p s = some (x, y) →
    s = x ++ y ∧ y ≠ [] ∧ p y = true ∧ ∀ x₁ x₂, x = x₁ ++ x₂ → x₂ ≠ [] → p (x₂ ++ y) = false
  | [], x, y, h => by simp [firstSuffix] at h
  | a :: s, x, y, h => by
    simp only [firstSuffix] at h
    split at h
    · rename_i hp
      cases h
      exact ⟨rfl, by simp, hp, fun x₁ x₂ hx hx₂ => absurd (List.append_eq_nil_iff.1 hx.symm).2 hx₂⟩
    · rename_i hp
      obtain ⟨⟨x', y'⟩, hs, he⟩ := Option.map_eq_some_iff.1 h
      cases he
      obtain ⟨rfl, h2, h3, h4⟩ := firstSuffix_spec hs
      refine ⟨rfl, h2, h3, ?_⟩
      intro x₁ x₂ hx hx₂
      rcases x₁ with _ | ⟨b, x₁⟩
      · simp only [List.nil_append] at hx; subst hx; simpa using hp
      · simp only [List.cons_append, List.cons.injEq] at hx
        exact h4 x₁ x₂ hx.2 hx₂

/-- **`firstSuffix` finds the leftmost suffix satisfying `p`.** -/
theorem firstSuffix_eq_some {s x y : List α} : firstSuffix p s = some (x, y) ↔
    s = x ++ y ∧ y ≠ [] ∧ p y = true ∧ ∀ x₁ x₂, x = x₁ ++ x₂ → x₂ ≠ [] → p (x₂ ++ y) = false :=
  ⟨firstSuffix_spec, fun ⟨h1, h2, h3, h4⟩ => h1 ▸ firstSuffix_append h2 h3 h4⟩

/-! ## Cutting at a token -/

variable [DecidableEq α]

/-- What stands before and after the first occurrence of `tok`. -/
def cut (tok s : List α) : Option (List α × List α) :=
  (firstSuffix tok.isPrefixOf s).map fun r => (r.1, r.2.drop tok.length)

variable {tok s x y : List α}

theorem cut_eq_none (ht : tok ≠ []) : cut tok s = none ↔ ¬ tok <:+: s := by
  simp only [cut, Option.map_eq_none_iff, firstSuffix_eq_none]
  constructor
  · rintro h ⟨x, y, rfl⟩
    have hp := h x (tok ++ y) (by simp) (by simp [ht])
    rw [Bool.eq_false_iff, ne_eq, List.isPrefixOf_iff_prefix] at hp
    exact hp (List.prefix_append tok y)
  · rintro h x y rfl -
    rw [Bool.eq_false_iff, ne_eq, List.isPrefixOf_iff_prefix]
    rintro ⟨z, rfl⟩
    exact h ⟨x, z, by simp⟩

/-- The token does not begin inside `x`, read in front of `tok ++ y`. -/
def NoEarlier (tok x y : List α) : Prop :=
  ∀ x₁ x₂, x = x₁ ++ x₂ → x₂ ≠ [] → ¬ tok <+: x₂ ++ (tok ++ y)

/-- **`cut` finds the leftmost occurrence.** -/
theorem cut_eq_some (ht : tok ≠ []) :
    cut tok s = some (x, y) ↔ s = x ++ (tok ++ y) ∧ NoEarlier tok x y := by
  simp only [cut, Option.map_eq_some_iff, Prod.exists, Prod.mk.injEq, firstSuffix_eq_some,
    NoEarlier, ← List.isPrefixOf_iff_prefix, Bool.not_eq_true]
  constructor
  · rintro ⟨x', z, ⟨rfl, hz, hp, hl⟩, rfl, rfl⟩
    obtain ⟨y, rfl⟩ := List.isPrefixOf_iff_prefix.1 hp
    rw [List.drop_left]
    exact ⟨rfl, hl⟩
  · rintro ⟨rfl, hl⟩
    exact ⟨x, tok ++ y, ⟨rfl, by simp [ht], by simp, hl⟩, rfl, by simp⟩

theorem isPrefix_of_cut (ht : tok ≠ []) (h : cut tok s = some (x, y)) : x <+: s := by
  rw [((cut_eq_some ht).1 h).1]; exact List.prefix_append _ _

theorem cut_suffix (ht : tok ≠ []) (h : cut tok s = some (x, y)) : tok ++ y <:+ s := by
  rw [((cut_eq_some ht).1 h).1]; exact List.suffix_append _ _

theorem cut_append_lt (ht : tok ≠ []) (h : cut tok s = some (x, y)) :
    x.length < s.length ∧ y.length < s.length := by
  obtain ⟨rfl, -⟩ := (cut_eq_some ht).1 h
  have := List.length_pos_of_ne_nil ht
  simp only [List.length_append]
  omega

/-! ### One-element tokens -/

variable {c : α}

omit [DecidableEq α] in
theorem noEarlier_of_notMem (h : c ∉ x) : NoEarlier (c :: tok) x y := by
  rintro x₁ (_ | ⟨b, x₂⟩) rfl hx₂
  · exact absurd rfl hx₂
  · rintro ⟨z, hz⟩
    simp only [List.cons_append, List.cons.injEq] at hz
    simp [hz.1] at h

omit [DecidableEq α] in
theorem noEarlier_singleton : NoEarlier [c] x y ↔ c ∉ x := by
  refine ⟨?_, noEarlier_of_notMem⟩
  intro h hc
  obtain ⟨x₁, x₂, rfl⟩ := List.append_of_mem hc
  exact h x₁ (c :: x₂) rfl (by simp) (by simp)

theorem cut_singleton_eq_some : cut [c] s = some (x, y) ↔ s = x ++ c :: y ∧ c ∉ x := by
  rw [cut_eq_some (by simp), noEarlier_singleton]; simp

theorem cut_singleton_eq_none : cut [c] s = none ↔ c ∉ s := by
  rw [cut_eq_none (by simp), List.singleton_infix_iff]

theorem cut_singleton_append (h : c ∉ x) : cut [c] (x ++ c :: y) = some (x, y) :=
  cut_singleton_eq_some.2 ⟨rfl, h⟩

/-- The first occurrence of an element cuts a list in one way only. -/
theorem cut_singleton_unique {x' y' : List α} (h : c ∉ x) (h' : c ∉ x')
    (he : x ++ c :: y = x' ++ c :: y') : x = x' ∧ y = y' := by
  have := cut_singleton_append (y := y) h
  rw [he, cut_singleton_append h', Option.some.injEq, Prod.mk.injEq] at this
  exact ⟨this.1.symm, this.2.symm⟩

end Lib
