/-
  Adding up digits modulo `M`, the least significant one first, and giving up as
  soon as the sum passes a cap.

  * `cappedSum_noWrap`: as long as nothing wraps around, the sum gets through if
    and only if it is within the cap;
  * `cappedSum_gap`: at positions where a digit adds nothing modulo `M` or takes
    the sum past the cap (`Gap`), only the digits that add nothing get through;
  * `cappedSum_eq_some`: both together, as a condition on the number that the
    digits stand for;
  * `cappedSum_uncapped`: without a cap, every number gets through, modulo `M`;
  * `mod_pow_eq_iff`: what it means that the digits between two positions are zeros.
-/
import Mathlib.Data.Nat.Digits.Defs
import Mathlib.Tactic.Ring

namespace Lib

open Nat (ofDigits)

/-- The sum `r` and the weight `m` of the next digit, both modulo `M`; `none` as
    soon as the sum is more than `cap`. -/
def cappedSum (M b cap : ℕ) : List ℕ → ℕ → ℕ → Option ℕ
  | [], r, _ => some r
  | d :: ds, r, m =>
    let r := (r + m * d) % M
    let m := m * b % M
    if r > cap then none else cappedSum M b cap ds r m

variable {M b cap p : ℕ}

theorem cappedSum_append (ds es : List ℕ) (r m : ℕ) :
    cappedSum M b cap (ds ++ es) r (m % M) =
      (cappedSum M b cap ds r (m % M)).bind fun r =>
        cappedSum M b cap es r (m * b ^ ds.length % M) := by
  induction ds generalizing r m with
  | nil => simp [cappedSum]
  | cons d ds ih =>
    have hm : m % M * b % M = m * b % M := Nat.mod_mul_mod m b M
    have hlen : m * b ^ (d :: ds).length = m * b * b ^ ds.length := by
      rw [List.length_cons]
      ring
    simp only [List.cons_append, cappedSum, hm, ih, hlen]
    split <;> rfl

/-- **While nothing wraps around, the sum is exact.** -/
theorem cappedSum_noWrap (ds : List ℕ) {r m : ℕ} (hr : r ≤ cap) (h : r + m * ofDigits b ds < M) :
    cappedSum M b cap ds r (m % M) =
      if r + m * ofDigits b ds ≤ cap then some (r + m * ofDigits b ds) else none := by
  induction ds generalizing r m with
  | nil => simp [cappedSum, hr]
  | cons d ds ih =>
    have hsum : r + m * ofDigits b (d :: ds) = r + m * d + m * b * ofDigits b ds := by
      rw [Nat.ofDigits_cons]
      ring
    rw [hsum] at h ⊢
    have hle : r + m * d < M := by omega
    -- a weight that has wrapped around only meets zeros
    have hstep : (r + m % M * d) % M = r + m * d := by
      rcases Nat.eq_zero_or_pos d with rfl | hpos
      · simp only [Nat.mul_zero, Nat.add_zero] at hle ⊢
        exact Nat.mod_eq_of_lt hle
      · have hm : m ≤ m * d := Nat.le_mul_of_pos_right m hpos
        rw [Nat.mod_eq_of_lt (show m < M by omega), Nat.mod_eq_of_lt hle]
    simp only [cappedSum, hstep, Nat.mod_mul_mod]
    by_cases hcap : r + m * d > cap
    · rw [if_pos hcap, if_neg (by omega)]
    · rw [if_neg hcap, ih (by omega) h]

/-- **With no cap, the sum is the number modulo `M`.** -/
theorem cappedSum_uncapped (hM : 0 < M) (ds : List ℕ) {r : ℕ} (hr : r < M) (m : ℕ) :
    cappedSum M b (M - 1) ds r (m % M) = some ((r + m * ofDigits b ds) % M) := by
  induction ds generalizing r m with
  | nil => simp [cappedSum, Nat.mod_eq_of_lt hr]
  | cons d ds ih =>
    have hlt : (r + m % M * d) % M < M := Nat.mod_lt _ hM
    have hstep : ((r + m % M * d) % M + m * b * ofDigits b ds) % M =
        (r + m * ofDigits b (d :: ds)) % M := by
      have hd : (r + m % M * d) % M = (r + m * d) % M := by
        rw [Nat.add_mod, Nat.mod_mul_mod, ← Nat.add_mod]
      rw [hd, Nat.mod_add_mod, Nat.ofDigits_cons]
      congr 1
      ring
    simp only [cappedSum, Nat.mod_mul_mod]
    rw [if_neg (by omega), ih hlt, hstep]

/-- From position `p` on, a digit adds nothing modulo `M`, or so much that the
    sum passes the cap and does not wrap around. -/
def Gap (M b cap p : ℕ) : Prop :=
  ∀ i, p ≤ i → ∀ d < b, M ∣ b ^ i * d ∨ cap < b ^ i * d % M ∧ b ^ i * d % M + cap < M

/-- The digits of a number, one by one: the first, and those of the rest. -/
theorem forall_digit {d : ℕ} {ds : List ℕ} (hd : d < b) {P : ℕ → ℕ → Prop} :
    (∀ j, P j (ofDigits b (d :: ds) / b ^ j % b)) ↔
      P 0 d ∧ ∀ j, P (j + 1) (ofDigits b ds / b ^ j % b) := by
  have hb : 0 < b := by omega
  have hzero : ofDigits b (d :: ds) / b ^ 0 % b = d := by
    rw [pow_zero, Nat.div_one, Nat.ofDigits_cons, Nat.add_mul_mod_self_left, Nat.mod_eq_of_lt hd]
  have hsucc : ∀ j, ofDigits b (d :: ds) / b ^ (j + 1) = ofDigits b ds / b ^ j := by
    intro j
    rw [pow_succ', ← Nat.div_div_eq_div_mul, Nat.ofDigits_cons, Nat.add_mul_div_left _ _ hb,
      Nat.div_eq_of_lt hd, Nat.zero_add]
  rw [← Nat.and_forall_add_one, hzero]
  simp only [hsucc]

/-- **Past a gap, only the digits that add nothing get through.** -/
theorem cappedSum_gap (h : Gap M b cap p) (hcap : cap < M) (ds : List ℕ) (hds : ∀ d ∈ ds, d < b)
    {i r v : ℕ} (hi : p ≤ i) (hr : r ≤ cap) :
    cappedSum M b cap ds r (b ^ i % M) = some v ↔
      v = r ∧ ∀ j, M ∣ b ^ (i + j) * (ofDigits b ds / b ^ j % b) := by
  induction ds generalizing i with
  | nil => simp [cappedSum, eq_comm]
  | cons d ds ih =>
    have hd : d < b := hds d List.mem_cons_self
    have hstep : (r + b ^ i % M * d) % M = (r + b ^ i * d % M) % M := by
      rw [Nat.add_mod, Nat.mod_mul_mod, ← Nat.add_mod_mod, Nat.mod_add_mod, Nat.mod_mod]
    rw [forall_digit hd (P := fun j x => M ∣ b ^ (i + j) * x), Nat.add_zero]
    simp only [cappedSum, hstep, Nat.mod_mul_mod, ← pow_succ]
    rcases h i hi d hd with hdvd | ⟨hpass, hnowrap⟩
    · have hsame : (r + b ^ i * d % M) % M = r := by
        rw [Nat.mod_eq_zero_of_dvd hdvd, Nat.add_zero, Nat.mod_eq_of_lt (by omega)]
      rw [hsame, if_neg (by omega), ih (fun d hd => hds d (List.mem_cons_of_mem _ hd)) (by omega)]
      simp only [hdvd, true_and, Nat.add_assoc, Nat.add_comm 1]
    · have hnd : ¬ M ∣ b ^ i * d := by
        rw [Nat.dvd_iff_mod_eq_zero]
        omega
      rw [Nat.mod_eq_of_lt (show r + b ^ i * d % M < M by omega), if_pos (by omega)]
      simp only [hnd, false_and, and_false, reduceCtorEq]

/-- **What gets through**: the low digits, within the cap, when every later digit
    adds nothing modulo `M`. -/
theorem cappedSum_eq_some (h : Gap M b cap p) (hcap : cap < M) (hp : b ^ p ≤ M) (hb : 1 < b)
    {ds : List ℕ} (hds : ∀ d ∈ ds, d < b) {v : ℕ} :
    cappedSum M b cap ds 0 (1 % M) = some v ↔
      v = ofDigits b ds % b ^ p ∧ ofDigits b ds % b ^ p ≤ cap ∧
        ∀ i, p ≤ i → M ∣ b ^ i * (ofDigits b ds / b ^ i % b) := by
  have hlow := Nat.ofDigits_mod_pow_eq_ofDigits_take p (by omega) ds hds
  have hhigh : ∀ j, ofDigits b ds / b ^ (p + j) = ofDigits b (ds.drop p) / b ^ j := by
    intro j
    rw [pow_add, ← Nat.div_div_eq_div_mul,
      Nat.ofDigits_div_pow_eq_ofDigits_drop p (by omega) ds hds]
  have hfit : 0 + 1 * ofDigits b (ds.take p) < M := by
    have := Nat.mod_lt (ofDigits b ds) (show 0 < b ^ p by positivity)
    omega
  have hrest : (∀ i, p ≤ i → M ∣ b ^ i * (ofDigits b ds / b ^ i % b)) ↔
      ∀ j, M ∣ b ^ (p + j) * (ofDigits b (ds.drop p) / b ^ j % b) := by
    refine ⟨fun h j => hhigh j ▸ h (p + j) (by omega), ?_⟩
    intro h i hi
    obtain ⟨j, rfl⟩ := Nat.exists_eq_add_of_le hi
    rw [hhigh]
    exact h j
  have hsplit : cappedSum M b cap (ds.take p ++ ds.drop p) 0 (1 % M) = _ :=
    cappedSum_append (ds.take p) (ds.drop p) 0 1
  rw [List.take_append_drop, cappedSum_noWrap _ (Nat.zero_le cap) hfit, Nat.zero_add, Nat.one_mul,
    ← hlow, Nat.one_mul] at hsplit
  rw [hsplit, hrest]
  by_cases hle : ofDigits b ds % b ^ p ≤ cap
  swap
  · simp [hle]
  rw [if_pos hle, Option.bind_some]
  rcases Nat.lt_or_ge ds.length p with hshort | hlong
  · -- no digit stands at position `p` or later
    rw [List.drop_eq_nil_of_le hshort.le]
    simp [cappedSum, hle, eq_comm]
  · rw [List.length_take_of_le hlong,
      cappedSum_gap h hcap _ (fun d hd => hds d (List.mem_of_mem_drop hd)) le_rfl hle]
    simp only [hle, true_and]

/-- The digits from position `p` to position `q` are zeros. -/
theorem mod_pow_eq_iff {n q : ℕ} (hb : 0 < b) (hpq : p ≤ q) :
    n % b ^ q = n % b ^ p ↔ ∀ i, p ≤ i → i < q → n / b ^ i % b = 0 := by
  induction q, hpq using Nat.le_induction with
  | base =>
    simp only [true_iff]
    intro i hi hlt
    omega
  | succ q hpq ih =>
    have hle : n % b ^ p ≤ n % b ^ q := by
      rw [← Nat.mod_mod_of_dvd n (pow_dvd_pow b hpq)]
      exact Nat.mod_le _ _
    have hpos : 0 < b ^ q := by positivity
    rw [Nat.mod_pow_succ]
    constructor
    · intro h i hi hlt
      have hzero : b ^ q * (n / b ^ q % b) = 0 := by omega
      rcases Nat.lt_succ_iff_lt_or_eq.1 hlt with hlt | rfl
      · exact ih.1 (by omega) i hi hlt
      · exact (Nat.mul_eq_zero.1 hzero).resolve_left hpos.ne'
    · intro h
      rw [h q hpq (by omega), Nat.mul_zero, Nat.add_zero]
      exact ih.2 fun i hi hlt => h i hi (by omega)

end Lib
