/-
  How exact the unsigned `consume_number<T>` is.

  Its range check looks at a sum that has wrapped around at `2 ^ 64`.  A digit
  at position 64 or later adds nothing to that sum, nor does an 8 at position 61,
  a 4 or an 8 at position 62, or an even digit at position 63; every other digit
  past position 18 is noticed.

  * `consumeNumber_eq_some`: what is read from a text;
  * `numberExact_iff`: the number is read exactly, or rejected, unless the digits
    are such that the check cannot see them (`Unseen`).
-/
import Upnp.Listing

namespace Upnp

open Lib

/-! ## The digits in front of a text -/

/-- The longest prefix of decimal digits. -/
def digitRun (s : Str) : Str := s.takeWhile isDigit

/-- Its mathematical value. -/
def runValue (s : Str) : ℕ := valueOf (digitRun s).reverse

/-- The widths of the types that numbers are read as. -/
inductive Width where
  | w16 | w32 | w64
  deriving DecidableEq, Repr

def Width.bits : Width → ℕ
  | w16 => 16
  | w32 => 32
  | w64 => 64

/-- The values that are too large but get past the range check.  With 64 bits
    there is nothing to check; else these have digits that add nothing modulo
    `2 ^ 64` on top of a value within range. -/
def Unseen (w : Width) (n : ℕ) : Prop :=
  2 ^ w.bits ≤ n ∧ (w = .w64 ∨ n % 10 ^ 61 < 2 ^ w.bits ∧
    8 ∣ n / 10 ^ 61 % 10 ∧ 4 ∣ n / 10 ^ 62 % 10 ∧ 2 ∣ n / 10 ^ 63 % 10)

instance (w : Width) (n : ℕ) : Decidable (Unseen w n) := by
  unfold Unseen
  infer_instance

/-- What is left of a value that is read. -/
def Width.modulus : Width → ℕ
  | w64 => 2 ^ 64
  | _ => 10 ^ 61

theorem isDigit_digitOf {c : Char} (h : isDigit c = true) : digitOf c < 10 := by
  simp only [isDigit, Bool.and_eq_true, decide_eq_true_eq] at h
  have hle : c.toNat ≤ '9'.toNat := h.2
  have h9 : '9'.toNat = 57 := rfl
  have h0 : '0'.toNat = 48 := rfl
  unfold digitOf
  omega

theorem mem_digitRun {s : Str} {c : Char} (h : c ∈ digitRun s) : isDigit c = true :=
  List.mem_takeWhile_imp h

/-! ## Digits that add nothing -/

theorem pow_ten_dvd {i d : ℕ} : 2 ^ 64 ∣ 10 ^ i * d ↔ 2 ^ (64 - i) ∣ d := by
  have hten : 10 ^ i = 2 ^ i * 5 ^ i := by rw [← Nat.mul_pow]
  rcases Nat.le_total i 64 with hi | hi
  · have hsplit : 2 ^ 64 = 2 ^ i * 2 ^ (64 - i) := by
      rw [← pow_add, Nat.add_sub_cancel' hi]
    rw [hten, hsplit, Nat.mul_assoc, Nat.mul_dvd_mul_iff_left (by positivity)]
    have hco : Nat.Coprime (2 ^ (64 - i)) (5 ^ i) := Nat.Coprime.pow _ _ (by decide)
    exact ⟨hco.dvd_of_dvd_mul_left, fun h => h.mul_left _⟩
  · rw [Nat.sub_eq_zero_of_le hi, pow_zero]
    simp only [one_dvd, iff_true]
    exact Dvd.dvd.mul_right (hten ▸ Dvd.dvd.mul_right (pow_dvd_pow 2 hi) _) _

/-- **The digits past position 18 add nothing, or are noticed.** -/
theorem gap_ten {cap : ℕ} (h : cap < 2 ^ 32) : Gap (2 ^ 64) 10 cap 19 := by
  -- the powers of ten that are no multiples of `2 ^ 32`, one by one
  have hsmall : ∀ i < 13, ∀ d < 10, d = 0 ∨
      2 ^ 32 ≤ 10 ^ (19 + i) * d % 2 ^ 64 ∧ 10 ^ (19 + i) * d % 2 ^ 64 + 2 ^ 32 ≤ 2 ^ 64 := by
    decide +kernel
  intro i hi d hd
  rcases Nat.lt_or_ge i 32 with hlt | hge
  · obtain ⟨j, rfl⟩ := Nat.exists_eq_add_of_le hi
    rcases hsmall j (by omega) d hd with rfl | ⟨hlo, hhi⟩
    · exact .inl (by simp)
    · exact .inr ⟨by omega, by omega⟩
  · have hdvd : 2 ^ 32 ∣ 10 ^ i * d % 2 ^ 64 := by
      rw [Nat.dvd_mod_iff (pow_dvd_pow 2 (by omega))]
      refine Dvd.dvd.mul_right ((pow_dvd_pow 2 hge).trans ?_) _
      exact pow_dvd_pow_of_dvd (by omega) i
    have hlt := Nat.mod_lt (10 ^ i * d) (show 0 < 2 ^ 64 by omega)
    obtain ⟨q, hq⟩ := hdvd
    rw [hq] at hlt
    rcases Nat.eq_zero_or_pos q with rfl | hpos
    · exact .inl (Nat.dvd_of_mod_eq_zero hq)
    · exact .inr ⟨by omega, by omega⟩

/-- The digits past position 18 that add nothing. -/
theorem adds_nothing_iff {n : ℕ} :
    (∀ i, 19 ≤ i → 2 ^ 64 ∣ 10 ^ i * (n / 10 ^ i % 10)) ↔ n % 10 ^ 61 = n % 10 ^ 19 ∧
      8 ∣ n / 10 ^ 61 % 10 ∧ 4 ∣ n / 10 ^ 62 % 10 ∧ 2 ∣ n / 10 ^ 63 % 10 := by
  simp only [pow_ten_dvd]
  rw [mod_pow_eq_iff (by omega) (by omega)]
  constructor
  · intro h
    refine ⟨?_, h 61 (by omega), h 62 (by omega), h 63 (by omega)⟩
    intro i hi hlt
    have h16 : 2 ^ 4 ∣ n / 10 ^ i % 10 := (pow_dvd_pow 2 (by omega)).trans (h i hi)
    exact Nat.eq_zero_of_dvd_of_lt h16 (by omega)
  · rintro ⟨hzero, h61, h62, h63⟩ i hi
    rcases Nat.lt_or_ge i 61 with hlt | hge
    · rw [hzero i hi hlt]
      exact dvd_zero _
    rcases Nat.lt_or_ge i 64 with hlt | hge'
    · obtain rfl | rfl | rfl : i = 61 ∨ i = 62 ∨ i = 63 := by omega
      · exact h61
      · exact h62
      · exact h63
    · rw [Nat.sub_eq_zero_of_le hge']
      exact one_dvd _

/-! ## What is read -/

theorem runValue_eq (s : Str) :
    runValue s = Nat.ofDigits 10 ((digitRun s).reverse.map digitOf) :=
  valueOf_eq _

/-- The range check of a type of at most 32 bits. -/
theorem digitsValue_narrow {cap : ℕ} (hcap : cap < 2 ^ 32) {s : Str} {v : ℕ} :
    digitsValue cap (digitRun s).reverse 0 1 = some v ↔
      v = runValue s % 10 ^ 61 ∧ runValue s % 10 ^ 61 ≤ cap ∧ 8 ∣ runValue s / 10 ^ 61 % 10 ∧
        4 ∣ runValue s / 10 ^ 62 % 10 ∧ 2 ∣ runValue s / 10 ^ 63 % 10 := by
  have hdigits : ∀ d ∈ (digitRun s).reverse.map digitOf, d < 10 := by
    intro d hd
    obtain ⟨c, hc, rfl⟩ := List.mem_map.1 hd
    exact isDigit_digitOf (mem_digitRun (List.mem_reverse.1 hc))
  have h := cappedSum_eq_some (gap_ten hcap) (show cap < 2 ^ 64 by omega) (by omega)
    (by omega) hdigits (v := v)
  rw [← runValue_eq, adds_nothing_iff] at h
  rw [digitsValue_capped]
  refine h.trans ?_
  -- a value within the cap has no digit from position 19 to position 60
  have hlow : runValue s % 10 ^ 61 ≤ cap → runValue s % 10 ^ 61 = runValue s % 10 ^ 19 := by
    intro hle
    rw [← Nat.mod_mod_of_dvd (runValue s) (pow_dvd_pow 10 (show 19 ≤ 61 by omega)),
      Nat.mod_eq_of_lt (show runValue s % 10 ^ 61 < 10 ^ 19 by omega)]
  constructor
  · rintro ⟨hv, hle, heq, hdvd⟩
    exact ⟨by omega, by omega, hdvd⟩
  · rintro ⟨hv, hle, hdvd⟩
    have := hlow hle
    exact ⟨by omega, by omega, this, hdvd⟩

theorem digitsValue_eq_some {w : Width} {s : Str} {v : ℕ} :
    digitsValue (2 ^ w.bits - 1) (digitRun s).reverse 0 1 = some v ↔
      (runValue s < 2 ^ w.bits ∨ Unseen w (runValue s)) ∧ v = runValue s % w.modulus := by
  have hnarrow : ∀ {bits : ℕ}, bits ≤ 32 → w.bits = bits → w ≠ .w64 → w.modulus = 10 ^ 61 →
      (digitsValue (2 ^ w.bits - 1) (digitRun s).reverse 0 1 = some v ↔
        (runValue s < 2 ^ w.bits ∨ Unseen w (runValue s)) ∧ v = runValue s % w.modulus) := by
    intro bits hb hw hne hmod
    have hpow : 2 ^ w.bits ≤ 2 ^ 32 := Nat.pow_le_pow_right (by omega) (hw ▸ hb)
    have hpos : 0 < 2 ^ w.bits := by positivity
    rw [digitsValue_narrow (by omega), hmod]
    unfold Unseen
    generalize runValue s = n at *
    generalize 2 ^ w.bits = lim at *
    constructor
    · rintro ⟨hv, hle, hdvd⟩
      refine ⟨?_, hv⟩
      rcases Nat.lt_or_ge n lim with hlt | hge
      · exact .inl hlt
      · exact .inr ⟨hge, .inr ⟨by omega, hdvd⟩⟩
    · rintro ⟨hlt | ⟨-, hw64 | ⟨hle, hdvd⟩⟩, hv⟩
      · have hzero : ∀ i, 61 ≤ i → n / 10 ^ i = 0 := by
          intro i hi
          refine Nat.div_eq_of_lt (Nat.lt_of_lt_of_le ?_ (Nat.pow_le_pow_right (by omega) hi))
          omega
        refine ⟨hv, ?_, ?_⟩
        · have := Nat.mod_le n (10 ^ 61)
          omega
        · rw [hzero 61 le_rfl, hzero 62 (by omega), hzero 63 (by omega)]
          decide
      · exact absurd hw64 hne
      · exact ⟨hv, by omega, hdvd⟩
  cases w with
  | w16 => exact hnarrow (by decide) rfl (by decide) rfl
  | w32 => exact hnarrow (by decide) rfl (by decide) rfl
  | w64 =>
    have h := cappedSum_uncapped (b := 10) (show 0 < 2 ^ 64 by omega)
      ((digitRun s).reverse.map digitOf) (show 0 < 2 ^ 64 by omega) 1
    rw [← runValue_eq, Nat.zero_add, Nat.one_mul, Nat.mod_eq_of_lt (by omega : 1 < 2 ^ 64)] at h
    rw [digitsValue_capped]
    unfold Unseen
    simp only [Width.bits, Width.modulus, true_or, and_true]
    rw [h, Option.some.injEq, eq_comm]
    simp only [(Nat.lt_or_ge (runValue s) (2 ^ 64)), true_and]

/-- **What the unsigned `consume_number` reads.** -/
theorem consumeNumber_eq_some {w : Width} {s t : Str} {v : ℕ} :
    consumeNumber w.bits s = some (v, t) ↔
      (digitRun s ≠ [] ∧ (runValue s < 2 ^ w.bits ∨ Unseen w (runValue s))) ∧
        v = runValue s % w.modulus ∧ t = s.drop (digitRun s).length := by
  have hbody : consumeNumber w.bits s = if digitRun s = [] then none else
      (digitsValue (2 ^ w.bits - 1) (digitRun s).reverse 0 1).map
        fun r => (r, s.drop (digitRun s).length) := rfl
  rw [hbody]
  by_cases hrun : digitRun s = []
  · simp [hrun]
  · simp only [hrun, if_false, Option.map_eq_some_iff, digitsValue_eq_some, Prod.mk.injEq,
      not_false_eq_true, true_and, ne_eq]
    constructor
    · rintro ⟨r, ⟨hok, rfl⟩, rfl, rfl⟩
      exact ⟨hok, rfl, rfl⟩
    · rintro ⟨hok, rfl, rfl⟩
      exact ⟨_, ⟨hok, rfl⟩, rfl, rfl⟩

theorem consumeNumber_eq_none {w : Width} {s : Str} :
    consumeNumber w.bits s = none ↔
      ¬ (digitRun s ≠ [] ∧ (runValue s < 2 ^ w.bits ∨ Unseen w (runValue s))) := by
  rw [Option.eq_none_iff_forall_not_mem]
  constructor
  · intro h hok
    exact h (runValue s % w.modulus, s.drop (digitRun s).length)
      (consumeNumber_eq_some.2 ⟨hok, rfl, rfl⟩)
  · intro h r hr
    exact h (consumeNumber_eq_some.1 hr).1

/-! ## Exactness -/

/-- `consume_number<T>(s)` with the view it is called with: the result, and what
    `s` is afterwards. -/
def consumeNumberFrom (w : Width) (s : Str) : Option ℕ × Str :=
  match consumeNumber w.bits s with
  | some (n, t) => (some n, t)
  | none => (none, s)

/-- The number in front of `s` is read if it is within the range of `T`; else
    nothing is read, and `s` stays as it is. -/
def NumberExact (w : Width) (s : Str) : Prop :=
  if digitRun s ≠ [] ∧ runValue s ≤ 2 ^ w.bits - 1 then
    consumeNumberFrom w s = (some (runValue s), s.drop (digitRun s).length)
  else consumeNumberFrom w s = (none, s)

/-- **`consume_number` is exact, unless its range check does not see the digits
    that make the value too large.** -/
theorem numberExact_iff (w : Width) (s : Str) :
    NumberExact w s ↔ ¬ Unseen w (runValue s) := by
  have hpos : 0 < 2 ^ w.bits := by positivity
  unfold NumberExact consumeNumberFrom
  by_cases hin : digitRun s ≠ [] ∧ runValue s ≤ 2 ^ w.bits - 1
  · have hlt : runValue s < 2 ^ w.bits := by omega
    have hmod : runValue s % w.modulus = runValue s := by
      refine Nat.mod_eq_of_lt (hlt.trans_le ?_)
      cases w <;> decide
    rw [if_pos hin, consumeNumber_eq_some.2 ⟨⟨hin.1, .inl hlt⟩, rfl, rfl⟩, hmod]
    simp only [true_iff]
    intro h
    exact absurd h.1 (by omega)
  rw [if_neg hin]
  by_cases hun : Unseen w (runValue s)
  · -- a value that is not zero has digits
    have hrun : digitRun s ≠ [] := by
      intro hnil
      have hzero : runValue s = 0 := by rw [runValue, hnil]; rfl
      exact absurd (hzero ▸ hun.1) (by omega)
    rw [consumeNumber_eq_some.2 ⟨⟨hrun, .inr hun⟩, rfl, rfl⟩]
    simp [hun]
  · have hnone : consumeNumber w.bits s = none := by
      refine consumeNumber_eq_none.2 ?_
      rintro ⟨hrun, hlt | h⟩
      · exact hin ⟨hrun, by omega⟩
      · exact hun h
    simp [hnone, hun]

/-- A one and 64 zeros is read as a port number 0, and `2 ^ 64` as a `uint64_t` 0. -/
theorem numberExact_fails : ¬ NumberExact .w16 ('1' :: List.replicate 64 '0') ∧
    ¬ NumberExact .w32 ('1' :: List.replicate 64 '0') ∧
    ¬ NumberExact .w64 "18446744073709551616".toList := by
  refine ⟨?_, ?_, ?_⟩ <;> (unfold NumberExact; decide +kernel)

end Upnp
