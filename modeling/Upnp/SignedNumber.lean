/-
  How exact the signed `consume_number<T>` is.

  It reads an `uint64_t` after the sign, so a run of digits whose value wraps
  around at `2 ^ 64` may come out as a number within range.  After a minus sign
  it computes `-std::numeric_limits<T>::min()`: this is an `int` computation for
  `int16_t`, but overflows for `int32_t` and `int64_t`.

  * `consumeSigned_eq`: what is read, by the sign in front and the digits after it;
  * `signedExact_iff`: the number is read exactly, or rejected, if and only if no
    value wraps around into the range and no minimum is negated that has no negative.
-/
import Upnp.Number

namespace Upnp

/-! ## `consume_number.h`, signed -/

/-- A computation on signed integers whose result its type does not have: the
    behaviour is undefined. -/
inductive Overflow where
  | signed
  deriving DecidableEq, Repr

/-- `std::numeric_limits<T>::max()` of a signed `T`. -/
def Width.maxSigned (w : Width) : ℤ := 2 ^ (w.bits - 1) - 1

/-- `std::numeric_limits<T>::min()` of a signed `T`. -/
def Width.minSigned (w : Width) : ℤ := -2 ^ (w.bits - 1)

/-- `-x` for an `x` of type `T`: computed as an `int` of 32 bits if `T` is shorter. -/
def negate (w : Width) (x : ℤ) : Except Overflow ℤ :=
  if -x < 2 ^ (max 32 w.bits - 1) then .ok (-x) else .error .signed

/-- `(uint64_t) x`. -/
def toUInt64 (x : ℤ) : ℕ := (x % 2 ^ 64).toNat

/-- The conversion of an `uint64_t` to `T`. -/
def toSigned (w : Width) (n : ℕ) : ℤ := Int.bmod n (2 ^ w.bits)

/-- `-n` for an `uint64_t`. -/
def negUInt64 (n : ℕ) : ℕ := (2 ^ 64 - n) % 2 ^ 64

/-- The signed `consume_number<T>(s)`: the result, and what `s` is afterwards. -/
def consumeSigned (w : Width) (s : Str) : Except Overflow (Option ℤ × Str) :=
  let s_ := s
  match s with
  | [] => .ok (none, s)
  | c :: rest =>
    let sign : ℤ := if c = '-' then -1 else 1
    let s := if c = '+' ∨ c = '-' then rest else s
    match consumeNumber Width.w64.bits s with
    | none => .ok (none, s_)
    | some (on, s) =>
      if sign > 0 then
        if on > toUInt64 w.maxSigned then .ok (none, s_)
        else .ok (some (toSigned w on), s)
      else do
        let limit ← negate w w.minSigned
        if on > toUInt64 limit then .ok (none, s_)
        else .ok (some (toSigned w (negUInt64 on)), s)

/-! ## The numeral in front of a text -/

/-- The sign in front of a text. -/
def signOf : Str → ℤ
  | '-' :: _ => -1
  | _ => 1

/-- What follows the optional sign. -/
def afterSign : Str → Str
  | '+' :: s => s
  | '-' :: s => s
  | s => s

/-- The magnitudes that a sign allows for. -/
def Width.limit (w : Width) (sign : ℤ) : ℕ :=
  if sign = -1 then 2 ^ (w.bits - 1) else 2 ^ (w.bits - 1) - 1

/-- The value of the numeral in front of the text is read if it is within the
    range of `T`; else nothing is read and `s` stays as it is.  In neither case
    is there an overflow. -/
def SignedExact (w : Width) (s : Str) : Prop :=
  let d := digitRun (afterSign s)
  let v := signOf s * runValue (afterSign s)
  if d ≠ [] ∧ w.minSigned ≤ v ∧ v ≤ w.maxSigned then
    consumeSigned w s = .ok (some v, (afterSign s).drop d.length)
  else consumeSigned w s = .ok (none, s)

/-! ## What is read -/

theorem signOf_cases (s : Str) :
    (signOf s = 1 ∧ ∀ t, s ≠ '-' :: t) ∨ (signOf s = -1 ∧ ∃ t, s = '-' :: t) := by
  rcases s with _ | ⟨c, s⟩
  · exact .inl ⟨rfl, by simp⟩
  · by_cases hc : c = '-'
    · subst hc
      exact .inr ⟨rfl, s, rfl⟩
    · refine .inl ⟨?_, fun t h => hc (List.cons.inj h).1⟩
      unfold signOf
      split
      · rename_i heq
        exact absurd (List.cons.inj heq).1 hc
      · rfl

theorem afterSign_cons {c : Char} {s : Str} :
    afterSign (c :: s) = if c = '+' ∨ c = '-' then s else c :: s := by
  unfold afterSign
  split
  · rename_i heq
    obtain ⟨rfl, rfl⟩ := List.cons.inj heq
    simp
  · rename_i heq
    obtain ⟨rfl, rfl⟩ := List.cons.inj heq
    simp
  · rename_i hp hm
    rw [if_neg]
    rintro (rfl | rfl)
    · exact hp s rfl
    · exact hm s rfl

/-- An `uint64_t` is read from every run of digits, modulo `2 ^ 64`. -/
theorem consumeNumber_w64 (t : Str) : consumeNumber Width.w64.bits t =
    if digitRun t = [] then none
    else some (runValue t % 2 ^ 64, t.drop (digitRun t).length) := by
  have hany : runValue t < 2 ^ Width.w64.bits ∨ Unseen .w64 (runValue t) := by
    rcases Nat.lt_or_ge (runValue t) (2 ^ Width.w64.bits) with hlt | hge
    · exact .inl hlt
    · exact .inr ⟨hge, .inl rfl⟩
  by_cases hrun : digitRun t = []
  · rw [if_pos hrun, consumeNumber_eq_none]
    simp [hrun]
  · rw [if_neg hrun, consumeNumber_eq_some]
    exact ⟨⟨hrun, hany⟩, rfl, rfl⟩

theorem toUInt64_max (w : Width) : toUInt64 w.maxSigned = w.limit 1 := by
  cases w <;> rfl

/-- **Only `int16_t` has room for its negated minimum, as an `int`.** -/
theorem negate_min (w : Width) :
    negate w w.minSigned = if w = .w16 then .ok (w.limit (-1) : ℤ) else .error .signed := by
  cases w <;> rfl

theorem toSigned_pos {w : Width} {n : ℕ} (h : n ≤ w.limit 1) : toSigned w n = n := by
  cases w <;>
  · simp only [Width.limit, Width.bits, show ¬ (1 : ℤ) = -1 by omega, if_false] at h
    simp only [toSigned, Int.bmod_def, Width.bits]
    omega

theorem toSigned_neg {n : ℕ} (h : n ≤ Width.w16.limit (-1)) :
    toSigned .w16 (negUInt64 n) = -(n : ℤ) := by
  simp only [Width.limit, Width.bits, if_true] at h
  simp only [toSigned, negUInt64, Int.bmod_def, Width.bits]
  omega

/-- **What the signed `consume_number` does with the digits after a sign.** -/
theorem consumeSigned_eq (w : Width) (s : Str) :
    consumeSigned w s =
      let n := runValue (afterSign s) % 2 ^ 64
      if digitRun (afterSign s) = [] then .ok (none, s)
      else if signOf s = -1 ∧ w ≠ .w16 then .error .signed
      else if n ≤ w.limit (signOf s) then
        .ok (some (signOf s * n), (afterSign s).drop (digitRun (afterSign s)).length)
      else .ok (none, s) := by
  rcases s with _ | ⟨c, s⟩
  · rfl
  have hbody : consumeSigned w (c :: s) =
      match consumeNumber Width.w64.bits (afterSign (c :: s)) with
      | none => .ok (none, c :: s)
      | some (on, t) =>
        if (if c = '-' then (-1 : ℤ) else 1) > 0 then
          if on > toUInt64 w.maxSigned then .ok (none, c :: s) else .ok (some (toSigned w on), t)
        else (negate w w.minSigned).bind fun limit =>
          if on > toUInt64 limit then .ok (none, c :: s)
          else .ok (some (toSigned w (negUInt64 on)), t) := by
    rw [afterSign_cons]
    rfl
  rw [hbody, consumeNumber_w64]
  generalize afterSign (c :: s) = t
  by_cases hrun : digitRun t = []
  · simp only [hrun, if_true]
  simp only [hrun, if_false]
  generalize runValue t % 2 ^ 64 = n
  rcases signOf_cases (c :: s) with ⟨hsign, hc⟩ | ⟨hsign, t', hc⟩
  · have hne : c ≠ '-' := by
      rintro rfl
      exact hc s rfl
    simp only [hsign, if_neg hne, toUInt64_max, show (1 : ℤ) > 0 by omega, if_true,
      show ¬ (1 : ℤ) = -1 by omega, false_and, if_false, one_mul]
    by_cases hn : n ≤ w.limit 1
    · rw [if_neg (by omega), if_pos hn, toSigned_pos hn]
    · rw [if_pos (by omega), if_neg hn]
  · obtain ⟨rfl, rfl⟩ := List.cons.inj hc
    simp only [hsign, if_true, show ¬ (-1 : ℤ) > 0 by omega, if_false, true_and, negate_min]
    by_cases hw : w = .w16
    · subst hw
      have hlimit : toUInt64 (Width.w16.limit (-1) : ℤ) = Width.w16.limit (-1) := rfl
      simp only [if_true, ne_eq, not_true_eq_false, if_false, Except.bind, hlimit]
      by_cases hn : n ≤ Width.w16.limit (-1)
      · rw [if_neg (by omega), if_pos hn, toSigned_neg hn, neg_one_mul]
      · rw [if_pos (by omega), if_neg hn]
    · simp only [hw, if_false, ne_eq, not_false_eq_true, if_true]
      rfl

/-! ## Exactness -/

/-- The range of `T`, by the sign and the magnitude. -/
theorem inRange_iff (w : Width) (s : Str) (n : ℕ) :
    w.minSigned ≤ signOf s * n ∧ signOf s * n ≤ w.maxSigned ↔ n ≤ w.limit (signOf s) := by
  rcases signOf_cases s with ⟨hsign, -⟩ | ⟨hsign, -⟩ <;> rw [hsign] <;> cases w <;>
  · simp only [Width.minSigned, Width.maxSigned, Width.limit, Width.bits, if_true,
      show ¬ (1 : ℤ) = -1 by omega, if_false]
    omega

/-- **The signed `consume_number` is exact unless a value wraps around into the
    range of `T`, or digits follow a minus sign and `T` is not `int16_t`.** -/
theorem signedExact_iff (w : Width) (s : Str) :
    SignedExact w s ↔
      (runValue (afterSign s) < 2 ^ 64 ∨
        w.limit (signOf s) < runValue (afterSign s) % 2 ^ 64) ∧
      (digitRun (afterSign s) ≠ [] → signOf s = -1 → w = .w16) := by
  have hlim : w.limit (signOf s) < 2 ^ 64 := by
    rcases signOf_cases s with ⟨hsign, -⟩ | ⟨hsign, -⟩ <;> rw [hsign] <;> cases w <;> decide
  unfold SignedExact
  simp only [consumeSigned_eq, inRange_iff]
  by_cases hrun : digitRun (afterSign s) = []
  · have hzero : runValue (afterSign s) = 0 := by rw [runValue, hrun]; rfl
    simp [hrun, hzero]
  simp only [hrun, ne_eq, not_false_eq_true, true_and, if_false, true_implies]
  generalize runValue (afterSign s) = n
  by_cases hub : signOf s = -1 ∧ ¬ w = .w16
  · rw [if_pos hub]
    refine iff_of_false ?_ fun h => hub.2 (h.2 hub.1)
    split <;> simp
  have hok : signOf s = -1 → w = .w16 := fun h => by
    by_contra hw
    exact hub ⟨h, hw⟩
  rw [if_neg hub, and_iff_left hok]
  rcases Nat.lt_or_ge n (2 ^ 64) with hlt | hge
  · -- nothing has wrapped around
    rw [Nat.mod_eq_of_lt hlt]
    refine iff_of_true ?_ (.inl hlt)
    by_cases hn : n ≤ w.limit (signOf s)
    · rw [if_pos hn, if_pos hn]
    · rw [if_neg hn, if_neg hn]
  · have hbig : ¬ n ≤ w.limit (signOf s) := by omega
    rw [if_neg hbig, or_iff_right (by omega)]
    by_cases hn : n % 2 ^ 64 ≤ w.limit (signOf s)
    · rw [if_pos hn]
      refine iff_of_false ?_ (by omega)
      simp
    · rw [if_neg hn]
      exact iff_of_true rfl (by omega)

/-- `-1` is not read as an `int32_t` or `int64_t` without an overflow, and
    `2 ^ 64` is read as an `int16_t` 0. -/
theorem signedExact_fails : ¬ SignedExact .w32 "-1".toList ∧ ¬ SignedExact .w64 "-1".toList ∧
    ¬ SignedExact .w16 "18446744073709551616".toList := by
  refine ⟨?_, ?_, ?_⟩ <;> (unfold SignedExact; decide +kernel)

end Upnp
