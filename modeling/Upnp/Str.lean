/-
  The string helpers of `src/str`, as functions on texts.

  A `string_view&` parameter that the source advances is returned next to the
  value; where the source returns `none` it leaves the view as it was, so the
  model returns nothing for it.

  * `consumeUntil_token`: with one token, `consumeUntil` cuts at its first
    occurrence (`Lib.cut`);
  * `rfind_eq_some`: `rfind` splits at the last occurrence of its character.
-/
import Mathlib.Data.List.DropRight
import Upnp.Basic
import Upnp.Lib.Search

namespace Upnp

open Lib

/-! ## `consume_until.h` -/

/-- `consume_until(s, tokens, consume_tokens)`: the text before the first place
    where one of the tokens begins, and what is left of `s`. -/
def consumeUntil (s : Str) (tokens : List Str) (consumeTokens : Bool) : Option (Str × Str) :=
  loop s 0
where
  /-- `c` is what is left of `s` after `consumed` characters. -/
  loop : Str → ℕ → Option (Str × Str)
  | [], _ => none
  | ch :: c, consumed =>
    match tokens.find? (·.isPrefixOf (ch :: c)) with
    | some token =>
      some (s.take consumed, if consumeTokens then (ch :: c).drop token.length else ch :: c)
    | none => loop c (consumed + 1)

/-- One of the tokens begins here. -/
def begins (tokens : List Str) (c : Str) : Bool := (tokens.find? (·.isPrefixOf c)).isSome

/-- What is left of the view when one of the tokens begins at `c`. -/
def leave (tokens : List Str) (consumeTokens : Bool) (c : Str) : Str :=
  match tokens.find? (·.isPrefixOf c) with
  | some token => if consumeTokens then c.drop token.length else c
  | none => c

theorem consumeUntil_loop {tokens : List Str} {ct : Bool} (c x : Str) :
    consumeUntil.loop (x ++ c) tokens ct c x.length =
      (firstSuffix (begins tokens) c).map fun r => (x ++ r.1, leave tokens ct r.2) := by
  induction c generalizing x with
  | nil => rfl
  | cons ch c ih =>
    rcases hf : tokens.find? (·.isPrefixOf (ch :: c)) with _ | token
    · have := ih (x ++ [ch])
      simp only [List.append_assoc, List.singleton_append, List.length_append,
        List.length_singleton] at this
      simp only [consumeUntil.loop, firstSuffix, begins, hf, this]
      rcases firstSuffix (begins tokens) c with _ | r <;> simp
    · simp [consumeUntil.loop, firstSuffix, begins, leave, hf]

/-- **`consumeUntil` stops at the first place where a token begins.** -/
theorem consumeUntil_eq (s : Str) (tokens : List Str) (ct : Bool) :
    consumeUntil s tokens ct =
      (firstSuffix (begins tokens) s).map fun r => (r.1, leave tokens ct r.2) :=
  consumeUntil_loop s []

/-- **With one token, `consumeUntil` cuts at its first occurrence.** -/
theorem consumeUntil_token {s tok : Str} (ct : Bool) :
    consumeUntil s [tok] ct =
      (cut tok s).map fun r => (r.1, if ct then r.2 else tok ++ r.2) := by
  have hb : begins [tok] = tok.isPrefixOf := by
    funext t
    simp only [begins, List.find?_cons, List.find?_nil]
    cases tok.isPrefixOf t <;> rfl
  rw [consumeUntil_eq, cut, Option.map_map, hb]
  rcases hf : firstSuffix tok.isPrefixOf s with _ | ⟨x, y⟩
  · rfl
  · obtain ⟨-, -, hp, -⟩ := firstSuffix_spec hf
    obtain ⟨t, rfl⟩ := List.isPrefixOf_iff_prefix.1 hp
    simp [leave]

theorem consumeUntil_true (s tok : Str) : consumeUntil s [tok] true = cut tok s := by
  simp [consumeUntil_token]

theorem consumeUntil_false (s : Str) (c : Char) :
    consumeUntil s [[c]] false = (cut [c] s).map fun r => (r.1, c :: r.2) := by
  simp [consumeUntil_token]

/-! ## `trim.h`, `istarts_with.h` -/

/-- `isspace` of the classic locale. -/
def isSpace (c : Char) : Bool :=
  c = ' ' || c = '\t' || c = '\n' || c = Char.ofNat 11 || c = Char.ofNat 12 || c = '\r'

def trimSpacePrefix (s : Str) : Str := s.dropWhile isSpace

def trimSpaceSuffix (s : Str) : Str := s.rdropWhile isSpace

/-- `boost::iequals` in the classic locale. -/
def iequals (s t : Str) : Bool := s.map Char.toUpper == t.map Char.toUpper

def istartsWith (s start : Str) : Bool := iequals (s.take start.length) start

/-! ## `consume_number.h` -/

def isDigit (c : Char) : Bool := '0' ≤ c && c ≤ '9'

/-- The loop of the unsigned `consume_number<T>` over the digits, the last one
    first: `r` and `m` are `uint64_t`, `max` is `std::numeric_limits<T>::max()`. -/
def digitsValue (max : ℕ) : Str → ℕ → ℕ → Option ℕ
  | [], r, _ => some r
  | c :: ds, r, m =>
    let r := (r + m * (c.toNat - '0'.toNat)) % 2 ^ 64
    let m := m * 10 % 2 ^ 64
    if r > max then none else digitsValue max ds r m

/-- The unsigned `consume_number<T>`, for a `T` of `bits` bits: the number and
    what is left of `s`. -/
def consumeNumber (bits : ℕ) (s : Str) : Option (ℕ × Str) :=
  let digits := s.takeWhile isDigit
  if digits = [] then none
  else (digitsValue (2 ^ bits - 1) digits.reverse 0 1).map fun r => (r, s.drop digits.length)

/-! ## `consume_endpoint.h` -/

/-- `s.rfind(c)`. -/
def rfind (c : Char) : Str → Option ℕ
  | [] => none
  | d :: s => match rfind c s with
    | some pos => some (pos + 1)
    | none => if d = c then some 0 else none

/-- `Proto::endpoint`, over the addresses Asio has. -/
structure Endpoint (Address : Type) where
  address : Address
  port : ℕ
  deriving DecidableEq, Repr

/-- `consume_endpoint(s)`, with `makeAddress` for Asio's `make_address` (`none`
    where it sets an error code): the endpoint and what is left of `s`. -/
def consumeEndpoint {Address : Type} (makeAddress : Str → Option Address) (s : Str) :
    Option (Endpoint Address × Str) := do
  let pos ← rfind ':' s
  let addr ← makeAddress (s.take pos)
  let (port, s) ← consumeNumber 16 (s.drop (pos + 1))
  some (⟨addr, port⟩, s)

theorem rfind_mem {c : Char} {s : Str} {pos : ℕ} (h : rfind c s = some pos) : c ∈ s := by
  induction s generalizing pos with
  | nil => simp [rfind] at h
  | cons d s ih =>
    simp only [rfind] at h
    rcases hr : rfind c s with _ | pos'
    · rw [hr] at h; simp only [Option.ite_none_right_eq_some] at h; simp [h.1]
    · exact List.mem_cons_of_mem _ (ih hr)

theorem rfind_append (c : Char) (s t : Str) : rfind c (s ++ t) =
    match rfind c t with
    | some pos => some (s.length + pos)
    | none => rfind c s := by
  induction s with
  | nil => cases h : rfind c t <;> simp [rfind, h]
  | cons d s ih =>
    rw [List.cons_append, rfind, ih]
    cases rfind c t with
    | none => rfl
    | some pos =>
      simp only [List.length_cons, Option.some.injEq]
      omega

theorem rfind_split {c : Char} {s : Str} {pos : ℕ} (h : rfind c s = some pos) :
    pos < s.length ∧ s = s.take pos ++ c :: s.drop (pos + 1) := by
  induction s generalizing pos with
  | nil => simp [rfind] at h
  | cons d s ih =>
    rw [rfind] at h
    rcases hr : rfind c s with _ | pos'
    · rw [hr] at h
      simp only [Option.ite_none_right_eq_some, Option.some.injEq] at h
      obtain ⟨rfl, rfl⟩ := h
      exact ⟨by simp, by simp⟩
    · rw [hr, Option.some.injEq] at h
      subst h
      obtain ⟨hlt, hs⟩ := ih hr
      exact ⟨by simpa using hlt, by simpa using hs⟩

theorem rfind_eq_none {c : Char} {s : Str} : rfind c s = none ↔ c ∉ s := by
  induction s with
  | nil => simp [rfind]
  | cons d s ih =>
    rw [rfind, List.mem_cons, not_or]
    rcases hr : rfind c s with _ | pos
    · simp only [ite_eq_right_iff, reduceCtorEq, imp_false, ih.1 hr, not_false_eq_true, and_true]
      exact not_congr eq_comm
    · simp [rfind_mem hr]

/-- **`rfind` finds the last place.** -/
theorem rfind_eq_some {c : Char} {s : Str} {pos : ℕ} :
    rfind c s = some pos ↔ ∃ x y, s = x ++ c :: y ∧ c ∉ y ∧ pos = x.length := by
  constructor
  · intro h
    obtain ⟨hlt, hs⟩ := rfind_split h
    refine ⟨s.take pos, s.drop (pos + 1), hs, ?_, (List.length_take_of_le hlt.le).symm⟩
    rw [← rfind_eq_none, Option.eq_none_iff_forall_not_mem]
    intro pos' hpos'
    -- a place further right would have been found instead
    rw [hs, rfind_append, rfind, hpos'] at h
    simp only [List.length_take_of_le hlt.le, Option.some.injEq] at h
    omega
  · rintro ⟨x, y, rfl, hy, rfl⟩
    simp only [rfind_append, rfind, rfind_eq_none.2 hy, if_true, Nat.add_zero]

/-- An endpoint is only read from a text with a colon. -/
theorem consumeEndpoint_colon {Address : Type} {makeAddress : Str → Option Address} {s : Str}
    {r : Endpoint Address × Str} (h : consumeEndpoint makeAddress s = some r) : ':' ∈ s := by
  simp only [consumeEndpoint, Option.bind_eq_bind, Option.bind_eq_some_iff] at h
  obtain ⟨pos, hpos, -⟩ := h
  exact rfind_mem hpos

end Upnp
