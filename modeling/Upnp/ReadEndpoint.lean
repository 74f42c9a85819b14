/-
  What `consume_endpoint` reads, and what it leaves of the view.

  The text is split at its last colon, so an IPv6 address may stand before it.  The
  view is moved behind the colon before the port is read, and put back when there is
  no port.

  * `consumeEndpoint_eq_some`: an endpoint is read exactly from the texts that are an
    address, a colon, the digits of a port and what follows them;
  * `consumeEndpointFrom_eq`: where no endpoint is read, the view is as it was;
  * `consumeEndpointFrom_promise`: both together, and that a printed endpoint is read
    back.
-/
import Upnp.WholeField

namespace Upnp

variable {Address : Type} {makeAddress : Str → Option Address}

/-- `consume_endpoint(s)` with the view it is called with: the result, and what `s`
    is afterwards. -/
def consumeEndpointFrom (makeAddress : Str → Option Address) (s : Str) :
    Option (Endpoint Address) × Str :=
  let sOrig := s
  match rfind ':' s with
  | none => (none, s)
  | some pos =>
    match makeAddress (s.take pos) with
    | none => (none, s)
    | some addr =>
      let s := s.drop (pos + 1)
      match consumeNumberFrom .w16 s with
      | (none, _) => (none, sOrig)
      | (some port, s) => (some ⟨addr, port⟩, s)

/-- **Where no endpoint is read, the view is as it was.** -/
theorem consumeEndpointFrom_eq (s : Str) : consumeEndpointFrom makeAddress s =
    match consumeEndpoint makeAddress s with
    | some (ep, t) => (some ep, t)
    | none => (none, s) := by
  simp only [consumeEndpointFrom, consumeEndpoint, Option.bind_eq_bind]
  rcases rfind ':' s with _ | pos
  · rfl
  simp only [Option.bind_some]
  rcases makeAddress (s.take pos) with _ | addr
  · rfl
  simp only [Option.bind_some, consumeNumberFrom, Width.bits]
  rcases consumeNumber 16 (s.drop (pos + 1)) with _ | ⟨port, t⟩ <;> rfl

theorem consumeEndpointFrom_eq_some {s t : Str} {ep : Endpoint Address} :
    consumeEndpointFrom makeAddress s = (some ep, t) ↔
      consumeEndpoint makeAddress s = some (ep, t) := by
  rw [consumeEndpointFrom_eq]
  rcases consumeEndpoint makeAddress s with _ | ⟨ep', t'⟩ <;> simp

theorem consumeEndpointFrom_eq_none {s s' : Str} :
    consumeEndpointFrom makeAddress s = (none, s') ↔
      s' = s ∧ consumeEndpoint makeAddress s = none := by
  rw [consumeEndpointFrom_eq]
  rcases consumeEndpoint makeAddress s with _ | ⟨ep', t'⟩
  · simp [eq_comm]
  · simp

/-! ## The port -/

theorem digitRun_append {d t : Str} (hd : ∀ c ∈ d, isDigit c = true)
    (ht : ∀ c, t.head? = some c → isDigit c = false) : digitRun (d ++ t) = d := by
  rw [digitRun, List.takeWhile_append_of_pos hd]
  rcases t with _ | ⟨c, t⟩
  · simp
  · rw [List.takeWhile_cons_of_neg (by simp [ht c rfl]), List.append_nil]

/-- **What follows the digits of a number plays no part in reading it.** -/
theorem consumeNumber_append {bits : ℕ} {d t : Str} (hd : ∀ c ∈ d, isDigit c = true)
    (ht : ∀ c, t.head? = some c → isDigit c = false) :
    consumeNumber bits (d ++ t) = (consumeNumber bits d).map fun r => (r.1, t) := by
  have hrun : (d ++ t).takeWhile isDigit = d := digitRun_append hd ht
  have hself : d.takeWhile isDigit = d := digitRun_eq_self.2 hd
  simp only [consumeNumber, hrun, hself, List.drop_left]
  split
  · rfl
  · rw [Option.map_map]
    rfl

/-! ## Endpoints -/

/-- `s` is the address `a`, the last colon of `s`, the digits `d` and `t`, and the
    port is what is read from these digits, which are all there are. -/
structure ReadFrom (makeAddress : Str → Option Address) (s : Str) (ep : Endpoint Address)
    (t a d : Str) : Prop where
  text : s = a ++ ':' :: (d ++ t)
  last : ':' ∉ d ++ t
  address : makeAddress a = some ep.address
  ne_nil : d ≠ []
  digits : ∀ c ∈ d, isDigit c = true
  maximal : ∀ c, t.head? = some c → isDigit c = false
  port : consumeNumberFrom .w16 d = (some ep.port, [])

theorem consumeNumberFrom_eq_some {w : Width} {s t : Str} {n : ℕ} :
    consumeNumberFrom w s = (some n, t) ↔ consumeNumber w.bits s = some (n, t) := by
  rw [consumeNumberFrom]
  rcases consumeNumber w.bits s with _ | ⟨n', t'⟩ <;> simp

/-- What is read from a text is read from its digits. -/
theorem consumeNumber_run {y t : Str} {n : ℕ} (h : consumeNumber Width.w16.bits y = some (n, t)) :
    digitRun y ≠ [] ∧ y = digitRun y ++ t ∧ (∀ c, t.head? = some c → isDigit c = false) ∧
      consumeNumberFrom .w16 (digitRun y) = (some n, []) := by
  have hsplit : digitRun y ++ y.dropWhile isDigit = y := List.takeWhile_append_dropWhile
  have hdigits : ∀ c ∈ digitRun y, isDigit c = true := fun c => mem_digitRun
  have hmaximal : ∀ c, (y.dropWhile isDigit).head? = some c → isDigit c = false := by
    intro c hc
    have := List.head?_dropWhile_not isDigit y
    simpa [hc] using this
  rw [← hsplit, consumeNumber_append hdigits hmaximal, Option.map_eq_some_iff] at h
  obtain ⟨⟨n', t'⟩, hread, he⟩ := h
  cases he
  obtain ⟨⟨hne, -⟩, -, ht'⟩ := consumeNumber_eq_some.1 hread
  rw [digitRun_eq_self.2 hdigits] at hne ht'
  rw [List.drop_length] at ht'
  subst ht'
  exact ⟨hne, hsplit.symm, hmaximal, consumeNumberFrom_eq_some.2 hread⟩

/-- **An endpoint is read exactly from the texts that have one.** -/
theorem consumeEndpoint_eq_some {s t : Str} {ep : Endpoint Address} :
    consumeEndpoint makeAddress s = some (ep, t) ↔ ∃ a d, ReadFrom makeAddress s ep t a d := by
  have hbehind : ∀ a y : Str, (a ++ ':' :: y).drop (a.length + 1) = y :=
    fun a y => List.drop_length_add_append 1
  constructor
  · intro h
    simp only [consumeEndpoint, Option.bind_eq_bind, Option.bind_eq_some_iff] at h
    obtain ⟨pos, hpos, addr, haddr, ⟨port, t'⟩, hport, he⟩ := h
    cases he
    obtain ⟨a, y, rfl, hy, rfl⟩ := rfind_eq_some.1 hpos
    rw [List.take_left] at haddr
    rw [hbehind] at hport
    obtain ⟨hne, hsplit, hmaximal, hread⟩ := consumeNumber_run hport
    exact ⟨a, digitRun y, congrArg (a ++ ':' :: ·) hsplit, hsplit ▸ hy, haddr, hne,
      fun c => mem_digitRun, hmaximal, hread⟩
  · rintro ⟨a, d, h⟩
    have hpos := rfind_eq_some.2 ⟨a, d ++ t, h.text, h.last, rfl⟩
    have hport : consumeNumber 16 d = some (ep.port, []) := consumeNumberFrom_eq_some.1 h.port
    simp only [consumeEndpoint, hpos, Option.bind_eq_bind, Option.bind_some]
    rw [h.text, List.take_left, hbehind, h.address, consumeNumber_append h.digits h.maximal, hport]
    rfl

/-- A printed endpoint has one reading. -/
theorem readFrom_printed {a t : Str} {addr : Address} {n : ℕ} (ha : makeAddress a = some addr)
    (hn : n < 2 ^ 16) (hcolon : ':' ∉ t) (ht : ∀ c, t.head? = some c → isDigit c = false) :
    ReadFrom makeAddress (a ++ ':' :: (decimal n ++ t)) ⟨addr, n⟩ t a (decimal n) where
  text := rfl
  last := by
    rw [List.mem_append, not_or]
    refine ⟨fun h => ?_, hcolon⟩
    have := isDigit_decimal h
    cases this
  address := ha
  ne_nil := Nat.toDigits_ne_nil
  digits _ := isDigit_decimal
  maximal := ht
  port := consumeNumberFrom_eq_some.2 (consumeNumber_decimal (by decide) hn)

/-- **`consume_endpoint` reads the endpoint that is there, or leaves the view as it
    was**, and it reads back what is printed, whatever follows it. -/
theorem consumeEndpointFrom_promise (env : Env Address) :
    (∀ s ep t, consumeEndpointFrom env.makeAddress s = (some ep, t) ↔
      ∃ a d, ReadFrom env.makeAddress s ep t a d) ∧
    (∀ s s', consumeEndpointFrom env.makeAddress s = (none, s') ↔
      s' = s ∧ ∀ ep t a d, ¬ ReadFrom env.makeAddress s ep t a d) ∧
    (∀ addr n t, env.makeAddress (env.showAddress addr) = some addr → n < 2 ^ 16 → ':' ∉ t →
      (∀ c, t.head? = some c → isDigit c = false) →
      consumeEndpointFrom env.makeAddress (env.showAddress addr ++ ':' :: (decimal n ++ t)) =
        (some ⟨addr, n⟩, t)) := by
  refine ⟨?_, ?_, ?_⟩
  · intro s ep t
    rw [consumeEndpointFrom_eq_some, consumeEndpoint_eq_some]
  · intro s s'
    rw [consumeEndpointFrom_eq_none, Option.eq_none_iff_forall_not_mem, Prod.forall]
    simp only [Option.mem_def, consumeEndpoint_eq_some, not_exists]
  · intro addr n t haddr hn hcolon ht
    have hread := readFrom_printed haddr hn hcolon ht
    exact consumeEndpointFrom_eq_some.2 (consumeEndpoint_eq_some.2 ⟨_, _, hread⟩)

/-- A host whose address has colons of its own. -/
def ipv6Host : Env Unit :=
  { Env.oneHost fun _ => none with
    makeAddress := fun s => if s = "fe80::1".toList then some () else none
    showAddress := fun _ => "fe80::1".toList }

theorem consumeEndpointFrom_ipv6 : consumeEndpointFrom ipv6Host.makeAddress
    "fe80::1:8080/x".toList = (some ⟨(), 8080⟩, "/x".toList) := by
  have hstop : ∀ c, "/x".toList.head? = some c → isDigit c = false := by
    intro c hc
    cases hc
    rfl
  exact (consumeEndpointFrom_promise ipv6Host).2.2 () 8080 "/x".toList rfl (by decide)
    (by decide) hstop

end Upnp
