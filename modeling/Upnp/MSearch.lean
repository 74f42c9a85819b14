/-
  Sending the search messages (`query::state_t::start`, `src/ssdp.cpp`).

  The stream `ss` that a message is written to lives outside of the loop over the
  search targets and is never emptied, so that a datagram holds the messages of
  all targets up to its own.

  * `sendLoop_spec`: what is sent, for every outcome of the sends;
  * `oneMessageEach_iff`: every datagram is just the message of its own target, if
    and only if no more than one datagram goes out.
-/
import Upnp.Str

namespace Upnp

namespace MSearch

/-! ## The loop -/

/-- `timeout`, in seconds. -/
def timeout : ℕ := 2

/-- `search_targets` -/
def searchTargets : List Str :=
  ["urn:schemas-upnp-org:device:InternetGatewayDevice:1".toList,
    "urn:schemas-upnp-org:device:InternetGatewayDevice:2".toList]

/-- The message for one target, on a multicast endpoint that is shown as `ep`. -/
def message (ep target : Str) : Str :=
  "M-SEARCH * HTTP/1.1\r\n".toList ++
  ("HOST: ".toList ++ (ep ++ ("\r\n".toList ++
  ("ST: ".toList ++ (target ++ ("\r\n".toList ++
  ("MAN: \"ssdp:discover\"\r\n".toList ++
  ("MX: ".toList ++ (decimal timeout ++ ("\r\n".toList ++
  ("USER-AGENT: asio-upnp/1.0\r\n".toList ++
  "\r\n".toList)))))))))))

/-- The loop over the search targets.  `ss` is what the stream holds, `sent` the
    datagrams that went out; `send k` is the error of the send number `k`, if it
    fails. -/
def sendLoop (send : ℕ → Option ErrorCode) (ep : Str) :
    List Str → Str → List Str → List Str × Except ErrorCode Unit
  | [], _, sent => (sent, .ok ())
  | target :: targets, ss, sent =>
    let ss := ss ++ message ep target
    let sss := ss
    match send sent.length with
    | some ec => (sent, .error ec)
    | none => sendLoop send ep targets ss (sent ++ [sss])

/-- `start(bind_ip)` up to the spawning of the receive coroutine; `bind` is the
    error of binding the socket, if that fails. -/
def start (bind : Option ErrorCode) (send : ℕ → Option ErrorCode) (ep : Str)
    (targets : List Str) : List Str × Except ErrorCode Unit :=
  match bind with
  | some ec => ([], .error ec)
  | none => sendLoop send ep targets [] []

/-! ## What is sent -/

section
variable {ep : Str} {targets : List Str}

/-- The first `n` datagrams, if `ss` is in the stream already: each holds the
    messages of all targets up to its own. -/
def datagrams (ep ss : Str) (targets : List Str) (n : ℕ) : List Str :=
  (List.range n).map fun k => ss ++ (targets.take (k + 1)).flatMap (message ep)

theorem datagrams_cons (ss target : Str) (n : ℕ) : datagrams ep ss (target :: targets) (n + 1) =
    (ss ++ message ep target) :: datagrams ep (ss ++ message ep target) targets n := by
  simp only [datagrams, List.range_succ_eq_map, List.map_cons, List.map_map, List.take_succ_cons,
    List.take_zero, List.flatMap_cons, List.flatMap_nil, List.append_nil]
  congr 1
  refine List.map_congr_left fun k _ => ?_
  simp [Function.comp]

/-- **What the loop sends, and what it returns**: `n` datagrams, and then either
    no target is left or a send fails. -/
theorem sendLoop_spec (send : ℕ → Option ErrorCode) (ep : Str) (targets : List Str) (ss : Str)
    (sent : List Str) :
    ∃ n ≤ targets.length, (∀ i < n, send (sent.length + i) = none) ∧
      (n = targets.length ∧
          sendLoop send ep targets ss sent = (sent ++ datagrams ep ss targets n, .ok ()) ∨
        n < targets.length ∧ ∃ ec, send (sent.length + n) = some ec ∧
          sendLoop send ep targets ss sent = (sent ++ datagrams ep ss targets n, .error ec)) := by
  induction targets generalizing ss sent with
  | nil => exact ⟨0, le_rfl, by simp, .inl ⟨rfl, by simp [sendLoop, datagrams]⟩⟩
  | cons target targets ih =>
    rcases hs : send sent.length with _ | ec
    · obtain ⟨n, hn, hok, hend⟩ := ih (ss ++ message ep target)
        (sent ++ [ss ++ message ep target])
      have hstep : sendLoop send ep (target :: targets) ss sent =
          sendLoop send ep targets (ss ++ message ep target)
            (sent ++ [ss ++ message ep target]) := by
        simp only [sendLoop, hs]
      have hsent : sent ++ datagrams ep ss (target :: targets) (n + 1) =
          sent ++ [ss ++ message ep target] ++
            datagrams ep (ss ++ message ep target) targets n := by
        rw [datagrams_cons, List.append_assoc, List.singleton_append]
      have hnext : ∀ i, sent.length + (i + 1) = (sent ++ [ss ++ message ep target]).length + i := by
        intro i
        rw [List.length_append, List.length_singleton]
        omega
      refine ⟨n + 1, Nat.succ_le_succ hn, ?_, ?_⟩
      · intro i hi
        rcases i with _ | i
        · exact hs
        · rw [hnext]
          exact hok i (by omega)
      · rw [hstep, hsent, hnext, List.length_cons]
        rcases hend with ⟨hlen, heq⟩ | ⟨hlt, ec, hec, heq⟩
        · exact .inl ⟨by omega, heq⟩
        · exact .inr ⟨by omega, ec, hec, heq⟩
    · refine ⟨0, Nat.zero_le _, by simp, .inr ⟨by simp, ec, hs, ?_⟩⟩
      simp [sendLoop, hs, datagrams]

/-! ## One message each -/

theorem message_ne (ep target : Str) : message ep target ≠ [] :=
  List.append_ne_nil_of_left_ne_nil (by decide) _

/-- **From the second datagram on, there is more in it than its own message.** -/
theorem datagrams_eq_iff (ep : Str) {n : ℕ} (hn : n ≤ targets.length) :
    datagrams ep [] targets n = (targets.take n).map (message ep) ↔ n ≤ 1 := by
  rcases n with _ | _ | n
  · simp [datagrams]
  · rcases targets with _ | ⟨target, targets⟩
    · simp at hn
    · simp [datagrams]
  · obtain ⟨t₁, t₂, targets, rfl⟩ : ∃ t₁ t₂ ts, targets = t₁ :: t₂ :: ts := by
      rcases targets with _ | ⟨t₁, _ | ⟨t₂, ts⟩⟩
      · simp at hn
      · simp at hn
      · exact ⟨t₁, t₂, ts, rfl⟩
    refine iff_of_false ?_ (by omega)
    intro h
    rw [datagrams_cons, datagrams_cons, List.take_succ_cons, List.take_succ_cons, List.map_cons,
      List.map_cons] at h
    have hsecond := (List.cons.inj (List.cons.inj h).2).1
    rw [List.nil_append, List.append_left_eq_self] at hsecond
    exact message_ne ep t₁ hsecond

end

/-- One datagram for each target, in order, with just the message of that target;
    if a send fails, only for the targets before it. -/
def OneMessageEach (send : ℕ → Option ErrorCode) (ep : Str) (targets : List Str) : Prop :=
  ((∀ i < targets.length, send i = none) →
    start none send ep targets = (targets.map (message ep), .ok ())) ∧
  ∀ k < targets.length, ∀ ec, (∀ i < k, send i = none) → send k = some ec →
    start none send ep targets = ((targets.take k).map (message ep), .error ec)

/-- What is meant holds exactly if the first `n` datagrams are as meant, where the
    send number `n` is the first one to fail or there are only `n` targets. -/
theorem oneMessageEach_datagrams (send : ℕ → Option ErrorCode) (ep : Str) (targets : List Str) :
    ∃ n ≤ targets.length, (∀ i < n, send i = none) ∧
      (n = targets.length ∨ n < targets.length ∧ send n ≠ none) ∧
      (OneMessageEach send ep targets ↔
        datagrams ep [] targets n = (targets.take n).map (message ep)) := by
  obtain ⟨n, hn, hok, hend⟩ := sendLoop_spec send ep targets [] []
  simp only [List.length_nil, Nat.zero_add, List.nil_append] at hok hend
  refine ⟨n, hn, hok, ?_, ?_⟩
  · rcases hend with ⟨hlen, -⟩ | ⟨hlt, ec, hec, -⟩
    · exact .inl hlen
    · exact .inr ⟨hlt, by simp [hec]⟩
  unfold OneMessageEach start
  dsimp only
  rcases hend with ⟨hlen, heq⟩ | ⟨hlt, ec, hec, heq⟩
  · -- no send fails
    rw [heq, hlen, List.take_length]
    rw [hlen] at hok
    constructor
    · intro h
      exact (Prod.mk.inj (h.1 hok)).1
    · intro h
      refine ⟨fun _ => by rw [h], ?_⟩
      intro k hk ec _ hec
      rw [hok k hk] at hec
      cases hec
  · -- the send number `n` is the first one to fail
    have hfirst : ∀ k ec', (∀ i < k, send i = none) → send k = some ec' → k = n := by
      intro k ec' hk hk'
      rcases Nat.lt_trichotomy k n with hkn | hkn | hkn
      · rw [hok k hkn] at hk'
        cases hk'
      · exact hkn
      · rw [hk n hkn] at hec
        cases hec
    rw [heq]
    constructor
    · intro h
      exact (Prod.mk.inj (h.2 n hlt ec hok hec)).1
    · intro h
      refine ⟨fun hall => ?_, ?_⟩
      · rw [hall n hlt] at hec
        cases hec
      · intro k _ ec' hk hk'
        obtain rfl := hfirst k ec' hk hk'
        rw [hec, Option.some.injEq] at hk'
        rw [h, hk']

/-- **Each datagram is just the message of its target, if and only if no more than
    one goes out.** -/
theorem oneMessageEach_iff (send : ℕ → Option ErrorCode) (ep : Str) (targets : List Str) :
    OneMessageEach send ep targets ↔
      targets.length ≤ 1 ∨ send 0 ≠ none ∨ send 1 ≠ none := by
  obtain ⟨n, hn, hok, hend, heach⟩ := oneMessageEach_datagrams send ep targets
  rw [heach, datagrams_eq_iff ep hn]
  constructor
  · intro h1
    rcases hend with hlen | ⟨-, hec⟩
    · exact .inl (by omega)
    · obtain rfl | rfl : n = 0 ∨ n = 1 := by omega
      · exact .inr (.inl hec)
      · exact .inr (.inr hec)
  · rintro (hlen | h0 | h1)
    · omega
    · by_contra hlt
      exact h0 (hok 0 (by omega))
    · by_contra hlt
      exact h1 (hok 1 (by omega))

/-- The second datagram to the two search targets of the code also holds the
    message of the first one. -/
theorem searchTargets_not_oneMessageEach :
    ¬ OneMessageEach (fun _ => none) "239.255.255.250:1900".toList searchTargets := by
  have hlen : searchTargets.length = 2 := rfl
  obtain ⟨n, hn, -, hend, heach⟩ :=
    oneMessageEach_datagrams (fun _ => none) "239.255.255.250:1900".toList searchTargets
  rw [heach, datagrams_eq_iff _ hn]
  rcases hend with rfl | ⟨-, hec⟩
  · omega
  · exact absurd rfl hec

end MSearch

end Upnp
