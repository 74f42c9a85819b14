/-
  `igd::discover` returns.

  `left` counts the steps that the coroutine of `discover` and the receive coroutine can
  still take once the query is over: four for each item in the queue, those of the fetch
  that is under way, and the ends of the two coroutines.

  * `timed_of_run`: until the query is over, its timer is going to end it;
  * `left_step`: from then on every step of the two coroutines decreases `left`;
  * `moves`: and one of them can take a step, as long as `discover` has not returned;
  * `ending_of_run`: so it returns, and leaves a query behind that ends.
-/
import Upnp.Discovery

namespace Upnp

open Lib

namespace Query

variable {s s' : Query} {a : Action} {as : List Action} {es : List Event}

/-- The timer runs once the receive coroutine has started, and ends the query. -/
def Timed (s : Query) : Prop :=
  (s.timer = .idle → s.rx = .spawned) ∧ (s.timer = .done → s.rxEc ≠ none)

theorem Timed.step (ht : Timed s) (h : Took s a s' es) : Timed s' := by
  obtain ⟨hi, hd⟩ := ht
  cases h with
  | rxStart _ => exact ⟨nofun, nofun⟩
  | receive hr _ | repeated hr _ _ _ | fresh hr _ _ _ | garbled hr _ _ =>
    exact ⟨fun h => absurd (hi h) (by rw [hr]; exact nofun), hd⟩
  | finish hr _ => exact ⟨fun h => absurd (hi h) (by rw [hr]; exact nofun), fun _ => nofun⟩
  | timerLate _ he => exact ⟨nofun, fun _ => he⟩
  | timerFirst _ _ => exact ⟨nofun, fun _ => nofun⟩
  | stop | refused _ _ => exact ⟨hi, hd⟩
  | served he _ | ended he _ _ | waits he _ _ => rw [he.eq]; exact ⟨hi, hd⟩

theorem timed_of_run (h : machine.Run as es s) : Timed s :=
  h.invariant (P := fun _ _ s => Timed s) ⟨fun _ => rfl, nofun⟩
    fun _ ht hs => ht.step (took_of_step hs)

end Query

/-- What is left for the coroutine of `discover` to do, with `n` items in the queue. -/
def Phase.left (n : ℕ) : Phase → ℕ
  | .calling | .waiting => 4 * n + 1
  | .fetching _ stage => stage.left + 4 * n + 1
  | .returned _ => 0

/-- A step of the coroutine of `discover` or of the receive coroutine. -/
def DiscoverAction.ofCoroutine : DiscoverAction → Bool
  | .call | .wake | .io _ _ => true
  | .background a => a.ofReceiver

namespace Discovery

/-- What is left for both coroutines to do. -/
def left (s : Discovery) : ℕ := s.query.rx.left + s.phase.left s.query.responses.length

section
variable {Address : Type} {env : Env Address} {al : ℕ → Alloc} {s s' : Discovery}
  {a : DiscoverAction} {as : List DiscoverAction} {es : List (DiscoverEvent Address)}
  {qa : Action} {q : Query} {qs : List Event}

/-! ## Every step counts -/

/-- Where `advance` leads to there is nothing left to do but for the items in the queue. -/
theorem left_advance (env : Env Address) (al : ℕ → Alloc) (turn : Turn Address) (s : Discovery) :
    (s.advance env al turn).1.left ≤ s.query.rx.left + (4 * s.query.responses.length + 1) := by
  rcases advance_cases env al turn s with ⟨found, -, h⟩ | ⟨r, -, h⟩
  · rw [h]
    exact le_refl _
  · rw [h]
    exact Nat.le_add_right _ _

theorem rxEc_advance (turn : Turn Address) (s : Discovery) :
    (s.advance env al turn).1.query.rxEc = s.query.rxEc := by
  rcases advance_cases env al turn s with ⟨found, -, h⟩ | ⟨r, -, h⟩
  · rw [h]
  · rw [h]
    rfl

theorem Calls.left (h : Calls s a qa) :
    s.left = s.query.rx.left + (4 * s.query.responses.length + 1) := by
  cases h with
  | call hp | wake hp => rw [Discovery.left, hp]; rfl

theorem Calls.not_ofReceiver (h : Calls s a qa) : qa.ofReceiver = false := by
  cases h <;> rfl

theorem Calls.ofCoroutine (h : Calls s a qa) : a.ofCoroutine = true := by
  cases h <;> rfl

/-- An answered call leaves an item less, or is the last one. -/
theorem Answers.fewer (h : Answers s.query q qs) {o : Outcome}
    (ho : qs.findSome? Event.outcome = some o) :
    q.responses.length + 1 = s.query.responses.length ∨
      q.responses = [] ∧ ∃ ec, o = .ok (.error (.code ec)) := by
  rcases h with ⟨-, -, rfl, -⟩ | ⟨i, rest, hq, hr, -, -⟩ | ⟨ec, -, -, hr, -, rfl, -⟩
  · cases ho
  · left
    rw [hq, hr]
    rfl
  · exact .inr ⟨hr, ec, (Option.some.inj ho).symm⟩

/-- **When the query is over, every step of a coroutine brings `discover` nearer to its
    end, and no other step takes it away from there.** -/
theorem left_step (hi : Inv s) {ec : ErrorCode} (he : s.query.rxEc = some ec)
    (h : Took env al s a s' es) :
    s'.query.rxEc = some ec ∧ s'.left + (if a.ofCoroutine then 1 else 0) ≤ s.left := by
  have hover : s.query.Over := .inl (by rw [he]; exact nofun)
  cases h with
  | parked ha hq hn hs => rw [he] at hn; cases hn
  | @asked _ _ q qs rsp ha hs ho hep =>
    have ht := Query.took_of_step hs
    have hrx := (Query.left_step ht hover).2
    rw [ha.not_ofReceiver] at hrx
    refine ⟨(Query.took_rxEc ht he).1, ?_⟩
    rw [ha.left, ha.ofCoroutine]
    rcases (answers hi ha hs).fewer ho with hlen | ⟨-, ec', hc⟩
    · simp only [left, Phase.left, Stage.left, if_true]
      simp only [Bool.false_eq_true, if_false] at hrx
      omega
    · cases hc
  | @advanced _ _ q qs o ha hs ho =>
    have ht := Query.took_of_step hs
    have hrx := (Query.left_step ht hover).2
    rw [ha.not_ofReceiver] at hrx
    simp only [Bool.false_eq_true, if_false] at hrx
    refine ⟨(rxEc_advance _ _).trans (Query.took_rxEc ht he).1, ?_⟩
    rw [ha.left, ha.ofCoroutine, if_pos rfl]
    rcases (answers hi ha hs).fewer ho with hlen | ⟨hnil, ec', rfl⟩
    · have hadv := left_advance env al (unsent o) { s with query := q }
      simp only at hadv
      omega
    · obtain ⟨r, heq⟩ := finish_of_code env al ec' { s with query := q }
      rw [heq]
      simp only [left, finish, Phase.left]
      omega
  | staged hp hr =>
    refine ⟨he, ?_⟩
    have := Stage.left_next hr
    simp only [left, hp, Phase.left, DiscoverAction.ofCoroutine, if_true]
    omega
  | @fetched rsp stage _ al' x hp hr =>
    refine ⟨(rxEc_advance _ _).trans he, ?_⟩
    have hadv := left_advance env al ⟨.ok (.ok rsp), fun _ _ => x, al'⟩ s
    have := stage.left_pos
    simp only [left, hp, Phase.left, DiscoverAction.ofCoroutine, if_true] at hadv ⊢
    omega
  | @background b q qs ha hs =>
    have ht := Query.took_of_step hs
    obtain ⟨he', hpush⟩ := Query.took_rxEc ht he
    have hrx := (Query.left_step ht hover).2
    have hqueue := Query.queue_step ht
    rw [hpush, popped_ofHandlers ht ha, List.append_nil, List.map_nil, List.nil_append] at hqueue
    refine ⟨he', ?_⟩
    have hb : (DiscoverAction.background b).ofCoroutine = b.ofReceiver := rfl
    rw [hb]
    simp only [left, ← hqueue]
    omega

theorem left_run (hi : Inv s) {ec : ErrorCode} (he : s.query.rxEc = some ec)
    (h : (machine env al).RunFrom s as es s') :
    s'.left + as.countP DiscoverAction.ofCoroutine ≤ s.left :=
  (h.countdown_le (I := fun s => Inv s ∧ s.query.rxEc = some ec) (f := left) ⟨hi, he⟩
    (fun hI hs =>
      have ht := took_of_step hI.1 hs
      ⟨hI.1.step ht, (left_step hI.1 hI.2 ht).1⟩)
    (fun hI hs => (left_step hI.1 hI.2 (took_of_step hI.1 hs)).2)).2

/-! ## Something can always be done -/

theorem step_call (h : s.phase = .calling) (hi : Inv s) : (s.step env al .call).isSome = true := by
  have hsus : 0 ∉ s.query.suspended := by
    rw [hi.suspended, h]
    exact fun hp => nomatch hp.2
  have hstop := hi.not_stopped (by rw [h]; exact nofun)
  simp [step, h, Query.step, hsus, hstop]

theorem step_background {b : Action} (hb : b.ofHandlers = true)
    (h : (s.query.step b).isSome = true) : (s.step env al (.background b)).isSome = true := by
  simp only [step, if_pos hb, Option.isSome_map, h]

theorem ofHandlers_of_ofReceiver {b : Action} (h : b.ofReceiver = true) : b.ofHandlers = true := by
  cases b <;> first | rfl | cases h

/-- **As long as `discover` has not returned, one of the coroutines can go on when the
    query is over.** -/
theorem moves (env : Env Address) (al : ℕ → Alloc) (hi : Inv s) (he : s.query.rxEc ≠ none)
    (hp : ∀ r, s.phase ≠ .returned r) :
    ∃ b : DiscoverAction, b.ofCoroutine = true ∧ (s.step env al b).isSome = true := by
  rcases hphase : s.phase with _ | _ | ⟨rsp, stage⟩ | r
  · exact ⟨.call, rfl, step_call hphase hi⟩
  · have hsus : 0 ∈ s.query.suspended := (hi.suspended 0).2 ⟨rfl, hphase⟩
    rcases (hi.query.frames 0).1 hsus with hcv | hposted
    · -- it waits for a notification, which the receive coroutine is going to send
      have hrx := (hi.query.waiting (List.ne_nil_of_mem hcv)).2
      obtain ⟨-, ⟨b, hb, hstep⟩, -⟩ := Query.ending hi.query (.inl he) hrx
      exact ⟨.background b, hb, step_background (ofHandlers_of_ofReceiver hb) hstep⟩
    · exact ⟨.wake, rfl, by simp [step, hphase, Query.step, hposted]⟩
  · obtain ⟨x, hx⟩ := stage.next_failed .timedOut
    exact ⟨.io (.failed .timedOut) fun _ => ⟨1, Int.one_pos⟩, rfl, by simp [step, hphase, hx]⟩
  · exact absurd hphase (hp r)

/-- `discover` has to return: one of the coroutines can take a step until it has, and they
    take `left` steps at most, whatever else happens between them. -/
structure Ending (env : Env Address) (al : ℕ → Alloc) (s : Discovery) : Prop where
  moves : (∀ r, s.phase ≠ .returned r) →
    ∃ b : DiscoverAction, b.ofCoroutine = true ∧ (s.step env al b).isSome = true
  bounded : ∀ as es s', (machine env al).RunFrom s as es s' →
    as.countP DiscoverAction.ofCoroutine ≤ s.left

/-- **`discover` returns.**  Until its query is over, the receive coroutine is about to
    start the timer, or the timer runs; once it is over, `discover` has to return; and when
    it has returned, the query is stopped, and the receive coroutine has to end. -/
theorem ending_of_run (h : (machine env al).Run as es s) :
    (s.query.rxEc = none → s.query.rx = .spawned ∨
      s.query.timer = .armed ∧ ∀ q qs, s.query.step .timer = some (q, qs) → q.rxEc ≠ none) ∧
    (s.query.rxEc ≠ none → Ending env al s) ∧
    ((∃ r, s.phase = .returned r) → s.query.stopped = true ∧
      (s.query.rx ≠ .finished → s.query.socketOpen = false ∧ s.query.Ending)) := by
  have hi := inv_of_run h
  obtain ⟨bs, hq⟩ := run_query h
  obtain ⟨hidle, hdone⟩ := Query.timed_of_run hq
  refine ⟨?_, ?_, ?_⟩
  · intro he
    rcases ht : s.query.timer with _ | _ | _
    · exact .inl (hidle ht)
    · refine .inr ⟨rfl, fun q qs hs => ?_⟩
      simp only [Query.step, ht, he, Option.isSome_none, Bool.false_eq_true, if_false] at hs
      cases hs
      exact Option.some_ne_none _
    · exact absurd he (hdone ht)
  · intro he
    obtain ⟨ec, hec⟩ := Option.ne_none_iff_exists'.1 he
    refine ⟨moves env al hi he, fun as es s' hrun => ?_⟩
    have := left_run hi hec hrun
    omega
  · intro hr
    have hst := hi.stopped.2 hr
    refine ⟨hst, fun hrx => ⟨hi.query.closed (.inr hst) hrx, Query.ending hi.query (.inr hst) hrx⟩⟩

/-- The timer runs while the call waits. -/
def timedWaiting : List DiscoverAction := [.call, .background .rxStart, .background .timer]

theorem ending_of_timedWaiting : ∃ es s, (machine (Env.oneHost fun _ => none)
      fun _ _ => ⟨1, Int.one_pos⟩).Run timedWaiting es s ∧ s.phase.result = none ∧
    Ending (Env.oneHost fun _ => none) (fun _ _ => ⟨1, Int.one_pos⟩) s :=
  ⟨_, _, rfl, rfl, (ending_of_run (show (machine (Env.oneHost fun _ => none)
    fun _ _ => ⟨1, Int.one_pos⟩).Run timedWaiting _ _ from rfl)).2.1 (by exact nofun)⟩

end

end Discovery

end Upnp
