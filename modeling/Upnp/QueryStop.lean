/-
  What `stop()` makes of a query that is still receiving.

  * `abortedOrNone_step`: from then on only the handler of the timer sets `_rx_ec`
    to something other than `operation_aborted`;
  * `stop_iff`: the waiting calls are told `operation_aborted` exactly in the runs
    in which that handler does not come first.
-/
import Upnp.QueryInv

namespace Upnp

open Lib

namespace Query

variable {s s' : Query} {a : Action} {as : List Action} {es : List Event}

/-- The handler of the timer does not run while `_rx_ec` is unset. -/
def NotTimed (s : Query) (a : Action) : Prop := a = .timer → s.rxEc ≠ none

/-- `_rx_ec` is unset or `operation_aborted`. -/
def AbortedOrNone (s : Query) : Prop := s.rxEc = none ∨ s.rxEc = some .operationAborted

theorem stopped_step (h : Took s a s' es) (hs : s.stopped = true) : s'.stopped = true := by
  by_cases ha : a = .stop
  · subst ha
    cases h with
    | stop => rfl
    | served he _ | ended he _ _ | waits he _ _ => cases he
  · rw [stopped_eq h ha, hs]

/-- **After `stop()`, `_rx_ec` becomes `operation_aborted`, unless the handler of the
    timer runs first.** -/
theorem abortedOrNone_step (h : Took s a s' es) (hs : s.stopped = true) (he : s.rxEc = none) :
    NotTimed s a ↔ AbortedOrNone s' := by
  have hne : ∀ {b : Action}, b ≠ .timer → NotTimed s b := fun hb hn => absurd hn hb
  cases h with
  | rxStart _ | receive _ _ => exact iff_of_true (hne (by simp)) (.inl he)
  | @finish _ r ec _ hec =>
    refine iff_of_true (hne (by simp)) (.inr ?_)
    rw [rxEcAfter, he, if_pos hs] at hec
    exact hec.symm
  | repeated _ he' _ _ | fresh _ he' _ _ | garbled _ he' _ =>
    exact absurd (.inr hs) (not_over_of_rxEcAfter he')
  | timerLate _ hn => exact absurd he hn
  | timerFirst _ _ =>
    refine iff_of_false (fun h => h rfl he) ?_
    rintro (h | h) <;> cases h
  | stop => exact iff_of_true (hne (by simp)) (.inl he)
  | refused _ _ => exact iff_of_true (hne (by simp)) (.inl he)
  | served ha _ | waits ha _ _ =>
    refine iff_of_true (hne ?_) (.inl ((congrArg Query.rxEc ha.eq).trans he))
    cases ha <;> simp
  | ended _ _ hec =>
    rw [he] at hec
    cases hec

theorem notTimed_iff_of_run (h : machine.RunFrom s as es s') (hs : s.stopped = true)
    (he : s.rxEc = none) :
    s'.stopped = true ∧ (machine.Meets NotTimed s as ↔ AbortedOrNone s') := by
  refine h.invariant (P := fun as _ s' => s'.stopped = true ∧
    (machine.Meets NotTimed s as ↔ AbortedOrNone s')) ⟨hs, iff_of_true trivial (.inl he)⟩ ?_
  rintro as es s₁ a s₂ es' hrun ⟨hst, ih⟩ hstep
  have ht := took_of_step hstep
  refine ⟨stopped_step ht hst, ?_⟩
  rw [Machine.meets_snoc hrun, ih]
  rcases hec : s₁.rxEc with _ | ec
  · rw [and_iff_right (.inl hec)]
    exact abortedOrNone_step ht hst hec
  · have hn : NotTimed s₁ a := fun _ hn => by rw [hec] at hn; cases hn
    rw [and_iff_left hn, AbortedOrNone, AbortedOrNone, hec, (took_rxEc ht hec).1]

/-- What the calls that `stop()` finds waiting are to be told, in a run `es` that
    ends in `s'`. -/
structure Aborted (es : List Event) (s' : Query) : Prop where
  rxEc : AbortedOrNone s'
  /-- the receive coroutine ends with `operation_aborted`, and does end -/
  finished : s'.rx = .finished → s'.rxEc = some .operationAborted
  ending : s'.rx ≠ .finished → Ending s'
  /-- no call was told anything else -/
  returned : ∀ c ec, Event.returned c (.ok (.error (.code ec))) ∈ es → ec = .operationAborted
  /-- a call that still waits then is going to be told so, if the queue is empty -/
  waiting : s'.rx = .finished → ∀ c ∈ s'.suspended, c ∈ s'.posted ∧ (s'.responses = [] →
    ∃ s'', step s' (.wake c) = some (s'', [.returned c (.ok (.error (.code .operationAborted)))]))

theorem returned_step {c : Call} {ec : ErrorCode} (h : Took s a s' es)
    (hr : Event.returned c (.ok (.error (.code ec))) ∈ es) : s.rxEc = some ec := by
  cases h with
  | rxStart _ | receive _ _ | timerLate _ _ | timerFirst _ _ | stop | waits _ _ _ => cases hr
  | finish _ _ | repeated _ _ _ _ | fresh _ _ _ _ | garbled _ _ _ | refused _ _ => simp at hr
  | @served _ c' _ i _ ha hq =>
    rcases i with e | rsp <;> simp [value, Except.map] at hr
  | ended ha hq he =>
    simp only [List.mem_singleton, Event.returned.injEq, Except.ok.injEq, Except.error.injEq,
      GetResponseError.code.injEq] at hr
    rw [hr.2]
    exact he

/-- In a run that meets the condition, no call is told anything else. -/
theorem returned_of_meets (h : machine.RunFrom s as es s') (hs : s.stopped = true)
    (he : s.rxEc = none) (hm : machine.Meets NotTimed s as) (c : Call) (ec : ErrorCode)
    (hr : Event.returned c (.ok (.error (.code ec))) ∈ es) : ec = .operationAborted := by
  refine h.invariant (P := fun as es _ => machine.Meets NotTimed s as →
    Event.returned c (.ok (.error (.code ec))) ∈ es → ec = .operationAborted) nofun ?_ hm hr
  intro as es s₁ a s₂ es' hrun ih hstep hm hr
  have hm := ((Machine.meets_snoc hrun).1 hm).1
  rcases List.mem_append.1 hr with hr | hr
  · exact ih hm hr
  · have hec := returned_step (took_of_step hstep) hr
    rcases (notTimed_iff_of_run hrun hs he).2.1 hm with h | h
    · rw [h] at hec
      cases hec
    · rw [h, Option.some.injEq] at hec
      exact hec.symm

theorem step_wake_of_aborted {c : Call} (hc : c ∈ s.posted) (hq : s.responses = [])
    (he : s.rxEc = some .operationAborted) :
    ∃ s', step s (.wake c) = some (s', [.returned c (.ok (.error (.code .operationAborted)))]) := by
  simp [step, hc, getLoop, hq, he]

/-- **After `stop()` the waiting calls are told `operation_aborted` exactly in the runs
    in which the handler of the timer does not run while `_rx_ec` is unset.** -/
theorem stop_iff {as₀ : List Action} {es₀ : List Event} (h₀ : machine.Run as₀ es₀ s)
    (he : s.rxEc = none) (h : machine.RunFrom s (.stop :: as) es s') :
    Aborted es s' ↔ machine.Meets NotTimed s (.stop :: as) := by
  have hi : Inv s' := inv_of_run (h₀.append h)
  obtain ⟨s₁, es₁, es₂, hstop, hrun, rfl⟩ := Machine.runFrom_cons.1 h
  have hmeets : machine.Meets NotTimed s (.stop :: as) ↔ machine.Meets NotTimed s₁ as := by
    simp only [Machine.Meets, hstop, Option.some.injEq, forall_eq', NotTimed, reduceCtorEq,
      false_implies, true_and]
  cases hstop
  obtain ⟨hs, hiff⟩ := notTimed_iff_of_run hrun rfl he
  rw [hmeets]
  constructor
  · intro h
    exact hiff.2 h.rxEc
  · intro hm
    have hfin : s'.rx = .finished → s'.rxEc = some .operationAborted :=
      fun hr => (hiff.1 hm).resolve_left (hi.ended hr)
    refine ⟨hiff.1 hm, hfin, fun hr => ending hi (.inr hs) hr,
      returned_of_meets hrun rfl he hm, ?_⟩
    intro hr c hc
    have hp := hi.mem_posted hr hc
    exact ⟨hp, fun hq => step_wake_of_aborted hp hq (hfin hr)⟩

/-- A call waits for the first response, and `stop()` comes before the timer. -/
def waiting : List Action := [.rxStart, .getResponse 0]

/-- The receive completes first, then the handler of the timer. -/
def receiveFirst : List Action :=
  [.receive ⟨some .operationAborted, []⟩, .rxResume fun _ => ⟨1, Int.one_pos⟩, .timer, .wake 0]

/-- The handlers in the other order. -/
def timerFirst : List Action :=
  [.timer, .receive ⟨some .operationAborted, []⟩, .rxResume fun _ => ⟨1, Int.one_pos⟩, .wake 0]

theorem aborted_receiveFirst : ∃ s es s', machine.Run waiting [] s ∧ s.rxEc = none ∧
    machine.RunFrom s (.stop :: receiveFirst) es s' ∧ Aborted es s' := by
  obtain ⟨s, s₁, es, s', h₀, he, hstop, hrun, hs, he₁, ha⟩ : ∃ s s₁ es s',
      machine.Run waiting [] s ∧ s.rxEc = none ∧ machine.step s .stop = some (s₁, []) ∧
      machine.RunFrom s₁ receiveFirst es s' ∧ s₁.stopped = true ∧ s₁.rxEc = none ∧
      AbortedOrNone s' := ⟨_, _, _, _, rfl, rfl, rfl, rfl, rfl, rfl, .inr rfl⟩
  have h := Machine.RunFrom.cons hstop hrun
  refine ⟨s, es, s', h₀, he, h, (stop_iff h₀ he h).2 ⟨nofun, ?_⟩⟩
  intro r hr
  rw [hstop, Option.some.injEq] at hr
  subst hr
  exact (notTimed_iff_of_run hrun hs he₁).2.2 ha

/-- When the cancelled timer is handled first, the waiting call is told `timed_out`. -/
theorem stop_timerFirst : ∃ s es s', machine.Run waiting [] s ∧ s.rxEc = none ∧
    s.suspended = {0} ∧ machine.RunFrom s (.stop :: timerFirst) es s' ∧
    Event.returned 0 (.ok (.error (.code .timedOut))) ∈ es ∧
    s'.rxEc = some .timedOut ∧ ¬ Aborted es s' := by
  refine ⟨_, _, _, rfl, rfl, rfl, rfl, ?_, rfl, ?_⟩
  · exact List.mem_cons_of_mem _ List.mem_cons_self
  · intro h
    rcases h.rxEc with he | he <;> cases he

end Query

end Upnp
