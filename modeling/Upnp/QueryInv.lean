/-
  What holds in every reachable state of a query.

  * `Inv` relates the waiting calls, the queue, the socket and the phase of the
    receive coroutine; every step keeps it (`Inv.step`);
  * `took_rxEc`: `_rx_ec` is written once, and ends the pushing;
  * `left_step`: once the query is over, the receive coroutine has a fixed
    number of steps left;
  * `waiters`: no call of `get_response` is left waiting.
-/
import Upnp.Query

namespace Upnp

open Lib

/-- The steps of the receive coroutine. -/
def Action.ofReceiver : Action → Bool
  | .rxStart | .receive _ | .rxResume _ => true
  | _ => false

/-- How many steps the receive coroutine takes if it is to end without receiving
    a datagram it wants. -/
def Rx.left : Rx → ℕ
  | .spawned => 3
  | .receiving => 2
  | .resuming _ => 1
  | .finished => 0

namespace Query

variable {s s' s₀ : Query} {a : Action} {as : List Action} {c : Call} {es : List Event}

/-- The items an event list pushes. -/
def pushed (es : List Event) : List Item :=
  es.filterMap fun | .pushed i => some i | _ => none

/-- The query is over: the receive coroutine is to end. -/
def Over (s : Query) : Prop := s.rxEc ≠ none ∨ s.stopped = true

structure Inv (s : Query) : Prop where
  waiting : s.cv ≠ [] → s.responses = [] ∧ s.rx ≠ .finished
  closed : s.Over → s.rx ≠ .finished → s.socketOpen = false
  ended : s.rx = .finished → s.rxEc ≠ none
  frames : ∀ c, c ∈ s.suspended ↔ c ∈ s.cv ∨ c ∈ s.posted
  nodup : (s.cv ++ s.posted).Nodup

theorem Inv.start : Inv start :=
  ⟨by simp [Query.start], by simp [Query.start, Over], by simp [Query.start],
    by simp [Query.start], by simp [Query.start]⟩

/-! ## Notifying -/

/-- After a notification nobody waits. -/
theorem Inv.notify (h : Inv s) {s₁ : Query} (hcv : s₁.cv = s.cv) (hp : s₁.posted = s.posted)
    (hs : s₁.suspended = s.suspended) (hc : s₁.Over → s₁.rx ≠ .finished → s₁.socketOpen = false)
    (he : s₁.rx = .finished → s₁.rxEc ≠ none) : Inv s₁.notify where
  waiting hw := absurd rfl hw
  closed := hc
  ended := he
  frames c := by
    simp only [Query.notify, hs, hcv, hp, h.frames, List.not_mem_nil, List.mem_append, false_or]
    exact or_comm
  nodup := by
    simp only [Query.notify, hcv, hp, List.nil_append]
    exact (List.nodup_append_comm).1 h.nodup

/-! ## Steps of the calls -/

/-- A call that gets to the loop waits nowhere, and the others wait where they did. -/
theorem Enters.frames (h : Enters s a c s₀) (hi : Inv s) :
    c ∉ s₀.cv ∧ (∀ d, d ∈ s₀.posted ↔ d ∈ s.posted ∧ d ≠ c) ∧ (s₀.cv ++ s₀.posted).Nodup := by
  cases h with
  | call hc hs =>
    have hc' := mt (hi.frames c).2 hc
    rw [not_or] at hc'
    exact ⟨hc'.1, fun d => ⟨fun hd => ⟨hd, fun e => hc'.2 (e ▸ hd)⟩, And.left⟩, hi.nodup⟩
  | wake hc =>
    obtain ⟨-, hp, hne⟩ := List.nodup_append.1 hi.nodup
    refine ⟨fun hcv => hne c hcv c hc rfl, ?_, ?_⟩
    · intro d
      rw [hp.mem_erase_iff, and_comm]
    · exact hi.nodup.sublist (List.Sublist.append_left List.erase_sublist s.cv)

theorem Inv.returns (hi : Inv s) (h : Enters s a c s₀) {rest : List Item}
    (hw : s.cv ≠ [] → rest = []) :
    Inv { s₀ with responses := rest, suspended := s₀.suspended.erase c } := by
  obtain ⟨hcv, hp, hn⟩ := h.frames hi
  have he := h.eq
  rw [he] at hcv hn ⊢
  refine ⟨fun hne => ⟨hw hne, (hi.waiting hne).2⟩, hi.closed, hi.ended, ?_, hn⟩
  intro d
  simp only [Finset.mem_erase, hi.frames, hp]
  constructor
  · rintro ⟨hne, h | h⟩
    · exact .inl h
    · exact .inr ⟨h, hne⟩
  · rintro (h | ⟨h, hne⟩)
    · exact ⟨fun e => hcv (e ▸ h), .inl h⟩
    · exact ⟨hne, .inr h⟩

theorem Inv.waits (hi : Inv s) (h : Enters s a c s₀) (hq : s.responses = []) (he : s.rxEc = none) :
    Inv { s₀ with cv := s₀.cv ++ [c], suspended := insert c s₀.suspended } := by
  obtain ⟨hcv, hp, hn⟩ := h.frames hi
  have hcp : c ∉ s₀.posted := fun hm => ((hp c).1 hm).2 rfl
  have hs := h.eq
  rw [hs] at hcv hn ⊢
  refine ⟨fun _ => ⟨hq, fun hr => hi.ended hr he⟩, hi.closed, hi.ended, ?_, ?_⟩
  · intro d
    simp only [Finset.mem_insert, List.mem_append, List.mem_singleton, hi.frames, hp]
    by_cases hd : d = c <;> simp [hd]
  · have hperm : (s.cv ++ [c] ++ s₀.posted).Perm (c :: (s.cv ++ s₀.posted)) := by
      rw [List.append_assoc]
      exact List.perm_middle
    refine hperm.nodup_iff.2 (List.nodup_cons.2 ⟨?_, hn⟩)
    simp only [List.mem_append, not_or]
    exact ⟨hcv, hcp⟩

/-! ## Every step -/

theorem rxEcAfter_eq_none {r : Arrival} (h : s.rxEcAfter r = none) :
    s.rxEc = none ∧ s.stopped = false ∧ r.ec = none := by
  unfold rxEcAfter at h
  split at h
  · cases h
  · rename_i he
    split at h
    · cases h
    · rename_i hs; exact ⟨he, by simpa using hs, h⟩

theorem rxEcAfter_of_some {r : Arrival} {ec : ErrorCode} (h : s.rxEc = some ec) :
    s.rxEcAfter r = some ec := by
  simp [rxEcAfter, h]

theorem not_over_of_rxEcAfter {r : Arrival} (h : s.rxEcAfter r = none) : ¬ s.Over := by
  obtain ⟨he, hs, -⟩ := rxEcAfter_eq_none h
  simp [Over, he, hs]

/-- **Every step keeps the invariant.** -/
theorem Inv.step (hi : Inv s) (h : Took s a s' es) : Inv s' := by
  cases h with
  | rxStart hr =>
    exact ⟨fun hne => ⟨(hi.waiting hne).1, nofun⟩, fun ho _ => hi.closed ho (by simp [hr]), nofun,
      hi.frames, hi.nodup⟩
  | receive hr ho =>
    exact ⟨fun hne => ⟨(hi.waiting hne).1, nofun⟩, fun ho _ => hi.closed ho (by simp [hr]), nofun,
      hi.frames, hi.nodup⟩
  | finish hr he => exact hi.notify rfl rfl rfl (fun _ hne => absurd rfl hne) (fun _ => nofun)
  | repeated hr he hp hm =>
    exact ⟨fun hne => ⟨(hi.waiting hne).1, nofun⟩, fun ho => absurd ho (not_over_of_rxEcAfter he),
      nofun, hi.frames, hi.nodup⟩
  | fresh hr he hp hm =>
    exact hi.notify rfl rfl rfl (fun ho => absurd ho (not_over_of_rxEcAfter he)) nofun
  | garbled hr he hp =>
    exact hi.notify rfl rfl rfl (fun ho => absurd ho (not_over_of_rxEcAfter he)) nofun
  | timerLate ht he => exact ⟨hi.waiting, hi.closed, hi.ended, hi.frames, hi.nodup⟩
  | timerFirst ht he =>
    exact ⟨hi.waiting, fun _ _ => rfl, fun _ => nofun, hi.frames, hi.nodup⟩
  | stop => exact ⟨hi.waiting, fun _ _ => rfl, hi.ended, hi.frames, hi.nodup⟩
  | refused hc hs => exact hi
  | served ha hq =>
    exact hi.returns ha fun hne => absurd (hi.waiting hne).1 (by simp [hq])
  | @ended _ c s₀ _ ha hq he =>
    have hr : s₀.responses = s.responses := by rw [ha.eq]
    have := hi.returns ha fun _ => hr.trans hq
    exact this
  | waits ha hq he => exact hi.waits ha hq he

theorem inv_of_run (h : machine.Run as es s) : Inv s :=
  h.invariant (P := fun _ _ s => Inv s) .start fun _ hi hs => hi.step (took_of_step hs)

/-! ## `_rx_ec` -/

/-- **`_rx_ec` is written once, and nothing is pushed from then on.** -/
theorem took_rxEc {ec : ErrorCode} (h : Took s a s' es) (hec : s.rxEc = some ec) :
    s'.rxEc = some ec ∧ pushed es = [] := by
  cases h with
  | rxStart _ | receive _ _ | timerLate _ _ | stop | refused _ _ => exact ⟨hec, rfl⟩
  | finish hr he =>
    rw [rxEcAfter_of_some hec] at he
    exact ⟨he.symm, rfl⟩
  | repeated _ he _ _ | fresh _ he _ _ | garbled _ he _ =>
    rw [rxEcAfter_of_some hec] at he; cases he
  | timerFirst _ he | waits _ _ he => rw [hec] at he; cases he
  | served ha _ | ended ha _ _ =>
    exact ⟨(congrArg Query.rxEc ha.eq).trans hec, rfl⟩

theorem run_rxEc {ec : ErrorCode} (h : machine.RunFrom s as es s') (hec : s.rxEc = some ec) :
    s'.rxEc = some ec ∧ pushed es = [] := by
  refine h.invariant (P := fun _ es s => s.rxEc = some ec ∧ pushed es = []) ⟨hec, rfl⟩ ?_
  intro as es s₁ a s₂ es' _ hp hs
  have := took_rxEc (took_of_step hs) hp.1
  refine ⟨this.1, ?_⟩
  rw [pushed, List.filterMap_append, ← pushed, ← pushed, hp.2, this.2]
  rfl

/-! ## The end of the receive coroutine -/

/-- **Once the query is over, the receive coroutine only goes towards its end.** -/
theorem left_step (h : Took s a s' es) (ho : s.Over) :
    s'.Over ∧ s'.rx.left + (if a.ofReceiver then 1 else 0) = s.rx.left := by
  cases h with
  | rxStart hr | receive hr _ => exact ⟨ho, by simp [Action.ofReceiver, Rx.left, hr]⟩
  | finish hr he => exact ⟨.inl nofun, by simp [Action.ofReceiver, Rx.left, hr, notify]⟩
  | repeated _ he _ _ | fresh _ he _ _ | garbled _ he _ =>
    exact absurd ho (not_over_of_rxEcAfter he)
  | timerLate _ _ | refused _ _ => exact ⟨ho, rfl⟩
  | timerFirst _ _ => exact ⟨.inl nofun, rfl⟩
  | stop => exact ⟨.inr rfl, rfl⟩
  | served ha _ | ended ha _ _ | waits ha _ _ =>
    cases ha with
    | call hc hs => exact ⟨ho, rfl⟩
    | wake hc => exact ⟨ho, rfl⟩

theorem left_run (h : machine.RunFrom s as es s') (ho : s.Over) :
    s'.rx.left + as.countP Action.ofReceiver = s.rx.left :=
  (h.countdown (I := Over) (f := fun s => s.rx.left) ho
    (fun ho hs => (left_step (took_of_step hs) ho).1)
    (fun ho hs => (left_step (took_of_step hs) ho).2)).2

/-- The receive coroutine has to end: nothing more is read, it can always take
    its next step, and after `left` steps of its own, in whatever else happens
    between them, it has finished. -/
def Ending (s : Query) : Prop :=
  (∀ r : Arrival, r.ec = none → step s (.receive r) = none) ∧
  (∃ a : Action, a.ofReceiver = true ∧ (step s a).isSome = true) ∧
  ∀ as es s', machine.RunFrom s as es s' →
    as.countP Action.ofReceiver ≤ s.rx.left ∧
    (as.countP Action.ofReceiver = s.rx.left → s'.rx = .finished)

theorem left_eq_zero {r : Rx} (h : r.left = 0) : r = .finished := by
  cases r <;> first | rfl | cases h

theorem ending (hi : Inv s) (ho : s.Over) (hr : s.rx ≠ .finished) : Ending s := by
  refine ⟨?_, ?_, ?_⟩
  · intro r he
    have hc := hi.closed ho hr
    rcases hrx : s.rx with _ | _ | _ | _ <;> simp [step, hrx, he, hc]
  · rcases hrx : s.rx with _ | _ | r | _
    · exact ⟨.rxStart, rfl, by simp [step, hrx]⟩
    · exact ⟨.receive ⟨some .operationAborted, []⟩, rfl, by simp [step, hrx]⟩
    · exact ⟨.rxResume fun _ => ⟨1, Int.one_pos⟩, rfl, by simp [step, hrx]⟩
    · exact absurd hrx hr
  · intro as es s' h
    have := left_run h ho
    exact ⟨by omega, fun he => left_eq_zero (by omega)⟩

/-- A wake-up of the call `c` makes it return. -/
def Returns (s : Query) (c : Call) : Prop :=
  ∃ s' es o, step s (.wake c) = some (s', es) ∧ Event.returned c o ∈ es ∧ c ∉ s'.suspended

theorem returns_of_posted (hc : c ∈ s.posted) (he : s.rxEc ≠ none) : Returns s c := by
  obtain ⟨ec, he⟩ := Option.ne_none_iff_exists'.1 he
  rcases hq : s.responses with _ | ⟨i, rest⟩ <;>
    simp [Returns, step, hc, getLoop, hq, he]

/-- When the receive coroutine has ended, nobody waits for a notification. -/
theorem Inv.cv_eq_nil (hi : Inv s) (hr : s.rx = .finished) : s.cv = [] := by
  by_contra hne
  exact (hi.waiting hne).2 hr

theorem Inv.mem_posted (hi : Inv s) (hr : s.rx = .finished) (hc : c ∈ s.suspended) :
    c ∈ s.posted := by
  simpa [hi.cv_eq_nil hr] using (hi.frames c).1 hc

/-- **No call of `get_response` is left waiting, and no wake-up is lost.** -/
theorem waiters (h : machine.Run as es s) :
    (s.cv ≠ [] → s.responses = [] ∧ s.rx ≠ .finished) ∧
    (∀ ec, s.rxEc = some ec → ∀ as' es' s', machine.RunFrom s as' es' s' →
      s'.rxEc = some ec ∧ pushed es' = []) ∧
    (s.Over → s.rx ≠ .finished → s.socketOpen = false ∧ Ending s) ∧
    (∀ c, c ∈ s.suspended ↔ c ∈ s.cv ∨ c ∈ s.posted) ∧
    (s.rx = .finished → s.cv = [] ∧ ∀ c ∈ s.suspended, c ∈ s.posted ∧ Returns s c) := by
  have hi := inv_of_run h
  refine ⟨hi.waiting, fun ec hec as' es' s' h' => run_rxEc h' hec,
    fun ho hr => ⟨hi.closed ho hr, ending hi ho hr⟩, hi.frames, ?_⟩
  intro hr
  refine ⟨hi.cv_eq_nil hr, ?_⟩
  intro c hc
  have hp := hi.mem_posted hr hc
  exact ⟨hp, returns_of_posted hp (hi.ended hr)⟩

/-- A call waits, and `stop()` comes before the receive coroutine starts. -/
def stopFirst : List Action :=
  [.getResponse 0, .stop, .rxStart, .receive ⟨some .operationAborted, []⟩,
    .rxResume fun _ => ⟨1, Int.one_pos⟩]

theorem waiters_stopFirst : ∃ es s, machine.Run stopFirst es s ∧ s.suspended = {0} ∧
    s.cv = [] ∧ ∀ c ∈ s.suspended, c ∈ s.posted ∧ Returns s c :=
  ⟨_, _, rfl, rfl, (waiters (show machine.Run stopFirst _ _ from rfl)).2.2.2.2 rfl⟩

end Query

end Upnp
