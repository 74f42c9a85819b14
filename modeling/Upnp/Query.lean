/-
  The state of an SSDP query (`ssdp::query::state_t`, `src/ssdp.cpp`, and
  `src/condition_variable.h`).

  Between two suspension points nothing else runs, so a step of the machine is
  what one coroutine or handler does from one suspension point to the next:

  * `rxStart`: the spawned coroutine starts, arms the timer and begins to
    receive;
  * `receive r`: the pending receive has its outcome `r`.  Without an error it
    has read a datagram, which takes an open socket;
  * `rxResume`: the receive completes, that is, the coroutine is resumed with
    the outcome and runs the body of its loop;
  * `timer`: the handler of the timer runs, whether the timer expired or `stop`
    cancelled it;
  * `stop`: `stop()`;
  * `getResponse c`, `wake c`: a call of `get_response`, and a posted wake-up of
    a call that waits in `_cv`.

  `suspended` keeps the calls whose coroutines are suspended in `_cv.wait`,
  apart from the two lists that may hold their handlers: `cv` (`_cv._on_notify`)
  and `posted` (the executor's).  Whether a bad result access ends the process
  or throws depends on `NDEBUG`; a run goes on after one, which covers both.

  * `Took` says what each step does, and `took_of_step` that it does nothing
    else.
-/
import Mathlib.Data.Finset.Erase
import Mathlib.Data.Finset.Insert
import Upnp.Lib.Machine
import Upnp.Ssdp

namespace Upnp

/-- `query::error::get_response`. -/
inductive GetResponseError where
  | parse (e : ParseError)
  | code (ec : ErrorCode)
  deriving DecidableEq, Repr

/-- An element of `_responses`. -/
abbrev Item := Except ParseError Response

/-- One call of `get_response`. -/
abbrev Call := ℕ

/-- What a call of `get_response` comes to. -/
abbrev Outcome := Except Fault (Except GetResponseError Response)

/-- What `async_receive_from` gives: `ec`, and the bytes it read. -/
structure Arrival where
  ec : Option ErrorCode
  data : Str
  deriving DecidableEq, Repr

/-- Where the receive coroutine is. -/
inductive Rx where
  | spawned
  | receiving
  | resuming (r : Arrival)
  | finished
  deriving DecidableEq, Repr

inductive Timer where
  | idle | armed | done
  deriving DecidableEq, Repr

/-- `query::state_t`, with the handlers that are to run. -/
structure Query where
  responses : List Item
  alreadySeenUsns : Finset Str
  stopped : Bool
  rxEc : Option ErrorCode
  socketOpen : Bool
  cv : List Call
  posted : List Call
  suspended : Finset Call
  rx : Rx
  timer : Timer

inductive Action where
  | rxStart
  | receive (r : Arrival)
  | rxResume (al : Alloc)
  | timer
  | stop
  | getResponse (c : Call)
  | wake (c : Call)

/-- What a step reports. -/
inductive Event where
  /-- A receive completed; in time, if neither `_stopped` nor `_rx_ec` was set. -/
  | completed (inTime : Bool) (al : Alloc) (r : Arrival)
  | pushed (i : Item)
  | popped (c : Call) (i : Item)
  | returned (c : Call) (o : Outcome)
  /-- A call made after `stop()` returned `operation_aborted`. -/
  | refused (c : Call)

namespace Query

/-- The state `query::start` leaves, with the receive coroutine spawned. -/
def start : Query :=
  { responses := [], alreadySeenUsns := ∅, stopped := false, rxEc := none, socketOpen := true
    cv := [], posted := [], suspended := ∅, rx := .spawned, timer := .idle }

/-- `_cv.notify()`: the handlers are posted, oldest first. -/
def notify (s : Query) : Query := { s with cv := [], posted := s.posted ++ s.cv }

/-- `_responses.push(i); _cv.notify();` -/
def push (i : Item) (s : Query) : Query := notify { s with responses := s.responses ++ [i] }

/-- What the receive loop does with a datagram. -/
def take (al : Alloc) (data : Str) (s : Query) : Query × List Event :=
  match Response.parse al data with
  | .ok r =>
    if r.usn ∈ s.alreadySeenUsns then (s, [])
    else (push (.ok r) { s with alreadySeenUsns := insert r.usn s.alreadySeenUsns },
      [.pushed (.ok r)])
  | .error e => (push (.error e) s, [.pushed (.error e)])

/-- `_rx_ec` when the receive loop tests it. -/
def rxEcAfter (s : Query) (r : Arrival) : Option ErrorCode :=
  match s.rxEc with
  | some ec => some ec
  | none => if s.stopped then some .operationAborted else r.ec

/-- The coroutine still wants what it receives. -/
def inTime (s : Query) : Bool := !s.stopped && s.rxEc.isNone

/-- The receive loop, from one receive to the next or to the end. -/
def rxLoop (al : Alloc) (r : Arrival) (s : Query) : Query × List Event :=
  let (s', es) :=
    match s.rxEcAfter r with
    | some ec => (notify { s with rxEc := some ec, rx := .finished }, [])
    | none => take al r.data { s with rx := .receiving }
  (s', .completed s.inTime al r :: es)

/-- The loop of `get_response` and what follows it, for the call `c`. -/
def getLoop (c : Call) (s : Query) : Query × List Event :=
  match s.responses with
  | r :: rest =>
    ({ s with responses := rest, suspended := s.suspended.erase c },
      [.popped c r, .returned c ((value r).map .ok)])
  | [] =>
    match s.rxEc with
    | some ec =>
      ({ s with suspended := s.suspended.erase c }, [.returned c (.ok (.error (.code ec)))])
    | none => ({ s with cv := s.cv ++ [c], suspended := insert c s.suspended }, [])

def step (s : Query) : Action → Option (Query × List Event)
  | .rxStart =>
    match s.rx with
    | .spawned => some ({ s with rx := .receiving, timer := .armed }, [])
    | _ => none
  | .receive r =>
    match s.rx with
    | .receiving =>
      if r.ec.isSome || s.socketOpen then some ({ s with rx := .resuming r }, []) else none
    | _ => none
  | .rxResume al =>
    match s.rx with
    | .resuming r => some (s.rxLoop al r)
    | _ => none
  | .timer =>
    match s.timer with
    | .armed =>
      if s.rxEc.isSome then some ({ s with timer := .done }, [])
      else some ({ s with timer := .done, rxEc := some .timedOut, socketOpen := false }, [])
    | _ => none
  | .stop => some ({ s with stopped := true, socketOpen := false }, [])
  | .getResponse c =>
    if c ∈ s.suspended then none
    else if s.stopped then some (s, [.refused c])
    else some (s.getLoop c)
  | .wake c =>
    if c ∈ s.posted then some ({ s with posted := s.posted.erase c }.getLoop c) else none

/-- A query, run by its coroutines and handlers in any order. -/
def machine : Lib.Machine Query Action Event := ⟨start, step⟩

/-! ## What a step does -/

/-- The call `c` gets to the loop of `get_response`, in the state `s₀`. -/
inductive Enters (s : Query) : Action → Call → Query → Prop
  | call {c : Call} (hc : c ∉ s.suspended) (hs : s.stopped = false) : Enters s (.getResponse c) c s
  | wake {c : Call} (hc : c ∈ s.posted) :
    Enters s (.wake c) c { s with posted := s.posted.erase c }

/-- The step `a` from `s`, by what it comes to. -/
inductive Took (s : Query) : Action → Query → List Event → Prop
  | rxStart (hr : s.rx = .spawned) : Took s .rxStart { s with rx := .receiving, timer := .armed } []
  | receive {r : Arrival} (hr : s.rx = .receiving) (ho : r.ec ≠ none ∨ s.socketOpen = true) :
    Took s (.receive r) { s with rx := .resuming r } []
  | finish {al : Alloc} {r : Arrival} {ec : ErrorCode} (hr : s.rx = .resuming r)
      (he : s.rxEcAfter r = some ec) :
    Took s (.rxResume al) (notify { s with rxEc := some ec, rx := .finished })
      [.completed s.inTime al r]
  | repeated {al : Alloc} {r : Arrival} {rsp : Response} (hr : s.rx = .resuming r)
      (he : s.rxEcAfter r = none) (hp : Response.parse al r.data = .ok rsp)
      (hm : rsp.usn ∈ s.alreadySeenUsns) :
    Took s (.rxResume al) { s with rx := .receiving } [.completed s.inTime al r]
  | fresh {al : Alloc} {r : Arrival} {rsp : Response} (hr : s.rx = .resuming r)
      (he : s.rxEcAfter r = none) (hp : Response.parse al r.data = .ok rsp)
      (hm : rsp.usn ∉ s.alreadySeenUsns) :
    Took s (.rxResume al)
      (push (.ok rsp)
        { s with rx := .receiving, alreadySeenUsns := insert rsp.usn s.alreadySeenUsns })
      [.completed s.inTime al r, .pushed (.ok rsp)]
  | garbled {al : Alloc} {r : Arrival} {e : ParseError} (hr : s.rx = .resuming r)
      (he : s.rxEcAfter r = none) (hp : Response.parse al r.data = .error e) :
    Took s (.rxResume al) (push (.error e) { s with rx := .receiving })
      [.completed s.inTime al r, .pushed (.error e)]
  | timerLate (ht : s.timer = .armed) (he : s.rxEc ≠ none) :
    Took s .timer { s with timer := .done } []
  | timerFirst (ht : s.timer = .armed) (he : s.rxEc = none) :
    Took s .timer { s with timer := .done, rxEc := some .timedOut, socketOpen := false } []
  | stop : Took s .stop { s with stopped := true, socketOpen := false } []
  | refused {c : Call} (hc : c ∉ s.suspended) (hs : s.stopped = true) :
    Took s (.getResponse c) s [.refused c]
  | served {a : Action} {c : Call} {s₀ : Query} {i : Item} {rest : List Item}
      (ha : Enters s a c s₀) (hq : s.responses = i :: rest) :
    Took s a { s₀ with responses := rest, suspended := s₀.suspended.erase c }
      [.popped c i, .returned c ((value i).map .ok)]
  | ended {a : Action} {c : Call} {s₀ : Query} {ec : ErrorCode}
      (ha : Enters s a c s₀) (hq : s.responses = []) (he : s.rxEc = some ec) :
    Took s a { s₀ with suspended := s₀.suspended.erase c } [.returned c (.ok (.error (.code ec)))]
  | waits {a : Action} {c : Call} {s₀ : Query}
      (ha : Enters s a c s₀) (hq : s.responses = []) (he : s.rxEc = none) :
    Took s a { s₀ with cv := s₀.cv ++ [c], suspended := insert c s₀.suspended } []

variable {s s' s₀ : Query} {a : Action} {c : Call} {es : List Event}

/-- Getting to the loop touches nothing but the posted handlers. -/
theorem Enters.eq (h : Enters s a c s₀) : s₀ = { s with posted := s₀.posted } := by
  cases h <;> rfl

theorem took_of_getLoop (h : Enters s a c s₀) (hl : s₀.getLoop c = (s', es)) :
    Took s a s' es := by
  have hq : s₀.responses = s.responses := by rw [h.eq]
  have he : s₀.rxEc = s.rxEc := by rw [h.eq]
  unfold getLoop at hl
  split at hl
  · rename_i hr
    cases hl; exact .served h (hq.symm.trans hr)
  · rename_i hr
    split at hl
    · rename_i hec
      cases hl; exact .ended h (hq.symm.trans hr) (he.symm.trans hec)
    · rename_i hec
      cases hl; exact .waits h (hq.symm.trans hr) (he.symm.trans hec)

theorem took_of_rxLoop {al : Alloc} {r : Arrival} (h : s.rx = .resuming r) :
    Took s (.rxResume al) (s.rxLoop al r).1 (s.rxLoop al r).2 := by
  rcases he : s.rxEcAfter r with _ | ec
  · rcases hp : Response.parse al r.data with e | rsp
    · simp only [rxLoop, he, take, hp]; exact .garbled h he hp
    · by_cases hm : rsp.usn ∈ s.alreadySeenUsns
      · simp only [rxLoop, he, take, hp, hm, if_true]; exact .repeated h he hp hm
      · simp only [rxLoop, he, take, hp, hm, if_false]; exact .fresh h he hp hm
  · simp only [rxLoop, he]; exact .finish h he

/-- **Every step is one of those `Took` lists.** -/
theorem took_of_step (h : step s a = some (s', es)) : Took s a s' es := by
  cases a with
  | rxStart =>
    simp only [step] at h
    split at h
    · cases h; exact .rxStart ‹_›
    · cases h
  | receive r =>
    simp only [step] at h
    split at h
    · split at h
      · rename_i hr ho
        cases h
        exact .receive hr (by simpa [Option.isSome_iff_ne_none] using ho)
      · cases h
    · cases h
  | rxResume al =>
    simp only [step] at h
    split at h
    · cases h; exact took_of_rxLoop ‹_›
    · cases h
  | timer =>
    simp only [step] at h
    split at h
    · split at h
      · rename_i ht he; cases h; exact .timerLate ht (Option.isSome_iff_ne_none.1 he)
      · rename_i ht he; cases h; exact .timerFirst ht (by simpa using he)
    · cases h
  | stop => cases h; exact .stop
  | getResponse c =>
    simp only [step] at h
    split at h
    · cases h
    · rename_i hc
      split at h
      · cases h; exact .refused hc ‹_›
      · rename_i hs
        exact took_of_getLoop (.call hc (by simpa using hs)) (Option.some.inj h)
  | wake c =>
    simp only [step] at h
    split at h
    · exact took_of_getLoop (.wake ‹_›) (Option.some.inj h)
    · cases h

/-- Only `stop()` writes `_stopped`. -/
theorem stopped_eq (h : Took s a s' es) (ha : a ≠ .stop) : s'.stopped = s.stopped := by
  cases h with
  | rxStart _ | receive _ _ | finish _ _ | repeated _ _ _ _ | fresh _ _ _ _ | garbled _ _ _ => rfl
  | timerLate _ _ | timerFirst _ _ | refused _ _ => rfl
  | stop => exact absurd rfl ha
  | served he _ | ended he _ _ | waits he _ _ => exact (congrArg Query.stopped he.eq).trans rfl

/-- A call is refused where `_stopped` is set. -/
theorem stopped_of_refused (h : Took s a s' es) (hc : .refused c ∈ es) :
    a = .getResponse c ∧ s.stopped = true := by
  cases h with
  | rxStart _ | receive _ _ | timerLate _ _ | timerFirst _ _ | stop | waits _ _ _ => cases hc
  | finish _ _ | repeated _ _ _ _ | fresh _ _ _ _ | garbled _ _ _ | served _ _ | ended _ _ _ =>
    simp at hc
  | refused _ hs =>
    simp only [List.mem_singleton, Event.refused.injEq] at hc
    exact ⟨by rw [hc], hs⟩

end Query

end Upnp
