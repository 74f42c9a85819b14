/-
  The handle of an SSDP query (`ssdp::query`, `src/ssdp.cpp`).

  A `query` has a shared pointer to its state.  `stop()` sets `_stopped` in the state
  and then resets the pointer; the destructor does so if the pointer is still there.
  The coroutines and handlers of the state have pointers of their own, so the state
  goes on after that.  A run also goes on where a null pointer was dereferenced, about
  which the language says nothing; what is reported there is that it happened.

  * `Took` says what each step does, and `took_of_step` that it does nothing else;
  * `run_state`: a run of the handle is a run of its state;
  * `stopped_iff`: the pointer is null exactly when `_stopped` is set;
  * `not_refused`: so no call ever finds `_stopped` set;
  * `sound_iff`: the runs in which no null pointer is dereferenced, and what comes
    after `stop()` is as the state has it, are those in which no operation comes after
    `stop()` but the destructor.
-/
import Upnp.QueryInv

namespace Upnp

open Lib

/-- A `query`, and the state that its `_state` pointed to when it was started. -/
structure QueryHandle where
  /-- `_state` is not null -/
  held : Bool
  destroyed : Bool
  state : Query

/-- The public operations of a `query`, and the steps that its state takes without
    them. -/
inductive HandleAction where
  | getResponse (c : Call)
  | stop
  | destroy
  | background (a : Action)

/-- What a step reports: events of the state, or that it went wrong. -/
abbrev Report := Except Fault Event

/-- The operations that use `_state` without looking whether it is null. -/
def HandleAction.uses : HandleAction → Bool
  | .getResponse _ | .stop => true
  | .destroy | .background _ => false

/-- A step of a coroutine or handler. -/
def Action.ofBackground : Action → Bool
  | .stop | .getResponse _ => false
  | _ => true

namespace QueryHandle

/-- What `query::start` returns. -/
def start : QueryHandle := ⟨true, false, .start⟩

/-- `_state->f()`, where `f` takes the step `a`. -/
def arrow (a : Action) (q : QueryHandle) : Option (QueryHandle × List Report) :=
  if q.held then (q.state.step a).map fun r => ({ q with state := r.1 }, r.2.map .ok)
  else some (q, [.error .nullDereference])

/-- `query::get_response(yield)`, for the call `c`. -/
def getResponse (c : Call) (q : QueryHandle) : Option (QueryHandle × List Report) :=
  q.arrow (.getResponse c)

/-- `query::stop()`. -/
def stop (q : QueryHandle) : Option (QueryHandle × List Report) :=
  (q.arrow .stop).map fun r => ({ r.1 with held := false }, r.2)

/-- `~query()`. -/
def destroy (q : QueryHandle) : Option (QueryHandle × List Report) :=
  (if q.held then q.stop else some (q, [])).map fun r => ({ r.1 with destroyed := true }, r.2)

def step (q : QueryHandle) : HandleAction → Option (QueryHandle × List Report)
  | .getResponse c => if q.destroyed then none else q.getResponse c
  | .stop => if q.destroyed then none else q.stop
  | .destroy => if q.destroyed then none else q.destroy
  | .background a =>
    if a.ofBackground then
      (q.state.step a).map fun r => ({ q with state := r.1 }, r.2.map .ok)
    else none

/-- A query and its state, with operations and handlers in any order. -/
def machine : Machine QueryHandle HandleAction Report := ⟨start, step⟩

/-! ## What a step does -/

/-- The state that `state_t::stop()` leaves. -/
def stoppedState (s : Query) : Query := { s with stopped := true, socketOpen := false }

/-- The step `a` from `q`, by what it comes to. -/
inductive Took (q : QueryHandle) : HandleAction → QueryHandle → List Report → Prop
  | getResponse {c : Call} {s : Query} {es : List Event} (hd : q.destroyed = false)
      (hh : q.held = true) (hs : q.state.step (.getResponse c) = some (s, es)) :
    Took q (.getResponse c) { q with state := s } (es.map .ok)
  | stop (hd : q.destroyed = false) (hh : q.held = true) :
    Took q .stop { q with held := false, state := stoppedState q.state } []
  | null {a : HandleAction} (hd : q.destroyed = false) (hh : q.held = false)
      (ha : a.uses = true) : Took q a q [.error .nullDereference]
  | destroyHeld (hd : q.destroyed = false) (hh : q.held = true) :
    Took q .destroy ⟨false, true, stoppedState q.state⟩ []
  | destroyNull (hd : q.destroyed = false) (hh : q.held = false) :
    Took q .destroy { q with destroyed := true } []
  | background {a : Action} {s : Query} {es : List Event} (ha : a.ofBackground = true)
      (hs : q.state.step a = some (s, es)) :
    Took q (.background a) { q with state := s } (es.map .ok)

variable {q q' : QueryHandle} {a : HandleAction} {as : List HandleAction} {es : List Report}

/-- **Every step is one of those `Took` lists.** -/
theorem took_of_step (h : q.step a = some (q', es)) : Took q a q' es := by
  obtain ⟨held, destroyed, s⟩ := q
  cases a with
  | getResponse c =>
    simp only [step, getResponse, arrow] at h
    cases destroyed <;> cases held
    · cases h
      exact .null rfl rfl rfl
    · obtain ⟨⟨s', es'⟩, hs, he⟩ := Option.map_eq_some_iff.1 h
      cases he
      exact .getResponse rfl rfl hs
    · cases h
    · cases h
  | stop =>
    cases destroyed <;> cases held <;> cases h
    · exact .null rfl rfl rfl
    · exact .stop rfl rfl
  | destroy =>
    cases destroyed <;> cases held <;> cases h
    · exact .destroyNull rfl rfl
    · exact .destroyHeld rfl rfl
  | background a =>
    simp only [step] at h
    split at h
    · obtain ⟨⟨s', es'⟩, hs, he⟩ := Option.map_eq_some_iff.1 h
      cases he
      exact .background ‹_› hs
    · cases h

/-! ## The state -/

/-- The events of the state in a report. -/
def events (es : List Report) : List Event := es.filterMap Except.toOption

@[simp] theorem events_append (es es' : List Report) :
    events (es ++ es') = events es ++ events es' :=
  List.filterMap_append

@[simp] theorem events_ok (fs : List Event) : events (fs.map Except.ok) = fs := by
  rw [events, List.filterMap_map]
  exact List.filterMap_some

/-- **A run of the handle is a run of its state**, with the events it reports. -/
theorem run_state (h : machine.Run as es q) :
    ∃ bs, Query.machine.Run bs (events es) q.state := by
  refine h.invariant (P := fun _ es q => ∃ bs, Query.machine.Run bs (events es) q.state) ?_ ?_
  · exact ⟨[], rfl⟩
  rintro as es q₁ a q₂ es' - ⟨bs, hbs⟩ hstep
  have hsnoc : ∀ {a' : Action} {s : Query} {fs : List Event},
      q₁.state.step a' = some (s, fs) →
      ∃ bs, Query.machine.Run bs (events (es ++ fs.map Except.ok)) s := by
    intro a' s fs hs
    rw [events_append, events_ok]
    exact ⟨bs ++ [a'], hbs.snoc hs⟩
  have hsame : ∀ es' : List Report, events es' = [] →
      ∃ bs, Query.machine.Run bs (events (es ++ es')) q₁.state := by
    intro es' hes'
    rw [events_append, hes', List.append_nil]
    exact ⟨bs, hbs⟩
  cases took_of_step hstep with
  | getResponse _ _ hs | background _ hs => exact hsnoc hs
  | stop _ _ | destroyHeld _ _ =>
    exact hsnoc (show q₁.state.step .stop = some (stoppedState q₁.state, []) from rfl)
  | null _ _ _ | destroyNull _ _ => exact hsame _ rfl

/-- So what holds in every state that a query reaches holds here too. -/
theorem state_inv (h : machine.Run as es q) : q.state.Inv := by
  obtain ⟨bs, hbs⟩ := run_state h
  exact Query.inv_of_run hbs

/-! ## The pointer and the flag -/

/-- What the two places that know of a stop have to do with each other, and with the
    actions `as` so far. -/
structure Inv (as : List HandleAction) (q : QueryHandle) : Prop where
  stopped : q.state.stopped = !q.held
  held : q.held = false ↔ .stop ∈ as ∨ .destroy ∈ as
  destroyed : q.destroyed = true ↔ .destroy ∈ as

theorem Inv.step (hi : Inv as q) (h : Took q a q' es) : Inv (as ++ [a]) q' := by
  obtain ⟨hst, hh, hd⟩ := hi
  cases h with
  | getResponse _ _ hs =>
    have hst' := Query.stopped_eq (Query.took_of_step hs) (by simp)
    exact ⟨hst'.trans hst, by simpa using hh, by simpa using hd⟩
  | stop _ _ => exact ⟨rfl, by simp, by simpa using hd⟩
  | null _ hh' ha =>
    refine ⟨hst, iff_of_true hh' ?_, hd.trans ?_⟩
    · exact (hh.1 hh').imp (List.mem_append_left _) (List.mem_append_left _)
    · rw [List.mem_append, List.mem_singleton, or_iff_left]
      rintro rfl
      cases ha
  | destroyHeld _ _ => exact ⟨rfl, by simp, by simp⟩
  | destroyNull _ hh' => exact ⟨hst, by simpa using hh', by simp⟩
  | background ha hs =>
    have hst' := Query.stopped_eq (Query.took_of_step hs) (by rintro rfl; cases ha)
    exact ⟨hst'.trans hst, by simpa using hh, by simpa using hd⟩

theorem inv_of_run (h : machine.Run as es q) : Inv as q := by
  refine h.invariant (P := fun as _ q => Inv as q) ⟨rfl, by simp [machine, start], ?_⟩ ?_
  · simp [machine, start]
  · rintro as es q₁ a q₂ es' - hi hstep
    exact hi.step (took_of_step hstep)

/-- **The pointer is null exactly when `_stopped` is set.** -/
theorem stopped_iff (h : machine.Run as es q) : q.state.stopped = true ↔ q.held = false := by
  rw [(inv_of_run h).stopped]
  cases q.held <;> simp

theorem refused_step {c : Call} (hi : Inv as q) (h : Took q a q' es) :
    .ok (.refused c) ∉ es := by
  intro hc
  have hmem : ∀ {fs : List Event}, Except.ok (.refused c) ∈ fs.map (Except.ok : Event → Report) →
      .refused c ∈ fs := by simp
  cases h with
  | getResponse _ hh hs =>
    obtain ⟨-, hst⟩ := Query.stopped_of_refused (Query.took_of_step hs) (hmem hc)
    rw [hi.stopped, hh] at hst
    cases hst
  | stop _ _ | destroyHeld _ _ | destroyNull _ _ => cases hc
  | null _ _ _ => simp at hc
  | background ha hs =>
    obtain ⟨rfl, -⟩ := Query.stopped_of_refused (Query.took_of_step hs) (hmem hc)
    cases ha

/-- **No call of `get_response` finds `_stopped` set.** -/
theorem not_refused (h : machine.Run as es q) (c : Call) : .ok (.refused c) ∉ es := by
  refine h.invariant (P := fun _ es _ => .ok (.refused c) ∉ es) List.not_mem_nil ?_
  rintro as es q₁ a q₂ es' hrun ih hstep hc
  rcases List.mem_append.1 hc with hc | hc
  · exact ih hc
  · exact refused_step (inv_of_run hrun) (took_of_step hstep) hc

/-! ## What comes after a stop -/

/-- What is asked of a run that takes the actions `as` and reports `es`. -/
structure Sound (as : List HandleAction) (es : List Report) : Prop where
  /-- no null pointer is dereferenced -/
  noNull : .error .nullDereference ∉ es
  /-- a call made after `stop()` returns `operation_aborted`, and that is all -/
  aborted : ∀ bs c cs, as = bs ++ .getResponse c :: cs → .stop ∈ bs →
    ∀ es₁ q r, machine.Run bs es₁ q → q.step (.getResponse c) = some r →
      r = (q, [.ok (.refused c)])
  /-- another `stop()` changes nothing -/
  idle : ∀ bs cs, as = bs ++ .stop :: cs → .stop ∈ bs →
    ∀ es₁ q r, machine.Run bs es₁ q → q.step .stop = some r → r = (q, [])

/-- No `get_response` and no `stop` comes after a `stop`. -/
def NoUseAfterStop (as : List HandleAction) : Prop :=
  ∀ bs a cs, as = bs ++ a :: cs → .stop ∈ bs → a.uses = false

/-- **After `stop()`, an operation that does not look at the pointer dereferences it.** -/
theorem null_of_use (hi : Inv as q) (hstop : .stop ∈ as) (h : Took q a q' es)
    (ha : a.uses = true) : q' = q ∧ es = [.error .nullDereference] := by
  have hheld := hi.held.2 (.inl hstop)
  cases h with
  | getResponse _ hh _ | stop _ hh =>
    rw [hheld] at hh
    cases hh
  | null _ _ _ => exact ⟨rfl, rfl⟩
  | destroyHeld _ _ | destroyNull _ _ | background _ _ => cases ha

theorem stop_mem_of_null (hi : Inv as q) (h : Took q a q' es)
    (hn : .error .nullDereference ∈ es) : .stop ∈ as ∧ a.uses = true := by
  cases h with
  | getResponse _ _ _ | background _ _ => simp at hn
  | stop _ _ | destroyHeld _ _ | destroyNull _ _ => cases hn
  | null hd hh ha =>
    refine ⟨(hi.held.1 hh).resolve_right ?_, ha⟩
    rw [← hi.destroyed, hd]
    exact Bool.false_ne_true

theorem noUseAfterStop_nil : NoUseAfterStop [] := by
  intro bs a cs h
  simp at h

theorem noUseAfterStop_snoc :
    NoUseAfterStop (as ++ [a]) ↔ NoUseAfterStop as ∧ (.stop ∈ as → a.uses = false) := by
  constructor
  · intro h
    refine ⟨fun bs b cs has => h bs b (cs ++ [a]) (by simp [has]), h as a [] rfl⟩
  · rintro ⟨has, ha⟩ bs b cs heq hstop
    rcases List.eq_nil_or_concat cs with rfl | ⟨cs, c, rfl⟩
    · obtain ⟨rfl, h⟩ := List.append_inj' heq rfl
      cases h
      exact ha hstop
    · rw [List.concat_eq_append, ← List.cons_append, ← List.append_assoc] at heq
      exact has bs b cs (List.append_inj' heq rfl).1 hstop

/-- **A null pointer is dereferenced where an operation that does not look at it comes
    after a stop.** -/
theorem null_mem_iff (h : machine.Run as es q) :
    .error .nullDereference ∈ es ↔ ¬ NoUseAfterStop as := by
  refine h.invariant (P := fun as es _ => .error .nullDereference ∈ es ↔ ¬ NoUseAfterStop as)
    ?_ ?_
  · exact iff_of_false List.not_mem_nil (not_not.2 noUseAfterStop_nil)
  · rintro as es q₁ a q₂ es' hrun ih hstep
    have hi := inv_of_run hrun
    have ht := took_of_step hstep
    have hlast : .error .nullDereference ∈ es' ↔ .stop ∈ as ∧ a.uses = true := by
      refine ⟨stop_mem_of_null hi ht, fun ⟨hstop, ha⟩ => ?_⟩
      rw [(null_of_use hi hstop ht ha).2]
      exact List.mem_singleton_self _
    rw [List.mem_append, ih, hlast, noUseAfterStop_snoc, not_and_or, Classical.not_imp,
      Bool.not_eq_false]

/-- **The runs that are as the state has it are those in which no operation but the
    destructor comes after a stop.** -/
theorem sound_iff (h : machine.Run as es q) : Sound as es ↔ NoUseAfterStop as := by
  constructor
  · intro hs
    by_contra hno
    exact hs.noNull ((null_mem_iff h).2 hno)
  · intro hno
    refine ⟨fun hn => (null_mem_iff h).1 hn hno, ?_, ?_⟩
    · intro bs c cs has hstop
      have := hno bs (.getResponse c) cs has hstop
      cases this
    · intro bs cs has hstop
      have := hno bs .stop cs has hstop
      cases this

theorem noUseAfterStop_append {bs : List HandleAction} (has : .stop ∉ as)
    (hbs : ∀ b ∈ bs, b.uses = false) : NoUseAfterStop (as ++ .stop :: bs) := by
  intro cs a ds h hstop
  rcases List.append_eq_append_iff.1 h with ⟨x, rfl, hx⟩ | ⟨x, rfl, -⟩
  · rcases x with _ | ⟨b, x⟩
    · rw [List.append_nil] at hstop
      exact absurd hstop has
    · rw [List.cons_append, List.cons.injEq] at hx
      exact hbs a (hx.2 ▸ List.mem_append_right _ List.mem_cons_self)
  · exact absurd (List.mem_append_left _ hstop) has

/-- A call waits when the query is stopped and destroyed, and is told so. -/
def waitAndStop : List HandleAction :=
  [.background .rxStart, .getResponse 0] ++ .stop :: [.destroy,
    .background (.receive ⟨some .operationAborted, []⟩),
    .background (.rxResume fun _ => ⟨1, Int.one_pos⟩), .background (.wake 0)]

theorem sound_waitAndStop : ∃ es q, machine.Run waitAndStop es q ∧
    .ok (.returned 0 (.ok (.error (.code .operationAborted)))) ∈ es ∧ Sound waitAndStop es := by
  obtain ⟨es, q, h, hmem⟩ : ∃ es q, machine.Run waitAndStop es q ∧
      .ok (.returned 0 (.ok (.error (.code .operationAborted)))) ∈ es := by
    refine ⟨_, _, rfl, ?_⟩
    exact List.mem_cons_of_mem _ List.mem_cons_self
  refine ⟨es, q, h, hmem, (sound_iff h).2 (noUseAfterStop_append (by simp) ?_)⟩
  simp [HandleAction.uses]

/-- Neither `get_response` nor `stop` may be called after `stop`. -/
theorem use_after_stop :
    (∃ es q, machine.Run [.stop, .getResponse 0] es q ∧ ¬ Sound [.stop, .getResponse 0] es) ∧
    ∃ es q, machine.Run [.stop, .stop] es q ∧ ¬ Sound [.stop, .stop] es := by
  refine ⟨⟨_, _, rfl, ?_⟩, _, _, rfl, ?_⟩
  · exact fun h => h.noNull List.mem_cons_self
  · exact fun h => h.noNull List.mem_cons_self

end QueryHandle

end Upnp
