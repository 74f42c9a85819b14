/-
  What `stop()` makes of the operations that are under way (`igd.h`, `src/igd.cpp`).

  * `settled_step`: a request whose stream was closed keeps the response it had read by
    then, and gets no other one;
  * `left_step`: it is at its end after three steps at most;
  * `stopped_of_run`: so every operation under way ends when its igd is stopped or
    destroyed, and succeeds only if its response had been read.
-/
import Upnp.Operations

namespace Upnp

open Lib

/-- The response that was read, if there was one. -/
def Exchange.received : Exchange → Option HttpResponse
  | .response rs => some rs
  | _ => none

/-- The response that was read, as long as the handler of the read has not run. -/
def Running.response (q : Running) : Option HttpResponse :=
  match q.ready with
  | some (.response rs) => some rs
  | _ => none

/-- How many steps a request takes once its stream is closed. -/
def Running.left (q : Running) : ℕ :=
  match q.ready with
  | none => 2
  | some .done => 3
  | some _ => 1

namespace Operations

/-- A step of the request `n`. -/
def Action.ofRequest (n : ℕ) : Action → Bool
  | .complete m _ | .resume m => m = n
  | _ => false

variable {s s' : Operations} {a : Action} {as : List Action} {es es' : List Event} {n d : ℕ}
  {f : Option HttpResponse} {q : Running}

/-! ## A closed stream -/

/-- The stream of the request `n` is closed, and `f` is what it has read; or the request
    has returned it. -/
inductive Settled (n : ℕ) (f : Option HttpResponse) (es : List Event) (s : Operations) : Prop
  | closed {q : Running} (hq : s.running n = some q) (ho : q.isOpen = false)
      (hf : q.response = f) (he : ∀ x, .returned n x ∉ es)
  | returned {x : Exchange} (hlt : n < s.nextRequest) (hn : s.running n = none)
      (hx : .returned n x ∈ es) (hu : ∀ y, .returned n y ∈ es → y = x) (hf : x.received = f)

/-- Other requests, and the igds, leave a closed stream alone. -/
theorem Settled.idle (h : Settled n f es s) (hr : s'.running n = s.running n)
    (hn : s.nextRequest ≤ s'.nextRequest) (he : ∀ x, .returned n x ∉ es') :
    Settled n f (es ++ es') s' := by
  cases h with
  | closed hq ho hf he' =>
    refine .closed (hr.trans hq) ho hf fun x hx => ?_
    exact (List.mem_append.1 hx).elim (he' x) (he x)
  | returned hlt hnone hx hu hf =>
    refine .returned (Nat.lt_of_lt_of_le hlt hn) (hr.trans hnone) (List.mem_append_left _ hx) ?_ hf
    intro y hy
    exact (List.mem_append.1 hy).elim (hu y) fun hy => absurd hy (he y)

theorem close_running_of_closed {ns : List ℕ}
    (h : ∀ q, s.running n = some q → q.isOpen = false) :
    (s.close ns).running n = s.running n := by
  simp only [close]
  split
  · rcases hq : s.running n with _ | q
    · rfl
    · obtain ⟨stage, isOpen, ready⟩ := q
      obtain rfl : isOpen = false := h _ hq
      rfl
  · rfl

theorem Settled.isClosed (h : Settled n f es s) :
    ∀ q, s.running n = some q → q.isOpen = false := by
  intro q hq
  cases h with
  | closed hq' ho _ _ =>
    rw [hq, Option.some.injEq] at hq'
    rw [hq', ho]
  | returned _ hn _ _ _ => rw [hn] at hq; cases hq

theorem Settled.lt (hi : Inv s) (h : Settled n f es s) : n < s.nextRequest := by
  cases h with
  | closed hq _ _ _ =>
    by_contra hlt
    rw [hi.fresh n (Nat.not_lt.1 hlt)] at hq
    cases hq
  | returned hlt _ _ _ _ => exact hlt

/-- What a closed stream completes with is no response. -/
theorem response_of_failed {q : Running} {r : Io} (hr : r.isFailed = true) :
    Running.response { q with ready := some r } = none := by
  cases r with
  | failed ec => rfl
  | done | response rs => cases hr

theorem next_inl {stage stage' : Stage} {r : Io} (h : stage.next r = some (.inl stage')) :
    r = .done := by
  cases stage <;> cases r <;> first | rfl | cases h

theorem received_of_next {stage : Stage} {r : Io} {x : Exchange}
    (h : stage.next r = some (.inr x)) (q : Running) (hq : q.ready = some r) :
    x.received = q.response := by
  rw [Running.response, hq]
  cases stage <;> cases r <;> cases h <;> rfl

/-- **A closed stream gets no response that it did not have.** -/
theorem settled_step (hi : Inv s) (h : Settled n f es s) (ht : Took s a s' es') :
    Settled n f (es ++ es') s' := by
  cases ht with
  | create | move _ | assign _ _ => exact h.idle rfl (le_refl _) fun x hx => by cases hx
  | destroy hd | stop hd =>
    refine h.idle (close_running_of_closed h.isClosed) (le_refl _) fun x hx => ?_
    obtain ⟨m, -, he⟩ := List.mem_map.1 hx
    cases he
  | request hd =>
    have hne : n ≠ s.nextRequest := Nat.ne_of_lt (h.lt hi)
    exact h.idle (by simp [request, hne]) (Nat.le_succ _) fun x hx => by cases hx
  | @complete m r q hq hr hn ho =>
    by_cases hm : n = m
    · subst hm
      cases h with
      | closed hq' hc hf he =>
        rw [hq, Option.some.injEq] at hq'
        subst hq'
        have hfail : r.isFailed = true := ho.resolve_left (by rw [hc]; exact Bool.false_ne_true)
        refine .closed (q := { q with ready := some r }) (by simp) hc ?_ (by simpa using he)
        rw [response_of_failed hfail, ← hf, Running.response, hr]
      | returned _ hnone _ _ _ => rw [hq] at hnone; cases hnone
    · exact h.idle (by simp [hm]) (le_refl _) fun x hx => by cases hx
  | @staged m q r stage hq hr hn =>
    by_cases hm : n = m
    · subst hm
      cases h with
      | closed hq' hc hf he =>
        rw [hq, Option.some.injEq] at hq'
        subst hq'
        refine .closed (q := ⟨stage, q.isOpen, none⟩) (by simp) hc ?_ (by simpa using he)
        rw [← hf, Running.response, Running.response, hr, next_inl hn]
      | returned _ hnone _ _ _ => rw [hq] at hnone; cases hnone
    · exact h.idle (by simp [hm]) (le_refl _) fun x hx => by cases hx
  | @returned m q r x hq hr hn =>
    by_cases hm : n = m
    · subst hm
      cases h with
      | closed hq' hc hf he =>
        rw [hq, Option.some.injEq] at hq'
        subst hq'
        have hlt : n < s.nextRequest := Settled.lt hi (.closed hq hc hf he)
        refine .returned hlt (by simp [leave])
          (List.mem_append_right _ List.mem_cons_self) ?_ ((received_of_next hn q hr).trans hf)
        intro y hy
        rcases List.mem_append.1 hy with hy | hy
        · exact absurd hy (he y)
        · simpa using hy
      | returned _ hnone _ _ _ => rw [hq] at hnone; cases hnone
    · refine h.idle (by simp [leave, hm]) (le_refl _) fun y hy => ?_
      rw [List.mem_singleton, Event.returned.injEq] at hy
      exact hm hy.1

theorem settled_run (hi : Inv s) (h : Settled n f [] s) (hr : machine.RunFrom s as es s') :
    Inv s' ∧ Settled n f es s' := by
  refine hr.invariant (P := fun _ es s => Inv s ∧ Settled n f es s) ⟨hi, h⟩ ?_
  rintro as es s₁ a s₂ es' - ⟨hi, h⟩ hs
  have ht := took_of_step hs
  exact ⟨hi.step ht, settled_step hi h ht⟩

/-! ## Its end -/

/-- How many steps the request `n` is going to take. -/
def left (n : ℕ) (s : Operations) : ℕ := ((s.running n).map Running.left).getD 0

theorem left_eq (h : s.running n = some q) : s.left n = q.left := by rw [left, h]; rfl

theorem left_update {running : ℕ → Option Running}
    (h : s'.running = Function.update running n (some q)) : s'.left n = q.left :=
  left_eq (by rw [h, Function.update_self])

theorem left_pos (q : Running) : 0 < q.left := by
  unfold Running.left
  split <;> decide

/-- A request with a completed operation is nearer to its end, unless it goes on. -/
theorem left_ready {r : Io} (hr : r.isFailed = true) :
    Running.left { q with ready := some r } = 1 := by
  cases r with
  | failed ec => rfl
  | done | response rs => cases hr

/-- **Every step of a request with a closed stream brings it nearer to its end, and no
    other step takes it away from there.** -/
theorem left_step (hi : Inv s) (h : Settled n f es s) (ht : Took s a s' es') :
    s'.left n + (if a.ofRequest n then 1 else 0) ≤ s.left n := by
  have hsame : s'.running n = s.running n → a.ofRequest n = false →
      s'.left n + (if a.ofRequest n then 1 else 0) ≤ s.left n := by
    intro hr ha
    rw [left, hr, ha]
    exact le_refl _
  have hother : ∀ {m}, n ≠ m → decide (m = n) = false := fun hm => by simpa using hm.symm
  cases ht with
  | create | move _ | assign _ _ => exact hsame rfl rfl
  | destroy hd | stop hd => exact hsame (close_running_of_closed h.isClosed) rfl
  | request hd =>
    have hne : n ≠ s.nextRequest := Nat.ne_of_lt (h.lt hi)
    exact hsame (by simp [request, hne]) rfl
  | @complete m r q hq hr hn ho =>
    by_cases hm : n = m
    · subst hm
      have hfail : r.isFailed = true :=
        ho.resolve_left (by rw [h.isClosed q hq]; exact Bool.false_ne_true)
      have htwo : q.left = 2 := by rw [Running.left, hr]
      rw [left_update rfl, left_ready hfail, left_eq hq, htwo]
      simp [Action.ofRequest]
    · exact hsame (by simp [hm]) (hother hm)
  | @staged m q r stage hq hr hn =>
    by_cases hm : n = m
    · subst hm
      have hthree : q.left = 3 := by rw [Running.left, hr, next_inl hn]
      rw [left_update rfl, left_eq hq, hthree]
      simp [Action.ofRequest, Running.left]
    · exact hsame (by simp [hm]) (hother hm)
  | @returned m q r x hq hr hn =>
    by_cases hm : n = m
    · subst hm
      have hq' : left n (s.leave n) = 0 := by simp [left, leave]
      rw [hq', left_eq hq, Nat.zero_add]
      have := left_pos q
      split <;> omega
    · exact hsame (by simp [leave, hm]) (hother hm)

/-- A request can always go on when its stream is closed. -/
theorem exists_step (hi : Inv s) (hq : s.running n = some q) :
    ∃ a : Action, a.ofRequest n = true ∧ (step s a).isSome = true := by
  rcases hr : q.ready with _ | r
  · obtain ⟨x, hx⟩ := q.stage.next_failed .operationAborted
    exact ⟨.complete n (.failed .operationAborted), by simp [Action.ofRequest],
      by simp [step, hq, hr, hx, Io.isFailed]⟩
  · obtain ⟨y, hy⟩ := Option.isSome_iff_exists.1 (hi.ready n q r hq hr)
    exact ⟨.resume n, by simp [Action.ofRequest], by simp [step, hq, hr, hy]⟩

/-! ## Stopping -/

/-- What becomes of a request whose igd is stopped or destroyed. -/
structure Stopped (n : ℕ) (q : Running) (as : List Action) (es : List Event) (s : Operations) :
    Prop where
  /-- it returns the response it had read, if there was one -/
  result : ∀ x, .returned n x ∈ es → x.received = q.response
  /-- otherwise the operation of the igd fails, and not because of a status -/
  fails : q.response = none → ∀ x, .returned n x ∈ es → ∀ {Address : Type} (env : Env Address)
    (g : Igd) (command message : Str), ∃ e, (∀ status, e ≠ .httpStatus status) ∧
      g.soapRequest env (fun _ _ => x) command message = .error e
  /-- it takes three steps at most, and can take one as long as it has not returned -/
  bounded : as.countP (Action.ofRequest n) ≤ q.left
  moves : (∀ x, .returned n x ∉ es) →
    ∃ a : Action, a.ofRequest n = true ∧ (step s a).isSome = true

theorem soapRequest_of_not_received {x : Exchange} (hx : x.received = none) {Address : Type}
    (env : Env Address) (g : Igd) (command message : Str) :
    ∃ e, (∀ status, e ≠ .httpStatus status) ∧
      g.soapRequest env (fun _ _ => x) command message = .error e := by
  rw [Igd.soapRequest]
  rcases consumeEndpoint env.makeAddress g.url.hostAndPort with _ | ⟨ep, rest⟩
  · exact ⟨.igdHostParseFailed g.url, by simp, rfl⟩
  · cases x with
    | connectFailed ec => exact ⟨.tcpConnect, by simp, rfl⟩
    | writeFailed ec => exact ⟨.httpRequest, by simp, rfl⟩
    | readFailed ec => exact ⟨.httpResponse, by simp, rfl⟩
    | response rs => cases hx

theorem settled_of_stop (hq : s.running n = some q) (hn : n ∈ s.connections d) :
    Settled n q.response [] (s.stop d).1 := by
  refine .closed (q := { q with isOpen := false }) ?_ rfl rfl fun x hx => by cases hx
  simp only [stop, close, if_pos hn, hq, Option.map_some]

/-- **An igd that is stopped or destroyed ends its operations.**  Each one that is under way
    ends within three steps, in whatever else happens between them, and succeeds only if
    its response had been read. -/
theorem stopped_of_run {as₀ : List Action} {es₀ : List Event} (h₀ : machine.Run as₀ es₀ s)
    (hq : s.running n = some q) (hn : n ∈ s.connections d) {b : Action}
    (hb : b = .stop d ∨ b = .destroy d) (h : machine.RunFrom s (b :: as) es s') :
    Stopped n q as es s' := by
  have hi := inv_of_run h₀
  obtain ⟨s₁, es₁, es₂, hs, hrun, rfl⟩ := Machine.runFrom_cons.1 h
  have ht := took_of_step hs
  have hi₁ := hi.step ht
  -- the first step closes the stream, and reports nothing but that
  obtain ⟨hset, hleft, hclosed⟩ : Settled n q.response [] s₁ ∧ s₁.left n = q.left ∧
      ∀ x, .returned n x ∉ es₁ := by
    have hnone : ∀ x, .returned n x ∉ (s.stop d).2 := by
      intro x hx
      obtain ⟨m, -, he⟩ := List.mem_map.1 hx
      cases he
    have hl : (s.stop d).1.left n = q.left := by
      rw [left]
      simp only [stop, close, if_pos hn, hq, Option.map_some]
      rfl
    rcases hb with rfl | rfl
    · cases ht
      exact ⟨settled_of_stop hq hn, hl, hnone⟩
    · cases ht
      have hset : Settled n q.response ([] ++ []) (s.destroy d).1 :=
        (settled_of_stop hq hn).idle rfl (le_refl _) fun x hx => by cases hx
      exact ⟨hset, hl, hnone⟩
  obtain ⟨hi', hset'⟩ := settled_run hi₁ hset hrun
  have hret : ∀ x, .returned n x ∈ es₁ ++ es₂ → .returned n x ∈ es₂ := fun x hx =>
    (List.mem_append.1 hx).resolve_left (hclosed x)
  have hresult : ∀ x, .returned n x ∈ es₁ ++ es₂ → x.received = q.response := by
    intro x hx
    cases hset' with
    | closed _ _ _ he => exact absurd (hret x hx) (he x)
    | returned _ _ _ hu hf => rw [hu x (hret x hx), hf]
  refine ⟨hresult, fun hnone x hx => ?_, ?_, fun hno => ?_⟩
  · exact soapRequest_of_not_received ((hresult x hx).trans hnone)
  · have hcount : s'.left n + as.countP (Action.ofRequest n) ≤ s₁.left n := by
      refine (hrun.countdown_le (I := fun s => Inv s ∧ ∃ es, Settled n q.response es s)
        ⟨hi₁, [], hset⟩ ?_ ?_).2
      · rintro s a s' es ⟨hi, es₀, hset⟩ hs
        exact ⟨hi.step (took_of_step hs), _, settled_step hi hset (took_of_step hs)⟩
      · rintro s a s' es ⟨hi, es₀, hset⟩ hs
        exact left_step hi hset (took_of_step hs)
    omega
  · cases hset' with
    | closed hq' _ _ _ => exact exists_step hi' hq'
    | returned _ _ hx _ _ => exact absurd (List.mem_append_right _ hx) (hno _)

/-- A request that is reading when its igd, which was moved, is destroyed. -/
def reading : List Action :=
  [.create, .request 0, .complete 0 .done, .resume 0, .complete 0 .done, .resume 0, .move 0]

theorem stopped_of_reading : ∃ s s' es, machine.Run reading [] s ∧
    Stopped 0 ⟨.read, true, none⟩ [.complete 0 (.failed .operationAborted), .resume 0] es s' ∧
    .returned 0 (.readFailed .operationAborted) ∈ es :=
  ⟨_, _, _, rfl,
    stopped_of_run (n := 0) (d := 1) (show machine.Run reading _ _ from rfl) rfl (.head _)
      (.inr rfl)
      (show machine.RunFrom _ [.destroy 1, .complete 0 (.failed .operationAborted), .resume 0]
        _ _ from rfl),
    by decide⟩

end Operations

end Upnp
