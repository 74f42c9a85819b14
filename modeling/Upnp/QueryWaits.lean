/-
  A query over its condition variable (`src/ssdp.cpp`, `src/condition_variable.h`).

  A call of `get_response` waits in `_cv`, which is a member of the shared state.  Each
  suspended call, the receive coroutine until it ends, the handler of the timer and the
  handle have a pointer to the state; with the last pointer the state goes, and its
  variable with it.  The variable would end the waits that are left with
  `operation_aborted`, and `wait` without a `cancel_t` makes one of its own.

  * `Owned`: somebody has a pointer to the state;
  * `Backed`: what the waits of a run are for the variable;
  * `backed_of_run`: every run of a query is one of its variable, in which each wait is
    ended once, without an error, and nobody waits when the variable is destroyed.
-/
import Mathlib.Data.List.InsertIdx
import Upnp.QueryHandle
import Upnp.Waits

namespace Upnp

open Lib

namespace ConditionVariable

/-- A wait is ended or returns, and without an error. -/
def Event.Quiet : Event → Prop
  | .posted p => p.handler.isSome = true ∧ p.ec = none
  | .returned _ ec => ec = none
  | .asserted _ _ | .badFunctionCall => False

variable {κ : Type}

/-- The object of the wait `w`. -/
def objectOf (as : List (Action κ)) (w : Option Wait) : Option κ :=
  w.bind fun w => (started as)[w]?

variable {as : List (Action κ)} {a : Action κ}

theorem objectOf_snoc (h : a.object = none) : objectOf (as ++ [a]) = objectOf as := by
  funext w
  rw [objectOf, started_snoc, h]
  exact congrArg (fun l => w.bind fun w => l[w]?) (List.append_nil _)

/-- What is known of a wait stays so. -/
theorem objectOf_append {w : Option Wait} {c : κ} (h : objectOf as w = some c) :
    objectOf (as ++ [a]) w = some c := by
  obtain ⟨w, rfl, hc⟩ := Option.bind_eq_some_iff.1 h
  have hlt := (List.getElem?_eq_some_iff.1 hc).1
  rw [objectOf, Option.bind_some, started_snoc, List.getElem?_append_left hlt, hc]

theorem map_objectOf_append {α : Type} {f : α → Option Wait} {l : List α} {cs : List κ}
    (h : l.map (fun x => objectOf as (f x)) = cs.map some) :
    l.map (fun x => objectOf (as ++ [a]) (f x)) = cs.map some := by
  rw [← h]
  refine List.map_congr_left fun x hx => ?_
  obtain ⟨c, -, hc⟩ := List.mem_map.1 (h ▸ List.mem_map_of_mem hx)
  rw [objectOf_append hc.symm, hc]

variable [DecidableEq κ]

/-- A good run `bs` of the variable, in which `cv` wait, the handlers of `pending` are
    posted, and `woken` have returned, in this order. -/
structure Serves (cv pending woken : List κ) (bs : List (Action κ)) (ds : List Event)
    (t : ConditionVariable κ) : Prop where
  run : machine.Run bs ds t
  inv : Inv bs t
  /-- no `cancel_t` ends a wait -/
  unfired : ∀ c, .fire c ∉ bs
  once : ∀ w, postsOf w ds = (owed bs w).toList
  quiet : ∀ e ∈ ds, e.Quiet
  silent : ∀ p ∈ t.posted, p.ec = none
  waiting : t.onNotify.map (fun w => objectOf bs (some w)) = cv.map some
  posted : t.posted.map (fun p => objectOf bs p.handler) = pending.map some
  returned : (ds.filterMap Event.returned?).map (fun w => objectOf bs (some w)) = woken.map some

variable {cv pending woken : List κ} {bs : List (Action κ)} {ds ds' : List Event}
  {t t' : ConditionVariable κ} {c : κ}

theorem Serves.init : Serves ([] : List κ) [] [] [] [] init where
  run := rfl
  inv := .init
  unfired _ h := by cases h
  once _ := rfl
  quiet _ he := by cases he
  silent _ hp := by cases hp
  waiting := rfl
  posted := rfl
  returned := rfl

/-- The parts that hold after any good step. -/
theorem Serves.snoc (h : Serves cv pending woken bs ds t) (hf : ∀ c, a ≠ .fire c)
    (hs : step t a = some (t', ds')) (hq : ∀ e ∈ ds', e.Quiet) :
    machine.Run (bs ++ [a]) (ds ++ ds') t' ∧ Inv (bs ++ [a]) t' ∧ (∀ c, .fire c ∉ bs ++ [a]) ∧
      (∀ w, postsOf w (ds ++ ds') = (owed (bs ++ [a]) w).toList) ∧
      ∀ e ∈ ds ++ ds', e.Quiet := by
  have ht := took_of_step h.inv (fun c hc => absurd hc (hf c)) hs
  refine ⟨h.run.snoc hs, h.inv.step ht, ?_,
    ht.posts h.inv h.once, fun e he => ?_⟩
  · intro c hc
    rcases List.mem_append.1 hc with hc | hc
    · exact h.unfired c hc
    · exact hf c (List.mem_singleton.1 hc).symm
  · exact (List.mem_append.1 he).elim (h.quiet e) (hq e)

theorem Serves.wait (h : Serves cv pending woken bs ds t) (ha : t.alive = true) (c : κ) :
    Serves (cv ++ [c]) pending woken (bs ++ [.wait c]) ds (t.wait c) := by
  have hs : step t (.wait c) = some (t.wait c, []) := if_pos ha
  obtain ⟨hrun, hinv, hfire, honce, hquiet⟩ := h.snoc (by simp) hs (by simp)
  rw [List.append_nil] at hrun honce hquiet
  refine ⟨hrun, hinv, hfire, honce, hquiet, h.silent, ?_, map_objectOf_append h.posted,
    map_objectOf_append h.returned⟩
  have hnew : objectOf (bs ++ [.wait c]) (some t.waits) = some c :=
    getElem?_started_wait.2 (.inr ⟨h.inv.waits, rfl⟩)
  change (t.onNotify ++ [t.waits]).map _ = _
  rw [List.map_append, map_objectOf_append h.waiting, List.map_append, List.map_singleton, hnew,
    List.map_singleton]

/-- A notification posts the handlers of all that wait. -/
theorem Serves.notify (h : Serves cv pending woken bs ds t) (ha : t.alive = true) :
    ∃ ds' t', Serves [] (pending ++ cv) woken (bs ++ [.notify none]) ds' t' ∧
      t'.alive = true := by
  have hs : step t (.notify none) = some (t.wake t.onNotify none,
      t.onNotify.map fun w => .posted ⟨some w, none⟩) := by
    simp only [step, ha, if_true, ConditionVariable.notify,
      notifyLoop_eq none rfl h.inv.nodup h.inv.handler]
  obtain ⟨hrun, hinv, hfire, honce, hquiet⟩ := h.snoc (by simp) hs (by
    intro e he
    obtain ⟨w, -, rfl⟩ := List.mem_map.1 he
    exact ⟨rfl, rfl⟩)
  refine ⟨_, _, ⟨hrun, hinv, hfire, honce, hquiet, ?_, ?_, ?_, ?_⟩, ha⟩
  · intro p hp
    rcases List.mem_append.1 hp with hp | hp
    · exact h.silent p hp
    · obtain ⟨w, -, rfl⟩ := List.mem_map.1 hp
      rfl
  · change (t.onNotify.filter (· ∉ t.onNotify)).map _ = _
    rw [List.filter_eq_nil_iff.2 (by simp)]
    rfl
  · change (t.posted ++ t.onNotify.map fun w => (⟨some w, none⟩ : Posted)).map _ = _
    rw [List.map_append, List.map_append, objectOf_snoc rfl, h.posted, List.map_map, ← h.waiting]
    rfl
  · have hnone : (t.onNotify.map fun w => Event.posted ⟨some w, none⟩).filterMap
        Event.returned? = [] := by simp [Event.returned?]
    rw [List.filterMap_append, hnone, List.append_nil, objectOf_snoc rfl, h.returned]

/-- A handler that was posted runs. -/
theorem Serves.execute (h : Serves cv pending woken bs ds t) (hc : c ∈ pending) :
    ∃ n ds' t', Serves cv (pending.erase c) (woken ++ [c]) (bs ++ [.execute n]) ds' t' ∧
      t'.alive = t.alive := by
  let n := pending.idxOf c
  -- it is the handler at the place of the call in the list
  obtain ⟨p, w, hp, hw, hwc⟩ : ∃ p w, t.posted[n]? = some p ∧ p.handler = some w ∧
      objectOf bs (some w) = some c := by
    have hn : (pending.map some)[n]? = some (some c) := by
      rw [List.getElem?_map, List.getElem?_idxOf hc]
      rfl
    rw [← h.posted, List.getElem?_map] at hn
    obtain ⟨p, hp, hpc⟩ := Option.map_eq_some_iff.1 hn
    obtain ⟨w, hw, -⟩ := Option.bind_eq_some_iff.1 hpc
    exact ⟨p, w, hp, hw, hw ▸ hpc⟩
  have hpec : p.ec = none := h.silent p (List.mem_of_getElem? hp)
  have hs : step t (.execute n) =
      some ({ t with posted := t.posted.eraseIdx n }.leave w, [.returned w p.ec]) := by
    simp only [step, hp, Option.map_some, hw]
  obtain ⟨hrun, hinv, hfire, honce, hquiet⟩ := h.snoc (by simp) hs (by
    intro e he
    rw [List.mem_singleton.1 he]
    exact hpec)
  refine ⟨n, _, _, ⟨hrun, hinv, hfire, honce, hquiet, ?_, ?_, ?_, ?_⟩, rfl⟩
  · exact fun q hq => h.silent q (List.mem_of_mem_eraseIdx hq)
  · obtain ⟨v, hv, -, hn⟩ := h.inv.posted p (List.mem_of_getElem? hp)
    obtain rfl : v = w := Option.some.inj (hv.symm.trans hw)
    change (t.onNotify.erase v).map _ = _
    rw [List.erase_of_not_mem hn, objectOf_snoc rfl, h.waiting]
  · change (t.posted.eraseIdx n).map _ = _
    rw [← List.eraseIdx_map, objectOf_snoc rfl, h.posted, List.eraseIdx_map,
      List.eraseIdx_idxOf_eq_erase]
  · rw [List.filterMap_append, List.map_append, objectOf_snoc rfl, h.returned, List.map_append,
      List.map_singleton, ← hwc]
    rfl

/-- The variable is destroyed, and nobody waits. -/
theorem Serves.destroy (h : Serves [] pending woken bs ds t) (ha : t.alive = true) :
    ∃ t', Serves [] pending woken (bs ++ [.destroy]) ds t' ∧ t'.alive = false := by
  have hnil : t.onNotify = [] := List.map_eq_nil_iff.1 h.waiting
  have hs : step t .destroy = some ({ t with alive := false }, []) := by
    simp only [step, ha, if_true, ConditionVariable.notify, hnil, notifyLoop]
  obtain ⟨hrun, hinv, hfire, honce, hquiet⟩ := h.snoc (by simp) hs (by simp)
  rw [List.append_nil] at hrun honce hquiet
  exact ⟨_, ⟨hrun, hinv, hfire, honce, hquiet, h.silent, map_objectOf_append h.waiting,
    map_objectOf_append h.posted, map_objectOf_append h.returned⟩, rfl⟩

/-- The handler of each wait is posted once, with the code it is owed. -/
theorem Serves.delivered (h : Serves cv pending woken bs ds t) : Delivered bs ds where
  linked _ hw := h.quiet _ hw
  live _ he := by
    have := (h.quiet _ he).1
    cases this
  once := h.once
  all hd w hw := by
    have hnot : w ∉ t.onNotify := by
      rw [h.inv.dead (h.inv.gone hd)]
      exact List.not_mem_nil
    exact Option.ne_none_iff_exists'.1
      (mt (h.inv.waiting w _ (List.getElem?_eq_getElem hw)).2 hnot)

end ConditionVariable

open ConditionVariable (Serves)

/-! ## The query -/

/-- The call that is woken. -/
def Action.woken : Action → List Call
  | .wake c => [c]
  | _ => []

namespace Query

variable {s s' s₀ : Query} {a : Action} {c : Call} {es : List Event} {woken : List Call}
  {bs : List (ConditionVariable.Action Call)} {ds : List ConditionVariable.Event}
  {t : ConditionVariable Call}

/-- A call that is woken has its handler run. -/
theorem Enters.serves (he : Enters s a c s₀) (h : Serves s.cv s.posted woken bs ds t) :
    ∃ bs ds t', Serves s₀.cv s₀.posted (woken ++ a.woken) bs ds t' ∧ t'.alive = t.alive := by
  cases he with
  | call _ _ => exact ⟨bs, ds, t, (List.append_nil woken).symm ▸ h, rfl⟩
  | wake hc =>
    obtain ⟨n, ds', t', h', ha⟩ := h.execute hc
    exact ⟨_, ds', t', h', ha⟩

/-- **What a step of the query does with its variable.** -/
theorem Took.serves (ht : Took s a s' es) (h : Serves s.cv s.posted woken bs ds t)
    (ha : t.alive = true) :
    ∃ bs ds t', Serves s'.cv s'.posted (woken ++ a.woken) bs ds t' ∧ t'.alive = true := by
  have hsame : Serves s.cv s.posted (woken ++ []) bs ds t := by rwa [List.append_nil]
  cases ht with
  | rxStart _ | receive _ _ | repeated _ _ _ _ | timerLate _ _ | timerFirst _ _ | stop
  | refused _ _ => exact ⟨bs, ds, t, hsame, ha⟩
  | finish _ _ | fresh _ _ _ _ | garbled _ _ _ =>
    obtain ⟨ds', t', h', ha'⟩ := hsame.notify ha
    exact ⟨_, ds', t', h', ha'⟩
  | served he _ | ended he _ _ =>
    obtain ⟨bs', ds', t', h', ha'⟩ := he.serves h
    exact ⟨bs', ds', t', h', ha'.trans ha⟩
  | @waits _ c _ he _ _ =>
    obtain ⟨bs', ds', t', h', ha'⟩ := he.serves h
    exact ⟨_, _, _, h'.wait (ha'.trans ha) c, ha'.trans ha⟩

end Query

/-! ## The end of the state -/

def HandleAction.woken : HandleAction → List Call
  | .background a => a.woken
  | _ => []

namespace QueryHandle

/-- Somebody has a pointer to the state: the handle, the receive coroutine, the handler of
    the timer, or a call of `get_response`. -/
def Owned (q : QueryHandle) : Prop :=
  q.held = true ∨ q.state.rx ≠ .finished ∨ q.state.timer = .armed ∨ q.state.suspended.Nonempty

instance (q : QueryHandle) : Decidable q.Owned :=
  inferInstanceAs (Decidable (_ ∨ _ ∨ _ ∨ _))

/-- The waits of the actions `as`, in a run `bs` of `_cv`. -/
structure Backed (as : List HandleAction) (q : QueryHandle)
    (bs : List (ConditionVariable.Action Call)) (ds : List ConditionVariable.Event)
    (t : ConditionVariable Call) : Prop where
  /-- the calls that wait, that are to be woken and that were woken, in their order -/
  serves : Serves q.state.cv q.state.posted (as.flatMap HandleAction.woken) bs ds t
  delivered : ConditionVariable.Delivered bs ds
  /-- the variable is there as long as the state is, and no handler runs after that -/
  alive : t.alive = true ↔ q.Owned
  gone : t.alive = false → t.onNotify = [] ∧ t.posted = []

variable {q q' : QueryHandle} {a : HandleAction} {as : List HandleAction} {es : List Report}
  {woken : List Call} {bs : List (ConditionVariable.Action Call)}
  {ds : List ConditionVariable.Event} {t : ConditionVariable Call}

/-- **With the last pointer to the state nobody waits, and no handler is posted.** -/
theorem idle_of_not_owned (hi : q.state.Inv) (h : ¬ q.Owned) :
    q.state.cv = [] ∧ q.state.posted = [] := by
  simp only [Owned, not_or, Finset.not_nonempty_iff_eq_empty] at h
  have hnone : ∀ c, c ∉ q.state.cv ∧ c ∉ q.state.posted := by
    intro c
    rw [← not_or, ← hi.frames, h.2.2.2]
    exact Finset.notMem_empty c
  exact ⟨List.eq_nil_iff_forall_not_mem.2 fun c => (hnone c).1,
    List.eq_nil_iff_forall_not_mem.2 fun c => (hnone c).2⟩

/-- When the last pointer goes, so does the variable. -/
theorem exists_alive_iff (hi : q.state.Inv)
    (h : Serves q.state.cv q.state.posted woken bs ds t) (ha : t.alive = true) :
    ∃ bs' t', Serves q.state.cv q.state.posted woken bs' ds t' ∧ (t'.alive = true ↔ q.Owned) := by
  by_cases ho : q.Owned
  · exact ⟨bs, t, h, iff_of_true ha ho⟩
  · have hcv := (idle_of_not_owned hi ho).1
    rw [hcv] at h ⊢
    obtain ⟨t', h', ha'⟩ := h.destroy ha
    exact ⟨_, t', h', iff_of_false (by rw [ha']; exact Bool.false_ne_true) ho⟩

/-- Without its pointers the state does nothing. -/
theorem no_step_of_not_owned {b : Action} (hi : q.state.Inv) (h : ¬ q.Owned)
    (hb : b.ofBackground = true) : q.state.step b = none := by
  have hp := (idle_of_not_owned hi h).2
  simp only [Owned, not_or, not_not] at h
  obtain ⟨-, hrx, ht, -⟩ := h
  cases b with
  | rxStart | receive _ | rxResume _ => simp only [Query.step, hrx]
  | timer =>
    rcases htimer : q.state.timer with _ | _ | _
    · simp only [Query.step, htimer]
    · exact absurd htimer ht
    · simp only [Query.step, htimer]
  | wake c => simp [Query.step, hp]
  | stop | getResponse _ => cases hb

theorem Took.serves (ht : Took q a q' es)
    (h : Serves q.state.cv q.state.posted woken bs ds t) (ha : t.alive = true) :
    ∃ bs ds t', Serves q'.state.cv q'.state.posted (woken ++ a.woken) bs ds t' ∧
      t'.alive = true := by
  have hsame : Serves q.state.cv q.state.posted (woken ++ []) bs ds t := by rwa [List.append_nil]
  cases ht with
  | getResponse _ _ hs => exact (Query.took_of_step hs).serves h ha
  | background _ hs => exact (Query.took_of_step hs).serves h ha
  | stop _ _ | destroyHeld _ _ | destroyNull _ _ => exact ⟨bs, ds, t, hsame, ha⟩
  | @null a _ _ hu =>
    have hw : a.woken = [] := by cases a <;> first | rfl | cases hu
    rw [hw]
    exact ⟨bs, ds, t, hsame, ha⟩

/-- **A state that nobody has a pointer to stays as it is.** -/
theorem Took.gone (ht : Took q a q' es) (hi : q.state.Inv) (ho : ¬ q.Owned) :
    q'.state = q.state ∧ ¬ q'.Owned ∧ a.woken = [] := by
  have hheld : q.held = false := Bool.eq_false_iff.2 fun h => ho (.inl h)
  cases ht with
  | getResponse _ hh _ | stop _ hh | destroyHeld _ hh => rw [hheld] at hh; cases hh
  | null _ _ hu => exact ⟨rfl, ho, by cases a <;> first | rfl | cases hu⟩
  | destroyNull _ _ => exact ⟨rfl, ho, rfl⟩
  | background hb hs => rw [no_step_of_not_owned hi ho hb] at hs; cases hs

/-- **Every run of a query is one of its condition variable**, in which the handler of each
    wait is posted once, and without an error; the variable is destroyed with the last
    pointer to the state, when nobody waits and no handler is posted. -/
theorem backed_of_run (h : machine.Run as es q) : ∃ bs ds t, Backed as q bs ds t := by
  suffices hb : ∃ bs ds t,
      Serves q.state.cv q.state.posted (as.flatMap HandleAction.woken) bs ds t ∧
        (t.alive = true ↔ q.Owned) by
    obtain ⟨bs, ds, t, hs, ha⟩ := hb
    refine ⟨bs, ds, t, hs, hs.delivered, ha, fun hgone => ?_⟩
    have ho : ¬ q.Owned := fun ho => by
      rw [ha.2 ho] at hgone
      cases hgone
    obtain ⟨hcv, hp⟩ := idle_of_not_owned (state_inv h) ho
    have hw := hs.waiting
    have hposted := hs.posted
    rw [hcv] at hw
    rw [hp] at hposted
    exact ⟨List.map_eq_nil_iff.1 hw, List.map_eq_nil_iff.1 hposted⟩
  refine h.invariant (P := fun as _ q => ∃ bs ds t,
    Serves q.state.cv q.state.posted (as.flatMap HandleAction.woken) bs ds t ∧
      (t.alive = true ↔ q.Owned)) ?_ ?_
  · exact ⟨[], [], .init, .init, iff_of_true rfl (.inl rfl)⟩
  rintro as es q₁ a q₂ es' hrun ⟨bs, ds, t, hs, ha⟩ hstep
  have ht := took_of_step hstep
  have hi : q₁.state.Inv := state_inv hrun
  have hi' : q₂.state.Inv := state_inv (hrun.snoc hstep)
  have hwoken : (as ++ [a]).flatMap HandleAction.woken =
      as.flatMap HandleAction.woken ++ a.woken := by simp
  by_cases ho : q₁.Owned
  · obtain ⟨bs', ds', t₁, hs₁, ha₁⟩ := ht.serves hs (ha.2 ho)
    obtain ⟨bs'', t₂, hs₂, ha₂⟩ := exists_alive_iff hi' hs₁ ha₁
    exact ⟨bs'', ds', t₂, hwoken ▸ hs₂, ha₂⟩
  · obtain ⟨hstate, ho', hw⟩ := ht.gone hi ho
    refine ⟨bs, ds, t, ?_, iff_of_false (mt ha.1 ho) ho'⟩
    rwa [hwoken, hw, List.append_nil, hstate]

/-- The handle is destroyed while a call waits, and the call has the last pointer. -/
def outlived : List HandleAction :=
  [.getResponse 0, .destroy, .background .rxStart,
    .background (.receive ⟨some .operationAborted, []⟩),
    .background (.rxResume fun _ => ⟨1, Int.one_pos⟩), .background .timer, .background (.wake 0)]

theorem backed_of_outlived : ∃ es q, machine.Run outlived es q ∧ ¬ q.Owned ∧
    ∃ bs ds t, Backed outlived q bs ds t :=
  ⟨_, _, rfl, by decide, backed_of_run (show machine.Run outlived _ _ from rfl)⟩

end QueryHandle

end Upnp
