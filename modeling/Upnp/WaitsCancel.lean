/-
  The waits over the `cancel_t` objects that they are connected to
  (`src/condition_variable.h`, `upnp/detail/cancel.h`).

  `ConditionVariable` says which slots are called when an object is called.  Here it is the
  object that calls them: `wait` connects its slot, the call of the object moves its list
  out and calls the slots in a loop, and the connection is destroyed when the wait returns.

  * `Represents`: the objects and the connections of the waits;
  * `slots_of_run`: every run of a condition variable is a run of its `cancel_t` objects,
    whether or not an assertion fails in it, with the same slots called in the same order.
-/
import Mathlib.Data.List.Dedup
import Upnp.CancelCalls
import Upnp.Waits

namespace Upnp

open Lib

namespace ConditionVariable

section
variable {κ : Type} [DecidableEq κ]

/-- The object that an action uses. -/
def Action.uses : Action κ → Option κ
  | .wait c | .fire c => some c
  | .notify _ | .execute _ | .destroy => none

/-- The call that an action makes on the objects `cs`. -/
def Action.call (cs : List κ) : Action κ → Option Cancels.Action
  | .wait c => some (.connect (cs.idxOf c))
  | .fire c => some (.fire (cs.idxOf c))
  | .notify _ | .execute _ | .destroy => none

/-- The objects that a run uses. -/
def objects (as : List (Action κ)) : List κ := (as.filterMap Action.uses).dedup

/-- The wait whose slot runs. -/
def Event.slot? : Event → Option Wait
  | .asserted w _ => some w
  | _ => none

/-- The objects `cs`, with a connection for each wait that has not returned. -/
structure Represents (cs : List κ) (s : ConditionVariable κ) (t : Cancels) : Prop where
  frames : t.frames = []
  objects : t.objects = List.range cs.length
  nextHandle : t.nextHandle = s.waits
  nextSlot : t.nextSlot = s.waits
  connections : ∀ c ∈ cs, t.connections (cs.idxOf c) = (s.connections c).map .handle
  handles_nodup : t.handles.Nodup
  handles : ∀ w, w ∈ t.handles ↔ w ∈ s.current
  /-- each connection has the slot of its wait -/
  slot : ∀ w ∈ t.handles, t.slot (.handle w) = some (.user w)

/-- What is called, what returns and which slots run, in its order. -/
structure Implements (cs : List κ) (as : List (Action κ)) (es : List Event)
    (bs : List Cancels.Action) (ds : List Cancels.Event) : Prop where
  calls : bs.filter Cancels.Action.isCall = as.filterMap (Action.call cs)
  ends : bs.filterMap Cancels.Action.ended = es.filterMap Event.returned?
  slots : ds.map Cancels.Event.closes = (es.filterMap Event.slot?).map some

variable {cs : List κ} {as as' : List (Action κ)} {a : Action κ} {s s' : ConditionVariable κ}
  {es es' : List Event} {t t' : Cancels} {bs bs' : List Cancels.Action}
  {ds ds' : List Cancels.Event} {c : κ} {w : Wait}

theorem Implements.append (h : Implements cs as es bs ds) (h' : Implements cs as' es' bs' ds') :
    Implements cs (as ++ as') (es ++ es') (bs ++ bs') (ds ++ ds') where
  calls := by rw [List.filter_append, h.calls, h'.calls, List.filterMap_append]
  ends := by rw [List.filterMap_append, h.ends, h'.ends, List.filterMap_append]
  slots := by
    rw [List.map_append, h.slots, h'.slots, List.filterMap_append, List.map_append]

theorem Represents.init (cs : List κ) : Represents cs init (Cancels.created cs.length) where
  frames := rfl
  objects := rfl
  nextHandle := rfl
  nextSlot := rfl
  connections _ _ := rfl
  handles_nodup := List.nodup_nil
  handles _ := Iff.rfl
  slot := nofun

theorem Represents.mem_objects (hr : Represents cs s t) (hc : c ∈ cs) :
    cs.idxOf c ∈ t.objects := by
  rw [hr.objects, List.mem_range]
  exact List.idxOf_lt_length_iff.2 hc

/-- The waits that go on are the same ones, and connected as before. -/
theorem Represents.same (hr : Represents cs s t) (hw : s'.waits = s.waits)
    (hc : s'.connections = s.connections) (hcur : s'.current.Perm s.current) :
    Represents cs s' t :=
  { hr with
    nextHandle := hr.nextHandle.trans hw.symm
    nextSlot := hr.nextSlot.trans hw.symm
    connections := hc ▸ hr.connections
    handles := fun w => (hr.handles w).trans hcur.mem_iff.symm }

theorem map_idxOf_update {f : κ → List Wait} {g : ℕ → List Conn}
    (h : ∀ c ∈ cs, g (cs.idxOf c) = (f c).map .handle) {l : List Wait}
    {l' : List Conn} (hl : l' = l.map .handle) {d : κ} (hd : d ∈ cs) :
    Function.update g (cs.idxOf c) l' (cs.idxOf d) = (Function.update f c l d).map .handle := by
  by_cases he : d = c
  · rw [he, Function.update_self, Function.update_self, hl]
  · rw [Function.update_of_ne (fun h => he ((List.idxOf_inj hd).1 h)), Function.update_of_ne he,
      h d hd]

/-- A new wait has the new connection. -/
theorem Represents.wait (hr : Represents cs s t) (hi : Held as s) (hc : c ∈ cs) :
    Represents cs (s.wait c) (t.connect (cs.idxOf c)) where
  frames := hr.frames
  objects := hr.objects
  nextHandle := congrArg (· + 1) hr.nextHandle
  nextSlot := congrArg (· + 1) hr.nextSlot
  connections d hd := by
    refine map_idxOf_update hr.connections ?_ hd
    rw [List.map_append, ← hr.connections c hc, ← hr.nextHandle]
    rfl
  handles_nodup := by
    have hnew : t.nextHandle ∉ t.handles := by
      rw [hr.handles, hr.nextHandle]
      exact hi.waits_notMem
    change (t.handles ++ [t.nextHandle]).Nodup
    rw [← List.concat_eq_append]
    exact hr.handles_nodup.concat hnew
  handles w := by
    refine List.mem_append.trans ?_
    rw [hr.handles, List.mem_singleton, hr.nextHandle, mem_current_wait]
    exact or_comm
  slot w hw := by
    change Function.update t.slot (.handle t.nextHandle) (some (.user t.nextSlot)) (.handle w) = _
    by_cases h : w = t.nextHandle
    · rw [h, Function.update_self, hr.nextHandle, hr.nextSlot]
    · rw [Function.update_of_ne (fun he => h (Conn.handle.inj he))]
      exact hr.slot w ((List.mem_append.1 hw).resolve_right fun h' => h (List.mem_singleton.1 h'))

/-- The call of an object releases the waits connected to it. -/
theorem Represents.release (hr : Represents cs s t) (hi : Held as s)
    {nextFiring : ℕ} {connCount : Conn → ℕ} {callCount : ℕ → ℕ} : Represents cs
      ({ s with connections := Function.update s.connections c [] }.release (s.connections c)
        (some .operationAborted))
      { t with
        nextFiring := nextFiring, connCount := connCount, callCount := callCount
        connections := Function.update t.connections (cs.idxOf c) [], frames := [] } :=
  { hr with
    frames := rfl
    connections := fun _ hd => map_idxOf_update hr.connections List.map_nil.symm hd
    handles := fun w => (hr.handles w).trans
      (hi.current_release (hi.unique c) (some .operationAborted)).mem_iff.symm }

/-- The connection of a wait that returns unlinks itself. -/
theorem Represents.returned (hr : Represents cs s t) (hi : Held as s) {n : ℕ} {p : Posted}
    (hp : s.posted[n]? = some p) (hw : p.handler = some w) :
    Represents cs ({ s with posted := s.posted.eraseIdx n }.leave w) (t.destroyHandle w) where
  frames := by
    change t.frames.map _ = []
    rw [hr.frames, List.map_nil]
  objects := hr.objects
  nextHandle := hr.nextHandle
  nextSlot := hr.nextSlot
  connections c hc := by
    change (t.connections (cs.idxOf c)).filter _ = ((s.connections c).erase w).map _
    rw [hr.connections c hc, (hi.unique c).erase_eq_filter, List.filter_map]
    congr 1
    refine List.filter_congr fun v _ => ?_
    by_cases h : v = w <;> simp [h]
  handles_nodup := hr.handles_nodup.erase w
  handles v := by
    have hcur := hi.current_leave hp hw
    have hnot := (List.nodup_cons.1 (hcur.nodup_iff.1 hi.nodup)).1
    refine hr.handles_nodup.mem_erase_iff.trans ?_
    rw [hr.handles, hcur.mem_iff, List.mem_cons]
    constructor
    · rintro ⟨hne, hv⟩
      exact hv.resolve_left hne
    · intro hv
      exact ⟨fun h => hnot (h ▸ hv), .inr hv⟩
  slot v hv := hr.slot v (List.mem_of_mem_erase hv)

/-- **What a step does with the objects is what they do.** -/
theorem Represents.step (hr : Represents cs s t) (hi : Held as s) (h : Takes s a s' es)
    (hu : ∀ c, a.uses = some c → c ∈ cs) : ∃ bs ds t',
    Cancels.machine.RunFrom t bs ds t' ∧ Represents cs s' t' ∧ Implements cs [a] es bs ds := by
  have hp : t.inProgram = true := by rw [Cancels.inProgram, hr.frames]
  -- the variable posts the handlers of the linked waits
  have hnotify : ∀ {b : Bool} {ec : Option ErrorCode} {a : Action κ}, a.uses = none → ∃ bs ds t',
      Cancels.machine.RunFrom t bs ds t' ∧
        Represents cs ({ s with alive := b }.release s.onNotify ec) t' ∧
        Implements cs [a] (s.onNotify.map fun w => .posted ⟨s.handler w, ec⟩) bs ds := by
    intro b ec a ha
    have hcall : [a].filterMap (Action.call cs) = [] := by
      cases a <;> first | rfl | cases ha
    refine ⟨[], [], t, rfl, hr.same rfl rfl (hi.current_release hi.nodup_onNotify ec), hcall.symm,
      ?_, ?_⟩
    · rw [List.filterMap_map]
      exact (List.filterMap_eq_nil_iff.2 fun _ _ => rfl).symm
    · rw [List.filterMap_map]
      exact congrArg (List.map some) (List.filterMap_eq_nil_iff.2 fun _ _ => rfl).symm
  cases h with
  | @wait c ha =>
    have hc := hu c rfl
    have hstep : Cancels.machine.step t (.connect (cs.idxOf c)) =
        some (t.connect (cs.idxOf c), []) := if_pos ⟨hp, hr.mem_objects hc⟩
    exact ⟨_, _, _, Cancels.runFrom_one hstep, hr.wait hi hc, rfl, rfl, rfl⟩
  | notify _ => exact hnotify (b := s.alive) rfl
  | @fire c ha =>
    have hc := hu c rfl
    have hslots : ∀ w ∈ s.connections c, t.slot (.handle w) = some (.user w) := fun w hw =>
      hr.slot w ((hr.handles w).2 (hi.connected c w hw).1)
    obtain ⟨_, _, _, hrun⟩ := Cancels.fire_run hr.frames (hr.mem_objects hc)
      (hr.connections c hc) hslots
    refine ⟨_, _, _, hrun, hr.release hi, ?_, ?_, ?_⟩
    · rw [List.filter_cons_of_pos rfl, Cancels.filter_rounds]
      rfl
    · rw [List.filterMap_cons_none rfl, Cancels.filterMap_rounds, List.filterMap_flatMap, eq_comm]
      exact List.flatMap_eq_nil_iff.2 fun _ _ => rfl
    · have hone : ∀ w, [Event.asserted w (w ∈ s.onNotify),
          .posted ⟨s.handler w, some .operationAborted⟩].filterMap Event.slot? = [w] :=
        fun _ => rfl
      simp only [List.filterMap_flatMap, List.map_map, hone, List.flatMap_singleton']
      exact List.map_congr_left fun _ _ => if_pos rfl
  | @returned n p w hn hw =>
    have hmem : w ∈ t.handles := (hr.handles w).2
      ((hi.current_leave hn hw).mem_iff.2 List.mem_cons_self)
    have hact : ¬ t.Active (.handle w) := by simp [Cancels.Active, hr.frames]
    have hstep : Cancels.machine.step t (.destroyHandle w) = some (t.destroyHandle w, []) :=
      if_pos ⟨hp, hmem, hact⟩
    exact ⟨_, _, _, Cancels.runFrom_one hstep, hr.returned hi hn hw, rfl, rfl, rfl⟩
  | empty hn hw =>
    exact ⟨[], [], t, rfl, hr.same rfl rfl (current_empty hn hw).symm, rfl, rfl, rfl⟩
  | destroy _ => exact hnotify (b := false) rfl

/-- The run of some objects, when all those that it uses have been constructed. -/
theorem implements_of_run (h : machine.Run as es s)
    (hu : ∀ a ∈ as, ∀ c, a.uses = some c → c ∈ cs) : ∃ bs ds t,
    Cancels.machine.RunFrom (Cancels.created cs.length) bs ds t ∧ Represents cs s t ∧
      Implements cs as es bs ds := by
  revert hu
  refine h.invariant (P := fun as es s => (∀ a ∈ as, ∀ c, a.uses = some c → c ∈ cs) →
    ∃ bs ds t, Cancels.machine.RunFrom (Cancels.created cs.length) bs ds t ∧ Represents cs s t ∧
      Implements cs as es bs ds) (fun _ => ⟨[], [], _, rfl, .init cs, rfl, rfl, rfl⟩) ?_
  intro as es s₁ a s₂ es' hrun ih hs hu
  obtain ⟨bs, ds, t, ht, hr, himp⟩ := ih fun a ha => hu a (List.mem_append_left _ ha)
  have hi := held_of_run hrun
  obtain ⟨bs', ds', t', ht', hr', himp'⟩ := hr.step hi (takes_of_step hi hs)
    (hu a (List.mem_append_right _ List.mem_cons_self))
  exact ⟨bs ++ bs', ds ++ ds', t', ht.append ht', hr',
    himp.append himp'⟩

/-- **Every run of a condition variable is a run of its `cancel_t` objects.**  They are
    constructed before; each wait connects its slot, and destroys the connection when it
    returns; and the slots that run are those that the objects call. -/
theorem slots_of_run (h : machine.Run as es s) : ∃ bs ds t,
    Cancels.machine.Run (List.replicate (objects as).length .newObject ++ bs) ds t ∧
      Represents (objects as) s t ∧ Implements (objects as) as es bs ds := by
  have hu : ∀ a ∈ as, ∀ c, a.uses = some c → c ∈ objects as := fun a ha c hc =>
    List.mem_dedup.2 (List.mem_filterMap.2 ⟨a, ha, hc⟩)
  obtain ⟨bs, ds, t, ht, hr, himp⟩ := implements_of_run h hu
  exact ⟨bs, ds, t, (Cancels.created_run _).append ht, hr, himp⟩

theorem slots_of_firedTooLate : ∃ es s, machine.Run firedTooLate es s ∧
    es.filterMap Event.slot? = [0, 1] ∧ ∃ bs ds t,
    Cancels.machine.Run (List.replicate 2 .newObject ++ bs) ds t ∧ Represents [1, 0] s t ∧
      Implements [1, 0] firedTooLate es bs ds := by
  obtain ⟨es, s, h⟩ : ∃ es s, machine.Run firedTooLate es s :=
    ⟨_, _, (rfl : machine.runFrom machine.init firedTooLate = some (_, _))⟩
  have hslots := slots_of_run h
  have hobjects : objects firedTooLate = [1, 0] := by decide
  rw [hobjects] at hslots
  cases h
  exact ⟨_, _, rfl, rfl, hslots⟩

end

end ConditionVariable

end Upnp
