/-
  The igds over the `cancel_t` objects that they hold (`igd.h`, `upnp/detail/cancel.h`).

  `Operations` says what becomes of the slots when igds are stopped, moved and destroyed.
  Here it is the `_cancel` of each igd that makes it so: its `operator()` moves the list out
  and calls the slots in a loop, its moves hand the list on, and the connection that
  `soap_request` holds unlinks itself.

  * `Represents`: the `cancel_t` objects of the igds;
  * `simulates`, `cancels_of_run`: every run of igds and their operations is a run of the
    `cancel_t` objects, with the calls that the source makes and the slots that close the
    streams.
-/
import Upnp.CancelCalls
import Upnp.CancelMoves
import Upnp.Lib.Simulation
import Upnp.Operations

namespace Upnp

open Lib

namespace Operations

/-- The calls that an action makes on the `_cancel` of the igds. -/
def Action.cancels : Action → List Cancels.Action
  | .create => [.newObject]
  | .move b => [.moveObject b]
  | .assign a b => [.assignObject a b]
  | .destroy d => [.fire d, .destroyObject d]
  | .stop d => [.fire d]
  | .request d => [.connect d]
  | .complete _ _ | .resume _ => []

def Event.closed? : Event → Option ℕ
  | .closed n => some n
  | .returned _ _ => none

def Event.returned? : Event → Option ℕ
  | .closed _ => none
  | .returned n _ => some n

/-- The objects are the `_cancel` of the igds, and the connections those of the requests
    that have not returned. -/
structure Represents (s : Operations) (t : Cancels) : Prop where
  frames : t.frames = []
  objects : t.objects = s.igds
  nextObject : t.nextObject = s.nextIgd
  nextHandle : t.nextHandle = s.nextRequest
  nextSlot : t.nextSlot = s.nextRequest
  connections : ∀ d, t.connections d = (s.connections d).map .handle
  handles_nodup : t.handles.Nodup
  handles : ∀ n, n ∈ t.handles ↔ s.running n ≠ none
  /-- each connection has the slot that closes the stream of its request -/
  slot : ∀ n ∈ t.handles, t.slot (.handle n) = some (.user n)
  parent : ∀ d, t.slot (.parent d) = none

/-- What is called, what ends and what is closed, in its order. -/
structure Implements (as : List Action) (es : List Event) (bs : List Cancels.Action)
    (ds : List Cancels.Event) : Prop where
  calls : bs.filter Cancels.Action.isCall = as.flatMap Action.cancels
  ends : bs.filterMap Cancels.Action.ended = es.filterMap Event.returned?
  closes : ds.map Cancels.Event.closes = (es.filterMap Event.closed?).map some

variable {s s' : Operations} {t t' : Cancels} {a : Action} {as as' : List Action}
  {es es' : List Event} {bs bs' : List Cancels.Action} {ds ds' : List Cancels.Event} {n d : ℕ}

theorem Implements.append (h : Implements as es bs ds) (h' : Implements as' es' bs' ds') :
    Implements (as ++ as') (es ++ es') (bs ++ bs') (ds ++ ds') where
  calls := by rw [List.filter_append, h.calls, h'.calls, List.flatMap_append]
  ends := by rw [List.filterMap_append, h.ends, h'.ends, List.filterMap_append]
  closes := by
    rw [List.map_append, h.closes, h'.closes, List.filterMap_append, List.map_append]

theorem Represents.init : Represents init Cancels.init where
  frames := rfl
  objects := rfl
  nextObject := rfl
  nextHandle := rfl
  nextSlot := rfl
  connections _ := rfl
  handles_nodup := List.nodup_nil
  handles n := by simp [Operations.init, Cancels.init]
  slot n hn := by cases hn
  parent _ := rfl

/-- A slot in a list is that of a request under way. -/
theorem Represents.slot_of_mem (hr : Represents s t) (hi : Inv s) (hn : n ∈ s.connections d) :
    t.slot (.handle n) = some (.user n) := by
  obtain ⟨q, hq, -⟩ := (hi.linked n).2 ⟨d, hn⟩
  exact hr.slot n ((hr.handles n).2 (by rw [hq]; exact Option.some_ne_none q))

/-- The igds have new lists, as the objects have. -/
theorem Represents.relist (hr : Represents s t) {igds objects : List ℕ} {next next' : ℕ}
    {f : ℕ → List ℕ} {g : ℕ → List Conn} {count : ℕ → ℕ} (ho : objects = igds)
    (hn : next' = next) (hfg : ∀ d, g d = (f d).map .handle) :
    Represents { s with igds := igds, nextIgd := next, connections := f }
      { t with objects := objects, nextObject := next', connections := g, callCount := count } :=
  { hr with objects := ho, nextObject := hn, connections := hfg }

theorem map_update {c : ℕ → List ℕ} {g : ℕ → List Conn} (h : ∀ d, g d = (c d).map .handle)
    {l : List ℕ} {l' : List Conn} (hl : l' = l.map .handle) (d e : ℕ) :
    Function.update g d l' e = (Function.update c d l e).map .handle := by
  by_cases he : e = d
  · rw [he, Function.update_self, Function.update_self, hl]
  · rw [Function.update_of_ne he, Function.update_of_ne he, h]

theorem Represents.create (hr : Represents s t) : Represents s.create t.newObject :=
  hr.relist (by rw [hr.objects, hr.nextObject]) (by rw [hr.nextObject]) hr.connections

theorem Represents.move (hr : Represents s t) (b : ℕ) : Represents (s.move b) (t.moveObject b) := by
  have h : t.moveObject b = t.moved b := Cancels.adopt_of_none (s := t.moved b) (hr.parent b)
  rw [h]
  refine hr.create.relist hr.create.objects hr.create.nextObject fun d => ?_
  rw [hr.nextObject]
  exact map_update (map_update hr.connections (hr.connections b) _) List.map_nil.symm b d

theorem Represents.assign (hr : Represents s t) (a b : ℕ) :
    Represents (s.assign a b) (t.assignObject a b) := by
  have h : t.assignObject a b = t.swapped a b :=
    Cancels.adopt_of_none (s := t.swapped a b) (hr.parent b)
  rw [h]
  refine hr.relist hr.objects hr.nextObject fun d => ?_
  exact map_update (map_update hr.connections (hr.connections b) a) (hr.connections a) b d

/-- A new request has the new connection. -/
theorem Represents.request (hr : Represents s t) (hi : Inv s) (d : ℕ) :
    Represents (s.request d) (t.connect d) where
  frames := hr.frames
  objects := hr.objects
  nextObject := hr.nextObject
  nextHandle := congrArg (· + 1) hr.nextHandle
  nextSlot := congrArg (· + 1) hr.nextSlot
  connections := by
    refine map_update hr.connections ?_ d
    rw [List.map_append, ← hr.connections, ← hr.nextHandle]
    rfl
  handles_nodup := by
    have hnew : t.nextHandle ∉ t.handles := by
      rw [hr.handles, hr.nextHandle, hi.fresh _ (le_refl _)]
      exact fun h => h rfl
    exact List.nodup_append.2 ⟨hr.handles_nodup, List.nodup_singleton _, by
      rintro m hm m' hm' rfl
      exact hnew (List.mem_singleton.1 hm' ▸ hm)⟩
  handles m := by
    refine List.mem_append.trans ?_
    rw [hr.handles, List.mem_singleton, hr.nextHandle]
    by_cases h : m = s.nextRequest
    · simp [h, Operations.request]
    · simp [h, Operations.request]
  slot m hm := by
    show Function.update t.slot (.handle t.nextHandle) (some (.user t.nextSlot)) (.handle m) = _
    by_cases h : m = t.nextHandle
    · rw [h, Function.update_self, hr.nextHandle, hr.nextSlot]
    · rw [Function.update_of_ne (fun he => h (Conn.handle.inj he))]
      exact hr.slot m ((List.mem_append.1 hm).resolve_right fun h' => h (List.mem_singleton.1 h'))
  parent e := hr.parent e

/-- The connection of a request that returns unlinks itself. -/
theorem Represents.leave (hr : Represents s t) (n : ℕ) :
    Represents (s.leave n) (t.destroyHandle n) where
  frames := by
    show t.frames.map _ = []
    rw [hr.frames, List.map_nil]
  objects := hr.objects
  nextObject := hr.nextObject
  nextHandle := hr.nextHandle
  nextSlot := hr.nextSlot
  connections d := by
    show (t.connections d).filter _ = ((s.connections d).filter _).map _
    rw [hr.connections, List.filter_map]
    congr 1
    refine List.filter_congr fun m _ => ?_
    simp
  handles_nodup := hr.handles_nodup.erase n
  handles m := by
    refine (hr.handles_nodup.mem_erase_iff).trans ?_
    rw [hr.handles]
    by_cases h : m = n
    · simp [h, Operations.leave]
    · simp [h, Operations.leave]
  slot m hm := hr.slot m (List.mem_of_mem_erase hm)
  parent e := hr.parent e

/-- The requests under way are the same ones. -/
theorem Represents.running (hr : Represents s t) {running : ℕ → Option Running}
    (h : ∀ n, running n ≠ none ↔ s.running n ≠ none) :
    Represents { s with running := running } t :=
  { hr with handles := fun n => (hr.handles n).trans (h n).symm }

theorem running_update {q q' : Running} (hq : s.running n = some q) (m : ℕ) :
    Function.update s.running n (some q') m ≠ none ↔ s.running m ≠ none := by
  by_cases h : m = n
  · simp [h, hq]
  · simp [h]

theorem close_ne_none {ns : List ℕ} : (s.close ns).running n ≠ none ↔ s.running n ≠ none := by
  simp only [close]
  split <;> simp

/-- **`stop()` is a call of `operator()`.** -/
theorem Represents.stop (hr : Represents s t) (hi : Inv s) (hd : d ∈ s.igds) :
    ∃ bs ds t', Cancels.machine.RunFrom t bs ds t' ∧ Represents (s.stop d).1 t' ∧
      Implements [.stop d] (s.stop d).2 bs ds := by
  obtain ⟨count, nextFiring, callCount, hrun⟩ := Cancels.fire_run hr.frames (hr.objects ▸ hd)
    (hr.connections d) fun n hn => hr.slot_of_mem hi hn
  refine ⟨_, _, _, hrun, ?_, ?_, ?_, ?_⟩
  · have hclose : Represents (s.close (s.connections d)) t := hr.running fun _ => close_ne_none
    have h : Represents (s.stop d).1 { t with
        callCount := callCount, connections := Function.update t.connections d [] } :=
      hclose.relist hr.objects hr.nextObject (map_update hr.connections List.map_nil.symm d)
    exact { h with frames := rfl }
  · rw [List.filter_cons_of_pos rfl, Cancels.filter_rounds]
    rfl
  · rw [List.filterMap_cons_none rfl, Cancels.filterMap_rounds, eq_comm,
      List.filterMap_eq_nil_iff]
    intro e he
    obtain ⟨n, -, rfl⟩ := List.mem_map.1 he
    rfl
  · simp [Operations.stop, List.filterMap_map, Function.comp_def, Cancels.Event.closes,
      Event.closed?]

theorem notMem_parent (hr : Represents s t) (d e : ℕ) : .parent e ∉ t.connections d := by
  rw [hr.connections]
  intro h
  obtain ⟨n, -, hn⟩ := List.mem_map.1 h
  cases hn

/-- The members of an igd without slots are destroyed. -/
theorem Represents.destroyObject (hr : Represents s t) (hd : s.connections d = []) :
    Represents { s with igds := s.igds.erase d } (t.destroyObject d) := by
  have hunlink : ∀ e, (t.unlink (.parent d)).connections e = t.connections e := by
    intro e
    refine List.filter_eq_self.2 fun c hc => decide_eq_true ?_
    rintro rfl
    exact notMem_parent hr e d hc
  have hframes : (t.destroyObject d).frames = [] := by
    show t.frames.map _ = []
    rw [hr.frames, List.map_nil]
  have hlists : ∀ e, (t.destroyObject d).connections e = (s.connections e).map .handle := by
    intro e
    show Function.update (t.unlink (.parent d)).connections d [] e = _
    by_cases he : e = d
    · rw [he, Function.update_self, hd, List.map_nil]
    · rw [Function.update_of_ne he, hunlink, hr.connections]
  exact { hr with
    frames := hframes
    objects := congrArg (·.erase d) hr.objects
    connections := hlists }

/-- Without a call there is no slot to guard. -/
theorem step_destroyObject (hf : t.frames = []) (hd : d ∈ t.objects) :
    Cancels.machine.step t (.destroyObject d) = some (t.destroyObject d, []) := by
  have hp : t.inProgram = true := by rw [Cancels.inProgram, hf]
  simp [Cancels.machine, Cancels.step, hp, hd, hf, Cancels.Active]

/-- **`~igd()` is a call of `operator()`, and the end of the object.** -/
theorem Represents.destroy (hr : Represents s t) (hi : Inv s) (hd : d ∈ s.igds) :
    ∃ bs ds t', Cancels.machine.RunFrom t bs ds t' ∧ Represents (s.destroy d).1 t' ∧
      Implements [.destroy d] (s.destroy d).2 bs ds := by
  obtain ⟨bs, ds, t₁, hrun, hr₁, himp⟩ := hr.stop hi hd
  have hempty : (s.stop d).1.connections d = [] := Function.update_self ..
  have hmem : d ∈ t₁.objects := hr₁.objects ▸ hd
  refine ⟨bs ++ [.destroyObject d], ds, _,
    Machine.runFrom_snoc.2 ⟨t₁, ds, [], hrun, step_destroyObject hr₁.frames hmem,
      (List.append_nil ds).symm⟩, hr₁.destroyObject hempty, ?_, ?_, himp.closes⟩
  · rw [List.filter_append, himp.calls]
    rfl
  · rw [List.filterMap_append, himp.ends]
    exact List.append_nil _

/-- **The igds do with their `cancel_t` objects what the objects do.** -/
theorem simulates : machine.Simulation Cancels.machine (fun s t => Inv s ∧ Represents s t)
    Implements where
  init := ⟨.init, .init⟩
  nil := ⟨rfl, rfl, rfl⟩
  append := Implements.append
  step := by
    rintro s t a s' es ⟨hi, hr⟩ hs
    have ht := took_of_step hs
    have hi' := hi.step ht
    have hf := hr.frames
    have ho := hr.objects
    have hp : t.inProgram = true := by rw [Cancels.inProgram, hf]
    cases ht with
    | create =>
      refine ⟨[.newObject], [], t.newObject, Cancels.runFrom_one ?_, ⟨hi', hr.create⟩,
        rfl, rfl, rfl⟩
      exact if_pos hf
    | @move b hb =>
      refine ⟨[.moveObject b], [], t.moveObject b, Cancels.runFrom_one ?_, ⟨hi', hr.move b⟩,
        rfl, rfl, rfl⟩
      exact if_pos ⟨hf, ho ▸ hb⟩
    | @assign a b ha hb =>
      refine ⟨[.assignObject a b], [], t.assignObject a b, Cancels.runFrom_one ?_,
        ⟨hi', hr.assign a b⟩, rfl, rfl, rfl⟩
      exact if_pos ⟨hf, ho ▸ ha, ho ▸ hb⟩
    | @destroy d hd =>
      obtain ⟨bs, ds, t', hrun, hr', himp⟩ := hr.destroy hi hd
      exact ⟨bs, ds, t', hrun, ⟨hi', hr'⟩, himp⟩
    | @stop d hd =>
      obtain ⟨bs, ds, t', hrun, hr', himp⟩ := hr.stop hi hd
      exact ⟨bs, ds, t', hrun, ⟨hi', hr'⟩, himp⟩
    | @request d hd =>
      refine ⟨[.connect d], [], t.connect d, Cancels.runFrom_one ?_, ⟨hi', hr.request hi d⟩,
        rfl, rfl, rfl⟩
      exact if_pos ⟨hp, ho ▸ hd⟩
    | complete hq _ _ _ | staged hq _ _ =>
      exact ⟨[], [], t, rfl, ⟨hi', hr.running (running_update hq)⟩, rfl, rfl, rfl⟩
    | @returned n q r x hq _ _ =>
      refine ⟨[.destroyHandle n], [], t.destroyHandle n, Cancels.runFrom_one ?_,
        ⟨hi', hr.leave n⟩, rfl, rfl, rfl⟩
      have hn : n ∈ t.handles := (hr.handles n).2 (by rw [hq]; exact Option.some_ne_none q)
      have ha : ¬ t.Active (.handle n) := by simp [Cancels.Active, hf]
      exact if_pos ⟨hp, hn, ha⟩

/-- **Every run of igds and their operations is a run of `cancel_t` objects.**  They are
    constructed, moved, called and destroyed as the igds are, a connection ends with its
    request, and the streams are closed by the slots that are called. -/
theorem cancels_of_run (h : machine.Run as es s) : ∃ bs ds t,
    Cancels.machine.Run bs ds t ∧ Represents s t ∧ Implements as es bs ds := by
  obtain ⟨bs, ds, t, hrun, ⟨-, hr⟩, himp⟩ := simulates.run h
  exact ⟨bs, ds, t, hrun, hr, himp⟩

/-- Two igds that swap their requests, before one of them is stopped. -/
def exchanged : List Action :=
  [.create, .create, .request 0, .request 0, .request 1, .assign 0 1, .stop 1]

theorem cancels_of_exchanged : ∃ es s, machine.Run exchanged es s ∧ es = [.closed 0, .closed 1] ∧
    ∃ bs ds t, Cancels.machine.Run bs ds t ∧ Represents s t ∧ Implements exchanged es bs ds :=
  ⟨_, _, rfl, rfl, cancels_of_run (show machine.Run exchanged _ _ from rfl)⟩

end Operations

end Upnp
