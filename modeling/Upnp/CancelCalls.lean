/-
  Calls of `cancel_t` objects whose slots return at once (`upnp/detail/cancel.h`).

  * `fire_run`: a call of `operator()` calls the slots in the list once each, in order;
  * `created_run`: what there is when some objects have been constructed.
-/
import Upnp.Cancel

namespace Upnp

open Lib

namespace Cancels

/-- A call on an object, and not a part of it. -/
def Action.isCall : Action → Bool
  | .next | .return | .destroyHandle _ => false
  | _ => true

/-- The connection that is destroyed. -/
def Action.ended : Action → Option ℕ
  | .destroyHandle n => some n
  | _ => none

/-- The request whose slot is called, from its own connection. -/
def Event.closes : Event → Option ℕ
  | .called _ _ (.handle n) (.user x) => if n = x then some n else none
  | _ => none

theorem runFrom_one {t t' : Cancels} {b : Action} (h : machine.step t b = some (t', [])) :
    machine.RunFrom t [b] [] t' :=
  .cons h rfl

/-- The rounds of a loop over `k` slots, each of which returns at once. -/
def rounds : ℕ → List Action
  | 0 => [.next]
  | k + 1 => .next :: .return :: rounds k

theorem filter_rounds (k : ℕ) : (rounds k).filter Action.isCall = [] := by
  induction k with
  | zero => rfl
  | succ k ih => exact ih

theorem filterMap_rounds (k : ℕ) : (rounds k).filterMap Action.ended = [] := by
  induction k with
  | zero => rfl
  | succ k ih => exact ih

variable {t t' : Cancels} {d : ℕ} {ns : List ℕ}

/-- The loop of `operator()` over slots that return at once. -/
theorem rounds_run {f : Frame} (hf : t.frames = [f]) (hr : f.running = none)
    (hl : f.rest = ns.map .handle) (hs : ∀ n ∈ ns, t.slot (.handle n) = some (.user n)) :
    ∃ count, machine.RunFrom t (rounds ns.length)
      (ns.map fun n => .called f.firing f.object (.handle n) (.user n))
      { t with connCount := count, frames := [] } := by
  induction ns generalizing t f with
  | nil =>
    refine ⟨t.connCount, Machine.runFrom_cons.2 ⟨_, [], [], ?_, rfl, rfl⟩⟩
    simp only [machine, step, hf, hr, if_pos, next, hl, List.map_nil, resumed]
  | cons n ns ih =>
    -- the state while the slot of `n` runs, and after it has returned
    let count := Function.update t.connCount (.handle n) (t.connCount (.handle n) + 1)
    let f₁ : Frame := { f with running := some (.handle n, .user n), rest := ns.map .handle }
    let t₁ : Cancels := { t with connCount := count, frames := [f₁] }
    let t₂ : Cancels := { t with connCount := count, frames := [passed f₁] }
    have hn : t.slot (.handle n) = some (.user n) := hs n List.mem_cons_self
    have hnext : machine.step t .next =
        some (t₁, [.called f.firing f.object (.handle n) (.user n)]) := by
      simp only [machine, step, hf, hr, if_pos, next, hl, List.map_cons, hn, t₁, f₁, count]
    have hreturn : machine.step t₁ .return = some (t₂, []) := rfl
    obtain ⟨count', hrun⟩ := ih (t := t₂) (f := passed f₁) rfl rfl rfl
      fun m hm => hs m (List.mem_cons_of_mem _ hm)
    exact ⟨count', .cons hnext (.cons hreturn hrun)⟩

/-- **A call of `operator()` calls the slots in the list once each, in their order, and
    leaves the list empty.** -/
theorem fire_run (hf : t.frames = []) (hd : d ∈ t.objects)
    (hl : t.connections d = ns.map .handle)
    (hs : ∀ n ∈ ns, t.slot (.handle n) = some (.user n)) :
    ∃ count nextFiring callCount,
      machine.RunFrom t (.fire d :: rounds ns.length)
        (ns.map fun n => .called t.nextFiring d (.handle n) (.user n))
        { t with
          nextFiring := nextFiring, connCount := count, callCount := callCount
          connections := Function.update t.connections d [], frames := [] } := by
  let t₁ := enter t.nextFiring d { t with nextFiring := t.nextFiring + 1 }
  have hfire : machine.step t (.fire d) = some (t₁, []) := by
    have hp : t.inProgram = true := by rw [inProgram, hf]
    simp only [machine, step, hp, hd, and_self, if_pos, t₁]
  have hframes : t₁.frames = [⟨t.nextFiring, d, [], none, t.connections d⟩] := by
    simp only [t₁, enter, hf]
  obtain ⟨count, hrun⟩ := rounds_run hframes rfl hl hs
  exact ⟨count, _, _, .cons hfire hrun⟩

/-- The objects that a program has constructed first. -/
def created (k : ℕ) : Cancels := { init with objects := List.range k, nextObject := k }

theorem created_run (k : ℕ) : machine.Run (List.replicate k .newObject) [] (created k) := by
  induction k with
  | zero => rfl
  | succ k ih =>
    rw [List.replicate_succ']
    refine ih.snoc ?_
    have hstep : machine.step (created k) .newObject = some ((created k).newObject, []) := rfl
    rw [hstep, newObject, created, created, List.range_succ]

end Cancels

end Upnp
