/-
  The condition variable (`src/condition_variable.h`) and what cancels a wait on it
  (`upnp/detail/cancel.h`).

  A call of `wait` sits in two lists: its entry in `_on_notify`, and the connection of
  its slot in the list of a `cancel_t`.  Both are unlinked when the call returns, which
  it does when the executor runs the handler posted for it.  A step of the machine is

  * `wait c`: a call of `wait` with the object `c`, up to where it suspends;
  * `notify ec`, `fire c`: the variable is notified, the object `c` is called;
  * `execute n`: the executor runs a posted handler, the one at position `n`;
  * `destroy`: the variable is destroyed.  Later only posted handlers run, since a slot
    would use the executor of the variable.

  A `wait` without a `cancel_t` is one with an object that nobody calls.  To call the
  parent of some objects is to call these one after the other.

  * `notify_eq`, `fire_eq`: what the two loops do while every handler is still there;
  * `delivered_iff`: the handler of each wait is posted once, with the code it is owed,
    exactly in the runs in which no object is called while a wait connected to it has
    its handler posted.
-/
import Mathlib.Data.List.Nodup
import Upnp.Basic
import Upnp.Lib.Machine

namespace Upnp

open Lib

/-- A call of `wait`, by its number. -/
abbrev Wait := ℕ

/-- What `net::post` is given: the completion handler of a wait, or an empty function,
    and the code to call it with. -/
structure Posted where
  handler : Option Wait
  ec : Option ErrorCode
  deriving DecidableEq, Repr

/-- `ConditionVariable`, with the waits and with the `cancel_t` objects `κ`. -/
structure ConditionVariable (κ : Type) where
  alive : Bool
  onNotify : List Wait
  /-- `handler` of the entry of each wait, `none` where it is empty -/
  handler : Wait → Option Wait
  /-- `_connections` of each object -/
  connections : κ → List Wait
  posted : List Posted
  /-- the number of waits so far -/
  waits : ℕ

namespace ConditionVariable

inductive Action (κ : Type) where
  | wait (c : κ)
  | notify (ec : Option ErrorCode)
  | fire (c : κ)
  | execute (n : ℕ)
  | destroy
  deriving DecidableEq, Repr

/-- What a step reports. -/
inductive Event where
  | posted (p : Posted)
  /-- `assert(entry.is_linked())` -/
  | asserted (w : Wait) (linked : Bool)
  | returned (w : Wait) (ec : Option ErrorCode)
  /-- an empty function is called -/
  | badFunctionCall
  deriving DecidableEq, Repr

section
variable {κ : Type} [DecidableEq κ]

def init : ConditionVariable κ :=
  { alive := true, onNotify := [], handler := fun _ => none, connections := fun _ => []
    posted := [], waits := 0 }

/-- `wait(cancel, yield)`, until it suspends. -/
def wait (c : κ) (s : ConditionVariable κ) : ConditionVariable κ :=
  { s with
    waits := s.waits + 1
    handler := Function.update s.handler s.waits (some s.waits)
    onNotify := s.onNotify ++ [s.waits]
    connections := Function.update s.connections c (s.connections c ++ [s.waits]) }

/-- The end of `wait`: `slot` and `entry` are destroyed, and unlink themselves. -/
def leave (w : Wait) (s : ConditionVariable κ) : ConditionVariable κ :=
  { s with onNotify := s.onNotify.erase w, connections := fun c => (s.connections c).erase w }

/-- The loop of `notify(ec)`, where `_on_notify` holds these entries. -/
def notifyLoop (ec : Option ErrorCode) :
    List Wait → ConditionVariable κ → ConditionVariable κ × List Event
  | [], s => (s, [])
  | e :: rest, s =>
    let p : Posted := ⟨s.handler e, ec⟩
    let r := notifyLoop ec rest
      { s with
        handler := Function.update s.handler e none
        posted := s.posted ++ [p]
        onNotify := rest }
    (r.1, .posted p :: r.2)

/-- `notify(ec)` -/
def notify (ec : Option ErrorCode) (s : ConditionVariable κ) : ConditionVariable κ × List Event :=
  notifyLoop ec s.onNotify s

/-- The slot that `wait` connects. -/
def slot (w : Wait) (s : ConditionVariable κ) : ConditionVariable κ × List Event :=
  let p : Posted := ⟨s.handler w, some .operationAborted⟩
  ({ s with
      onNotify := s.onNotify.erase w
      handler := Function.update s.handler w none
      posted := s.posted ++ [p] },
    [.asserted w (w ∈ s.onNotify), .posted p])

/-- The loop of `cancel_t::operator()` over the connections it has moved out. -/
def fireLoop : List Wait → ConditionVariable κ → ConditionVariable κ × List Event
  | [], s => (s, [])
  | w :: rest, s =>
    let r := s.slot w
    let r' := fireLoop rest r.1
    (r'.1, r.2 ++ r'.2)

/-- `cancel_t::operator()` -/
def fire (c : κ) (s : ConditionVariable κ) : ConditionVariable κ × List Event :=
  fireLoop (s.connections c) { s with connections := Function.update s.connections c [] }

def step (s : ConditionVariable κ) : Action κ → Option (ConditionVariable κ × List Event)
  | .wait c => if s.alive then some (s.wait c, []) else none
  | .notify ec => if s.alive then some (s.notify ec) else none
  | .fire c => if s.alive then some (s.fire c) else none
  | .execute n =>
    (s.posted[n]?).map fun p =>
      let s := { s with posted := s.posted.eraseIdx n }
      match p.handler with
      | some w => (s.leave w, [.returned w p.ec])
      | none => (s, [.badFunctionCall])
  | .destroy =>
    if s.alive then some ({ s with alive := false }.notify (some .operationAborted)) else none

/-- A condition variable, used in any order. -/
def machine : Machine (ConditionVariable κ) (Action κ) Event := ⟨init, step⟩

end

/-! ## The loops -/

section
variable {κ : Type} {s : ConditionVariable κ} {ws : List Wait}

/-- The waits `ws` leave the variable, and their handlers are posted. -/
def wake (ws : List Wait) (ec : Option ErrorCode) (s : ConditionVariable κ) :
    ConditionVariable κ :=
  { s with
    onNotify := s.onNotify.filter (· ∉ ws)
    handler := fun w => if w ∈ ws then none else s.handler w
    posted := s.posted ++ ws.map fun w => ⟨some w, ec⟩ }

theorem wake_nil (ec : Option ErrorCode) : s.wake [] ec = s := by
  have hon : s.onNotify.filter (· ∉ ([] : List Wait)) = s.onNotify :=
    List.filter_eq_self.2 fun _ _ => rfl
  rw [wake, hon, List.map_nil, List.append_nil]
  rfl

/-- To wake a wait and then others is to wake them all. -/
theorem wake_cons {w : Wait} {ec : Option ErrorCode} {s₁ : ConditionVariable κ}
    (hs₁ : s₁ = { s with
      onNotify := s.onNotify.filter (· ≠ w)
      handler := Function.update s.handler w none
      posted := s.posted ++ [⟨some w, ec⟩] }) : s₁.wake ws ec = s.wake (w :: ws) ec := by
  subst hs₁
  simp only [wake, List.filter_filter, List.append_assoc, List.map_cons, List.singleton_append,
    mk.injEq, and_true, true_and]
  constructor
  · refine List.filter_congr fun v _ => ?_
    rw [← Bool.decide_and, decide_eq_decide, List.mem_cons, not_or, and_comm]
  · funext v
    by_cases hv : v = w
    · simp [hv]
    · simp [hv]

/-- **`notify` wakes the waits that are linked.** -/
theorem notifyLoop_eq (ec : Option ErrorCode) (hs : s.onNotify = ws) (hn : ws.Nodup)
    (hl : ∀ w ∈ ws, s.handler w = some w) :
    notifyLoop ec ws s = (s.wake ws ec, ws.map fun w => .posted ⟨some w, ec⟩) := by
  induction ws generalizing s with
  | nil => rw [wake_nil]; rfl
  | cons w ws ih =>
    obtain ⟨hw, hn⟩ := List.nodup_cons.1 hn
    have hne : ∀ v ∈ ws, v ≠ w := fun v hv h => hw (h ▸ hv)
    rw [notifyLoop, ih rfl hn, hl w List.mem_cons_self]
    · refine Prod.ext (wake_cons ?_) rfl
      simp only [hs, mk.injEq, and_true, true_and]
      rw [List.filter_cons_of_neg (by simp), List.filter_eq_self.2 fun v hv => by simp [hne v hv]]
    · intro v hv
      simp only [Function.update_of_ne (hne v hv), hl v (List.mem_cons_of_mem w hv)]

/-- **Calling an object wakes the waits connected to it, as long as they are linked.** -/
theorem fireLoop_eq (hs : s.onNotify.Nodup) (hn : ws.Nodup) (hsub : ∀ w ∈ ws, w ∈ s.onNotify)
    (hl : ∀ w ∈ ws, s.handler w = some w) :
    fireLoop ws s = (s.wake ws (some .operationAborted),
      ws.flatMap fun w => [.asserted w true, .posted ⟨some w, some .operationAborted⟩]) := by
  induction ws generalizing s with
  | nil => rw [wake_nil]; rfl
  | cons w ws ih =>
    obtain ⟨hw, hn⟩ := List.nodup_cons.1 hn
    have hne : ∀ v ∈ ws, v ≠ w := fun v hv h => hw (h ▸ hv)
    have hmem := hsub w List.mem_cons_self
    simp only [fireLoop, slot]
    rw [ih (hs.erase w) hn, hl w List.mem_cons_self]
    · refine Prod.ext (wake_cons ?_) ?_
      · simp only [hs.erase_eq_filter, mk.injEq, and_true, true_and]
        exact List.filter_congr fun v _ => by rw [bne_eq, decide_not]; rfl
      · simp [hmem]
    · intro v hv
      exact (List.mem_erase_of_ne (hne v hv)).2 (hsub v (List.mem_cons_of_mem w hv))
    · intro v hv
      simp only [Function.update_of_ne (hne v hv), hl v (List.mem_cons_of_mem w hv)]

/-- A wait that is not linked fails the assertion. -/
theorem asserted_of_fireLoop {w : Wait} (hw : w ∈ ws) (hs : w ∉ s.onNotify) :
    .asserted w false ∈ (fireLoop ws s).2 := by
  induction ws generalizing s with
  | nil => cases hw
  | cons v ws ih =>
    simp only [fireLoop, slot]
    rcases List.mem_cons.1 hw with rfl | hw
    · simp [hs]
    · exact List.mem_append_right _ (ih hw fun h => hs (List.mem_of_mem_erase h))

end

/-! ## What a wait is owed -/

section
variable {κ : Type}

/-- The object of a wait. -/
def Action.object : Action κ → Option κ
  | .wait c => some c
  | _ => none

/-- The objects of the waits, in the order of the waits. -/
def started (as : List (Action κ)) : List κ := as.filterMap Action.object

/-- The codes with which the handler of `w` is posted. -/
def postsOf (w : Wait) (es : List Event) : List (Option ErrorCode) :=
  es.filterMap fun
    | .posted ⟨some v, ec⟩ => if v = w then some ec else none
    | _ => none

theorem started_snoc (as : List (Action κ)) (a : Action κ) :
    started (as ++ [a]) = started as ++ a.object.toList := by
  rw [started, List.filterMap_append, List.filterMap_cons, List.filterMap_nil]
  cases a.object <;> rfl

theorem getElem?_started_wait {as : List (Action κ)} {c d : κ} {w : ℕ} :
    (started (as ++ [.wait c]))[w]? = some d ↔
      (started as)[w]? = some d ∨ w = (started as).length ∧ d = c := by
  have hst : started (as ++ [.wait c]) = started as ++ [c] := started_snoc as (.wait c)
  rw [hst]
  by_cases hw : w < (started as).length
  · rw [List.getElem?_append_left hw, or_iff_left fun h => Nat.ne_of_lt hw h.1]
  · rw [List.getElem?_append_right (Nat.not_lt.1 hw), List.getElem?_singleton,
      List.getElem?_eq_none_iff.2 (Nat.not_lt.1 hw)]
    have : w - (started as).length = 0 ↔ w = (started as).length := by omega
    simp [this, eq_comm]

variable [DecidableEq κ]

/-- The code with which an action ends a wait on `c`. -/
def Action.ends (c : κ) : Action κ → Option (Option ErrorCode)
  | .notify ec => some ec
  | .fire c' => if c' = c then some (some .operationAborted) else none
  | .destroy => some (some .operationAborted)
  | .wait _ | .execute _ => none

/-- The code owed to a wait: that of the first action behind it that ends it. -/
def owed : List (Action κ) → Wait → Option (Option ErrorCode)
  | [], _ => none
  | a :: as, w =>
    match a.object, w with
    | some c, 0 => as.findSome? (Action.ends c)
    | some _, w + 1 => owed as w
    | none, w => owed as w

/-- What is to become of the waits in a run. -/
structure Delivered (as : List (Action κ)) (es : List Event) : Prop where
  /-- the assertion in the slot holds -/
  linked : ∀ w, .asserted w false ∉ es
  /-- no empty function is posted -/
  live : ∀ ec, .posted ⟨none, ec⟩ ∉ es
  /-- the handler of a wait is posted once, with the code owed, or the wait still goes on -/
  once : ∀ w, postsOf w es = (owed as w).toList
  /-- no wait goes on when the variable is gone -/
  all : .destroy ∈ as → ∀ w < (started as).length, ∃ ec, owed as w = some ec

/-- No object is called while a wait connected to it has its handler posted. -/
def NotPending (s : ConditionVariable κ) (a : Action κ) : Prop :=
  ∀ c, a = .fire c → ∀ w ∈ s.connections c, ∀ p ∈ s.posted, p.handler ≠ some w

theorem owed_snoc (as : List (Action κ)) (a : Action κ) (w : Wait) :
    owed (as ++ [a]) w = (started as)[w]?.bind fun c => (owed as w).or (a.ends c) := by
  induction as generalizing w with
  | nil =>
    simp only [List.nil_append, owed, started, List.filterMap_nil, List.getElem?_nil,
      Option.bind_none]
    split <;> rfl
  | cons b as ih =>
    cases b with
    | wait c =>
      rcases w with _ | w
      · refine List.findSome?_append.trans ?_
        rw [List.findSome?_singleton]
        rfl
      · exact ih w
    | notify _ | fire _ | execute _ | destroy => exact ih w

/-! ## The invariant -/

theorem mem_eraseIdx_of_ne {α : Type} {l : List α} {n : ℕ} {p q : α} (hp : l[n]? = some p)
    (hq : q ∈ l) (hne : q ≠ p) : q ∈ l.eraseIdx n := by
  obtain ⟨i, hi⟩ := List.mem_iff_getElem?.1 hq
  refine List.mem_eraseIdx_iff_getElem?.2 ⟨i, ?_, hi⟩
  rintro rfl
  exact hne (Option.some.inj (hi.symm.trans hp))

/-- The state after the actions `as`, as long as none of them was bad. -/
structure Inv (as : List (Action κ)) (s : ConditionVariable κ) : Prop where
  waits : s.waits = (started as).length
  gone : .destroy ∈ as → s.alive = false
  dead : s.alive = false → s.onNotify = []
  nodup : s.onNotify.Nodup
  unique : ∀ c, (s.connections c).Nodup
  /-- a wait is linked until it is owed a code, and its slot is connected as long -/
  linked : ∀ w ∈ s.onNotify, ∃ c, (started as)[w]? = some c ∧ w ∈ s.connections c
  waiting : ∀ w c, (started as)[w]? = some c → (w ∈ s.onNotify ↔ owed as w = none)
  connected : ∀ c, ∀ w ∈ s.connections c, (started as)[w]? = some c
  handler : ∀ w ∈ s.onNotify, s.handler w = some w
  /-- a slot whose wait is not linked waits for the posted handler to run -/
  pending : ∀ c, ∀ w ∈ s.connections c, w ∈ s.onNotify ∨ ∃ p ∈ s.posted, p.handler = some w
  posted : ∀ p ∈ s.posted, ∃ w, p.handler = some w ∧ w < s.waits ∧ w ∉ s.onNotify

variable {as : List (Action κ)} {a : Action κ} {s s' : ConditionVariable κ} {es : List Event}

theorem Inv.init : Inv [] (init : ConditionVariable κ) where
  waits := rfl
  gone := nofun
  dead := nofun
  nodup := List.nodup_nil
  unique _ := List.nodup_nil
  linked := nofun
  waiting := nofun
  connected := nofun
  handler := nofun
  pending := nofun
  posted := nofun

/-- The steps of a good run. -/
inductive Took (s : ConditionVariable κ) : Action κ → ConditionVariable κ → List Event → Prop
  | wait {c} (ha : s.alive = true) : Took s (.wait c) (s.wait c) []
  | notify {ec} (ha : s.alive = true) : Took s (.notify ec) (s.wake s.onNotify ec)
      (s.onNotify.map fun w => .posted ⟨some w, ec⟩)
  | fire {c} (ha : s.alive = true) (hc : ∀ w ∈ s.connections c, w ∈ s.onNotify) : Took s (.fire c)
      ({ s with connections := Function.update s.connections c [] }.wake (s.connections c)
        (some .operationAborted))
      ((s.connections c).flatMap fun w =>
        [.asserted w true, .posted ⟨some w, some .operationAborted⟩])
  | execute {n p w} (hp : s.posted[n]? = some p) (hw : p.handler = some w) : Took s (.execute n)
      ({ s with posted := s.posted.eraseIdx n }.leave w) [.returned w p.ec]
  | destroy (ha : s.alive = true) : Took s .destroy
      ({ s with alive := false }.wake s.onNotify (some .operationAborted))
      (s.onNotify.map fun w => .posted ⟨some w, some .operationAborted⟩)

/-- A slot that is connected and has no posted handler is that of a linked wait. -/
theorem Inv.linked_of_notPending {c : κ} (hi : Inv as s) (hc : NotPending s (.fire c)) :
    ∀ w ∈ s.connections c, w ∈ s.onNotify := by
  intro w hw
  refine (hi.pending c w hw).resolve_right ?_
  rintro ⟨p, hp, hpw⟩
  exact hc c rfl w hw p hp hpw

/-- **Every step that calls no object with a pending wait is one of those `Took` lists.** -/
theorem took_of_step (hi : Inv as s) (hc : NotPending s a) (h : step s a = some (s', es)) :
    Took s a s' es := by
  cases a with
  | wait c =>
    simp only [step, Option.ite_none_right_eq_some] at h
    obtain ⟨ha, h⟩ := h
    cases h
    exact .wait ha
  | notify ec =>
    simp only [step, Option.ite_none_right_eq_some, notify,
      notifyLoop_eq ec rfl hi.nodup hi.handler] at h
    obtain ⟨ha, h⟩ := h
    cases h
    exact .notify ha
  | fire c =>
    have hl := hi.linked_of_notPending hc
    simp only [step, Option.ite_none_right_eq_some, fire] at h
    obtain ⟨ha, h⟩ := h
    have heq := fireLoop_eq (s := { s with connections := Function.update s.connections c [] })
      hi.nodup (hi.unique c) hl fun w hw => hi.handler w (hl w hw)
    cases heq.symm.trans (Option.some.inj h)
    exact .fire ha hl
  | execute n =>
    simp only [step, Option.map_eq_some_iff] at h
    obtain ⟨p, hp, h⟩ := h
    obtain ⟨w, hw, -⟩ := hi.posted p (List.mem_of_getElem? hp)
    rw [hw] at h
    cases h
    exact .execute hp hw
  | destroy =>
    simp only [step, Option.ite_none_right_eq_some, notify] at h
    obtain ⟨ha, h⟩ := h
    have heq := notifyLoop_eq (s := { s with alive := false }) (some .operationAborted) rfl
      hi.nodup hi.handler
    cases heq.symm.trans (Option.some.inj h)
    exact .destroy ha

/-- The action ends the waits `ws`, and no others that are linked. -/
structure Ends (as : List (Action κ)) (s : ConditionVariable κ) (a : Action κ) (ws : List Wait)
    (ec : Option ErrorCode) : Prop where
  object : a.object = none
  sub : ∀ w ∈ ws, w ∈ s.onNotify
  ends : ∀ w ∈ s.onNotify, ∀ c, (started as)[w]? = some c →
    a.ends c = if w ∈ ws then some ec else none

theorem ends_onNotify {ec : Option ErrorCode} (ho : a.object = none)
    (h : ∀ c : κ, a.ends c = some ec) : Ends as s a s.onNotify ec where
  object := ho
  sub _ hw := hw
  ends w hw c _ := by rw [h c, if_pos hw]

theorem Inv.ends_connections {c : κ} (hi : Inv as s) (hc : ∀ w ∈ s.connections c, w ∈ s.onNotify) :
    Ends as s (.fire c) (s.connections c) (some .operationAborted) where
  object := rfl
  sub := hc
  ends := by
    intro w hw d hd
    obtain ⟨d', hd', hwd⟩ := hi.linked w hw
    obtain rfl : d' = d := Option.some.inj (hd'.symm.trans hd)
    by_cases h : c = d'
    · subst h
      rw [if_pos hwd, Action.ends, if_pos rfl]
    · rw [Action.ends, if_neg h, if_neg]
      exact fun hwc => h (Option.some.inj ((hi.connected c w hwc).symm.trans hd))

/-- **To wake those waits that an action ends keeps the invariant.** -/
theorem Inv.wake {b : Bool} {cs : κ → List Wait} {ws : List Wait} {ec : Option ErrorCode}
    (hi : Inv as s) (ha : Ends as s a ws ec) (hb : .destroy ∈ as ++ [a] → b = false)
    (hover : b = false → ∀ w ∈ s.onNotify, w ∈ ws)
    (hcs : ∀ c, cs c = s.connections c ∨ cs c = [] ∧ ∀ w ∈ s.connections c, w ∈ ws) :
    Inv (as ++ [a]) ({ s with alive := b, connections := cs }.wake ws ec) := by
  have hst : started (as ++ [a]) = started as := by
    rw [started_snoc, ha.object, Option.toList_none, List.append_nil]
  have hmem : ∀ {w}, w ∈ s.onNotify.filter (· ∉ ws) ↔ w ∈ s.onNotify ∧ w ∉ ws := by
    intro w
    rw [List.mem_filter, decide_eq_true_iff]
  have hsub : ∀ {c w}, w ∈ cs c → w ∈ s.connections c := by
    intro c w hw
    rcases hcs c with h | ⟨h, -⟩
    · exact h ▸ hw
    · rw [h] at hw
      cases hw
  constructor
  · exact hi.waits.trans (by rw [hst])
  · exact hb
  · intro h
    refine List.filter_eq_nil_iff.2 ?_
    intro w hw
    simpa using hover h w hw
  · exact hi.nodup.filter _
  · intro c
    change (cs c).Nodup
    rcases hcs c with h | ⟨h, -⟩
    · exact h ▸ hi.unique c
    · exact h ▸ List.nodup_nil
  · intro w hw
    obtain ⟨hw, hn⟩ := hmem.1 hw
    obtain ⟨c, hc, hwc⟩ := hi.linked w hw
    refine ⟨c, hst ▸ hc, ?_⟩
    change w ∈ cs c
    rcases hcs c with h | ⟨-, h⟩
    · exact h ▸ hwc
    · exact absurd (h w hwc) hn
  · intro w c hc
    rw [hst] at hc
    rw [owed_snoc, hc, Option.bind_some, Option.or_eq_none_iff, ← hi.waiting w c hc]
    refine hmem.trans (and_congr_right fun hw => ?_)
    rw [ha.ends w hw c hc]
    split <;> simp [*]
  · intro c w hw
    exact hst ▸ hi.connected c w (hsub hw)
  · intro w hw
    obtain ⟨hw, hn⟩ := hmem.1 hw
    exact (if_neg hn).trans (hi.handler w hw)
  · intro c w hw
    by_cases hwws : w ∈ ws
    · refine .inr ⟨⟨some w, ec⟩, List.mem_append_right _ (List.mem_map.2 ⟨w, hwws, rfl⟩), rfl⟩
    · rcases hi.pending c w (hsub hw) with h | ⟨p, hp, hpw⟩
      · exact .inl (hmem.2 ⟨h, hwws⟩)
      · exact .inr ⟨p, List.mem_append_left _ hp, hpw⟩
  · intro p hp
    rcases List.mem_append.1 hp with hp | hp
    · obtain ⟨w, hpw, hlt, hn⟩ := hi.posted p hp
      exact ⟨w, hpw, hlt, fun h => hn (hmem.1 h).1⟩
    · obtain ⟨w, hw, rfl⟩ := List.mem_map.1 hp
      obtain ⟨c, hc, -⟩ := hi.linked w (ha.sub w hw)
      refine ⟨w, rfl, ?_, fun h => (hmem.1 h).2 hw⟩
      exact hi.waits ▸ (List.getElem?_eq_some_iff.1 hc).1

theorem mem_connections_wait {c d : κ} {w : Wait} : w ∈ (s.wait c).connections d ↔
    w ∈ s.connections d ∨ d = c ∧ w = s.waits := by
  by_cases hd : d = c
  · subst hd
    simp [ConditionVariable.wait]
  · simp [ConditionVariable.wait, hd]

/-- The next wait is none of those before. -/
theorem Inv.ne_waits {c : κ} {w : ℕ} (hi : Inv as s) (h : (started as)[w]? = some c) :
    w ≠ s.waits := by
  rw [hi.waits]
  exact Nat.ne_of_lt (List.getElem?_eq_some_iff.1 h).1

theorem Inv.waits_notMem (hi : Inv as s) : s.waits ∉ s.onNotify := by
  intro hw
  obtain ⟨c, hc, -⟩ := hi.linked _ hw
  exact hi.ne_waits hc rfl

theorem Inv.unique_wait {c : κ} (hi : Inv as s) (d : κ) : ((s.wait c).connections d).Nodup := by
  change (Function.update s.connections c _ d).Nodup
  by_cases hd : d = c
  · subst hd
    rw [Function.update_self, ← List.concat_eq_append]
    exact (hi.unique d).concat fun h => hi.ne_waits (hi.connected d _ h) rfl
  · rw [Function.update_of_ne hd]
    exact hi.unique d

/-- **A new wait keeps the invariant.** -/
theorem Inv.wait {c : κ} (hi : Inv as s) (ha : s.alive = true) :
    Inv (as ++ [.wait c]) (s.wait c) where
  waits := by
    change s.waits + 1 = _
    rw [started_snoc, List.length_append, hi.waits]
    rfl
  gone h := by
    rw [hi.gone (by simpa using h)] at ha
    cases ha
  dead h := by
    rw [show s.alive = false from h] at ha
    cases ha
  nodup := by
    change (s.onNotify ++ [s.waits]).Nodup
    rw [← List.concat_eq_append]
    exact hi.nodup.concat hi.waits_notMem
  unique := hi.unique_wait
  linked w hw := by
    rcases List.mem_append.1 hw with hw | hw
    · obtain ⟨d, hd, hwd⟩ := hi.linked w hw
      exact ⟨d, getElem?_started_wait.2 (.inl hd), mem_connections_wait.2 (.inl hwd)⟩
    · rw [List.mem_singleton.1 hw]
      exact ⟨c, getElem?_started_wait.2 (.inr ⟨hi.waits, rfl⟩),
        mem_connections_wait.2 (.inr ⟨rfl, rfl⟩)⟩
  waiting w d hd := by
    rw [owed_snoc]
    rcases getElem?_started_wait.1 hd with hw | ⟨hw, -⟩
    · rw [hw, Option.bind_some, show (Action.wait c).ends d = none from rfl, Option.or_none,
        ← hi.waiting w d hw]
      refine ⟨fun h => ?_, List.mem_append_left _⟩
      exact (List.mem_append.1 h).resolve_right fun h => hi.ne_waits hw (List.mem_singleton.1 h)
    · rw [List.getElem?_eq_none_iff.2 (Nat.le_of_eq hw.symm), hw, ← hi.waits]
      exact iff_of_true (List.mem_append_right _ (List.mem_singleton_self _)) rfl
  connected d w hw := by
    rcases mem_connections_wait.1 hw with hw | ⟨rfl, rfl⟩
    · exact getElem?_started_wait.2 (.inl (hi.connected d w hw))
    · exact getElem?_started_wait.2 (.inr ⟨hi.waits, rfl⟩)
  handler w hw := by
    rcases List.mem_append.1 hw with hw | hw
    · have hne : w ≠ s.waits := fun h => hi.waits_notMem (h ▸ hw)
      exact (Function.update_of_ne hne _ _).trans (hi.handler w hw)
    · rw [List.mem_singleton.1 hw]
      exact Function.update_self _ _ _
  pending d w hw := by
    rcases mem_connections_wait.1 hw with hw | ⟨-, rfl⟩
    · exact (hi.pending d w hw).imp_left (List.mem_append_left _)
    · exact .inl (List.mem_append_right _ (List.mem_singleton_self _))
  posted p hp := by
    obtain ⟨w, hpw, hw, hn⟩ := hi.posted p hp
    refine ⟨w, hpw, Nat.lt_succ_of_lt hw, fun h => ?_⟩
    rcases List.mem_append.1 h with h | h
    · exact hn h
    · exact absurd (List.mem_singleton.1 h) (Nat.ne_of_lt hw)

/-- **A wait that returns keeps the invariant.** -/
theorem Inv.execute {n : ℕ} {p : Posted} {w : Wait} (hi : Inv as s) (hp : s.posted[n]? = some p)
    (hw : p.handler = some w) :
    Inv (as ++ [.execute n]) ({ s with posted := s.posted.eraseIdx n }.leave w) := by
  have hst : started (as ++ [.execute n]) = started as := by
    rw [started_snoc]
    exact List.append_nil _
  obtain ⟨v, hv, -, hn⟩ := hi.posted p (List.mem_of_getElem? hp)
  obtain rfl : v = w := Option.some.inj (hv.symm.trans hw)
  have hon : s.onNotify.erase v = s.onNotify := List.erase_of_not_mem hn
  have hmem : ∀ {c u}, u ∈ (s.connections c).erase v ↔ u ≠ v ∧ u ∈ s.connections c :=
    fun {c u} => (hi.unique c).mem_erase_iff
  constructor
  · exact hi.waits.trans (by rw [hst])
  · exact fun h => hi.gone (by simpa using h)
  · exact fun h => hon.trans (hi.dead h)
  · exact hi.nodup.erase v
  · exact fun c => (hi.unique c).erase v
  · intro u hu
    have hu : u ∈ s.onNotify := List.mem_of_mem_erase hu
    obtain ⟨c, hc, huc⟩ := hi.linked u hu
    exact ⟨c, hst ▸ hc, hmem.2 ⟨fun h => hn (h ▸ hu), huc⟩⟩
  · intro u c hc
    rw [hst] at hc
    rw [owed_snoc, hc, Option.bind_some, show (Action.execute n).ends c = none from rfl,
      Option.or_none, ← hi.waiting u c hc]
    change u ∈ s.onNotify.erase v ↔ _
    rw [hon]
  · exact fun c u hu => hst ▸ hi.connected c u (hmem.1 hu).2
  · exact fun u hu => hi.handler u (List.mem_of_mem_erase hu)
  · intro c u hu
    obtain ⟨hne, hu⟩ := hmem.1 hu
    change u ∈ s.onNotify.erase v ∨ _
    rw [hon]
    refine (hi.pending c u hu).imp_right ?_
    rintro ⟨q, hq, hqu⟩
    -- the handler that has run is another one
    have hqp : q ≠ p := by
      rintro rfl
      exact hne (Option.some.inj (hqu.symm.trans hw))
    exact ⟨q, mem_eraseIdx_of_ne hp hq hqp, hqu⟩
  · intro q hq
    obtain ⟨u, hqu, hu, hun⟩ := hi.posted q (List.mem_of_mem_eraseIdx hq)
    exact ⟨u, hqu, hu, fun h => hun (List.mem_of_mem_erase h)⟩

/-- **Every step of a good run keeps the invariant.** -/
theorem Inv.step (hi : Inv as s) (h : Took s a s' es) : Inv (as ++ [a]) s' := by
  cases h with
  | wait ha => exact hi.wait ha
  | notify ha =>
    exact hi.wake (b := s.alive) (ends_onNotify rfl fun _ => rfl)
      (fun h => hi.gone (by simpa using h)) (fun _ _ hw => hw) fun _ => .inl rfl
  | @fire c ha hc =>
    refine hi.wake (b := s.alive) (hi.ends_connections hc) (fun h => hi.gone (by simpa using h))
      ?_ ?_
    · intro h
      rw [ha] at h
      cases h
    · intro d
      by_cases hd : d = c
      · subst hd
        exact .inr ⟨Function.update_self _ _ _, fun w hw => hw⟩
      · exact .inl (Function.update_of_ne hd _ _)
  | execute hp hw => exact hi.execute hp hw
  | destroy ha =>
    exact hi.wake (b := false) (ends_onNotify rfl fun _ => rfl) (fun _ => rfl)
      (fun _ _ hw => hw) fun _ => .inl rfl

/-! ## What is posted -/

theorem postsOf_append (w : Wait) (es es' : List Event) :
    postsOf w (es ++ es') = postsOf w es ++ postsOf w es' :=
  List.filterMap_append

/-- A loop that posts the handler of each of the waits `ws`. -/
theorem postsOf_flatMap {ws : List Wait} {ec : Option ErrorCode} {f : Wait → List Event}
    (hf : ∀ v w, postsOf w (f v) = if v = w then [ec] else []) (hn : ws.Nodup) (w : Wait) :
    postsOf w (ws.flatMap f) = if w ∈ ws then [ec] else [] := by
  induction ws with
  | nil => rfl
  | cons v ws ih =>
    obtain ⟨hv, hn⟩ := List.nodup_cons.1 hn
    rw [List.flatMap_cons, postsOf_append, hf, ih hn]
    by_cases h : v = w
    · subst h
      simp [hv]
    · simp [h, Ne.symm h]

theorem owed_of_getElem?_eq_none {w : Wait} (h : (started as)[w]? = none) : owed as w = none := by
  induction as using List.reverseRecOn with
  | nil => rfl
  | append_singleton as a ih =>
    have hw : (started as)[w]? = none := by
      rw [started_snoc, List.getElem?_eq_none_iff, List.length_append] at h
      exact List.getElem?_eq_none_iff.2 (Nat.le_trans (Nat.le_add_right _ _) h)
    rw [owed_snoc, hw, Option.bind_none]

/-- **A step posts what it ends, with the code it owes from then on.** -/
theorem Ends.posts {ws : List Wait} {ec : Option ErrorCode} {es₀ : List Event} (hi : Inv as s)
    (ha : Ends as s a ws ec) (hes : ∀ w, postsOf w es = if w ∈ ws then [ec] else [])
    (h₀ : ∀ w, postsOf w es₀ = (owed as w).toList) (w : Wait) :
    postsOf w (es₀ ++ es) = (owed (as ++ [a]) w).toList := by
  rw [postsOf_append, h₀, hes, owed_snoc]
  rcases hw : (started as)[w]? with _ | c
  · have hws : w ∉ ws := by
      intro h
      obtain ⟨c, hc, -⟩ := hi.linked w (ha.sub w h)
      rw [hw] at hc
      cases hc
    rw [owed_of_getElem?_eq_none hw, if_neg hws]
    rfl
  · rw [Option.bind_some]
    by_cases hon : w ∈ s.onNotify
    · rw [(hi.waiting w c hw).1 hon, ha.ends w hon c hw]
      split <;> rfl
    · obtain ⟨ec', hec⟩ := Option.ne_none_iff_exists'.1 (mt (hi.waiting w c hw).2 hon)
      rw [hec, if_neg fun h => hon (ha.sub w h)]
      rfl

/-- An action that ends no wait. -/
theorem owed_snoc_of_ends (h : ∀ c : κ, a.ends c = none) (w : Wait) :
    owed (as ++ [a]) w = owed as w := by
  rw [owed_snoc]
  rcases hw : (started as)[w]? with _ | c
  · rw [owed_of_getElem?_eq_none hw, Option.bind_none]
  · rw [Option.bind_some, h, Option.or_none]

theorem Took.posts {es₀ : List Event} (hi : Inv as s) (h : Took s a s' es)
    (h₀ : ∀ w, postsOf w es₀ = (owed as w).toList) (w : Wait) :
    postsOf w (es₀ ++ es) = (owed (as ++ [a]) w).toList := by
  have hmap : ∀ ec w, postsOf w (s.onNotify.map fun w => .posted ⟨some w, ec⟩) =
      if w ∈ s.onNotify then [ec] else [] := by
    intro ec
    rw [List.map_eq_flatMap]
    exact postsOf_flatMap (fun v w => by simp only [postsOf]; split <;> simp [*]) hi.nodup
  cases h with
  | wait ha => rw [List.append_nil, h₀, owed_snoc_of_ends fun _ => rfl]
  | notify ha => exact (ends_onNotify rfl fun _ => rfl).posts hi (hmap _) h₀ w
  | fire ha hc =>
    refine (hi.ends_connections hc).posts hi ?_ h₀ w
    exact postsOf_flatMap (fun v w => by simp only [postsOf]; split <;> simp [*]) (hi.unique _)
  | execute hp hw =>
    rw [postsOf_append, h₀, owed_snoc_of_ends fun _ => rfl]
    exact List.append_nil _
  | destroy ha => exact (ends_onNotify rfl fun _ => rfl).posts hi (hmap _) h₀ w

/-! ## Runs -/

/-- Not a failed assertion, and not an empty function that is posted. -/
def Event.Good (e : Event) : Prop := (∀ w, e ≠ .asserted w false) ∧ ∀ ec, e ≠ .posted ⟨none, ec⟩

theorem Took.good (h : Took s a s' es) : ∀ e ∈ es, e.Good := by
  intro e he
  cases h with
  | wait _ => cases he
  | notify _ | destroy _ =>
    obtain ⟨w, -, rfl⟩ := List.mem_map.1 he
    exact ⟨nofun, nofun⟩
  | fire _ _ =>
    obtain ⟨w, -, he⟩ := List.mem_flatMap.1 he
    rcases List.mem_pair.1 he with rfl | rfl <;> exact ⟨nofun, nofun⟩
  | execute _ _ =>
    rw [List.mem_singleton.1 he]
    exact ⟨nofun, nofun⟩

/-- **To call an object with a pending wait fails the assertion in its slot.** -/
theorem Inv.bad_of_step (hi : Inv as s) (hc : ¬ NotPending s a)
    (h : ConditionVariable.step s a = some (s', es)) : ∃ e ∈ es, ¬ e.Good := by
  simp only [NotPending, not_forall, not_not] at hc
  obtain ⟨c, rfl, w, hw, p, hp, hpw⟩ := hc
  obtain ⟨v, hv, -, hn⟩ := hi.posted p hp
  obtain rfl : v = w := Option.some.inj (hv.symm.trans hpw)
  simp only [ConditionVariable.step, Option.ite_none_right_eq_some, fire, Option.some.injEq] at h
  refine ⟨.asserted v false, ?_, fun h => h.1 v rfl⟩
  have hmem := asserted_of_fireLoop
    (s := { s with connections := Function.update s.connections c [] }) hw hn
  rwa [h.2] at hmem

/-- **The handler of each wait is posted exactly once, with the code it is owed, in the
    runs in which no object is called while a wait connected to it has its handler
    posted, and in no others.** -/
theorem delivered_iff (h : machine.Run as es s) :
    Delivered as es ↔ machine.Meets NotPending machine.init as := by
  obtain ⟨hgood, hinv⟩ := h.meets_iff (C := NotPending) (G := Event.Good)
    (P := fun as es s => Inv as s ∧ ∀ w, postsOf w es = (owed as w).toList)
    ⟨Inv.init, fun _ => rfl⟩
    (fun hp hc hstep =>
      have ht := took_of_step hp.1 hc hstep
      ⟨⟨hp.1.step ht, ht.posts hp.1 hp.2⟩, ht.good⟩)
    (fun hp hc hstep => hp.1.bad_of_step hc hstep)
  constructor
  · intro hd
    refine hgood.2 fun e he => ⟨?_, ?_⟩
    · rintro w rfl
      exact hd.linked w he
    · rintro ec rfl
      exact hd.live ec he
  · intro hm
    obtain ⟨hi, hposts⟩ := hinv hm
    refine ⟨fun w hw => (hgood.1 hm _ hw).1 w rfl, fun ec he => (hgood.1 hm _ he).2 ec rfl,
      hposts, ?_⟩
    intro hdestroy w hw
    have hnot : w ∉ s.onNotify := by
      rw [hi.dead (hi.gone hdestroy)]
      exact List.not_mem_nil
    exact Option.ne_none_iff_exists'.1
      (mt (hi.waiting w _ (List.getElem?_eq_getElem hw)).2 hnot)

/-- One wait is notified and another one cancelled, each object is called when its wait
    has returned, and a third wait goes on to the end. -/
def notifiedThenFired : List (Action ℕ) :=
  [.wait 0, .notify none, .wait 1, .execute 0, .fire 0, .fire 1, .wait 2, .destroy]

theorem delivered_notifiedThenFired : ∃ es s, machine.Run notifiedThenFired es s ∧
    Delivered notifiedThenFired es := by
  obtain ⟨es, s, h⟩ : ∃ es s, machine.Run notifiedThenFired es s :=
    ⟨_, _, (rfl : machine.runFrom machine.init notifiedThenFired = some (_, _))⟩
  refine ⟨es, s, h, (delivered_iff h).2 ?_⟩
  have hnil : ∀ {s : ConditionVariable ℕ} {c}, s.connections c = [] → NotPending s (.fire c) := by
    intro s c h d hd w hw
    cases hd
    rw [h] at hw
    cases hw
  refine .cons rfl nofun (.cons rfl nofun (.cons rfl nofun (.cons rfl nofun (.cons rfl (hnil rfl)
    (.cons rfl ?_ (.cons rfl nofun (.cons rfl nofun trivial)))))))
  intro c hc w hw p hp
  cases hp

/-- An object is called between a notification and the return of the wait: the assertion
    fails, and an empty function is posted. -/
theorem not_delivered_firedTooEarly : ∃ es s,
    machine.Run [.wait 0, .notify none, .fire 0, .destroy] es (s : ConditionVariable ℕ) ∧
    .asserted 0 false ∈ es ∧ .posted ⟨none, some .operationAborted⟩ ∈ es ∧
    ¬ Delivered ([.wait 0, .notify none, .fire 0, .destroy] : List (Action ℕ)) es := by
  refine ⟨[.posted ⟨some 0, none⟩, .asserted 0 false, .posted ⟨none, some .operationAborted⟩], _,
    rfl, by decide, by decide, fun h => h.linked 0 (by decide)⟩

end

end ConditionVariable

end Upnp
