/-
  The `cancel_t` objects and their connections (`upnp/detail/cancel.h`).

  A `Connection` is a node of at most one list.  The lists are those of the `cancel_t`
  objects and, while an object is called, the one that `operator()` has moved out: it is
  part of a `Frame`, one for each call that is active.  What a list or a function does
  when it is moved from is what Boost and the standard library document: a list is left
  empty by move construction and swapped by move assignment, a function is left empty.

  A step is one operation of the program, or one round of the loop of `operator()`
  (`next`), or the return of a slot.  While objects are called, the slot of the
  innermost call runs, and it may connect slots, destroy objects that are not active,
  and call objects.  Objects are constructed and moved in between.

  * `Took` says what each step does, and `took_of_step` that it does nothing else;
  * `linked_unlink`, `linked_swapNodes`: what becomes of the linked connections.
-/
import Mathlib.Data.List.Nodup
import Mathlib.Logic.Equiv.Basic
import Upnp.Lib.Machine

namespace Upnp

open Lib

/-- A `Connection`: one of the program's, or the `_parent_connection` of an object. -/
inductive Conn where
  | handle (n : ℕ)
  | parent (d : ℕ)
  deriving DecidableEq, Repr

/-- A function that is not empty: a slot of the program, or the `call_to_self()` of an
    object. -/
inductive Slot where
  | user (x : ℕ)
  | toSelf (d : ℕ)
  deriving DecidableEq, Repr

/-- A call of `operator()` that is active. -/
structure Frame where
  /-- the call by the program that this one belongs to -/
  firing : ℕ
  object : ℕ
  /-- the list moved out of the object: what the loop has passed, the connection whose
      slot runs, and what is left -/
  called : List Conn
  running : Option (Conn × Slot)
  rest : List Conn

/-- The list that the call has moved out. -/
def Frame.conns (f : Frame) : List Conn :=
  f.called ++ (f.running.map (·.1)).toList ++ f.rest

/-- The objects and connections there are.  What is not constructed is empty. -/
structure Cancels where
  objects : List ℕ
  handles : List ℕ
  nextObject : ℕ
  nextHandle : ℕ
  nextSlot : ℕ
  nextFiring : ℕ
  /-- `_slot` and `_call_count` of each connection -/
  slot : Conn → Option Slot
  connCount : Conn → ℕ
  /-- `_connections` and `_call_count` of each object -/
  connections : ℕ → List Conn
  callCount : ℕ → ℕ
  /-- the calls that are active, the innermost first -/
  frames : List Frame

namespace Cancels

inductive Action where
  /-- `Connection()` -/
  | newHandle
  /-- `cancel_t()` -/
  | newObject
  /-- `cancel_t(parent)` -/
  | newChild (p : ℕ)
  | connect (d : ℕ)
  | destroyHandle (n : ℕ)
  | destroyObject (d : ℕ)
  /-- `Connection(std::move(n))` -/
  | moveHandle (n : ℕ)
  /-- `t = std::move(n)`, of connections -/
  | assignHandle (t n : ℕ)
  /-- `cancel_t(std::move(b))` -/
  | moveObject (b : ℕ)
  /-- `a = std::move(b)`, of objects -/
  | assignObject (a b : ℕ)
  /-- `d()` -/
  | fire (d : ℕ)
  | next
  | «return»
  deriving DecidableEq, Repr

/-- What a step reports. -/
inductive Event where
  /-- The call `firing` calls the slot of `c`, from the list of `object`. -/
  | called (firing object : ℕ) (c : Conn) (σ : Slot)
  /-- An empty function is called; `assert(0)` is reached with its exception. -/
  | badFunctionCall (c : Conn)
  deriving DecidableEq, Repr

def init : Cancels :=
  { objects := [], handles := [], nextObject := 0, nextHandle := 0, nextSlot := 0, nextFiring := 0
    slot := fun _ => none, connCount := fun _ => 0, connections := fun _ => []
    callCount := fun _ => 0, frames := [] }

/-- Do something to all lists. -/
def mapLists (g : List Conn → List Conn) (s : Cancels) : Cancels :=
  { s with
    connections := fun d => g (s.connections d)
    frames := s.frames.map fun f => { f with called := g f.called, rest := g f.rest } }

/-- The node `c` leaves the list it is in. -/
def unlink (c : Conn) (s : Cancels) : Cancels := s.mapLists (·.filter (· ≠ c))

/-- `swap_nodes`: each node gets the place of the other. -/
def swapNodes (c c' : Conn) (s : Cancels) : Cancels := s.mapLists (·.map (Equiv.swap c c'))

/-- `connect(σ)`, which returns the connection `c`. -/
def connectTo (d : ℕ) (c : Conn) (σ : Slot) (s : Cancels) : Cancels :=
  { s with
    slot := Function.update s.slot c (some σ)
    connections := Function.update s.connections d (s.connections d ++ [c]) }

/-- Both `Connection(std::move(other))` and `c = std::move(other)`. -/
def assign (c other : Conn) (s : Cancels) : Cancels :=
  swapNodes other c
    { s with
      slot := Function.update (Function.update s.slot c (s.slot other)) other none
      connCount := Function.update (Function.update s.connCount c (s.connCount other)) other 0 }

/-- How both moves of objects end. -/
def adopt (a b : ℕ) (s : Cancels) : Cancels :=
  if s.slot (.parent b) ≠ none then
    let s := s.assign (.parent a) (.parent b)
    { s with slot := Function.update s.slot (.parent a) (some (.toSelf a)) }
  else s

def newHandle (s : Cancels) : Cancels :=
  { s with handles := s.handles ++ [s.nextHandle], nextHandle := s.nextHandle + 1 }

def newObject (s : Cancels) : Cancels :=
  { s with objects := s.objects ++ [s.nextObject], nextObject := s.nextObject + 1 }

def newChild (p : ℕ) (s : Cancels) : Cancels :=
  connectTo p (.parent s.nextObject) (.toSelf s.nextObject) s.newObject

def connect (d : ℕ) (s : Cancels) : Cancels :=
  connectTo d (.handle s.nextHandle) (.user s.nextSlot)
    { s.newHandle with nextSlot := s.nextSlot + 1 }

def destroyHandle (n : ℕ) (s : Cancels) : Cancels :=
  { s.unlink (.handle n) with handles := s.handles.erase n }

/-- The members are destroyed in turn, the last one first. -/
def destroyObject (d : ℕ) (s : Cancels) : Cancels :=
  let s := s.unlink (.parent d)
  { s with connections := Function.update s.connections d [], objects := s.objects.erase d }

def moveHandle (n : ℕ) (s : Cancels) : Cancels :=
  assign (.handle s.nextHandle) (.handle n) s.newHandle

def moveObject (b : ℕ) (s : Cancels) : Cancels :=
  adopt s.nextObject b
    { s.newObject with
      connections :=
        Function.update (Function.update s.connections s.nextObject (s.connections b)) b []
      callCount :=
        Function.update (Function.update s.callCount s.nextObject (s.callCount b)) b 0 }

def assignObject (a b : ℕ) (s : Cancels) : Cancels :=
  adopt a b
    { s with
      connections :=
        Function.update (Function.update s.connections a (s.connections b)) b (s.connections a)
      callCount := Function.update (Function.update s.callCount a (s.callCount b)) b 0 }

/-- `operator()` up to its loop. -/
def enter (firing d : ℕ) (s : Cancels) : Cancels :=
  { s with
    callCount := Function.update s.callCount d (s.callCount d + 1)
    connections := Function.update s.connections d []
    frames := ⟨firing, d, [], none, s.connections d⟩ :: s.frames }

/-- The slot of the innermost call returns. -/
def passed (f : Frame) : Frame :=
  { f with called := f.called ++ (f.running.map (·.1)).toList, running := none }

/-- Where a call of an object returns to: the `call_to_self()` that made it returns as
    well, a slot of the program goes on. -/
def resumed : List Frame → List Frame
  | [] => []
  | f :: fs =>
    match f.running with
    | some (_, .toSelf _) => passed f :: fs
    | _ => f :: fs

/-- One round of the loop of the innermost call, or its end. -/
def next (f : Frame) (fs : List Frame) (s : Cancels) : Cancels × List Event :=
  match f.rest with
  | [] => ({ s with frames := resumed fs }, [])
  | c :: rest =>
    let s := { s with connCount := Function.update s.connCount c (s.connCount c + 1) }
    match s.slot c with
    | none =>
      ({ s with frames := { f with called := f.called ++ [c], rest := rest } :: fs },
        [.badFunctionCall c])
    | some (.user x) =>
      ({ s with frames := { f with running := some (c, .user x), rest := rest } :: fs },
        [.called f.firing f.object c (.user x)])
    | some (.toSelf d) =>
      (enter f.firing d
          { s with frames := { f with running := some (c, .toSelf d), rest := rest } :: fs },
        [.called f.firing f.object c (.toSelf d)])

/-- The program runs: no object is called, or a slot of the program is. -/
def inProgram (s : Cancels) : Bool :=
  match s.frames with
  | [] => true
  | f :: _ =>
    match f.running with
    | some (_, .user _) => true
    | _ => false

/-- The slot of this connection runs. -/
def Active (s : Cancels) (c : Conn) : Prop := ∃ f ∈ s.frames, f.running.map (·.1) = some c

instance (s : Cancels) (c : Conn) : Decidable (s.Active c) :=
  inferInstanceAs (Decidable (∃ f ∈ s.frames, _))

def step (s : Cancels) : Action → Option (Cancels × List Event)
  | .newHandle => if s.frames = [] then some (s.newHandle, []) else none
  | .newObject => if s.frames = [] then some (s.newObject, []) else none
  | .newChild p => if s.frames = [] ∧ p ∈ s.objects then some (s.newChild p, []) else none
  | .connect d => if s.inProgram ∧ d ∈ s.objects then some (s.connect d, []) else none
  | .destroyHandle n =>
    if s.inProgram ∧ n ∈ s.handles ∧ ¬ s.Active (.handle n) then some (s.destroyHandle n, [])
    else none
  | .destroyObject d =>
    if s.inProgram ∧ d ∈ s.objects ∧ ¬ s.Active (.parent d) ∧ ∀ f ∈ s.frames, f.object ≠ d then
      some (s.destroyObject d, [])
    else none
  | .moveHandle n => if s.frames = [] ∧ n ∈ s.handles then some (s.moveHandle n, []) else none
  | .assignHandle t n =>
    if s.frames = [] ∧ t ∈ s.handles ∧ n ∈ s.handles then
      some (s.assign (.handle t) (.handle n), [])
    else none
  | .moveObject b => if s.frames = [] ∧ b ∈ s.objects then some (s.moveObject b, []) else none
  | .assignObject a b =>
    if s.frames = [] ∧ a ∈ s.objects ∧ b ∈ s.objects then some (s.assignObject a b, []) else none
  | .fire d =>
    if s.inProgram ∧ d ∈ s.objects then
      some (enter s.nextFiring d { s with nextFiring := s.nextFiring + 1 }, [])
    else none
  | .next =>
    match s.frames with
    | [] => none
    | f :: fs => if f.running = none then some (s.next f fs) else none
  | .return =>
    match s.frames with
    | [] => none
    | f :: fs => if s.inProgram then some ({ s with frames := passed f :: fs }, []) else none

/-- The objects, used in any order. -/
def machine : Machine Cancels Action Event := ⟨init, step⟩

/-! ## What a step does -/

/-- The step `a` from `s`, by what it comes to. -/
inductive Took (s : Cancels) : Action → Cancels → List Event → Prop
  | newHandle (hf : s.frames = []) : Took s .newHandle s.newHandle []
  | newObject (hf : s.frames = []) : Took s .newObject s.newObject []
  | newChild {p} (hf : s.frames = []) (hp : p ∈ s.objects) : Took s (.newChild p) (s.newChild p) []
  | connect {d} (hd : d ∈ s.objects) : Took s (.connect d) (s.connect d) []
  | destroyHandle {n} (hn : n ∈ s.handles) (ha : ¬ s.Active (.handle n)) :
    Took s (.destroyHandle n) (s.destroyHandle n) []
  | destroyObject {d} (hd : d ∈ s.objects) (ha : ¬ s.Active (.parent d))
      (ho : ∀ f ∈ s.frames, f.object ≠ d) : Took s (.destroyObject d) (s.destroyObject d) []
  | moveHandle {n} (hf : s.frames = []) (hn : n ∈ s.handles) :
    Took s (.moveHandle n) (s.moveHandle n) []
  | assignHandle {t n} (hf : s.frames = []) (ht : t ∈ s.handles) (hn : n ∈ s.handles) :
    Took s (.assignHandle t n) (s.assign (.handle t) (.handle n)) []
  | moveObject {b} (hf : s.frames = []) (hb : b ∈ s.objects) :
    Took s (.moveObject b) (s.moveObject b) []
  | assignObject {a b} (hf : s.frames = []) (ha : a ∈ s.objects) (hb : b ∈ s.objects) :
    Took s (.assignObject a b) (s.assignObject a b) []
  | fire {d} (hd : d ∈ s.objects) :
    Took s (.fire d) (enter s.nextFiring d { s with nextFiring := s.nextFiring + 1 }) []
  | ended {f fs} (hf : s.frames = f :: fs) (hr : f.running = none) (hl : f.rest = []) :
    Took s .next { s with frames := resumed fs } []
  | callsNothing {f fs c rest} (hf : s.frames = f :: fs) (hr : f.running = none)
      (hl : f.rest = c :: rest) (hs : s.slot c = none) :
    Took s .next
      { s with
        connCount := Function.update s.connCount c (s.connCount c + 1)
        frames := { f with called := f.called ++ [c], rest := rest } :: fs } [.badFunctionCall c]
  | callsUser {f fs c rest x} (hf : s.frames = f :: fs) (hr : f.running = none)
      (hl : f.rest = c :: rest) (hs : s.slot c = some (.user x)) :
    Took s .next
      { s with
        connCount := Function.update s.connCount c (s.connCount c + 1)
        frames := { f with running := some (c, .user x), rest := rest } :: fs }
      [.called f.firing f.object c (.user x)]
  | callsSelf {f fs c rest d} (hf : s.frames = f :: fs) (hr : f.running = none)
      (hl : f.rest = c :: rest) (hs : s.slot c = some (.toSelf d)) :
    Took s .next
      (enter f.firing d
        { s with
          connCount := Function.update s.connCount c (s.connCount c + 1)
          frames := { f with running := some (c, .toSelf d), rest := rest } :: fs })
      [.called f.firing f.object c (.toSelf d)]
  | «return» {f fs c x} (hf : s.frames = f :: fs) (hr : f.running = some (c, .user x)) :
    Took s .return { s with frames := passed f :: fs } []

variable {s s' : Cancels} {a : Action} {es : List Event}

theorem running_of_inProgram {f : Frame} {fs : List Frame} (h : s.inProgram = true)
    (hf : s.frames = f :: fs) : ∃ c x, f.running = some (c, .user x) := by
  simp only [inProgram, hf] at h
  split at h
  · exact ⟨_, _, ‹_›⟩
  · cases h

theorem took_of_next {f : Frame} {fs : List Frame} (hf : s.frames = f :: fs)
    (hr : f.running = none) (h : s.next f fs = (s', es)) : Took s .next s' es := by
  rcases hl : f.rest with _ | ⟨c, rest⟩
  · simp only [next, hl] at h
    cases h
    exact .ended hf hr hl
  · rcases hs : s.slot c with _ | (x | d)
    · simp only [next, hl, hs] at h
      cases h
      exact .callsNothing hf hr hl hs
    · simp only [next, hl, hs] at h
      cases h
      exact .callsUser hf hr hl hs
    · simp only [next, hl, hs] at h
      cases h
      exact .callsSelf hf hr hl hs

/-- **Every step is one of those `Took` lists.** -/
theorem took_of_step (h : step s a = some (s', es)) : Took s a s' es := by
  cases a with
  | newHandle =>
    simp only [step, Option.ite_none_right_eq_some, Option.some.injEq, Prod.mk.injEq] at h
    obtain ⟨hf, rfl, rfl⟩ := h
    exact .newHandle hf
  | newObject =>
    simp only [step, Option.ite_none_right_eq_some, Option.some.injEq, Prod.mk.injEq] at h
    obtain ⟨hf, rfl, rfl⟩ := h
    exact .newObject hf
  | newChild p =>
    simp only [step, Option.ite_none_right_eq_some, Option.some.injEq, Prod.mk.injEq] at h
    obtain ⟨⟨hf, hp⟩, rfl, rfl⟩ := h
    exact .newChild hf hp
  | connect d =>
    simp only [step, Option.ite_none_right_eq_some, Option.some.injEq, Prod.mk.injEq] at h
    obtain ⟨⟨-, hd⟩, rfl, rfl⟩ := h
    exact .connect hd
  | destroyHandle n =>
    simp only [step, Option.ite_none_right_eq_some, Option.some.injEq, Prod.mk.injEq] at h
    obtain ⟨⟨-, hn, ha⟩, rfl, rfl⟩ := h
    exact .destroyHandle hn ha
  | destroyObject d =>
    simp only [step, Option.ite_none_right_eq_some, Option.some.injEq, Prod.mk.injEq] at h
    obtain ⟨⟨-, hd, ha, ho⟩, rfl, rfl⟩ := h
    exact .destroyObject hd ha ho
  | moveHandle n =>
    simp only [step, Option.ite_none_right_eq_some, Option.some.injEq, Prod.mk.injEq] at h
    obtain ⟨⟨hf, hn⟩, rfl, rfl⟩ := h
    exact .moveHandle hf hn
  | assignHandle t n =>
    simp only [step, Option.ite_none_right_eq_some, Option.some.injEq, Prod.mk.injEq] at h
    obtain ⟨⟨hf, ht, hn⟩, rfl, rfl⟩ := h
    exact .assignHandle hf ht hn
  | moveObject b =>
    simp only [step, Option.ite_none_right_eq_some, Option.some.injEq, Prod.mk.injEq] at h
    obtain ⟨⟨hf, hb⟩, rfl, rfl⟩ := h
    exact .moveObject hf hb
  | assignObject a b =>
    simp only [step, Option.ite_none_right_eq_some, Option.some.injEq, Prod.mk.injEq] at h
    obtain ⟨⟨hf, ha, hb⟩, rfl, rfl⟩ := h
    exact .assignObject hf ha hb
  | fire d =>
    simp only [step, Option.ite_none_right_eq_some, Option.some.injEq, Prod.mk.injEq] at h
    obtain ⟨⟨-, hd⟩, rfl, rfl⟩ := h
    exact .fire hd
  | next =>
    simp only [step] at h
    rcases hf : s.frames with _ | ⟨f, fs⟩
    · rw [hf] at h
      cases h
    · simp only [hf, Option.ite_none_right_eq_some, Option.some.injEq] at h
      obtain ⟨hr, h⟩ := h
      exact took_of_next hf hr h
  | «return» =>
    simp only [step] at h
    rcases hf : s.frames with _ | ⟨f, fs⟩
    · rw [hf] at h
      cases h
    · simp only [hf, Option.ite_none_right_eq_some, Option.some.injEq, Prod.mk.injEq] at h
      obtain ⟨hp, rfl, rfl⟩ := h
      obtain ⟨c, x, hr⟩ := running_of_inProgram hp hf
      exact .return hf hr

/-! ## Linked connections -/

/-- The connection is in a list. -/
def Linked (s : Cancels) (c : Conn) : Prop :=
  (∃ d, c ∈ s.connections d) ∨ ∃ f ∈ s.frames, c ∈ f.conns

variable {c c' x : Conn} {d e : ℕ} {σ : Slot}

theorem linked_of_mem (h : c ∈ s.connections d) : s.Linked c := .inl ⟨d, h⟩

theorem linked_of_idle (hf : s.frames = []) : s.Linked c ↔ ∃ d, c ∈ s.connections d := by
  simp [Linked, hf]

@[simp] theorem connectTo_connections : (s.connectTo d c σ).connections =
    Function.update s.connections d (s.connections d ++ [c]) := rfl

@[simp] theorem connectTo_slot : (s.connectTo d c σ).slot = Function.update s.slot c (some σ) := rfl

@[simp] theorem connectTo_frames : (s.connectTo d c σ).frames = s.frames := rfl

theorem mem_connectTo :
    x ∈ (s.connectTo d c σ).connections e ↔ x ∈ s.connections e ∨ e = d ∧ x = c := by
  by_cases h : e = d
  · subst h
    simp [connectTo]
  · simp [connectTo, h]

theorem linked_connectTo : (s.connectTo d c σ).Linked x ↔ s.Linked x ∨ x = c := by
  simp only [Linked, mem_connectTo, connectTo_frames]
  constructor
  · rintro (⟨e, h | ⟨-, h⟩⟩ | h)
    · exact .inl (.inl ⟨e, h⟩)
    · exact .inr h
    · exact .inl (.inr h)
  · rintro ((⟨e, h⟩ | h) | h)
    · exact .inl ⟨e, .inl h⟩
    · exact .inr h
    · exact .inl ⟨d, .inr ⟨rfl, h⟩⟩

theorem mem_swapNodes :
    x ∈ (s.swapNodes c c').connections d ↔ Equiv.swap c c' x ∈ s.connections d := by
  simp only [swapNodes, mapLists, List.mem_map]
  constructor
  · rintro ⟨y, hy, rfl⟩
    rwa [Equiv.swap_apply_self]
  · intro h
    exact ⟨_, h, Equiv.swap_apply_self c c' x⟩

theorem mem_unlink : x ∈ (s.unlink c).connections d ↔ x ∈ s.connections d ∧ x ≠ c := by
  simp [unlink, mapLists]

/-- What is left of the list of a call. -/
theorem mem_conns_filter {f : Frame} (hf : f.running.map (·.1) ≠ some c) :
    x ∈ Frame.conns { f with called := f.called.filter (· ≠ c), rest := f.rest.filter (· ≠ c) } ↔
      x ∈ f.conns ∧ x ≠ c := by
  have hr : x ∈ (f.running.map (·.1)).toList → x ≠ c := by
    rintro hx rfl
    exact hf (Option.mem_toList.1 hx)
  simp only [Frame.conns, List.mem_append, List.mem_filter, decide_eq_true_eq]
  tauto

theorem linked_unlink (ha : ¬ s.Active c) : (s.unlink c).Linked x ↔ s.Linked x ∧ x ≠ c := by
  have hf : ∀ f ∈ s.frames, f.running.map (·.1) ≠ some c := fun f hf h => ha ⟨f, hf, h⟩
  simp only [Linked, mem_unlink, or_and_right, exists_and_right]
  refine or_congr_right ?_
  simp only [unlink, mapLists, List.mem_map]
  constructor
  · rintro ⟨_, ⟨f, hm, rfl⟩, hx⟩
    obtain ⟨hx, hne⟩ := (mem_conns_filter (hf f hm)).1 hx
    exact ⟨⟨f, hm, hx⟩, hne⟩
  · rintro ⟨⟨f, hm, hx⟩, hne⟩
    exact ⟨_, ⟨f, hm, rfl⟩, (mem_conns_filter (hf f hm)).2 ⟨hx, hne⟩⟩

theorem mem_destroyObject : x ∈ (s.destroyObject d).connections e ↔
    x ∈ s.connections e ∧ x ≠ .parent d ∧ e ≠ d := by
  by_cases h : e = d
  · subst h
    simp [destroyObject]
  · simp only [destroyObject, Function.update_of_ne h, mem_unlink, h, ne_eq, not_false_eq_true,
      and_true]

theorem linked_destroyObject (ha : ¬ s.Active (.parent d)) (h : (s.destroyObject d).Linked x) :
    s.Linked x := by
  refine ((linked_unlink ha).1 ?_).1
  refine h.imp_left ?_
  rintro ⟨e, he⟩
  obtain ⟨he, hx, -⟩ := mem_destroyObject.1 he
  exact ⟨e, mem_unlink.2 ⟨he, hx⟩⟩

@[simp] theorem enter_connections {n : ℕ} :
    (s.enter n d).connections = Function.update s.connections d [] := rfl

theorem mem_enter {n : ℕ} :
    x ∈ (s.enter n d).connections e ↔ x ∈ s.connections e ∧ e ≠ d := by
  by_cases h : e = d
  · subst h
    simp [enter]
  · simp [enter, h]

theorem linked_enter {n : ℕ} : (s.enter n d).Linked x ↔ s.Linked x := by
  simp only [Linked, mem_enter]
  simp only [enter, List.exists_mem_cons_iff]
  by_cases h : x ∈ s.connections d
  · refine iff_of_true (.inr (.inl ?_)) (.inl ⟨d, h⟩)
    simpa [Frame.conns] using h
  · constructor
    · rintro (⟨e, he, -⟩ | hf | hf)
      · exact .inl ⟨e, he⟩
      · exact absurd (by simpa [Frame.conns] using hf) h
      · exact .inr hf
    · rintro (⟨e, he⟩ | hf)
      · exact .inl ⟨e, he, fun hed => h (hed ▸ he)⟩
      · exact .inr (.inr hf)

/-- A slot that returns leaves its connection in the list. -/
theorem conns_passed (f : Frame) : (passed f).conns = f.conns := by
  simp [passed, Frame.conns]

theorem mem_resumed {fs : List Frame} (h : ∃ f ∈ resumed fs, c ∈ f.conns) :
    ∃ f ∈ fs, c ∈ f.conns := by
  cases fs with
  | nil => exact h
  | cons f fs =>
    rw [List.exists_mem_cons_iff]
    simp only [resumed] at h
    split at h
    · rw [List.exists_mem_cons_iff, conns_passed] at h
      exact h
    · rwa [List.exists_mem_cons_iff] at h

/-- To take the next connection from the list changes nothing in it. -/
theorem conns_take {f : Frame} {rest : List Conn} (hr : f.running = none)
    (hl : f.rest = c :: rest) :
    Frame.conns { f with running := some (c, σ), rest := rest } = f.conns := by
  simp [Frame.conns, hr, hl]

end Cancels

end Upnp
