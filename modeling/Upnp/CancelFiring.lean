/-
  What a call of a `cancel_t` object calls, from its start to its return.

  A `Path` leads from an object down to a connection on its list, or on that of an object
  below it.  What calls of the program inside the firing have to do with the lists is
  summed up in two of them: what these calls have left (`left`), and what the calls
  around the firing hold (`base`).

  * `left_step`, `connections_step`: what a step makes of the connections to be called;
  * `leads_step`: a path that is open stays open from some connection on, until its last
    connection is called or one of them is destroyed;
  * `Inside` is what holds during a firing (`Inside.step`);
  * `fired_of_run`: no slot is called twice, and a firing calls every slot below it that
    is not cut off, on its own account no other, and unlinks what it calls.
-/
import Upnp.CancelTree

namespace Upnp

open Lib

namespace Cancels

variable {s s' s₀ : Cancels} {d e n : ℕ} {c x : Conn} {p q : List Conn} {act : Action}
  {as : List Action} {es es' : List Event}

/-! ## Firings -/

/-- From a connection of `l` down to `c`, by the parent connections in the lists. -/
inductive Leads (s : Cancels) : List Conn → List Conn → Conn → Prop
  | here {l : List Conn} {c : Conn} (h : c ∈ l) : Leads s l [] c
  | down {l : List Conn} {e : ℕ} {p : List Conn} {c : Conn} (h : .parent e ∈ l)
      (hp : Leads s (s.connections e) p c) : Leads s l (.parent e :: p) c

/-- From `d` down to `c`: the connection is linked to the object at the end of the path. -/
def Path (s : Cancels) (d : ℕ) (p : List Conn) (c : Conn) : Prop := Leads s (s.connections d) p c

/-- The object `e` is below `d`. -/
def Under (s : Cancels) (d e : ℕ) : Prop := ∃ p, Path s d p (.parent e)

/-- The action destroys the connection, with its object if it is that of an object. -/
def Action.Destroys : Action → Conn → Prop
  | .destroyHandle n, c => c = .handle n
  | .destroyObject d, c => c = .parent d
  | _, _ => False

/-- The slot of the connection is called. -/
def Called (es : List Event) (c : Conn) : Prop := ∃ n o σ, .called n o c σ ∈ es

/-- The call `d()` of the program, up to its return, with all that happens meanwhile. -/
structure Firing (s₀ : Cancels) (d : ℕ) (as : List Action) (es : List Event) (s : Cancels) :
    Prop where
  run : machine.RunFrom s₀ (.fire d :: as) es s
  inside : ∀ r, machine.step s₀ (.fire d) = some r →
    machine.Meets (fun s _ => s₀.frames.length < s.frames.length) r.1 as
  returned : s.frames.length = s₀.frames.length

/-- What the firing of `d` may call from the list of `o`: what was in the list of `d`, and
    what was in the lists of the objects below or has been connected to them since. -/
def Owns (s₀ : Cancels) (d o : ℕ) (c : Conn) : Prop :=
  o = d ∧ c ∈ s₀.connections d ∨ o ≠ d ∧ s₀.Under d o ∧ (c ∈ s₀.connections o ∨ ¬ s₀.Old c)

/-- What a firing is to do. -/
structure Fired (s₀ : Cancels) (d : ℕ) (as : List Action) (es : List Event) (s : Cancels) :
    Prop where
  /-- A slot at the end of a path is called once, unless a connection on the path, its own
      included, is destroyed and not called before. -/
  once : ∀ p c x, Path s₀ d p c → s₀.slot c = some (.user x) →
    calls x es = 1 ∨ ∃ c' ∈ p ++ [c], (∃ a ∈ as, a.Destroys c') ∧ ¬ Called es c'
  /-- On its own account the firing calls no other slots than its own. -/
  own : ∀ o c σ, .called s₀.nextFiring o c σ ∈ es → s₀.Owns d o c
  /-- What is called is unlinked. -/
  unlinked : ∀ c, Called es c → ¬ s.Linked c

/-! ## The lists of the calls -/

/-- The frames inside the outer `n`. -/
def inner (n : ℕ) (s : Cancels) : List Frame := s.frames.take (s.frames.length - n)

/-- What the calls inside the outer `n` have left. -/
def left (n : ℕ) (s : Cancels) : List Conn := (inner n s).flatMap Frame.rest

/-- What the outer `n` calls hold. -/
def base (n : ℕ) (s : Cancels) : List Conn := framed (s.frames.drop (s.frames.length - n))

theorem mem_left : c ∈ left n s ↔ ∃ f ∈ inner n s, c ∈ f.rest := List.mem_flatMap

theorem inner_cons {f : Frame} {fs : List Frame} (hf : s.frames = f :: fs)
    (hn : n < s.frames.length) : inner n s = f :: fs.take (fs.length - n) := by
  rw [inner, hf, List.length_cons] at *
  rw [Nat.succ_sub (Nat.le_of_lt_succ hn), List.take_succ_cons]

theorem left_cons {f : Frame} {fs : List Frame} (hf : s.frames = f :: fs)
    (hn : n < s.frames.length) :
    left n s = f.rest ++ (fs.take (fs.length - n)).flatMap Frame.rest := by
  rw [left, inner_cons hf hn, List.flatMap_cons]

theorem base_cons {f : Frame} {fs : List Frame} (hf : s.frames = f :: fs)
    (hn : n < s.frames.length) : base n s = framed (fs.drop (fs.length - n)) := by
  rw [base, hf, List.length_cons] at *
  rw [Nat.succ_sub (Nat.le_of_lt_succ hn), List.drop_succ_cons]

theorem left_of_length (h : s.frames.length = n) : left n s = [] := by
  rw [left, inner, h, Nat.sub_self, List.take_zero, List.flatMap_nil]

theorem base_of_length (h : s.frames.length = n) : base n s = framed s.frames := by
  rw [base, h, Nat.sub_self, List.drop_zero]

theorem length_resumed (fs : List Frame) : (resumed fs).length = fs.length := by
  cases fs with
  | nil => rfl
  | cons f fs =>
    simp only [resumed]
    split <;> rfl

/-- To resume a call does not change what is left. -/
theorem rest_take_resumed (fs : List Frame) (m : ℕ) :
    ((resumed fs).take m).flatMap Frame.rest = (fs.take m).flatMap Frame.rest := by
  cases fs with
  | nil => rfl
  | cons f fs =>
    cases m with
    | zero => rfl
    | succ m =>
      simp only [resumed]
      split
      · simp only [List.take_succ_cons, List.flatMap_cons, passed]
      · rfl

theorem framed_drop_resumed (fs : List Frame) (m : ℕ) :
    framed ((resumed fs).drop m) = framed (fs.drop m) := by
  cases m with
  | zero => exact framed_resumed fs
  | succ m =>
    cases fs with
    | nil => rfl
    | cons f fs =>
      simp only [resumed]
      split <;> rfl

/-! ## One step -/

/-- What the steps leave alone while an object is called. -/
structure Stays (s : Cancels) (act : Action) (s' : Cancels) : Prop where
  moved : act.movedConn = none
  assigns : ¬ act.Assigns
  objects : s'.nextObject = s.nextObject
  handles : s.nextHandle ≤ s'.nextHandle
  firings : s.nextFiring ≤ s'.nextFiring

/-- While an object is called, nothing is moved or constructed. -/
theorem stays_step (h : Took s act s' es) (hn : s.frames ≠ []) : Stays s act s' := by
  cases h with
  | newHandle hf | newObject hf | newChild hf _ | moveHandle hf _ | assignHandle hf _ _
  | moveObject hf _ | assignObject hf _ _ => exact absurd hf hn
  | connect _ => exact ⟨rfl, id, rfl, Nat.le_succ _, Nat.le_refl _⟩
  | fire _ => exact ⟨rfl, id, rfl, Nat.le_refl _, Nat.le_succ _⟩
  | destroyHandle _ _ | destroyObject _ _ _ | ended _ _ _ | callsNothing _ _ _ _
  | callsUser _ _ _ _ | callsSelf _ _ _ _ | «return» _ _ =>
    exact ⟨rfl, id, rfl, Nat.le_refl _, Nat.le_refl _⟩

theorem left_enter {m : ℕ} (hn : n ≤ s.frames.length) :
    left n (s.enter m d) = s.connections d ++ left n s :=
  left_cons (s := s.enter m d) rfl (Nat.lt_succ_of_le hn)

theorem base_enter {m : ℕ} (hn : n ≤ s.frames.length) : base n (s.enter m d) = base n s :=
  base_cons (s := s.enter m d) rfl (Nat.lt_succ_of_le hn)

theorem mem_left_unlink : c ∈ left n (s.unlink x) ↔ c ∈ left n s ∧ c ≠ x := by
  simp only [left, inner, unlink, mapLists, List.length_map, ← List.map_take, List.flatMap_map,
    List.mem_flatMap, List.mem_filter, decide_eq_true_eq]
  constructor
  · rintro ⟨f, hf, hc, hne⟩
    exact ⟨⟨f, hf, hc⟩, hne⟩
  · rintro ⟨⟨f, hf, hc⟩, hne⟩
    exact ⟨f, hf, hc, hne⟩

/-- **What a call has left stays, until it is called or destroyed.** -/
theorem left_step (hi : Inv s) (h : Took s act s' es) (hn : n < s.frames.length)
    (hc : c ∈ left n s) : c ∈ left n s' ∨ act.Destroys c ∨ Called es c := by
  cases h with
  | newHandle hf | newObject hf | newChild hf _ | moveHandle hf _ | assignHandle hf _ _
  | moveObject hf _ | assignObject hf _ _ =>
    rw [hf] at hn
    exact absurd hn (Nat.not_lt_zero n)
  | connect _ => exact .inl hc
  | @destroyHandle m _ _ =>
    by_cases hcm : c = .handle m
    · exact .inr (.inl hcm)
    · exact .inl (mem_left_unlink.2 ⟨hc, hcm⟩)
  | @destroyObject d _ _ _ =>
    by_cases hcd : c = .parent d
    · exact .inr (.inl hcd)
    · exact .inl (mem_left_unlink.2 ⟨hc, hcd⟩)
  | fire _ =>
    refine .inl ?_
    rw [left_enter (s := { s with nextFiring := s.nextFiring + 1 }) (Nat.le_of_lt hn)]
    exact List.mem_append_right _ hc
  | @ended f fs hf _ hl =>
    refine .inl ?_
    rw [left_cons hf hn, hl, List.nil_append] at hc
    rwa [left, inner, length_resumed, rest_take_resumed]
  | callsNothing hf _ hl hs => exact absurd hs (hi.slot_ne_none (linked_of_rest hf hl))
  | @callsUser f fs c' rest y hf _ hl _ =>
    rw [left_cons hf hn, hl, List.cons_append, List.mem_cons] at hc
    rcases hc with rfl | hc
    · exact .inr (.inr ⟨_, _, _, List.mem_singleton_self _⟩)
    · refine .inl ?_
      rw [hf] at hn
      rwa [left_cons rfl hn]
  | @callsSelf f fs c' rest d hf _ hl _ =>
    rw [left_cons hf hn, hl, List.cons_append, List.mem_cons] at hc
    rcases hc with rfl | hc
    · exact .inr (.inr ⟨_, _, _, List.mem_singleton_self _⟩)
    · refine .inl ?_
      rw [hf] at hn
      rw [left_enter (Nat.le_of_lt hn), left_cons rfl hn]
      exact List.mem_append_right _ hc
  | @«return» f fs c' y hf _ =>
    refine .inl ?_
    rw [left_cons hf hn] at hc
    rw [hf] at hn
    rwa [left_cons rfl hn]

theorem mem_base_unlink (h : c ∈ base n (s.unlink x)) : c ∈ base n s := by
  simp only [base, unlink, mapLists, List.length_map, ← List.map_drop] at h
  exact (framed_unlink_sublist x _).subset h

/-- What the calls around the firing hold does not grow. -/
theorem base_step (h : Took s act s' es) (hn : n < s.frames.length) (hc : c ∈ base n s') :
    c ∈ base n s := by
  cases h with
  | newHandle hf | newObject hf | newChild hf _ | moveHandle hf _ | assignHandle hf _ _
  | moveObject hf _ | assignObject hf _ _ =>
    rw [hf] at hn
    exact absurd hn (Nat.not_lt_zero n)
  | connect _ => exact hc
  | destroyHandle _ _ | destroyObject _ _ _ => exact mem_base_unlink hc
  | fire _ =>
    rwa [base_enter (s := { s with nextFiring := s.nextFiring + 1 }) (Nat.le_of_lt hn)] at hc
  | ended hf _ _ =>
    rw [base_cons hf hn]
    rwa [base, length_resumed, framed_drop_resumed] at hc
  | callsNothing hf _ _ _ | callsUser hf _ _ _ | «return» hf _ =>
    rw [base_cons hf hn]
    rw [hf] at hn
    rwa [base_cons rfl hn] at hc
  | callsSelf hf _ _ _ =>
    rw [base_cons hf hn]
    rw [hf] at hn
    rwa [base_enter (Nat.le_of_lt hn), base_cons rfl hn] at hc

/-- An object that is called gives its list to the call. -/
theorem mem_enter_or_left {m : ℕ} (hn : n ≤ s.frames.length) (hc : c ∈ s.connections e) :
    c ∈ (s.enter m d).connections e ∨ c ∈ left n (s.enter m d) := by
  by_cases h : e = d
  · subst h
    refine .inr ?_
    rw [left_enter hn]
    exact List.mem_append_left _ hc
  · exact .inl (mem_enter.2 ⟨hc, h⟩)

/-- **What is in the list of an object stays, until the object is called or destroyed, or
    the connection is.** -/
theorem connections_step (h : Took s act s' es) (hm : act.movedConn = none)
    (hn : n ≤ s.frames.length) (hc : c ∈ s.connections e) :
    c ∈ s'.connections e ∨ c ∈ left n s' ∨ act.Destroys c ∨ act.Destroys (.parent e) := by
  cases h with
  | newHandle _ | newObject _ | ended _ _ _ | callsNothing _ _ _ _ | callsUser _ _ _ _
  | «return» _ _ => exact .inl hc
  | newChild _ _ | connect _ => exact .inl (mem_connectTo.2 (.inl hc))
  | @destroyHandle m _ _ =>
    by_cases hcm : c = .handle m
    · exact .inr (.inr (.inl hcm))
    · exact .inl (mem_unlink.2 ⟨hc, hcm⟩)
  | @destroyObject d _ _ _ =>
    by_cases hcd : c = .parent d
    · exact .inr (.inr (.inl hcd))
    · by_cases hed : e = d
      · exact .inr (.inr (.inr (congrArg Conn.parent hed)))
      · exact .inl (mem_destroyObject.2 ⟨hc, hcd, hed⟩)
  | moveHandle _ _ | assignHandle _ _ _ | moveObject _ _ | assignObject _ _ _ => cases hm
  | fire _ =>
    exact (mem_enter_or_left (s := { s with nextFiring := s.nextFiring + 1 }) hn hc).imp_right .inl
  | callsSelf hf _ _ _ =>
    rw [hf] at hn
    refine Or.imp_right Or.inl (mem_enter_or_left ?_ ?_)
    · exact hn
    · exact hc

/-- Only what is new enters a list of an object. -/
theorem new_step (h : Took s act s' es) (hm : act.movedConn = none) (hc : c ∈ s'.connections e) :
    c ∈ s.connections e ∨ ¬ s.Old c := by
  cases h with
  | newHandle _ | newObject _ | ended _ _ _ | callsNothing _ _ _ _ | callsUser _ _ _ _
  | «return» _ _ => exact .inl hc
  | newChild _ _ | connect _ =>
    rcases mem_connectTo.1 hc with hc | ⟨-, rfl⟩
    · exact .inl hc
    · exact .inr (Nat.lt_irrefl _)
  | destroyHandle _ _ => exact .inl (mem_unlink.1 hc).1
  | destroyObject _ _ _ => exact .inl (mem_destroyObject.1 hc).1
  | moveHandle _ _ | assignHandle _ _ _ | moveObject _ _ | assignObject _ _ _ => cases hm
  | fire _ | callsSelf _ _ _ _ => exact .inl (mem_enter.1 hc).1

theorem notMem_rest_unlink {f : Frame} (hf : f ∈ (s.unlink c).frames) : c ∉ f.rest := by
  obtain ⟨g, -, rfl⟩ := List.mem_map.1 hf
  intro hc
  exact of_decide_eq_true (List.mem_filter.1 hc).2 rfl

/-- **What is destroyed is called no more.** -/
theorem destroys_step (h : Took s act s' es) (hd : act.Destroys c) : ¬ s'.Pending c ∧ es = [] := by
  cases h with
  | destroyHandle _ _ =>
    obtain rfl : c = _ := hd
    refine ⟨?_, rfl⟩
    rintro (⟨d, hc⟩ | ⟨f, hf, hc⟩)
    · exact (mem_unlink.1 hc).2 rfl
    · exact notMem_rest_unlink hf hc
  | destroyObject _ _ _ =>
    obtain rfl : c = _ := hd
    refine ⟨?_, rfl⟩
    rintro (⟨d, hc⟩ | ⟨f, hf, hc⟩)
    · exact (mem_destroyObject.1 hc).2.1 rfl
    · exact notMem_rest_unlink hf hc
  | newHandle _ | newObject _ | newChild _ _ | connect _ | moveHandle _ _ | assignHandle _ _ _
  | moveObject _ _ | assignObject _ _ _ | fire _ | ended _ _ _ | callsNothing _ _ _ _
  | callsUser _ _ _ _ | callsSelf _ _ _ _ | «return» _ _ => exact hd.elim

/-- **What is called is taken from the list of the innermost call.** -/
theorem called_step (hs : Sound s) (h : Took s act s' es) {m o : ℕ} {σ : Slot}
    (he : .called m o c σ ∈ es) :
    s.slot c = some σ ∧ ¬ s'.Pending c ∧
    ∃ f fs rest, s.frames = f :: fs ∧ f.firing = m ∧ f.object = o ∧ f.rest = c :: rest := by
  cases h with
  | newHandle _ | newObject _ | newChild _ _ | connect _ | destroyHandle _ _
  | destroyObject _ _ _ | moveHandle _ _ | assignHandle _ _ _ | moveObject _ _
  | assignObject _ _ _ | fire _ | ended _ _ _ | «return» _ _ => cases he
  | callsNothing _ _ _ _ => cases List.mem_singleton.1 he
  | @callsUser f fs c rest x hf _ hl hc =>
    cases List.mem_singleton.1 he
    exact ⟨hc, hs.single.not_pending_of_taken hf hl rfl rfl rfl, f, fs, rest, hf, rfl, rfl, hl⟩
  | @callsSelf f fs c rest d hf _ hl hc =>
    cases List.mem_singleton.1 he
    refine ⟨hc, mt pending_enter.1 ?_, f, fs, rest, hf, rfl, rfl, hl⟩
    exact hs.single.not_pending_of_taken hf hl rfl rfl rfl

/-- An object whose parent connection is called has given its list to the call. -/
theorem connections_called (hi : Inv s) (h : Took s act s' es) (he : Called es (.parent e)) :
    s'.connections e = [] := by
  obtain ⟨m, o, σ, he⟩ := he
  cases h with
  | newHandle _ | newObject _ | newChild _ _ | connect _ | destroyHandle _ _
  | destroyObject _ _ _ | moveHandle _ _ | assignHandle _ _ _ | moveObject _ _
  | assignObject _ _ _ | fire _ | ended _ _ _ | «return» _ _ => cases he
  | callsNothing _ _ _ _ => cases List.mem_singleton.1 he
  | callsUser hf _ hl hc =>
    cases List.mem_singleton.1 he
    obtain ⟨τ, hτ, hfit⟩ := hi.fits _ (linked_of_rest hf hl)
    cases hc.symm.trans hτ
    exact hfit.elim
  | callsSelf hf _ hl hc =>
    cases List.mem_singleton.1 he
    obtain ⟨τ, hτ, hfit⟩ := hi.fits _ (linked_of_rest hf hl)
    cases hc.symm.trans hτ
    obtain rfl : e = _ := hfit
    exact Function.update_self _ _ _

/-! ## Paths -/

/-- All connections of a path are still to be called. -/
theorem Leads.pending {l : List Conn} (h : Leads s l p c) (hl : ∀ c ∈ l, s.Pending c) :
    ∀ c' ∈ p ++ [c], s.Pending c' := by
  induction h with
  | here h =>
    intro c' hc'
    rw [List.mem_singleton.1 hc']
    exact hl _ h
  | down h hp ih =>
    intro c' hc'
    rcases List.mem_cons.1 hc' with rfl | hc'
    · exact hl _ h
    · exact ih (fun c hc => .inl ⟨_, hc⟩) c' hc'

/-- A path stays a path, or the connection on it that is first in reach of the calls is
    on their lists, or a connection on it is destroyed. -/
theorem path_step (h : Took s act s' es) (hm : act.movedConn = none) (hn : n ≤ s.frames.length)
    (hp : Path s e q c) :
    Path s' e q c ∨ (∃ q', q' <:+ q ∧ Leads s' (left n s') q' c) ∨
      ∃ c' ∈ .parent e :: (q ++ [c]), act.Destroys c' := by
  induction q generalizing e with
  | nil =>
    obtain ⟨hc⟩ := hp
    rcases connections_step h hm hn hc with hc | hc | hd | hd
    · exact .inl (.here hc)
    · exact .inr (.inl ⟨[], List.suffix_refl _, .here hc⟩)
    · exact .inr (.inr ⟨c, by simp, hd⟩)
    · exact .inr (.inr ⟨_, List.mem_cons_self, hd⟩)
  | cons c₁ q ih =>
    obtain ⟨-⟩ | @⟨_, e', _, _, hc, hp⟩ := hp
    rcases ih hp with hp' | ⟨q', hq', hl⟩ | ⟨c', hc', hd⟩
    · rcases connections_step h hm hn hc with hc | hc | hd | hd
      · exact .inl (.down hc hp')
      · exact .inr (.inl ⟨_, List.suffix_refl _, .down hc hp'⟩)
      · exact .inr (.inr ⟨.parent e', by simp, hd⟩)
      · exact .inr (.inr ⟨_, List.mem_cons_self, hd⟩)
    · exact .inr (.inl ⟨q', hq'.trans (List.suffix_cons _ _), hl⟩)
    · exact .inr (.inr ⟨c', List.mem_cons_of_mem _ hc', hd⟩)

/-- **A path from what is left to be called stays open from some connection on, until its
    last connection is called, or one of them is destroyed.** -/
theorem leads_step (hi : Inv s) (h : Took s act s' es) (hm : act.movedConn = none)
    (hn : n < s.frames.length) (hl : Leads s (left n s) q c) :
    (∃ q', q' <:+ q ∧ Leads s' (left n s') q' c) ∨ Called es c ∨
      ∃ c' ∈ q ++ [c], act.Destroys c' := by
  cases hl with
  | here hc =>
    rcases left_step hi h hn hc with hc | hd | hc
    · exact .inl ⟨[], List.suffix_refl _, .here hc⟩
    · exact .inr (.inr ⟨c, List.mem_singleton_self c, hd⟩)
    · exact .inr (.inl hc)
  | @down _ e q _ hc hp =>
    rcases path_step h hm (Nat.le_of_lt hn) hp with hp | ⟨q', hq', hl⟩ | hd
    · rcases left_step hi h hn hc with hc | hd | hc
      · exact .inl ⟨_, List.suffix_refl _, .down hc hp⟩
      · exact .inr (.inr ⟨_, List.mem_cons_self, hd⟩)
      · rw [Path, connections_called hi h hc] at hp
        cases hp <;> contradiction
    · exact .inl ⟨q', hq'.trans (List.suffix_cons _ _), hl⟩
    · exact .inr (.inr hd)

/-! ## The calls -/

theorem frame_of_resumed {f : Frame} {fs : List Frame} (h : f ∈ resumed fs) :
    ∃ g ∈ fs, f.firing = g.firing ∧ f.object = g.object ∧ f.rest = g.rest := by
  cases fs with
  | nil => cases h
  | cons g fs =>
    simp only [resumed] at h
    split at h
    · rcases List.mem_cons.1 h with rfl | h
      · exact ⟨g, List.mem_cons_self, rfl, rfl, rfl⟩
      · exact ⟨f, List.mem_cons_of_mem _ h, rfl, rfl, rfl⟩
    · exact ⟨f, h, rfl, rfl, rfl⟩

/-- The call `f` with all that it still has to do. -/
def Comes (s : Cancels) (act : Action) (f : Frame) : Prop :=
  (∃ g ∈ s.frames, f.firing = g.firing ∧ f.object = g.object ∧ ∀ c ∈ f.rest, c ∈ g.rest) ∨
    f.rest = s.connections f.object ∧
      (act = .fire f.object ∧ f.firing = s.nextFiring ∨
        ∃ g ∈ s.frames, f.firing = g.firing ∧ .parent f.object ∈ g.rest)

theorem comes_of_cons {f g : Frame} {fs : List Frame} (hf : s.frames = g :: fs)
    (h₁ : f.firing = g.firing) (h₂ : f.object = g.object) (h₃ : ∀ c ∈ f.rest, c ∈ g.rest) :
    ∀ f' ∈ f :: fs, s.Comes act f' := by
  intro f' hf'
  rcases List.mem_cons.1 hf' with rfl | hf'
  · exact .inl ⟨g, hf ▸ List.mem_cons_self, h₁, h₂, h₃⟩
  · exact .inl ⟨f', hf ▸ List.mem_cons_of_mem _ hf', rfl, rfl, fun _ h => h⟩

/-- **A call was there before, or is one by the program, or by a call that was there.** -/
theorem frames_step (hi : Inv s) (h : Took s act s' es) : ∀ f ∈ s'.frames, s.Comes act f := by
  have hsame : ∀ f ∈ s.frames, s.Comes act f := fun f hf => .inl ⟨f, hf, rfl, rfl, fun _ h => h⟩
  have hidle : ∀ {t : Cancels}, t.frames = [] → ∀ f ∈ t.frames, s.Comes act f := by
    intro t ht f hf
    rw [ht] at hf
    cases hf
  cases h with
  | newHandle _ | newObject _ | newChild _ _ | connect _ => exact hsame
  | destroyHandle _ _ | destroyObject _ _ _ =>
    intro f hf
    obtain ⟨g, hg, rfl⟩ := List.mem_map.1 hf
    exact .inl ⟨g, hg, rfl, rfl, fun _ h => List.mem_of_mem_filter h⟩
  | moveHandle hf _ => exact hidle (frames_assign (s := s.newHandle) hf)
  | assignHandle hf _ _ => exact hidle (frames_assign hf)
  | moveObject hf _ => exact hidle (frames_adopt (s := s.moved _) hf)
  | assignObject hf _ _ => exact hidle (frames_adopt (s := s.swapped _ _) hf)
  | fire _ =>
    intro f hf
    rcases List.mem_cons.1 hf with rfl | hf
    · exact .inr ⟨rfl, .inl ⟨rfl, rfl⟩⟩
    · exact hsame f hf
  | ended hf _ _ =>
    intro f hf'
    obtain ⟨g, hg, h₁, h₂, h₃⟩ := frame_of_resumed hf'
    exact .inl ⟨g, hf ▸ List.mem_cons_of_mem _ hg, h₁, h₂, fun c hc => h₃ ▸ hc⟩
  | callsNothing hf _ hl _ | callsUser hf _ hl _ =>
    refine comes_of_cons hf rfl rfl fun c hc => ?_
    rw [hl]
    exact List.mem_cons_of_mem _ hc
  | @callsSelf f fs c rest d hf _ hl hs =>
    have hmem : f ∈ s.frames := hf ▸ List.mem_cons_self
    obtain ⟨τ, hτ, hfit⟩ := hi.fits _ (linked_of_rest hf hl)
    cases hs.symm.trans hτ
    intro f' hf'
    rcases List.mem_cons.1 hf' with rfl | hf'
    · refine .inr ⟨rfl, .inr ⟨f, hmem, rfl, ?_⟩⟩
      cases c with
      | handle m => exact hfit.elim
      | parent e =>
        obtain rfl : e = d := hfit
        rw [hl]
        exact List.mem_cons_self
    · refine comes_of_cons hf ?_ ?_ ?_ f' hf'
      · rfl
      · rfl
      · intro c' hc'
        rw [hl]
        exact List.mem_cons_of_mem _ hc'
  | «return» hf _ => exact comes_of_cons hf rfl rfl fun _ h => h

/-- The calls are numbered in turn. -/
theorem firing_lt (h : machine.Run as es s) (hn : ∀ a ∈ as, ¬ a.Assigns) :
    ∀ f ∈ s.frames, f.firing < s.nextFiring := by
  refine h.invariant (P := fun as _ s => (∀ a ∈ as, ¬ a.Assigns) →
    ∀ f ∈ s.frames, f.firing < s.nextFiring) (fun _ => nofun) ?_ hn
  rintro as es s₁ a s₂ es' hrun ih hstep hn f hf
  have hbefore : ∀ b ∈ as, ¬ b.Assigns := fun b hb => hn b (List.mem_append_left _ hb)
  have ht := took_of_step hstep
  have hlt : ∀ g ∈ s₁.frames, g.firing < s₂.nextFiring := by
    intro g hg
    exact Nat.lt_of_lt_of_le (ih hbefore g hg) (stays_step ht (List.ne_nil_of_mem hg)).firings
  rcases frames_step (sound_of_run hrun hbefore).1.inv ht f hf with
    ⟨g, hg, hfg, -, -⟩ | ⟨-, ⟨rfl, hfirst⟩ | ⟨g, hg, hfg, -⟩⟩
  · exact hfg ▸ hlt g hg
  · cases ht
    rw [hfirst]
    exact Nat.lt_succ_self _
  · exact hfg ▸ hlt g hg

/-! ## What is below an object -/

theorem Leads.snoc {l : List Conn} (h : Leads s l p (.parent d)) (hc : c ∈ s.connections d) :
    Leads s l (p ++ [.parent d]) c := by
  induction p generalizing l with
  | nil =>
    obtain ⟨h⟩ := h
    exact .down h (.here hc)
  | cons _ p ih =>
    obtain ⟨-⟩ | ⟨h, hp⟩ := h
    exact .down h (ih hp)

theorem Path.rank_lt {rank : ℕ → ℕ} (hr : ∀ p e, .parent e ∈ s.connections p → rank p < rank e)
    (h : Path s d p (.parent e)) : rank d < rank e := by
  induction p generalizing d with
  | nil =>
    obtain ⟨h⟩ := h
    exact hr d e h
  | cons _ p ih =>
    obtain ⟨-⟩ | ⟨h, hp⟩ := h
    exact Nat.lt_trans (hr d _ h) (ih hp)

/-- The objects whose parent connections may be called are below. -/
theorem Owns.below {o : ℕ} (hf : Forest s) (h : s.Owns d o (.parent e)) (he : e < s.nextObject) :
    e ≠ d ∧ s.Under d e := by
  have hu : s.Under d e := by
    rcases h with ⟨-, h⟩ | ⟨-, ⟨p, hp⟩, h⟩
    · exact ⟨[], .here h⟩
    · exact ⟨_, hp.snoc (h.resolve_right fun h => h he)⟩
  obtain ⟨rank, hr⟩ := hf
  obtain ⟨p, hp⟩ := id hu
  refine ⟨?_, hu⟩
  rintro rfl
  exact Nat.lt_irrefl _ (hp.rank_lt hr)

/-! ## Inside a firing -/

/-- A connection that is destroyed before it is called. -/
def Lost (as : List Action) (es : List Event) (s : Cancels) (c : Conn) : Prop :=
  (∃ a ∈ as, a.Destroys c) ∧ ¬ Called es c ∧ s.Old c ∧ ¬ s.Pending c

/-- What holds from the start of the firing of `d` to its end. -/
structure Inside (s₀ : Cancels) (d : ℕ) (as : List Action) (es : List Event) (s : Cancels) :
    Prop where
  forest : Forest s₀
  sound : Sound s
  assigns : ∀ a ∈ as, ¬ a.Assigns
  objects : s.nextObject = s₀.nextObject
  firings : s₀.nextFiring < s.nextFiring
  slots : ∀ c, s₀.Old c → s.Old c ∧ s.slot c = s₀.slot c
  connections : ∀ e, ∀ c ∈ s.connections e, c ∈ s₀.connections e ∨ ¬ s₀.Old c
  frames : ∀ f ∈ s.frames, f.firing = s₀.nextFiring → ∀ c ∈ f.rest, s₀.Owns d f.object c
  called : ∀ m o c σ, .called m o c σ ∈ es → s.Old c ∧ ¬ s.Pending c ∧
    c ∉ base s₀.frames.length s ∧ (s₀.Old c → s₀.slot c = some σ)
  own : ∀ o c σ, .called s₀.nextFiring o c σ ∈ es → s₀.Owns d o c
  once : ∀ p c, Path s₀ d p c → Called es c ∨ (∃ c' ∈ p ++ [c], Lost as es s c') ∨
    ∃ q, q <:+ p ∧ Leads s (left s₀.frames.length s) q c

theorem Inside.start (hs : Sound s₀) (hlt : ∀ f ∈ s₀.frames, f.firing < s₀.nextFiring)
    (h : Took s₀ (.fire d) s es) : Inside s₀ d [] [] s where
  forest := hs.forest
  sound := hs.step id h
  assigns := nofun
  objects := by
    cases h
    rfl
  firings := by
    cases h
    exact Nat.lt_succ_self _
  slots c hc := by
    cases h
    exact ⟨hc.mono (Nat.le_refl _) (Nat.le_refl _), rfl⟩
  connections e c hc := new_step h rfl hc
  frames f hf hfirst c hc := by
    rcases frames_step hs.inv h f hf with ⟨g, hg, hfg, -, -⟩ | ⟨hrest, ⟨hd, -⟩ | ⟨g, hg, hfg, -⟩⟩
    · exact absurd (hfg.symm.trans hfirst) (Nat.ne_of_lt (hlt g hg))
    · cases hd
      rw [hrest] at hc
      exact .inl ⟨rfl, hc⟩
    · exact absurd (hfg.symm.trans hfirst) (Nat.ne_of_lt (hlt g hg))
  called := nofun
  own := nofun
  once p c hp := by
    rcases path_step h rfl (Nat.le_refl _) hp with hp | hq | ⟨c', -, hd⟩
    · have hnil : s.connections d = [] := by
        cases h
        exact Function.update_self _ _ _
      rw [Path, hnil] at hp
      cases hp <;> contradiction
    · exact .inr (.inr hq)
    · exact hd.elim

theorem called_append {c : Conn} : Called (es ++ es') c ↔ Called es c ∨ Called es' c := by
  simp only [Called, List.mem_append, exists_or]

theorem stays_of_lt (h : Took s act s' es) (hn : n < s.frames.length) : Stays s act s' :=
  stays_step h (List.ne_nil_of_length_pos (Nat.zero_lt_of_lt hn))

theorem old_inside (h : Took s act s' es) (hn : n < s.frames.length) (hc : s.Old c) : s'.Old c :=
  hc.mono (Nat.le_of_eq (stays_of_lt h hn).objects.symm) (stays_of_lt h hn).handles

/-- What is old and not to be called is not called again. -/
theorem not_pending_inside (h : Took s act s' es) (hn : n < s.frames.length) (hc : s.Old c)
    (hp : ¬ s.Pending c) : ¬ s'.Pending c := by
  intro hp'
  rcases (pending_step h (stays_of_lt h hn).moved).2 c hp' with hp' | ⟨hnew, -⟩
  · exact hp hp'
  · exact hnew hc

section
variable (hi : Inside s₀ d as es s) (h : Took s act s' es')

include hi h

/-- **The calls of the firing have only what is its own.** -/
theorem Inside.frames_step :
    ∀ f ∈ s'.frames, f.firing = s₀.nextFiring → ∀ c ∈ f.rest, s₀.Owns d f.object c := by
  intro f hf hfirst c hc
  rcases Cancels.frames_step hi.sound.inv h f hf with
    ⟨g, hg, hfg, hobj, hrest⟩ | ⟨hrest, ⟨-, hfg⟩ | ⟨g, hg, hfg, hself⟩⟩
  · rw [hobj]
    exact hi.frames g hg (hfg.symm.trans hfirst) c (hrest c hc)
  · exact absurd (hfg.symm.trans hfirst) (Nat.ne_of_gt hi.firings)
  · have hold : f.object < s.nextObject :=
      hi.sound.inv.old _ (Pending.linked (.inr ⟨g, hg, hself⟩))
    obtain ⟨hne, hu⟩ := (hi.frames g hg (hfg.symm.trans hfirst) _ hself).below hi.forest
      (hi.objects ▸ hold)
    rw [hrest] at hc
    exact .inr ⟨hne, hu, hi.connections _ c hc⟩

theorem Inside.own_step : ∀ o c σ, .called s₀.nextFiring o c σ ∈ es ++ es' → s₀.Owns d o c := by
  intro o c σ hc
  rcases List.mem_append.1 hc with hc | hc
  · exact hi.own o c σ hc
  · obtain ⟨-, -, f, fs, rest, hf, hfirst, rfl, hl⟩ := Cancels.called_step hi.sound h hc
    exact hi.frames f (hf ▸ List.mem_cons_self) hfirst c (hl ▸ List.mem_cons_self)

/-- What is called now was to be called. -/
theorem Inside.pending_of_called (hc : Called es' c) : s.Pending c := by
  obtain ⟨m, o, σ, hc⟩ := hc
  obtain ⟨-, -, f, fs, rest, hf, -, -, hl⟩ := Cancels.called_step hi.sound h hc
  exact .inr ⟨f, hf ▸ List.mem_cons_self, hl ▸ List.mem_cons_self⟩

variable (hn : s₀.frames.length < s.frames.length)

include hn

theorem Inside.called_step : ∀ m o c σ, .called m o c σ ∈ es ++ es' → s'.Old c ∧ ¬ s'.Pending c ∧
    c ∉ base s₀.frames.length s' ∧ (s₀.Old c → s₀.slot c = some σ) := by
  intro m o c σ hc
  rcases List.mem_append.1 hc with hc | hc
  · obtain ⟨hold, hp, hb, hσ⟩ := hi.called m o c σ hc
    exact ⟨old_inside h hn hold, not_pending_inside h hn hold hp, mt (base_step h hn) hb, hσ⟩
  · obtain ⟨hσ, hp, f, fs, rest, hf, -, -, hl⟩ := Cancels.called_step hi.sound h hc
    refine ⟨old_inside h hn (hi.sound.inv.old c (linked_of_rest hf hl)), hp, ?_, ?_⟩
    · intro hb
      have hb := base_step h hn hb
      rw [base_cons hf hn] at hb
      obtain ⟨g, hg, hcg⟩ := mem_framed.1 hb
      exact (hi.sound.single.not_pending hf hl).2.2
        (mem_framed.2 ⟨g, List.mem_of_mem_drop hg, hcg⟩)
    · intro hold
      rw [← (hi.slots c hold).2, hσ]

/-- What is lost stays lost. -/
theorem Inside.lost_step (hc : Lost as es s c) : Lost (as ++ [act]) (es ++ es') s' c := by
  obtain ⟨⟨a, ha, hd⟩, hnc, hold, hp⟩ := hc
  refine ⟨⟨a, List.mem_append_left _ ha, hd⟩, ?_, old_inside h hn hold,
    not_pending_inside h hn hold hp⟩
  rw [called_append]
  rintro (hc | hc)
  · exact hnc hc
  · exact hp (hi.pending_of_called h hc)

/-- What is destroyed while it is to be called is lost. -/
theorem Inside.lost_of_destroys (hp : s.Pending c) (hd : act.Destroys c) :
    Lost (as ++ [act]) (es ++ es') s' c := by
  obtain ⟨hp', rfl⟩ := destroys_step h hd
  refine ⟨⟨act, List.mem_append_right _ (List.mem_singleton_self act), hd⟩, ?_,
    old_inside h hn (hi.sound.inv.old c hp.linked), hp'⟩
  rw [List.append_nil]
  rintro ⟨m, o, σ, hc⟩
  exact (hi.called m o c σ hc).2.1 hp

/-- **Each path stays open, until its last connection is called or one is lost.** -/
theorem Inside.once_step (hp : Path s₀ d p c) : Called (es ++ es') c ∨
    (∃ c' ∈ p ++ [c], Lost (as ++ [act]) (es ++ es') s' c') ∨
      ∃ q, q <:+ p ∧ Leads s' (left s₀.frames.length s') q c := by
  rcases hi.once p c hp with hc | ⟨c', hc', hlost⟩ | ⟨q, hq, hl⟩
  · exact .inl (called_append.2 (.inl hc))
  · exact .inr (.inl ⟨c', hc', hi.lost_step h hn hlost⟩)
  · rcases leads_step hi.sound.inv h (stays_of_lt h hn).moved hn hl with
      ⟨q', hq', hl'⟩ | hc | ⟨c', hc', hd⟩
    · exact .inr (.inr ⟨q', hq'.trans hq, hl'⟩)
    · exact .inl (called_append.2 (.inr hc))
    · have hpend : s.Pending c' := by
        refine hl.pending (fun c hc => .inr ?_) c' hc'
        obtain ⟨f, hf, hcf⟩ := mem_left.1 hc
        exact ⟨f, List.mem_of_mem_take hf, hcf⟩
      refine .inr (.inl ⟨c', ?_, hi.lost_of_destroys h hn hpend hd⟩)
      obtain ⟨p', rfl⟩ := hq
      rw [List.append_assoc]
      exact List.mem_append_right p' hc'

theorem Inside.step : Inside s₀ d (as ++ [act]) (es ++ es') s' where
  forest := hi.forest
  sound := hi.sound.step (stays_of_lt h hn).assigns h
  assigns a ha := by
    rcases List.mem_append.1 ha with ha | ha
    · exact hi.assigns a ha
    · rw [List.mem_singleton.1 ha]
      exact (stays_of_lt h hn).assigns
  objects := (stays_of_lt h hn).objects.trans hi.objects
  firings := Nat.lt_of_lt_of_le hi.firings (stays_of_lt h hn).firings
  slots c hc := by
    obtain ⟨hold, hslot⟩ := hi.slots c hc
    refine ⟨old_inside h hn hold, ?_⟩
    rw [(pending_step h (stays_of_lt h hn).moved).1 c hold, hslot]
  connections e c hc := by
    rcases new_step h (stays_of_lt h hn).moved hc with hc | hnew
    · exact hi.connections e c hc
    · exact .inr fun hold => hnew (hi.slots c hold).1
  frames := hi.frames_step h
  called := hi.called_step h hn
  own := hi.own_step h
  once _ _ := hi.once_step h hn

end

/-! ## A whole firing -/

theorem inside_of_firing (hs : Sound s₀) (hlt : ∀ f ∈ s₀.frames, f.firing < s₀.nextFiring)
    (h : Firing s₀ d as es s) : Inside s₀ d as es s := by
  obtain ⟨s₁, es₁, es₂, hstep, hrun, rfl⟩ := Machine.runFrom_cons.1 h.run
  have ht : Took s₀ (.fire d) s₁ es₁ := took_of_step hstep
  have hstart := Inside.start hs hlt ht
  have hmeets := h.inside _ hstep
  obtain rfl : es₁ = [] := by
    cases ht
    rfl
  refine hrun.invariant (P := fun as es s =>
    machine.Meets (fun s _ => s₀.frames.length < s.frames.length) s₁ as → Inside s₀ d as es s)
    (fun _ => hstart) ?_ hmeets
  intro as es s a s' es' hrun ih hstep hmeets
  obtain ⟨hmeets, hn⟩ := (Machine.meets_snoc hrun).1 hmeets
  exact (ih hmeets).step (took_of_step hstep) hn

theorem calls_ne_zero {x m o : ℕ} (h : .called m o c (.user x) ∈ es) : calls x es ≠ 0 :=
  Nat.ne_of_gt (List.countP_pos_iff.2 ⟨_, h, decide_eq_true rfl⟩)

/-- **No slot is called twice, and each firing calls once what is below it, unless it is
    cut off, and unlinks what it calls.** -/
theorem fired_of_run {as₀ : List Action} {es₀ : List Event} (h₀ : machine.Run as₀ es₀ s₀)
    (hn : ∀ a ∈ as₀, ¬ a.Assigns) : (∀ x, calls x es₀ ≤ 1) ∧
      ∀ d as es s, Firing s₀ d as es s → Fired s₀ d as es s := by
  obtain ⟨hs, hcalls⟩ := sound_of_run h₀ hn
  refine ⟨fun x => (hcalls x).1, fun d as es s h => ?_⟩
  have hi := inside_of_firing hs (firing_lt h₀ hn) h
  constructor
  · intro p c x hp hslot
    rcases hi.once p c hp with ⟨m, o, σ, hc⟩ | ⟨c', hc', hd, hnc, -⟩ | ⟨q, -, hl⟩
    · -- the slot is called, and no slot is called twice in the run up to the end
      have hold : s₀.Old c := hs.inv.old c (hp.pending (fun _ h => .inl ⟨d, h⟩) c (by simp)).linked
      cases ((hi.called m o c σ hc).2.2.2 hold).symm.trans hslot
      have hrun : machine.Run (as₀ ++ .fire d :: as) (es₀ ++ es) s := h₀.append h.run
      have hone := ((sound_of_run hrun ?_).2 x).1
      · rw [calls_append] at hone
        have := calls_ne_zero hc
        exact .inl (by omega)
      · intro a ha
        rcases List.mem_append.1 ha with ha | ha
        · exact hn a ha
        · rcases List.mem_cons.1 ha with rfl | ha
          · exact id
          · exact hi.assigns a ha
    · exact .inr ⟨c', hc', hd, hnc⟩
    · rw [left_of_length h.returned] at hl
      cases hl <;> contradiction
  · exact hi.own
  · rintro c ⟨m, o, σ, hc⟩ hl
    obtain ⟨-, hp, hb, -⟩ := hi.called m o c σ hc
    rcases hl with hl | hl
    · exact hp (.inl hl)
    · rw [base_of_length h.returned] at hb
      exact hb (mem_framed.2 hl)

/-- An object with a child, and a slot connected to each. -/
def family : List Action := [.newObject, .newChild 0, .connect 1, .connect 0]

/-- The slot of the child connects another one to the object that is called. -/
def familyCalls : List Action :=
  [.next, .next, .connect 0, .return, .next, .next, .return, .next]

theorem fired_family : ∃ es₀ s₀ es s, machine.Run family es₀ s₀ ∧
    Firing s₀ 0 familyCalls es s ∧ Fired s₀ 0 familyCalls es s := by
  obtain ⟨es₀, s₀, h₀, es, s, h⟩ : ∃ es₀ s₀, machine.Run family es₀ s₀ ∧
      ∃ es s, Firing s₀ 0 familyCalls es s := by
    refine ⟨_, _, (rfl : machine.runFrom machine.init family = some (_, _)), _, _,
      (rfl : machine.runFrom _ (.fire 0 :: familyCalls) = some (_, _)), ?_, ?_⟩
    · intro r hr
      cases hr
      refine .cons rfl (by decide) (.cons rfl (by decide) (.cons rfl
        (by decide) (.cons rfl (by decide) (.cons rfl (by decide) (.cons rfl
        (by decide) (.cons rfl (by decide) (.cons rfl (by decide) trivial)))))))
    · rfl
  refine ⟨es₀, s₀, es, s, h₀, h, (fired_of_run h₀ ?_).2 0 _ es s h⟩
  simp [family, Action.Assigns]

/-- An object with a child that has a child, and a slot connected to the first and to the
    last of them. -/
def lineage : List Action := [.newObject, .connect 0, .newChild 0, .newChild 1, .connect 2]

/-- The slot destroys the object in the middle. -/
def lineageCalls : List Action := [.next, .destroyObject 1, .return, .next]

/-- An object with a child that is called, and a slot connected to the child. -/
def detached : List Action := [.newObject, .newChild 0, .fire 0, .next, .next, .next, .connect 1]

/-- The slot of an object that nobody destroys is not called, where the object in between
    is destroyed, or where the call of the parent connection has unlinked it before. -/
theorem not_called_cutOff :
    (∃ es₀ s₀ es s, machine.Run lineage es₀ s₀ ∧
      Path s₀ 0 [.parent 1, .parent 2] (.handle 1) ∧ s₀.slot (.handle 1) = some (.user 1) ∧
      Firing s₀ 0 lineageCalls es s ∧ 2 ∈ s.objects ∧ 1 ∈ s.handles ∧ calls 1 es = 0) ∧
    ∃ es₀ s₀ es s, machine.Run detached es₀ s₀ ∧
      .handle 0 ∈ s₀.connections 1 ∧ s₀.slot (.handle 0) = some (.user 0) ∧
      Firing s₀ 0 [.next] es s ∧ 1 ∈ s.objects ∧ 0 ∈ s.handles ∧ calls 0 es = 0 := by
  constructor
  · refine ⟨_, _, _, _, (rfl : machine.runFrom machine.init lineage = some (_, _)), ?_, rfl,
      ⟨(rfl : machine.runFrom _ (.fire 0 :: lineageCalls) = some (_, _)), ?_, ?_⟩, ?_, ?_, ?_⟩
    · exact .down (by decide) (.down (by decide) (.here (by decide)))
    · intro r hr
      cases hr
      exact .cons rfl (by decide) (.cons rfl (by decide) (.cons rfl
        (by decide) (.cons rfl (by decide) trivial)))
    · rfl
    · decide
    · decide
    · rfl
  · refine ⟨_, _, _, _, (rfl : machine.runFrom machine.init detached = some (_, _)), ?_, rfl,
      ⟨(rfl : machine.runFrom _ [.fire 0, .next] = some (_, _)), ?_, ?_⟩, ?_, ?_, ?_⟩
    · decide
    · intro r hr
      cases hr
      exact .cons rfl (by decide) trivial
    · rfl
    · decide
    · decide
    · rfl

end Cancels

end Upnp
