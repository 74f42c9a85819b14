/-
  What `call_count()` and `operator bool` of connections and of `cancel_t` objects tell.

  A count moves with the slot, or with the list, that it belongs to: the one of a connection
  by its moves, the one of an object by the moves of the object.  `Counted` follows a slot of
  the program through all moves and assignments, also those that spoil the lists.

  * `Counted.step`: a slot is held by one connection, which counts the calls of the slot;
  * `callCount_step`: an object that is not moved counts its calls, by the program and by
    its parent;
  * `counts_of_run`: so after every run the counts are the numbers of calls.
-/
import Upnp.CancelTree

namespace Upnp

open Lib

namespace Cancels

variable {s s' s₀ : Cancels} {a b d : ℕ} {c o x : Conn} {act : Action} {es es' : List Event}

/-- How often the `call_to_self()` of the object `d` is called. -/
def reached (d : ℕ) (es : List Event) : ℕ :=
  es.countP fun
    | .called _ _ _ (.toSelf e) => e = d
    | _ => false

/-- The object `d` is moved, or assigned to. -/
def Action.Moves (d : ℕ) : Action → Prop
  | .moveObject b => b = d
  | .assignObject a b => a = d ∨ b = d
  | _ => False

/-! ## What is not there yet -/

/-- A connection that is to be constructed is in no list, and has not been called. -/
structure Blank (s : Cancels) : Prop where
  linked : ∀ n, s.nextHandle ≤ n → ¬ s.Linked (.handle n)
  count : ∀ n, s.nextHandle ≤ n → s.connCount (.handle n) = 0
  handles : ∀ n ∈ s.handles, n < s.nextHandle

theorem Blank.init : Blank init where
  linked := by
    rintro n - (⟨d, h⟩ | ⟨f, h, -⟩) <;> cases h
  count _ _ := rfl
  handles := nofun

/-- The handles that are linked stay linked, or have been constructed. -/
theorem Blank.mono (hb : Blank s) (hl : ∀ c, s'.Linked c → s.Linked c)
    (hc : ∀ n, s'.nextHandle ≤ n → s'.connCount (.handle n) = s.connCount (.handle n))
    (hn : s.nextHandle ≤ s'.nextHandle) (hh : ∀ n ∈ s'.handles, n < s'.nextHandle) :
    Blank s' where
  linked n h hl' := hb.linked n (Nat.le_trans hn h) (hl _ hl')
  count n h := (hc n h).trans (hb.count n (Nat.le_trans hn h))
  handles := hh

theorem Blank.newHandle (hb : Blank s) : Blank s.newHandle := by
  refine hb.mono (fun _ h => h) (fun _ _ => rfl) (Nat.le_succ _) ?_
  intro n hn
  rcases List.mem_append.1 hn with hn | hn
  · exact Nat.lt_succ_of_lt (hb.handles n hn)
  · rw [List.mem_singleton.1 hn]
    exact Nat.lt_succ_self _

/-- A move swaps two connections that are there. -/
theorem Blank.assign (hb : Blank s) (hf : s.frames = [])
    (hc : ∀ n, c = .handle n → n < s.nextHandle) (ho : ∀ n, o = .handle n → n < s.nextHandle) :
    Blank (s.assign c o) := by
  have hne : ∀ n, s.nextHandle ≤ n → Conn.handle n ≠ c ∧ Conn.handle n ≠ o := by
    intro n hn
    exact ⟨fun h => Nat.not_lt.2 hn (hc n h.symm), fun h => Nat.not_lt.2 hn (ho n h.symm)⟩
  refine ⟨?_, ?_, hb.handles⟩
  · intro n hn
    obtain ⟨hnc, hno⟩ := hne n hn
    rw [linked_assign hf, Equiv.swap_apply_of_ne_of_ne hno hnc]
    exact hb.linked n hn
  · intro n hn
    obtain ⟨hnc, hno⟩ := hne n hn
    change Function.update (Function.update s.connCount c _) o 0 (.handle n) = 0
    rw [Function.update_of_ne hno, Function.update_of_ne hnc]
    exact hb.count n hn

theorem Blank.adopt (hb : Blank s) (hf : s.frames = []) : Blank (s.adopt a b) := by
  by_cases h : s.slot (.parent b) = none
  · rwa [adopt_of_none h]
  · have := hb.assign hf (c := .parent a) (o := .parent b) nofun nofun
    rw [adopt_of_some h]
    exact ⟨this.linked, this.count, this.handles⟩

/-- A call of a connection that is linked. -/
theorem Blank.called {fs : List Frame} (hb : Blank s) (hc : s.Linked c)
    (hl : ∀ x, (∃ f ∈ fs, x ∈ f.conns) → s.Linked x) : Blank
      { s with connCount := Function.update s.connCount c (s.connCount c + 1), frames := fs } := by
  refine hb.mono ?_ ?_ (Nat.le_refl _) hb.handles
  · rintro x (⟨d, hx⟩ | hx)
    · exact .inl ⟨d, hx⟩
    · exact hl x hx
  · intro n hn
    refine Function.update_of_ne ?_ _ _
    rintro rfl
    exact hb.linked n hn hc

/-- What is left of the list that a call has taken a connection from. -/
theorem linked_taken {f f' : Frame} {fs : List Frame} {rest : List Conn}
    (hf : s.frames = f :: fs) (hl : f.rest = c :: rest) (hf' : ∀ x ∈ f'.conns, x ∈ f.conns) :
    s.Linked c ∧ ∀ x, (∃ g ∈ f' :: fs, x ∈ g.conns) → s.Linked x := by
  refine ⟨linked_of_rest hf hl, fun x hx => .inr ?_⟩
  rw [hf, List.exists_mem_cons_iff]
  rw [List.exists_mem_cons_iff] at hx
  exact hx.imp_left (hf' x)

theorem linked_moved (h : (s.moved b).Linked x) : s.Linked x := by
  refine h.imp_left ?_
  rintro ⟨e, he⟩
  simp only [moved, Function.update_apply] at he
  split at he
  · cases he
  · split at he
    · exact ⟨b, he⟩
    · exact ⟨e, he⟩

theorem Blank.step (hb : Blank s) (h : Took s act s' es) : Blank s' := by
  cases h with
  | newHandle _ => exact hb.newHandle
  | newObject _ => exact ⟨hb.linked, hb.count, hb.handles⟩
  | newChild _ _ =>
    refine ⟨fun n hn hl => ?_, hb.count, hb.handles⟩
    rcases linked_connectTo.1 hl with hl | hl
    · exact hb.linked n hn hl
    · cases hl
  | connect _ =>
    have hnew := hb.newHandle
    refine ⟨fun n hn hl => ?_, hnew.count, hnew.handles⟩
    rcases linked_connectTo.1 hl with hl | hl
    · exact hnew.linked n hn hl
    · cases hl
      exact Nat.not_succ_le_self _ hn
  | destroyHandle _ ha =>
    exact hb.mono (fun c h => ((linked_unlink ha).1 h).1) (fun _ _ => rfl) (Nat.le_refl _)
      fun m hm => hb.handles m (List.mem_of_mem_erase hm)
  | destroyObject _ ha _ =>
    exact hb.mono (fun c => linked_destroyObject ha) (fun _ _ => rfl) (Nat.le_refl _) hb.handles
  | moveHandle hf hn =>
    refine hb.newHandle.assign hf ?_ ?_
    · rintro m hm
      cases hm
      exact Nat.lt_succ_self _
    · rintro m hm
      cases hm
      exact Nat.lt_succ_of_lt (hb.handles _ hn)
  | assignHandle hf ht hn =>
    refine hb.assign hf ?_ ?_
    · rintro m hm
      cases hm
      exact hb.handles _ ht
    · rintro m hm
      cases hm
      exact hb.handles _ hn
  | @moveObject b hf _ =>
    have hmoved : Blank (s.moved b) :=
      hb.mono (fun c => linked_moved) (fun _ _ => rfl) (Nat.le_refl _) hb.handles
    exact hmoved.adopt hf
  | @assignObject a b hf _ _ =>
    have hswapped : Blank (s.swapped a b) :=
      hb.mono (fun c => linked_swapped.1) (fun _ _ => rfl) (Nat.le_refl _) hb.handles
    exact hswapped.adopt hf
  | fire _ =>
    exact hb.mono (fun c => linked_enter.1) (fun _ _ => rfl) (Nat.le_refl _) hb.handles
  | ended hf _ _ =>
    refine hb.mono (fun c h => h.imp_right fun h => ?_) (fun _ _ => rfl) (Nat.le_refl _) hb.handles
    rw [hf, List.exists_mem_cons_iff]
    exact .inr (mem_resumed h)
  | @callsNothing f fs c rest hf _ hl _ =>
    have hconns : ∀ x ∈ Frame.conns { f with called := f.called ++ [c], rest := rest },
        x ∈ f.conns := by
      intro x hx
      simpa [Frame.conns, hl, or_assoc, or_left_comm] using hx
    have htaken := linked_taken hf hl hconns
    exact hb.called htaken.1 htaken.2
  | @callsUser f fs c rest x hf hr hl _ =>
    have htaken := linked_taken hf hl fun y hy => by rwa [conns_take (σ := .user x) hr hl] at hy
    exact hb.called htaken.1 htaken.2
  | @callsSelf f fs c rest d hf hr hl _ =>
    have htaken := linked_taken hf hl fun y hy => by rwa [conns_take (σ := .toSelf d) hr hl] at hy
    exact (hb.called htaken.1 htaken.2).mono (fun c => linked_enter.1) (fun _ _ => rfl)
      (Nat.le_refl _) hb.handles
  | «return» hf _ =>
    refine hb.mono (fun c h => h.imp_right fun h => ?_) (fun _ _ => rfl) (Nat.le_refl _) hb.handles
    rw [hf, List.exists_mem_cons_iff]
    rwa [List.exists_mem_cons_iff, conns_passed] at h

/-! ## The slots of the program -/

/-- **Each slot is held by one connection, which counts its calls.** -/
structure Counted (es : List Event) (s : Cancels) : Prop where
  holder : ∀ c c' x, s.slot c = some (.user x) → s.slot c' = some (.user x) → c = c'
  count : ∀ c x, s.slot c = some (.user x) → s.connCount c = calls x es
  unheld : ∀ c x, s.slot c = some (.user x) → x < s.nextSlot
  uncalled : ∀ x, s.nextSlot ≤ x → calls x es = 0

theorem Counted.init : Counted [] init where
  holder := nofun
  count := nofun
  unheld := nofun
  uncalled _ _ := rfl

/-- The slots and their counts come from the connections `τ`. -/
theorem Counted.move (hc : Counted es s) {τ : Conn → Conn}
    (hτ : ∀ c x, s'.slot c = some (.user x) →
      s.slot (τ c) = some (.user x) ∧ s'.connCount c = s.connCount (τ c))
    (hinj : ∀ c c', s'.slot c ≠ none → s'.slot c' ≠ none → τ c = τ c' → c = c')
    (hn : s'.nextSlot = s.nextSlot) : Counted es s' where
  holder c c' x h h' := by
    refine hinj c c' ?_ ?_ (hc.holder _ _ x (hτ c x h).1 (hτ c' x h').1)
    · rw [h]
      exact Option.some_ne_none _
    · rw [h']
      exact Option.some_ne_none _
  count c x h := (hτ c x h).2.trans (hc.count _ x (hτ c x h).1)
  unheld c x h := hn ▸ hc.unheld _ x (hτ c x h).1
  uncalled x h := hc.uncalled x (hn ▸ h)

/-- The connections keep their slots of the program, and their counts. -/
theorem Counted.same (hc : Counted es s)
    (h : ∀ c x, s'.slot c = some (.user x) →
      s.slot c = some (.user x) ∧ s'.connCount c = s.connCount c)
    (hn : s'.nextSlot = s.nextSlot) : Counted es s' :=
  hc.move (τ := id) h (fun _ _ _ _ h => h) hn

theorem Counted.assign (hc : Counted es s) : Counted es (s.assign c o) := by
  have hfrom : (s.assign c o).slot o = none := Function.update_self _ _ _
  have hne : ∀ x, (s.assign c o).slot x ≠ none → x ≠ o := by
    rintro x hx rfl
    exact hx hfrom
  refine hc.move (τ := fun x => if x = c then o else x) ?_ ?_ rfl
  · intro x y hx
    have hxo := hne x (by rw [hx]; exact Option.some_ne_none _)
    have hcount : (s.assign c o).connCount x =
        Function.update s.connCount c (s.connCount o) x := Function.update_of_ne hxo _ _
    by_cases hxc : x = c
    · subst hxc
      rw [slot_assign_self hxo] at hx
      rw [if_pos rfl, hcount, Function.update_self]
      exact ⟨hx, rfl⟩
    · rw [slot_assign hxc hxo] at hx
      rw [if_neg hxc, hcount, Function.update_of_ne hxc]
      exact ⟨hx, rfl⟩
  · intro x y hx hy h
    have hxo := hne x hx
    have hyo := hne y hy
    split_ifs at h with hxc hyc hyc
    · exact hxc.trans hyc.symm
    · exact absurd h.symm hyo
    · exact absurd h hxo
    · exact h

theorem Counted.adopt (hc : Counted es s) : Counted es (s.adopt a b) := by
  by_cases h : s.slot (.parent b) = none
  · rwa [adopt_of_none h]
  · rw [adopt_of_some h]
    refine (hc.assign (c := .parent a) (o := .parent b)).same ?_ rfl
    intro c x hx
    change Function.update (s.assign (.parent a) (.parent b)).slot (.parent a) _ c = _ at hx
    by_cases hca : c = .parent a
    · subst hca
      rw [Function.update_self] at hx
      cases hx
    · rw [Function.update_of_ne hca] at hx
      exact ⟨hx, rfl⟩

theorem Counted.connect (hc : Counted es s) (hb : Blank s) : Counted es (s.connect d) := by
  have hcases : ∀ c x, (s.connect d).slot c = some (.user x) →
      c = .handle s.nextHandle ∧ x = s.nextSlot ∨
        c ≠ .handle s.nextHandle ∧ s.slot c = some (.user x) := by
    intro c x h
    rw [Cancels.connect, connectTo_slot] at h
    by_cases hch : c = .handle s.nextHandle
    · subst hch
      rw [Function.update_self] at h
      cases h
      exact .inl ⟨rfl, rfl⟩
    · rw [Function.update_of_ne hch] at h
      exact .inr ⟨hch, h⟩
  constructor
  · intro c c' x h h'
    rcases hcases c x h with ⟨rfl, rfl⟩ | ⟨-, h⟩
    · rcases hcases c' _ h' with ⟨rfl, -⟩ | ⟨-, h'⟩
      · rfl
      · exact absurd (hc.unheld c' _ h') (Nat.lt_irrefl _)
    · rcases hcases c' x h' with ⟨-, rfl⟩ | ⟨-, h'⟩
      · exact absurd (hc.unheld c _ h) (Nat.lt_irrefl _)
      · exact hc.holder c c' x h h'
  · intro c x h
    rcases hcases c x h with ⟨rfl, rfl⟩ | ⟨-, h⟩
    · exact (hb.count _ (Nat.le_refl _)).trans (hc.uncalled _ (Nat.le_refl _)).symm
    · exact hc.count c x h
  · intro c x h
    rcases hcases c x h with ⟨-, rfl⟩ | ⟨-, h⟩
    · exact Nat.lt_succ_self _
    · exact Nat.lt_succ_of_lt (hc.unheld c x h)
  · exact fun x h => hc.uncalled x (Nat.le_of_succ_le h)

theorem Counted.quiet (hc : Counted es s) (h : ∀ x, calls x es' = 0) : Counted (es ++ es') s where
  holder := hc.holder
  count c x hx := by rw [calls_append, h, Nat.add_zero, hc.count c x hx]
  unheld := hc.unheld
  uncalled x hx := by rw [calls_append, h, Nat.add_zero, hc.uncalled x hx]

/-- A call of a slot of the program. -/
theorem Counted.called {fs : List Frame} {m n y : ℕ} (hc : Counted es s)
    (hs : s.slot c = some (.user y)) : Counted (es ++ [.called m n c (.user y)])
      { s with connCount := Function.update s.connCount c (s.connCount c + 1), frames := fs } where
  holder := hc.holder
  count c' x h := by
    change Function.update s.connCount c _ c' = _
    by_cases hcc : c' = c
    · subst hcc
      obtain rfl : y = x := by simpa [hs] using h
      rw [Function.update_self, hc.count c' y hs, calls_append]
      simp [calls]
    · have hy : y ≠ x := by
        rintro rfl
        exact hcc (hc.holder c' c y h hs)
      rw [Function.update_of_ne hcc, hc.count c' x h, calls_append]
      simp [calls, hy]
  unheld := hc.unheld
  uncalled x h := by
    have hy : y ≠ x := Nat.ne_of_lt (Nat.lt_of_lt_of_le (hc.unheld c y hs) h)
    rw [calls_append, hc.uncalled x h]
    simp [calls, hy]

/-- A call of a connection without a slot of the program. -/
theorem Counted.other (hc : Counted es s) (hs : ∀ x, s.slot c ≠ some (.user x))
    (hslot : s'.slot = s.slot)
    (hcount : s'.connCount = Function.update s.connCount c (s.connCount c + 1))
    (hn : s'.nextSlot = s.nextSlot) : Counted es s' := by
  refine hc.same (fun c' x h => ?_) hn
  rw [hslot] at h
  refine ⟨h, ?_⟩
  rw [hcount]
  refine Function.update_of_ne ?_ _ _
  rintro rfl
  exact hs x h

/-- **Every step keeps the counts of the slots.** -/
theorem Counted.step (hc : Counted es s) (hb : Blank s) (h : Took s act s' es') :
    Counted (es ++ es') s' := by
  cases h with
  | newHandle _ | newObject _ | destroyHandle _ _ | destroyObject _ _ _ | fire _ | ended _ _ _
  | «return» _ _ =>
    rw [List.append_nil]
    exact hc.same (fun _ _ h => ⟨h, rfl⟩) rfl
  | newChild _ _ =>
    rw [List.append_nil]
    refine hc.same (fun c x hx => ?_) rfl
    rw [newChild, connectTo_slot, Function.update_apply] at hx
    split at hx
    · cases hx
    · exact ⟨hx, rfl⟩
  | connect _ =>
    rw [List.append_nil]
    exact hc.connect hb
  | moveHandle _ _ =>
    rw [List.append_nil]
    have hnew : Counted es s.newHandle := hc.same (fun _ _ h => ⟨h, rfl⟩) rfl
    exact hnew.assign
  | assignHandle _ _ _ =>
    rw [List.append_nil]
    exact hc.assign
  | @moveObject b _ _ =>
    rw [List.append_nil]
    have hmoved : Counted es (s.moved b) := hc.same (fun _ _ h => ⟨h, rfl⟩) rfl
    exact hmoved.adopt
  | @assignObject a b _ _ _ =>
    rw [List.append_nil]
    have hswapped : Counted es (s.swapped a b) := hc.same (fun _ _ h => ⟨h, rfl⟩) rfl
    exact hswapped.adopt
  | callsNothing _ _ _ hs =>
    refine Counted.quiet (hc.other (fun x hx => ?_) rfl rfl rfl) fun x => by simp [calls]
    rw [hs] at hx
    cases hx
  | callsUser _ _ _ hs => exact hc.called hs
  | @callsSelf f fs c rest d _ _ _ hs =>
    have hcalls : ∀ x, calls x [.called f.firing f.object c (.toSelf d)] = 0 := by simp [calls]
    refine Counted.quiet (hc.other (fun x hx => ?_) rfl rfl rfl) hcalls
    rw [hs] at hx
    cases hx

/-! ## The calls of an object -/

theorem reached_append (d : ℕ) (es es' : List Event) :
    reached d (es ++ es') = reached d es + reached d es' :=
  List.countP_append

theorem callCount_adopt : (s.adopt a b).callCount = s.callCount := by
  by_cases h : s.slot (.parent b) = none
  · rw [adopt_of_none h]
  · rw [adopt_of_some h]
    rfl

/-- A call of `operator()` counts for its object. -/
theorem callCount_enter {n e : ℕ} :
    (s.enter n e).callCount d = s.callCount d + if e = d then 1 else 0 := by
  change Function.update s.callCount e (s.callCount e + 1) d = _
  by_cases h : e = d
  · subst h
    rw [Function.update_self, if_pos rfl]
  · rw [Function.update_of_ne (Ne.symm h), if_neg h, Nat.add_zero]

/-- **An object that is not moved counts its calls**, by the program and by its parent. -/
theorem callCount_step (h : Took s act s' es) (hd : d < s.nextObject) (hm : ¬ act.Moves d) :
    s'.callCount d = s.callCount d + [act].count (.fire d) + reached d es := by
  cases h with
  | newHandle _ | newObject _ | newChild _ _ | connect _ | destroyHandle _ _ | destroyObject _ _ _
  | moveHandle _ _ | assignHandle _ _ _ | ended _ _ _ | «return» _ _ => rfl
  | @moveObject b _ _ =>
    have hb : d ≠ b := fun h => hm h.symm
    have hcount : (s.moveObject b).callCount d = s.callCount d := by
      rw [show s.moveObject b = (s.moved b).adopt s.nextObject b from rfl, callCount_adopt]
      change Function.update (Function.update s.callCount s.nextObject _) b _ d = _
      rw [Function.update_of_ne hb, Function.update_of_ne (Nat.ne_of_lt hd)]
    exact hcount
  | @assignObject a b _ _ _ =>
    have ha : d ≠ a := fun h => hm (.inl h.symm)
    have hb : d ≠ b := fun h => hm (.inr h.symm)
    have hcount : (s.assignObject a b).callCount d = s.callCount d := by
      rw [show s.assignObject a b = (s.swapped a b).adopt a b from rfl, callCount_adopt]
      change Function.update (Function.update s.callCount a _) b _ d = _
      rw [Function.update_of_ne hb, Function.update_of_ne ha]
    exact hcount
  | @fire e _ =>
    rw [callCount_enter]
    simp [reached, List.count_cons]
  | callsNothing _ _ _ _ | callsUser _ _ _ _ => simp [reached]
  | callsSelf _ _ _ _ =>
    rw [callCount_enter]
    simp [reached]

theorem nextObject_step (h : Took s act s' es) : s.nextObject ≤ s'.nextObject := by
  cases h with
  | newObject _ | newChild _ _ => exact Nat.le_succ _
  | @moveObject b _ _ =>
    have hadopt : (s.moveObject b).nextObject = s.nextObject + 1 :=
      (adopt_nexts (s := s.moved b)).1
    exact hadopt ▸ Nat.le_succ _
  | @assignObject a b _ _ _ =>
    have hadopt : (s.assignObject a b).nextObject = s.nextObject :=
      (adopt_nexts (s := s.swapped a b)).1
    exact Nat.le_of_eq hadopt.symm
  | newHandle _ | connect _ | destroyHandle _ _ | destroyObject _ _ _ | moveHandle _ _
  | assignHandle _ _ _ | fire _ | ended _ _ _ | callsNothing _ _ _ _ | callsUser _ _ _ _
  | callsSelf _ _ _ _ | «return» _ _ => exact Nat.le_refl _

/-! ## Every run -/

theorem counted_of_run {as : List Action} (h : machine.Run as es s) : Counted es s ∧ Blank s := by
  refine h.invariant (P := fun _ es s => Counted es s ∧ Blank s) ⟨.init, .init⟩ ?_
  rintro as es s₁ a s₂ es' - ⟨hc, hb⟩ hs
  have ht := took_of_step hs
  exact ⟨hc.step hb ht, hb.step ht⟩

theorem callCount_of_runFrom {as : List Action} (h : machine.RunFrom s₀ as es s)
    (hd : d < s₀.nextObject) (hm : ∀ a ∈ as, ¬ a.Moves d) :
    d < s.nextObject ∧
      s.callCount d = s₀.callCount d + as.count (.fire d) + reached d es := by
  refine h.invariant (P := fun as es s => (∀ a ∈ as, ¬ a.Moves d) → d < s.nextObject ∧
    s.callCount d = s₀.callCount d + as.count (.fire d) + reached d es) ?_ ?_ hm
  · exact fun _ => ⟨hd, rfl⟩
  · rintro as es s₁ a s₂ es' - ih hs hm
    obtain ⟨hlt, hcount⟩ := ih fun b hb => hm b (List.mem_append_left _ hb)
    have ha := hm a (List.mem_append_right _ (List.mem_singleton_self a))
    have ht := took_of_step hs
    refine ⟨Nat.lt_of_lt_of_le hlt (nextObject_step ht), ?_⟩
    rw [callCount_step ht hlt ha, hcount, List.count_append, reached_append]
    omega

/-- **What the counts tell.**  In every run `call_count()` of a connection with a slot of the
    program is how often the slot was called, before and after all moves; and `call_count()`
    of an object grows, until it is moved, by its calls, from the program and from its
    parent. -/
theorem counts_of_run {as₀ as : List Action} {es₀ : List Event} (h₀ : machine.Run as₀ es₀ s₀)
    (h : machine.RunFrom s₀ as es s) :
    (∀ c x, s.slot c = some (.user x) → s.connCount c = calls x (es₀ ++ es)) ∧
    ∀ d < s₀.nextObject, (∀ a ∈ as, ¬ a.Moves d) →
      s.callCount d = s₀.callCount d + as.count (.fire d) + reached d es := by
  have hrun : machine.Run (as₀ ++ as) (es₀ ++ es) s := h₀.append h
  exact ⟨(counted_of_run hrun).1.count, fun d hd hm => (callCount_of_runFrom h hd hm).2⟩

/-- A slot of a child, whose connection is moved twice: before the parent is called, and
    after it. -/
def childSlot : List Action := [.newObject, .newChild 0, .connect 1, .moveHandle 0]

def childSlotCalls : List Action :=
  [.fire 0, .next, .next, .return, .next, .next, .newHandle, .assignHandle 2 1]

theorem counts_of_childSlot : ∃ es₀ s₀ es s, machine.Run childSlot es₀ s₀ ∧
    machine.RunFrom s₀ childSlotCalls es s ∧ s.slot (.handle 2) = some (.user 0) ∧
    s.connCount (.handle 2) = calls 0 (es₀ ++ es) ∧ calls 0 (es₀ ++ es) = 1 ∧
    s.callCount 1 = s₀.callCount 1 + childSlotCalls.count (.fire 1) + reached 1 es ∧
    reached 1 es = 1 := by
  obtain ⟨hslots, hobjects⟩ := counts_of_run (show machine.Run childSlot _ _ from rfl)
    (show machine.RunFrom _ childSlotCalls _ _ from rfl)
  have hslot := hslots (.handle 2) 0 rfl
  have hobject := hobjects 1 (by decide) (by simp [childSlotCalls, Action.Moves])
  exact ⟨_, _, _, _, rfl, rfl, rfl, hslot, rfl, hobject, rfl⟩

end Cancels

end Upnp
