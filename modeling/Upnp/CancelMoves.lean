/-
  What the moves of connections and of `cancel_t` objects make of the lists.

  * `Inv` says that the linked connections have the slots they should have; the steps
    that are `Tidy` keep it (`Inv.step`);
  * `moves_iff`: no list ever holds an empty slot or a connection that was moved from,
    objects keep their parents, and no empty slot is called, exactly in the runs in which
    nothing is assigned to what is linked, or to the parent of its source.
-/
import Upnp.Cancel

namespace Upnp

open Lib

namespace Cancels

variable {s s' : Cancels} {a b d e : ℕ} {c x : Conn} {act : Action} {es : List Event}

/-! ## What moves are to do -/

/-- The connection that is moved from. -/
def Action.movedConn : Action → Option Conn
  | .moveHandle n | .assignHandle _ n => some (.handle n)
  | .moveObject b | .assignObject _ b => some (.parent b)
  | _ => none

/-- The object that is moved from. -/
def Action.movedObject : Action → Option ℕ
  | .moveObject b | .assignObject _ b => some b
  | _ => none

/-- What is to hold after a step. -/
structure Holds (s : Cancels) (act : Action) (r : Cancels × List Event) : Prop where
  /-- no list holds an empty slot -/
  filled : ∀ c, r.1.Linked c → r.1.slot c ≠ none
  /-- what was moved from is in no list, and is called from none -/
  movedConn : ∀ c, act.movedConn = some c → ¬ r.1.Linked c
  movedObject : ∀ b, act.movedObject = some b → ∀ c, r.1.Linked c → r.1.slot c ≠ some (.toSelf b)
  /-- an object that is assigned to is attached to the parent of the other one -/
  attached : ∀ a b, act = .assignObject a b →
    ∀ p, .parent a ∈ r.1.connections p ↔ .parent b ∈ s.connections p
  /-- no empty slot is called, and `assert(0)` is not reached -/
  called : ∀ c, .badFunctionCall c ∉ r.2

/-- Nothing is assigned to a linked connection, to an attached object, or to the parent
    of the source. -/
def Tidy (s : Cancels) : Action → Prop
  | .assignHandle t _ => ¬ s.Linked (.handle t)
  | .assignObject a b => ¬ s.Linked (.parent a) ∧ .parent b ∉ s.connections a
  | _ => True

/-! ## The invariant -/

/-- The slot is one that this connection may have. -/
def Fits : Conn → Slot → Prop
  | .handle _, .user _ => True
  | .parent d, .toSelf e => d = e
  | _, _ => False

/-- The connection has been constructed. -/
def Old (s : Cancels) : Conn → Prop
  | .handle n => n < s.nextHandle
  | .parent d => d < s.nextObject

structure Inv (s : Cancels) : Prop where
  fits : ∀ c, s.Linked c → ∃ σ, s.slot c = some σ ∧ Fits c σ
  old : ∀ c, s.Linked c → s.Old c
  empty : ∀ d, s.nextObject ≤ d → s.connections d = []
  notSelf : ∀ d, .parent d ∉ s.connections d
  objects : ∀ d ∈ s.objects, d < s.nextObject
  handles : ∀ n ∈ s.handles, n < s.nextHandle

theorem Inv.init : Inv init where
  fits := by
    rintro c (⟨d, hc⟩ | ⟨f, hf, -⟩)
    · cases hc
    · cases hf
  old := by
    rintro c (⟨d, hc⟩ | ⟨f, hf, -⟩)
    · cases hc
    · cases hf
  empty _ _ := rfl
  notSelf _ := List.not_mem_nil
  objects := nofun
  handles := nofun

theorem Inv.slot_ne_none (hi : Inv s) (hc : s.Linked c) : s.slot c ≠ none := by
  obtain ⟨σ, hσ, -⟩ := hi.fits c hc
  rw [hσ]
  nofun

/-- **Fewer links, and the same slots.** -/
theorem Inv.mono (hi : Inv s) (hl : ∀ c, s'.Linked c → s.Linked c)
    (hs : ∀ c, s.Linked c → s'.slot c = s.slot c)
    (ho : s.nextObject ≤ s'.nextObject) (hh : s.nextHandle ≤ s'.nextHandle)
    (hc : ∀ d, ∀ c ∈ s'.connections d, c ∈ s.connections d)
    (hobj : ∀ d ∈ s'.objects, d < s'.nextObject) (hhan : ∀ n ∈ s'.handles, n < s'.nextHandle) :
    Inv s' where
  fits c h := by
    rw [hs c (hl c h)]
    exact hi.fits c (hl c h)
  old c h := by
    have := hi.old c (hl c h)
    cases c with
    | handle n => exact Nat.lt_of_lt_of_le this hh
    | parent d => exact Nat.lt_of_lt_of_le this ho
  empty d h := by
    refine List.eq_nil_iff_forall_not_mem.2 fun c hc' => ?_
    have := hc d c hc'
    rw [hi.empty d (Nat.le_trans ho h)] at this
    cases this
  notSelf d h := hi.notSelf d (hc d _ h)
  objects := hobj
  handles := hhan

/-- **A new connection keeps the invariant.** -/
theorem Inv.connectTo {σ : Slot} (hi : Inv s) (hn : ¬ s.Linked c) (hσ : Fits c σ) (hc : s.Old c)
    (hd : d < s.nextObject) (hcd : c ≠ .parent d) : Inv (s.connectTo d c σ) where
  fits x hx := by
    by_cases hxc : x = c
    · subst hxc
      exact ⟨σ, Function.update_self _ _ _, hσ⟩
    · rw [connectTo_slot, Function.update_of_ne hxc]
      exact hi.fits x ((linked_connectTo.1 hx).resolve_right hxc)
  old x hx := by
    rcases linked_connectTo.1 hx with hl | rfl
    · exact hi.old x hl
    · exact hc
  empty e he := by
    refine List.eq_nil_iff_forall_not_mem.2 fun x hx => ?_
    rcases mem_connectTo.1 hx with hx | ⟨rfl, -⟩
    · rw [hi.empty e he] at hx
      cases hx
    · exact Nat.not_lt.2 he hd
  notSelf e he := by
    rcases mem_connectTo.1 he with he | ⟨rfl, h⟩
    · exact hi.notSelf e he
    · exact hcd h.symm
  objects := hi.objects
  handles := hi.handles

theorem Inv.newObject (hi : Inv s) : Inv s.newObject := by
  refine hi.mono (fun _ h => h) (fun _ _ => rfl) (Nat.le_succ _) (Nat.le_refl _)
    (fun _ _ h => h) ?_ hi.handles
  intro d hd
  rcases List.mem_append.1 hd with hd | hd
  · exact Nat.lt_succ_of_lt (hi.objects d hd)
  · rw [List.mem_singleton.1 hd]
    exact Nat.lt_succ_self _

theorem Inv.newHandle (hi : Inv s) : Inv s.newHandle := by
  refine hi.mono (fun _ h => h) (fun _ _ => rfl) (Nat.le_refl _) (Nat.le_succ _)
    (fun _ _ h => h) hi.objects ?_
  intro n hn
  rcases List.mem_append.1 hn with hn | hn
  · exact Nat.lt_succ_of_lt (hi.handles n hn)
  · rw [List.mem_singleton.1 hn]
    exact Nat.lt_succ_self _

theorem Inv.newChild (hi : Inv s) (hp : a ∈ s.objects) : Inv (s.newChild a) := by
  have hlt := hi.objects a hp
  refine hi.newObject.connectTo ?_ rfl (Nat.lt_succ_self _) (Nat.lt_succ_of_lt hlt) ?_
  · intro h
    exact Nat.lt_irrefl _ (hi.old _ h)
  · intro h
    cases h
    exact Nat.lt_irrefl _ hlt

theorem Inv.connect (hi : Inv s) (hd : d ∈ s.objects) : Inv (s.connect d) := by
  have hi' : Inv { s.newHandle with nextSlot := s.nextSlot + 1 } :=
    hi.newHandle.mono (fun _ h => h) (fun _ _ => rfl) (Nat.le_refl _) (Nat.le_refl _)
      (fun _ _ h => h) hi.objects hi.newHandle.handles
  refine hi'.connectTo ?_ trivial (Nat.lt_succ_self _) (hi.objects d hd) nofun
  intro h
  exact Nat.lt_irrefl _ (hi.old _ h)

/-! ## Destroying and calling -/

theorem Inv.destroyHandle {n : ℕ} (hi : Inv s) (ha : ¬ s.Active (.handle n)) :
    Inv (s.destroyHandle n) :=
  hi.mono (fun _ h => ((linked_unlink ha).1 h).1) (fun _ _ => rfl) (Nat.le_refl _)
    (Nat.le_refl _) (fun _ _ h => (mem_unlink.1 h).1) hi.objects
    fun m hm => hi.handles m (List.mem_of_mem_erase hm)

theorem Inv.destroyObject (hi : Inv s) (ha : ¬ s.Active (.parent d)) : Inv (s.destroyObject d) :=
  hi.mono (fun _ h => linked_destroyObject ha h) (fun _ _ => rfl) (Nat.le_refl _)
    (Nat.le_refl _) (fun _ _ h => (mem_destroyObject.1 h).1)
    (fun e he => hi.objects e (List.mem_of_mem_erase he)) hi.handles

theorem Inv.enter {n : ℕ} (hi : Inv s) : Inv (s.enter n d) :=
  hi.mono (fun _ h => linked_enter.1 h) (fun _ _ => rfl) (Nat.le_refl _) (Nat.le_refl _)
    (fun _ _ h => (mem_enter.1 h).1) hi.objects hi.handles

/-- The calls go on, and no list gets longer. -/
theorem Inv.frames {fs : List Frame} {count : Conn → ℕ} {n : ℕ} (hi : Inv s)
    (hfs : ∀ c, (∃ f ∈ fs, c ∈ f.conns) → ∃ f ∈ s.frames, c ∈ f.conns) :
    Inv { s with connCount := count, nextFiring := n, frames := fs } :=
  hi.mono (fun c h => h.imp_right (hfs c)) (fun _ _ => rfl) (Nat.le_refl _) (Nat.le_refl _)
    (fun _ _ h => h) hi.objects hi.handles

/-! ## Moving -/

/-- **One connection that is in no list takes the place of another.** -/
theorem Inv.replace {o : Conn} (hi : Inv s) (hc : ¬ s.Linked c) (hold : s.Old c)
    (hf : s'.frames = [])
    (hm : ∀ d x, x ∈ s'.connections d ↔ Equiv.swap o c x ∈ s.connections d)
    (hs : ∀ x, x ≠ c → x ≠ o → s'.slot x = s.slot x)
    (hfit : s.Linked o → ∃ σ, s'.slot c = some σ ∧ Fits c σ)
    (hself : ∀ d, .parent d ∉ s'.connections d) (ho : s'.nextObject = s.nextObject)
    (hh : s'.nextHandle = s.nextHandle) (hobj : s'.objects = s.objects)
    (hhan : s'.handles = s.handles) : Inv s' := by
  have hl : ∀ x, s'.Linked x → x = c ∧ s.Linked o ∨ x ≠ c ∧ x ≠ o ∧ s.Linked x := by
    intro x hx
    obtain ⟨d, hd⟩ := (linked_of_idle hf).1 hx
    rw [hm] at hd
    by_cases hxc : x = c
    · subst hxc
      rw [Equiv.swap_apply_right] at hd
      exact .inl ⟨rfl, linked_of_mem hd⟩
    · by_cases hxo : x = o
      · subst hxo
        rw [Equiv.swap_apply_left] at hd
        exact absurd (linked_of_mem hd) hc
      · rw [Equiv.swap_apply_of_ne_of_ne hxo hxc] at hd
        exact .inr ⟨hxc, hxo, linked_of_mem hd⟩
  constructor
  · intro x hx
    rcases hl x hx with ⟨rfl, h⟩ | ⟨hxc, hxo, h⟩
    · exact hfit h
    · rw [hs x hxc hxo]
      exact hi.fits x h
  · intro x hx
    have : s.Old x := by
      rcases hl x hx with ⟨rfl, -⟩ | ⟨-, -, h⟩
      · exact hold
      · exact hi.old x h
    cases x with
    | handle n => exact Nat.lt_of_lt_of_eq this hh.symm
    | parent d => exact Nat.lt_of_lt_of_eq this ho.symm
  · intro d hd
    refine List.eq_nil_iff_forall_not_mem.2 fun x hx => ?_
    rw [hm, hi.empty d (ho ▸ hd)] at hx
    cases hx
  · exact hself
  · rw [ho, hobj]
    exact hi.objects
  · rw [hh, hhan]
    exact hi.handles

/-- The lists of the objects, dealt out anew. -/
theorem Inv.relist {cs : ℕ → List Conn} {count : ℕ → ℕ} (hi : Inv s)
    (hl : ∀ d, ∀ c ∈ cs d, ∃ d, c ∈ s.connections d) (he : ∀ d, s.nextObject ≤ d → cs d = [])
    (hself : ∀ d, .parent d ∉ cs d) : Inv { s with connections := cs, callCount := count } where
  fits c h := hi.fits c (h.imp_left fun ⟨d, hd⟩ => hl d c hd)
  old c h := by
    have := hi.old c (h.imp_left fun ⟨d, hd⟩ => hl d c hd)
    cases c with
    | handle n => exact this
    | parent d => exact this
  empty := he
  notSelf := hself
  objects := hi.objects
  handles := hi.handles

theorem frames_assign {o : Conn} (hf : s.frames = []) : (s.assign c o).frames = [] := by
  simp only [assign, swapNodes, mapLists, hf, List.map_nil]

theorem slot_assign {o : Conn} (hc : x ≠ c) (ho : x ≠ o) : (s.assign c o).slot x = s.slot x := by
  change Function.update (Function.update s.slot c _) o _ x = _
  rw [Function.update_of_ne ho, Function.update_of_ne hc]

theorem slot_assign_self {o : Conn} (h : c ≠ o) : (s.assign c o).slot c = s.slot o := by
  change Function.update (Function.update s.slot c _) o _ c = _
  rw [Function.update_of_ne h, Function.update_self]

theorem mem_assign {o : Conn} :
    x ∈ (s.assign c o).connections d ↔ Equiv.swap o c x ∈ s.connections d := mem_swapNodes

theorem linked_assign {o : Conn} (hf : s.frames = []) :
    (s.assign c o).Linked x ↔ s.Linked (Equiv.swap o c x) := by
  rw [linked_of_idle (frames_assign hf), linked_of_idle hf]
  exact exists_congr fun d => mem_assign

theorem Inv.assignHandle {t n : ℕ} (hi : Inv s) (hf : s.frames = []) (ht : ¬ s.Linked (.handle t))
    (hlt : t < s.nextHandle) : Inv (s.assign (.handle t) (.handle n)) := by
  refine hi.replace ht hlt (frames_assign hf) (fun _ _ => mem_assign)
    (fun _ hc ho => slot_assign hc ho) ?_ ?_ rfl rfl rfl rfl
  · intro hn
    have hne : Conn.handle t ≠ .handle n := fun h => ht (h ▸ hn)
    obtain ⟨σ, hσ, hfit⟩ := hi.fits _ hn
    have hfit' : Fits (.handle t) σ := by
      cases σ with
      | user x => trivial
      | toSelf d => exact hfit
    exact ⟨σ, (slot_assign_self hne).trans hσ, hfit'⟩
  · intro d hd
    have hswap : Equiv.swap (Conn.handle n) (.handle t) (.parent d) = .parent d :=
      Equiv.swap_apply_of_ne_of_ne nofun nofun
    rw [mem_assign, hswap] at hd
    exact hi.notSelf d hd

theorem adopt_of_none (h : s.slot (.parent b) = none) : s.adopt a b = s := by
  rw [adopt, if_neg (not_not.2 h)]

theorem adopt_of_some (h : s.slot (.parent b) ≠ none) : s.adopt a b =
    { s.assign (.parent a) (.parent b) with
      slot := Function.update (s.assign (.parent a) (.parent b)).slot (.parent a)
        (some (.toSelf a)) } := by
  rw [adopt, if_pos h]

theorem mem_adopt (h : s.slot (.parent b) ≠ none) : x ∈ (s.adopt a b).connections d ↔
    Equiv.swap (.parent b) (.parent a) x ∈ s.connections d := by
  rw [adopt_of_some h]
  exact mem_assign

theorem frames_adopt (hf : s.frames = []) : (s.adopt a b).frames = [] := by
  by_cases h : s.slot (.parent b) = none
  · rw [adopt_of_none h, hf]
  · rw [adopt_of_some h]
    exact frames_assign hf

theorem linked_adopt (hf : s.frames = []) (h : s.slot (.parent b) ≠ none) :
    (s.adopt a b).Linked x ↔ s.Linked (Equiv.swap (.parent b) (.parent a) x) := by
  rw [linked_of_idle (frames_adopt hf), linked_of_idle hf]
  exact exists_congr fun d => mem_adopt h

/-- **An object that is in no list takes over the parent of another one.** -/
theorem Inv.adopt (hi : Inv s) (hf : s.frames = []) (ha : ¬ s.Linked (.parent a))
    (hlt : a < s.nextObject) (hab : .parent b ∉ s.connections a) : Inv (s.adopt a b) := by
  by_cases h : s.slot (.parent b) = none
  · rwa [adopt_of_none h]
  · have hm := fun d x => mem_adopt (a := a) (d := d) (x := x) h
    have hfr : (s.adopt a b).frames = [] := frames_adopt hf
    rw [adopt_of_some h] at hm hfr ⊢
    refine hi.replace ha hlt hfr hm ?_ ?_ ?_ rfl rfl rfl rfl
    · intro x hxa hxb
      exact (Function.update_of_ne hxa _ _).trans (slot_assign hxa hxb)
    · exact fun _ => ⟨.toSelf a, Function.update_self _ _ _, rfl⟩
    · intro d hd
      rw [hm] at hd
      by_cases hda : d = a
      · subst hda
        rw [Equiv.swap_apply_right] at hd
        exact hab hd
      · by_cases hdb : d = b
        · subst hdb
          rw [Equiv.swap_apply_left] at hd
          exact ha (linked_of_mem hd)
        · rw [Equiv.swap_apply_of_ne_of_ne (by simpa using hdb) (by simpa using hda)] at hd
          exact hi.notSelf d hd

theorem not_linked_adopt (hi : Inv s) (hf : s.frames = []) (ha : ¬ s.Linked (.parent a)) :
    ¬ (s.adopt a b).Linked (.parent b) := by
  by_cases h : s.slot (.parent b) = none
  · rw [adopt_of_none h]
    exact fun hl => hi.slot_ne_none hl h
  · rwa [linked_adopt hf h, Equiv.swap_apply_left]

theorem mem_adopt_parent (hi : Inv s) (ha : ¬ s.Linked (.parent a)) :
    .parent a ∈ (s.adopt a b).connections d ↔ .parent b ∈ s.connections d := by
  by_cases h : s.slot (.parent b) = none
  · rw [adopt_of_none h]
    exact iff_of_false (fun hl => ha (linked_of_mem hl))
      fun hl => hi.slot_ne_none (linked_of_mem hl) h
  · rw [mem_adopt h, Equiv.swap_apply_right]

/-- The state in which a new object takes over the parent of `b`. -/
def moved (b : ℕ) (s : Cancels) : Cancels :=
  { s.newObject with
    connections :=
      Function.update (Function.update s.connections s.nextObject (s.connections b)) b []
    callCount := Function.update (Function.update s.callCount s.nextObject (s.callCount b)) b 0 }

theorem mem_moved (hb : b < s.nextObject) : x ∈ (s.moved b).connections d ↔
    d = s.nextObject ∧ x ∈ s.connections b ∨ d ≠ s.nextObject ∧ d ≠ b ∧ x ∈ s.connections d := by
  by_cases hdb : d = b
  · subst hdb
    simp [moved, Nat.ne_of_lt hb]
  · by_cases hd : d = s.nextObject
    · subst hd
      simp [moved, hdb]
    · simp [moved, hdb, hd]

theorem Inv.moved (hi : Inv s) (hb : b < s.nextObject) : Inv (s.moved b) := by
  refine hi.newObject.relist ?_ ?_ ?_
  · intro d c hc
    rcases (mem_moved hb).1 hc with ⟨-, hc⟩ | ⟨-, -, hc⟩
    · exact ⟨b, hc⟩
    · exact ⟨d, hc⟩
  · intro d hd
    refine List.eq_nil_iff_forall_not_mem.2 fun c hc => ?_
    rcases (mem_moved hb).1 hc with ⟨rfl, -⟩ | ⟨-, -, hc⟩
    · exact Nat.not_succ_le_self _ hd
    · rw [hi.empty d (Nat.le_of_succ_le hd)] at hc
      cases hc
  · intro d hd
    rcases (mem_moved hb).1 hd with ⟨rfl, hd⟩ | ⟨-, -, hd⟩
    · exact Nat.lt_irrefl _ (hi.old _ (linked_of_mem hd))
    · exact hi.notSelf d hd

/-- The new object is in no list, and `b` is not in the list of the new one. -/
theorem Inv.moved_free (hi : Inv s) (hf : s.frames = []) (hb : b < s.nextObject) :
    ¬ (s.moved b).Linked (.parent s.nextObject) ∧
      .parent b ∉ (s.moved b).connections s.nextObject := by
  constructor
  · intro h
    obtain ⟨d, hd⟩ := (linked_of_idle (s := s.moved b) hf).1 h
    rcases (mem_moved hb).1 hd with ⟨-, hd⟩ | ⟨-, -, hd⟩
    · exact Nat.lt_irrefl _ (hi.old _ (linked_of_mem hd))
    · exact Nat.lt_irrefl _ (hi.old _ (linked_of_mem hd))
  · intro h
    rcases (mem_moved hb).1 h with ⟨-, h⟩ | ⟨h, -⟩
    · exact hi.notSelf b h
    · exact h rfl

/-- The state in which `a` takes over the parent of `b`. -/
def swapped (a b : ℕ) (s : Cancels) : Cancels :=
  { s with
    connections :=
      Function.update (Function.update s.connections a (s.connections b)) b (s.connections a)
    callCount := Function.update (Function.update s.callCount a (s.callCount b)) b 0 }

theorem connections_swapped :
    (s.swapped a b).connections d = s.connections (Equiv.swap a b d) := by
  by_cases hdb : d = b
  · subst hdb
    rw [Equiv.swap_apply_right]
    exact Function.update_self _ _ _
  · refine (Function.update_of_ne hdb _ _).trans ?_
    by_cases hda : d = a
    · subst hda
      rw [Equiv.swap_apply_left, Function.update_self]
    · rw [Equiv.swap_apply_of_ne_of_ne hda hdb, Function.update_of_ne hda]

theorem linked_swapped : (s.swapped a b).Linked c ↔ s.Linked c := by
  refine or_congr_left ?_
  simp only [connections_swapped]
  exact (Equiv.swap a b).surjective.exists (p := fun d => c ∈ s.connections d) |>.symm

theorem Inv.swapped (hi : Inv s) (ha : ¬ s.Linked (.parent a)) (hab : .parent b ∉ s.connections a)
    (hla : a < s.nextObject) (hlb : b < s.nextObject) : Inv (s.swapped a b) := by
  refine hi.relist ?_ ?_ ?_
  · intro d c hc
    change _ ∈ (s.swapped a b).connections d at hc
    exact ⟨_, connections_swapped ▸ hc⟩
  · intro d hd
    refine connections_swapped.trans ?_
    rw [Equiv.swap_apply_of_ne_of_ne (Nat.ne_of_gt (Nat.lt_of_lt_of_le hla hd))
      (Nat.ne_of_gt (Nat.lt_of_lt_of_le hlb hd)), hi.empty d hd]
  · intro d hd
    change _ ∈ (s.swapped a b).connections d at hd
    rw [connections_swapped] at hd
    by_cases hdb : d = b
    · subst hdb
      rw [Equiv.swap_apply_right] at hd
      exact hab hd
    · by_cases hda : d = a
      · subst hda
        exact ha (linked_of_mem hd)
      · rw [Equiv.swap_apply_of_ne_of_ne hda hdb] at hd
        exact hi.notSelf d hd

/-! ## Every step -/

theorem linked_of_rest {f : Frame} {fs : List Frame} {rest : List Conn} (hf : s.frames = f :: fs)
    (hl : f.rest = c :: rest) : s.Linked c := by
  refine .inr ⟨f, hf ▸ List.mem_cons_self, ?_⟩
  rw [Frame.conns, hl]
  exact List.mem_append_right _ List.mem_cons_self

/-- **A tidy step keeps the invariant.** -/
theorem Inv.step (hi : Inv s) (ht : Tidy s act) (h : Took s act s' es) : Inv s' := by
  cases h with
  | newHandle _ => exact hi.newHandle
  | newObject _ => exact hi.newObject
  | newChild _ hp => exact hi.newChild hp
  | connect hd => exact hi.connect hd
  | destroyHandle _ ha => exact hi.destroyHandle ha
  | destroyObject _ ha _ => exact hi.destroyObject ha
  | @moveHandle n hf hn =>
    refine hi.newHandle.assignHandle hf ?_ (Nat.lt_succ_self _)
    exact fun h => Nat.lt_irrefl _ (hi.old _ h)
  | assignHandle hf htn _ => exact hi.assignHandle hf ht (hi.handles _ htn)
  | moveObject hf hb =>
    have hlt := hi.objects _ hb
    obtain ⟨hfree, hself⟩ := hi.moved_free hf hlt
    exact (hi.moved hlt).adopt hf hfree (Nat.lt_succ_self _) hself
  | @assignObject a b hf ha hb =>
    have hla := hi.objects _ ha
    refine (hi.swapped ht.1 ht.2 hla (hi.objects _ hb)).adopt hf (mt linked_swapped.1 ht.1) hla ?_
    rw [connections_swapped, Equiv.swap_apply_left]
    exact hi.notSelf b
  | fire _ =>
    exact Inv.enter (s := { s with nextFiring := s.nextFiring + 1 }) (hi.frames fun _ h => h)
  | ended hf _ _ =>
    refine hi.frames fun c hc => ?_
    rw [hf, List.exists_mem_cons_iff]
    exact .inr (mem_resumed hc)
  | callsNothing hf _ hl hs => exact absurd hs (hi.slot_ne_none (linked_of_rest hf hl))
  | callsUser hf hr hl _ =>
    refine hi.frames fun c hc => ?_
    rw [hf, List.exists_mem_cons_iff]
    rwa [List.exists_mem_cons_iff, conns_take hr hl] at hc
  | callsSelf hf hr hl _ =>
    refine Inv.enter (hi.frames fun c hc => ?_)
    rw [hf, List.exists_mem_cons_iff]
    rwa [List.exists_mem_cons_iff, conns_take hr hl] at hc
  | «return» hf _ =>
    refine hi.frames fun c hc => ?_
    rw [hf, List.exists_mem_cons_iff]
    rwa [List.exists_mem_cons_iff, conns_passed] at hc

theorem movedConn_of_movedObject (h : act.movedObject = some b) :
    act.movedConn = some (.parent b) := by
  cases act <;> simp_all [Action.movedObject, Action.movedConn]

/-- **What was moved from is in no list after a tidy step.** -/
theorem not_linked_of_moved (hi : Inv s) (ht : Tidy s act) (h : Took s act s' es)
    (hc : act.movedConn = some c) : ¬ s'.Linked c := by
  cases h with
  | newHandle _ | newObject _ | newChild _ _ | connect _ | destroyHandle _ _
  | destroyObject _ _ _ | fire _ | ended _ _ _ | callsNothing _ _ _ _ | callsUser _ _ _ _
  | callsSelf _ _ _ _ | «return» _ _ => cases hc
  | moveHandle hf hn =>
    cases hc
    rw [moveHandle, linked_assign (s := s.newHandle) hf, Equiv.swap_apply_left]
    exact fun h => Nat.lt_irrefl _ (hi.old _ h)
  | assignHandle hf _ _ =>
    cases hc
    rw [linked_assign hf, Equiv.swap_apply_left]
    exact ht
  | moveObject hf hb =>
    cases hc
    have hlt := hi.objects _ hb
    exact not_linked_adopt (hi.moved hlt) hf (hi.moved_free hf hlt).1
  | assignObject hf ha hb =>
    cases hc
    exact not_linked_adopt (hi.swapped ht.1 ht.2 (hi.objects _ ha) (hi.objects _ hb)) hf
      (mt linked_swapped.1 ht.1)

/-- **An object that is assigned to is attached where its source was.** -/
theorem attached_of_tidy (hi : Inv s) (ha : a ∈ s.objects)
    (hb : b ∈ s.objects) (ht : Tidy s (.assignObject a b)) (p : ℕ) :
    .parent a ∈ (s.assignObject a b).connections p ↔ .parent b ∈ s.connections p := by
  have hi' := hi.swapped ht.1 ht.2 (hi.objects _ ha) (hi.objects _ hb)
  refine (mem_adopt_parent hi' (mt linked_swapped.1 ht.1)).trans ?_
  rw [connections_swapped]
  -- the two lists that were swapped have no connection of `b`
  by_cases hpa : p = a
  · subst hpa
    rw [Equiv.swap_apply_left]
    exact iff_of_false (hi.notSelf b) ht.2
  · by_cases hpb : p = b
    · subst hpb
      rw [Equiv.swap_apply_right]
      exact iff_of_false ht.2 (hi.notSelf p)
    · rw [Equiv.swap_apply_of_ne_of_ne hpa hpb]

/-- **Tidy steps do what they are to do.** -/
theorem holds_of_tidy (hi : Inv s) (ht : Tidy s act) (h : Took s act s' es) :
    Holds s act (s', es) := by
  have hi' := hi.step ht h
  constructor
  · exact fun c hc => hi'.slot_ne_none hc
  · exact fun c hc => not_linked_of_moved hi ht h hc
  · intro b hb c hc hs
    obtain ⟨σ, hσ, hfit⟩ := hi'.fits c hc
    cases hσ.symm.trans hs
    cases c with
    | handle n => exact hfit
    | parent d =>
      have hdb : d = b := hfit
      exact not_linked_of_moved hi ht h (movedConn_of_movedObject hb) (hdb ▸ hc)
  · rintro a b rfl p
    cases h with
    | assignObject _ ha hb => exact attached_of_tidy hi ha hb ht p
  · intro c hc
    cases h with
    | newHandle _ | newObject _ | newChild _ _ | connect _ | destroyHandle _ _
    | destroyObject _ _ _ | moveHandle _ _ | assignHandle _ _ _ | moveObject _ _
    | assignObject _ _ _ | fire _ | ended _ _ _ | «return» _ _ => cases hc
    | callsNothing hf _ hl hs => exact hi.slot_ne_none (linked_of_rest hf hl) hs
    | callsUser _ _ _ _ | callsSelf _ _ _ _ => cases List.mem_singleton.1 hc

/-- **Other assignments do not.** -/
theorem tidy_of_holds (hi : Inv s) (h : Took s act s' es) (hh : Holds s act (s', es)) :
    Tidy s act := by
  cases h with
  | newHandle _ | newObject _ | newChild _ _ | connect _ | destroyHandle _ _
  | destroyObject _ _ _ | fire _ | ended _ _ _ | callsNothing _ _ _ _ | callsUser _ _ _ _
  | callsSelf _ _ _ _ | «return» _ _ | moveHandle _ _ | moveObject _ _ => trivial
  | assignHandle hf _ _ =>
    -- a linked target leaves its place to the source
    intro ht
    refine hh.movedConn _ rfl ?_
    rwa [linked_assign hf, Equiv.swap_apply_left]
  | @assignObject a b hf ha hb =>
    have hmoved := hh.movedConn _ rfl
    have hatt := hh.attached a b rfl
    by_cases hs : s.slot (.parent b) = none
    · have hnb : ∀ p, .parent b ∉ s.connections p := fun p h => hi.slot_ne_none (linked_of_mem h) hs
      refine ⟨fun hl => ?_, hnb a⟩
      obtain ⟨d, hd⟩ := (linked_of_idle (s := s.swapped a b) hf).1 (linked_swapped.2 hl)
      have heq : s.assignObject a b = s.swapped a b := adopt_of_none (s := s.swapped a b) hs
      rw [← heq] at hd
      exact hnb d ((hatt d).1 hd)
    · have hna : ¬ s.Linked (.parent a) := by
        intro hl
        refine hmoved ((linked_adopt (s := s.swapped a b) hf hs).2 ?_)
        rwa [Equiv.swap_apply_left, linked_swapped]
      refine ⟨hna, fun hb' => hi.notSelf b ((hatt b).1 ?_)⟩
      refine (mem_adopt (s := s.swapped a b) hs).2 ?_
      rwa [Equiv.swap_apply_right, connections_swapped, Equiv.swap_apply_right]

/-- **The lists stay in order, through every operation on connections and objects and
    every call of an object, exactly in the runs whose assignments are tidy.** -/
theorem moves_iff {as : List Action} (h : machine.Run as es s) :
    machine.Steps Holds machine.init as ↔ machine.Meets Tidy machine.init as := by
  refine (h.steps_iff_meets (I := Inv) (C := Tidy) Inv.init ?_ ?_).1
  · rintro s act ⟨s', es⟩ hi hstep
    have htook := took_of_step hstep
    exact ⟨tidy_of_holds hi htook, fun ht => holds_of_tidy hi ht htook⟩
  · rintro s act ⟨s', es⟩ hi ht hstep
    exact hi.step ht (took_of_step hstep)

/-- A connection and a child are moved to where there is none. -/
def tidyMoves : List Action :=
  [.newObject, .connect 0, .newHandle, .assignHandle 1 0, .newChild 0, .newObject,
    .assignObject 2 1, .fire 0, .next, .return, .next, .next, .next]

theorem holds_tidyMoves : ∃ es s, machine.Run tidyMoves es s ∧
    machine.Steps Holds machine.init tidyMoves := by
  obtain ⟨es, s, h⟩ : ∃ es s, machine.Run tidyMoves es s :=
    ⟨_, _, (rfl : machine.runFrom machine.init tidyMoves = some (_, _))⟩
  refine ⟨es, s, h, (moves_iff h).2 ?_⟩
  refine .cons rfl trivial (.cons rfl trivial (.cons rfl trivial (.cons rfl ?_ (.cons rfl trivial
    (.cons rfl trivial (.cons rfl ⟨?_, ?_⟩ (.cons rfl trivial (.cons rfl trivial (.cons rfl trivial
    (.cons rfl trivial (.cons rfl trivial (.cons rfl trivial trivial))))))))))))
  · rintro (⟨_ | d, hd⟩ | ⟨f, hf, -⟩)
    · revert hd
      decide
    · cases hd
    · cases hf
  · rintro (⟨_ | d, hd⟩ | ⟨f, hf, -⟩)
    · revert hd
      decide
    · cases hd
    · cases hf
  · exact List.not_mem_nil

/-- The two connections of an object, one assigned to the other. -/
def assignLinked : List Action :=
  [.newObject, .connect 0, .connect 0, .assignHandle 0 1, .fire 0, .next]

/-- The two children of an object, one assigned to the other. -/
def assignSibling : List Action :=
  [.newObject, .newChild 0, .newChild 0, .assignObject 1 2, .fire 0, .next]

/-- An object without a parent, assigned to a child. -/
def assignRoot : List Action := [.newObject, .newChild 0, .newObject, .assignObject 1 2]

/-- What is assigned to leaves its place in the list to the empty slot of the source, or
    keeps it although the source has none. -/
theorem not_holds_assigned :
    (∃ es s, machine.Run assignLinked es s ∧ .badFunctionCall (.handle 1) ∈ es) ∧
    ¬ machine.Steps Holds machine.init assignLinked ∧
    (∃ es s, machine.Run assignSibling es s ∧ .badFunctionCall (.parent 2) ∈ es) ∧
    ¬ machine.Steps Holds machine.init assignSibling ∧
    (∃ es s, machine.Run assignRoot es s ∧ .parent 1 ∈ s.connections 0) ∧
    ¬ machine.Steps Holds machine.init assignRoot := by
  refine ⟨⟨[.badFunctionCall (.handle 1)], _, rfl, by decide⟩, ?_,
    ⟨[.badFunctionCall (.parent 2)], _, rfl, by decide⟩, ?_, ⟨[], _, rfl, by decide⟩, ?_⟩
  · intro h
    have hlast := ((((((h _ rfl).2 _ rfl).2 _ rfl).2 _ rfl).2 _ rfl).2 _ rfl).1
    exact hlast.called (.handle 1) (by decide)
  · intro h
    have hlast := ((((((h _ rfl).2 _ rfl).2 _ rfl).2 _ rfl).2 _ rfl).2 _ rfl).1
    exact hlast.called (.parent 2) (by decide)
  · intro h
    have hlast := ((((h _ rfl).2 _ rfl).2 _ rfl).2 _ rfl).1
    exact absurd ((hlast.attached 1 2 rfl 0).1 (by decide)) (by decide)

end Cancels

end Upnp
