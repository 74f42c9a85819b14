/-
  Each connection is in one list, each slot in one connection, and the parents of the
  `cancel_t` objects form a forest, as long as nothing is assigned.

  * `Single`, `Slots` and `Forest` say so, and every step that assigns nothing keeps them
    (`Sound.step`);
  * `sound_of_run`: no slot is ever called twice.
-/
import Upnp.CancelMoves

namespace Upnp

open Lib

namespace Cancels

variable {s s' : Cancels} {a b d e : ℕ} {c x : Conn} {act : Action} {es : List Event}

/-- The action is a move assignment. -/
def Action.Assigns : Action → Prop
  | .assignHandle _ _ | .assignObject _ _ => True
  | _ => False

theorem tidy_of_not_assigns (h : ¬ act.Assigns) : Tidy s act := by
  cases act with
  | assignHandle _ _ | assignObject _ _ => exact absurd trivial h
  | newHandle | newObject | newChild _ | connect _ | destroyHandle _ | destroyObject _
  | moveHandle _ | moveObject _ | fire _ | next | «return» => trivial

/-! ## One list for each connection -/

/-- All connections in the lists of the calls. -/
def framed (fs : List Frame) : List Conn := fs.flatMap Frame.conns

structure Single (s : Cancels) : Prop where
  nodup : ∀ d, (s.connections d).Nodup
  apart : ∀ d e c, c ∈ s.connections d → c ∈ s.connections e → d = e
  frames : (framed s.frames).Nodup
  outside : ∀ d, ∀ c ∈ s.connections d, c ∉ framed s.frames

theorem mem_framed {fs : List Frame} : c ∈ framed fs ↔ ∃ f ∈ fs, c ∈ f.conns := List.mem_flatMap

theorem Single.init : Single init where
  nodup _ := List.nodup_nil
  apart := nofun
  frames := List.nodup_nil
  outside := nofun

/-- Shorter lists. -/
theorem Single.mono (hs : Single s) (hc : ∀ d, (s'.connections d).Sublist (s.connections d))
    (hf : (framed s'.frames).Sublist (framed s.frames)) : Single s' where
  nodup d := (hs.nodup d).sublist (hc d)
  apart d e c hd he := hs.apart d e c ((hc d).subset hd) ((hc e).subset he)
  frames := hs.frames.sublist hf
  outside d c h hcf := hs.outside d c ((hc d).subset h) (hf.subset hcf)

theorem framed_resumed (fs : List Frame) : framed (resumed fs) = framed fs := by
  cases fs with
  | nil => rfl
  | cons f fs =>
    simp only [resumed]
    split
    · simp only [framed, List.flatMap_cons, conns_passed]
    · rfl

theorem framed_unlink_sublist (c : Conn) (fs : List Frame) :
    (framed (fs.map fun f =>
      { f with called := f.called.filter (· ≠ c), rest := f.rest.filter (· ≠ c) })).Sublist
      (framed fs) := by
  induction fs with
  | nil => exact List.Sublist.refl _
  | cons f fs ih =>
    simp only [List.map_cons, framed, List.flatMap_cons]
    exact ((List.filter_sublist.append (List.Sublist.refl _)).append List.filter_sublist).append ih

theorem Single.unlink (hs : Single s) (c : Conn) : Single (s.unlink c) :=
  hs.mono (fun _ => List.filter_sublist) (framed_unlink_sublist c s.frames)

theorem Single.connectTo {σ : Slot} (hs : Single s) (hn : ¬ s.Linked c) :
    Single (s.connectTo d c σ) := by
  have hc : ∀ e, c ∉ s.connections e := fun e h => hn (linked_of_mem h)
  constructor
  · intro e
    by_cases h : e = d
    · subst h
      rw [connectTo_connections, Function.update_self]
      refine List.nodup_append.2 ⟨hs.nodup e, List.nodup_singleton c, ?_⟩
      intro x hx y hy
      rw [List.mem_singleton.1 hy]
      rintro rfl
      exact hc e hx
    · rw [connectTo_connections, Function.update_of_ne h]
      exact hs.nodup e
  · intro e e' x he he'
    rcases mem_connectTo.1 he with h | ⟨hed, hx⟩
    · rcases mem_connectTo.1 he' with h' | ⟨-, hx⟩
      · exact hs.apart e e' x h h'
      · exact absurd (hx ▸ h) (hc e)
    · rcases mem_connectTo.1 he' with h' | ⟨hed', -⟩
      · exact absurd (hx ▸ h') (hc e')
      · exact hed.trans hed'.symm
  · exact hs.frames
  · intro e x hx hf
    rcases mem_connectTo.1 hx with hx | ⟨rfl, rfl⟩
    · exact hs.outside e x hx hf
    · exact hn (.inr (mem_framed.1 hf))

theorem Single.enter {n : ℕ} (hs : Single s) : Single (s.enter n d) := by
  have hconns : framed (s.enter n d).frames = s.connections d ++ framed s.frames := rfl
  constructor
  · intro e
    by_cases h : e = d
    · subst h
      rw [enter_connections, Function.update_self]
      exact List.nodup_nil
    · rw [enter_connections, Function.update_of_ne h]
      exact hs.nodup e
  · exact fun e e' x he he' => hs.apart e e' x (mem_enter.1 he).1 (mem_enter.1 he').1
  · rw [hconns]
    refine List.nodup_append.2 ⟨hs.nodup d, hs.frames, ?_⟩
    rintro x hx y hy rfl
    exact hs.outside d x hx hy
  · intro e x hx hf
    obtain ⟨hx, hne⟩ := mem_enter.1 hx
    rw [hconns, List.mem_append] at hf
    rcases hf with hf | hf
    · exact hne (hs.apart e d x hx hf)
    · exact hs.outside e x hx hf

/-- With nothing called, only the lists of the objects count. -/
theorem Single.of_idle (hf : s.frames = []) (hn : ∀ d, (s.connections d).Nodup)
    (ha : ∀ d e c, c ∈ s.connections d → c ∈ s.connections e → d = e) : Single s where
  nodup := hn
  apart := ha
  frames := by
    rw [hf]
    exact List.nodup_nil
  outside d c _ h := by
    rw [hf] at h
    cases h

theorem Single.assign {o : Conn} (hs : Single s) (hf : s.frames = []) : Single (s.assign c o) := by
  refine .of_idle (frames_assign hf) ?_ ?_
  · exact fun d => (hs.nodup d).map (Equiv.injective _)
  · exact fun d e x hd he => hs.apart d e _ (mem_assign.1 hd) (mem_assign.1 he)

theorem Single.adopt (hs : Single s) (hf : s.frames = []) : Single (s.adopt a b) := by
  by_cases h : s.slot (.parent b) = none
  · rwa [adopt_of_none h]
  · have ha : Single (s.assign (.parent a) (.parent b)) := hs.assign hf
    rw [adopt_of_some h]
    exact ⟨ha.nodup, ha.apart, ha.frames, ha.outside⟩

theorem Single.moved (hs : Single s) (hf : s.frames = []) (hb : b < s.nextObject) :
    Single (s.moved b) := by
  refine .of_idle hf ?_ ?_
  · intro d
    change (Function.update (Function.update s.connections _ _) b [] d).Nodup
    by_cases hdb : d = b
    · subst hdb
      rw [Function.update_self]
      exact List.nodup_nil
    · rw [Function.update_of_ne hdb]
      by_cases hd : d = s.nextObject
      · subst hd
        rw [Function.update_self]
        exact hs.nodup b
      · rw [Function.update_of_ne hd]
        exact hs.nodup d
  · intro d e x hd he
    rcases (mem_moved hb).1 hd with ⟨hdn, hx⟩ | ⟨-, hdb, hx⟩
    · rcases (mem_moved hb).1 he with ⟨hen, -⟩ | ⟨-, heb, hx'⟩
      · exact hdn.trans hen.symm
      · exact absurd (hs.apart _ _ x hx' hx) heb
    · rcases (mem_moved hb).1 he with ⟨-, hx'⟩ | ⟨-, -, hx'⟩
      · exact absurd (hs.apart _ _ x hx hx') hdb
      · exact hs.apart d e x hx hx'

/-! ## One connection for each slot -/

structure Slots (s : Cancels) : Prop where
  old : ∀ c, s.slot c ≠ none → s.Old c
  parent : ∀ d x, s.slot (.parent d) ≠ some (.user x)
  holder : ∀ c c' x, s.slot c = some (.user x) → s.slot c' = some (.user x) → c = c'
  fresh : ∀ c x, s.slot c = some (.user x) → x < s.nextSlot

theorem Slots.init : Slots init where
  old _ h := absurd rfl h
  parent _ _ := nofun
  holder := nofun
  fresh := nofun

theorem Old.mono (hc : s.Old c) (ho : s.nextObject ≤ s'.nextObject)
    (hh : s.nextHandle ≤ s'.nextHandle) : s'.Old c := by
  cases c with
  | handle n => exact Nat.lt_of_lt_of_le hc hh
  | parent d => exact Nat.lt_of_lt_of_le hc ho

/-- **The slots of the program stay with their connections, or move with them.** -/
theorem Slots.of_user (hs : Slots s) (hold : ∀ c, s'.slot c ≠ none → s'.Old c)
    (hp : ∀ d x, s'.slot (.parent d) ≠ some (.user x)) {τ : Conn → Conn}
    (hτ : ∀ c x, s'.slot c = some (.user x) → s.slot (τ c) = some (.user x))
    (hinj : ∀ c c', s'.slot c ≠ none → s'.slot c' ≠ none → τ c = τ c' → c = c')
    (hn : s.nextSlot ≤ s'.nextSlot) : Slots s' where
  old := hold
  parent := hp
  holder c c' x hc hc' := by
    refine hinj c c' ?_ ?_ (hs.holder _ _ x (hτ c x hc) (hτ c' x hc'))
    · rw [hc]
      nofun
    · rw [hc']
      nofun
  fresh c x hc := Nat.lt_of_lt_of_le (hs.fresh _ x (hτ c x hc)) hn

theorem Slots.mono (hs : Slots s) (h : s'.slot = s.slot) (ho : s.nextObject ≤ s'.nextObject)
    (hh : s.nextHandle ≤ s'.nextHandle) (hn : s.nextSlot ≤ s'.nextSlot) : Slots s' := by
  refine hs.of_user (τ := id) ?_ ?_ ?_ (fun _ _ _ _ h => h) hn
  · intro c hc
    rw [h] at hc
    exact (hs.old c hc).mono ho hh
  · intro d x
    rw [h]
    exact hs.parent d x
  · intro c x hc
    rwa [h] at hc

theorem Slots.newChild (hs : Slots s) : Slots (s.newChild a) := by
  have hslot : (s.newChild a).slot =
      Function.update s.slot (.parent s.nextObject) (some (.toSelf s.nextObject)) := rfl
  refine hs.of_user (τ := id) ?_ ?_ ?_ (fun _ _ _ _ h => h) (Nat.le_refl _)
  · intro c hc
    by_cases h : c = .parent s.nextObject
    · subst h
      exact Nat.lt_succ_self _
    · rw [hslot, Function.update_of_ne h] at hc
      exact (hs.old c hc).mono (Nat.le_succ _) (Nat.le_refl _)
  · intro d x hd
    by_cases h : Conn.parent d = .parent s.nextObject
    · rw [hslot, h, Function.update_self] at hd
      cases hd
    · rw [hslot, Function.update_of_ne h] at hd
      exact hs.parent d x hd
  · intro c x hc
    by_cases h : c = .parent s.nextObject
    · rw [hslot, h, Function.update_self] at hc
      cases hc
    · rwa [hslot, Function.update_of_ne h] at hc

theorem Slots.connect (hs : Slots s) : Slots (s.connect d) := by
  have hslot : (s.connect d).slot =
      Function.update s.slot (.handle s.nextHandle) (some (.user s.nextSlot)) := rfl
  have hcases : ∀ c x, (s.connect d).slot c = some (.user x) →
      c = .handle s.nextHandle ∧ x = s.nextSlot ∨ s.slot c = some (.user x) := by
    intro c x hc
    by_cases h : c = .handle s.nextHandle
    · rw [hslot, h, Function.update_self] at hc
      cases hc
      exact .inl ⟨h, rfl⟩
    · rw [hslot, Function.update_of_ne h] at hc
      exact .inr hc
  constructor
  · intro c hc
    by_cases h : c = .handle s.nextHandle
    · subst h
      exact Nat.lt_succ_self _
    · rw [hslot, Function.update_of_ne h] at hc
      exact (hs.old c hc).mono (Nat.le_refl _) (Nat.le_succ _)
  · intro e x he
    rcases hcases _ x he with ⟨h, -⟩ | h
    · cases h
    · exact hs.parent e x h
  · intro c c' x hc hc'
    rcases hcases c x hc with ⟨h, hx⟩ | h
    · rcases hcases c' x hc' with ⟨h', -⟩ | h'
      · exact h.trans h'.symm
      · exact absurd (hx ▸ hs.fresh c' x h') (Nat.lt_irrefl _)
    · rcases hcases c' x hc' with ⟨-, hx⟩ | h'
      · exact absurd (hx ▸ hs.fresh c x h) (Nat.lt_irrefl _)
      · exact hs.holder c c' x h h'
  · intro c x hc
    rcases hcases c x hc with ⟨-, rfl⟩ | h
    · exact Nat.lt_succ_self _
    · exact Nat.lt_succ_of_lt (hs.fresh c x h)

theorem slot_moveHandle {n : ℕ} (hn : n < s.nextHandle) :
    (s.moveHandle n).slot (.handle n) = none ∧
    (s.moveHandle n).slot (.handle s.nextHandle) = s.slot (.handle n) ∧
    ∀ c, c ≠ .handle n → c ≠ .handle s.nextHandle → (s.moveHandle n).slot c = s.slot c := by
  have hne : Conn.handle s.nextHandle ≠ .handle n := by
    intro h
    cases h
    exact Nat.lt_irrefl _ hn
  refine ⟨Function.update_self _ _ _, ?_, ?_⟩
  · rw [moveHandle, slot_assign_self hne]
    rfl
  · intro c hc hc'
    rw [moveHandle, slot_assign hc' hc]
    rfl

theorem Slots.moveHandle {n : ℕ} (hs : Slots s) (hn : n < s.nextHandle) :
    Slots (s.moveHandle n) := by
  obtain ⟨hfrom, hto, hother⟩ := slot_moveHandle hn
  have hcases : ∀ c, (s.moveHandle n).slot c ≠ none → c ≠ .handle n ∧
      (s.moveHandle n).slot c =
        s.slot (if c = .handle s.nextHandle then .handle n else c) := by
    intro c hc
    have hcn : c ≠ .handle n := by
      rintro rfl
      exact hc hfrom
    refine ⟨hcn, ?_⟩
    split
    · rename_i h
      rw [h, hto]
    · rename_i h
      exact hother c hcn h
  refine hs.of_user (τ := fun c => if c = .handle s.nextHandle then .handle n else c)
    ?_ ?_ ?_ ?_ (Nat.le_refl _)
  · intro c hc
    by_cases h : c = .handle s.nextHandle
    · subst h
      exact Nat.lt_succ_self _
    · obtain ⟨-, hslot⟩ := hcases c hc
      rw [if_neg h] at hslot
      exact (hs.old c (hslot ▸ hc)).mono (Nat.le_refl _) (Nat.le_succ _)
  · intro d x hd
    have hother := hother (.parent d) nofun nofun
    exact hs.parent d x (hother ▸ hd)
  · intro c x hc
    rw [← (hcases c (by rw [hc]; nofun)).2, hc]
  · intro c c' hc hc' h
    obtain ⟨hcn, -⟩ := hcases c hc
    obtain ⟨hcn', -⟩ := hcases c' hc'
    split at h
    · rename_i hf
      split at h
      · rename_i hf'
        exact hf.trans hf'.symm
      · exact absurd h.symm hcn'
    · split at h
      · exact absurd h hcn
      · exact h

/-- `adopt` makes no slot but the `call_to_self()` of `a`. -/
theorem slot_adopt {σ : Slot} (h : (s.adopt a b).slot c = some σ) :
    c = .parent a ∧ σ = .toSelf a ∨ s.slot c = some σ := by
  by_cases hb : s.slot (.parent b) = none
  · rw [adopt_of_none hb] at h
    exact .inr h
  · by_cases hca : c = .parent a
    · subst hca
      have hself : (s.adopt a b).slot (.parent a) = some (.toSelf a) := by
        rw [adopt_of_some hb]
        exact Function.update_self _ _ _
      rw [hself] at h
      cases h
      exact .inl ⟨rfl, rfl⟩
    · have hne : (s.adopt a b).slot c = (s.assign (.parent a) (.parent b)).slot c := by
        rw [adopt_of_some hb]
        exact Function.update_of_ne hca _ _
      rw [hne] at h
      by_cases hcb : c = .parent b
      · subst hcb
        have hnone : (s.assign (.parent a) (.parent b)).slot (.parent b) = none :=
          Function.update_self _ _ _
        rw [hnone] at h
        cases h
      · rw [slot_assign hca hcb] at h
        exact .inr h

theorem adopt_nexts : (s.adopt a b).nextObject = s.nextObject ∧
    (s.adopt a b).nextHandle = s.nextHandle ∧ (s.adopt a b).nextSlot = s.nextSlot := by
  by_cases h : s.slot (.parent b) = none
  · rw [adopt_of_none h]
    exact ⟨rfl, rfl, rfl⟩
  · rw [adopt_of_some h]
    exact ⟨rfl, rfl, rfl⟩

theorem Slots.moveObject (hs : Slots s) : Slots (s.moveObject b) := by
  obtain ⟨ho, hh, hn⟩ : (s.moveObject b).nextObject = s.nextObject + 1 ∧
      (s.moveObject b).nextHandle = s.nextHandle ∧ (s.moveObject b).nextSlot = s.nextSlot :=
    adopt_nexts (s := s.moved b)
  have hslot : ∀ c σ, (s.moveObject b).slot c = some σ →
      c = .parent s.nextObject ∧ σ = .toSelf s.nextObject ∨ s.slot c = some σ :=
    fun c σ h => slot_adopt (s := s.moved b) h
  have huser : ∀ c x, (s.moveObject b).slot c = some (.user x) → s.slot c = some (.user x) := by
    intro c x h
    exact (hslot c _ h).resolve_left fun h => by cases h.2
  refine hs.of_user (τ := id) ?_ ?_ huser (fun _ _ _ _ h => h) (Nat.le_of_eq hn.symm)
  · intro c hc
    obtain ⟨σ, hσ⟩ := Option.ne_none_iff_exists'.1 hc
    rcases hslot c σ hσ with ⟨rfl, -⟩ | h
    · exact Nat.lt_of_lt_of_eq (Nat.lt_succ_self _) ho.symm
    · refine (hs.old c (by rw [h]; nofun)).mono ?_ (Nat.le_of_eq hh.symm)
      exact Nat.le_trans (Nat.le_succ _) (Nat.le_of_eq ho.symm)
  · exact fun d x h => hs.parent d x (huser _ x h)

/-! ## The forest -/

/-- Every object is above its children. -/
def Forest (s : Cancels) : Prop :=
  ∃ rank : ℕ → ℕ, ∀ p e, .parent e ∈ s.connections p → rank p < rank e

theorem Forest.mono (hs : Forest s)
    (h : ∀ p e, .parent e ∈ s'.connections p → .parent e ∈ s.connections p) : Forest s' := by
  obtain ⟨rank, hr⟩ := hs
  exact ⟨rank, fun p e he => hr p e (h p e he)⟩

theorem Forest.newChild (hs : Forest s) (hi : Inv s) (hp : a ∈ s.objects) :
    Forest (s.newChild a) := by
  obtain ⟨rank, hr⟩ := hs
  refine ⟨Function.update rank s.nextObject (rank a + 1), ?_⟩
  have hne : a ≠ s.nextObject := Nat.ne_of_lt (hi.objects a hp)
  intro p e he
  rcases mem_connectTo.1 he with he | ⟨hpa, he⟩
  · -- an old link: neither end is the new child
    have hold : e < s.nextObject := hi.old _ (linked_of_mem he)
    have hp : p ≠ s.nextObject := by
      rintro rfl
      have hnil : s.connections s.nextObject = [] := hi.empty _ (Nat.le_refl _)
      change _ ∈ s.connections s.nextObject at he
      rw [hnil] at he
      cases he
    rw [Function.update_of_ne hp, Function.update_of_ne (Nat.ne_of_lt hold)]
    exact hr p e he
  · cases he
    rw [hpa, Function.update_self, Function.update_of_ne hne]
    exact Nat.lt_succ_self _

/-- The parent of `b` becomes that of `a`, whether there is one or not. -/
theorem mem_adopt_of_free (hi : Inv s) (ha : ¬ s.Linked (.parent a)) :
    x ∈ (s.adopt a b).connections d ↔
      Equiv.swap (.parent b) (.parent a) x ∈ s.connections d := by
  by_cases h : s.slot (.parent b) = none
  · have hb : ¬ s.Linked (.parent b) := fun hl => hi.slot_ne_none hl h
    rw [adopt_of_none h]
    by_cases hxb : x = .parent b
    · rw [hxb, Equiv.swap_apply_left]
      exact iff_of_false (fun h => hb (linked_of_mem h)) fun h => ha (linked_of_mem h)
    · by_cases hxa : x = .parent a
      · rw [hxa, Equiv.swap_apply_right]
        exact iff_of_false (fun h => ha (linked_of_mem h)) fun h => hb (linked_of_mem h)
      · rw [Equiv.swap_apply_of_ne_of_ne hxb hxa]
  · exact mem_adopt h

theorem Forest.moveObject (hs : Forest s) (hi : Inv s) (hf : s.frames = [])
    (hb : b < s.nextObject) : Forest (s.moveObject b) := by
  obtain ⟨rank, hr⟩ := hs
  obtain ⟨hfree, hself⟩ := hi.moved_free hf hb
  refine ⟨Function.update rank s.nextObject (rank b), ?_⟩
  intro p e he
  have hnew : ∀ p, .parent s.nextObject ∉ s.connections p :=
    fun p h => Nat.lt_irrefl _ (hi.old _ (linked_of_mem h))
  have hswap : ∀ p, Equiv.swap (.parent b) (.parent s.nextObject) (.parent e) ∈ s.connections p →
      e = s.nextObject ∧ .parent b ∈ s.connections p ∨
        e ≠ s.nextObject ∧ .parent e ∈ s.connections p := by
    intro p h
    by_cases heb : e = b
    · rw [heb, Equiv.swap_apply_left] at h
      exact absurd h (hnew p)
    · by_cases hen : e = s.nextObject
      · rw [hen, Equiv.swap_apply_right] at h
        exact .inl ⟨hen, h⟩
      · rw [Equiv.swap_apply_of_ne_of_ne (by simpa using heb) (by simpa using hen)] at h
        exact .inr ⟨hen, h⟩
  have hm := (mem_adopt_of_free (hi.moved hb) hfree).1 he
  rcases (mem_moved hb).1 hm with ⟨hp, hm⟩ | ⟨hp, -, hm⟩
  · rw [hp, Function.update_self]
    rcases hswap b hm with ⟨-, hb'⟩ | ⟨hen, he⟩
    · exact absurd hb' (hi.notSelf b)
    · rw [Function.update_of_ne hen]
      exact hr b e he
  · rw [Function.update_of_ne hp]
    rcases hswap p hm with ⟨hen, hb'⟩ | ⟨hen, he⟩
    · rw [hen, Function.update_self]
      exact hr p b hb'
    · rw [Function.update_of_ne hen]
      exact hr p e he

/-! ## Every step -/

/-- What holds as long as nothing is assigned. -/
structure Sound (s : Cancels) : Prop where
  inv : Inv s
  single : Single s
  slots : Slots s
  forest : Forest s

theorem Sound.init : Sound init := ⟨.init, .init, .init, fun _ => 0, nofun⟩

theorem Single.step (hs : Single s) (hi : Inv s) (hn : ¬ act.Assigns) (h : Took s act s' es) :
    Single s' := by
  cases h with
  | newHandle _ | newObject _ =>
    exact hs.mono (fun _ => List.Sublist.refl _) (List.Sublist.refl _)
  | newChild _ _ =>
    refine Single.connectTo (s := s.newObject)
      (hs.mono (fun _ => List.Sublist.refl _) (List.Sublist.refl _)) ?_
    exact fun h => Nat.lt_irrefl _ (hi.old _ h)
  | connect _ =>
    refine Single.connectTo (s := { s.newHandle with nextSlot := s.nextSlot + 1 })
      (hs.mono (fun _ => List.Sublist.refl _) (List.Sublist.refl _)) ?_
    exact fun h => Nat.lt_irrefl _ (hi.old _ h)
  | destroyHandle _ _ =>
    exact (hs.unlink _).mono (fun _ => List.Sublist.refl _) (List.Sublist.refl _)
  | @destroyObject d _ _ _ =>
    refine (hs.unlink (.parent d)).mono ?_ (List.Sublist.refl _)
    intro e
    change (Function.update (s.unlink (.parent d)).connections d [] e).Sublist _
    by_cases h : e = d
    · subst h
      rw [Function.update_self]
      exact List.nil_sublist _
    · rw [Function.update_of_ne h]
  | moveHandle hf _ =>
    refine Single.assign (s := s.newHandle) ?_ hf
    exact hs.mono (fun _ => List.Sublist.refl _) (List.Sublist.refl _)
  | moveObject hf hb =>
    exact (hs.moved hf (hi.objects _ hb)).adopt hf
  | assignHandle _ _ _ | assignObject _ _ _ => exact absurd trivial hn
  | fire _ =>
    refine Single.enter (s := { s with nextFiring := s.nextFiring + 1 }) ?_
    exact hs.mono (fun _ => List.Sublist.refl _) (List.Sublist.refl _)
  | ended hf _ _ =>
    refine hs.mono (fun _ => List.Sublist.refl _) ?_
    rw [framed_resumed, hf]
    exact List.sublist_append_right _ _
  | callsNothing hf _ hl h => exact absurd h (hi.slot_ne_none (linked_of_rest hf hl))
  | callsUser hf hr hl _ =>
    refine hs.mono (fun _ => List.Sublist.refl _) ?_
    rw [framed, framed, hf, List.flatMap_cons, List.flatMap_cons, conns_take hr hl]
  | callsSelf hf hr hl _ =>
    refine Single.enter (hs.mono (fun _ => List.Sublist.refl _) ?_)
    rw [framed, framed, hf, List.flatMap_cons, List.flatMap_cons, conns_take hr hl]
  | «return» hf _ =>
    refine hs.mono (fun _ => List.Sublist.refl _) ?_
    rw [framed, framed, hf, List.flatMap_cons, List.flatMap_cons, conns_passed]

theorem Slots.step (hs : Slots s) (hi : Inv s) (hn : ¬ act.Assigns) (h : Took s act s' es) :
    Slots s' := by
  cases h with
  | newChild _ _ => exact hs.newChild
  | connect _ => exact hs.connect
  | moveHandle _ hm => exact hs.moveHandle (hi.handles _ hm)
  | moveObject _ _ => exact hs.moveObject
  | assignHandle _ _ _ | assignObject _ _ _ => exact absurd trivial hn
  | newHandle _ => exact hs.mono rfl (Nat.le_refl _) (Nat.le_succ _) (Nat.le_refl _)
  | newObject _ => exact hs.mono rfl (Nat.le_succ _) (Nat.le_refl _) (Nat.le_refl _)
  | destroyHandle _ _ | destroyObject _ _ _ | fire _ | ended _ _ _ | callsNothing _ _ _ _
  | callsUser _ _ _ _ | callsSelf _ _ _ _ | «return» _ _ =>
    exact hs.mono rfl (Nat.le_refl _) (Nat.le_refl _) (Nat.le_refl _)

theorem Forest.step (hs : Forest s) (hi : Inv s) (hn : ¬ act.Assigns) (h : Took s act s' es) :
    Forest s' := by
  cases h with
  | newChild _ hp => exact hs.newChild hi hp
  | moveObject hf hb => exact hs.moveObject hi hf (hi.objects _ hb)
  | assignHandle _ _ _ | assignObject _ _ _ => exact absurd trivial hn
  | newHandle _ | newObject _ | ended _ _ _ | callsNothing _ _ _ _ | callsUser _ _ _ _
  | «return» _ _ => exact hs.mono fun _ _ h => h
  | connect _ =>
    refine hs.mono fun p e he => ?_
    exact (mem_connectTo.1 he).resolve_right fun h => by cases h.2
  | destroyHandle _ _ => exact hs.mono fun _ _ h => (mem_unlink.1 h).1
  | destroyObject _ _ _ => exact hs.mono fun _ _ h => (mem_destroyObject.1 h).1
  | moveHandle hf _ =>
    refine hs.mono fun p e he => ?_
    have he := mem_assign.1 he
    rwa [Equiv.swap_apply_of_ne_of_ne (by simp) (by simp)] at he
  | fire _ | callsSelf _ _ _ _ => exact hs.mono fun _ _ h => (mem_enter.1 h).1

/-- **A step that assigns nothing keeps all of it.** -/
theorem Sound.step (hs : Sound s) (hn : ¬ act.Assigns) (h : Took s act s' es) : Sound s' :=
  ⟨hs.inv.step (tidy_of_not_assigns hn) h, hs.single.step hs.inv hn h, hs.slots.step hs.inv hn h,
    hs.forest.step hs.inv hn h⟩

/-! ## No slot twice -/

/-- The slot of the connection is still to be called. -/
def Pending (s : Cancels) (c : Conn) : Prop :=
  (∃ d, c ∈ s.connections d) ∨ ∃ f ∈ s.frames, c ∈ f.rest

/-- The slot `x` is still to be called. -/
def Waiting (s : Cancels) (x : ℕ) : Prop := ∃ c, s.slot c = some (.user x) ∧ s.Pending c

/-- How often the slot `x` is called. -/
def calls (x : ℕ) (es : List Event) : ℕ :=
  es.countP fun
    | .called _ _ _ (.user y) => y = x
    | _ => false

theorem Pending.linked (h : s.Pending c) : s.Linked c := by
  refine h.imp_right ?_
  rintro ⟨f, hf, hc⟩
  exact ⟨f, hf, List.mem_append_right _ hc⟩

theorem pending_enter {n : ℕ} : (s.enter n d).Pending c ↔ s.Pending c := by
  simp only [Pending, mem_enter]
  simp only [enter, List.exists_mem_cons_iff]
  by_cases h : c ∈ s.connections d
  · exact iff_of_true (.inr (.inl h)) (.inl ⟨d, h⟩)
  · simp only [h, false_or]
    refine or_congr_left (exists_congr fun e => and_iff_left_of_imp ?_)
    rintro he rfl
    exact h he

theorem pending_connectTo {σ : Slot} (h : (s.connectTo d c σ).Pending x) : s.Pending x ∨ x = c := by
  rcases h with ⟨e, he⟩ | hf
  · rcases mem_connectTo.1 he with he | ⟨-, rfl⟩
    · exact .inl (.inl ⟨e, he⟩)
    · exact .inr rfl
  · exact .inl (.inr hf)

/-- Connecting what is new leaves the slots of the others alone, and they do not start
    to wait. -/
theorem connectTo_new {σ : Slot} {P : Conn → Prop} {k : ℕ} (hc : ¬ P c)
    (hσ : ∀ x, σ = .user x → x = k) :
    (∀ x, P x → (s.connectTo d c σ).slot x = s.slot x) ∧
    ∀ x, (s.connectTo d c σ).Pending x → s.Pending x ∨
      ¬ P x ∧ ∀ y, (s.connectTo d c σ).slot x = some (.user y) → y = k := by
  have hself : (s.connectTo d c σ).slot c = some σ := Function.update_self _ _ _
  refine ⟨fun x hx => Function.update_of_ne ?_ _ _, fun x hx => ?_⟩
  · rintro rfl
    exact hc hx
  · rcases pending_connectTo hx with hx | rfl
    · exact .inl hx
    · refine .inr ⟨hc, fun y hy => hσ y ?_⟩
      rw [hself] at hy
      exact Option.some.inj hy

theorem pending_unlink (h : (s.unlink c).Pending x) : s.Pending x := by
  rcases h with ⟨e, he⟩ | ⟨f, hf, hx⟩
  · exact .inl ⟨e, (mem_unlink.1 he).1⟩
  · obtain ⟨f, hm, rfl⟩ := List.mem_map.1 hf
    exact .inr ⟨f, hm, List.mem_of_mem_filter hx⟩

theorem rest_resumed {fs : List Frame} (h : ∃ f ∈ resumed fs, c ∈ f.rest) :
    ∃ f ∈ fs, c ∈ f.rest := by
  cases fs with
  | nil => exact h
  | cons f fs =>
    rw [List.exists_mem_cons_iff]
    simp only [resumed] at h
    split at h <;> rwa [List.exists_mem_cons_iff] at h

/-- A step that moves nothing leaves the slots alone, and only what is new is to be
    called later. -/
theorem pending_step (h : Took s act s' es) (hm : act.movedConn = none) :
    (∀ c, s.Old c → s'.slot c = s.slot c) ∧
    ∀ c, s'.Pending c → s.Pending c ∨
      ¬ s.Old c ∧ ∀ x, s'.slot c = some (.user x) → x = s.nextSlot := by
  cases h with
  | newHandle _ | newObject _ => exact ⟨fun _ _ => rfl, fun _ h => .inl h⟩
  | newChild _ _ => exact connectTo_new (s := s.newObject) (P := s.Old) (Nat.lt_irrefl _) nofun
  | connect _ =>
    refine connectTo_new (s := { s.newHandle with nextSlot := s.nextSlot + 1 }) (P := s.Old)
      (Nat.lt_irrefl _) ?_
    rintro x ⟨⟩
    rfl
  | destroyHandle _ _ => exact ⟨fun _ _ => rfl, fun _ h => .inl (pending_unlink h)⟩
  | destroyObject _ _ _ =>
    refine ⟨fun _ _ => rfl, fun c hc => .inl ?_⟩
    rcases hc with ⟨e, he⟩ | hf
    · exact .inl ⟨e, (mem_destroyObject.1 he).1⟩
    · exact pending_unlink (.inr hf)
  | moveHandle _ _ | assignHandle _ _ _ | moveObject _ _ | assignObject _ _ _ => cases hm
  | fire _ => exact ⟨fun _ _ => rfl, fun _ h => .inl (pending_enter.1 h)⟩
  | ended hf _ _ =>
    refine ⟨fun _ _ => rfl, fun c hc => .inl (hc.imp_right fun h => ?_)⟩
    rw [hf, List.exists_mem_cons_iff]
    exact .inr (rest_resumed h)
  | callsNothing hf _ hl _ | callsUser hf _ hl _ =>
    refine ⟨fun _ _ => rfl, fun c hc => .inl (hc.imp_right fun h => ?_)⟩
    rw [List.exists_mem_cons_iff] at h
    rw [hf, List.exists_mem_cons_iff, hl]
    exact h.imp_left (List.mem_cons_of_mem _)
  | callsSelf hf _ hl _ =>
    refine ⟨fun _ _ => rfl, fun c hc => .inl ((pending_enter.1 hc).imp_right fun h => ?_)⟩
    rw [List.exists_mem_cons_iff] at h
    rw [hf, List.exists_mem_cons_iff, hl]
    exact h.imp_left (List.mem_cons_of_mem _)
  | «return» hf _ =>
    refine ⟨fun _ _ => rfl, fun c hc => .inl (hc.imp_right fun h => ?_)⟩
    rw [List.exists_mem_cons_iff] at h
    rwa [hf, List.exists_mem_cons_iff]

/-- **Only the slot that is connected starts to wait for its call.** -/
theorem waiting_step (hs : Sound s) (hn : ¬ act.Assigns) (h : Took s act s' es) {x : ℕ}
    (hw : s'.Waiting x) : s.Waiting x ∨ x = s.nextSlot := by
  obtain ⟨c, hslot, hp⟩ := hw
  by_cases hm : act.movedConn = none
  · obtain ⟨hsame, hnew⟩ := pending_step h hm
    rcases hnew c hp with hp | ⟨-, hx⟩
    · rw [hsame c (hs.inv.old c hp.linked)] at hslot
      exact .inl ⟨c, hslot, hp⟩
    · exact .inr (hx x hslot)
  · cases h with
    | @moveHandle n hf hmem =>
      obtain ⟨hfrom, hto, hother⟩ := slot_moveHandle (hs.inv.handles _ hmem)
      obtain ⟨d, hd⟩ := (linked_of_idle (frames_assign (s := s.newHandle) hf)).1 hp.linked
      have hd := mem_assign.1 hd
      by_cases hc : c = .handle s.nextHandle
      · subst hc
        rw [Equiv.swap_apply_right] at hd
        rw [hto] at hslot
        exact .inl ⟨_, hslot, .inl ⟨d, hd⟩⟩
      · have hcn : c ≠ .handle n := by
          rintro rfl
          rw [hfrom] at hslot
          cases hslot
        rw [Equiv.swap_apply_of_ne_of_ne hcn hc] at hd
        rw [hother c hcn hc] at hslot
        exact .inl ⟨c, hslot, .inl ⟨d, hd⟩⟩
    | @moveObject b hf hb =>
      have hlt := hs.inv.objects b hb
      have hold : s.slot c = some (.user x) :=
        (slot_adopt (s := s.moved b) hslot).resolve_left fun h => by cases h.2
      obtain ⟨d, hd⟩ := (linked_of_idle (frames_adopt (s := s.moved b) hf)).1 hp.linked
      have hd := (mem_adopt_of_free (hs.inv.moved hlt) (hs.inv.moved_free hf hlt).1).1 hd
      have hne : ∀ e, c ≠ .parent e := by
        rintro e rfl
        exact hs.slots.parent e x hold
      rw [Equiv.swap_apply_of_ne_of_ne (hne _) (hne _)] at hd
      rcases (mem_moved hlt).1 hd with ⟨-, hd⟩ | ⟨-, -, hd⟩
      · exact .inl ⟨c, hold, .inl ⟨b, hd⟩⟩
      · exact .inl ⟨c, hold, .inl ⟨d, hd⟩⟩
    | assignHandle _ _ _ | assignObject _ _ _ => exact absurd trivial hn
    | newHandle _ | newObject _ | newChild _ _ | connect _ | destroyHandle _ _
    | destroyObject _ _ _ | fire _ | ended _ _ _ | callsNothing _ _ _ _ | callsUser _ _ _ _
    | callsSelf _ _ _ _ | «return» _ _ => exact absurd rfl hm

theorem nextSlot_step (h : Took s act s' es) : s.nextSlot ≤ s'.nextSlot := by
  cases h with
  | connect _ => exact Nat.le_succ _
  | moveObject _ _ => exact Nat.le_of_eq (adopt_nexts (s := s.moved _)).2.2.symm
  | assignObject _ _ _ => exact Nat.le_of_eq (adopt_nexts (s := s.swapped _ _)).2.2.symm
  | newHandle _ | newObject _ | newChild _ _ | destroyHandle _ _ | destroyObject _ _ _
  | moveHandle _ _ | assignHandle _ _ _ | fire _ | ended _ _ _ | callsNothing _ _ _ _
  | callsUser _ _ _ _ | callsSelf _ _ _ _ | «return» _ _ => exact Nat.le_refl _

/-- **What a call takes from its list is nowhere else.** -/
theorem Single.not_pending {f : Frame} {fs : List Frame} {rest : List Conn} (hs : Single s)
    (hf : s.frames = f :: fs) (hl : f.rest = c :: rest) :
    (∀ d, c ∉ s.connections d) ∧ c ∉ rest ∧ c ∉ framed fs := by
  have hn := hs.frames
  have hconns : f.conns = f.called ++ (f.running.map (·.1)).toList ++ c :: rest := by
    rw [Frame.conns, hl]
  have hmem : c ∈ f.conns := by
    rw [hconns]
    exact List.mem_append_right _ List.mem_cons_self
  rw [framed, hf, List.flatMap_cons] at hn
  obtain ⟨hnf, -, hdis⟩ := List.nodup_append.1 hn
  refine ⟨fun d hd => hs.outside d c hd ?_, ?_, fun h => hdis c hmem c h rfl⟩
  · rw [framed, hf, List.flatMap_cons]
    exact List.mem_append_left _ hmem
  · rw [hconns] at hnf
    exact (List.nodup_cons.1 (List.nodup_append.1 hnf).2.1).1

/-- Once it is taken, it is not to be called any more. -/
theorem Single.not_pending_of_taken {f f' : Frame} {fs : List Frame} {rest : List Conn}
    (hs : Single s) (hf : s.frames = f :: fs) (hl : f.rest = c :: rest)
    (hc : s'.connections = s.connections) (hf' : s'.frames = f' :: fs) (hl' : f'.rest = rest) :
    ¬ s'.Pending c := by
  obtain ⟨hd, hrest, hfs⟩ := hs.not_pending hf hl
  rintro (⟨d, h⟩ | h)
  · rw [hc] at h
    exact hd d h
  · rw [hf', List.exists_mem_cons_iff, hl'] at h
    rcases h with h | ⟨g, hg, h⟩
    · exact hrest h
    · exact hfs (mem_framed.2 ⟨g, hg, List.mem_append_right _ h⟩)

theorem calls_append (x : ℕ) (es es' : List Event) :
    calls x (es ++ es') = calls x es + calls x es' :=
  List.countP_append

/-- A step calls at most one slot, which waited for it and does so no longer. -/
theorem calls_step (hs : Sound s) (h : Took s act s' es) (x : ℕ) :
    calls x es = 0 ∨ calls x es = 1 ∧ s.Waiting x ∧ ¬ s'.Waiting x := by
  cases h with
  | @callsUser f fs c rest y hf hr hl hc =>
    by_cases hy : y = x
    · subst hy
      have hp : s.Pending c := .inr ⟨f, hf ▸ List.mem_cons_self, hl ▸ List.mem_cons_self⟩
      refine .inr ⟨by simp [calls], ⟨c, hc, hp⟩, ?_⟩
      rintro ⟨c', hc', hp'⟩
      obtain rfl : c' = c := hs.slots.holder c' c y hc' hc
      revert hp'
      exact hs.single.not_pending_of_taken hf hl rfl rfl rfl
    · exact .inl (by simp [calls, hy])
  | newHandle _ | newObject _ | newChild _ _ | connect _ | destroyHandle _ _
  | destroyObject _ _ _ | moveHandle _ _ | assignHandle _ _ _ | moveObject _ _
  | assignObject _ _ _ | fire _ | ended _ _ _ | «return» _ _ => exact .inl rfl
  | callsNothing _ _ _ _ | callsSelf _ _ _ _ => exact .inl (by simp [calls])

/-- **No slot is called twice.** -/
theorem sound_of_run {as : List Action} (h : machine.Run as es s) (hn : ∀ a ∈ as, ¬ a.Assigns) :
    Sound s ∧ ∀ x, calls x es ≤ 1 ∧ (calls x es ≠ 0 → x < s.nextSlot ∧ ¬ s.Waiting x) := by
  refine h.invariant (P := fun as es s => (∀ a ∈ as, ¬ a.Assigns) → Sound s ∧
    ∀ x, calls x es ≤ 1 ∧ (calls x es ≠ 0 → x < s.nextSlot ∧ ¬ s.Waiting x)) ?_ ?_ hn
  · exact fun _ => ⟨.init, fun x => ⟨Nat.zero_le _, fun h => absurd rfl h⟩⟩
  · rintro as es s₁ a s₂ es' - ih hstep hn
    obtain ⟨hs, hcalls⟩ := ih fun b hb => hn b (List.mem_append_left _ hb)
    have ha := hn a (List.mem_append_right _ (List.mem_singleton_self a))
    have ht := took_of_step hstep
    refine ⟨hs.step ha ht, fun x => ?_⟩
    obtain ⟨hle, hold⟩ := hcalls x
    rw [calls_append]
    rcases calls_step hs ht x with h0 | ⟨h1, hw, hw'⟩
    · rw [h0, Nat.add_zero]
      refine ⟨hle, fun h => ?_⟩
      obtain ⟨hlt, hnw⟩ := hold h
      refine ⟨Nat.lt_of_lt_of_le hlt (nextSlot_step ht), fun hw => ?_⟩
      rcases waiting_step hs ha ht hw with hw | hx
      · exact hnw hw
      · exact Nat.ne_of_lt hlt hx
    · -- a slot that waits has not been called yet
      have h0 : calls x es = 0 := by
        by_contra hne
        exact (hold hne).2 hw
      obtain ⟨c, hc, -⟩ := hw
      rw [h0, h1]
      exact ⟨Nat.le_refl _, fun _ =>
        ⟨Nat.lt_of_lt_of_le (hs.slots.fresh c x hc) (nextSlot_step ht), hw'⟩⟩

end Cancels

end Upnp
