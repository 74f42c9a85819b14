/-
  The order in which a `cancel_t` object calls the slots (`upnp/detail/cancel.h`).

  `operator()` moves its list out and calls the slots in turn.  That of a child calls the
  child, with a list of its own, before the loop goes on.

  * `DepthFirst`: the slots below an object, depth first, and those of each list in the
    order of the list;
  * `Sound.unique`: no object is below two children of an object;
  * `order_of_run`: if the slots of the program return at once, the call returns, has
    called the slots in this order, and has emptied the lists from the object downwards.
-/
import Mathlib.Data.Finset.Lattice.Fold
import Upnp.CancelFiring

namespace Upnp

open Lib

namespace Cancels

variable {s t : Cancels} {d e e' o n : ℕ} {c : Conn} {cs : List Conn} {es : List Event}

/-! ## What is below a list -/

/-- The object `o` is `e` or below it. -/
def Within (s : Cancels) (e o : ℕ) : Prop := o = e ∨ s.Under e o

/-- The object `o` is that of a connection in `cs`, or below it. -/
def Below (s : Cancels) (cs : List Conn) (o : ℕ) : Prop := ∃ e, .parent e ∈ cs ∧ s.Within e o

theorem under_iff : s.Under d o ↔ s.Below (s.connections d) o := by
  constructor
  · rintro ⟨p, h | ⟨h, hp⟩⟩
    · exact ⟨o, h, .inl rfl⟩
    · exact ⟨_, h, .inr ⟨_, hp⟩⟩
  · rintro ⟨e, h, rfl | ⟨p, hp⟩⟩
    · exact ⟨[], .here h⟩
    · exact ⟨.parent e :: p, .down h hp⟩

theorem not_below_nil : ¬ s.Below [] o := by
  rintro ⟨e, h, -⟩
  cases h

theorem below_handle : s.Below (.handle n :: cs) o ↔ s.Below cs o := by
  simp [Below]

theorem below_parent : s.Below (.parent e :: cs) o ↔ s.Within e o ∨ s.Below cs o := by
  simp [Below, or_and_right, exists_or]

theorem leads_last {l p : List Conn} (h : Leads s l p (.parent o)) :
    .parent o ∈ l ∨ ∃ m, s.Below l m ∧ .parent o ∈ s.connections m := by
  generalize hc : Conn.parent o = c at h
  induction h with
  | here h => exact .inl (hc ▸ h)
  | @down l e p c h hp ih =>
    subst hc
    rcases ih rfl with hm | ⟨m, hm, hmo⟩
    · exact .inr ⟨e, ⟨e, h, .inl rfl⟩, hm⟩
    · exact .inr ⟨m, ⟨e, h, .inr (under_iff.2 hm)⟩, hmo⟩

/-- The object above one that is below `e`. -/
theorem Under.last (h : s.Under e o) : ∃ m, s.Within e m ∧ .parent o ∈ s.connections m := by
  obtain ⟨p, hp⟩ := h
  rcases leads_last hp with hm | ⟨m, hm, hmo⟩
  · exact ⟨e, .inl rfl, hm⟩
  · exact ⟨m, .inr (under_iff.2 hm), hmo⟩

/-- No object is below its own children. -/
theorem Sound.not_within (hs : Sound s) (h : .parent e ∈ s.connections d) : ¬ s.Within e d := by
  obtain ⟨rank, hr⟩ := hs.forest
  have hlt := hr d e h
  rintro (rfl | ⟨p, hp⟩)
  · exact Nat.lt_irrefl _ hlt
  · exact Nat.lt_asymm hlt (hp.rank_lt hr)

theorem Sound.not_under_self (hs : Sound s) : ¬ s.Under e e := by
  obtain ⟨rank, hr⟩ := hs.forest
  rintro ⟨p, hp⟩
  exact Nat.lt_irrefl _ (hp.rank_lt hr)

/-- **No object is below two children of an object.** -/
theorem Sound.unique (hs : Sound s) (he : .parent e ∈ s.connections d)
    (he' : .parent e' ∈ s.connections d) (h : s.Within e o) (h' : s.Within e' o) : e = e' := by
  obtain ⟨rank, hr⟩ := hs.forest
  -- one of them is below the other only if it is below itself
  have hfirst : ∀ {e e'}, .parent e ∈ s.connections d → .parent e' ∈ s.connections d →
      ¬ s.Under e' e := by
    intro e e' he he' hu
    obtain ⟨m, hm, hme⟩ := hu.last
    rw [hs.single.apart m d _ hme he] at hm
    exact hs.not_within he' hm
  induction hn : rank o using Nat.strong_induction_on generalizing o with
  | _ k ih =>
    subst hn
    rcases h with rfl | h
    · rcases h' with h' | h'
      · exact h'
      · exact absurd h' (hfirst he he')
    · rcases h' with rfl | h'
      · exact absurd h (hfirst he' he)
      · obtain ⟨m, hm, hmo⟩ := h.last
        obtain ⟨m', hm', hmo'⟩ := h'.last
        rw [hs.single.apart m' m _ hmo' hmo] at hm'
        exact ih _ (hr m o hmo) hm hm' rfl

/-- **What is below a child is not below the rest of the list.** -/
theorem Sound.apart (hs : Sound s) (hsub : (Conn.parent e :: cs).Sublist (s.connections d))
    (h : s.Within e o) : ¬ s.Below cs o := by
  rintro ⟨e', he', h'⟩
  have hd : ∀ {x}, x ∈ .parent e :: cs → x ∈ s.connections d := fun hx => hsub.subset hx
  obtain rfl := hs.unique (hd List.mem_cons_self) (hd (List.mem_cons_of_mem _ he')) h h'
  exact (List.nodup_cons.1 ((hs.single.nodup d).sublist hsub)).1 he'

/-! ## Depth first -/

/-- What the call `n` calls for the rest `cs` of the list of `d`: the slot of each
    connection in turn, and after that of a child what the child calls. -/
inductive DepthFirst (s : Cancels) (n : ℕ) : ℕ → List Conn → List Event → Prop
  | nil {d : ℕ} : DepthFirst s n d [] []
  | handle {d m x : ℕ} {cs : List Conn} {es : List Event}
      (h : s.slot (.handle m) = some (.user x)) (hcs : DepthFirst s n d cs es) :
      DepthFirst s n d (.handle m :: cs) (.called n d (.handle m) (.user x) :: es)
  | parent {d e : ℕ} {cs : List Conn} {es es' : List Event}
      (h : s.slot (.parent e) = some (.toSelf e)) (he : DepthFirst s n e (s.connections e) es)
      (hcs : DepthFirst s n d cs es') :
      DepthFirst s n d (.parent e :: cs) (.called n d (.parent e) (.toSelf e) :: (es ++ es'))

theorem Inv.slot_handle (hi : Inv s) (h : s.Linked (.handle n)) :
    ∃ x, s.slot (.handle n) = some (.user x) := by
  obtain ⟨σ, hσ, hfit⟩ := hi.fits _ h
  cases σ with
  | user x => exact ⟨x, hσ⟩
  | toSelf e => exact hfit.elim

theorem Inv.slot_parent (hi : Inv s) (h : s.Linked (.parent e)) :
    s.slot (.parent e) = some (.toSelf e) := by
  obtain ⟨σ, hσ, hfit⟩ := hi.fits _ h
  cases σ with
  | user x => exact hfit.elim
  | toSelf e' => rw [hσ, show e = e' from hfit]

/-- **There is such a list for each object**, since the objects below it are ever fewer. -/
theorem Sound.exists_depthFirst (hs : Sound s) (n d : ℕ) :
    ∃ es, DepthFirst s n d (s.connections d) es := by
  obtain ⟨rank, hr⟩ := hs.forest
  induction hk : (Finset.range s.nextObject).sup rank - rank d using Nat.strong_induction_on
    generalizing d with
  | _ k ih =>
    subst hk
    have hlist : ∀ cs : List Conn, (∀ c ∈ cs, c ∈ s.connections d) →
        ∃ es, DepthFirst s n d cs es := by
      intro cs hcs
      induction cs with
      | nil => exact ⟨[], .nil⟩
      | cons c cs ihcs =>
        obtain ⟨es', hes'⟩ := ihcs fun x hx => hcs x (List.mem_cons_of_mem c hx)
        have hc := hcs c List.mem_cons_self
        have hl := linked_of_mem hc
        cases c with
        | handle m =>
          obtain ⟨x, hx⟩ := hs.inv.slot_handle hl
          exact ⟨_, .handle hx hes'⟩
        | parent e =>
          have hlt := hr d e hc
          have hle : rank e ≤ (Finset.range s.nextObject).sup rank :=
            Finset.le_sup (Finset.mem_range.2 (hs.inv.old _ hl))
          obtain ⟨es, hes⟩ := ih _ (by omega) e rfl
          exact ⟨_, .parent (hs.inv.slot_parent hl) hes hes'⟩
    exact hlist _ fun _ h => h

/-! ## The call -/

/-- The lists of the objects below `cs` are empty, and the others are as they were. -/
structure Emptied (s : Cancels) (cs : List Conn) (g g' : ℕ → List Conn) : Prop where
  below : ∀ o, s.Below cs o → g' o = []
  other : ∀ o, ¬ s.Below cs o → g' o = g o

/-- An action of a firing whose slots return at once. -/
def Action.Quiet (a : Action) : Prop := a = .next ∨ a = .return

/-- A slot that has returned is one of those called. -/
theorem called_passed {f : Frame} (hr : f.running = none) (c : Conn) (σ : Slot) (cs : List Conn) :
    let f' := passed { f with running := some (c, σ), rest := cs }
    ({ f' with called := f'.called ++ cs, rest := [] } : Frame) =
      { f with called := f.called ++ c :: cs, rest := [] } := by
  simp [passed, hr]

/-- **The loop calls what is below its list, depth first**, and comes to its end. -/
theorem depthFirst_run (hs : Sound s) (h : DepthFirst s n d cs es)
    (hsub : cs.Sublist (s.connections d)) {f : Frame} {fs : List Frame} (hf : t.frames = f :: fs)
    (hfiring : f.firing = n) (hobject : f.object = d) (hr : f.running = none) (hl : f.rest = cs)
    (hslot : t.slot = s.slot) (hc : ∀ o, s.Below cs o → t.connections o = s.connections o) :
    ∃ as count callCount g, machine.RunFrom t as es
        { t with
          connCount := count, callCount := callCount, connections := g
          frames := { f with called := f.called ++ cs, rest := [] } :: fs } ∧
      (∀ a ∈ as, a.Quiet) ∧ Emptied s cs t.connections g := by
  induction h generalizing t f fs with
  | nil =>
    refine ⟨[], t.connCount, t.callCount, t.connections, ?_, nofun, fun o h => ?_, fun _ _ => rfl⟩
    · rw [List.append_nil, ← hl, ← hf]
      rfl
    · exact absurd h not_below_nil
  | @handle d m x cs es hx hcs ih =>
    -- the state while the slot runs, and after it has returned
    let count := Function.update t.connCount (.handle m) (t.connCount (.handle m) + 1)
    let f₁ : Frame := { f with running := some (.handle m, .user x), rest := cs }
    let t₁ : Cancels := { t with connCount := count, frames := f₁ :: fs }
    let t₂ : Cancels := { t with connCount := count, frames := passed f₁ :: fs }
    have hnext : machine.step t .next = some (t₁, [.called n d (.handle m) (.user x)]) := by
      simp only [machine, step, hf, hr, if_pos, next, hl, hslot, hx, hfiring, hobject, t₁, f₁,
        count]
    have hreturn : machine.step t₁ .return = some (t₂, []) := rfl
    obtain ⟨as, count', callCount, g, hrun, hquiet, hg⟩ := ih (t := t₂) (f := passed f₁)
      ((List.sublist_cons_self _ _).trans hsub) rfl hfiring hobject rfl rfl hslot
      fun o h => hc o (below_handle.2 h)
    refine ⟨.next :: .return :: as, count', callCount, g, ?_, ?_, ?_, ?_⟩
    · refine .cons hnext (.cons hreturn ?_)
      rwa [called_passed hr] at hrun
    · simpa [Action.Quiet] using hquiet
    · exact fun o h => hg.below o (below_handle.1 h)
    · exact fun o h => hg.other o fun h' => h (below_handle.2 h')
  | @parent d e cs es es' hx he hcs ihe ih =>
    have he₀ : t.connections e = s.connections e := hc e (below_parent.2 (.inl (.inl rfl)))
    -- the state in which the loop of the child begins
    let count := Function.update t.connCount (.parent e) (t.connCount (.parent e) + 1)
    let f₁ : Frame := { f with running := some (.parent e, .toSelf e), rest := cs }
    let t₁ : Cancels := enter n e { t with connCount := count, frames := f₁ :: fs }
    have hnext : machine.step t .next = some (t₁, [.called n d (.parent e) (.toSelf e)]) := by
      simp only [machine, step, hf, hr, if_pos, next, hl, hslot, hx, hfiring, hobject, t₁, f₁,
        count]
    have hsame : ∀ o, o ≠ e → t₁.connections o = t.connections o := fun o h =>
      Function.update_of_ne h _ _
    obtain ⟨as₁, count₁, callCount₁, g₁, hrun₁, hquiet₁, hg₁⟩ := ihe (t := t₁)
      (List.Sublist.refl _) rfl rfl rfl rfl he₀ hslot fun o h => by
        have hne : o ≠ e := by
          rintro rfl
          exact hs.not_under_self (under_iff.2 h)
        rw [hsame o hne]
        exact hc o (below_parent.2 (.inl (.inr (under_iff.2 h))))
    -- the state after the child, in which the loop goes on
    let t₃ : Cancels := { t₁ with
      connCount := count₁, callCount := callCount₁, connections := g₁, frames := passed f₁ :: fs }
    have hrest : ∀ o, s.Below cs o → g₁ o = t.connections o := by
      intro o h
      have hnot : ¬ s.Within e o := fun hw => hs.apart hsub hw h
      rw [hg₁.other o fun h' => hnot (.inr (under_iff.2 h')), hsame o fun h' => hnot (.inl h')]
    obtain ⟨as₂, count₂, callCount₂, g₂, hrun₂, hquiet₂, hg₂⟩ := ih (t := t₃) (f := passed f₁)
      ((List.sublist_cons_self _ _).trans hsub) rfl hfiring hobject rfl rfl hslot fun o h => by
        rw [← hc o (below_parent.2 (.inr h))]
        exact hrest o h
    refine ⟨.next :: (as₁ ++ .next :: as₂), count₂, callCount₂, g₂, ?_, ?_, ?_, ?_⟩
    · refine .cons hnext (hrun₁.append (Machine.runFrom_cons.2 ⟨t₃, [], _, rfl, ?_, rfl⟩))
      rwa [called_passed hr] at hrun₂
    · intro a ha
      rcases List.mem_cons.1 ha with rfl | ha
      · exact .inl rfl
      · rcases List.mem_append.1 ha with ha | ha
        · exact hquiet₁ a ha
        · rcases List.mem_cons.1 ha with rfl | ha
          · exact .inl rfl
          · exact hquiet₂ a ha
    · intro o h
      by_cases h' : s.Below cs o
      · exact hg₂.below o h'
      · refine (hg₂.other o h').trans ?_
        rcases (below_parent.1 h).resolve_right h' with rfl | hu
        · refine (hg₁.other o fun h => hs.not_under_self (under_iff.2 h)).trans ?_
          exact Function.update_self _ _ _
        · exact hg₁.below o (under_iff.1 hu)
    · intro o h
      rw [below_parent, not_or] at h
      refine (hg₂.other o h.2).trans ?_
      refine (hg₁.other o fun h' => h.1 (.inr (under_iff.2 h'))).trans ?_
      exact hsame o fun h' => h.1 (.inl h')

/-- A slot of the program is not resumed, but goes on. -/
theorem resumed_of_inProgram (h : s.inProgram = true) : resumed s.frames = s.frames := by
  rw [inProgram] at h
  rcases hf : s.frames with _ | ⟨f, fs⟩
  · rfl
  · rw [hf] at h
    rcases hr : f.running with _ | ⟨c, x | e⟩
    · simp [hr] at h
    · simp only [resumed, hr]
    · simp [hr] at h

/-- **A call calls the slots below its object depth first, and returns.**  If the slots of
    the program return at once, there is nothing else that it does; it leaves the lists of
    the object and of those below it empty, and the others as they were. -/
theorem order_of_run {as₀ : List Action} {es₀ : List Event} (h₀ : machine.Run as₀ es₀ s)
    (hn : ∀ a ∈ as₀, ¬ a.Assigns) (hp : s.inProgram = true) (hd : d ∈ s.objects) :
    ∃ es, DepthFirst s s.nextFiring d (s.connections d) es ∧ ∃ as count callCount g,
      machine.RunFrom s (.fire d :: as) es
        { s with
          nextFiring := s.nextFiring + 1
          connCount := count, callCount := callCount, connections := g } ∧
      (∀ a ∈ as, a.Quiet) ∧
      (∀ o, s.Within d o → g o = []) ∧ ∀ o, ¬ s.Within d o → g o = s.connections o := by
  have hs := (sound_of_run h₀ hn).1
  obtain ⟨es, hes⟩ := hs.exists_depthFirst s.nextFiring d
  let t := enter s.nextFiring d { s with nextFiring := s.nextFiring + 1 }
  have hfire : machine.step s (.fire d) = some (t, []) := by
    simp only [machine, step, hp, hd, and_self, if_pos, t]
  have hsame : ∀ o, o ≠ d → t.connections o = s.connections o := fun o h =>
    Function.update_of_ne h _ _
  obtain ⟨as, count, callCount, g, hrun, hquiet, hg⟩ := depthFirst_run (t := t) hs hes
    (List.Sublist.refl _) rfl rfl rfl rfl rfl rfl fun o h => hsame o fun h' =>
      hs.not_under_self (under_iff.2 (h' ▸ h))
  refine ⟨es, hes, as ++ [.next], count, callCount, g, ?_, ?_, ?_, ?_⟩
  · refine .cons hfire (Machine.runFrom_snoc.2 ⟨_, es, [], hrun, ?_, (List.append_nil es).symm⟩)
    change some (_, _) = _
    rw [resumed_of_inProgram hp]
    rfl
  · intro a ha
    rcases List.mem_append.1 ha with ha | ha
    · exact hquiet a ha
    · exact .inl (List.mem_singleton.1 ha)
  · rintro o (rfl | hu)
    · refine (hg.other o fun h => hs.not_under_self (under_iff.2 h)).trans ?_
      exact Function.update_self _ _ _
    · exact hg.below o (under_iff.1 hu)
  · intro o h
    exact (hg.other o fun h' => h (.inr (under_iff.2 h'))).trans (hsame o fun h' => h (.inl h'))

/-- A slot before a child and one after it, and two of the child. -/
def siblings : List Action :=
  [.newObject, .connect 0, .newChild 0, .connect 0, .connect 1, .connect 1]

theorem order_of_siblings : ∃ es₀ s, machine.Run siblings es₀ s ∧
    ∃ as count callCount g, machine.RunFrom s (.fire 0 :: as)
      [.called 0 0 (.handle 0) (.user 0), .called 0 0 (.parent 1) (.toSelf 1),
        .called 0 1 (.handle 2) (.user 2), .called 0 1 (.handle 3) (.user 3),
        .called 0 0 (.handle 1) (.user 1)]
      { s with nextFiring := 1, connCount := count, callCount := callCount, connections := g } ∧
      (∀ a ∈ as, a.Quiet) ∧ g 0 = [] ∧ g 1 = [] := by
  obtain ⟨es₀, s, h₀, hfiring, h0, h1, hslot⟩ : ∃ es₀ s, machine.Run siblings es₀ s ∧
      s.nextFiring = 0 ∧ s.connections 0 = [.handle 0, .parent 1, .handle 1] ∧
      s.connections 1 = [.handle 2, .handle 3] ∧
      ∀ m < 4, s.slot (.handle m) = some (.user m) :=
    ⟨_, _, (rfl : machine.runFrom machine.init siblings = some (_, _)), rfl, rfl, rfl, by decide⟩
  obtain ⟨es, hes, as, count, callCount, g, hrun, hquiet, hempty, -⟩ :=
    order_of_run (d := 0) h₀ (by simp [siblings, Action.Assigns]) (by cases h₀; rfl)
      (by cases h₀; decide)
  have huser : ∀ {m x}, m < 4 → s.slot (.handle m) = some (.user x) → x = m := by
    intro m x hm hx
    rw [hslot m hm] at hx
    cases hx
    rfl
  rw [hfiring, h0] at hes
  rw [hfiring] at hrun
  -- the list has one derivation
  cases hes with
  | handle hx₀ hes =>
    cases hes with
    | parent _ he hes =>
      rw [h1] at he
      cases he with
      | handle hx₂ he =>
        cases he with
        | handle hx₃ he =>
          cases he
          cases hes with
          | handle hx₁ hes =>
            cases hes
            obtain rfl := huser (by decide) hx₀
            obtain rfl := huser (by decide) hx₁
            obtain rfl := huser (by decide) hx₂
            obtain rfl := huser (by decide) hx₃
            refine ⟨es₀, s, h₀, as, count, callCount, g, hrun, hquiet, hempty 0 (.inl rfl),
              hempty 1 (.inr ⟨[], .here ?_⟩)⟩
            rw [h0]
            decide

end Cancels

end Upnp
