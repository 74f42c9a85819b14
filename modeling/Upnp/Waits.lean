/-
  Every run of a condition variable (`src/condition_variable.h`).

  If an object is called while a wait connected to it has its handler posted, the assertion
  in the slot fails.  Without assertions the slot goes on, and posts what it moves out of
  the entry, which is an empty function by then.

  * `release`: what both loops do, whether or not the handlers are still there;
  * `Held`: each wait that has not returned has one handler, in its entry or posted;
  * `Takes`: what each step does, and `takes_of_step` that it does nothing else;
  * `ended_of_run`: so each wait ends once, with the code it is owed, in every run, and a
    call that comes too late costs an empty function.
-/
import Upnp.ConditionVariable

namespace Upnp

open Lib

namespace ConditionVariable

/-! ## The loops -/

section
variable {κ : Type} {s : ConditionVariable κ} {ws : List Wait}

/-- The waits `ws` leave the variable, and what is in their entries is posted. -/
def release (ws : List Wait) (ec : Option ErrorCode) (s : ConditionVariable κ) :
    ConditionVariable κ :=
  { s with
    onNotify := s.onNotify.filter (· ∉ ws)
    handler := fun w => if w ∈ ws then none else s.handler w
    posted := s.posted ++ ws.map fun w => ⟨s.handler w, ec⟩ }

theorem release_nil (ec : Option ErrorCode) : s.release [] ec = s := by
  have hon : s.onNotify.filter (· ∉ ([] : List Wait)) = s.onNotify :=
    List.filter_eq_self.2 fun _ _ => rfl
  rw [release, hon, List.map_nil, List.append_nil]
  rfl

/-- To release a wait and then others is to release them all. -/
theorem release_cons {w : Wait} {ec : Option ErrorCode} {s₁ : ConditionVariable κ} (hw : w ∉ ws)
    (hs₁ : s₁ = { s with
      onNotify := s.onNotify.filter (· ≠ w)
      handler := Function.update s.handler w none
      posted := s.posted ++ [⟨s.handler w, ec⟩] }) : s₁.release ws ec = s.release (w :: ws) ec := by
  subst hs₁
  have hmap : ws.map (fun v => (⟨Function.update s.handler w none v, ec⟩ : Posted)) =
      ws.map fun v => ⟨s.handler v, ec⟩ := by
    refine List.map_congr_left fun v hv => ?_
    have hne : v ≠ w := fun h => hw (h ▸ hv)
    rw [Function.update_of_ne hne]
  simp only [release, List.filter_filter, List.append_assoc, List.map_cons, List.singleton_append,
    mk.injEq, hmap, and_true, true_and]
  constructor
  · refine List.filter_congr fun v _ => ?_
    rw [← Bool.decide_and, decide_eq_decide, List.mem_cons, not_or, and_comm]
  · funext v
    by_cases hv : v = w
    · simp [hv]
    · simp [hv]

/-- **`notify` releases the waits that are linked.** -/
theorem notifyLoop_release (ec : Option ErrorCode) (hs : s.onNotify = ws) (hn : ws.Nodup) :
    notifyLoop ec ws s = (s.release ws ec, ws.map fun w => .posted ⟨s.handler w, ec⟩) := by
  induction ws generalizing s with
  | nil => rw [release_nil]; rfl
  | cons w ws ih =>
    obtain ⟨hw, hn⟩ := List.nodup_cons.1 hn
    have hne : ∀ v ∈ ws, v ≠ w := fun v hv h => hw (h ▸ hv)
    rw [notifyLoop, ih rfl hn]
    refine Prod.ext (release_cons hw ?_) ?_
    · simp only [hs, mk.injEq, and_true, true_and]
      rw [List.filter_cons_of_neg (by simp), List.filter_eq_self.2 fun v hv => by simp [hne v hv]]
    · refine congrArg (Event.posted ⟨s.handler w, ec⟩ :: ·) ?_
      refine List.map_congr_left fun v hv => ?_
      simp only [Function.update_of_ne (hne v hv)]

/-- **To call an object releases the waits connected to it.** -/
theorem fireLoop_release (hs : s.onNotify.Nodup) (hn : ws.Nodup) :
    fireLoop ws s = (s.release ws (some .operationAborted), ws.flatMap fun w =>
      [.asserted w (w ∈ s.onNotify), .posted ⟨s.handler w, some .operationAborted⟩]) := by
  induction ws generalizing s with
  | nil => rw [release_nil]; rfl
  | cons w ws ih =>
    obtain ⟨hw, hn⟩ := List.nodup_cons.1 hn
    have hne : ∀ v ∈ ws, v ≠ w := fun v hv h => hw (h ▸ hv)
    simp only [fireLoop, slot]
    rw [ih (hs.erase w) hn]
    refine Prod.ext (release_cons hw ?_) ?_
    · simp only [hs.erase_eq_filter, mk.injEq, and_true, true_and]
      exact List.filter_congr fun v _ => by rw [bne_eq, decide_not]; rfl
    · refine congrArg ([Event.asserted w _, .posted _] ++ ·) ?_
      refine List.flatMap_congr fun v hv => ?_
      simp only [Function.update_of_ne (hne v hv), List.mem_erase_of_ne (hne v hv)]

end

/-! ## The waits that go on -/

section
variable {κ : Type}

/-- The waits that have not returned: those that are linked, and those whose handler is
    posted. -/
def current (s : ConditionVariable κ) : List Wait :=
  s.onNotify ++ s.posted.filterMap Posted.handler

/-- The code, if it is for `w`. -/
def codeOf (w : Wait) (p : Posted) : Option (Option ErrorCode) :=
  if p.handler = some w then some p.ec else none

/-- The codes with which the handler of `w` is posted, as long as it has not run. -/
def pendingOf (w : Wait) (s : ConditionVariable κ) : List (Option ErrorCode) :=
  s.posted.filterMap (codeOf w)

/-- The codes with which `w` has returned. -/
def returnsOf (w : Wait) (es : List Event) : List (Option ErrorCode) :=
  es.filterMap fun
    | .returned v ec => if v = w then some ec else none
    | _ => none

theorem returnsOf_append (w : Wait) (es es' : List Event) :
    returnsOf w (es ++ es') = returnsOf w es ++ returnsOf w es' :=
  List.filterMap_append

def Event.returned? : Event → Option Wait
  | .returned w _ => some w
  | _ => none

/-- An assertion that fails. -/
def Event.isFailure : Event → Bool
  | .asserted _ linked => !linked
  | _ => false

/-- What only those of `ws` give that meet `p`. -/
theorem flatMap_once {α : Type} {ws : List Wait} (hn : ws.Nodup) (p : Wait → Prop)
    [DecidablePred p] (x : α) (w : Wait) :
    (ws.flatMap fun v => if v = w ∧ p v then [x] else []) = if w ∈ ws ∧ p w then [x] else [] := by
  induction ws with
  | nil => rfl
  | cons v ws ih =>
    obtain ⟨hv, hn⟩ := List.nodup_cons.1 hn
    rw [List.flatMap_cons, ih hn]
    by_cases h : v = w
    · subst h
      simp [hv]
    · simp [h, Ne.symm h]

theorem split_eraseIdx {α : Type} {l : List α} {n : ℕ} {x : α} (h : l[n]? = some x) :
    ∃ l₁ l₂, l = l₁ ++ x :: l₂ ∧ l.eraseIdx n = l₁ ++ l₂ := by
  obtain ⟨hn, rfl⟩ := List.getElem?_eq_some_iff.1 h
  refine ⟨l.take n, l.drop (n + 1), ?_, List.eraseIdx_eq_take_drop_succ ..⟩
  rw [List.getElem_cons_drop, List.take_append_drop]

theorem perm_eraseIdx {α : Type} {l : List α} {n : ℕ} {x : α} (h : l[n]? = some x) :
    l.Perm (x :: l.eraseIdx n) := by
  obtain ⟨l₁, l₂, hl, he⟩ := split_eraseIdx h
  rw [he, hl]
  exact List.perm_middle

/-- An empty function is not the handler of a wait. -/
theorem current_empty {s : ConditionVariable κ} {n : ℕ} {p : Posted}
    (hp : s.posted[n]? = some p) (hw : p.handler = none) :
    s.current.Perm { s with posted := s.posted.eraseIdx n }.current := by
  have hposted := (perm_eraseIdx hp).filterMap Posted.handler
  rw [List.filterMap_cons_none hw] at hposted
  exact hposted.append_left _

/-- An action that starts no wait. -/
theorem started_snoc_of_none {as : List (Action κ)} {a : Action κ} (h : a.object = none) :
    started (as ++ [a]) = started as := by
  rw [started_snoc, h, Option.toList_none, List.append_nil]

variable [DecidableEq κ]

/-- The state after the actions `as`, whatever they are. -/
structure Held (as : List (Action κ)) (s : ConditionVariable κ) : Prop where
  waits : s.waits = (started as).length
  dead : s.alive = false → s.onNotify = []
  nodup : s.current.Nodup
  old : ∀ w ∈ s.current, w < s.waits
  /-- the entry of a wait has its handler exactly as long as it is linked -/
  handler : ∀ w, s.handler w = if w ∈ s.onNotify then some w else none
  unique : ∀ c, (s.connections c).Nodup
  connected : ∀ c, ∀ w ∈ s.connections c, w ∈ s.current ∧ (started as)[w]? = some c
  linked : ∀ w ∈ s.onNotify, ∃ c, (started as)[w]? = some c ∧ w ∈ s.connections c
  waiting : ∀ w c, (started as)[w]? = some c → (w ∈ s.onNotify ↔ owed as w = none)

variable {as : List (Action κ)} {a : Action κ} {s s' : ConditionVariable κ} {es : List Event}

theorem Held.init : Held [] (init : ConditionVariable κ) where
  waits := rfl
  dead := nofun
  nodup := List.nodup_nil
  old := nofun
  handler _ := rfl
  unique _ := List.nodup_nil
  connected := nofun
  linked := nofun
  waiting := nofun

/-- A wait is not linked when its handler is posted. -/
theorem Held.notMem_onNotify (hi : Held as s) {p : Posted} {w : Wait} (hp : p ∈ s.posted)
    (hw : p.handler = some w) : w ∉ s.onNotify := fun h =>
  (List.nodup_append.1 hi.nodup).2.2 w h w (List.mem_filterMap.2 ⟨p, hp, hw⟩) rfl

theorem Held.erase_onNotify (hi : Held as s) {n : ℕ} {p : Posted} {w : Wait}
    (hp : s.posted[n]? = some p) (hw : p.handler = some w) : s.onNotify.erase w = s.onNotify :=
  List.erase_of_not_mem (hi.notMem_onNotify (List.mem_of_getElem? hp) hw)

theorem Held.nodup_onNotify (hi : Held as s) : s.onNotify.Nodup := (List.nodup_append.1 hi.nodup).1

/-- What a step does. -/
inductive Takes (s : ConditionVariable κ) : Action κ → ConditionVariable κ → List Event → Prop
  | wait {c} (ha : s.alive = true) : Takes s (.wait c) (s.wait c) []
  | notify {ec} (ha : s.alive = true) : Takes s (.notify ec) (s.release s.onNotify ec)
      (s.onNotify.map fun w => .posted ⟨s.handler w, ec⟩)
  | fire {c} (ha : s.alive = true) : Takes s (.fire c)
      ({ s with connections := Function.update s.connections c [] }.release (s.connections c)
        (some .operationAborted))
      ((s.connections c).flatMap fun w =>
        [.asserted w (w ∈ s.onNotify), .posted ⟨s.handler w, some .operationAborted⟩])
  | returned {n p w} (hp : s.posted[n]? = some p) (hw : p.handler = some w) : Takes s (.execute n)
      ({ s with posted := s.posted.eraseIdx n }.leave w) [.returned w p.ec]
  | empty {n p} (hp : s.posted[n]? = some p) (hw : p.handler = none) : Takes s (.execute n)
      { s with posted := s.posted.eraseIdx n } [.badFunctionCall]
  | destroy (ha : s.alive = true) : Takes s .destroy
      ({ s with alive := false }.release s.onNotify (some .operationAborted))
      (s.onNotify.map fun w => .posted ⟨s.handler w, some .operationAborted⟩)

/-- **Every step is one of those `Takes` lists.** -/
theorem takes_of_step (hi : Held as s) (h : step s a = some (s', es)) : Takes s a s' es := by
  have hn := hi.nodup_onNotify
  cases a with
  | wait c =>
    simp only [step, Option.ite_none_right_eq_some] at h
    obtain ⟨ha, h⟩ := h
    cases h
    exact .wait ha
  | notify ec =>
    simp only [step, Option.ite_none_right_eq_some, notify, notifyLoop_release ec rfl hn] at h
    obtain ⟨ha, h⟩ := h
    cases h
    exact .notify ha
  | fire c =>
    simp only [step, Option.ite_none_right_eq_some, fire] at h
    obtain ⟨ha, h⟩ := h
    have heq := fireLoop_release (s := { s with connections := Function.update s.connections c [] })
      hn (hi.unique c)
    cases heq.symm.trans (Option.some.inj h)
    exact .fire ha
  | execute n =>
    simp only [step, Option.map_eq_some_iff] at h
    obtain ⟨p, hp, h⟩ := h
    rcases hw : p.handler with _ | w
    · rw [hw] at h
      cases h
      exact .empty hp hw
    · rw [hw] at h
      cases h
      exact .returned hp hw
  | destroy =>
    simp only [step, Option.ite_none_right_eq_some, notify] at h
    obtain ⟨ha, h⟩ := h
    have heq := notifyLoop_release (s := { s with alive := false }) (some .operationAborted) rfl hn
    cases heq.symm.trans (Option.some.inj h)
    exact .destroy ha

/-! ## Every step keeps the handlers -/

variable {ws : List Wait} {ec : Option ErrorCode} {w : Wait} {c : κ}

theorem Held.waits_notMem (hi : Held as s) : s.waits ∉ s.current := fun h =>
  Nat.lt_irrefl _ (hi.old _ h)

theorem current_wait (c : κ) : (s.wait c).current.Perm (s.waits :: s.current) := by
  rw [current, ConditionVariable.wait, List.append_assoc]
  exact List.perm_middle

theorem mem_current_wait (c : κ) : w ∈ (s.wait c).current ↔ w = s.waits ∨ w ∈ s.current :=
  (current_wait c).mem_iff.trans List.mem_cons

/-- **A new wait keeps the invariant.** -/
theorem Held.wait (hi : Held as s) (ha : s.alive = true) : Held (as ++ [.wait c]) (s.wait c) where
  waits := by
    change s.waits + 1 = _
    rw [started_snoc, List.length_append, hi.waits]
    rfl
  dead h := by
    rw [show s.alive = false from h] at ha
    cases ha
  nodup := (current_wait c).nodup_iff.2 (List.nodup_cons.2 ⟨hi.waits_notMem, hi.nodup⟩)
  old w hw := by
    rcases (mem_current_wait c).1 hw with rfl | hw
    · exact Nat.lt_succ_self _
    · exact Nat.lt_succ_of_lt (hi.old w hw)
  handler w := by
    change Function.update s.handler s.waits (some s.waits) w =
      if w ∈ s.onNotify ++ [s.waits] then some w else none
    by_cases hw : w = s.waits
    · subst hw
      simp
    · rw [Function.update_of_ne hw, hi.handler]
      simp [hw]
  unique d := by
    change (Function.update s.connections c _ d).Nodup
    by_cases hd : d = c
    · subst hd
      rw [Function.update_self, ← List.concat_eq_append]
      exact (hi.unique d).concat fun h => hi.waits_notMem (hi.connected d _ h).1
    · rw [Function.update_of_ne hd]
      exact hi.unique d
  connected d w hw := by
    rcases mem_connections_wait.1 hw with hw | ⟨rfl, rfl⟩
    · obtain ⟨hcur, hst⟩ := hi.connected d w hw
      exact ⟨(mem_current_wait c).2 (.inr hcur), getElem?_started_wait.2 (.inl hst)⟩
    · exact ⟨(mem_current_wait d).2 (.inl rfl), getElem?_started_wait.2 (.inr ⟨hi.waits, rfl⟩)⟩
  linked w hw := by
    rcases List.mem_append.1 hw with hw | hw
    · obtain ⟨d, hd, hwd⟩ := hi.linked w hw
      exact ⟨d, getElem?_started_wait.2 (.inl hd), mem_connections_wait.2 (.inl hwd)⟩
    · rw [List.mem_singleton.1 hw]
      exact ⟨c, getElem?_started_wait.2 (.inr ⟨hi.waits, rfl⟩),
        mem_connections_wait.2 (.inr ⟨rfl, rfl⟩)⟩
  waiting w d hd := by
    rw [owed_snoc]
    rcases getElem?_started_wait.1 hd with hw | ⟨hw, -⟩
    · have hne : w ≠ s.waits := by
        rw [hi.waits]
        exact Nat.ne_of_lt (List.getElem?_eq_some_iff.1 hw).1
      rw [hw, Option.bind_some, show (Action.wait c).ends d = none from rfl, Option.or_none,
        ← hi.waiting w d hw]
      refine ⟨fun h => ?_, List.mem_append_left _⟩
      exact (List.mem_append.1 h).resolve_right fun h => hne (List.mem_singleton.1 h)
    · rw [List.getElem?_eq_none_iff.2 (Nat.le_of_eq hw.symm), hw, ← hi.waits]
      exact iff_of_true (List.mem_append_right _ (List.mem_singleton_self _)) rfl

/-- The action ends those of the linked waits that are in `ws`. -/
structure Releases (as : List (Action κ)) (s : ConditionVariable κ) (a : Action κ)
    (ws : List Wait) (ec : Option ErrorCode) : Prop where
  object : a.object = none
  nodup : ws.Nodup
  ends : ∀ w ∈ s.onNotify, ∀ c, (started as)[w]? = some c →
    a.ends c = if w ∈ ws then some ec else none

theorem Held.releases_onNotify (hi : Held as s) (ho : a.object = none)
    (h : ∀ c : κ, a.ends c = some ec) : Releases as s a s.onNotify ec where
  object := ho
  nodup := hi.nodup_onNotify
  ends w hw c _ := by rw [h c, if_pos hw]

theorem Held.releases_connections (hi : Held as s) (c : κ) :
    Releases as s (.fire c) (s.connections c) (some .operationAborted) where
  object := rfl
  nodup := hi.unique c
  ends w hw d hd := by
    obtain ⟨d', hd', hwd⟩ := hi.linked w hw
    obtain rfl : d' = d := Option.some.inj (hd'.symm.trans hd)
    by_cases h : c = d'
    · subst h
      rw [if_pos hwd, Action.ends, if_pos rfl]
    · rw [Action.ends, if_neg h, if_neg]
      exact fun hwc => h (Option.some.inj ((hi.connected c w hwc).2.symm.trans hd))

/-- The entries of `ws` have the handlers of those that are linked. -/
theorem Held.filterMap_handler (hi : Held as s) (ws : List Wait) :
    ws.filterMap s.handler = ws.filter (· ∈ s.onNotify) := by
  induction ws with
  | nil => rfl
  | cons w ws ih =>
    by_cases hw : w ∈ s.onNotify
    · rw [List.filterMap_cons_some (by rw [hi.handler, if_pos hw]),
        List.filter_cons_of_pos (by simpa using hw), ih]
    · rw [List.filterMap_cons_none (by rw [hi.handler, if_neg hw]),
        List.filter_cons_of_neg (by simpa using hw), ih]

/-- **To release waits loses none of them.** -/
theorem Held.current_release (hi : Held as s) (hn : ws.Nodup) (ec : Option ErrorCode) :
    (s.release ws ec).current.Perm s.current := by
  have hon := hi.nodup_onNotify
  have hswap : (ws.filter (· ∈ s.onNotify)).Perm (s.onNotify.filter (· ∈ ws)) := by
    refine (List.perm_ext_iff_of_nodup (hn.filter _) (hon.filter _)).2 fun w => ?_
    simp only [List.mem_filter, decide_eq_true_eq]
    exact and_comm
  have hposted : (s.release ws ec).posted.filterMap Posted.handler =
      s.posted.filterMap Posted.handler ++ ws.filter (· ∈ s.onNotify) := by
    rw [← hi.filterMap_handler]
    simp only [release, List.filterMap_append, List.filterMap_map]
    rfl
  have hall : (s.onNotify.filter (· ∉ ws) ++ s.onNotify.filter (· ∈ ws)).Perm s.onNotify := by
    simpa using List.filter_append_perm (· ∉ ws) s.onNotify
  rw [current, hposted]
  refine ((List.perm_append_comm.trans (hswap.append_right _)).append_left _).trans ?_
  rw [← List.append_assoc]
  exact hall.append_right _

/-- **To release waits keeps the invariant.** -/
theorem Held.release {b : Bool} {cs : κ → List Wait} (hi : Held as s) (ha : Releases as s a ws ec)
    (hover : b = false → ∀ w ∈ s.onNotify, w ∈ ws)
    (hcs : ∀ c, cs c = s.connections c ∨ cs c = [] ∧ ∀ w ∈ s.connections c, w ∈ ws) :
    Held (as ++ [a]) ({ s with alive := b, connections := cs }.release ws ec) := by
  have hst : started (as ++ [a]) = started as := started_snoc_of_none ha.object
  have hcur : ({ s with alive := b, connections := cs }.release ws ec).current.Perm s.current :=
    hi.current_release ha.nodup ec
  have hmem : ∀ {w}, w ∈ s.onNotify.filter (· ∉ ws) ↔ w ∈ s.onNotify ∧ w ∉ ws := by
    intro w
    rw [List.mem_filter, decide_eq_true_iff]
  have hsub : ∀ {c w}, w ∈ cs c → w ∈ s.connections c := by
    intro c w hw
    rcases hcs c with h | ⟨h, -⟩
    · exact h ▸ hw
    · rw [h] at hw
      cases hw
  constructor
  · exact hi.waits.trans (by rw [hst])
  · intro h
    refine List.filter_eq_nil_iff.2 fun w hw => ?_
    simpa using hover h w hw
  · exact hcur.nodup_iff.2 hi.nodup
  · exact fun w hw => hi.old w (hcur.mem_iff.1 hw)
  · intro w
    change (if w ∈ ws then none else s.handler w) =
      if w ∈ s.onNotify.filter (· ∉ ws) then some w else none
    rw [hi.handler]
    by_cases hw : w ∈ ws <;> simp [hw]
  · intro c
    change (cs c).Nodup
    rcases hcs c with h | ⟨h, -⟩
    · exact h ▸ hi.unique c
    · exact h ▸ List.nodup_nil
  · intro c w hw
    obtain ⟨hwc, hd⟩ := hi.connected c w (hsub hw)
    exact ⟨hcur.mem_iff.2 hwc, hst ▸ hd⟩
  · intro w hw
    obtain ⟨hw, hn⟩ := hmem.1 hw
    obtain ⟨c, hc, hwc⟩ := hi.linked w hw
    refine ⟨c, hst ▸ hc, ?_⟩
    change w ∈ cs c
    rcases hcs c with h | ⟨-, h⟩
    · exact h ▸ hwc
    · exact absurd (h w hwc) hn
  · intro w c hc
    rw [hst] at hc
    rw [owed_snoc, hc, Option.bind_some, Option.or_eq_none_iff, ← hi.waiting w c hc]
    refine hmem.trans (and_congr_right fun hw => ?_)
    rw [ha.ends w hw c hc]
    split <;> simp [*]

/-- When the handler of a wait has run, the wait is not current. -/
theorem Held.current_leave (hi : Held as s) {n : ℕ} {p : Posted} (hp : s.posted[n]? = some p)
    (hw : p.handler = some w) :
    s.current.Perm (w :: ({ s with posted := s.posted.eraseIdx n }.leave w).current) := by
  have hon := hi.erase_onNotify hp hw
  have hposted := (perm_eraseIdx hp).filterMap Posted.handler
  rw [List.filterMap_cons_some hw] at hposted
  change (s.onNotify ++ _).Perm (w :: (s.onNotify.erase w ++ _))
  rw [hon]
  exact (hposted.append_left _).trans List.perm_middle

/-- **A wait that returns keeps the invariant.** -/
theorem Held.returned (hi : Held as s) {n : ℕ} {p : Posted} (hp : s.posted[n]? = some p)
    (hw : p.handler = some w) :
    Held (as ++ [.execute n]) ({ s with posted := s.posted.eraseIdx n }.leave w) := by
  have hst : started (as ++ [.execute n]) = started as := started_snoc_of_none rfl
  have hcur := hi.current_leave hp hw
  have hon := hi.erase_onNotify hp hw
  have hmem : ∀ {v}, v ≠ w → v ∈ s.current →
      v ∈ ({ s with posted := s.posted.eraseIdx n }.leave w).current := fun hv h =>
    (List.mem_cons.1 (hcur.mem_iff.1 h)).resolve_left hv
  constructor
  · exact hi.waits.trans (by rw [hst])
  · exact fun h => hon.trans (hi.dead h)
  · exact (List.nodup_cons.1 (hcur.nodup_iff.1 hi.nodup)).2
  · exact fun v hv => hi.old v (hcur.mem_iff.2 (List.mem_cons_of_mem w hv))
  · intro v
    change s.handler v = if v ∈ s.onNotify.erase w then some v else none
    rw [hon, hi.handler]
  · exact fun c => (hi.unique c).erase w
  · intro c v hv
    obtain ⟨hne, hv⟩ := (hi.unique c).mem_erase_iff.1 hv
    obtain ⟨hvc, hc⟩ := hi.connected c v hv
    exact ⟨hmem hne hvc, hst ▸ hc⟩
  · intro v hv
    change v ∈ s.onNotify.erase w at hv
    have hne : v ≠ w := (hi.nodup_onNotify.mem_erase_iff.1 hv).1
    rw [hon] at hv
    obtain ⟨c, hc, hvc⟩ := hi.linked v hv
    exact ⟨c, hst ▸ hc, (hi.unique c).mem_erase_iff.2 ⟨hne, hvc⟩⟩
  · intro v c hc
    rw [hst] at hc
    rw [owed_snoc_of_ends fun _ => rfl, ← hi.waiting v c hc]
    change v ∈ s.onNotify.erase w ↔ _
    rw [hon]

/-- **The call of an empty function keeps the invariant.** -/
theorem Held.empty (hi : Held as s) {n : ℕ} {p : Posted} (hp : s.posted[n]? = some p)
    (hw : p.handler = none) :
    Held (as ++ [.execute n]) { s with posted := s.posted.eraseIdx n } := by
  have hst : started (as ++ [.execute n]) = started as := started_snoc_of_none rfl
  have hcur := current_empty hp hw
  exact {
    waits := hi.waits.trans (by rw [hst])
    dead := hi.dead
    nodup := hcur.nodup_iff.1 hi.nodup
    old := fun v hv => hi.old v (hcur.mem_iff.2 hv)
    handler := hi.handler
    unique := hi.unique
    connected := fun c v hv =>
      ⟨hcur.mem_iff.1 (hi.connected c v hv).1, hst ▸ (hi.connected c v hv).2⟩
    linked := fun v hv => hst ▸ hi.linked v hv
    waiting := fun v c hc => by
      rw [owed_snoc_of_ends fun _ => rfl]
      exact hi.waiting v c (hst ▸ hc) }

/-- **Every step keeps the invariant.** -/
theorem Held.step (hi : Held as s) (h : Takes s a s' es) : Held (as ++ [a]) s' := by
  cases h with
  | wait ha => exact hi.wait ha
  | notify ha =>
    exact hi.release (b := s.alive) (hi.releases_onNotify rfl fun _ => rfl) (fun _ _ hw => hw)
      fun _ => .inl rfl
  | @fire c ha =>
    refine hi.release (b := s.alive) (hi.releases_connections c) ?_ ?_
    · intro h
      rw [ha] at h
      cases h
    · intro d
      by_cases hd : d = c
      · subst hd
        exact .inr ⟨Function.update_self _ _ _, fun w hw => hw⟩
      · exact .inl (Function.update_of_ne hd _ _)
  | returned hp hw => exact hi.returned hp hw
  | empty hp hw => exact hi.empty hp hw
  | destroy ha =>
    exact hi.release (b := false) (hi.releases_onNotify rfl fun _ => rfl) (fun _ _ hw => hw)
      fun _ => .inl rfl

/-! ## What is posted, and what returns -/

/-- What has been posted, and what has come of it. -/
structure Ended (as : List (Action κ)) (es : List Event) (s : ConditionVariable κ) : Prop where
  held : Held as s
  /-- a wait is posted once, with the code it is owed -/
  posts : ∀ w, postsOf w es = (owed as w).toList
  returns : ∀ w, returnsOf w es ++ s.pendingOf w = postsOf w es
  /-- each failed assertion has posted an empty function -/
  failures : es.countP Event.isFailure =
    es.count .badFunctionCall + s.posted.countP (·.handler.isNone)

variable {es' : List Event}

/-- What an action that releases waits adds to what is owed. -/
theorem Held.owed_release (hi : Held as s) (ha : Releases as s a ws ec) (w : Wait) :
    (owed (as ++ [a]) w).toList =
      (owed as w).toList ++ if w ∈ ws ∧ w ∈ s.onNotify then [ec] else [] := by
  rw [owed_snoc]
  rcases hw : (started as)[w]? with _ | c
  · have hnot : w ∉ s.onNotify := by
      intro h
      obtain ⟨c, hc, -⟩ := hi.linked w h
      rw [hw] at hc
      cases hc
    rw [owed_of_getElem?_eq_none hw, if_neg fun h => hnot h.2]
    rfl
  · rw [Option.bind_some]
    by_cases hon : w ∈ s.onNotify
    · rw [(hi.waiting w c hw).1 hon, ha.ends w hon c hw]
      by_cases h : w ∈ ws <;> simp [h, hon]
    · obtain ⟨ec', hec⟩ := Option.ne_none_iff_exists'.1 (mt (hi.waiting w c hw).2 hon)
      rw [hec, if_neg fun h => hon h.2, List.append_nil]
      rfl

/-- The handlers of those that are linked are posted. -/
theorem Held.pendingOf_release (hi : Held as s) (ws : List Wait) (ec : Option ErrorCode)
    (w : Wait) : pendingOf w (s.release ws ec) =
      s.pendingOf w ++ ws.flatMap fun v => if v = w ∧ v ∈ s.onNotify then [ec] else [] := by
  simp only [pendingOf, ConditionVariable.release, List.filterMap_append, List.filterMap_map]
  congr 1
  rw [List.filterMap_eq_flatMap_toList]
  refine List.flatMap_congr fun v _ => ?_
  simp only [Function.comp_apply, hi.handler]
  by_cases hvw : v = w
  · subst hvw
    by_cases hv : v ∈ s.onNotify <;> simp [codeOf, hv]
  · by_cases hv : v ∈ s.onNotify <;> simp [codeOf, hv, hvw]

/-- For the others an empty function is. -/
theorem Held.countP_release (hi : Held as s) (ws : List Wait) (ec : Option ErrorCode) :
    (s.release ws ec).posted.countP (·.handler.isNone) =
      s.posted.countP (·.handler.isNone) + ws.countP (· ∉ s.onNotify) := by
  simp only [ConditionVariable.release, List.countP_append, List.countP_map]
  congr 1
  refine List.countP_congr fun v _ => ?_
  simp only [Function.comp_apply, hi.handler]
  by_cases hv : v ∈ s.onNotify <;> simp [hv]

/-- **To release waits is to post those that are linked**, with the code they are owed
    from then on. -/
theorem Ended.release {b : Bool} {cs : κ → List Wait} (hi : Ended as es s)
    (ha : Releases as s a ws ec) (hh : Held (as ++ [a])
      ({ s with alive := b, connections := cs }.release ws ec))
    (hposts : ∀ w, postsOf w es' = ws.flatMap fun v =>
      if v = w ∧ v ∈ s.onNotify then [ec] else [])
    (hreturns : ∀ w, returnsOf w es' = []) (hbad : .badFunctionCall ∉ es')
    (hfail : es'.countP Event.isFailure = ws.countP (· ∉ s.onNotify)) :
    Ended (as ++ [a]) (es ++ es') ({ s with alive := b, connections := cs }.release ws ec) where
  held := hh
  posts w := by
    rw [postsOf_append, hi.posts, hposts, flatMap_once ha.nodup (· ∈ s.onNotify),
      hi.held.owed_release ha]
  returns w := by
    have hpending : pendingOf w ({ s with alive := b, connections := cs }.release ws ec) =
        s.pendingOf w ++ postsOf w es' := by
      rw [hposts]
      exact hi.held.pendingOf_release ws ec w
    rw [hpending, returnsOf_append, hreturns, List.append_nil, ← List.append_assoc, hi.returns,
      postsOf_append]
  failures := by
    have hempty := hi.held.countP_release ws ec
    rw [List.countP_append, hi.failures, hfail, List.count_append, List.count_eq_zero.2 hbad]
    change _ = _ + (s.release ws ec).posted.countP (·.handler.isNone)
    omega

/-- What is posted out of an entry. -/
theorem Held.postsOf_entry (hi : Held as s) (v w : Wait) (ec : Option ErrorCode) :
    postsOf w [.posted ⟨s.handler v, ec⟩] = if v = w ∧ v ∈ s.onNotify then [ec] else [] := by
  rw [hi.handler]
  by_cases hv : v ∈ s.onNotify
  · rw [if_pos hv]
    by_cases hvw : v = w
    · rw [if_pos ⟨hvw, hv⟩, hvw]
      simp [postsOf]
    · rw [if_neg fun h => hvw h.1]
      simp [postsOf, hvw]
  · rw [if_neg hv, if_neg fun h => hv h.2]
    rfl

theorem postsOf_flatMap_eq (f : Wait → List Event) (w : Wait) :
    postsOf w (ws.flatMap f) = ws.flatMap fun v => postsOf w (f v) := List.filterMap_flatMap ..

theorem Ended.notify {b : Bool} (hi : Ended as es s) (ho : a.object = none)
    (h : ∀ c : κ, a.ends c = some ec)
    (hh : Held (as ++ [a]) ({ s with alive := b }.release s.onNotify ec)) :
    Ended (as ++ [a]) (es ++ s.onNotify.map fun w => .posted ⟨s.handler w, ec⟩)
      ({ s with alive := b }.release s.onNotify ec) := by
  refine hi.release (hi.held.releases_onNotify ho h) hh ?_ ?_ ?_ ?_
  · intro w
    rw [List.map_eq_flatMap, postsOf_flatMap_eq]
    exact List.flatMap_congr fun v _ => hi.held.postsOf_entry v w ec
  · intro w
    rw [returnsOf, List.filterMap_map]
    exact List.filterMap_eq_nil_iff.2 fun _ _ => rfl
  · simp
  · have hon : s.onNotify.countP (· ∉ s.onNotify) = 0 :=
      List.countP_eq_zero.2 fun v hv => by simpa using hv
    rw [hon, List.countP_map]
    exact List.countP_eq_zero.2 fun _ _ => Bool.false_ne_true

theorem Ended.fire (hi : Ended as es s) (ha : s.alive = true) : Ended (as ++ [.fire c])
    (es ++ (s.connections c).flatMap fun w =>
      [.asserted w (w ∈ s.onNotify), .posted ⟨s.handler w, some .operationAborted⟩])
    ({ s with connections := Function.update s.connections c [] }.release (s.connections c)
      (some .operationAborted)) := by
  refine hi.release (b := s.alive) (hi.held.releases_connections c)
    (hi.held.step (.fire ha)) ?_ ?_ ?_ ?_
  · intro w
    rw [postsOf_flatMap_eq]
    exact List.flatMap_congr fun v _ => hi.held.postsOf_entry v w _
  · intro w
    rw [returnsOf, List.filterMap_flatMap]
    exact List.flatMap_eq_nil_iff.2 fun _ _ => rfl
  · simp
  · rw [List.countP_flatMap]
    generalize s.connections c = ws
    induction ws with
    | nil => rfl
    | cons v ws ih =>
      rw [List.map_cons, List.sum_cons, ih, List.countP_cons]
      by_cases hv : v ∈ s.onNotify <;> simp [Event.isFailure, hv, Nat.add_comm]

theorem Ended.returned (hi : Ended as es s) {n : ℕ} {p : Posted} (hp : s.posted[n]? = some p)
    (hw : p.handler = some w) : Ended (as ++ [.execute n]) (es ++ [.returned w p.ec])
      ({ s with posted := s.posted.eraseIdx n }.leave w) := by
  obtain ⟨l₁, l₂, hl, he⟩ := split_eraseIdx hp
  have hposts : ∀ v, postsOf v (es ++ [.returned w p.ec]) = postsOf v es := by
    intro v
    rw [postsOf_append]
    exact List.append_nil _
  refine ⟨hi.held.returned hp hw, ?_, ?_, ?_⟩
  · intro v
    rw [hposts, hi.posts, owed_snoc_of_ends fun _ => rfl]
  · intro v
    -- what was pending for `v` before, and is now
    have hold := hi.returns v
    rw [pendingOf, hl, List.filterMap_append] at hold
    have hnow : pendingOf v ({ s with posted := s.posted.eraseIdx n }.leave w) =
        l₁.filterMap (codeOf v) ++ l₂.filterMap (codeOf v) := by
      rw [pendingOf, leave, he, List.filterMap_append]
    have hret : returnsOf v [.returned w p.ec] = if w = v then [p.ec] else [] := by
      by_cases hv : w = v <;> simp [returnsOf, hv]
    rw [hposts, hnow, returnsOf_append, hret]
    by_cases hv : w = v
    · subst hv
      rw [List.filterMap_cons_some (b := p.ec) (by rw [codeOf, if_pos hw])] at hold
      -- nothing else was owed to it
      have hone : (owed as w).toList.length ≤ 1 := by
        cases owed as w <;> simp
      have hlen := congrArg List.length hold
      rw [hi.posts] at hlen
      simp only [List.length_append, List.length_cons] at hlen
      have h₁ : l₁.filterMap (codeOf w) = [] := List.length_eq_zero_iff.1 (by omega)
      have h₂ : l₂.filterMap (codeOf w) = [] := List.length_eq_zero_iff.1 (by omega)
      rw [← hold, h₁, h₂, if_pos rfl, List.append_nil, List.append_nil, List.nil_append]
    · rw [List.filterMap_cons_none (by rw [codeOf, if_neg]; simp [hw, hv])] at hold
      rw [← hold, if_neg hv, List.append_nil]
  · have hcount := hi.failures
    rw [hl] at hcount
    rw [List.countP_append, hcount, List.count_append]
    simp only [leave, he, List.countP_append, List.countP_cons, hw]
    simp [Event.isFailure]

theorem Ended.empty (hi : Ended as es s) {n : ℕ} {p : Posted} (hp : s.posted[n]? = some p)
    (hw : p.handler = none) : Ended (as ++ [.execute n]) (es ++ [.badFunctionCall])
      { s with posted := s.posted.eraseIdx n } := by
  obtain ⟨l₁, l₂, hl, he⟩ := split_eraseIdx hp
  have hposts : ∀ v, postsOf v (es ++ [.badFunctionCall]) = postsOf v es := by
    intro v
    rw [postsOf_append]
    exact List.append_nil _
  refine ⟨hi.held.empty hp hw, ?_, ?_, ?_⟩
  · intro v
    rw [hposts, hi.posts, owed_snoc_of_ends fun _ => rfl]
  · intro v
    have hpending : pendingOf v { s with posted := s.posted.eraseIdx n } = s.pendingOf v := by
      rw [pendingOf, pendingOf, he, hl, List.filterMap_append, List.filterMap_append,
        List.filterMap_cons_none (by rw [codeOf, hw, if_neg (Option.some_ne_none v).symm])]
    have hret : returnsOf v [.badFunctionCall] = [] := rfl
    rw [hposts, hpending, returnsOf_append, hret, List.append_nil, hi.returns]
  · have hcount := hi.failures
    rw [hl] at hcount
    rw [List.countP_append, hcount, List.count_append]
    simp only [he, List.countP_append, List.countP_cons, hw]
    simp [Event.isFailure]
    omega

theorem Ended.init : Ended [] [] (init : ConditionVariable κ) :=
  ⟨.init, fun _ => rfl, fun _ => rfl, rfl⟩

theorem Ended.wait (hi : Ended as es s) (ha : s.alive = true) :
    Ended (as ++ [.wait c]) (es ++ []) (s.wait c) where
  held := hi.held.wait ha
  posts w := by rw [List.append_nil, hi.posts, owed_snoc_of_ends fun _ => rfl]
  returns w := by
    rw [List.append_nil]
    exact hi.returns w
  failures := by
    rw [List.append_nil]
    exact hi.failures

/-- **Every step ends the waits that it has to end.** -/
theorem Ended.step (hi : Ended as es s) (h : Takes s a s' es') :
    Ended (as ++ [a]) (es ++ es') s' := by
  have hh := hi.held.step h
  cases h with
  | wait ha => exact hi.wait ha
  | notify ha => exact hi.notify (b := s.alive) rfl (fun _ => rfl) hh
  | fire ha => exact hi.fire ha
  | returned hp hw => exact hi.returned hp hw
  | empty hp hw => exact hi.empty hp hw
  | destroy ha => exact hi.notify (b := false) rfl (fun _ => rfl) hh

theorem account_of_run (h : machine.Run as es s) : Ended as es s :=
  h.invariant (P := Ended) .init fun _ hi hs => hi.step (takes_of_step hi.held hs)

theorem held_of_run (h : machine.Run as es s) : Held as s := (account_of_run h).held

/-- **Every wait ends once, in every run.**  Its handler is posted once, with the code that
    it is owed, and the wait returns with that, unless the handler has still to run.  When
    the variable is gone, each wait is owed a code.  And each failed assertion costs an
    empty function, which has been called or has still to be. -/
theorem ended_of_run (h : machine.Run as es s) :
    (∀ w, postsOf w es = (owed as w).toList ∧ returnsOf w es ++ s.pendingOf w = postsOf w es) ∧
    (s.alive = false → ∀ w < s.waits, ∃ ec, owed as w = some ec) ∧
    es.countP Event.isFailure =
      es.count .badFunctionCall + s.posted.countP (·.handler.isNone) := by
  have hi := account_of_run h
  refine ⟨fun w => ⟨hi.posts w, hi.returns w⟩, fun ha w hw => ?_, hi.failures⟩
  have hnot : w ∉ s.onNotify := by
    rw [hi.held.dead ha]
    exact List.not_mem_nil
  rw [hi.held.waits] at hw
  exact Option.ne_none_iff_exists'.1
    (mt (hi.held.waiting w _ (List.getElem?_eq_getElem hw)).2 hnot)

/-- A wait is notified, and its object called before it has returned; another one is
    cancelled, and a third one goes on to the end. -/
def firedTooLate : List (Action ℕ) :=
  [.wait 0, .notify none, .fire 0, .wait 1, .execute 0, .fire 1, .wait 0, .execute 0, .destroy]

theorem ended_of_firedTooLate : ∃ es s, machine.Run firedTooLate es s ∧
    returnsOf 0 es = [none] ∧ s.pendingOf 1 = [some .operationAborted] ∧
    es.countP Event.isFailure = 1 ∧ es.count .badFunctionCall = 1 ∧
    (∀ w, returnsOf w es ++ s.pendingOf w = (owed firedTooLate w).toList) ∧
    ∀ w < s.waits, ∃ ec, owed firedTooLate w = some ec := by
  obtain ⟨es, s, h⟩ : ∃ es s, machine.Run firedTooLate es s :=
    ⟨_, _, (rfl : machine.runFrom machine.init firedTooLate = some (_, _))⟩
  obtain ⟨hw, hall, -⟩ := ended_of_run h
  cases h
  exact ⟨_, _, rfl, rfl, rfl, rfl, rfl, fun w => (hw w).2.trans (hw w).1, hall rfl⟩

end

end ConditionVariable

end Upnp
