/-
  Channels that can be closed.

  What is offered to a channel is queued, unless it has the key of something that was
  offered before.  A receiver asks for an item, and waits for its answer: the first item of
  the queue, or, when there is none and the channel is closed, the error that it was closed
  with.  Several receivers can wait at a time, and any of them may be answered first.

  * `step_iff`: what the steps do, one by one (`Took`);
  * `Account`: what has become of the offers and of the asks;
  * `account_of_run`: every item is answered once, in the order of the offers, then the
    error; and a receiver is answered as often as it asked, unless it waits.
-/
import Mathlib.Data.Finset.Erase
import Mathlib.Data.Finset.Insert
import Upnp.Lib.Firsts
import Upnp.Lib.Machine

namespace Lib

/-- Items of `ι` with keys of `κ`, receivers of `χ`, errors of `ε`. -/
structure Channel (ι κ χ ε : Type) where
  queue : List ι
  seen : Finset κ
  closed : Option ε
  asking : Finset χ

namespace Channel

variable {ι κ χ ε : Type}

inductive Action (ι χ ε : Type)
  | offer (i : ι)
  | close (e : ε)
  | ask (c : χ)
  | answer (c : χ)

inductive Event (ι χ ε : Type)
  | offered (i : ι)
  | answered (c : χ) (r : Except ε ι)

/-- What was offered. -/
def offers (es : List (Event ι χ ε)) : List ι :=
  es.filterMap fun | .offered i => some i | _ => none

/-- The answers, with the receivers that got them. -/
def answers (es : List (Event ι χ ε)) : List (χ × Except ε ι) :=
  es.filterMap fun | .answered c r => some (c, r) | _ => none

/-- The receivers that have asked. -/
def asks (as : List (Action ι χ ε)) : List χ :=
  as.filterMap fun | .ask c => some c | _ => none

section
variable {as as' : List (Action ι χ ε)} {es es' : List (Event ι χ ε)}

@[simp] theorem offers_append : offers (es ++ es') = offers es ++ offers es' :=
  List.filterMap_append ..

@[simp] theorem answers_append : answers (es ++ es') = answers es ++ answers es' :=
  List.filterMap_append ..

@[simp] theorem asks_append : asks (as ++ as') = asks as ++ asks as' := List.filterMap_append ..

end

/-- The answers are the items `is`, and then errors, if the channel is closed and empty. -/
def Drained (s : Channel ι κ χ ε) (rs : List (Except ε ι)) (is : List ι) : Prop :=
  rs = is.map .ok ∨
    ∃ e n, s.queue = [] ∧ s.closed = some e ∧ rs = is.map .ok ++ List.replicate n (.error e)

/-- There are no errors while there are items, and before the channel is closed. -/
theorem Drained.open {s : Channel ι κ χ ε} {rs : List (Except ε ι)} {is : List ι}
    (h : Drained s rs is) (ho : s.queue ≠ [] ∨ s.closed = none) : rs = is.map .ok := by
  rcases h with h | ⟨e, n, hq, hc, -⟩
  · exact h
  · rcases ho with ho | ho
    · exact absurd hq ho
    · rw [ho] at hc
      cases hc

variable [DecidableEq κ] (key : ι → Option κ)

/-- The key of `i` is among these. -/
def Known (seen : Finset κ) (i : ι) : Prop := ∃ k ∈ key i, k ∈ seen

instance (seen : Finset κ) (i : ι) : Decidable (Known key seen i) :=
  inferInstanceAs (Decidable (∃ k ∈ key i, k ∈ seen))

/-- `i` is queued, and its key is known from now on. -/
def push (s : Channel ι κ χ ε) (i : ι) : Channel ι κ χ ε :=
  { s with queue := s.queue ++ [i], seen := (key i).elim s.seen (insert · s.seen) }

theorem seen_push {key : ι → Option κ} {s : Channel ι κ χ ε} {i : ι} {k : κ} :
    k ∈ (s.push key i).seen ↔ k ∈ s.seen ∨ k ∈ key i := by
  rcases hk : key i with _ | k'
  · simp [push, hk]
  · simp [push, hk, or_comm, eq_comm]

variable [DecidableEq χ]

def step (s : Channel ι κ χ ε) :
    Action ι χ ε → Option (Channel ι κ χ ε × List (Event ι χ ε))
  | .offer i =>
    match s.closed with
    | some _ => none
    | none =>
      if Known key s.seen i then some (s, [.offered i]) else some (s.push key i, [.offered i])
  | .close e =>
    match s.closed with
    | some _ => none
    | none => some ({ s with closed := some e }, [])
  | .ask c => if c ∈ s.asking then none else some ({ s with asking := insert c s.asking }, [])
  | .answer c =>
    if c ∈ s.asking then
      match s.queue, s.closed with
      | i :: queue, _ =>
        some ({ s with queue := queue, asking := s.asking.erase c }, [.answered c (.ok i)])
      | [], some e => some ({ s with asking := s.asking.erase c }, [.answered c (.error e)])
      | [], none => none
    else none

/-- An open channel, with nothing in it. -/
def machine : Machine (Channel ι κ χ ε) (Action ι χ ε) (Event ι χ ε) :=
  ⟨⟨[], ∅, none, ∅⟩, step key⟩

/-! ## What a step does -/

/-- The step `a` from `s`, by what it comes to. -/
inductive Took (s : Channel ι κ χ ε) :
    Action ι χ ε → Channel ι κ χ ε → List (Event ι χ ε) → Prop
  | repeated {i : ι} (hc : s.closed = none) (hk : Known key s.seen i) :
    Took s (.offer i) s [.offered i]
  | queued {i : ι} (hc : s.closed = none) (hk : ¬ Known key s.seen i) :
    Took s (.offer i) (s.push key i) [.offered i]
  | close {e : ε} (hc : s.closed = none) : Took s (.close e) { s with closed := some e } []
  | ask {c : χ} (hn : c ∉ s.asking) : Took s (.ask c) { s with asking := insert c s.asking } []
  | item {c : χ} {i : ι} {queue : List ι} (hm : c ∈ s.asking) (hq : s.queue = i :: queue) :
    Took s (.answer c) { s with queue := queue, asking := s.asking.erase c }
      [.answered c (.ok i)]
  | error {c : χ} {e : ε} (hm : c ∈ s.asking) (hq : s.queue = []) (hc : s.closed = some e) :
    Took s (.answer c) { s with asking := s.asking.erase c } [.answered c (.error e)]

variable {key} {s s' : Channel ι κ χ ε} {a : Action ι χ ε} {as : List (Action ι χ ε)}
  {es es' : List (Event ι χ ε)}

/-- **The steps are those that `Took` lists.** -/
theorem step_iff : step key s a = some (s', es) ↔ Took key s a s' es := by
  constructor
  · intro h
    cases a with
    | offer i =>
      simp only [step] at h
      split at h
      · cases h
      · rename_i hc
        split at h <;> cases h
        · exact .repeated hc ‹_›
        · exact .queued hc ‹_›
    | close e =>
      simp only [step] at h
      split at h
      · cases h
      · cases h
        exact .close ‹_›
    | ask c =>
      simp only [step] at h
      split at h
      · cases h
      · cases h
        exact .ask ‹_›
    | answer c =>
      simp only [step] at h
      split at h
      · split at h
        · cases h
          exact .item ‹_› ‹_›
        · cases h
          exact .error ‹_› ‹_› ‹_›
        · cases h
      · cases h
  · intro h
    cases h with
    | repeated hc hk => simp only [step, hc, if_pos hk]
    | queued hc hk => simp only [step, hc, if_neg hk]
    | close hc => simp only [step, hc]
    | ask hn => exact if_neg hn
    | item hm hq => simp only [step, if_pos hm, hq]
    | error hm hq hc => simp only [step, if_pos hm, hq, hc]

/-! ## The account of a run -/

variable (key) in
/-- **The account of the offers and of the asks.** -/
structure Account (as : List (Action ι χ ε)) (es : List (Event ι χ ε)) (s : Channel ι κ χ ε) :
    Prop where
  items : ∃ is, Drained s ((answers es).map (·.2)) is ∧ is ++ s.queue = firsts key (offers es)
  seen : ∀ k, k ∈ s.seen ↔ k ∈ (offers es).filterMap key
  asked : ∀ c, (asks as).count c =
    ((answers es).map (·.1)).count c + if c ∈ s.asking then 1 else 0

theorem Account.init : Account key [] [] (machine key (χ := χ) (ε := ε)).init where
  items := ⟨[], .inl rfl, rfl⟩
  seen _ := by simp [machine, offers]
  asked _ := by simp [machine, asks, answers]

theorem Account.known_iff (h : Account key as es s) {i : ι} :
    Known key s.seen i ↔ Repeats key (offers es) i := by
  simp only [Known, Repeats, h.seen]

theorem Account.items_step (h : Account key as es s) (ht : Took key s a s' es') :
    ∃ is, Drained s' ((answers (es ++ es')).map (·.2)) is ∧
      is ++ s'.queue = firsts key (offers (es ++ es')) := by
  obtain ⟨is, hd, hq⟩ := h.items
  rw [answers_append, offers_append, List.map_append]
  cases ht with
  | @repeated i hc hk =>
    refine ⟨is, .inl ?_, ?_⟩
    · exact (List.append_nil _).trans (hd.open (.inr hc))
    · exact hq.trans ((if_pos (h.known_iff.1 hk)).symm.trans firsts_snoc.symm)
  | @queued i hc hk =>
    refine ⟨is, .inl ?_, ?_⟩
    · exact (List.append_nil _).trans (hd.open (.inr hc))
    · refine Eq.trans ?_ ((if_neg (mt h.known_iff.2 hk)).symm.trans firsts_snoc.symm)
      rw [← hq, List.append_assoc]
      rfl
  | close hc =>
    refine ⟨is, .inl ?_, ?_⟩
    · exact (List.append_nil _).trans (hd.open (.inr hc))
    · rw [hq]
      exact congrArg _ (List.append_nil _).symm
  | ask hn =>
    refine ⟨is, ?_, ?_⟩
    · rw [show (answers ([] : List (Event ι χ ε))).map (·.2) = [] from rfl, List.append_nil]
      exact hd
    · rw [hq]
      exact congrArg _ (List.append_nil _).symm
  | @item c i queue hm hi =>
    have hopen := hd.open (.inl (by rw [hi]; exact List.cons_ne_nil _ _))
    refine ⟨is ++ [i], .inl ?_, ?_⟩
    · rw [hopen, List.map_append]
      rfl
    · rw [List.append_assoc, List.singleton_append, ← hi, hq]
      exact congrArg _ (List.append_nil _).symm
  | @error c e hm hi hc =>
    refine ⟨is, .inr ?_, ?_⟩
    · rcases hd with hd | ⟨e', n, -, hc', hd⟩
      · refine ⟨e, 1, hi, hc, ?_⟩
        rw [hd]
        rfl
      · obtain rfl : e' = e := by simpa [hc'] using hc
        refine ⟨e', n + 1, hi, hc, ?_⟩
        rw [hd, List.append_assoc, List.replicate_succ']
        rfl
    · rw [hq]
      exact congrArg _ (List.append_nil _).symm

theorem Account.seen_step (h : Account key as es s) (ht : Took key s a s' es') (k : κ) :
    k ∈ s'.seen ↔ k ∈ (offers (es ++ es')).filterMap key := by
  have hone : ∀ i, k ∈ (offers [(.offered i : Event ι χ ε)]).filterMap key ↔ k ∈ key i := by
    intro i
    simp [offers]
  rw [offers_append, List.filterMap_append, List.mem_append, ← h.seen]
  cases ht with
  | repeated hc hk =>
    obtain ⟨k', hk', hs⟩ := hk
    rw [hone]
    refine (or_iff_left_of_imp ?_).symm
    intro hk
    rwa [Option.mem_unique hk hk']
  | queued hc hk => rw [seen_push, hone]
  | close _ | ask _ | item _ _ | error _ _ _ => exact (or_iff_left List.not_mem_nil).symm

/-- A receiver that waits no more has been answered. -/
theorem count_erase {asking : Finset χ} {c d : χ} (hm : d ∈ asking) :
    ([d].count c + if c ∈ asking.erase d then 1 else 0) = if c ∈ asking then 1 else 0 := by
  by_cases hcd : c = d
  · subst hcd
    simp [hm]
  · simp [hcd, Ne.symm hcd]

theorem Account.asked_step (h : Account key as es s) (ht : Took key s a s' es') (c : χ) :
    (asks (as ++ [a])).count c =
      ((answers (es ++ es')).map (·.1)).count c + if c ∈ s'.asking then 1 else 0 := by
  rw [asks_append, answers_append, List.map_append, List.count_append, List.count_append, h.asked]
  cases ht with
  | repeated _ _ | queued _ _ | close _ => rfl
  | @ask d hn =>
    have hask : asks [(.ask d : Action ι χ ε)] = [d] := rfl
    rw [hask]
    by_cases hcd : c = d
    · subst hcd
      simp [hn, answers]
    · simp [hcd, Ne.symm hcd, answers]
  | @item d i queue hm hi =>
    have hans : (answers [(.answered d (.ok i) : Event ι χ ε)]).map (·.1) = [d] := rfl
    rw [hans, Nat.add_assoc _ (List.count c [d]), count_erase hm]
    rfl
  | @error d e hm hi hc =>
    have hans : (answers [(.answered d (.error e) : Event ι χ ε)]).map (·.1) = [d] := rfl
    rw [hans, Nat.add_assoc _ (List.count c [d]), count_erase hm]
    rfl

/-- **Every item is answered once, in order, and every ask at most once.** -/
theorem account_of_run (h : (machine key).Run as es s) : Account key as es s := by
  refine h.invariant (P := fun as es s => Account key as es s) .init ?_
  intro as es s₁ a s₂ es' _ ha hs
  have ht := step_iff.1 hs
  exact ⟨ha.items_step ht, ha.seen_step ht, ha.asked_step ht⟩

end Channel

end Lib
