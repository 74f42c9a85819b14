/-
  When `igd::discover` runs into a fault.

  * `loopBody_spec`: the body of its loop has no fault of its own;
  * `fault_iff`: it faults exactly if it takes a malformed datagram from the queue.
-/
import Upnp.Discovery

namespace Upnp

open Lib

namespace Discovery

open Igd

section
variable {Address : Type} {env : Env Address} {al : ℕ → Alloc} {s s' : Discovery}
  {as : List DiscoverAction} {es es' : List (DiscoverEvent Address)}

theorem loopBody_of_fault {turn : Turn Address} {found : Found} {f : Fault}
    (h : turn.outcome = .error f) : loopBody env al turn found = .inr (.error f) := by
  rw [loopBody, h]

/-- The loop body runs into no fault of its own, and keeps what `found` stands for. -/
theorem loopBody_spec (env : Env Address) (al : ℕ → Alloc) (turn : Turn Address) {found : Found}
    {l : List Candidate} (hl : found.Holds l) :
    (∃ found' l', loopBody env al turn found = .inl found' ∧ found'.Holds l') ∨
    (∃ f, turn.outcome = .error f ∧ loopBody env al turn found = .inr (.error f)) ∨
    ∃ r, loopBody env al turn found = .inr (.ok r) := by
  rcases ho : turn.outcome with f | (e | ec) | rsp
  · exact .inr (.inl ⟨f, rfl, loopBody_of_fault ho⟩)
  · exact .inl ⟨found, l, by rw [loopBody, ho], hl⟩
  · right; right
    rw [loopBody, ho]
    by_cases hc : ec = .timedOut ∧ found.igds ≠ []
    · exact ⟨_, if_pos hc⟩
    · exact ⟨_, if_neg hc⟩
  · rcases hq : queryRootDevice env turn.net turn.al rsp.location.1 with ec | rootDev
    · exact .inr (.inr ⟨.error .ioError, by simp only [loopBody, ho, hq]⟩)
    · obtain ⟨ep, rest, -, he, -⟩ := consumeEndpoint_of_queryRootDevice hq
      obtain ⟨found', hadd, hl'⟩ := addRoot_spec al (consumeEndpoint_colon he) hl rootDev
      exact .inl ⟨found', _, by simp only [loopBody, ho, hq, hadd], hl'⟩

/-- A malformed datagram was taken from the queue. -/
def TakesMalformed (qs : List Event) : Prop := ∃ p ∈ Query.popped qs, ∃ e, p.2 = .error e

theorem takesMalformed_append {qs qs' : List Event} :
    TakesMalformed (qs ++ qs') ↔ TakesMalformed qs ∨ TakesMalformed qs' := by
  simp only [TakesMalformed, Query.popped_append, List.mem_append, or_and_right, exists_or]

theorem not_takesMalformed {qs : List Event} (h : Query.popped qs = []) : ¬ TakesMalformed qs := by
  simp [TakesMalformed, h]

theorem takesMalformed_item {i : Item} {o : Outcome} :
    TakesMalformed [.popped 0 i, .returned 0 o] ↔ ∃ e, i = .error e := by
  have hpop : Query.popped [.popped 0 i, .returned 0 o] = [(0, i)] := rfl
  simp [TakesMalformed, hpop]

/-- What `found` holds, and which runs have faulted. -/
structure Sound (es : List (DiscoverEvent Address)) (s : Discovery) : Prop where
  holds : ∃ l, s.found.Holds l
  fault : ∀ f, s.phase = .returned (.error f) ↔
    f = .badResultAccess ∧ TakesMalformed (queryEvents es)

/-- The body of the loop faults on what it is given only. -/
theorem Sound.advance {s₁ : Discovery} (hl : ∃ l, s₁.found.Holds l) (turn : Turn Address)
    (hb : ∀ f, turn.outcome = .error f ↔ f = .badResultAccess ∧ TakesMalformed (queryEvents es)) :
    Sound es (s₁.advance env al turn).1 := by
  obtain ⟨l, hl⟩ := hl
  rcases advance_cases env al turn s₁ with ⟨found, hbody, heq⟩ | ⟨r, hbody, heq⟩
  · rw [heq]
    rcases loopBody_spec env al turn hl with ⟨found', l', h, hl'⟩ | ⟨f, -, h⟩ | ⟨r, h⟩
    · rw [hbody] at h
      cases h
      refine ⟨⟨l', hl'⟩, fun f => ?_⟩
      rw [← hb]
      refine iff_of_false (fun h => by cases h) fun ho => ?_
      rw [loopBody_of_fault ho] at hbody
      cases hbody
    · rw [hbody] at h; cases h
    · rw [hbody] at h; cases h
  · rw [heq]
    refine ⟨⟨l, hl⟩, fun f => ?_⟩
    rw [← hb]
    rcases loopBody_spec env al turn hl with ⟨found', l', h, -⟩ | ⟨f', ho, h⟩ | ⟨r', h⟩
    · rw [hbody] at h; cases h
    · rw [hbody, Sum.inr.injEq] at h
      rw [finish, h, ho, Phase.returned.injEq]
      simp only [Except.error.injEq]
    · rw [hbody, Sum.inr.injEq] at h
      rw [finish, h]
      refine iff_of_false (fun h => by cases h) fun ho => ?_
      rw [loopBody_of_fault ho, h] at hbody
      cases hbody

/-- Nothing malformed has been taken where `discover` goes on. -/
theorem Sound.clean (h : Sound es s) (hp : s.phase.result = none) :
    ¬ TakesMalformed (queryEvents es) := by
  intro hm
  rw [(h.fault .badResultAccess).2 ⟨rfl, hm⟩] at hp
  cases hp

theorem Sound.idle (h : Sound es s) (hf : s'.found = s.found) (hp : s.phase.result = none)
    (hp' : s'.phase.result = none) (hq : Query.popped (queryEvents es') = []) :
    Sound (es ++ es') s' := by
  refine ⟨hf ▸ h.holds, fun f => iff_of_false ?_ ?_⟩
  · intro hr
    rw [hr] at hp'
    cases hp'
  · rintro ⟨-, hm⟩
    rw [queryEvents_append, takesMalformed_append] at hm
    exact hm.elim (h.clean hp) (not_takesMalformed hq)

theorem Sound.step {b : DiscoverAction} (hi : Inv s) (h : Sound es s)
    (ht : Took env al s b s' es') : Sound (es ++ es') s' := by
  cases ht with
  | parked ha hq he hs => exact h.idle rfl ha.result rfl rfl
  | @asked _ _ q qs rsp ha hs ho hep =>
    have hc := h.clean ha.result
    refine ⟨h.holds, fun f => iff_of_false (fun h => by cases h) ?_⟩
    rintro ⟨-, hm⟩
    rw [queryEvents_append, queryEvents_query, takesMalformed_append] at hm
    rcases answers hi ha hs with ⟨-, -, rfl, -⟩ | ⟨i, rest, -, -, rfl, -⟩ |
      ⟨ec, -, -, -, -, rfl, -⟩
    · cases ho
    · obtain ⟨e, rfl⟩ := takesMalformed_item.1 (hm.resolve_left hc)
      cases ho
    · cases ho
  | @advanced _ _ q qs o ha hs ho =>
    have hc := h.clean ha.result
    have hl : ∃ l, ({ s with query := q } : Discovery).found.Holds l := h.holds
    refine Sound.advance hl _ fun f => ?_
    rw [queryEvents_append, queryEvents_append, queryEvents_query, queryEvents_advance,
      List.append_nil, takesMalformed_append, or_iff_right hc]
    rcases answers hi ha hs with ⟨-, -, rfl, -⟩ | ⟨i, rest, -, -, rfl, -⟩ |
      ⟨ec, -, -, -, -, rfl, -⟩
    · cases ho
    · obtain rfl : Query.outcome i = o := Option.some.inj ho
      rw [takesMalformed_item]
      cases i with
      | ok rsp => simp [unsent, Query.outcome, value, Except.map]
      | error e => simp [unsent, Query.outcome, value, Except.map, eq_comm]
    · obtain rfl : (.ok (.error (.code ec)) : Outcome) = o := Option.some.inj ho
      exact iff_of_false (fun h => by cases h) fun h => not_takesMalformed rfl h.2
  | staged hp hr => exact h.idle rfl (by rw [hp]; rfl) rfl rfl
  | fetched hp hr =>
    have hc := h.clean (by rw [hp]; rfl)
    refine Sound.advance h.holds _ fun f => iff_of_false (fun h => by cases h) ?_
    rw [queryEvents_append, queryEvents_advance, List.append_nil]
    exact fun hm => hc hm.2
  | background ha hs =>
    refine ⟨h.holds, fun f => ?_⟩
    rw [queryEvents_append, queryEvents_query, takesMalformed_append,
      or_iff_left (not_takesMalformed (popped_ofHandlers (Query.took_of_step hs) ha))]
    exact h.fault f

/-- **`discover` runs into a fault exactly if it takes a malformed datagram from the
    queue**, whatever the gateways say, and whatever runs in between. -/
theorem fault_iff (h : (machine env al).Run as es s) (f : Fault) :
    s.phase = .returned (.error f) ↔
      f = .badResultAccess ∧ ∃ p ∈ Query.popped (queryEvents es), ∃ e, p.2 = .error e := by
  have hs : Inv s ∧ Sound es s := by
    refine h.invariant (P := fun _ es s => Inv s ∧ Sound es s)
      ⟨.start, ⟨[], Found.holds_nil⟩, fun f => iff_of_false (fun h => by cases h) ?_⟩ ?_
    · exact fun hm => not_takesMalformed rfl hm.2
    · rintro as es s₁ a s₂ es' - ⟨hi, hs⟩ hstep
      have ht := took_of_step hi hstep
      exact ⟨hi.step ht, hs.step hi ht⟩
  exact hs.2.fault f

/-- A malformed datagram is taken. -/
def garbled : List DiscoverAction :=
  [.call, .background .rxStart, .background (.receive ⟨none, ['x', '\n']⟩),
    .background (.rxResume fun _ => ⟨1, Int.one_pos⟩), .wake]

theorem fault_of_garbled : ∃ es s, (machine (Env.oneHost fun _ => none)
      fun _ _ => ⟨1, Int.one_pos⟩).Run garbled es s ∧
    s.phase = .returned (.error .badResultAccess) :=
  ⟨_, _, rfl, (fault_iff (show (machine (Env.oneHost fun _ => none)
    fun _ _ => ⟨1, Int.one_pos⟩).Run garbled _ _ from rfl) _).2
      ⟨rfl, _, List.mem_cons_self, _, rfl⟩⟩

end

end Discovery

end Upnp
