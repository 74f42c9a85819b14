/-
  What the calls of `get_response` are given, over a whole run.

  * `delivered_once`: the responses pushed are the first ones of each USN, every
    malformed datagram is pushed each time it arrives, and the calls take them
    from the queue in that order;
  * `faithful_iff`: the calls report what they take exactly if none of them ever
    takes a parse error.
-/
import Upnp.Lib.Firsts
import Upnp.QueryInv

namespace Upnp

open Lib

/-- The response of an item, if it is one. -/
def Item.response : Item → Option Response
  | .ok r => some r
  | .error _ => none

/-- The parse error of an item, if it is one. -/
def Item.parseError : Item → Option ParseError
  | .ok _ => none
  | .error e => some e

def Item.usn (i : Item) : Option Str := (Item.response i).map Response.usn

namespace Query

variable {s s' s₀ : Query} {a : Action} {as : List Action} {c : Call} {es es' : List Event}

/-- What the datagrams that were received in time are parsed to. -/
def arrivals (es : List Event) : List Item :=
  es.filterMap fun | .completed true al ⟨none, data⟩ => some (Response.parse al data) | _ => none

/-- The items taken from the queue, with the calls that took them. -/
def popped (es : List Event) : List (Call × Item) :=
  es.filterMap fun | .popped c i => some (c, i) | _ => none

/-- What the calls made before `stop()` returned. -/
def results (es : List Event) : List (Call × Outcome) :=
  es.filterMap fun | .returned c o => some (c, o) | _ => none

@[simp] theorem pushed_append : pushed (es ++ es') = pushed es ++ pushed es' :=
  List.filterMap_append ..

@[simp] theorem arrivals_append : arrivals (es ++ es') = arrivals es ++ arrivals es' :=
  List.filterMap_append ..

@[simp] theorem popped_append : popped (es ++ es') = popped es ++ popped es' :=
  List.filterMap_append ..

@[simp] theorem results_append : results (es ++ es') = results es ++ results es' :=
  List.filterMap_append ..

/-! ## The queue -/

/-- The items pushed, the items popped and the queue. -/
theorem queue_step (h : Took s a s' es) :
    s.responses ++ pushed es = (popped es).map (·.2) ++ s'.responses := by
  cases h with
  | rxStart _ | receive _ _ | finish _ _ | repeated _ _ _ _ | fresh _ _ _ _ | garbled _ _ _
  | timerLate _ _ | timerFirst _ _ | stop | refused _ _ => simp [pushed, popped, push, notify]
  | served ha hq => simp [pushed, popped, hq]
  | ended ha hq he | waits ha hq he => rw [ha.eq]; simp [pushed, popped]

/-- **The queue is first in, first out.** -/
theorem queue_run (h : machine.Run as es s) :
    pushed es = (popped es).map (·.2) ++ s.responses := by
  refine h.invariant (P := fun _ es s => pushed es = (popped es).map (·.2) ++ s.responses) rfl ?_
  intro as es s₁ a s₂ es' _ ih hs
  have := queue_step (took_of_step hs)
  rw [pushed_append, ih, List.append_assoc, this, popped_append, List.map_append, List.append_assoc]

/-! ## Each response once -/

theorem arrivals_wanted {r : Arrival} {al : Alloc} (h : s.rxEcAfter r = none) :
    arrivals (.completed s.inTime al r :: es) = Response.parse al r.data :: arrivals es := by
  obtain ⟨he, hs, hr⟩ := rxEcAfter_eq_none h
  have ht : s.inTime = true := by simp [inTime, he, hs]
  obtain ⟨ec, data⟩ := r
  cases hr
  simp [arrivals, ht]

theorem arrivals_unwanted {r : Arrival} {al : Alloc} {ec : ErrorCode}
    (h : s.rxEcAfter r = some ec) : arrivals (.completed s.inTime al r :: es) = arrivals es := by
  rcases ht : s.inTime with _ | _
  · rfl
  · obtain ⟨_ | ec', data⟩ := r
    · simp only [inTime, Bool.and_eq_true, Bool.not_eq_true', Option.isNone_iff_eq_none] at ht
      simp [rxEcAfter, ht.1, ht.2] at h
    · rfl

/-- What was pushed, and which USNs were seen, after what arrived. -/
structure Deduped (es : List Event) (s : Query) : Prop where
  pushed : pushed es = firsts Item.usn (arrivals es)
  seen : ∀ u, u ∈ s.alreadySeenUsns ↔ u ∈ (arrivals es).filterMap Item.usn

/-- Nothing arrives, and nothing is pushed. -/
theorem Deduped.idle (hd : Deduped es s) (ha : arrivals es' = []) (hp : Query.pushed es' = [])
    (hs : s'.alreadySeenUsns = s.alreadySeenUsns) : Deduped (es ++ es') s' :=
  ⟨by simp [ha, hp, hd.pushed], fun u => by rw [hs, hd.seen]; simp [ha]⟩

/-- An item that does not repeat an earlier one is pushed. -/
theorem Deduped.take (hd : Deduped es s) {i : Item} (ha : arrivals es' = [i])
    (hp : Query.pushed es' = if Repeats Item.usn (arrivals es) i then [] else [i])
    (hs : ∀ u, u ∈ s'.alreadySeenUsns ↔ u ∈ s.alreadySeenUsns ∨ u ∈ i.usn) :
    Deduped (es ++ es') s' := by
  constructor
  · rw [pushed_append, hd.pushed, hp, arrivals_append, ha, firsts_snoc]
    split <;> simp
  · intro u
    rw [hs, hd.seen, arrivals_append, ha, List.filterMap_append, List.mem_append]
    rcases hu : i.usn with _ | v <;> simp [hu, eq_comm]

theorem Deduped.repeats_iff (hd : Deduped es s) {rsp : Response} :
    Repeats Item.usn (arrivals es) (.ok rsp) ↔ rsp.usn ∈ s.alreadySeenUsns := by
  rw [hd.seen]
  simp [Repeats, Item.usn, Item.response]

theorem Deduped.step (hd : Deduped es s) (h : Took s a s' es') : Deduped (es ++ es') s' := by
  cases h with
  | rxStart _ | receive _ _ | timerLate _ _ | timerFirst _ _ | stop | refused _ _ =>
    exact hd.idle rfl rfl rfl
  | finish _ he => exact hd.idle (arrivals_unwanted he) rfl rfl
  | @repeated _ _ rsp _ he hp hm =>
    refine hd.take (arrivals_wanted he) ?_ ?_
    · rw [hp, if_pos (hd.repeats_iff.2 hm)]; rfl
    · intro u
      rw [hp]
      simp only [Item.usn, Item.response, Option.map_some, Option.mem_some_iff]
      exact ⟨.inl, fun h => h.elim id fun e => e ▸ hm⟩
  | @fresh _ _ rsp _ he hp hm =>
    refine hd.take (arrivals_wanted he) ?_ ?_
    · rw [hp, if_neg (mt hd.repeats_iff.1 hm)]; rfl
    · intro u
      rw [hp]
      simp only [Item.usn, Item.response, Option.map_some, Option.mem_some_iff, push, notify,
        Finset.mem_insert, eq_comm (a := u)]
      exact or_comm
  | @garbled _ _ e _ he hp =>
    refine hd.take (arrivals_wanted he) ?_ ?_
    · rw [hp, if_neg (by simp [Repeats, Item.usn, Item.response])]; rfl
    · intro u
      rw [hp]; simp [Item.usn, Item.response, push, notify]
  | served ha _ | ended ha _ _ | waits ha _ _ => exact hd.idle rfl rfl (by rw [ha.eq])

theorem deduped_of_run (h : machine.Run as es s) : Deduped es s :=
  h.invariant (P := fun _ es s => Deduped es s) ⟨rfl, by simp [machine, start, arrivals]⟩
    fun _ hd hs => hd.step (took_of_step hs)

/-- The parsed responses among some items. -/
def parsed (is : List Item) : List Response := is.filterMap Item.response

/-- The parse errors among some items. -/
def failed (is : List Item) : List ParseError := is.filterMap Item.parseError

/-- **Every response is delivered once, every malformed datagram each time it
    arrives.**  The items pushed are those popped followed by the queue. -/
theorem delivered_once (h : machine.Run as es s) :
    pushed es = (popped es).map (·.2) ++ s.responses ∧
    ((parsed (pushed es)).map Response.usn).Nodup ∧
    parsed (pushed es) = firsts (fun r => some r.usn) (parsed (arrivals es)) ∧
    (∀ u, u ∈ s.alreadySeenUsns ↔ u ∈ (parsed (pushed es)).map Response.usn) ∧
    (∀ l₁ r l₂, parsed (arrivals es) = l₁ ++ r :: l₂ →
      r ∈ parsed (pushed es) ∨ ∃ r' ∈ l₁, r' ∈ parsed (pushed es) ∧ r'.usn = r.usn) ∧
    failed (pushed es) = failed (arrivals es) := by
  have hd := deduped_of_run h
  have hp : parsed (pushed es) = firsts (fun r => some r.usn) (parsed (arrivals es)) := by
    rw [hd.pushed]
    exact firsts_filterMap fun i => rfl
  have hk : ∀ l : List Item, (parsed l).map Response.usn = l.filterMap Item.usn := by
    intro l
    rw [parsed, List.map_filterMap]
    rfl
  refine ⟨queue_run h, ?_, hp, ?_, ?_, ?_⟩
  · rw [hk, hd.pushed]
    exact nodup_keys_firsts
  · intro u
    rw [hd.seen, hk, hd.pushed, mem_keys_firsts]
  · intro l₁ r l₂ hl
    rw [hp]
    refine (firsts_split hl).imp id ?_
    rintro ⟨r', h₁, hm, k, hk, hk'⟩
    exact ⟨r', h₁, hm, (Option.some.inj hk').trans (Option.some.inj hk).symm⟩
  · rw [hd.pushed]
    refine filterMap_firsts ?_
    intro i e hi
    cases i with
    | ok r => cases hi
    | error e => rfl

/-- The same response twice, then a malformed datagram, and a call that takes
    the response. -/
def twice : List Action :=
  let al : Alloc := fun _ => ⟨1, Int.one_pos⟩
  [.rxStart, .receive ⟨none, []⟩, .rxResume al, .receive ⟨none, []⟩, .rxResume al,
    .receive ⟨none, ['x', '\n']⟩, .rxResume al, .getResponse 0]

theorem delivered_once_twice : ∃ es s, machine.Run twice es s ∧
    (arrivals es).length = 3 ∧ (pushed es).length = 2 ∧ s.responses.length = 1 ∧
    failed (pushed es) = failed (arrivals es) :=
  ⟨_, _, rfl, rfl, rfl, rfl, (delivered_once (show machine.Run twice _ _ from rfl)).2.2.2.2.2⟩

/-! ## What the calls report -/

/-- What `get_response` has to return for an item. -/
def report : Item → Except GetResponseError Response
  | .ok r => .ok r
  | .error e => .error (.parse e)

/-- What the loop of `get_response` returns for an item. -/
def outcome (i : Item) : Outcome := (value i).map .ok

theorem outcome_eq_report {i : Item} : outcome i = .ok (report i) ↔ ∃ r, i = .ok r := by
  cases i with
  | ok r => simp [outcome, value, report, Except.map]
  | error e => simp [outcome, value, report, Except.map]

/-- A call came too late: the queue is drained and `ec` is the end of it. -/
def Late (s : Query) (r : Call × Outcome) : Prop :=
  s.responses = [] ∧ ∃ ec, s.rxEc = some ec ∧ r.2 = .ok (.error (.code ec))

/-- The results so far are `f` of the items taken, in the order of their arrival,
    and after the last of them the terminal error. -/
structure Reported (f : Item → Outcome) (es : List Event) (s : Query) : Prop where
  queue : pushed es = (popped es).map (·.2) ++ s.responses
  results : ∃ late, results es = (popped es).map (fun p => (p.1, f p.2)) ++ late ∧
    ∀ r ∈ late, Late s r

/-- Each call returned the item it took, parse errors as such. -/
abbrev Faithful (es : List Event) (s : Query) : Prop := Reported (fun i => .ok (report i)) es s

theorem Late.step {r : Call × Outcome} (hl : Late s r) (h : Took s a s' es) :
    Late s' r ∧ popped es = [] := by
  obtain ⟨hq, ec, he, hr⟩ := hl
  obtain ⟨he', hp⟩ := took_rxEc h he
  have hstep := queue_step h
  rw [hq, hp, List.nil_append, eq_comm, List.append_eq_nil_iff, List.map_eq_nil_iff] at hstep
  exact ⟨⟨hstep.2, ec, he', hr⟩, hstep.1⟩

theorem results_step (h : Took s a s' es) :
    ∃ late, results es = (popped es).map (fun p => (p.1, outcome p.2)) ++ late ∧
      ∀ r ∈ late, Late s' r := by
  cases h with
  | rxStart _ | receive _ _ | finish _ _ | repeated _ _ _ _ | fresh _ _ _ _ | garbled _ _ _
  | timerLate _ _ | timerFirst _ _ | stop | refused _ _ | waits _ _ _ => exact ⟨[], rfl, nofun⟩
  | served ha hq => exact ⟨[], rfl, nofun⟩
  | @ended _ c s₀ ec ha hq he =>
    refine ⟨[(c, .ok (.error (.code ec)))], rfl, ?_⟩
    intro r hr
    rw [List.mem_singleton.1 hr, ha.eq]
    exact ⟨hq, ec, he, rfl⟩

/-- **What the calls return, in every run.** -/
theorem reported_of_run (h : machine.Run as es s) : Reported outcome es s := by
  refine ⟨queue_run h, ?_⟩
  refine h.invariant (P := fun _ es s => ∃ late, results es =
    (popped es).map (fun p => (p.1, outcome p.2)) ++ late ∧ ∀ r ∈ late, Late s r)
    ⟨[], rfl, nofun⟩ ?_
  rintro as es s₁ a s₂ es' - ⟨late, hr, hl⟩ hs
  have ht := took_of_step hs
  obtain ⟨late', hr', hl'⟩ := results_step ht
  rcases late with _ | ⟨r, late⟩
  · exact ⟨late', by simp [hr, hr'], hl'⟩
  · -- after the terminal error there is nothing left to take
    have hp := ((hl r List.mem_cons_self).step ht).2
    refine ⟨(r :: late) ++ late', by simp [hr, hr', hp], ?_⟩
    intro q hq
    rcases List.mem_append.1 hq with hq | hq
    · exact ((hl q hq).step ht).1
    · exact hl' q hq

/-- No call that gets to the loop finds a parse error at the front of the queue. -/
def Clean (s : Query) (a : Action) : Prop :=
  ∀ c s₀, Enters s a c s₀ → ∀ e rest, s.responses ≠ .error e :: rest

theorem clean_step (h : Took s a s' es) : Clean s a ↔ ∀ p ∈ popped es, ∃ r, p.2 = .ok r := by
  cases h with
  | rxStart _ | receive _ _ | finish _ _ | repeated _ _ _ _ | fresh _ _ _ _ | garbled _ _ _
  | timerLate _ _ | timerFirst _ _ | stop =>
    refine iff_of_true ?_ (by simp [popped])
    intro c s₀ he
    cases he
  | refused hc hs =>
    refine iff_of_true ?_ (by simp [popped])
    rintro c s₀ ⟨hc', hs'⟩
    rw [hs] at hs'; cases hs'
  | ended ha hq _ | waits ha hq _ =>
    refine iff_of_true ?_ (by simp [popped])
    intro c s₀ _ e rest
    simp [hq]
  | @served _ c s₀ i rest ha hq =>
    have hpop : popped [.popped c i, .returned c ((value i).map .ok)] = [(c, i)] := rfl
    rw [hpop, List.forall_mem_singleton]
    constructor
    · intro hc
      cases i with
      | ok r => exact ⟨r, rfl⟩
      | error e => exact absurd hq (hc c s₀ ha e rest)
    · rintro ⟨r, rfl : i = .ok r⟩ c' s₀' _ e rest' he
      rw [hq] at he
      cases he

theorem clean_run (h : machine.Run as es s) :
    machine.Meets Clean machine.init as ↔ ∀ p ∈ popped es, ∃ r, p.2 = .ok r := by
  refine h.invariant (P := fun as es _ => machine.Meets Clean machine.init as ↔
    ∀ p ∈ popped es, ∃ r, p.2 = .ok r) (by simp [Machine.Meets, popped]) ?_
  intro as es s₁ a s₂ es' hr ih hs
  rw [Machine.meets_snoc hr, ih, clean_step (took_of_step hs), popped_append,
    List.forall_mem_append]

/-- **The calls report what they take exactly in the runs in which no call finds
    a parse error at the front of the queue.** -/
theorem faithful_iff (h : machine.Run as es s) :
    Faithful es s ↔ machine.Meets Clean machine.init as := by
  have hrep := reported_of_run h
  obtain ⟨late, hr, hl⟩ := hrep.results
  rw [clean_run h]
  constructor
  · rintro ⟨-, late', hr', -⟩ p hp
    rw [hr] at hr'
    have heq := (List.append_inj hr' (by simp)).1
    have := List.map_inj_left.1 heq p hp
    exact outcome_eq_report.1 (Prod.mk.inj this).2
  · intro hc
    refine ⟨hrep.queue, late, ?_, hl⟩
    rw [hr]
    congr 1
    refine List.map_inj_left.2 ?_
    intro p hp
    rw [outcome_eq_report.2 (hc p hp)]

/-- A malformed datagram arrives, and a call takes it. -/
def malformed : List Action :=
  let al : Alloc := fun _ => ⟨1, Int.one_pos⟩
  [.rxStart, .receive ⟨none, ['x', '\n']⟩, .rxResume al, .getResponse 0]

/-- The call does not return the parse error: it accesses a value that is not there. -/
theorem malformed_not_faithful : ∃ es s, machine.Run malformed es s ∧
    results es = [(0, .error .badResultAccess)] ∧ ¬ Faithful es s := by
  refine ⟨_, _, rfl, rfl, ?_⟩
  rintro ⟨-, late, hr, -⟩
  have hhead : some (0, (.error .badResultAccess : Outcome)) = some (0, .ok _) :=
    congrArg List.head? hr
  cases hhead

/-- Two responses arrive, and the first one again; two calls take them, and a third one
    waits until the time is over. -/
def wellFormed : List Action :=
  let al : Alloc := fun _ => ⟨1, Int.one_pos⟩
  let a := "HTTP/1.1 200 OK\nUSN: a\n".toList
  let b := "HTTP/1.1 200 OK\nUSN: b\n".toList
  [.rxStart, .receive ⟨none, a⟩, .rxResume al, .receive ⟨none, b⟩, .rxResume al,
    .receive ⟨none, a⟩, .rxResume al, .getResponse 0, .getResponse 1, .getResponse 2, .timer,
    .receive ⟨some .operationAborted, []⟩, .rxResume al, .wake 2]

theorem faithful_wellFormed : ∃ es s, machine.Run wellFormed es s ∧
    (results es).map (·.1) = [0, 1, 2] ∧ (popped es).length = 2 ∧ Faithful es s := by
  have hany : ((machine.runFrom machine.init wellFormed).any fun r =>
      (results r.2).map (·.1) = [0, 1, 2] ∧ (popped r.2).length = 2 ∧
        (popped r.2).all fun p => p.2.isOk) = true := by decide +kernel
  obtain ⟨⟨s, es⟩, hrun, hr⟩ := (Option.any_eq_true _ _).1 hany
  obtain ⟨hresults, hlength, hok⟩ := of_decide_eq_true hr
  have hrun : machine.Run wellFormed es s := hrun
  refine ⟨es, s, hrun, hresults, hlength, (faithful_iff hrun).2 ((clean_run hrun).2 ?_)⟩
  rintro ⟨c, i⟩ hp
  rcases i with e | r
  · cases List.all_eq_true.1 hok _ hp
  · exact ⟨r, rfl⟩

end Query

end Upnp
