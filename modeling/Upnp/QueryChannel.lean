/-
  What an SSDP query is: a channel that is closed by the timer, an error or `stop()`.

  The datagrams that arrive in time are offered to the channel, and the calls of
  `get_response` ask it.  A call takes its answer in one step, some time between its start
  and its return, however often it was woken up in between for nothing.

  * `Represents`, `Implements`: what the states and the runs have to do with each other;
  * `channel_of_run`: every run of a query is one of a channel, with the same datagrams and
    the same results, in the same order;
  * `calls_of_run`: so every call returns once, or it waits.
-/
import Mathlib.Data.Finset.Basic
import Upnp.Lib.Channel
import Upnp.Lib.Simulation
import Upnp.QueryHistory

namespace Upnp

open Lib

namespace Query

/-- What can be seen of a run: the datagrams in time, as they are parsed, and the results. -/
def shown (es : List Event) : List (Item ⊕ Call × Outcome) :=
  es.filterMap fun
    | .completed true al ⟨none, data⟩ => some (.inl (Response.parse al data))
    | .returned c o => some (.inr (c, o))
    | _ => none

/-- What a call of `get_response` makes of the answer of a channel. -/
def answered : Except ErrorCode Item → Outcome
  | .ok i => outcome i
  | .error ec => .ok (.error (.code ec))

/-- The same of a channel. -/
def channelShown (ds : List (Channel.Event Item Call ErrorCode)) : List (Item ⊕ Call × Outcome) :=
  ds.map fun
    | .offered i => .inl i
    | .answered c r => .inr (c, answered r)

/-- The calls of `get_response` that were made. -/
def calls (as : List Action) : List Call :=
  as.filterMap fun | .getResponse c => some c | _ => none

/-- The calls that were made after `stop()`. -/
def refusals (es : List Event) : List Call :=
  es.filterMap fun | .refused c => some c | _ => none

structure Represents (s : Query) (t : Channel Item Str Call ErrorCode) : Prop where
  queue : t.queue = s.responses
  seen : t.seen = s.alreadySeenUsns
  closed : t.closed = s.rxEc
  asking : t.asking = s.suspended

/-- The channel is offered what arrives, asked by the calls that are not refused, and gives
    what they return. -/
structure Implements (as : List Action) (es : List Event)
    (bs : List (Channel.Action Item Call ErrorCode))
    (ds : List (Channel.Event Item Call ErrorCode)) : Prop where
  shown : shown es = channelShown ds
  asked : ∀ c, (calls as).count c = (refusals es).count c + (Channel.asks bs).count c

variable {s s' s₀ : Query} {a : Action} {as as' : List Action} {c : Call} {es es' : List Event}
  {t t' : Channel Item Str Call ErrorCode} {bs bs' : List (Channel.Action Item Call ErrorCode)}
  {ds ds' : List (Channel.Event Item Call ErrorCode)}

theorem Implements.append (h : Implements as es bs ds) (h' : Implements as' es' bs' ds') :
    Implements (as ++ as') (es ++ es') (bs ++ bs') (ds ++ ds') where
  shown := by
    rw [Query.shown, List.filterMap_append, channelShown, List.map_append]
    exact congrArg₂ _ h.shown h'.shown
  asked c := by
    rw [Channel.asks_append, List.count_append, calls, List.filterMap_append, List.count_append,
      refusals, List.filterMap_append, List.count_append]
    have := h.asked c
    have := h'.asked c
    simp only [calls, refusals] at *
    omega

/-- The step `a` to `s'` is one of the channel in the state `t`, or several. -/
def Matched (t : Channel Item Str Call ErrorCode) (a : Action) (s' : Query)
    (es : List Event) : Prop :=
  ∃ bs ds t', (Channel.machine Item.usn).RunFrom t bs ds t' ∧ Represents s' t' ∧
    Implements [a] es bs ds

/-- Nothing that the channel knows of. -/
theorem matched_nil (h : Represents s' t) (hs : shown es = [])
    (hc : ∀ c, (calls [a]).count c = (refusals es).count c) : Matched t a s' es :=
  ⟨[], [], t, rfl, h, hs, hc⟩

theorem matched_one {b : Channel.Action Item Call ErrorCode}
    (hb : Channel.Took Item.usn t b t' ds) (h : Represents s' t') (hs : shown es = channelShown ds)
    (hc : ∀ c, (calls [a]).count c = (refusals es).count c + (Channel.asks [b]).count c) :
    Matched t a s' es := by
  have hrun : (Channel.machine Item.usn).RunFrom t [b] ds t' := Machine.runFrom_cons.2
    ⟨t', ds, [], Channel.step_iff.2 hb, rfl, (List.append_nil ds).symm⟩
  exact ⟨[b], ds, t', hrun, h, hs, hc⟩

/-! ## The datagrams -/

/-- A datagram in time is seen, any other one is not. -/
theorem shown_completed {al : Alloc} {r : Arrival} :
    shown (.completed s.inTime al r :: es) =
      (if s.rxEcAfter r = none then [.inl (Response.parse al r.data)] else []) ++ shown es := by
  rcases hr : s.rxEcAfter r with _ | ec
  · obtain ⟨he, hs, hec⟩ := rxEcAfter_eq_none hr
    have ht : s.inTime = true := by simp [inTime, he, hs]
    obtain ⟨ec, data⟩ := r
    cases hec
    simp [shown, ht]
  · rcases ht : s.inTime with _ | _
    · simp [shown]
    · obtain ⟨_ | ec', data⟩ := r
      · simp only [inTime, Bool.and_eq_true, Bool.not_eq_true', Option.isNone_iff_eq_none] at ht
        simp [rxEcAfter, ht.1, ht.2] at hr
      · simp [shown]

theorem Represents.known_iff (h : Represents s t) {rsp : Response} :
    Channel.Known Item.usn t.seen (.ok rsp) ↔ rsp.usn ∈ s.alreadySeenUsns := by
  simp [Channel.Known, Item.usn, Item.response, h.seen]

/-! ## The calls -/

/-- A call that gets to the loop is one that asks, from now on or since earlier. -/
theorem Enters.asks (h : Enters s a c s₀) (hi : Inv s) (hr : Represents s t) :
    ∃ bs, (Channel.machine Item.usn).RunFrom t bs []
        { t with asking := insert c s.suspended } ∧
      ∀ d, (calls [a]).count d = (Channel.asks bs).count d := by
  cases h with
  | call hc hs =>
    refine ⟨[.ask c], ?_, fun d => rfl⟩
    have hn : c ∉ t.asking := hr.asking ▸ hc
    have hask : Channel.Took Item.usn t (.ask c) { t with asking := insert c t.asking } [] :=
      .ask hn
    refine Machine.runFrom_cons.2 ⟨_, [], [], Channel.step_iff.2 hask, ?_, rfl⟩
    rw [hr.asking]
    rfl
  | wake hc =>
    refine ⟨[], ?_, fun d => rfl⟩
    have hm : c ∈ s.suspended := (hi.frames c).2 (.inr hc)
    rw [Finset.insert_eq_of_mem hm, ← hr.asking]
    rfl

/-- A call that gets its answer. -/
theorem matched_answer (h : Enters s a c s₀) (hi : Inv s) (hr : Represents s t)
    {r : Except ErrorCode Item}
    (ht : Channel.Took Item.usn { t with asking := insert c s.suspended } (.answer c) t'
      [.answered c r]) (hr' : Represents s' t') (hs : shown es = [.inr (c, answered r)])
    (hn : refusals es = []) : Matched t a s' es := by
  obtain ⟨bs, hbs, hasks⟩ := h.asks hi hr
  refine ⟨bs ++ [.answer c], [.answered c r], t', ?_, hr', hs, ?_⟩
  · exact hbs.snoc (Channel.step_iff.2 ht)
  · intro d
    rw [hn, hasks, Channel.asks_append]
    simp [Channel.asks]

theorem erase_insert_suspended (h : Enters s a c s₀) :
    (insert c s.suspended).erase c = s₀.suspended.erase c := by
  rw [Finset.erase_insert_eq_erase, h.eq]

/-- **Each step of a query is one of a channel, or two, or none.** -/
theorem Took.matched (h : Took s a s' es) (hi : Inv s) (hr : Represents s t) :
    Matched t a s' es := by
  cases h with
  | rxStart _ | receive _ _ | timerLate _ _ | stop =>
    exact matched_nil ⟨hr.queue, hr.seen, hr.closed, hr.asking⟩ rfl fun _ => rfl
  | refused hc hs => exact matched_nil hr rfl fun _ => rfl
  | @finish al r ec hrx he =>
    have hshown : shown [.completed s.inTime al r] = [] := by
      rw [shown_completed, he]
      rfl
    rcases hec : s.rxEc with _ | ec'
    · exact matched_one (.close (e := ec) (hr.closed.trans hec))
        ⟨hr.queue, hr.seen, rfl, hr.asking⟩ hshown fun _ => rfl
    · rw [rxEcAfter_of_some hec] at he
      exact matched_nil ⟨hr.queue, hr.seen, hr.closed.trans (hec.trans he), hr.asking⟩ hshown
        fun _ => rfl
  | @repeated al r rsp hrx he hp hm =>
    obtain ⟨hec, -, -⟩ := rxEcAfter_eq_none he
    refine matched_one (.repeated (i := .ok rsp) (hr.closed.trans hec) (hr.known_iff.2 hm))
      ⟨hr.queue, hr.seen, hr.closed, hr.asking⟩ ?_ fun _ => rfl
    rw [shown_completed, if_pos he, hp]
    rfl
  | @fresh al r rsp hrx he hp hm =>
    obtain ⟨hec, -, -⟩ := rxEcAfter_eq_none he
    refine matched_one (.queued (i := .ok rsp) (hr.closed.trans hec) (mt hr.known_iff.1 hm))
      ⟨?_, ?_, hr.closed, hr.asking⟩ ?_ fun _ => rfl
    · exact congrArg (· ++ _) hr.queue
    · exact congrArg (insert rsp.usn) hr.seen
    · rw [shown_completed, if_pos he, hp]
      rfl
  | @garbled al r e hrx he hp =>
    obtain ⟨hec, -, -⟩ := rxEcAfter_eq_none he
    have hk : ¬ Channel.Known Item.usn t.seen (.error e) := by
      rintro ⟨k, hk, -⟩
      cases hk
    refine matched_one (.queued (i := .error e) (hr.closed.trans hec) hk)
      ⟨?_, ?_, hr.closed, hr.asking⟩ ?_ fun _ => rfl
    · exact congrArg (· ++ _) hr.queue
    · exact hr.seen
    · rw [shown_completed, if_pos he, hp]
      rfl
  | timerFirst ht he =>
    exact matched_one (.close (e := .timedOut) (hr.closed.trans he))
      ⟨hr.queue, hr.seen, rfl, hr.asking⟩ rfl fun _ => rfl
  | @served _ c s₀ i rest ha hq =>
    refine matched_answer ha hi hr
      (.item (Finset.mem_insert_self c _) (hr.queue.trans hq)) ?_ rfl rfl
    refine ⟨rfl, ?_, ?_, erase_insert_suspended ha⟩
    · rw [ha.eq]
      exact hr.seen
    · rw [ha.eq]
      exact hr.closed
  | @ended _ c s₀ ec ha hq he =>
    refine matched_answer ha hi hr
      (.error (Finset.mem_insert_self c _) (hr.queue.trans hq) (hr.closed.trans he)) ?_ rfl rfl
    refine ⟨?_, ?_, ?_, erase_insert_suspended ha⟩
    · rw [ha.eq]
      exact hr.queue
    · rw [ha.eq]
      exact hr.seen
    · rw [ha.eq]
      exact hr.closed
  | @waits _ c s₀ ha hq he =>
    obtain ⟨bs, hbs, hasks⟩ := ha.asks hi hr
    refine ⟨bs, [], _, hbs, ?_, rfl, fun d => ?_⟩
    · rw [ha.eq]
      exact ⟨hr.queue, hr.seen, hr.closed, rfl⟩
    · rw [hasks]
      exact (Nat.zero_add _).symm

/-- A query does what a channel does. -/
theorem channel_simulation : Machine.Simulation machine (Channel.machine Item.usn)
    (fun s t => Inv s ∧ Represents s t) Implements where
  init := ⟨.start, rfl, rfl, rfl, rfl⟩
  nil := ⟨rfl, fun _ => rfl⟩
  append := Implements.append
  step h hs := by
    have ht := took_of_step hs
    obtain ⟨bs, ds, t', hrun, hrep, himpl⟩ := ht.matched h.1 h.2
    exact ⟨bs, ds, t', hrun, ⟨h.1.step ht, hrep⟩, himpl⟩

/-- **Every run of a query is one of a channel**, with the same datagrams and the same
    results in the same order; every call that is not refused asks it once. -/
theorem channel_of_run (h : machine.Run as es s) : ∃ bs ds t,
    (Channel.machine Item.usn).Run bs ds t ∧ Represents s t ∧ Implements as es bs ds := by
  obtain ⟨bs, ds, t, hrun, ⟨-, hrep⟩, himpl⟩ := channel_simulation.run h
  exact ⟨bs, ds, t, hrun, hrep, himpl⟩

theorem channel_of_twice : ∃ es s bs ds t, machine.Run twice es s ∧
    (Channel.machine Item.usn).Run bs ds t ∧ Represents s t ∧ Implements twice es bs ds := by
  obtain ⟨bs, ds, t, h⟩ := channel_of_run (show machine.Run twice _ _ from rfl)
  exact ⟨_, _, bs, ds, t, rfl, h⟩

theorem results_eq_shown (es : List Event) :
    results es = (shown es).filterMap fun | .inl _ => none | .inr r => some r := by
  rw [results, shown, List.filterMap_filterMap]
  refine congrArg (List.filterMap · es) (funext fun e => ?_)
  rcases e with ⟨_ | _, al, _ | ec, data⟩ | _ | _ | _ | _ <;> rfl

theorem answers_eq_channelShown (ds : List (Channel.Event Item Call ErrorCode)) :
    (Channel.answers ds).map (fun p => (p.1, answered p.2)) =
      (channelShown ds).filterMap fun | .inl _ => none | .inr r => some r := by
  rw [Channel.answers, channelShown, List.map_filterMap, List.filterMap_map]
  refine congrArg (List.filterMap · ds) (funext fun e => ?_)
  cases e <;> rfl

/-- **Every call of `get_response` returns once, is refused once, or waits.** -/
theorem calls_of_run (h : machine.Run as es s) (c : Call) :
    (calls as).count c = (refusals es).count c + ((results es).map (·.1)).count c +
      if c ∈ s.suspended then 1 else 0 := by
  obtain ⟨bs, ds, t, hrun, ⟨hrep, himpl⟩⟩ := channel_simulation.run h
  have hcallers : (results es).map (·.1) = (Channel.answers ds).map (·.1) := by
    rw [results_eq_shown, himpl.shown, ← answers_eq_channelShown, List.map_map]
    rfl
  rw [himpl.asked, (Channel.account_of_run hrun).asked, hcallers, hrep.2.asking, Nat.add_assoc]

theorem calls_of_twice : ∃ es s, machine.Run twice es s ∧
    (calls twice).count 0 = (refusals es).count 0 + ((results es).map (·.1)).count 0 +
      (if 0 ∈ s.suspended then 1 else 0) ∧ ((results es).map (·.1)).count 0 = 1 :=
  ⟨_, _, rfl, calls_of_run (show machine.Run twice _ _ from rfl) 0, rfl⟩

end Query

end Upnp
