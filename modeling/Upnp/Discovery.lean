/-
  `igd::discover` and the query it runs on, as one system (`src/igd.cpp`, `src/ssdp.cpp`).

  The coroutine of `discover` calls `get_response` and fetches descriptions, while the
  receive coroutine and the timer of the query go on by themselves.  Each action is what
  one of them does up to a point where it can be interrupted:

  * `call`, `wake`: the coroutine of `discover` calls `get_response`, or is resumed in it;
  * `io r al`: an operation of the stream it waits for completes with `r`;
  * `background a`: a step `a` of the receive coroutine or of the timer.

  The call of `get_response` that follows a loaded description is an action of its own,
  so there are more orders here than in the program, where nothing comes between the two.
  When `discover` returns, the destructor of the query calls `stop()`.

  * `took_of_step`: what each step does, in the states that are reached (`inv_of_run`);
  * `simulates`: the query does what a query does by itself;
  * `discover_of_run`: a run comes to what the loop of `discover` makes of its turns, and
    these are the responses that the query has to deliver, in their order.
-/
import Upnp.Lib.Simulation
import Upnp.QueryHistory
import Upnp.Reorder
import Upnp.Stream

namespace Upnp

open Lib

/-- What `discover` comes to. -/
abbrev DiscoverResult := Except Fault (Except ErrorCode (List Igd))

/-- Where the coroutine of `discover` is. -/
inductive Phase where
  /-- about to call `get_response` -/
  | calling
  /-- suspended in `get_response` -/
  | waiting
  /-- suspended in `query_root_device` -/
  | fetching (rsp : Response) (stage : Stage)
  | returned (r : DiscoverResult)

/-- What `discover` has returned. -/
def Phase.result : Phase → Option DiscoverResult
  | .returned r => some r
  | _ => none

/-- The response whose description is being fetched. -/
def Phase.pending : Phase → List Outcome
  | .fetching rsp _ => [.ok (.ok rsp)]
  | _ => []

/-- `discover` and its query. -/
structure Discovery where
  query : Query
  phase : Phase
  found : Igd.Found

inductive DiscoverAction where
  | call
  | wake
  | io (r : Io) (al : Alloc)
  | background (a : Action)

/-- What a step reports. -/
inductive DiscoverEvent (Address : Type) where
  | query (e : Event)
  /-- The body of the loop has run, with what it was given. -/
  | turn (t : Turn Address)

/-- A step of the receive coroutine or of the timer. -/
def Action.ofHandlers : Action → Bool
  | .stop | .getResponse _ | .wake _ => false
  | _ => true

/-- What a call of `get_response` returns, where an event says that it does. -/
def Event.outcome : Event → Option Outcome
  | .returned _ o => some o
  | .refused _ => some (.ok (.error (.code .operationAborted)))
  | _ => none

namespace Discovery

/-- The state after `query::start`. -/
def start : Discovery := ⟨.start, .calling, ⟨∅, []⟩⟩

/-- `discover` returns; the query is destroyed, which stops it. -/
def finish (r : DiscoverResult) (s : Discovery) : Discovery :=
  { s with phase := .returned r, query := { s.query with stopped := true, socketOpen := false } }

section
variable {Address : Type} (env : Env Address) (al : ℕ → Alloc)

/-- The body of the loop of `discover`: what it has found then, or what is returned. -/
def loopBody (turn : Turn Address) (found : Igd.Found) : Igd.Found ⊕ DiscoverResult :=
  match turn.outcome with
  | .error fault => .inr (.error fault)
  | .ok (.error (.parse _)) => .inl found
  | .ok (.error (.code ec)) =>
    if ec = .timedOut ∧ found.igds ≠ [] then .inr (.ok (.ok found.igds))
    else .inr (.ok (.error ec))
  | .ok (.ok rsp) =>
    match Igd.queryRootDevice env turn.net turn.al rsp.location.1 with
    | .error _ => .inr (.ok (.error .ioError))
    | .ok rootDev =>
      match Igd.addRoot al rsp found rootDev with
      | .error fault => .inr (.error fault)
      | .ok found => .inl found

/-- The loop body has run, and the loop goes on or ends. -/
def advance (turn : Turn Address) (s : Discovery) : Discovery × List (DiscoverEvent Address) :=
  match loopBody env al turn s.found with
  | .inl found => ({ s with found := found, phase := .calling }, [.turn turn])
  | .inr r => (s.finish r, [.turn turn])

/-- A turn in which nothing was sent. -/
def unsent (o : Outcome) : Turn Address :=
  ⟨o, fun _ _ => .connectFailed .operationAborted, fun _ => ⟨1, Int.one_pos⟩⟩

/-- `get_response` has returned `o`. -/
def got (o : Outcome) (s : Discovery) : Discovery × List (DiscoverEvent Address) :=
  match o with
  | .ok (.ok rsp) =>
    match consumeEndpoint env.makeAddress rsp.location.1.hostAndPort with
    | some _ => ({ s with phase := .fetching rsp .connect }, [])
    | none => s.advance env al (unsent o)
  | _ => s.advance env al (unsent o)

/-- What follows a step `r` of the query that this coroutine made. -/
def proceed (r : Query × List Event) (s : Discovery) : Discovery × List (DiscoverEvent Address) :=
  match r.2.findSome? Event.outcome with
  | none => ({ s with query := r.1, phase := .waiting }, r.2.map .query)
  | some o =>
    let r' := got env al o { s with query := r.1 }
    (r'.1, r.2.map .query ++ r'.2)

def step (s : Discovery) : DiscoverAction → Option (Discovery × List (DiscoverEvent Address))
  | .call =>
    match s.phase with
    | .calling => (s.query.step (.getResponse 0)).map fun r => s.proceed env al r
    | _ => none
  | .wake =>
    match s.phase with
    | .waiting => (s.query.step (.wake 0)).map fun r => s.proceed env al r
    | _ => none
  | .io r al' =>
    match s.phase with
    | .fetching rsp stage =>
      (stage.next r).map fun
        | .inl stage => ({ s with phase := .fetching rsp stage }, [])
        | .inr x => s.advance env al ⟨.ok (.ok rsp), fun _ _ => x, al'⟩
    | _ => none
  | .background a =>
    if a.ofHandlers then
      (s.query.step a).map fun r => ({ s with query := r.1 }, r.2.map .query)
    else none

/-- A run of `discover`, from the time at which its query is started. -/
def machine : Machine Discovery DiscoverAction (DiscoverEvent Address) :=
  ⟨start, step env al⟩

end

/-- The events of the query. -/
def queryEvents {Address : Type} (es : List (DiscoverEvent Address)) : List Event :=
  es.filterMap fun | .query e => some e | .turn _ => none

/-- The turns of the loop. -/
def turns {Address : Type} (es : List (DiscoverEvent Address)) : List (Turn Address) :=
  es.filterMap fun | .query _ => none | .turn t => some t

section
variable {Address : Type} {es es' : List (DiscoverEvent Address)} {qs : List Event}
  {t : Turn Address}

@[simp] theorem queryEvents_append :
    queryEvents (es ++ es') = queryEvents es ++ queryEvents es' := List.filterMap_append ..

@[simp] theorem turns_append : turns (es ++ es') = turns es ++ turns es' :=
  List.filterMap_append ..

@[simp] theorem queryEvents_turn : queryEvents [.turn t] = [] := rfl

@[simp] theorem turns_turn : turns [.turn t] = [t] := rfl

@[simp] theorem queryEvents_query :
    queryEvents (qs.map (.query : Event → DiscoverEvent Address)) = qs := by
  rw [queryEvents, List.filterMap_map]
  exact List.filterMap_some

@[simp] theorem turns_query :
    turns (qs.map (.query : Event → DiscoverEvent Address)) = [] := by
  rw [turns, List.filterMap_map]
  exact List.filterMap_eq_nil_iff.2 fun _ _ => rfl

end

/-! ## What a step does -/

/-- The coroutine of `discover` makes the step `qa` of its query. -/
inductive Calls (s : Discovery) : DiscoverAction → Action → Prop
  | call (hp : s.phase = .calling) : Calls s .call (.getResponse 0)
  | wake (hp : s.phase = .waiting) : Calls s .wake (.wake 0)

section
variable {Address : Type} (env : Env Address) (al : ℕ → Alloc)

/-- The step `a` from `s`, by what it comes to. -/
inductive Took (s : Discovery) :
    DiscoverAction → Discovery → List (DiscoverEvent Address) → Prop
  | parked {a : DiscoverAction} {qa : Action} {q : Query} (ha : Calls s a qa)
      (hq : s.query.responses = []) (he : s.query.rxEc = none)
      (hs : s.query.step qa = some (q, [])) :
    Took s a { s with query := q, phase := .waiting } []
  | asked {a : DiscoverAction} {qa : Action} {q : Query} {qs : List Event} {rsp : Response}
      (ha : Calls s a qa) (hs : s.query.step qa = some (q, qs))
      (ho : qs.findSome? Event.outcome = some (.ok (.ok rsp)))
      (hep : consumeEndpoint env.makeAddress rsp.location.1.hostAndPort ≠ none) :
    Took s a { s with query := q, phase := .fetching rsp .connect } (qs.map .query)
  | advanced {a : DiscoverAction} {qa : Action} {q : Query} {qs : List Event} {o : Outcome}
      (ha : Calls s a qa) (hs : s.query.step qa = some (q, qs))
      (ho : qs.findSome? Event.outcome = some o) :
    Took s a ({ s with query := q }.advance env al (unsent o)).1
      (qs.map .query ++ ({ s with query := q }.advance env al (unsent o)).2)
  | staged {rsp : Response} {stage stage' : Stage} {r : Io} {al' : Alloc}
      (hp : s.phase = .fetching rsp stage) (hr : stage.next r = some (.inl stage')) :
    Took s (.io r al') { s with phase := .fetching rsp stage' } []
  | fetched {rsp : Response} {stage : Stage} {r : Io} {al' : Alloc} {x : Exchange}
      (hp : s.phase = .fetching rsp stage) (hr : stage.next r = some (.inr x)) :
    Took s (.io r al') (s.advance env al ⟨.ok (.ok rsp), fun _ _ => x, al'⟩).1
      (s.advance env al ⟨.ok (.ok rsp), fun _ _ => x, al'⟩).2
  | background {a : Action} {q : Query} {qs : List Event} (ha : a.ofHandlers = true)
      (hs : s.query.step a = some (q, qs)) :
    Took s (.background a) { s with query := q } (qs.map .query)

end

/-- What holds in every state that is reached. -/
structure Inv (s : Discovery) : Prop where
  query : s.query.Inv
  /-- the query is stopped when `discover` has returned, and not before -/
  stopped : s.query.stopped = true ↔ ∃ r, s.phase = .returned r
  suspended : ∀ c, c ∈ s.query.suspended ↔ c = 0 ∧ s.phase = .waiting

section
variable {Address : Type} {env : Env Address} {al : ℕ → Alloc} {s s' : Discovery}
  {a : DiscoverAction} {as : List DiscoverAction} {es es' : List (DiscoverEvent Address)}
  {qa : Action} {q : Query} {qs : List Event}

theorem Inv.start : Inv start :=
  ⟨.start, by simp [Discovery.start, Query.start], by simp [Discovery.start, Query.start]⟩

theorem Calls.phase (h : Calls s a qa) : ∀ r, s.phase ≠ .returned r := by
  intro r hr
  cases h with
  | call hp | wake hp => rw [hp] at hr; cases hr

theorem Calls.ne_stop (h : Calls s a qa) : qa ≠ .stop := by
  cases h <;> simp

theorem Inv.not_stopped (hi : Inv s) (hp : ∀ r, s.phase ≠ .returned r) :
    s.query.stopped = false := by
  rw [← Bool.not_eq_true, hi.stopped, not_exists]
  exact hp

/-- What a step of the query made by `discover` comes to. -/
inductive Answers (q q' : Query) (qs : List Event) : Prop
  /-- the call waits -/
  | waits (hq : q.responses = []) (he : q.rxEc = none) (hqs : qs = [])
      (hw : ∀ c, c ∈ q'.suspended ↔ c = 0)
  /-- it takes an item -/
  | served (i : Item) (rest : List Item) (hq : q.responses = i :: rest)
      (hr : q'.responses = rest) (hqs : qs = [.popped 0 i, .returned 0 (Query.outcome i)])
      (hw : ∀ c, c ∉ q'.suspended)
  /-- it is told how the query has ended -/
  | ended (ec : ErrorCode) (hq : q.responses = []) (he : q.rxEc = some ec)
      (hr : q'.responses = []) (he' : q'.rxEc = some ec)
      (hqs : qs = [.returned 0 (.ok (.error (.code ec)))]) (hw : ∀ c, c ∉ q'.suspended)

theorem answers (hi : Inv s) (ha : Calls s a qa) (h : s.query.step qa = some (q, qs)) :
    Answers s.query q qs := by
  have hstop := hi.not_stopped ha.phase
  have hsub : ∀ c, c ∈ s.query.suspended → c = 0 := fun c hc => ((hi.suspended c).1 hc).1
  -- the call is the only one, and gets to the loop
  have henter : ∀ {c q₀}, Query.Enters s.query qa c q₀ →
      c = 0 ∧ q₀.suspended = s.query.suspended ∧ q₀.responses = s.query.responses := by
    intro c q₀ he
    refine ⟨?_, by rw [he.eq], by rw [he.eq]⟩
    cases ha <;> cases he <;> rfl
  have herase : ∀ {q₀ : Query}, q₀.suspended = s.query.suspended →
      ∀ c, c ∉ q₀.suspended.erase 0 := by
    intro q₀ hq c hc
    rw [hq] at hc
    exact (Finset.mem_erase.1 hc).1 (hsub c (Finset.mem_erase.1 hc).2)
  have ht := Query.took_of_step h
  cases ht with
  | rxStart _ | receive _ _ | finish _ _ | repeated _ _ _ _ | fresh _ _ _ _ | garbled _ _ _
  | timerLate _ _ | timerFirst _ _ | stop => cases ha
  | refused _ hs => rw [hstop] at hs; cases hs
  | @served _ _ q₀ i rest he hq =>
    obtain ⟨rfl, hsus, -⟩ := henter he
    exact .served i rest hq rfl rfl (herase hsus)
  | @ended _ _ q₀ ec he hq hec =>
    obtain ⟨rfl, hsus, -⟩ := henter he
    exact .ended ec hq hec (by rw [he.eq]; exact hq) (by rw [he.eq]; exact hec) rfl
      (herase hsus)
  | @waits _ _ q₀ he hq hec =>
    obtain ⟨rfl, hsus, -⟩ := henter he
    refine .waits hq hec rfl ?_
    intro c
    rw [Finset.mem_insert, hsus]
    exact ⟨fun h => h.elim id (hsub c), .inl⟩

theorem took_of_proceed (env : Env Address) (al : ℕ → Alloc) (hi : Inv s) (ha : Calls s a qa)
    (h : s.query.step qa = some (q, qs)) :
    Took env al s a (s.proceed env al (q, qs)).1 (s.proceed env al (q, qs)).2 := by
  rcases ho : qs.findSome? Event.outcome with _ | o
  · simp only [proceed, ho]
    rcases answers hi ha h with ⟨hq, he, rfl, -⟩ | ⟨i, rest, -, -, rfl, -⟩ |
      ⟨ec, -, -, -, -, rfl, -⟩
    · exact .parked ha hq he h
    · cases ho
    · cases ho
  · simp only [proceed, ho]
    rcases hgot : o with _ | _ | rsp
    · exact .advanced ha h (ho.trans (congrArg _ hgot))
    · exact .advanced ha h (ho.trans (congrArg _ hgot))
    · rw [hgot] at ho
      rcases hep : consumeEndpoint env.makeAddress rsp.location.1.hostAndPort with _ | ep
      · simp only [got, hep]
        exact .advanced ha h ho
      · simp only [got, hep, List.append_nil]
        exact .asked ha h ho (by simp [hep])

/-- **Every step is one of those `Took` lists.** -/
theorem took_of_step (hi : Inv s) (h : s.step env al a = some (s', es)) :
    Took env al s a s' es := by
  cases a with
  | call =>
    simp only [step] at h
    split at h
    · obtain ⟨⟨q, qs⟩, hs, hr⟩ := Option.map_eq_some_iff.1 h
      have ht := took_of_proceed env al hi (.call ‹_›) hs
      rwa [hr] at ht
    · cases h
  | wake =>
    simp only [step] at h
    split at h
    · obtain ⟨⟨q, qs⟩, hs, hr⟩ := Option.map_eq_some_iff.1 h
      have ht := took_of_proceed env al hi (.wake ‹_›) hs
      rwa [hr] at ht
    · cases h
  | io r al' =>
    simp only [step] at h
    split at h
    · rename_i rsp stage hp
      obtain ⟨stage' | x, hs, hr⟩ := Option.map_eq_some_iff.1 h
      · cases hr; exact .staged hp hs
      · have hr : s.advance env al ⟨.ok (.ok rsp), fun _ _ => x, al'⟩ = (s', es) := hr
        have ht : Took env al s (.io r al') _ _ := .fetched hp hs
        rwa [hr] at ht
    · cases h
  | background a =>
    simp only [step] at h
    split at h
    · obtain ⟨⟨q, qs⟩, hs, hr⟩ := Option.map_eq_some_iff.1 h
      cases hr
      exact .background ‹_› hs
    · cases h

/-! ## Every reachable state -/

theorem advance_cases (env : Env Address) (al : ℕ → Alloc) (turn : Turn Address) (s : Discovery) :
    (∃ found, loopBody env al turn s.found = .inl found ∧
      s.advance env al turn = ({ s with found := found, phase := .calling }, [.turn turn])) ∨
    ∃ r, loopBody env al turn s.found = .inr r ∧
      s.advance env al turn = (s.finish r, [.turn turn]) := by
  rw [advance]
  rcases loopBody env al turn s.found with found | r
  · exact .inl ⟨found, rfl, rfl⟩
  · exact .inr ⟨r, rfl, rfl⟩

theorem Inv.advance (hq : s.query.Inv) (hst : s.query.stopped = false)
    (hsus : ∀ c, c ∉ s.query.suspended) (turn : Turn Address) :
    Inv (s.advance env al turn).1 := by
  rcases advance_cases env al turn s with ⟨found, -, h⟩ | ⟨r, -, h⟩
  · rw [h]
    exact ⟨hq, by simp [hst], by simp [hsus]⟩
  · rw [h]
    exact ⟨hq.step (.stop), by simp [finish], by simp [finish, hsus]⟩

/-- The steps of the handlers leave the calls alone, and do not stop the query. -/
theorem took_ofHandlers {q' : Query} {b : Action} (h : Query.Took q b q' qs)
    (hb : b.ofHandlers = true) : q'.suspended = q.suspended ∧ q'.stopped = q.stopped := by
  cases h with
  | rxStart _ | receive _ _ | finish _ _ | repeated _ _ _ _ | fresh _ _ _ _ | garbled _ _ _
  | timerLate _ _ | timerFirst _ _ => exact ⟨rfl, rfl⟩
  | stop | refused _ _ => cases hb
  | served he _ | ended he _ _ | waits he _ _ => cases he <;> cases hb

@[simp] theorem turns_advance {turn : Turn Address} :
    turns (s.advance env al turn).2 = [turn] := by
  rcases advance_cases env al turn s with ⟨found, -, h⟩ | ⟨r, -, h⟩ <;> rw [h] <;> rfl

@[simp] theorem queryEvents_advance {turn : Turn Address} :
    queryEvents (s.advance env al turn).2 = [] := by
  rcases advance_cases env al turn s with ⟨found, -, h⟩ | ⟨r, -, h⟩ <;> rw [h] <;> rfl

theorem pending_advance {turn : Turn Address} :
    (s.advance env al turn).1.phase.pending = [] := by
  rcases advance_cases env al turn s with ⟨found, -, h⟩ | ⟨r, -, h⟩ <;> rw [h] <;> rfl

/-- What the query of a call that returns is like. -/
theorem Inv.answered (hi : Inv s) (ha : Calls s a qa) (hs : s.query.step qa = some (q, qs))
    {o : Outcome} (ho : qs.findSome? Event.outcome = some o) :
    q.Inv ∧ q.stopped = false ∧ ∀ c, c ∉ q.suspended := by
  have ht := Query.took_of_step hs
  refine ⟨hi.query.step ht, (Query.stopped_eq ht ha.ne_stop).trans (hi.not_stopped ha.phase), ?_⟩
  rcases answers hi ha hs with ⟨-, -, rfl, -⟩ | ⟨i, rest, -, -, -, hw⟩ | ⟨ec, -, -, -, -, -, hw⟩
  · cases ho
  · exact hw
  · exact hw

/-- **Every step keeps the invariant.** -/
theorem Inv.step (hi : Inv s) (h : Took env al s a s' es) : Inv s' := by
  cases h with
  | parked ha hq he hs =>
    have ht := Query.took_of_step hs
    refine ⟨hi.query.step ht, ?_, ?_⟩
    · simp [Query.stopped_eq ht ha.ne_stop, hi.not_stopped ha.phase]
    · rcases answers hi ha hs with ⟨-, -, -, hw⟩ | ⟨i, rest, -, -, hqs, -⟩ |
        ⟨ec, -, -, -, -, hqs, -⟩
      · simpa using hw
      · cases hqs
      · cases hqs
  | asked ha hs ho hep =>
    obtain ⟨hq, hst, hsus⟩ := hi.answered ha hs ho
    exact ⟨hq, by simp [hst], by simp [hsus]⟩
  | advanced ha hs ho =>
    obtain ⟨hq, hst, hsus⟩ := hi.answered ha hs ho
    exact .advance hq hst hsus _
  | staged hp hr =>
    have hsus := hi.suspended
    simp only [hp, reduceCtorEq, and_false, iff_false] at hsus
    exact ⟨hi.query, by simp [hi.not_stopped, hp], by simpa using hsus⟩
  | fetched hp hr =>
    have hsus := hi.suspended
    simp only [hp, reduceCtorEq, and_false, iff_false] at hsus
    exact .advance hi.query (hi.not_stopped (by simp [hp])) hsus _
  | background ha hs =>
    have ht := Query.took_of_step hs
    obtain ⟨hsus, hst⟩ := took_ofHandlers ht ha
    refine ⟨hi.query.step ht, ?_, ?_⟩
    · show _ = true ↔ _
      rw [hst]; exact hi.stopped
    · show ∀ c, c ∈ Query.suspended _ ↔ _
      rw [hsus]; exact hi.suspended

theorem inv_of_run (h : (machine env al).Run as es s) : Inv s :=
  h.invariant (P := fun _ _ s => Inv s) .start fun _ hi hs => hi.step (took_of_step hi hs)

/-! ## The query inside -/

/-- What `advance` does to the query: nothing, or `stop()`. -/
theorem runFrom_advance (env : Env Address) (al : ℕ → Alloc) (turn : Turn Address)
    (s : Discovery) :
    ∃ bs, Query.machine.RunFrom s.query bs [] (s.advance env al turn).1.query := by
  rcases advance_cases env al turn s with ⟨found, -, h⟩ | ⟨r, -, h⟩
  · rw [h]
    exact ⟨[], rfl⟩
  · rw [h]
    exact ⟨[.stop], rfl⟩

theorem runFrom_step (hs : s.query.step qa = some (q, qs)) :
    Query.machine.RunFrom s.query [qa] qs q :=
  Machine.runFrom_cons.2 ⟨q, qs, [], hs, rfl, by simp⟩

/-- **The query of `discover` does what a query does by itself.** -/
theorem simulates (env : Env Address) (al : ℕ → Alloc) :
    (machine env al).Simulation Query.machine (fun s q => Inv s ∧ s.query = q)
      fun _ es _ qs => queryEvents es = qs where
  init := ⟨.start, rfl⟩
  nil := rfl
  append h h' := by rw [queryEvents_append, h, h']
  step := by
    rintro s _ a s' es ⟨hi, rfl⟩ h
    have ht := took_of_step hi h
    have hi' := hi.step ht
    cases ht with
    | parked ha hq he hs => exact ⟨_, [], _, runFrom_step hs, ⟨hi', rfl⟩, rfl⟩
    | asked ha hs ho hep =>
      exact ⟨_, _, _, runFrom_step hs, ⟨hi', rfl⟩, queryEvents_query⟩
    | @advanced _ qa q qs o ha hs ho =>
      obtain ⟨bs, hrun⟩ := runFrom_advance env al (unsent o) { s with query := q }
      exact ⟨_, _, _, (runFrom_step hs).append hrun,
        ⟨hi', rfl⟩, by simp⟩
    | staged hp hr => exact ⟨[], [], _, rfl, ⟨hi', rfl⟩, rfl⟩
    | @fetched rsp _ _ al' x hp hr =>
      obtain ⟨bs, hrun⟩ := runFrom_advance env al ⟨.ok (.ok rsp), fun _ _ => x, al'⟩ s
      exact ⟨bs, [], _, hrun, ⟨hi', rfl⟩, queryEvents_advance⟩
    | background ha hs => exact ⟨_, _, _, runFrom_step hs, ⟨hi', rfl⟩, queryEvents_query⟩

theorem run_query (h : (machine env al).Run as es s) :
    ∃ bs, Query.machine.Run bs (queryEvents es) s.query := by
  obtain ⟨bs, qs, q, hrun, ⟨-, rfl⟩, rfl⟩ := (simulates env al).run h
  exact ⟨bs, hrun⟩

/-! ## The turns -/

/-- The loop of `discover`, one turn at a time. -/
theorem discoverLoop_cons (turn : Turn Address) (turns : List (Turn Address))
    (found : Igd.Found) : Igd.discoverLoop env al (turn :: turns) found =
      match loopBody env al turn found with
      | .inl found => Igd.discoverLoop env al turns found
      | .inr r => some r := by
  rw [Igd.discoverLoop, loopBody]
  rcases turn.outcome with fault | ⟨e | ec⟩ | rsp
  · rfl
  · rfl
  · simp only
    split <;> rfl
  · simp only
    rcases Igd.queryRootDevice env turn.net turn.al rsp.location.1 with ec | rootDev
    · rfl
    · simp only
      rcases Igd.addRoot al rsp found rootDev with fault | found
      · rfl
      · rfl

/-- The loop of `discover` over the turns so far is where the coroutine is. -/
def Follows (env : Env Address) (al : ℕ → Alloc) (es : List (DiscoverEvent Address))
    (s : Discovery) : Prop :=
  ∀ rest, Igd.discoverLoop env al (turns es ++ rest) ⟨∅, []⟩ =
    s.phase.result.or (Igd.discoverLoop env al rest s.found)

theorem Follows.idle (h : Follows env al es s) (ht : turns es' = [])
    (hp : s'.phase.result = s.phase.result) (hf : s'.found = s.found) :
    Follows env al (es ++ es') s' := by
  intro rest
  rw [turns_append, ht, List.append_nil, h rest, hp, hf]

theorem Follows.advance (h : Follows env al es s) (hp : s.phase.result = none) {turn : Turn Address}
    {s₁ : Discovery} (hf : s₁.found = s.found) (hqs : turns es' = []) :
    Follows env al (es ++ (es' ++ (s₁.advance env al turn).2)) (s₁.advance env al turn).1 := by
  intro rest
  have hloop := h (turn :: rest)
  rw [hp, Option.none_or, discoverLoop_cons, ← hf] at hloop
  rcases advance_cases env al turn s₁ with ⟨found, hb, heq⟩ | ⟨r, hb, heq⟩
  · rw [heq, turns_append, turns_append, hqs, List.nil_append, turns_turn, List.append_assoc,
      List.singleton_append, hloop, hb]
    rfl
  · rw [heq, turns_append, turns_append, hqs, List.nil_append, turns_turn, List.append_assoc,
      List.singleton_append, hloop, hb]
    rfl

theorem Calls.result (h : Calls s a qa) : s.phase.result = none := by
  cases h with
  | call hp | wake hp => rw [hp]; rfl

theorem Calls.pending (h : Calls s a qa) : s.phase.pending = [] := by
  cases h with
  | call hp | wake hp => rw [hp]; rfl

theorem Follows.step (h : Follows env al es s) (ht : Took env al s a s' es') :
    Follows env al (es ++ es') s' := by
  cases ht with
  | parked ha hq he hs => exact h.idle rfl ha.result.symm rfl
  | asked ha hs ho hep => exact h.idle turns_query ha.result.symm rfl
  | advanced ha hs ho => exact h.advance ha.result rfl turns_query
  | staged hp hr => exact h.idle rfl (by rw [hp]; rfl) rfl
  | fetched hp hr =>
    have hnil : turns ([] : List (DiscoverEvent Address)) = [] := rfl
    exact h.advance (by rw [hp]; rfl) rfl hnil
  | background ha hs => exact h.idle turns_query rfl rfl

/-- What the turns were given: the items popped, and behind them the end of the query. -/
inductive Given (es : List (DiscoverEvent Address)) (s : Discovery) : Prop
  | items (h : (turns es).map Turn.outcome ++ s.phase.pending =
      (Query.popped (queryEvents es)).map fun p => Query.outcome p.2)
  | ended (ec : ErrorCode) (hq : s.query.responses = []) (he : s.query.rxEc = some ec)
      (hp : ∃ r, s.phase = .returned r)
      (h : (turns es).map Turn.outcome =
        ((Query.popped (queryEvents es)).map fun p => Query.outcome p.2) ++
          [.ok (.error (.code ec))])

/-- The handlers of the query return nothing to a call. -/
theorem popped_ofHandlers {b : Action} {q' : Query} (h : Query.Took q b q' qs)
    (hb : b.ofHandlers = true) : Query.popped qs = [] := by
  cases h with
  | rxStart _ | receive _ _ | finish _ _ | repeated _ _ _ _ | fresh _ _ _ _ | garbled _ _ _
  | timerLate _ _ | timerFirst _ _ => rfl
  | stop | refused _ _ => cases hb
  | served he _ | ended he _ _ | waits he _ _ => cases he <;> cases hb

/-- The items, the events and the turns of an answered call. -/
theorem Given.answered (h : Given es s) (hi : Inv s) (ha : Calls s a qa)
    (hs : s.query.step qa = some (q, qs)) {o : Outcome}
    (ho : qs.findSome? Event.outcome = some o) :
    ((turns es).map Turn.outcome ++ [o] =
        (Query.popped (queryEvents es ++ qs)).map fun p => Query.outcome p.2) ∨
    ∃ ec, o = .ok (.error (.code ec)) ∧ q.responses = [] ∧ q.rxEc = some ec ∧
      (turns es).map Turn.outcome ++ [o] =
        ((Query.popped (queryEvents es ++ qs)).map fun p => Query.outcome p.2) ++ [o] := by
  rcases h with h | ⟨ec, -, -, ⟨r, hp⟩, -⟩
  · rw [ha.pending, List.append_nil] at h
    rcases answers hi ha hs with ⟨-, -, rfl, -⟩ | ⟨i, rest, -, -, rfl, -⟩ |
      ⟨ec, -, -, hr, he, rfl, -⟩
    · cases ho
    · have hout : Query.outcome i = o := Option.some.inj ho
      left
      rw [Query.popped_append, List.map_append, ← h]
      exact congrArg (_ ++ [·]) hout.symm
    · have hout : (.ok (.error (.code ec)) : Outcome) = o := Option.some.inj ho
      refine .inr ⟨ec, hout.symm, hr, he, ?_⟩
      have hnone : Query.popped [.returned 0 (.ok (.error (.code ec)))] = [] := rfl
      rw [Query.popped_append, hnone, List.append_nil, h]
  · exact absurd hp (ha.phase r)

/-- The end of the query ends the loop. -/
theorem finish_of_code (env : Env Address) (al : ℕ → Alloc) (ec : ErrorCode) (s : Discovery) :
    ∃ r, s.advance env al (unsent (.ok (.error (.code ec)))) =
      (s.finish r, [.turn (unsent (.ok (.error (.code ec))))]) := by
  rcases advance_cases env al (unsent (.ok (.error (.code ec)))) s with ⟨found, hb, -⟩ | ⟨r, -, h⟩
  · simp only [loopBody, unsent] at hb
    split at hb <;> cases hb
  · exact ⟨r, h⟩

theorem Given.step (hi : Inv s) (h : Given es s) (ht : Took env al s a s' es') :
    Given (es ++ es') s' := by
  cases ht with
  | parked ha hq he hs =>
    rcases h with h | ⟨ec, -, -, ⟨r, hp⟩, -⟩
    · rw [ha.pending] at h
      exact .items (by rw [List.append_nil, ← h]; rfl)
    · exact absurd hp (ha.phase r)
  | @asked _ _ q qs rsp ha hs ho hep =>
    rcases h.answered hi ha hs ho with h | ⟨ec, hout, -⟩
    · exact .items (by simpa [Phase.pending] using h)
    · cases hout
  | @advanced _ _ q qs o ha hs ho =>
    rcases h.answered hi ha hs ho with h | ⟨ec, rfl, hr, he, h⟩
    · refine .items ?_
      simpa [pending_advance, unsent] using h
    · obtain ⟨r, heq⟩ := finish_of_code env al ec { s with query := q }
      rw [heq]
      refine .ended ec hr he ⟨r, rfl⟩ ?_
      simpa [unsent] using h
  | staged hp hr =>
    rcases h with h | ⟨ec, -, -, ⟨r, hp'⟩, -⟩
    · rw [hp] at h
      exact .items (by rw [List.append_nil]; exact h)
    · rw [hp'] at hp; cases hp
  | fetched hp hr =>
    rcases h with h | ⟨ec, -, -, ⟨r, hp'⟩, -⟩
    · rw [hp] at h
      refine .items ?_
      rw [pending_advance]
      simpa [Phase.pending] using h
    · rw [hp'] at hp; cases hp
  | background ha hs =>
    have ht := Query.took_of_step hs
    rcases h with h | ⟨ec, hq, he, hp, h⟩
    · exact .items (by simpa [popped_ofHandlers ht ha] using h)
    · obtain ⟨he', hpush⟩ := Query.took_rxEc ht he
      have hstep := Query.queue_step ht
      rw [hq, hpush, List.nil_append, popped_ofHandlers ht ha, List.map_nil, List.nil_append]
        at hstep
      exact .ended ec hstep.symm he' hp (by simpa [popped_ofHandlers ht ha] using h)

/-- What a run has gone through. -/
structure Traced (env : Env Address) (al : ℕ → Alloc) (es : List (DiscoverEvent Address))
    (s : Discovery) : Prop where
  follows : Follows env al es s
  given : Given es s

theorem traced_of_run (h : (machine env al).Run as es s) : Traced env al es s := by
  refine (h.invariant (P := fun _ es s => Inv s ∧ Traced env al es s)
    ⟨.start, fun _ => rfl, .items rfl⟩ ?_).2
  rintro as es s₁ a s₂ es' - ⟨hi, hf, hg⟩ hs
  have ht := took_of_step hi hs
  exact ⟨hi.step ht, hf.step ht, hg.step hi ht⟩

/-- The loop of `discover`, on the turns of a run. -/
theorem discover_turns (h : (machine env al).Run as es s) :
    Igd.discover env al (.ok (turns es)) = s.phase.result := by
  have hloop := (traced_of_run h).1 []
  rw [List.append_nil] at hloop
  rw [Igd.discover, hloop]
  exact Option.or_none

/-- The turns have been given the responses that the query has to deliver, in their order. -/
theorem taken_of_run (h : (machine env al).Run as es s) :
    ∃ taken, firsts Item.usn (Query.arrivals (queryEvents es)) = taken ++ s.query.responses ∧
      ((turns es).map Turn.outcome ++ s.phase.pending = taken.map Query.outcome ∨
        ∃ ec, s.query.responses = [] ∧ s.query.rxEc = some ec ∧ (∃ r, s.phase = .returned r) ∧
          (turns es).map Turn.outcome = taken.map Query.outcome ++ [.ok (.error (.code ec))]) := by
  obtain ⟨-, hg⟩ := traced_of_run h
  obtain ⟨bs, hq⟩ := run_query h
  refine ⟨(Query.popped (queryEvents es)).map (·.2), ?_, ?_⟩
  · rw [← (Query.deduped_of_run hq).pushed, Query.queue_run hq]
  · rw [List.map_map]
    rcases hg with h | ⟨ec, hr, he, hp, h⟩
    · exact .inl h
    · exact .inr ⟨ec, hr, he, hp, h⟩

/-- **Whatever the receive coroutine and the timer do in between, `discover` comes to
    what its loop makes of the turns, and these are the items that the query has to
    deliver, in the order of their arrival, and then the end of the query.** -/
theorem discover_of_run (h : (machine env al).Run as es s) :
    Igd.discover env al (.ok (turns es)) = s.phase.result ∧
    ∃ taken, firsts Item.usn (Query.arrivals (queryEvents es)) = taken ++ s.query.responses ∧
      ((turns es).map Turn.outcome ++ s.phase.pending = taken.map Query.outcome ∨
        ∃ ec, s.query.responses = [] ∧ s.query.rxEc = some ec ∧ (∃ r, s.phase = .returned r) ∧
          (turns es).map Turn.outcome = taken.map Query.outcome ++ [.ok (.error (.code ec))]) :=
  ⟨discover_turns h, taken_of_run h⟩

/-- The call waits for a response that says nothing about a location. -/
def nowhere : List DiscoverAction :=
  [.call, .background .rxStart, .background (.receive ⟨none, []⟩),
    .background (.rxResume fun _ => ⟨1, Int.one_pos⟩), .wake]

theorem discover_of_nowhere : ∃ es s, (machine (Env.oneHost fun _ => none)
      fun _ _ => ⟨1, Int.one_pos⟩).Run nowhere es s ∧ (turns es).length = 1 ∧
    Igd.discover (Env.oneHost fun _ => none) (fun _ _ => ⟨1, Int.one_pos⟩) (.ok (turns es)) =
      some (.ok (.error .ioError)) :=
  ⟨_, _, rfl, rfl, (discover_of_run (show (machine (Env.oneHost fun _ => none)
    fun _ _ => ⟨1, Int.one_pos⟩).Run nowhere _ _ from rfl)).1⟩

end

end Discovery

end Upnp
