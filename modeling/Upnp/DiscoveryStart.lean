/-
  `igd::discover` from its beginning (`src/igd.cpp`, `src/ssdp.cpp`).

  `query::start` binds the socket and sends the search messages one after the other, and is
  suspended in each send.  Only then it spawns the receive coroutine, and `discover` gets to
  its loop, which is a run of `Discovery`.  A step is

  * `bound ec`: the socket is bound, or that fails;
  * `sent ec`: the send that is under way completes;
  * `run a`: a step of `Discovery`.

  * `start_of_run`: whatever the network does, a run is the loop of `MSearch` over the
    search targets, then a run of `Discovery`, and comes to what `Igd.discover` says.
-/
import Upnp.Discovery
import Upnp.MSearch

namespace Upnp

open Lib

/-- Where `discover` is. -/
inductive Starting where
  | binding
  /-- suspended in the send of `sss`, with these targets left -/
  | sending (sss : Str) (targets : List Str)
  | failed (ec : ErrorCode)
  | running (s : Discovery)

inductive StartAction where
  | bound (ec : Option ErrorCode)
  | sent (ec : Option ErrorCode)
  | run (a : DiscoverAction)

/-- What a step reports. -/
inductive StartEvent (Address : Type) where
  /-- A datagram went out. -/
  | datagram (d : Str)
  | discover (e : DiscoverEvent Address)

namespace Starting

/-- What `query::start` has returned. -/
def begun : Starting → Option (Except ErrorCode Unit)
  | .failed ec => some (.error ec)
  | .running _ => some (.ok ())
  | .binding | .sending _ _ => none

/-- What `discover` has returned. -/
def result : Starting → Option DiscoverResult
  | .failed ec => some (.ok (.error ec))
  | .running s => s.phase.result
  | .binding | .sending _ _ => none

/-- The loop over the search targets, up to its next send or to its end. -/
def next (ep ss : Str) : List Str → Starting
  | [] => .running .start
  | target :: targets => .sending (ss ++ MSearch.message ep target) targets

section
variable {Address : Type} (env : Env Address) (al : ℕ → Alloc) (ep : Str) (targets : List Str)

def step (s : Starting) : StartAction → Option (Starting × List (StartEvent Address))
  | .bound ec =>
    match s with
    | .binding =>
      match ec with
      | some ec => some (.failed ec, [])
      | none => some (next ep [] targets, [])
    | _ => none
  | .sent ec =>
    match s with
    | .sending sss targets =>
      match ec with
      | some ec => some (.failed ec, [])
      | none => some (next ep sss targets, [.datagram sss])
    | _ => none
  | .run a =>
    match s with
    | .running s => (s.step env al a).map fun r => (.running r.1, r.2.map .discover)
    | _ => none

/-- A run of `discover`, with the messages for `targets` to a multicast endpoint that is
    shown as `ep`. -/
def machine : Machine Starting StartAction (StartEvent Address) :=
  ⟨.binding, step env al ep targets⟩

end

/-! ## What a run has done -/

/-- The datagrams that went out. -/
def datagrams {Address : Type} (es : List (StartEvent Address)) : List Str :=
  es.filterMap fun | .datagram d => some d | .discover _ => none

def discoverEvents {Address : Type} (es : List (StartEvent Address)) :
    List (DiscoverEvent Address) :=
  es.filterMap fun | .datagram _ => none | .discover e => some e

def discoverActions (as : List StartAction) : List DiscoverAction :=
  as.filterMap fun | .run a => some a | _ => none

/-- The error of binding the socket. -/
def bindError (as : List StartAction) : Option ErrorCode :=
  (as.findSome? fun | .bound ec => some ec | _ => none).join

/-- How the sends completed, in their order. -/
def sends (as : List StartAction) : List (Option ErrorCode) :=
  as.filterMap fun | .sent ec => some ec | _ => none

/-- The error of the send number `k`. -/
def sendError (as : List StartAction) (k : ℕ) : Option ErrorCode := (sends as)[k]?.join

section
variable {Address : Type} {env : Env Address} {al : ℕ → Alloc} {ep : Str} {targets : List Str}
  {s s' : Starting} {a : StartAction} {as : List StartAction}
  {es es' : List (StartEvent Address)}

theorem datagrams_append : datagrams (es ++ es') = datagrams es ++ datagrams es' :=
  List.filterMap_append

theorem discoverEvents_append :
    discoverEvents (es ++ es') = discoverEvents es ++ discoverEvents es' :=
  List.filterMap_append

theorem discoverActions_append (as as' : List StartAction) :
    discoverActions (as ++ as') = discoverActions as ++ discoverActions as' :=
  List.filterMap_append

theorem sends_append (as as' : List StartAction) : sends (as ++ as') = sends as ++ sends as' :=
  List.filterMap_append

theorem bindError_snoc (h : ∀ ec, a ≠ .bound ec) : bindError (as ++ [a]) = bindError as := by
  have hnone : ([a].findSome? fun | .bound ec => some ec | _ => none) = none := by
    cases a with
    | bound ec => exact absurd rfl (h ec)
    | sent _ | run _ => rfl
  rw [bindError, List.findSome?_append, hnone, Option.or_none, ← bindError]

variable (env al ep targets) in
/-- How a run got to the state `s`.  While it sends, the loop over all targets is at the
    send that is under way, for every way in which the sends to come may complete. -/
inductive Reached (as : List StartAction) (es : List (StartEvent Address)) : Starting → Prop
  | binding (ha : as = []) (he : es = []) : Reached as es .binding
  | sending {ss target : Str} {rest : List Str} (hb : bindError as = none)
      (ha : discoverActions as = []) (he : discoverEvents es = [])
      (hl : (sends as).length = (datagrams es).length)
      (hloop : ∀ send, (∀ k < (sends as).length, send k = sendError as k) →
        MSearch.sendLoop send ep targets [] [] =
          MSearch.sendLoop send ep (target :: rest) ss (datagrams es)) :
    Reached as es (.sending (ss ++ MSearch.message ep target) rest)
  | failed {ec : ErrorCode} (he : discoverEvents es = [])
      (hs : MSearch.start (bindError as) (sendError as) ep targets = (datagrams es, .error ec)) :
    Reached as es (.failed ec)
  | running {d : Discovery}
      (hs : MSearch.start (bindError as) (sendError as) ep targets = (datagrams es, .ok ()))
      (hr : (Discovery.machine env al).Run (discoverActions as) (discoverEvents es) d) :
    Reached as es (.running d)

/-- The loop goes on where the send before it has succeeded. -/
theorem reached_next {ss : Str} {rest : List Str} (hb : bindError as = none)
    (ha : discoverActions as = []) (he : discoverEvents es = [])
    (hl : (sends as).length = (datagrams es).length)
    (hloop : ∀ send, (∀ k < (sends as).length, send k = sendError as k) →
      MSearch.sendLoop send ep targets [] [] = MSearch.sendLoop send ep rest ss (datagrams es)) :
    Reached env al ep targets as es (next ep ss rest) := by
  cases rest with
  | nil =>
    refine .running ?_ ?_
    · rw [hb, MSearch.start, hloop _ fun _ _ => rfl, MSearch.sendLoop]
    · rw [ha, he]
      rfl
  | cons target rest => exact .sending hb ha he hl hloop

/-- **Every step goes on with the loop, or with `Discovery`.** -/
theorem Reached.step (h : Reached env al ep targets as es s)
    (hs : step env al ep targets s a = some (s', es')) :
    Reached env al ep targets (as ++ [a]) (es ++ es') s' := by
  cases h with
  | binding ha he =>
    subst ha he
    cases a with
    | bound ec =>
      cases ec with
      | some ec =>
        cases hs
        exact .failed rfl rfl
      | none =>
        cases hs
        exact reached_next rfl rfl rfl rfl fun _ _ => rfl
    | sent _ | run _ => cases hs
  | @sending ss target rest hb ha he hl hloop =>
    cases a with
    | sent ec =>
      have hb' : bindError (as ++ [.sent ec]) = none := (bindError_snoc (by simp)).trans hb
      have ha' : discoverActions (as ++ [.sent ec]) = [] := by
        rw [discoverActions_append, ha]; rfl
      have hsends : sends (as ++ [.sent ec]) = sends as ++ [ec] := sends_append as _
      -- the sends before this one have completed as they did
      have hold : ∀ k < (sends as).length,
          sendError (as ++ [.sent ec]) k = sendError as k := by
        intro k hk
        rw [sendError, hsends, List.getElem?_append_left hk, sendError]
      have hnew : sendError (as ++ [.sent ec]) (datagrams es).length = ec := by
        rw [sendError, hsends, ← hl, List.getElem?_append_right (le_refl _), Nat.sub_self]
        cases ec <;> rfl
      cases ec with
      | some ec =>
        cases hs
        refine .failed (by rw [List.append_nil, he]) ?_
        rw [hb', MSearch.start, hloop _ hold, MSearch.sendLoop]
        simp only [hnew, List.append_nil]
      | none =>
        cases hs
        refine reached_next hb' ha' (by rw [discoverEvents_append, he]; rfl) ?_ ?_
        · rw [hsends, datagrams_append, List.length_append, List.length_append, hl]
          rfl
        · intro send hsend
          have hlen : (sends as).length < (sends (as ++ [.sent none])).length := by
            rw [hsends, List.length_append]; simp
          have hnow : send (datagrams es).length = none := by
            rw [← hl, hsend _ hlen, hl, hnew]
          rw [hloop send fun k hk => (hsend k (Nat.lt_trans hk hlen)).trans (hold k hk),
            MSearch.sendLoop]
          simp only [hnow, datagrams_append]
          rfl
    | bound _ | run _ => cases hs
  | failed _ _ => cases a <;> cases hs
  | @running d hstart hr =>
    cases a with
    | run b =>
      obtain ⟨⟨d', fs⟩, hstep, he⟩ := Option.map_eq_some_iff.1 hs
      cases he
      have hsends : sends (as ++ [.run b]) = sends as :=
        (sends_append as _).trans (List.append_nil _)
      have hdata : datagrams (fs.map StartEvent.discover) = [] := by simp [datagrams]
      have hevents : discoverEvents (fs.map StartEvent.discover) = fs := by
        simp [discoverEvents, List.filterMap_map]
      refine .running ?_ ?_
      · have herr : sendError (as ++ [.run b]) = sendError as := by
          funext k
          rw [sendError, hsends, sendError]
        rw [bindError_snoc (by simp), herr, hstart, datagrams_append, hdata, List.append_nil]
      · rw [discoverActions_append, discoverEvents_append, hevents]
        exact hr.snoc hstep
    | bound _ | sent _ => cases hs

theorem reached_of_run (h : (machine env al ep targets).Run as es s) :
    Reached env al ep targets as es s := by
  refine h.invariant (P := fun as es s => Reached env al ep targets as es s) (.binding rfl rfl) ?_
  rintro as es s₁ a s₂ es' - hr hs
  exact hr.step hs

/-- **`discover` sends its messages, and then does what `Discovery` does.**  Nothing is
    received before `query::start` has returned; when it has, it is what `MSearch.start`
    says of the errors that occurred, and `discover` comes to what `Igd.discover` says of
    that. -/
theorem start_of_run (h : (machine env al ep targets).Run as es s) :
    (s.begun = none → discoverEvents es = [] ∧ s.result = none) ∧
    (∀ r, s.begun = some r →
      MSearch.start (bindError as) (sendError as) ep targets = (datagrams es, r) ∧
      Igd.discover env al (r.map fun _ => Discovery.turns (discoverEvents es)) = s.result) ∧
    ∀ d, s = .running d →
      (Discovery.machine env al).Run (discoverActions as) (discoverEvents es) d := by
  cases reached_of_run h with
  | binding _ he =>
    subst he
    exact ⟨fun _ => ⟨rfl, rfl⟩, fun _ hr => (by cases hr), fun _ hd => (by cases hd)⟩
  | sending _ _ he _ _ =>
    exact ⟨fun _ => ⟨he, rfl⟩, fun _ hr => (by cases hr), fun _ hd => (by cases hd)⟩
  | failed _ hs =>
    refine ⟨fun hb => (by cases hb), fun r hr => ?_, fun _ hd => (by cases hd)⟩
    cases hr
    exact ⟨hs, rfl⟩
  | running hs hrun =>
    refine ⟨fun hb => (by cases hb), fun r hr => ?_, fun d hd => ?_⟩
    · cases hr
      exact ⟨hs, Discovery.discover_turns hrun⟩
    · cases hd
      exact hrun

/-- The second message cannot be sent. -/
def secondFails : List StartAction := [.bound none, .sent none, .sent (some (.other 101))]

theorem start_of_secondFails : ∃ es s, (machine (Env.oneHost fun _ => none)
      (fun _ _ => ⟨1, Int.one_pos⟩) [] MSearch.searchTargets).Run secondFails es s ∧
    s.result = some (.ok (.error (.other 101))) ∧
    MSearch.start none (sendError secondFails) [] MSearch.searchTargets =
      (datagrams es, .error (.other 101)) :=
  ⟨_, _, rfl, rfl, ((start_of_run (show (machine (Env.oneHost fun _ => none)
    (fun _ _ => ⟨1, Int.one_pos⟩) [] MSearch.searchTargets).Run secondFails _ _ from rfl)).2.1
      _ rfl).1⟩

end

end Starting

end Upnp
