/-
  The operations of an `igd`, many at a time, over a network that loses things.

  Each operation sends one request.  It may fail before the gateway has got the request or
  after that; the gateway answers the requests that it gets one by one, in any order, and
  its state may change by itself.  `network` is what the source does: SOAP envelopes over
  HTTP.  `direct` is what it is for: the same, but the actions are called with their values,
  and there are no documents.

  * `ready_of_discover`: what `sessions_iff` asks of an `igd` holds of those that `discover`
    returns;
  * `sessions_iff`: nobody can tell the one from the other, neither a caller nor the gateway.
-/
import Upnp.Lib.Rpc
import Upnp.WanConnection

namespace Upnp

open Lib Lib.Xml
open WanConnection (Answer)

/-- What becomes of a request on its way, and of the response. -/
inductive Fate where
  | connectFails (ec : ErrorCode)
  | writeFails (ec : ErrorCode)
  | readFails (ec : ErrorCode)
  | answered
  deriving DecidableEq, Repr

/-- The exchange, if it can be, where the gateway has sent this response.  Without a
    connection it has got no request; it may have got one that was not written to its end
    for all that the writer knows. -/
def Fate.exchange : Fate → Option HttpResponse → Option Exchange
  | connectFails ec, none => some (.connectFailed ec)
  | writeFails ec, _ => some (.writeFailed ec)
  | readFails ec, _ => some (.readFailed ec)
  | answered, some rs => some (.response rs)
  | _, _ => none

/-- The same, for any replies, by what `soap_request` makes of it. -/
def Fate.reply {ρ : Type} : Fate → Option ρ → Option (Except SoapRequestError ρ)
  | connectFails _, none => some (.error .tcpConnect)
  | writeFails _, _ => some (.error .httpRequest)
  | readFails _, _ => some (.error .httpResponse)
  | answered, some r => some (.ok r)
  | _, _ => none

/-- The operation sends a request: `add_port_mapping` does not without a local address. -/
def Operation.sends {Address : Type} (localIp : Option Address) : Operation → Bool
  | addPortMapping .. => localIp.isSome
  | _ => true

section
variable {Address σ : Type}

/-- The operations of `g`, whose requests go to the gateway at `ep`. -/
def Igd.network (env : Env Address) (g : Igd) (ep : Endpoint Address) (serve : Server σ) :
    Rpc.Protocol σ Operation Fate (Operation.Outcome Address) HttpResponse where
  serve s op := (op.request env g (env.localAddressTo ep)).map fun rq => serve s rq
  finish op f r := (f.exchange r).map fun x => op.run env (fun _ _ => x) g

/-- The operations as calls of the service, from the address `localIp`. -/
def WanConnection.direct (wan : WanConnection Address σ) (localIp : Option Address) :
    Rpc.Protocol σ Operation Fate (Operation.Outcome Address) (Except ℕ (Answer Address)) where
  serve s op :=
    if op.sends localIp then
      match op.call localIp with
      | some c => some (wan.perform s c)
      -- what `delete_port_mapping` sends asks for nothing
      | none => some (s, .error wan.badRequest)
    else none
  finish op f r := (f.reply r).map fun
    | .error e => if op.sends localIp then op.failed e else .added (.error .noEndpointToIgd)
    | .ok r => op.replied r

/-- The requests of `g` go to `ep`, and its URN is no markup. -/
structure Igd.Ready (env : Env Address) (g : Igd) (ep : Endpoint Address) : Prop where
  endpoint : ∃ rest, consumeEndpoint env.makeAddress g.url.hostAndPort = some (ep, rest)
  urn : CleanAttr g.urn

/-! ## What `discover` returns -/

namespace Igd

theorem version_of_mem_candidates {r : Root} {c : Candidate} (h : c ∈ candidates r) :
    c.v = "1".toList ∨ c.v = "2".toList := by
  unfold candidates at h
  split at h
  · cases h
  · rename_i v hv
    obtain ⟨device, -, rfl⟩ := List.mem_map.1 h
    unfold versionOf at hv
    split at hv
    · exact .inl (Option.some.inj hv).symm
    · split at hv
      · exact .inr (Option.some.inj hv).symm
      · cases hv

theorem Candidate.urn_of_mem {c : Candidate} {g : Gateway} (h : g ∈ c.gateways) :
    g.urn = conIp c.v ∨ g.urn = conPpp c.v := by
  obtain ⟨connection, -, h⟩ := List.mem_flatMap.1 h
  obtain ⟨service, hs, rfl⟩ := List.mem_map.1 h
  exact of_decide_eq_true (List.mem_filter.1 hs).2

/-- **An `igd` that `discover` returns is ready to be called**, at the endpoint of a location
    that it was given. -/
theorem ready_of_discover {env : Env Address} {al : ℕ → Alloc} {turns : List (Turn Address)}
    {igds : List Igd} {g : Igd} (hd : discover env al (.ok turns) = some (.ok (.ok igds)))
    (hg : g ∈ igds) : ∃ turn ∈ turns, ∃ rsp ep rest, turn.outcome = .ok (.ok rsp) ∧
      consumeEndpoint env.makeAddress rsp.location.1.hostAndPort = some (ep, rest) ∧
      g.url.hostAndPort = rsp.location.1.hostAndPort ∧ g.Ready env ep := by
  obtain ⟨roots, hf, r, hr, c, hc, hgc⟩ := candidate_of_mem hd hg
  obtain ⟨turn, ht, ho, hq⟩ := hf.turn_of_mem hr
  obtain ⟨ep, rest, -, he, -⟩ := consumeEndpoint_of_queryRootDevice hq
  have hhost : g.url.hostAndPort = r.1.location.1.hostAndPort := by
    rw [← rsp_of_mem_candidates hc]
    exact Candidate.hostAndPort_of_mem hgc
  refine ⟨turn, ht, r.1, ep, rest, ho, he, hhost, ⟨rest, (congrArg _ hhost).trans he⟩, ?_⟩
  have hurn : g.urn = conIp c.v ∨ g.urn = conPpp c.v := Candidate.urn_of_mem hgc
  rcases version_of_mem_candidates hc with hv | hv <;> rw [hv] at hurn <;>
    rcases hurn with hu | hu <;> rw [hu] <;> decide

end Igd

/-! ## The two protocols -/

variable {env : Env Address} {g : Igd} {ep : Endpoint Address} {serve : Server σ}
  {wan : WanConnection Address σ} {localIp : Option Address} {op : Operation}

/-- The gateway has got the request, and its response says what came of it. -/
def Says (env : Env Address) (localIp : Option Address) (op : Operation) (rs : HttpResponse)
    (r : Except ℕ (Answer Address)) : Prop :=
  op.sends localIp = true ∧ op.result env (Igd.answer (.response rs)) = op.replied r

theorem request_isSome (env : Env Address) (g : Igd) (op : Operation) :
    (op.request env g localIp).isSome = op.sends localIp := by
  cases op with
  | addPortMapping => exact Option.isSome_map
  | _ => rfl

/-- An operation that sends a request for no action is `delete_port_mapping`. -/
theorem garbled_of_call (env : Env Address) (hu : CleanAttr g.urn) (hs : op.sends localIp = true)
    (hc : op.call localIp = none) : ∃ rq, op.request env g localIp = some rq ∧
      readDocument rq.body = none := by
  cases op with
  | addPortMapping =>
    rw [Operation.call, Option.map_eq_none_iff] at hc
    rw [hc] at hs
    cases hs
  | deletePortMapping proto extPort =>
    exact ⟨_, rfl, deletePortMapping_illFormed hu proto extPort⟩
  | getExternalAddress | getGenericPortMappingEntry | getListOfPortMappings => cases hc

/-- **The gateway does what it is asked, and says so.** -/
theorem Serves.responds (h : Serves env g wan serve) (hg : g.Ready env ep)
    (hshow : ∀ a, CleanText (env.showAddress a)) (s : σ) (op : Operation) :
    Option.Rel (fun x y => x.1 = y.1 ∧ Says env (env.localAddressTo ep) op x.2 y.2)
      ((g.network env ep serve).serve s op)
      ((wan.direct (env.localAddressTo ep)).serve s op) := by
  simp only [Igd.network, WanConnection.direct]
  by_cases hs : op.sends (env.localAddressTo ep) = true
  · rw [if_pos hs]
    rcases hc : op.call (env.localAddressTo ep) with _ | c
    · obtain ⟨rq, hrq, hbody⟩ := garbled_of_call env hg.urn hs hc
      obtain ⟨hstate, hstatus, hne⟩ := h.garbled s rq hbody
      rw [hrq]
      refine .some ⟨hstate, hs, ?_⟩
      rw [answer_of_status hstatus hne, result_error]
      rfl
    · obtain ⟨rq, hrq, hasks⟩ := asks_of_call hg.urn hshow hc
      obtain ⟨hstate, hreply⟩ := h.action s rq c hasks
      rw [hrq]
      exact .some ⟨hstate, hs, result_of_replies hc hreply⟩
  · have hrq : op.request env g (env.localAddressTo ep) = none := by
      rw [← Option.not_isSome_iff_eq_none, request_isSome]
      exact hs
    rw [if_neg hs, hrq]
    exact .none

/-- What an operation comes to that has no response. -/
theorem finish_error {rest : Str}
    (he : consumeEndpoint env.makeAddress g.url.hostAndPort = some (ep, rest)) {x : Exchange}
    {e : SoapRequestError} (hx : Igd.answer x = .error e) (op : Operation) :
    op.run env (fun _ _ => x) g =
      if op.sends (env.localAddressTo ep) then op.failed e
      else .added (.error .noEndpointToIgd) := by
  rw [Operation.run_eq he]
  rw [← request_isSome env g op]
  rcases op.request env g (env.localAddressTo ep) with _ | rq
  · rfl
  · simp only [hx, result_error, Option.isSome_some, if_true]

theorem network_agrees (h : Serves env g wan serve) (hg : g.Ready env ep)
    (hshow : ∀ a, CleanText (env.showAddress a)) :
    Rpc.Agree (g.network env ep serve) (wan.direct (env.localAddressTo ep))
      (Says env (env.localAddressTo ep)) := by
  obtain ⟨rest, he⟩ := hg.endpoint
  refine ⟨h.responds hg hshow, ?_, ?_⟩
  · intro op f
    cases f with
    | connectFails ec => exact congrArg some (finish_error he rfl op)
    | writeFails ec => exact congrArg some (finish_error he rfl op)
    | readFails ec => exact congrArg some (finish_error he rfl op)
    | answered => rfl
  · rintro op rs r ⟨hs, hr⟩ f
    cases f with
    | connectFails ec => rfl
    | writeFails ec => exact congrArg some (finish_error he rfl op)
    | readFails ec => exact congrArg some (finish_error he rfl op)
    | answered =>
      refine congrArg some ?_
      dsimp only
      rw [Operation.run_eq he]
      obtain ⟨rq, hrq⟩ := Option.isSome_iff_exists.1 ((request_isSome env g op).trans hs)
      rw [hrq]
      exact hr

/-- An operation whose request is answered at once comes to what the gateway says. -/
theorem run_served (h : Serves env g wan serve) (hg : g.Ready env ep)
    (hshow : ∀ a, CleanText (env.showAddress a)) {c : WanConnection.Call Address}
    (hc : op.call (env.localAddressTo ep) = some c) (s : σ) :
    op.run env (fun _ rq => .response (serve s rq).2) g = op.replied (wan.perform s c).2 := by
  obtain ⟨rest, he⟩ := hg.endpoint
  obtain ⟨rq, hrq, hasks⟩ := asks_of_call hg.urn hshow hc
  rw [Operation.run_eq he, hrq]
  exact result_of_replies hc (h.action s rq c hasks).2

/-- **Nobody can tell a session over the network from one without.**  For any number of
    operations at a time, whatever is lost on the way: the runs are the same, with what the
    operations return, and so is what the gateway comes to. -/
theorem sessions_iff (h : Serves env g wan serve) (hg : g.Ready env ep)
    (hshow : ∀ a, CleanText (env.showAddress a)) {s₀ s₁ : σ}
    {as : List (Rpc.Action σ Operation Fate)}
    {es : List (Rpc.Event Operation (Operation.Outcome Address))} :
    (∃ s, (Rpc.machine (g.network env ep serve) s₀).Run as es s ∧ s.server = s₁) ↔
      ∃ s, (Rpc.machine (wan.direct (env.localAddressTo ep)) s₀).Run as es s ∧ s.server = s₁ :=
  (network_agrees h hg hshow).same_runs_iff

end

/-! ## A session -/

/-- A mapping of TCP port 2222. -/
def sshMapping : MapEntry Unit := ⟨"ssh".toList, 2222, 22, 3600, .tcp, (), true⟩

/-- A gateway that counts its mappings, and shows the same one for all of them. -/
def countingWan : WanConnection Unit ℕ where
  addPortMapping s _ _ _ _ _ _ := .ok (s + 1)
  getExternalIPAddress _ := .ok ()
  getGenericPortMappingEntry s index := if index < s then .ok sshMapping else .error 500
  getListOfPortMappings _ _ _ _ _ := .error 500
  badRequest := 400

/-- An envelope with this element. -/
def Ptree.inEnvelope (tag : Str) (o : Ptree) : Ptree :=
  .only "s:Envelope".toList (.only "s:Body".toList (.only tag o))

/-- Its answers are called `address` and `entry`. -/
def countingEnv : Env Unit := .oneHost fun s =>
  if s = "address".toList then
    some (.inEnvelope "u:GetExternalIPAddressResponse".toList
      (.only "NewExternalIPAddress".toList ⟨"192.168.0.1".toList, []⟩))
  else if s = "entry".toList then
    some (.inEnvelope "u:GetGenericPortMappingEntryResponse".toList
      ((sshMapping.texts fun _ => "192.168.0.1".toList).xml genericTag))
  else none

/-- The element of the action in a document. -/
def actionOf (e : Elem) : Option Elem := e.children.head?.bind fun b => b.children.head?

/-- The index of a mapping is the first argument, if there are `s` mappings. -/
def hasIndex (s : ℕ) (e : Elem) : Bool :=
  (List.range s).any fun i => e.children.head?.map Elem.text = some (decimal i)

/-- The gateway looks at the name of an action, and at the index. -/
def countingServer : Server ℕ := fun s rq =>
  match (readDocument rq.body).bind actionOf with
  | none => (s, ⟨400, []⟩)
  | some e =>
    if e.name = "u:AddPortMapping".toList then (s + 1, ⟨200, []⟩)
    else if e.name = "u:GetExternalIPAddress".toList then (s, ⟨200, "address".toList⟩)
    else if e.name = "u:GetGenericPortMappingEntry".toList then
      if hasIndex s e then (s, ⟨200, "entry".toList⟩) else (s, ⟨500, []⟩)
    else (s, ⟨500, []⟩)

theorem decimal_injective : Function.Injective decimal := by
  intro m n h
  rw [← valueOf_decimal m, h, valueOf_decimal]

theorem Ptree.holds_only {tag : Str} {t : Ptree} (hattr : tag ≠ "<xmlattr>".toList)
    (hcomment : tag ≠ "<xmlcomment>".toList) : (Ptree.only tag t).Holds tag t :=
  List.filter_cons_of_pos (p := fun e : Str × Ptree =>
    e.1 ≠ "<xmlattr>".toList ∧ e.1 ≠ "<xmlcomment>".toList) (decide_eq_true ⟨hattr, hcomment⟩)

theorem responds_inEnvelope {Address : Type} {env : Env Address} {b tag : Str} {o : Ptree}
    (hx : env.readXml b = some (.inEnvelope tag o)) (hattr : tag ≠ "<xmlattr>".toList)
    (hcomment : tag ≠ "<xmlcomment>".toList) : Responds env b tag o :=
  ⟨_, _, _, hx, Ptree.holds_only (by decide) (by decide),
    Ptree.holds_only (by decide) (by decide), Ptree.holds_only hattr hcomment⟩

theorem document_address : Document countingEnv "address".toList (.address ()) :=
  ⟨rfl, _, responds_inEnvelope rfl (by decide) (by decide), _, rfl, rfl⟩

theorem document_entry : Document countingEnv "entry".toList (.entry sshMapping) :=
  ⟨⟨by decide, by decide, by decide, rfl⟩, _, responds_inEnvelope rfl (by decide) (by decide),
    places_xml genericTag_name.1 genericTag_name.2 _⟩

/-- The element of `GetGenericPortMappingEntry` has the index that is asked for. -/
theorem hasIndex_iff {s index : ℕ} (urn n : Str) :
    hasIndex s (actionElem urn n (Request.getGenericPortMappingEntry index).args) = true ↔
      index < s := by
  simp only [hasIndex, actionElem, Request.args, List.map_cons, List.head?_cons, Option.map_some,
    Elem.leaf, Option.some.injEq, decimal_injective.eq_iff, List.any_eq_true, List.mem_range,
    decide_eq_true_eq]
  constructor
  · rintro ⟨i, hi, rfl⟩
    exact hi
  · exact fun h => ⟨index, h, rfl⟩

/-- It serves everybody who reads these two documents. -/
theorem serves_of_documents {env : Env Unit} {g : Igd}
    (haddress : Document env "address".toList (.address ()))
    (hentry : Document env "entry".toList (.entry sshMapping)) :
    Serves env g countingWan countingServer := by
  constructor
  · intro s rq c hasks
    have haction : (readDocument rq.body).bind actionOf =
        some (actionElem g.urn ("u:".toList ++ c.action) (c.args env.showAddress)) := by
      rw [hasks.body]
      rfl
    cases c with
    | addPortMapping =>
      simp only [countingServer, haction]
      exact ⟨rfl, rfl, trivial⟩
    | getExternalIPAddress =>
      simp only [countingServer, haction]
      exact ⟨rfl, rfl, haddress⟩
    | getGenericPortMappingEntry index =>
      have hserve : countingServer s rq =
          if index < s then (s, ⟨200, "entry".toList⟩) else (s, ⟨500, []⟩) := by
        simp only [← hasIndex_iff g.urn "u:GetGenericPortMappingEntry".toList, countingServer,
          haction]
        rfl
      simp only [hserve, WanConnection.perform, countingWan]
      split
      · exact ⟨rfl, rfl, hentry⟩
      · exact ⟨rfl, rfl, by decide⟩
    | getListOfPortMappings =>
      simp only [countingServer, haction]
      exact ⟨rfl, rfl, by decide⟩
  · intro s rq hbody
    simp only [countingServer, hbody]
    exact ⟨rfl, rfl, by decide⟩

theorem serves_counting : Serves countingEnv Igd.localGateway countingWan countingServer :=
  serves_of_documents document_address document_entry

/-- A mapping of TCP port 2222 to add. -/
def addSsh : Operation := .addPortMapping .tcp 2222 22 ⟨"ssh".toList, by decide⟩ 3600

/-- A mapping is added while the address is asked for, and its response is lost; the
    attempt to delete it does nothing. -/
def lostResponse : List (Rpc.Action ℕ Operation Fate) :=
  [.call 0 .getExternalAddress, .call 1 addSsh, .serve 1, .call 2 (.getGenericPortMappingEntry 0),
    .serve 2, .serve 0, .finish 2 .answered, .finish 1 (.readFails .timedOut),
    .finish 0 .answered, .call 3 (.deletePortMapping .tcp 2222), .serve 3, .finish 3 .answered]

theorem sessions_lostResponse :
    ∃ s, (Rpc.machine (Igd.localGateway.network countingEnv ⟨(), 5000⟩ countingServer) 0).Run
      lostResponse
      [.finished 2 (.getGenericPortMappingEntry 0) (.entry (.ok (.ok sshMapping))),
        .finished 1 addSsh (.added (.error (.soapRequest .httpResponse))),
        .finished 0 .getExternalAddress (.address (.ok (.ok ()))),
        .finished 3 (.deletePortMapping .tcp 2222) (.deleted (.error (.httpStatus 400)))] s ∧
      s.server = 1 :=
  (sessions_iff serves_counting ⟨⟨[], rfl⟩, by decide⟩
    fun _ => show CleanText "192.168.0.1".toList by decide).2 ⟨_, rfl, rfl⟩

end Upnp
