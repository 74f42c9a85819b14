/-
  What a gateway does for the operations of an `igd`, in values and in documents.

  A `WanConnection` is the service that the operations are about: it adds mappings, and it
  tells its address and the mappings that it has.  A gateway offers it as a `Server`, which
  gets requests and sends responses.  `Serves` is what the two have to do with each other:
  a gateway reads the document of a request with an XML reader, and writes what it answers
  into a document, as it is printed and under the usual prefixes.

  An `Operation` is a call of one of the operations, with a description that is no markup.

  * `asks_of_call`: the request of an operation asks for what was meant;
  * `run_eq`: what an operation comes to is decided by one exchange;
  * `result_of_replies`: from the document that answers it an operation reads back what
    the gateway says.
-/
import Upnp.ControlUrl
import Upnp.DeviceTree
import Upnp.MappingFields
import Upnp.SoapText

namespace Upnp

open Lib Lib.Xml

/-! ## The operations -/

/-- A call of an operation of an `igd`.  The description is clean text: markup in it is not
    escaped, so that the request would be another document, or none. -/
inductive Operation where
  | addPortMapping (proto : Protocol) (externalPort internalPort : ℕ)
      (description : {t : Str // CleanText t}) (duration : ℤ)
  | deletePortMapping (proto : Protocol) (extPort : ℕ)
  | getExternalAddress
  | getGenericPortMappingEntry (index : ℕ)
  | getListOfPortMappings (proto : Protocol) (minPort maxPort maxCount : ℕ)

namespace Operation

/-- What an operation returns. -/
inductive Outcome (Address : Type) where
  | added (r : Except AddPortMappingError Unit)
  | deleted (r : Except SoapRequestError Unit)
  | address (r : Except Fault (Except GetExternalAddressError Address))
  | entry (r : Except Fault (Except GetMappingsError (MapEntry Address)))
  | entries (r : Except Fault (Except GetMappingsError (List (MapEntry Address))))

section
variable {Address : Type} (env : Env Address) (net : Net Address) (g : Igd)

/-- The operation of `g` that is called. -/
def run : Operation → Outcome Address
  | addPortMapping proto externalPort internalPort description duration =>
    .added (g.addPortMapping env net proto externalPort internalPort description.1 duration)
  | deletePortMapping proto extPort => .deleted (g.deletePortMapping env net proto extPort)
  | getExternalAddress => .address (g.getExternalAddress env net)
  | getGenericPortMappingEntry index => .entry (g.getGenericPortMappingEntry env net index)
  | getListOfPortMappings proto minPort maxPort maxCount =>
    .entries (g.getListOfPortMappings env net proto minPort maxPort maxCount)

/-- The request that the operation sends, from the address `localIp`, if there is one. -/
def request (localIp : Option Address) : Operation → Option HttpRequest
  | addPortMapping proto externalPort internalPort description duration =>
    localIp.map fun ip => g.soapMessage "AddPortMapping".toList
      (Igd.addPortMappingBody g.urn proto externalPort internalPort (env.showAddress ip)
        description.1 duration)
  | deletePortMapping proto extPort =>
    some (g.soapMessage "DeletePortMapping".toList (Igd.deletePortMappingBody g.urn proto extPort))
  | getExternalAddress =>
    some (g.soapMessage "GetExternalIPAddress".toList (Igd.getExternalAddressBody g.urn))
  | getGenericPortMappingEntry index =>
    some (g.soapMessage "GetGenericPortMappingEntry".toList
      (Igd.getGenericPortMappingEntryBody g.urn index))
  | getListOfPortMappings proto minPort maxPort maxCount =>
    some (g.soapMessage "GetListOfPortMappings".toList
      (Igd.getListOfPortMappingsBody g.urn proto minPort maxPort maxCount))

/-- What the operation makes of what `soap_request` returned. -/
def result (op : Operation) (r : Except SoapRequestError HttpResponse) : Outcome Address :=
  match op, r with
  | addPortMapping .., .error e => .added (.error (.soapRequest e))
  | addPortMapping .., .ok _ => .added (.ok ())
  | deletePortMapping .., .error e => .deleted (.error e)
  | deletePortMapping .., .ok _ => .deleted (.ok ())
  | getExternalAddress, .error e => .address (.ok (.error (.soapRequest e)))
  | getExternalAddress, .ok rs => .address (Igd.decodeExternalAddress env rs.body)
  | getGenericPortMappingEntry _, .error e => .entry (.ok (.error (.soapRequest e)))
  | getGenericPortMappingEntry _, .ok rs => .entry (Igd.decodeGenericPortMappingEntry env rs.body)
  | getListOfPortMappings .., .error e => .entries (.ok (.error (.soapRequest e)))
  | getListOfPortMappings .., .ok rs => .entries (Igd.decodeListOfPortMappings env rs.body)

end

end Operation

section
variable {Address : Type} {env : Env Address} {net : Net Address} {g : Igd} {ep : Endpoint Address}

/-- **One exchange decides what an operation comes to**, unless it sends no request. -/
theorem Operation.run_eq {rest : Str}
    (he : consumeEndpoint env.makeAddress g.url.hostAndPort = some (ep, rest)) (op : Operation) :
    op.run env net g = match op.request env g (env.localAddressTo ep) with
      | some rq => op.result env (Igd.answer (net ep rq))
      | none => .added (.error .noEndpointToIgd) := by
  have hsoap := (Igd.reaches_of_consumeEndpoint he).soapRequest net
  cases op with
  | addPortMapping proto externalPort internalPort description duration =>
    simp only [run, request, Igd.addPortMapping, he, hsoap]
    rcases env.localAddressTo ep with _ | ip
    · rfl
    · simp only [Option.map_some]
      rcases Igd.answer (net ep _) with e | rs <;> rfl
  | deletePortMapping proto extPort =>
    simp only [run, request, Igd.deletePortMapping, hsoap]
    rcases Igd.answer (net ep _) with e | rs <;> rfl
  | getExternalAddress =>
    simp only [run, request, Igd.getExternalAddress, hsoap]
    rcases Igd.answer (net ep _) with e | rs <;> rfl
  | getGenericPortMappingEntry index =>
    simp only [run, request, Igd.getGenericPortMappingEntry, hsoap]
    rcases Igd.answer (net ep _) with e | rs <;> rfl
  | getListOfPortMappings proto minPort maxPort maxCount =>
    simp only [run, request, Igd.getListOfPortMappings, hsoap]
    rcases Igd.answer (net ep _) with e | rs <;> rfl

end

/-! ## The service, in values -/

namespace WanConnection

/-- An action of the service. -/
inductive Call (Address : Type) where
  | addPortMapping (proto : Protocol) (externalPort internalPort : ℕ) (client : Address)
      (description : Str) (duration : ℤ)
  | getExternalIPAddress
  | getGenericPortMappingEntry (index : ℕ)
  | getListOfPortMappings (proto : Protocol) (minPort maxPort maxCount : ℕ)

/-- What an action tells, if it does not fail. -/
inductive Answer (Address : Type) where
  | added
  | address (a : Address)
  | entry (m : MapEntry Address)
  | entries (ms : List (MapEntry Address))

end WanConnection

open WanConnection (Answer)

/-- The service of a gateway whose state is in `σ`.  An action that fails has an HTTP
    status. -/
structure WanConnection (Address σ : Type) where
  addPortMapping : σ → Protocol → ℕ → ℕ → Address → Str → ℤ → Except ℕ σ
  getExternalIPAddress : σ → Except ℕ Address
  getGenericPortMappingEntry : σ → ℕ → Except ℕ (MapEntry Address)
  getListOfPortMappings : σ → Protocol → ℕ → ℕ → ℕ → Except ℕ (List (MapEntry Address))
  /-- The status for what is no XML. -/
  badRequest : ℕ

section
variable {Address σ : Type}

/-- One action: the next state, and the answer or the status. -/
def WanConnection.perform (wan : WanConnection Address σ) (s : σ) :
    Call Address → σ × Except ℕ (Answer Address)
  | .addPortMapping proto externalPort internalPort client description duration =>
    match wan.addPortMapping s proto externalPort internalPort client description duration with
    | .ok s' => (s', .ok .added)
    | .error status => (s, .error status)
  | .getExternalIPAddress => (s, (wan.getExternalIPAddress s).map .address)
  | .getGenericPortMappingEntry index => (s, (wan.getGenericPortMappingEntry s index).map .entry)
  | .getListOfPortMappings proto minPort maxPort maxCount =>
    (s, (wan.getListOfPortMappings s proto minPort maxPort maxCount).map .entries)

namespace Operation

/-- The action that an operation is meant to be, from the address `localIp`.
    `delete_port_mapping` sends what is no XML. -/
def call (localIp : Option Address) : Operation → Option (WanConnection.Call Address)
  | addPortMapping proto externalPort internalPort description duration =>
    localIp.map fun ip => .addPortMapping proto externalPort internalPort ip description.1 duration
  | deletePortMapping _ _ => none
  | getExternalAddress => some .getExternalIPAddress
  | getGenericPortMappingEntry index => some (.getGenericPortMappingEntry index)
  | getListOfPortMappings proto minPort maxPort maxCount =>
    some (.getListOfPortMappings proto minPort maxPort maxCount)

/-- `soap_request` returned this error. -/
def failed (e : SoapRequestError) : Operation → Outcome Address
  | addPortMapping .. => .added (.error (.soapRequest e))
  | deletePortMapping .. => .deleted (.error e)
  | getExternalAddress => .address (.ok (.error (.soapRequest e)))
  | getGenericPortMappingEntry _ => .entry (.ok (.error (.soapRequest e)))
  | getListOfPortMappings .. => .entries (.ok (.error (.soapRequest e)))

/-- The gateway came to this. -/
def replied (op : Operation) : Except ℕ (Answer Address) → Outcome Address
  | .error status => op.failed (.httpStatus status)
  | .ok .added => .added (.ok ())
  | .ok (.address a) => .address (.ok (.ok a))
  | .ok (.entry m) => .entry (.ok (.ok m))
  | .ok (.entries ms) => .entries (.ok (.ok ms))

end Operation

/-! ## Requests -/

namespace WanConnection.Call

/-- The name of the action. -/
def action : Call Address → Str
  | addPortMapping .. => "AddPortMapping".toList
  | getExternalIPAddress => "GetExternalIPAddress".toList
  | getGenericPortMappingEntry _ => "GetGenericPortMappingEntry".toList
  | getListOfPortMappings .. => "GetListOfPortMappings".toList

/-- The arguments, as they are printed. -/
def args (showAddress : Address → Str) : Call Address → List (Str × Str)
  | addPortMapping proto externalPort internalPort client description duration =>
    addPortMappingArgs proto externalPort internalPort (showAddress client) description duration
  | getExternalIPAddress => []
  | getGenericPortMappingEntry index => (Request.getGenericPortMappingEntry index).args
  | getListOfPortMappings proto minPort maxPort maxCount =>
    (Request.getListOfPortMappings proto minPort maxPort maxCount).args

end WanConnection.Call

/-- The request asks for an action at the control URL of `g`. -/
structure Asks (g : Igd) (action : Str) (args : List (Str × Str)) (rq : HttpRequest) : Prop where
  method : rq.method = "POST".toList
  target : rq.target = g.url.get .path
  header : ("SOAPAction".toList, ['"'] ++ g.urn ++ ['#'] ++ action ++ ['"']) ∈ rq.fields
  body : readDocument rq.body = some (soapTree g.urn ("u:".toList ++ action) args)

/-! ## Responses -/

/-- `c` is the only child of `t`, attributes and comments apart, and its name is `n`. -/
def Ptree.Holds (t : Ptree) (n : Str) (c : Ptree) : Prop :=
  t.children.filter (fun e => e.1 ≠ "<xmlattr>".toList ∧ e.1 ≠ "<xmlcomment>".toList) = [(n, c)]

/-- The body of a response is an envelope with this element in it. -/
def Responds (env : Env Address) (b tag : Str) (o : Ptree) : Prop :=
  ∃ t envelope body, env.readXml b = some t ∧ t.Holds "s:Envelope".toList envelope ∧
    envelope.Holds "s:Body".toList body ∧ body.Holds tag o

/-- The fields of a mapping, as they are printed. -/
def MapEntry.texts (showAddress : Address → Str) (m : MapEntry Address) : FieldTexts
  | .description => some m.description
  | .externalPort => some (decimal m.extPort)
  | .internalPort => some (decimal m.intPort)
  | .client => some (showAddress m.intClient)
  | .enabled => some (decimal m.enabled.toNat)
  | .lease => some (decimal m.leaseDuration)
  | .protocol => some m.proto.print

/-- The body `b` of a response has this answer.  Nothing is said of the answer to
    `AddPortMapping`. -/
def Document (env : Env Address) (b : Str) : Answer Address → Prop
  | .added => True
  | .address a => env.makeAddress (env.showAddress a) = some a ∧
      ∃ o, Responds env b "u:GetExternalIPAddressResponse".toList o ∧
        o.Field "NewExternalIPAddress".toList (env.showAddress a)
  | .entry m => Listable env m ∧
      ∃ o, Responds env b "u:GetGenericPortMappingEntryResponse".toList o ∧
        o.Places genericTag (m.texts env.showAddress)
  | .entries ms =>
      ∃ o s t list, Responds env b "u:GetListOfPortMappingsResponse".toList o ∧
        o.Field "NewPortListing".toList s ∧ env.readXml s = some t ∧
        t.Holds "p:PortMappingList".toList list ∧ Lists env list.children ms

/-- A gateway: what a request makes of its state, and the response. -/
abbrev Server (σ : Type) := σ → HttpRequest → σ × HttpResponse

/-- `rs` is the response to an action that came to `r`. -/
def Replies (env : Env Address) (rs : HttpResponse) : Except ℕ (Answer Address) → Prop
  | .ok a => rs.status = 200 ∧ Document env rs.body a
  | .error status => rs.status = status ∧ status ≠ 200

/-- **The gateway offers the service.**  A request that asks for an action gets its answer;
    one that is no XML gets an error. -/
structure Serves (env : Env Address) (g : Igd) (wan : WanConnection Address σ)
    (serve : Server σ) : Prop where
  action : ∀ s rq (c : WanConnection.Call Address), Asks g c.action (c.args env.showAddress) rq →
    (serve s rq).1 = (wan.perform s c).1 ∧ Replies env (serve s rq).2 (wan.perform s c).2
  garbled : ∀ s rq, readDocument rq.body = none →
    (serve s rq).1 = s ∧ Replies env (serve s rq).2 (.error wan.badRequest)

/-! ## Reading the responses -/

/-- What is looked for is found where nothing else is. -/
theorem find?_of_filter {α : Type*} {p q : α → Bool} {l : List α} {x : α} (h : l.filter p = [x])
    (hqp : ∀ e, q e = true → p e = true) (hq : q x = true) : l.find? q = some x := by
  have hand : (fun e => decide (p e = true ∧ q e = true)) = q := by
    funext e
    rw [Bool.decide_and, Bool.decide_eq_true, Bool.decide_eq_true]
    rcases hqe : q e with _ | _
    · exact Bool.and_false _
    · rw [hqp e hqe, Bool.and_self]
  rw [← hand, ← List.find?_filter, h, List.find?_cons_of_pos hq]

namespace Ptree

variable {t c : Ptree} {n p : Str}

theorem pick_eq_find? (t : Ptree) (p : Str) :
    t.pick p = (t.children.find? (picks p)).map (·.2) := by
  rw [← pickAt_node, pickAt_eq, ← firstHit_snd, Option.map_map, Option.map_map]
  rfl

/-- The element is found by its name, if that is not the name of attributes or comments. -/
theorem Holds.find? (h : t.Holds n c) {q : Str → Bool} (hq : q n = true)
    (hattr : q "<xmlattr>".toList = false) (hcomment : q "<xmlcomment>".toList = false) :
    t.children.find? (fun e => q e.1) = some (n, c) := by
  refine find?_of_filter h ?_ hq
  intro e he
  refine decide_eq_true ⟨?_, ?_⟩ <;> intro hn <;> rw [hn] at he
  · rw [hattr] at he
    cases he
  · rw [hcomment] at he
    cases he

/-- A name on the path of `get_child` hits this name. -/
def hits (p n : Str) : Bool := picks p (n, ⟨[], []⟩)

theorem Holds.pick (h : t.Holds n c) (hp : hits p n = true)
    (hattr : hits p "<xmlattr>".toList = false) (hcomment : hits p "<xmlcomment>".toList = false) :
    t.pick p = some c := by
  have hpicks : picks p = fun e => hits p e.1 := rfl
  rw [pick_eq_find?, hpicks, h.find? hp hattr hcomment, Option.map_some]

theorem Holds.getChildOptional_dot (h : t.Holds n c) (hdot : '.' ∉ n)
    (hattr : n ≠ "<xmlattr>".toList) (hcomment : n ≠ "<xmlcomment>".toList) (rest : Str) :
    t.getChildOptional (n ++ '.' :: rest) = c.getChildOptional rest := by
  have hnamed : named n = fun e => decide (e.1 = n) := rfl
  rw [Ptree.getChildOptional_dot hdot, hnamed,
    h.find? (q := fun m => decide (m = n)) (decide_eq_true rfl) (decide_eq_false hattr.symm)
      (decide_eq_false hcomment.symm), Option.bind_some]

end Ptree

section
variable {env : Env Address} {b tag : Str} {o : Ptree}

/-- The paths of the operations lead to the element in the body of the envelope. -/
theorem Responds.element (h : Responds env b tag o) (hdot : '.' ∉ tag)
    (hhits : Ptree.hits tag tag = true) (hattr : Ptree.hits tag "<xmlattr>".toList = false)
    (hcomment : Ptree.hits tag "<xmlcomment>".toList = false) :
    ∃ t body : Ptree, env.readXml b = some t ∧ body.pick tag = some o ∧
      (∀ rest, t.getChild ("*:Envelope".toList ++ '.' :: ("*:Body".toList ++ '.' :: rest)) =
        body.getChild rest) ∧
      ∀ rest, t.getChildOptional ("s:Envelope".toList ++ '.' :: ("s:Body".toList ++
        '.' :: (tag ++ '.' :: rest))) = o.getChildOptional rest := by
  obtain ⟨t, envelope, body, hx, hte, heb, hbo⟩ := h
  have hne : tag ≠ "<xmlattr>".toList := by
    rintro rfl
    rw [hattr] at hhits
    cases hhits
  have hne' : tag ≠ "<xmlcomment>".toList := by
    rintro rfl
    rw [hcomment] at hhits
    cases hhits
  refine ⟨t, body, hx, hbo.pick hhits hattr hcomment, ?_, ?_⟩ <;> intro rest
  · rw [Ptree.getChild_dot (by decide), hte.pick (by decide) (by decide) (by decide),
      Option.bind_some, Ptree.getChild_dot (by decide),
      heb.pick (by decide) (by decide) (by decide), Option.bind_some]
  · rw [hte.getChildOptional_dot (by decide) (by decide) (by decide),
      heb.getChildOptional_dot (by decide) (by decide) (by decide),
      hbo.getChildOptional_dot hdot hne hne']

/-- The text of the element is the address. -/
theorem decodeExternalAddress_document {a : Address} (h : Document env b (.address a)) :
    Igd.decodeExternalAddress env b = .ok (.ok a) := by
  obtain ⟨ha, o, ho, e, he, hdata⟩ := h
  obtain ⟨t, body, hx, hpick, hpath, -⟩ := ho.element (by decide) (by decide) (by decide)
    (by decide)
  have hsplit : "*:Envelope.*:Body.u:GetExternalIPAddressResponse.NewExternalIPAddress".toList =
      "*:Envelope".toList ++ '.' :: ("*:Body".toList ++
        '.' :: ("u:GetExternalIPAddressResponse".toList ++
          '.' :: "NewExternalIPAddress".toList)) := by decide
  have hget : t.get "*:Envelope.*:Body.u:GetExternalIPAddressResponse.NewExternalIPAddress".toList =
      some (env.showAddress a) := by
    have hlast : o.getChild "NewExternalIPAddress".toList = some e.2 := by
      rw [Ptree.getChild_name (by decide) (by decide), Ptree.pick,
        if_neg (show ¬ (Ptree.nameSplit "NewExternalIPAddress".toList).1 = ['*'] by decide), he,
        Option.map_some]
    rw [Ptree.get, hsplit, hpath, Ptree.getChild_dot (by decide), hpick, Option.bind_some, hlast,
      Option.map_some, hdata]
  simp only [Igd.decodeExternalAddress, hx, hget, Option.isNone_some, Bool.false_eq_true, if_false,
    deref, bind, Except.bind, ha]

/-- A mapping is read back from its fields. -/
theorem readMapping_texts {m : MapEntry Address} (hm : Listable env m) :
    readMapping env Igd.genericProtocol (m.texts env.showAddress) = some m := by
  have hnum : ∀ {bits n x}, m.texts env.showAddress x = some (decimal n) → bits ≤ 32 →
      n < 2 ^ bits → (m.texts env.showAddress).num bits x = some n := by
    intro bits n x hx hb hn
    rw [FieldTexts.num, hx, Option.bind_some, consumeNumber_decimal hb hn, Option.map_some]
  have hext : (m.texts env.showAddress).num 16 .externalPort = some m.extPort :=
    hnum rfl (by omega) hm.extPort
  have hint : (m.texts env.showAddress).num 16 .internalPort = some m.intPort :=
    hnum rfl (by omega) hm.intPort
  have hena : (m.texts env.showAddress).num 16 .enabled = some m.enabled.toNat :=
    hnum rfl (by omega) (Nat.lt_of_le_of_lt (Bool.toNat_le _) (by omega))
  have hlea : (m.texts env.showAddress).num 32 .lease = some m.leaseDuration :=
    hnum rfl (by omega) hm.leaseDuration
  have hcli : (m.texts env.showAddress .client).bind env.makeAddress = some m.intClient :=
    hm.intClient
  have hdes : m.texts env.showAddress .description = some m.description := rfl
  have hpro : m.texts env.showAddress .protocol = some m.proto.print := rfl
  have hproto : Igd.genericProtocol m.proto.print = some m.proto := by
    cases m.proto <;> decide
  simp only [readMapping, readRest, hext, hint, hena, hlea, hcli, hdes, hpro, bind,
    Option.bind_some, hproto]
  cases m with | mk _ _ _ _ _ _ enabled => cases enabled <;> rfl

theorem decodeGenericPortMappingEntry_document {m : MapEntry Address}
    (h : Document env b (.entry m)) :
    Igd.decodeGenericPortMappingEntry env b = .ok (.ok m) := by
  obtain ⟨hm, o, ho, hplaces⟩ := h
  obtain ⟨t, body, hx, hpick, hpath, -⟩ := ho.element (by decide) (by decide) (by decide)
    (by decide)
  have hsplit : "*:Envelope.*:Body.u:GetGenericPortMappingEntryResponse".toList =
      "*:Envelope".toList ++ '.' :: ("*:Body".toList ++
        '.' :: "u:GetGenericPortMappingEntryResponse".toList) := by decide
  have hchild : t.getChild "*:Envelope.*:Body.u:GetGenericPortMappingEntryResponse".toList =
      some o := by
    rw [hsplit, hpath, Ptree.getChild_name (by decide) (by decide), hpick]
  rw [decodeGenericPortMappingEntry_fields env hx hchild hplaces]
  simp only [readMapping_texts hm]

theorem decodeListOfPortMappings_document {ms : List (MapEntry Address)}
    (h : Document env b (.entries ms)) :
    Igd.decodeListOfPortMappings env b = .ok (.ok ms) := by
  obtain ⟨o, s, l, list, ho, hs, hl, hlist, hms⟩ := h
  obtain ⟨t, body, hx, -, -, hpath⟩ := ho.element (by decide) (by decide) (by decide)
    (by decide)
  have hsplit : listPath = "s:Envelope".toList ++ '.' :: ("s:Body".toList ++
      '.' :: ("u:GetListOfPortMappingsResponse".toList ++ '.' :: "NewPortListing".toList)) := by
    decide
  have htext : t.getOptional listPath = some s := by
    rw [Ptree.getOptional, hsplit, hpath]
    exact getOptional_of_field (by decide) hs
  have hchild : l.getChildOptional "p:PortMappingList".toList = some list := by
    rw [Ptree.getChildOptional_name (by decide) (by decide),
      hlist.find? (q := fun m => decide (m = "p:PortMappingList".toList)) (by decide) (by decide)
        (by decide), Option.map_some]
  have hlisting : listingOf env t = some list := by
    rw [listingOf, htext, Option.bind_some, hl, Option.bind_some, hchild]
  rw [decodeListOfPortMappings_eq env hx]
  simp only [hlisting, entriesOf_lists hms]

/-! ## The operations and the service -/

variable {g : Igd} {localIp : Option Address} {op : Operation} {c : WanConnection.Call Address}

theorem asks_soapMessage {command message : Str} {args : List (Str × Str)}
    (h : readDocument (soapBody message) = some (soapTree g.urn ("u:".toList ++ command) args)) :
    Asks g command args (g.soapMessage command message) where
  method := rfl
  target := rfl
  header := by simp [Igd.soapMessage]
  body := h

/-- **The request of an operation asks for what was meant.** -/
theorem asks_of_call (hu : CleanAttr g.urn) (hshow : ∀ a, CleanText (env.showAddress a))
    (hc : op.call localIp = some c) : ∃ rq, op.request env g localIp = some rq ∧
      Asks g c.action (c.args env.showAddress) rq := by
  cases op with
  | addPortMapping proto externalPort internalPort description duration =>
    obtain ⟨ip, rfl, rfl⟩ := Option.map_eq_some_iff.1 hc
    exact ⟨_, rfl, asks_soapMessage ((addPortMapping_text_iff (hshow ip)).2 ⟨hu, description.2⟩)⟩
  | deletePortMapping proto extPort => cases hc
  | getExternalAddress =>
    cases hc
    refine ⟨_, rfl, asks_soapMessage ?_⟩
    have hn := Request.getExternalAddress.isName_action
    have hmess : Igd.getExternalAddressBody g.urn = Request.getExternalAddress.message g.urn := rfl
    rw [hmess, Request.message_getExternalAddress, read_emptyAction hn hu]
    have hbody : isName Upnp.body.name = true := by decide
    exact (readFrom_close (e := Upnp.body.addChild _) hbody).trans
      (readFrom_end (e := envelope.addChild _) (show isName envelope.name = true by decide))
  | getGenericPortMappingEntry index =>
    cases hc
    refine ⟨_, rfl, asks_soapMessage ?_⟩
    have h := (read_args_iff
      (Request.getGenericPortMappingEntry index).isName_action
      (Request.getGenericPortMappingEntry index).cleanLeaf_args).2 hu
    rwa [← Request.message_getGenericPortMappingEntry] at h
  | getListOfPortMappings proto minPort maxPort maxCount =>
    cases hc
    refine ⟨_, rfl, asks_soapMessage ?_⟩
    have h := (read_args_iff
      (Request.getListOfPortMappings proto minPort maxPort maxCount).isName_action
      (Request.getListOfPortMappings proto minPort maxPort maxCount).cleanLeaf_args).2 hu
    rwa [← Request.message_getListOfPortMappings] at h

theorem result_error (op : Operation) (e : SoapRequestError) :
    op.result env (.error e) = op.failed e := by
  cases op <;> rfl

theorem exists_of_map_ok {α β ε : Type} {f : α → β} {x : Except ε α} {b : β}
    (h : x.map f = .ok b) : ∃ a, b = f a := by
  rcases x with e | a
  · cases h
  · cases h
    exact ⟨a, rfl⟩

theorem answer_of_status {rs : HttpResponse} {status : ℕ} (h : rs.status = status)
    (hne : status ≠ 200) : Igd.answer (.response rs) = .error (.httpStatus status) := by
  rw [Igd.answer, h, if_neg hne]

/-- **From the response to its request an operation reads back what the gateway says.** -/
theorem result_of_replies {wan : WanConnection Address σ} {s : σ} {rs : HttpResponse}
    (hc : op.call localIp = some c) (h : Replies env rs (wan.perform s c).2) :
    op.result env (Igd.answer (.response rs)) = op.replied (wan.perform s c).2 := by
  rcases hr : (wan.perform s c).2 with status | a
  · rw [hr] at h
    rw [answer_of_status h.1 h.2, result_error]
    rfl
  · rw [hr] at h
    obtain ⟨hstatus, hdoc⟩ := h
    have hans : Igd.answer (.response rs) = .ok rs := by rw [Igd.answer, if_pos hstatus]
    rw [hans]
    cases op with
    | addPortMapping proto externalPort internalPort description duration =>
      obtain ⟨ip, -, rfl⟩ := Option.map_eq_some_iff.1 hc
      obtain rfl : a = .added := by
        rw [WanConnection.perform] at hr
        split at hr <;> cases hr
        rfl
      rfl
    | deletePortMapping proto extPort => cases hc
    | getExternalAddress =>
      cases hc
      obtain ⟨v, rfl⟩ := exists_of_map_ok hr
      exact congrArg Operation.Outcome.address (decodeExternalAddress_document hdoc)
    | getGenericPortMappingEntry index =>
      cases hc
      obtain ⟨m, rfl⟩ := exists_of_map_ok hr
      exact congrArg Operation.Outcome.entry (decodeGenericPortMappingEntry_document hdoc)
    | getListOfPortMappings proto minPort maxPort maxCount =>
      cases hc
      obtain ⟨ms, rfl⟩ := exists_of_map_ok hr
      exact congrArg Operation.Outcome.entries (decodeListOfPortMappings_document hdoc)

end

end

end Upnp
