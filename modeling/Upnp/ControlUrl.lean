/-
  The control URL of a service, from its description to the request line.

  A description gives a control URL as a reference, mostly a path.  `service_parse`
  reads it with `url_t::parse`, as if it was a whole URL, `discover` takes the path
  of the result, and `soap_request` the path of what `discover` made of that.

  * `divide_path_iff`: a text with a slash in front is all path exactly if no
    delimiter is in it;
  * `service_of_mem`: the control URL of an `igd` is that of a service in one of
    the descriptions;
  * `soap_target_iff`: the target of the requests is the reference exactly if it
    is a path without `:` and `@`.
-/
import Upnp.Requests

namespace Upnp

open Lib UrlText

/-! ## References -/

/-- The characters of a path in RFC 3986. -/
def isPathChar (c : Char) : Bool := c.isAlphanum || c ∈ "-._~%!$&'()*+,;=:@/".toList

/-- A reference by absolute path: the path after its first slash, and the query. -/
structure PathReference where
  path : Str
  query : Option Str
  path_ok : ∀ c ∈ path, isPathChar c
  query_ok : ∀ s, query = some s → ∀ c ∈ s, isPathChar c ∨ c = '?'

namespace PathReference
variable (r : PathReference)

def text : Str := '/' :: (r.path ++ after ['?'] r.query)

/-- Nothing in it is a delimiter to `url_t::parse`. -/
def Plain : Prop := ':' ∉ r.text ∧ '@' ∉ r.text ∧ r.query = none

variable {r}

theorem ne_of_isPathChar {c : Char} (h : isPathChar c = true) : c ≠ '?' ∧ c ≠ '#' := by
  constructor
  · rintro rfl
    exact absurd h (by decide)
  · rintro rfl
    exact absurd h (by decide)

theorem hash_notMem : '#' ∉ r.text := by
  intro h
  simp only [text, List.mem_cons, List.mem_append, Char.reduceEq, false_or] at h
  rcases h with h | h
  · exact (ne_of_isPathChar (r.path_ok _ h)).2 rfl
  · rcases hq : r.query with _ | s
    · simp [hq, after] at h
    · simp only [hq, after, List.singleton_append, List.mem_cons, Char.reduceEq, false_or] at h
      rcases r.query_ok s hq _ h with hc | hc
      · exact (ne_of_isPathChar hc).2 rfl
      · exact absurd hc (by decide)

theorem question_notMem_iff : '?' ∉ r.text ↔ r.query = none := by
  have hp : '?' ∉ r.path := fun h => (ne_of_isPathChar (r.path_ok _ h)).1 rfl
  rcases hq : r.query with _ | s
  · simp [text, hq, after, hp]
  · simp [text, hq, after]

end PathReference

/-! ## Texts that are all path -/

theorem cutOr_fst_eq_none {delim s : Str} : (cutOr delim s).1 = none ↔ cut delim s = none := by
  unfold cutOr
  split <;> simp_all

theorem cutOr_of_none {delim s : Str} (h : cut delim s = none) : cutOr delim s = (none, s) := by
  rw [cutOr, h]

theorem eq_none_of_before {d : Str} {o : Option Str} (hd : d ≠ []) (h : (before d o).length = 0) :
    o = none := by
  rcases o with _ | s
  · rfl
  · simp [before, hd] at h

theorem eq_none_of_after {d : Str} {o : Option Str} (hd : d ≠ []) (h : (after d o).length = 0) :
    o = none := by
  rcases o with _ | s
  · rfl
  · simp [after, hd] at h

/-- A division with nothing but a path cuts at no delimiter. -/
theorem absent_of_path {s : Str} (h : (divide s).path = s) : (divide s).scheme = none ∧
    (divide s).userinfo = none ∧ (divide s).port = none ∧ (divide s).query = none ∧
    (divide s).fragment = none := by
  have hlen := congrArg List.length (render_divide s)
  simp only [UrlText.render, h, List.length_append] at hlen
  exact ⟨eq_none_of_before (d := [':', '/', '/']) (by decide) (by omega),
    eq_none_of_before (d := ['@']) (by decide) (by omega),
    eq_none_of_after (d := [':']) (by decide) (by omega),
    eq_none_of_after (d := ['?']) (by decide) (by omega),
    eq_none_of_after (d := ['#']) (by decide) (by omega)⟩

theorem divideHost_of_slash {t : Str} (hc : ':' ∉ '/' :: t) :
    divideHost ('/' :: t) = ([], none, '/' :: t) := by
  have hs : cut ['/'] ('/' :: t) = some ([], t) :=
    cut_singleton_append (x := []) List.not_mem_nil
  simp only [divideHost, cut_singleton_eq_none.2 hc, hs]

theorem notMem_of_port {s : Str} (h : (divideHost s).2.1 = none) : ':' ∉ s := by
  intro hc
  rcases hcut : cut [':'] s with _ | ⟨host, r⟩
  · exact cut_singleton_eq_none.1 hcut hc
  · rcases hp : cut ['/'] r with _ | ⟨port, r'⟩ <;> simp [divideHost, hcut, hp] at h

theorem notMem_of_query {s : Str} (hq : (dividePath s).2.1 = none)
    (hf : (dividePath s).2.2 = none) : '?' ∉ s ∧ '#' ∉ s := by
  rcases hcut : cut ['?'] s with _ | ⟨path, r⟩
  · refine ⟨cut_singleton_eq_none.1 hcut, ?_⟩
    rcases hcut' : cut ['#'] s with _ | ⟨path, r⟩
    · exact cut_singleton_eq_none.1 hcut'
    · simp [dividePath, hcut, hcut'] at hf
  · rcases hcut' : cut ['#'] r with _ | ⟨query, r'⟩ <;> simp [dividePath, hcut, hcut'] at hq

/-- **A text with a slash in front is all path exactly if no delimiter is in it.** -/
theorem divide_path_iff (t : Str) : (divide ('/' :: t)).path = '/' :: t ↔
    ':' ∉ '/' :: t ∧ '@' ∉ '/' :: t ∧ '?' ∉ '/' :: t ∧ '#' ∉ '/' :: t := by
  constructor
  · intro h
    obtain ⟨hs, hu, hp, hq, hf⟩ := absent_of_path h
    have hs := cutOr_fst_eq_none.1 hs
    simp only [divide, cutOr_of_none hs] at hu hp hq hf
    have hu := cutOr_fst_eq_none.1 hu
    simp only [cutOr_of_none hu] at hp hq hf
    have hc := notMem_of_port hp
    rw [divideHost_of_slash hc] at hq hf
    exact ⟨hc, cut_singleton_eq_none.1 hu, notMem_of_query hq hf⟩
  · rintro ⟨hc, hat, hq, hf⟩
    have hs : cut [':', '/', '/'] ('/' :: t) = none := by
      refine (cut_eq_none (by decide)).2 ?_
      intro h
      exact hc (h.subset List.mem_cons_self)
    simp only [divide, cutOr_of_none hs, cutOr_of_none (cut_singleton_eq_none.2 hat),
      divideHost_of_slash hc, dividePath, cut_singleton_eq_none.2 hq, cut_singleton_eq_none.2 hf]

theorem PathReference.divide_path_iff (r : PathReference) :
    (divide r.text).path = r.text ↔ r.Plain := by
  rw [text, Upnp.divide_path_iff, ← text, Plain, question_notMem_iff]
  constructor
  · rintro ⟨hc, hat, hq, -⟩
    exact ⟨hc, hat, hq⟩
  · rintro ⟨hc, hat, hq⟩
    exact ⟨hc, hat, hq, hash_notMem⟩

/-- **A reference is parsed to a path alone exactly if it is plain.** -/
theorem get_path_iff {al : Alloc} {tree : Ptree} {service : Service} {r : PathReference}
    (hs : serviceParse al tree = some service)
    (hr : tree.getOptional "controlURL".toList = some r.text) :
    service.controlUrl.get .path = r.text ↔ r.Plain := by
  obtain ⟨u, hu, -, hshows⟩ := Url.parse_shows al r.text
  simp only [serviceParse, hr, hu, Option.bind_eq_bind, Option.bind_some,
    Option.bind_eq_some_iff, Option.some.injEq] at hs
  obtain ⟨id, -, type, -, rfl⟩ := hs
  rw [(Url.move_same _ u).get, hshows, ← r.divide_path_iff]
  rfl

namespace Igd

/-! ## The requests of an `igd` -/

section
variable {Address : Type} {env : Env Address}

/-- The service for which `discover` adds an `igd`, and that `igd`. -/
theorem exists_igd_of_service (al : ℕ → Alloc) {rsp : Response} {v : Str} {ep : Endpoint Address}
    {rest : Str} {service : Service} (device : Device) (igds : List Igd)
    (he : consumeEndpoint env.makeAddress rsp.location.1.hostAndPort = some (ep, rest))
    (ht : service.type = conIp v ∨ service.type = conPpp v) :
    ∃ igds' g, addService al rsp v device igds service = .ok (igds' ++ [g]) ∧
      igds'.map gateway = igds.map gateway ∧ g.serviceId = service.id ∧
      g.url.get .path = service.controlUrl.get .path ∧ Reaches env g ep := by
  obtain ⟨all, hadd, hmap⟩ := addService_spec al (consumeEndpoint_colon he) device igds service
  rw [if_pos ht] at hmap
  obtain ⟨igds', last, rfl, hinit, hlast⟩ := List.map_eq_append_iff.1 hmap
  obtain ⟨g, rfl, hg⟩ := List.map_eq_singleton_iff.1 hlast
  refine ⟨igds', g, hadd, hinit, congrArg Gateway.serviceId hg, ?_, ?_⟩
  · exact congrFun (congrArg Gateway.url hg) .path
  · have hhost : g.url.hostAndPort = rsp.location.1.hostAndPort :=
      congrArg Gateway.hostAndPort hg
    exact reaches_of_consumeEndpoint ((congrArg _ hhost).trans he)

theorem device_of_mem_candidates {r : Root} {c : Candidate} (h : c ∈ candidates r) :
    c.device ∈ r.2.devices := by
  unfold candidates at h
  split at h
  · cases h
  · obtain ⟨device, hd, rfl⟩ := List.mem_map.1 h
    exact hd

theorem Candidate.service_of_mem {c : Candidate} {g : Gateway} (h : g ∈ c.gateways) :
    ∃ connection ∈ c.device.devices, ∃ service ∈ connection.services, g = c.gatewayOf service := by
  obtain ⟨connection, hc, h⟩ := List.mem_flatMap.1 h
  obtain ⟨service, hs, rfl⟩ := List.mem_map.1 h
  exact ⟨connection, List.mem_of_mem_filter hc, service, List.mem_of_mem_filter hs, rfl⟩

/-- A service of a device in a device in the root device of this document. -/
def IsServiceElement (document element : Ptree) : Prop :=
  ∃ root, document.getChildOptional "root.device".toList = some root ∧
    ∃ device ∈ childrenOf root "deviceList".toList,
    ∃ connection ∈ childrenOf device.2 "deviceList".toList,
    ∃ service ∈ childrenOf connection.2 "serviceList".toList, element = service.2

theorem isServiceElement_of_mem {al : Alloc} {xmlStr : Str} {rootDev device connection : Device}
    {service : Service} (h : deviceParseRoot env.readXml al xmlStr = some rootDev)
    (hd : device ∈ rootDev.devices) (hc : connection ∈ device.devices)
    (hs : service ∈ connection.services) : ∃ document element,
      env.readXml xmlStr = some document ∧ IsServiceElement document element ∧
      serviceParse al element = some service := by
  simp only [deviceParseRoot, Option.bind_eq_bind, Option.bind_eq_some_iff] at h
  obtain ⟨document, hx, root, hroot, hp⟩ := h
  obtain ⟨v, hv, hpv⟩ := (mem_of_deviceParse hp).1 device hd
  obtain ⟨w, hw, hpw⟩ := (mem_of_deviceParse hpv).1 connection hc
  obtain ⟨e, he, hpe⟩ := (mem_of_deviceParse hpw).2 service hs
  exact ⟨document, e.2, hx, ⟨root, hroot, v, hv, w, hw, e, he, rfl⟩, hpe⟩

/-- **An `igd` was made for a service of a description, and has its control URL.** -/
theorem service_of_mem {al : ℕ → Alloc} {turns : List (Turn Address)} {igds : List Igd} {g : Igd}
    (hd : discover env al (.ok turns) = some (.ok (.ok igds))) (hg : g ∈ igds) :
    ∃ turn ∈ turns, ∃ rsp ep rest rs document element service,
      turn.outcome = .ok (.ok rsp) ∧
      consumeEndpoint env.makeAddress rsp.location.1.hostAndPort = some (ep, rest) ∧
      turn.net ep (rootDeviceRequest rsp.location.1) = .response rs ∧
      env.readXml rs.body = some document ∧ IsServiceElement document element ∧
      serviceParse turn.al element = some service ∧
      g.url.get .path = service.controlUrl.get .path ∧ Reaches env g ep := by
  obtain ⟨roots, hf, r, hr, c, hc, hgc⟩ := candidate_of_mem hd hg
  obtain ⟨turn, ht, ho, hq⟩ := hf.turn_of_mem hr
  obtain ⟨ep, rest, rs, he, hn, hp⟩ := consumeEndpoint_of_queryRootDevice hq
  obtain ⟨connection, hcon, service, hs, hgs⟩ := c.service_of_mem hgc
  obtain ⟨document, element, hx, hel, hpe⟩ :=
    isServiceElement_of_mem hp (device_of_mem_candidates hc) hcon hs
  refine ⟨turn, ht, r.1, ep, rest, rs, document, element, service, ho, he, hn, hx, hel, hpe, ?_, ?_⟩
  · exact congrFun (congrArg Gateway.url hgs) .path
  · have hhost : g.url.hostAndPort = r.1.location.1.hostAndPort := by
      rw [← rsp_of_mem_candidates hc]
      exact Candidate.hostAndPort_of_mem hgc
    exact reaches_of_consumeEndpoint ((congrArg _ hhost).trans he)

/-- **The target of a gateway's requests is the control URL of its description exactly
    if that is a path without `:` and `@`.**  For one service, from its element on,
    and for all that a run finds. -/
theorem soap_target_iff (env : Env Address) :
    (∀ (al : ℕ → Alloc) (al' : Alloc) (rsp : Response) (v : Str) (device : Device)
      (igds : List Igd) (tree : Ptree) (service : Service) (r : PathReference)
      (ep : Endpoint Address) (rest : Str),
      serviceParse al' tree = some service →
      tree.getOptional "controlURL".toList = some r.text →
      service.type = conIp v ∨ service.type = conPpp v →
      consumeEndpoint env.makeAddress rsp.location.1.hostAndPort = some (ep, rest) →
      ∃ igds' g, addService al rsp v device igds service = .ok (igds' ++ [g]) ∧
        igds'.map gateway = igds.map gateway ∧ g.serviceId = service.id ∧ Reaches env g ep ∧
        ((∀ command message, (g.soapMessage command message).target = r.text) ↔ r.Plain)) ∧
    ∀ (al : ℕ → Alloc) (turns : List (Turn Address)) (igds : List Igd),
      discover env al (.ok turns) = some (.ok (.ok igds)) → ∀ g ∈ igds,
      ∃ turn ∈ turns, ∃ rsp ep rest rs document element, turn.outcome = .ok (.ok rsp) ∧
        consumeEndpoint env.makeAddress rsp.location.1.hostAndPort = some (ep, rest) ∧
        turn.net ep (rootDeviceRequest rsp.location.1) = .response rs ∧
        env.readXml rs.body = some document ∧ IsServiceElement document element ∧
        Reaches env g ep ∧
        ∀ r : PathReference, element.getOptional "controlURL".toList = some r.text →
          ((∀ command message, (g.soapMessage command message).target = r.text) ↔ r.Plain) := by
  have htarget : ∀ (g : Igd) (t : Str),
      (∀ command message, (g.soapMessage command message).target = t) ↔ g.url.get .path = t :=
    fun g t => ⟨fun h => h [] [], fun h _ _ => h⟩
  constructor
  · intro al al' rsp v device igds tree service r ep rest hs hr ht he
    obtain ⟨igds', g, hadd, hinit, hid, hpath, hreach⟩ :=
      exists_igd_of_service al device igds he ht
    refine ⟨igds', g, hadd, hinit, hid, hreach, ?_⟩
    rw [htarget, hpath, get_path_iff hs hr]
  · intro al turns igds hd g hg
    obtain ⟨turn, ht, rsp, ep, rest, rs, document, element, service, ho, he, hn, hx, hel, hs, hpath,
      hreach⟩ := service_of_mem hd hg
    refine ⟨turn, ht, rsp, ep, rest, rs, document, element, ho, he, hn, hx, hel, hreach, ?_⟩
    intro r hr
    rw [htarget, hpath, get_path_iff hs hr]

end

/-- A service with this control URL, in the description from `192.168.0.1`. -/
def serviceDoc (r : PathReference) : Doc :=
  .service "urn:upnp-org:serviceId:WANIPConn1".toList
    "urn:schemas-upnp-org:service:WANIPConnection:1".toList r.text

theorem exists_serviceParse (al : Alloc) (r : PathReference) : ∃ service,
    serviceParse al (serviceDoc r).node.2 = some service ∧
    (service.type = conIp "1".toList ∨ service.type = conPpp "1".toList) ∧
    service.controlUrl.get .path = (divide r.text).path := by
  obtain ⟨u, hu, -, hshows⟩ := Url.parse_shows al r.text
  refine ⟨⟨"urn:upnp-org:serviceId:WANIPConn1".toList, conIp "1".toList, u.move (al 2)⟩, ?_,
    .inl rfl, ?_⟩
  · rw [serviceDoc, Doc.serviceParse_service, hu]
    rfl
  · exact ((Url.move_same _ u).get .path).trans (hshows .path)

theorem getOptional_serviceDoc (r : PathReference) :
    (serviceDoc r).node.2.getOptional "controlURL".toList = some r.text := by
  rw [serviceDoc, Doc.service, Doc.getOptional_elem (by decide) (by decide)]
  rfl

/-- `/ctl` -/
def ctl : PathReference := ⟨"ctl".toList, none, List.all_eq_true.1 (by decide), by simp⟩

/-- `/uuid:1/ctl` -/
def uuidCtl : PathReference :=
  ⟨"uuid:1/ctl".toList, none, List.all_eq_true.1 (by decide), by simp⟩

/-- `/ctl?x=1` -/
def ctlQuery : PathReference where
  path := "ctl".toList
  query := some "x=1".toList
  path_ok := List.all_eq_true.1 (by decide)
  query_ok := by
    rintro s ⟨⟩ c hc
    exact .inl (List.all_eq_true.1 (show ("x=1".toList.all isPathChar) = true by decide) c hc)

theorem soap_target_ctl :
    (∃ service g, serviceParse (fun _ => ⟨1, Int.one_pos⟩) (serviceDoc ctl).node.2 =
        some service ∧
      addService (fun _ _ => ⟨1, Int.one_pos⟩) localResponse "1".toList
        ⟨[], [], [], [], []⟩ [] service = .ok [g] ∧
      ∀ command message, (g.soapMessage command message).target = ctl.text) ∧
    ∃ igds, igds ≠ [] ∧ ∀ g ∈ igds, ∃ turn ∈ oneResponse wanFirst,
      ∃ rsp ep rest rs document element, turn.outcome = .ok (.ok rsp) ∧
        consumeEndpoint (oneDocument wanFirst).makeAddress rsp.location.1.hostAndPort =
          some (ep, rest) ∧
        turn.net ep (rootDeviceRequest rsp.location.1) = .response rs ∧
        (oneDocument wanFirst).readXml rs.body = some document ∧
        IsServiceElement document element ∧ Reaches (oneDocument wanFirst) g ep ∧
        ∀ r : PathReference, element.getOptional "controlURL".toList = some r.text →
          ((∀ command message, (g.soapMessage command message).target = r.text) ↔ r.Plain) := by
  obtain ⟨helement, hrun⟩ := soap_target_iff (oneDocument wanFirst)
  obtain ⟨igds, hne, hd⟩ := discover_wanFirst
  refine ⟨?_, igds, hne, hrun _ _ igds hd⟩
  obtain ⟨service, hs, ht, -⟩ := exists_serviceParse (fun _ => ⟨1, Int.one_pos⟩) ctl
  obtain ⟨igds', g, hadd, hinit, -, -, htarget⟩ := helement (fun _ _ => ⟨1, Int.one_pos⟩) _
    localResponse "1".toList ⟨[], [], [], [], []⟩ [] _ service ctl ⟨(), 5000⟩ [] hs
    (getOptional_serviceDoc ctl) ht rfl
  rw [List.map_eq_nil_iff.1 hinit] at hadd
  exact ⟨service, g, hs, hadd, htarget.2 ⟨by decide, by decide, rfl⟩⟩

/-- A reference that is cut in front of or behind its path is asked for by the path only. -/
theorem target_of_cut {r : PathReference} {path : Str} (hpath : (divide r.text).path = path)
    (hne : path ≠ r.text) : ∃ service g,
    serviceParse (fun _ => ⟨1, Int.one_pos⟩) (serviceDoc r).node.2 = some service ∧
    addService (fun _ _ => ⟨1, Int.one_pos⟩) localResponse "1".toList
      ⟨[], [], [], [], []⟩ [] service = .ok [g] ∧
    ∀ command message, (g.soapMessage command message).target = path ∧
      (g.soapMessage command message).target ≠ r.text := by
  have he : consumeEndpoint (Env.oneHost fun _ => none).makeAddress
      localResponse.location.1.hostAndPort = some (⟨(), 5000⟩, []) := rfl
  obtain ⟨service, hs, ht, hget⟩ := exists_serviceParse (fun _ => ⟨1, Int.one_pos⟩) r
  obtain ⟨igds', g, hadd, hinit, -, hurl, -⟩ := exists_igd_of_service
    (fun _ _ => ⟨1, Int.one_pos⟩) ⟨[], [], [], [], []⟩ [] he ht
  rw [List.map_eq_nil_iff.1 hinit] at hadd
  have htarget := hurl.trans (hget.trans hpath)
  exact ⟨service, g, hs, hadd, fun _ _ => ⟨htarget, fun h => hne (htarget.symm.trans h)⟩⟩

/-- A request for `/uuid:1/ctl` goes to `/ctl`, and so does one for `/ctl?x=1`. -/
theorem soap_target_cut :
    (∃ service g, serviceParse (fun _ => ⟨1, Int.one_pos⟩) (serviceDoc uuidCtl).node.2 =
        some service ∧
      addService (fun _ _ => ⟨1, Int.one_pos⟩) localResponse "1".toList
        ⟨[], [], [], [], []⟩ [] service = .ok [g] ∧
      ∀ command message, (g.soapMessage command message).target = "/ctl".toList ∧
        (g.soapMessage command message).target ≠ uuidCtl.text) ∧
    ∃ service g, serviceParse (fun _ => ⟨1, Int.one_pos⟩) (serviceDoc ctlQuery).node.2 =
        some service ∧
      addService (fun _ _ => ⟨1, Int.one_pos⟩) localResponse "1".toList
        ⟨[], [], [], [], []⟩ [] service = .ok [g] ∧
      ∀ command message, (g.soapMessage command message).target = "/ctl".toList ∧
        (g.soapMessage command message).target ≠ ctlQuery.text :=
  ⟨target_of_cut rfl (by decide), target_of_cut rfl (by decide)⟩

end Igd

end Upnp
