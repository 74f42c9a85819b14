/-
  What `igd::discover` is for: the gateways of all responses.

  * `gateways`: the services that are to be offered, one `Gateway` each;
  * `run_of_fetches`: what a run comes to in which every description is fetched;
  * `discover_complete_iff`: it offers all of them exactly if no WAN device stands
    behind another device with its UDN.
-/
import Upnp.Discover
import Upnp.Lib.Firsts
import Upnp.Lib.Fold

namespace Upnp

open Lib

/-! ## Gateways -/

/-- What an `igd` says, wherever the buffers of its URL are. -/
structure Gateway where
  uuid : Str
  upnpDevice : Device
  serviceId : Str
  url : Part → Str
  hostAndPort : Str
  urn : Str

namespace Igd

def gateway (g : Igd) : Gateway :=
  ⟨g.uuid, g.upnpDevice, g.serviceId, g.url.get, g.url.hostAndPort, g.urn⟩

/-- An embedded device of an IGD root device. -/
structure Candidate where
  rsp : Response
  v : Str
  device : Device

namespace Candidate
variable (c : Candidate)

def key : Option Str := some c.device.udn

/-- It is a WAN device of the version of its root. -/
def isWan : Bool := c.device.type = deviceUrn c.v

/-- The gateway for one of its services. -/
def gatewayOf (service : Service) : Gateway where
  uuid := c.rsp.uuid
  upnpDevice := c.device
  serviceId := service.id
  url q := if q = .path then service.controlUrl.get .path else c.rsp.location.1.get q
  hostAndPort := c.rsp.location.1.hostAndPort
  urn := service.type

/-- The services of its WAN connection devices that make a gateway. -/
def gateways : List Gateway :=
  (c.device.devices.filter fun connection => connection.type = connectionUrn c.v).flatMap
    fun connection =>
      (connection.services.filter fun s => s.type = conIp c.v ∨ s.type = conPpp c.v).map
        c.gatewayOf

end Candidate

/-- A response, and the root device its location leads to. -/
abbrev Root := Response × Device

def candidates (r : Root) : List Candidate :=
  match versionOf r.2.type with
  | none => []
  | some v => r.2.devices.map fun device => ⟨r.1, v, device⟩

/-- The gateways of these roots: those of each WAN device, but for one whose UDN an
    earlier WAN device had. -/
def gateways (roots : List Root) : List Gateway :=
  (firsts Candidate.key ((roots.flatMap candidates).filter Candidate.isWan)).flatMap
    Candidate.gateways

/-! ## What one response adds -/

theorem map_gateway_pushBack (al : Alloc) (igds : List Igd) (g : Igd) :
    (pushBack al igds g).map gateway = igds.map gateway ++ [g.gateway] := by
  have hm : ∀ i (g : Igd), gateway { g with url := g.url.move (al i) } = g.gateway := by
    intro i g
    have hs := Url.move_same (al i) g.url
    simp only [gateway, Gateway.mk.injEq, hs.hostAndPort, true_and, and_true]
    exact funext hs.get
  rw [← List.map_singleton, ← List.map_append]
  refine List.ext_getElem (by simp [pushBack]) ?_
  intro i _ _
  simp only [pushBack, List.getElem_map, List.getElem_mapIdx, hm]

section
variable (al : ℕ → Alloc) {rsp : Response} {v : Str}

theorem addService_spec (hc : ':' ∈ rsp.location.1.hostAndPort) (device : Device)
    (igds : List Igd) (service : Service) :
    ∃ igds', addService al rsp v device igds service = .ok igds' ∧
      igds'.map gateway = igds.map gateway ++
        if service.type = conIp v ∨ service.type = conPpp v then
          [(Candidate.mk rsp v device).gatewayOf service] else [] := by
  rw [addService]
  by_cases ht : service.type = conIp v ∨ service.type = conPpp v
  · obtain ⟨w, hw, hpath, hother, hhost⟩ := controlUrl_spec rsp.location.2 hc (al igds.length)
      (service.controlUrl.get .path)
    rw [if_neg fun h => ht.elim h.1 h.2, if_pos ht]
    simp only [hw]
    refine ⟨_, rfl, ?_⟩
    rw [map_gateway_pushBack]
    simp only [gateway, Candidate.gatewayOf, hhost, List.append_cancel_left_eq, List.cons.injEq,
      Gateway.mk.injEq, true_and, and_true]
    funext q
    split
    · rename_i hq; rw [hq, hpath]
    · rename_i hq; exact hother q hq
  · rw [if_pos (not_or.1 ht)]
    exact ⟨igds, rfl, by rw [if_neg ht, List.append_nil]⟩

theorem addConnection_spec (hc : ':' ∈ rsp.location.1.hostAndPort) (device : Device)
    (igds : List Igd) (connection : Device) :
    ∃ igds', addConnection al rsp v device igds connection = .ok igds' ∧
      igds'.map gateway = igds.map gateway ++
        if connection.type = connectionUrn v then
          (connection.services.filter fun s => s.type = conIp v ∨ s.type = conPpp v).map
            (Candidate.mk rsp v device).gatewayOf else [] := by
  rw [addConnection]
  by_cases ht : connection.type = connectionUrn v
  · rw [if_neg (not_not.2 ht), if_pos ht]
    obtain ⟨igds', hg, hm⟩ := foldlM_collect (addService_spec al hc device)
      connection.services igds
    refine ⟨igds', hg, ?_⟩
    rw [hm, ← flatMap_filter, ← List.map_eq_flatMap]
  · rw [if_pos ht]
    exact ⟨igds, rfl, by rw [if_neg ht, List.append_nil]⟩

/-- `found` is what the devices `l` gave. -/
structure Found.Holds (found : Found) (l : List Candidate) : Prop where
  alreadySeen : ∀ udn, udn ∈ found.alreadySeen ↔ udn ∈ l.filterMap Candidate.key
  igds : found.igds.map gateway =
    ((firsts Candidate.key l).filter Candidate.isWan).flatMap Candidate.gateways

theorem Found.Holds.repeats {found : Found} {l : List Candidate} (h : found.Holds l)
    (c : Candidate) : Repeats Candidate.key l c ↔ c.device.udn ∈ found.alreadySeen := by
  rw [h.alreadySeen]
  simp [Repeats, Candidate.key]

/-- **One more embedded device.** -/
theorem addDevice_spec (hc : ':' ∈ rsp.location.1.hostAndPort) {l : List Candidate} {found : Found}
    (h : found.Holds l) (device : Device) : ∃ found', addDevice al rsp v found device = .ok found' ∧
      found'.Holds (l ++ [⟨rsp, v, device⟩]) := by
  have hr := h.repeats ⟨rsp, v, device⟩
  have hinsert : ∀ udn, udn ∈ insert device.udn found.alreadySeen ↔
      udn ∈ (l ++ [Candidate.mk rsp v device]).filterMap Candidate.key := by
    intro udn
    rw [Finset.mem_insert, h.alreadySeen, List.filterMap_append, List.mem_append, or_comm]
    simp [Candidate.key]
  rw [addDevice]
  split
  · rename_i hs
    refine ⟨found, rfl, ?_, ?_⟩
    · intro udn
      rw [← hinsert, Finset.insert_eq_of_mem hs]
    · rw [firsts_snoc, if_pos (hr.2 hs), h.igds]
  · rename_i hs
    have hfirsts : firsts Candidate.key (l ++ [⟨rsp, v, device⟩]) =
        firsts Candidate.key l ++ [⟨rsp, v, device⟩] :=
      firsts_snoc.trans (if_neg fun hn => hs (hr.1 hn))
    split
    · rename_i ht
      refine ⟨_, rfl, hinsert, ?_⟩
      rw [hfirsts, List.filter_append,
        List.filter_cons_of_neg (by simpa [Candidate.isWan] using ht), List.filter_nil,
        List.append_nil, h.igds]
    · rename_i ht
      obtain ⟨igds, hg, hm⟩ := foldlM_collect (addConnection_spec al hc device)
        device.devices found.igds
      refine ⟨⟨insert device.udn found.alreadySeen, igds⟩, ?_, hinsert, ?_⟩
      · dsimp only
        rw [hg]
        rfl
      · rw [hfirsts, List.filter_append,
          List.filter_cons_of_pos (by simpa [Candidate.isWan] using ht), List.filter_nil,
          List.flatMap_append, List.flatMap_singleton, ← h.igds, Candidate.gateways, flatMap_filter]
        exact hm

theorem addRoot_spec (hc : ':' ∈ rsp.location.1.hostAndPort) {l : List Candidate} {found : Found}
    (h : found.Holds l) (rootDev : Device) : ∃ found', addRoot al rsp found rootDev = .ok found' ∧
      found'.Holds (l ++ candidates (rsp, rootDev)) := by
  rw [addRoot, candidates]
  rcases versionOf rootDev.type with _ | v
  · exact ⟨found, rfl, by simpa using h⟩
  · refine foldlM_spec (P := fun ds found => Found.Holds found (l ++ ds.map (Candidate.mk rsp v)))
      ?_ rootDev.devices (by simpa using h)
    intro ds device found hf
    rw [List.map_append, ← List.append_assoc]
    exact addDevice_spec al hc hf device

end

/-! ## Runs -/

section
variable {Address : Type} {env : Env Address} {al : ℕ → Alloc} {turns : List (Turn Address)}
  {roots : List Root}

/-- In these turns every description is fetched, until `get_response` returns
    `timed_out`; `roots` are the responses with their root devices. -/
inductive Fetches (env : Env Address) : List (Turn Address) → List Root → Prop
  | timedOut {turn : Turn Address} {turns : List (Turn Address)}
      (ho : turn.outcome = .ok (.error (.code .timedOut))) : Fetches env (turn :: turns) []
  | ignored {turn : Turn Address} {turns : List (Turn Address)} {roots : List Root} {e : ParseError}
      (ho : turn.outcome = .ok (.error (.parse e))) (h : Fetches env turns roots) :
      Fetches env (turn :: turns) roots
  | fetched {turn : Turn Address} {turns : List (Turn Address)} {roots : List Root} {rsp : Response}
      {rootDev : Device} (ho : turn.outcome = .ok (.ok rsp))
      (hq : queryRootDevice env turn.net turn.al rsp.location.1 = .ok rootDev)
      (h : Fetches env turns roots) : Fetches env (turn :: turns) ((rsp, rootDev) :: roots)

/-- A description is fetched from an endpoint in the location. -/
theorem consumeEndpoint_of_queryRootDevice {net : Net Address} {al : Alloc} {url : Url}
    {rootDev : Device} (h : queryRootDevice env net al url = .ok rootDev) :
    ∃ ep rest rs, consumeEndpoint env.makeAddress url.hostAndPort = some (ep, rest) ∧
      net ep (rootDeviceRequest url) = .response rs ∧
      deviceParseRoot env.readXml al rs.body = some rootDev := by
  unfold queryRootDevice at h
  split at h
  · cases h
  · rename_i ep rest he
    split at h
    · cases h
    · cases h
    · cases h
    · rename_i rs hn
      split at h
      · cases h
      · split at h
        · cases h
        · rename_i hd
          cases h
          exact ⟨ep, rest, rs, he, hn, hd⟩

/-- **The igds of a run are what its roots give.** -/
theorem run_of_fetches (al : ℕ → Alloc) (h : Fetches env turns roots) {l : List Candidate}
    {found : Found} (hl : found.Holds l) : ∃ found' : Found,
      found'.Holds (l ++ roots.flatMap candidates) ∧ discoverLoop env al turns found =
        some (.ok (if found'.igds ≠ [] then .ok found'.igds else .error .timedOut)) := by
  induction h generalizing l found with
  | timedOut ho =>
    refine ⟨found, by simpa using hl, ?_⟩
    simp only [discoverLoop, ho, true_and]
    split <;> rfl
  | ignored ho _ ih =>
    simp only [discoverLoop, ho]
    exact ih hl
  | @fetched turn turns roots rsp rootDev ho hq _ ih =>
    obtain ⟨ep, rest, -, he, -⟩ := consumeEndpoint_of_queryRootDevice hq
    obtain ⟨found₁, h₁, hl₁⟩ := addRoot_spec al (consumeEndpoint_colon he) hl rootDev
    simp only [discoverLoop, ho, hq, h₁, List.flatMap_cons, ← List.append_assoc]
    exact ih hl₁

/-- A run that succeeds has fetched every description. -/
theorem fetches_of_ok {found : Found} {igds : List Igd}
    (h : discoverLoop env al turns found = some (.ok (.ok igds))) :
    ∃ roots, Fetches env turns roots := by
  induction turns generalizing found with
  | nil => cases h
  | cons turn turns ih =>
    rw [discoverLoop] at h
    rcases ho : turn.outcome with _ | (e | ec) | rsp
    · rw [ho] at h; cases h
    · rw [ho] at h
      exact (ih h).imp fun _ => .ignored ho
    · simp only [ho] at h
      split at h
      · rename_i hc
        exact ⟨[], .timedOut (by rw [ho, hc.1])⟩
      · cases h
    · rcases hq : queryRootDevice env turn.net turn.al rsp.location.1 with ec | rootDev
      · simp only [ho, hq] at h; cases h
      · simp only [ho, hq] at h
        split at h
        · cases h
        · obtain ⟨roots, hr⟩ := ih h
          exact ⟨(rsp, rootDev) :: roots, .fetched ho hq hr⟩

theorem Found.holds_nil : Found.Holds ⟨∅, []⟩ [] := ⟨by simp, rfl⟩

theorem discover_of_fetches (al : ℕ → Alloc) (h : Fetches env turns roots) : ∃ found : Found,
    found.Holds (roots.flatMap candidates) ∧ discover env al (.ok turns) =
      some (.ok (if found.igds ≠ [] then .ok found.igds else .error .timedOut)) :=
  run_of_fetches al h Found.holds_nil

/-- No WAN device that has a gateway and is the first one with its UDN comes after
    another embedded device with that UDN. -/
def Unshadowed (roots : List Root) : Prop :=
  FirstOfAll Candidate.key Candidate.isWan Candidate.gateways (roots.flatMap candidates)

/-- **A run finds the gateways, one `igd` each, exactly if no WAN device is shadowed.** -/
theorem discover_complete_iff (h : Fetches env turns roots)
    (hne : gateways roots ≠ []) :
    (∃ igds, discover env al (.ok turns) = some (.ok (.ok igds)) ∧
      (igds.map gateway).Perm (gateways roots)) ↔ Unshadowed roots := by
  obtain ⟨found, hl, hrun⟩ := discover_of_fetches al h
  rw [Unshadowed, ← flatMap_filter_firsts_perm_iff, ← hl.igds]
  constructor
  · rintro ⟨igds, hd, hp⟩
    rw [hrun] at hd
    split at hd <;> cases hd
    exact hp
  · intro hp
    refine ⟨found.igds, ?_, hp⟩
    rw [hrun, if_pos]
    intro h0
    rw [h0] at hp
    exact hne hp.nil_eq.symm

/-- `192.168.0.1:5000` answers a search. -/
def localResponse : Response where
  serviceType := "urn:schemas-upnp-org:device:InternetGatewayDevice:1".toList
  usn := "uuid:0::urn:schemas-upnp-org:device:InternetGatewayDevice:1".toList
  uuid := "0".toList
  location :=
    have h : Url.parse (fun _ => ⟨1, Int.one_pos⟩) "http://192.168.0.1:5000/root.xml".toList =
      some _ := rfl
    .ofParse h ⟨1, Int.one_pos⟩

/-- `192.168.0.1:5001` answers it as well. -/
def secondResponse : Response where
  serviceType := "urn:schemas-upnp-org:device:InternetGatewayDevice:1".toList
  usn := "uuid:9::urn:schemas-upnp-org:device:InternetGatewayDevice:1".toList
  uuid := "9".toList
  location :=
    have h : Url.parse (fun _ => ⟨1, Int.one_pos⟩) "http://192.168.0.1:5001/root.xml".toList =
      some _ := rfl
    .ofParse h ⟨1, Int.one_pos⟩

/-- A WAN device with a service. -/
def wanDoc (udn : Str) : Doc :=
  .device "urn:schemas-upnp-org:device:WANDevice:1".toList udn [] []
    [.device "urn:schemas-upnp-org:device:WANConnectionDevice:1".toList "uuid:2".toList []
      [.service "urn:upnp-org:serviceId:WANIPConn1".toList
        "urn:schemas-upnp-org:service:WANIPConnection:1".toList "/ctl".toList] []]

def lanDoc (udn : Str) : Doc :=
  .device "urn:schemas-upnp-org:device:LANDevice:1".toList udn [] [] []

/-- An IGD with these embedded devices. -/
def igdDoc (devices : List Doc) : Doc :=
  .device "urn:schemas-upnp-org:device:InternetGatewayDevice:1".toList "uuid:0".toList [] [] devices

/-- Every request is answered with the description `igdDoc devices`. -/
def describing (devices : List Doc) : Net Unit :=
  fun _ _ => .response ⟨200, (Doc.root (igdDoc devices)).text⟩

/-- One response, with that description, and the end of the query. -/
def oneResponse (devices : List Doc) : List (Turn Unit) :=
  let al : Alloc := fun _ => ⟨1, Int.one_pos⟩
  [⟨.ok (.ok localResponse), describing devices, al⟩,
    ⟨.ok (.error (.code .timedOut)), describing devices, al⟩]

/-- `read_xml` reads that description. -/
def oneDocument (devices : List Doc) : Env Unit := .oneHost fun s =>
  if s = (Doc.root (igdDoc devices)).text then some (Doc.root (igdDoc devices)).tree else none

def parsedDevices (docs : List Doc) : List Device :=
  docs.filterMap fun d => deviceParse (fun _ => ⟨1, Int.one_pos⟩) d.node.2

/-- The root device that is parsed from `igdDoc docs`. -/
def localRoot (docs : List Doc) : Root :=
  (localResponse, ⟨"urn:schemas-upnp-org:device:InternetGatewayDevice:1".toList, "uuid:0".toList,
    [], parsedDevices docs, []⟩)

/-- A gateway that sends a written description. -/
theorem queryRootDevice_root {Address : Type} {env : Env Address} {al : Alloc} {doc : Doc}
    {device : Device} {rsp : Response} {r : Endpoint Address × Str}
    (hx : env.readXml (Doc.root doc).text = some (Doc.root doc).tree)
    (hn : doc.node.1 = "device".toList) (hd : deviceParse al doc.node.2 = some device)
    (he : consumeEndpoint env.makeAddress rsp.location.1.hostAndPort = some r) :
    queryRootDevice env (fun _ _ => .response ⟨200, (Doc.root doc).text⟩) al rsp.location.1 =
      .ok device := by
  have hp := (Doc.deviceParseRoot_tree al hx hn).trans hd
  simp only [queryRootDevice, he, hp]
  rfl

theorem queryRootDevice_describing {env : Env Unit} {devices : List Doc} {rsp : Response}
    {r : Endpoint Unit × Str}
    (hx : env.readXml (Doc.root (igdDoc devices)).text = some (Doc.root (igdDoc devices)).tree)
    (he : consumeEndpoint env.makeAddress rsp.location.1.hostAndPort = some r) :
    queryRootDevice env (describing devices) (fun _ => ⟨1, Int.one_pos⟩) rsp.location.1 =
      .ok (localRoot devices).2 :=
  queryRootDevice_root hx rfl (Doc.deviceParse_device _ _ _) he

theorem fetches_oneHost {readXml : Str → Option Ptree} {devices : List Doc}
    (hx : readXml (Doc.root (igdDoc devices)).text = some (Doc.root (igdDoc devices)).tree) :
    Fetches (.oneHost readXml) (oneResponse devices) [localRoot devices] := by
  have he : consumeEndpoint (Env.oneHost readXml).makeAddress
      localResponse.location.1.hostAndPort = some (⟨(), 5000⟩, []) := rfl
  exact .fetched rfl (queryRootDevice_describing hx he) (.timedOut rfl)

theorem fetches_oneResponse (devices : List Doc) :
    Fetches (oneDocument devices) (oneResponse devices) [localRoot devices] :=
  fetches_oneHost (if_pos rfl)

/-- A WAN device in front of another device with its UDN. -/
def wanFirst : List Doc := [wanDoc "uuid:1".toList, lanDoc "uuid:1".toList]

/-- The same two devices, the other way round. -/
def lanFirst : List Doc := [lanDoc "uuid:1".toList, wanDoc "uuid:1".toList]

theorem candidates_localRoot (docs : List Doc) : [localRoot docs].flatMap candidates =
    (parsedDevices docs).map (Candidate.mk localResponse "1".toList) := by
  rw [List.flatMap_singleton]
  rfl

theorem candidates_localRoot_cons {doc : Doc} {device : Device}
    (h : deviceParse (fun _ => ⟨1, Int.one_pos⟩) doc.node.2 = some device) (docs : List Doc) :
    [localRoot (doc :: docs)].flatMap candidates =
      ⟨localResponse, "1".toList, device⟩ :: [localRoot docs].flatMap candidates := by
  rw [candidates_localRoot, candidates_localRoot, parsedDevices, List.filterMap_cons, h]
  rfl

theorem deviceParse_wanDoc (udn : Str) : ∃ device,
    deviceParse (fun _ => ⟨1, Int.one_pos⟩) (wanDoc udn).node.2 = some device ∧
      device.udn = udn ∧ device.type = deviceUrn "1".toList ∧
      ∀ rsp, Candidate.gateways ⟨rsp, "1".toList, device⟩ ≠ [] := by
  refine ⟨_, Doc.deviceParse_device _ _ _, rfl, rfl, fun rsp => ?_⟩
  simp only [Candidate.gateways, List.filterMap_cons, List.filterMap_nil, Doc.deviceParse_device,
    Doc.serviceParse_service, Url.parse, Option.map_some]
  exact List.cons_ne_nil _ _

theorem exists_wan (udn : Str) : ∃ c : Candidate,
    (∀ docs, [localRoot (wanDoc udn :: docs)].flatMap candidates =
      c :: [localRoot docs].flatMap candidates) ∧
    c.key = some udn ∧ c.isWan = true ∧ c.gateways ≠ [] := by
  obtain ⟨device, hdevice, hudn, htype, hne⟩ := deviceParse_wanDoc udn
  exact ⟨_, candidates_localRoot_cons hdevice, congrArg some hudn, decide_eq_true htype, hne _⟩

/-- The embedded device of an IGD with one WAN device, whatever the response is. -/
theorem candidates_wan (udn : Str) : ∃ device : Device, device.udn = udn ∧
    device.type = deviceUrn "1".toList ∧
    ∀ rsp, Candidate.gateways ⟨rsp, "1".toList, device⟩ ≠ [] ∧
      candidates (rsp, (localRoot [wanDoc udn]).2) = [⟨rsp, "1".toList, device⟩] := by
  obtain ⟨device, hdevice, hudn, htype, hne⟩ := deviceParse_wanDoc udn
  have hdevices : parsedDevices [wanDoc udn] = [device] := List.filterMap_cons_some hdevice
  refine ⟨device, hudn, htype, fun rsp => ⟨hne rsp, ?_⟩⟩
  rw [localRoot, hdevices]
  rfl

theorem exists_lan (udn : Str) : ∃ c : Candidate,
    (∀ docs, [localRoot (lanDoc udn :: docs)].flatMap candidates =
      c :: [localRoot docs].flatMap candidates) ∧
    c.key = some udn ∧ c.isWan = false :=
  ⟨_, candidates_localRoot_cons (Doc.deviceParse_device _ _ _), rfl, rfl⟩

theorem discover_complete_wanFirst : ∃ igds,
    discover (oneDocument wanFirst) (fun _ _ => ⟨1, Int.one_pos⟩) (.ok (oneResponse wanFirst)) =
      some (.ok (.ok igds)) ∧
    (igds.map gateway).Perm (gateways [localRoot wanFirst]) := by
  obtain ⟨wan, hw, -, hwan, hgw⟩ := exists_wan "uuid:1".toList
  obtain ⟨lan, hl, -, hlan⟩ := exists_lan "uuid:1".toList
  have hc : [localRoot wanFirst].flatMap candidates = [wan, lan] := by
    rw [wanFirst, hw, hl]
    rfl
  refine (discover_complete_iff (fetches_oneResponse wanFirst) ?_).2 ?_
  · rw [gateways, hc, List.filter_cons_of_pos hwan, List.filter_cons_of_neg (by simp [hlan]),
      List.filter_nil, firsts_singleton, List.flatMap_singleton]
    exact hgw
  · rw [Unshadowed, hc]
    rintro (_ | ⟨b, l₁⟩) a l₂ hs ha - -
    · simp [Repeats]
    · have hmem : a ∈ [lan] := by
        rw [(List.cons.inj hs).2]
        simp
      rw [List.mem_singleton.1 hmem, hlan] at ha
      cases ha

/-- Two embedded devices have one UDN, and the WAN device is the second: `discover`
    passes it over and returns `timed_out`. -/
theorem discover_shadowed_lanFirst :
    discover (oneDocument lanFirst) (fun _ _ => ⟨1, Int.one_pos⟩) (.ok (oneResponse lanFirst)) =
      some (.ok (.error .timedOut)) ∧
    Fetches (oneDocument lanFirst) (oneResponse lanFirst) [localRoot lanFirst] ∧
    gateways [localRoot lanFirst] ≠ [] ∧
    ¬ ∃ igds, discover (oneDocument lanFirst) (fun _ _ => ⟨1, Int.one_pos⟩)
        (.ok (oneResponse lanFirst)) = some (.ok (.ok igds)) ∧
      (igds.map gateway).Perm (gateways [localRoot lanFirst]) := by
  obtain ⟨wan, hw, hwk, hwan, hgw⟩ := exists_wan "uuid:1".toList
  obtain ⟨lan, hl, hlk, hlan⟩ := exists_lan "uuid:1".toList
  have hc : [localRoot lanFirst].flatMap candidates = [lan] ++ [wan] := by
    rw [lanFirst, hl, hw]
    rfl
  have hf := fetches_oneResponse lanFirst
  obtain ⟨found, hfound, hrun⟩ := discover_of_fetches (fun _ _ => ⟨1, Int.one_pos⟩) hf
  have hrep : Repeats Candidate.key [lan] wan := by simp [Repeats, hwk, hlk]
  have hnil : found.igds.map gateway = [] := by
    rw [hfound.igds, hc, firsts_snoc, if_pos hrep, firsts_singleton,
      List.filter_cons_of_neg (by simp [hlan]), List.filter_nil, List.flatMap_nil]
  rw [if_neg (not_not.2 (List.map_eq_nil_iff.1 hnil))] at hrun
  refine ⟨hrun, hf, ?_, ?_⟩
  · rw [gateways, hc, List.filter_append, List.filter_cons_of_neg (by simp [hlan]),
      List.filter_cons_of_pos hwan, List.filter_nil, List.nil_append, firsts_singleton,
      List.flatMap_singleton]
    exact hgw
  · rintro ⟨igds, hd, -⟩
    rw [hrun] at hd
    cases hd

end

end Igd

end Upnp
