/-
  The outcome of `igd::discover` does not depend on the order of the responses.

  An `Embedded` is what the gateways of an embedded device are made of, wherever
  the buffers of its URLs are: the device with all of them moved to one address,
  and the location as a text.

  * `gateways_embedded`: the gateways of a device are those of its content;
  * `discover_outcome`: what a run comes to, from the responses and from what is
    fetched for each location;
  * `discover_reorder`: so runs with the same responses come to the same, in any order.
-/
import Upnp.Responders

namespace Upnp

open Lib UrlText

/-! ## Devices by content -/

section
variable (a : Addr)

def Service.moveTo (s : Service) : Service := { s with controlUrl := s.controlUrl.move a }

mutual

/-- A device with the buffers of all its URLs at `a`. -/
def Device.moveTo : Device → Device
  | ⟨type, udn, name, devices, services⟩ =>
    ⟨type, udn, name, Device.moveAll devices, services.map (Service.moveTo a)⟩

def Device.moveAll : List Device → List Device
  | [] => []
  | device :: devices => device.moveTo :: Device.moveAll devices

end

theorem Device.moveAll_eq (devices : List Device) :
    Device.moveAll a devices = devices.map (Device.moveTo a) := by
  induction devices with
  | nil => rfl
  | cons device devices ih => rw [Device.moveAll, List.map_cons, ih]

theorem Device.moveTo_eq (d : Device) : d.moveTo a = ⟨d.type, d.udn, d.friendlyName,
    d.devices.map (Device.moveTo a), d.services.map (Service.moveTo a)⟩ := by
  cases d
  rw [Device.moveTo, Device.moveAll_eq]

theorem Device.type_moveTo (d : Device) : (d.moveTo a).type = d.type := by rw [d.moveTo_eq]

/-- A gateway with the buffers of its device at `a`. -/
def Gateway.moveTo (g : Gateway) : Gateway := { g with upnpDevice := g.upnpDevice.moveTo a }

end

/-- **A location shows what its text is divided into.** -/
theorem Url.Located.shows {u : Url} (h : u.Located) :
    u.Shows (divide u.buf) ∧ u.hostAndPort = (divide u.buf).hostAndPort := by
  rcases h with ⟨a, hs⟩ | ⟨al, s, v, hv, hs⟩
  · have hbuf : u.buf = [] := hs.buf
    rw [hbuf]
    constructor
    · intro p
      rw [Url.get_eq, hbuf, List.drop_nil, List.take_nil]
      cases p <;> rfl
    · rw [Url.hostAndPort_eq, Url.get_eq, hbuf]
      simp [divide, cutOr, divideHost, dividePath, cut, firstSuffix, UrlText.hostAndPort, part]
  · obtain ⟨w, hw, hbuf, hshows⟩ := Url.parse_shows al s
    rw [hv, Option.some.injEq] at hw
    subst hw
    rw [hs.buf, hbuf, hs.hostAndPort, Url.parse_hostAndPort hv]
    exact ⟨fun p => (hs.get p).trans (hshows p), rfl⟩

namespace Igd

/-- What the gateways of an embedded device are made of. -/
structure Embedded where
  device : Device
  location : Str
  uuid : Str
  v : Str

namespace Embedded
variable (e : Embedded)

def key : Option Str := some e.device.udn

def isWan : Bool := e.device.type = deviceUrn e.v

def gatewayOf (service : Service) : Gateway where
  uuid := e.uuid
  upnpDevice := e.device
  serviceId := service.id
  url q := if q = .path then service.controlUrl.get .path else (divide e.location).part q
  hostAndPort := (divide e.location).hostAndPort
  urn := service.type

def gateways : List Gateway :=
  (e.device.devices.filter fun connection => connection.type = connectionUrn e.v).flatMap
    fun connection =>
      (connection.services.filter fun s => s.type = conIp e.v ∨ s.type = conPpp e.v).map
        e.gatewayOf

end Embedded

/-- The gateways of these devices, where the first one with its UDN is a WAN device. -/
def offered (l : List Embedded) : List Gateway :=
  ((firsts Embedded.key l).filter Embedded.isWan).flatMap Embedded.gateways

def Candidate.embedded (a : Addr) (c : Candidate) : Embedded :=
  ⟨c.device.moveTo a, c.rsp.location.1.buf, c.rsp.uuid, c.v⟩

section
variable {a : Addr} (c : Candidate)

theorem key_embedded : (c.embedded a).key = c.key := by
  rw [Embedded.key, Candidate.embedded, Device.moveTo_eq, Candidate.key]

theorem isWan_embedded : (c.embedded a).isWan = c.isWan := by
  rw [Embedded.isWan, Candidate.embedded, Device.type_moveTo, Candidate.isWan]

theorem gatewayOf_embedded (s : Service) :
    (c.embedded a).gatewayOf (s.moveTo a) = (c.gatewayOf s).moveTo a := by
  obtain ⟨hshows, hhost⟩ := c.rsp.location.2.shows
  simp only [Embedded.gatewayOf, Candidate.embedded, Gateway.moveTo, Candidate.gatewayOf,
    Service.moveTo, (Url.move_same a s.controlUrl).get, hhost, Gateway.mk.injEq, true_and, and_true]
  funext q
  rw [hshows q]

/-- **The gateways of an embedded device are those of its content.** -/
theorem gateways_embedded : (c.embedded a).gateways = c.gateways.map (Gateway.moveTo a) := by
  have hcon : (fun d : Device => decide (d.type = connectionUrn c.v)) ∘ Device.moveTo a =
      fun d => decide (d.type = connectionUrn c.v) := by
    funext d
    rw [Function.comp_apply, Device.type_moveTo]
  have hservices : ∀ d : Device, (d.moveTo a).services = d.services.map (Service.moveTo a) := by
    intro d
    rw [d.moveTo_eq]
  have hof : (c.embedded a).gatewayOf ∘ Service.moveTo a = Gateway.moveTo a ∘ c.gatewayOf :=
    funext (gatewayOf_embedded c)
  have hdevices : (c.embedded a).device.devices = c.device.devices.map (Device.moveTo a) := by
    rw [Candidate.embedded, Device.moveTo_eq]
  rw [Embedded.gateways, Candidate.gateways, hdevices, List.filter_map, List.flatMap_map,
    List.map_flatMap]
  show ((c.device.devices.filter ((fun d : Device => decide (d.type = connectionUrn c.v)) ∘
    Device.moveTo a)).flatMap _) = _
  rw [hcon]
  refine List.flatMap_congr ?_
  intro d _
  rw [hservices, List.filter_map, List.map_map, hof, ← List.map_map]
  rfl

/-- **So are those of a list of them.** -/
theorem offered_embedded (l : List Candidate) : offered (l.map (Candidate.embedded a)) =
    (((firsts Candidate.key l).filter Candidate.isWan).flatMap Candidate.gateways).map
      (Gateway.moveTo a) := by
  have hfirsts : firsts Embedded.key (l.map (Candidate.embedded a)) =
      (firsts Candidate.key l).map (Candidate.embedded a) := by
    have h := @firsts_filterMap _ _ _ _ Candidate.key l (fun c => some (c.embedded a))
      (fun e => e.device.udn) fun c => (key_embedded c).symm
    rw [List.filterMap_eq_map'] at h
    exact h.symm
  have hwan : Embedded.isWan ∘ Candidate.embedded a = Candidate.isWan := funext isWan_embedded
  rw [offered, hfirsts, List.filter_map, hwan, List.flatMap_map, List.map_flatMap]
  exact List.flatMap_congr fun c _ => gateways_embedded c

end

/-! ## Runs -/

def responseOf : Outcome → Option Response
  | .ok (.ok rsp) => some rsp
  | _ => none

/-- The responses among these outcomes. -/
def responses (outcomes : List Outcome) : List Response := outcomes.filterMap responseOf

/-- The embedded devices that a response leads to, if `fetch` gives the root device
    for a location. -/
def embeddedOf (fetch : Str → Option Device) (rsp : Response) : List Embedded :=
  match fetch rsp.location.1.buf with
  | none => []
  | some rootDev =>
    match versionOf rootDev.type with
    | none => []
    | some v => rootDev.devices.map fun device => ⟨device, rsp.location.1.buf, rsp.uuid, v⟩

/-- What `discover` is to come to: the responses, what is fetched for each location,
    and the error that ends the query. -/
inductive OutcomeIs (a : Addr) (fetch : Str → Option Device) (rsps : List Response)
    (ec : ErrorCode) : Except ErrorCode (List Igd) → Prop
  | failed (h : ∃ rsp ∈ rsps, fetch rsp.location.1.buf = none) :
    OutcomeIs a fetch rsps ec (.error .ioError)
  | ended (h : ∀ rsp ∈ rsps, fetch rsp.location.1.buf ≠ none)
    (he : ec ≠ .timedOut ∨ offered (rsps.flatMap (embeddedOf fetch)) = []) :
    OutcomeIs a fetch rsps ec (.error ec)
  | found {igds : List Igd} (h : ∀ rsp ∈ rsps, fetch rsp.location.1.buf ≠ none)
    (he : ec = .timedOut) (hne : igds ≠ [])
    (hmap : (igds.map fun g => g.gateway.moveTo a).Perm
      (offered (rsps.flatMap (embeddedOf fetch)))) :
    OutcomeIs a fetch rsps ec (.ok igds)

section
variable {Address : Type} {env : Env Address} {al al' : ℕ → Alloc} {ts ts' : List (Turn Address)}
  {last last' : Turn Address} {a : Addr} {fetch : Str → Option Device} {ec : ErrorCode}

/-- In these turns, what is fetched is a function of the location. -/
def FetchedBy (env : Env Address) (a : Addr) (fetch : Str → Option Device)
    (ts : List (Turn Address)) : Prop :=
  ∀ turn ∈ ts, ∀ rsp, turn.outcome = .ok (.ok rsp) →
    (queryRootDevice env turn.net turn.al rsp.location.1).toOption.map (Device.moveTo a) =
      fetch rsp.location.1.buf

theorem embedded_candidates {rsp : Response} {rootDev : Device}
    (h : fetch rsp.location.1.buf = some (rootDev.moveTo a)) :
    (candidates (rsp, rootDev)).map (Candidate.embedded a) = embeddedOf fetch rsp := by
  simp only [embeddedOf, h, candidates, Device.type_moveTo]
  rcases versionOf rootDev.type with _ | v
  · rfl
  · simp only [Device.moveTo_eq a rootDev, List.map_map]
    rfl

/-- **The embedded devices of a run, from its responses.** -/
theorem embedded_rootsOf (hf : FetchedBy env a fetch ts) :
    ((ts.filterMap (rootOf env)).flatMap candidates).map (Candidate.embedded a) =
      (responses (ts.map Turn.outcome)).flatMap (embeddedOf fetch) := by
  induction ts with
  | nil => rfl
  | cons turn ts ih =>
    obtain ⟨hturn, hts⟩ := List.forall_mem_cons.1 hf
    have ih := ih hts
    simp only [responses, List.map_cons] at ih ⊢
    rcases ho : turn.outcome with _ | _ | rsp
    · rw [List.filterMap_cons_none (by rw [rootOf, ho]), ih, List.filterMap_cons_none rfl]
    · rw [List.filterMap_cons_none (by rw [rootOf, ho]), ih, List.filterMap_cons_none rfl]
    · have hrsp : responseOf (.ok (.ok rsp)) = some rsp := rfl
      rw [List.filterMap_cons_some hrsp, List.flatMap_cons, ← ih]
      have h := hturn rsp ho
      rcases hq : queryRootDevice env turn.net turn.al rsp.location.1 with e | rootDev
      · rw [hq] at h
        rw [List.filterMap_cons_none (by simp only [rootOf, ho, hq]), embeddedOf, ← h]
        rfl
      · rw [hq] at h
        have hroot : rootOf env turn = some (rsp, rootDev) := by simp only [rootOf, ho, hq]
        rw [List.filterMap_cons_some hroot, List.flatMap_cons, List.map_append,
          embedded_candidates h.symm]

theorem exists_fails_iff (hf : FetchedBy env a fetch ts) : (∃ turn ∈ ts, turn.Fails env) ↔
    ∃ rsp ∈ responses (ts.map Turn.outcome), fetch rsp.location.1.buf = none := by
  have hmem : ∀ rsp, rsp ∈ responses (ts.map Turn.outcome) ↔
      ∃ turn ∈ ts, turn.outcome = .ok (.ok rsp) := by
    intro rsp
    simp only [responses, List.mem_filterMap, List.mem_map, exists_exists_and_eq_and]
    refine exists_congr fun turn => and_congr_right fun _ => ?_
    rcases turn.outcome with _ | _ | rsp' <;> simp [responseOf]
  constructor
  · rintro ⟨turn, ht, rsp, ec, ho, hq⟩
    refine ⟨rsp, (hmem rsp).2 ⟨turn, ht, ho⟩, ?_⟩
    rw [← hf turn ht rsp ho, hq]
    rfl
  · rintro ⟨rsp, hr, hn⟩
    obtain ⟨turn, ht, ho⟩ := (hmem rsp).1 hr
    have h := hf turn ht rsp ho
    rw [hn] at h
    rcases hq : queryRootDevice env turn.net turn.al rsp.location.1 with ec | rootDev
    · exact ⟨turn, ht, rsp, ec, ho, hq⟩
    · rw [hq] at h
      cases h

/-- **What a run comes to, from its responses.** -/
theorem discover_outcome (al : ℕ → Alloc) (hts : ∀ turn ∈ ts, turn.Arrives)
    (hf : FetchedBy env a fetch ts) (hlast : last.outcome = .ok (.error (.code ec))) :
    ∃ r, discover env al (.ok (ts ++ [last])) = some (.ok r) ∧
      OutcomeIs a fetch (responses (ts.map Turn.outcome)) ec r := by
  rw [discover]
  rcases discoverLoop_append al hts Found.holds_nil with ⟨hfail, hrest⟩ | ⟨hok, found, hl, hrest⟩
  · exact ⟨_, hrest _, .failed ((exists_fails_iff hf).1 hfail)⟩
  · have hall : ∀ rsp ∈ responses (ts.map Turn.outcome), fetch rsp.location.1.buf ≠ none := by
      intro rsp hr hn
      obtain ⟨turn, ht, hfail⟩ := (exists_fails_iff hf).2 ⟨rsp, hr, hn⟩
      exact hok turn ht hfail
    have higds : found.igds.map (fun g => g.gateway.moveTo a) =
        offered ((responses (ts.map Turn.outcome)).flatMap (embeddedOf fetch)) := by
      rw [← embedded_rootsOf hf, offered_embedded]
      rw [List.nil_append] at hl
      rw [← hl.igds, List.map_map]
      rfl
    rw [hrest, discoverLoop, hlast]
    by_cases he : ec = .timedOut ∧ found.igds ≠ []
    · simp only [if_pos he]
      exact ⟨_, rfl, .found hall he.1 he.2 (.of_eq higds)⟩
    · simp only [if_neg he]
      refine ⟨_, rfl, .ended hall ?_⟩
      rw [← higds, List.map_eq_nil_iff]
      by_cases ht : ec = .timedOut
      · exact .inr (not_not.1 fun hne => he ⟨ht, hne⟩)
      · exact .inl ht

/-- No two of these devices share a UDN, unless they are one. -/
def OnePerUdn (l : List Embedded) : Prop :=
  ∀ e ∈ l, ∀ e' ∈ l, e.device.udn = e'.device.udn → e = e'

theorem offered_perm {l l' : List Embedded} (hp : l.Perm l') (h : OnePerUdn l) :
    (offered l).Perm (offered l') := by
  have hf : (firsts Embedded.key l).Perm (firsts Embedded.key l') := by
    refine firsts_perm hp (fun _ _ => rfl) ?_
    intro e he e' he' hk
    exact h e he e' he' (Option.some.inj hk)
  exact (hf.filter _).flatMap_right _

/-- The same error, or the same igds in some order. -/
def SameOutcome (a : Addr) : Except ErrorCode (List Igd) → Except ErrorCode (List Igd) → Prop
  | .error ec, .error ec' => ec = ec'
  | .ok igds, .ok igds' => (igds.map fun g => g.gateway.moveTo a).Perm
      (igds'.map fun g => g.gateway.moveTo a)
  | _, _ => False

theorem OutcomeIs.perm {rsps rsps' : List Response} {r : Except ErrorCode (List Igd)}
    (h : OutcomeIs a fetch rsps' ec r) (hp : rsps.Perm rsps')
    (hudn : OnePerUdn (rsps.flatMap (embeddedOf fetch))) : OutcomeIs a fetch rsps ec r := by
  have ho := offered_perm (hp.flatMap_right (embeddedOf fetch)) hudn
  cases h with
  | failed h =>
    obtain ⟨rsp, hr, hn⟩ := h
    exact .failed ⟨rsp, hp.mem_iff.2 hr, hn⟩
  | ended h he =>
    refine .ended (fun rsp hr => h rsp (hp.mem_iff.1 hr)) (he.imp_right ?_)
    intro hnil
    rw [hnil] at ho
    exact ho.eq_nil
  | found h he hne hmap =>
    exact .found (fun rsp hr => h rsp (hp.mem_iff.1 hr)) he hne (hmap.trans ho.symm)

theorem OutcomeIs.same {rsps : List Response} {r r' : Except ErrorCode (List Igd)}
    (h : OutcomeIs a fetch rsps ec r) (h' : OutcomeIs a fetch rsps ec r') : SameOutcome a r r' := by
  have hload : (∃ rsp ∈ rsps, fetch rsp.location.1.buf = none) →
      ¬ ∀ rsp ∈ rsps, fetch rsp.location.1.buf ≠ none := by
    rintro ⟨rsp, hr, hn⟩ hall
    exact hall rsp hr hn
  have hend : ∀ {igds : List Igd}, igds ≠ [] →
      (igds.map fun g => g.gateway.moveTo a).Perm (offered (rsps.flatMap (embeddedOf fetch))) →
      ¬ (ec = .timedOut ∧ (ec ≠ .timedOut ∨ offered (rsps.flatMap (embeddedOf fetch)) = [])) := by
    rintro igds hne hmap ⟨he, hn | hnil⟩
    · exact hn he
    · rw [hnil] at hmap
      exact hne (List.map_eq_nil_iff.1 hmap.eq_nil)
  cases h with
  | failed hf =>
    cases h' with
    | failed _ => rfl
    | ended hall _ => exact absurd hall (hload hf)
    | found hall _ _ _ => exact absurd hall (hload hf)
  | ended hall he =>
    cases h' with
    | failed hf => exact absurd hall (hload hf)
    | ended _ _ => rfl
    | found _ ht hne hmap => exact absurd ⟨ht, he⟩ (hend hne hmap)
  | found hall ht hne hmap =>
    cases h' with
    | failed hf => exact absurd hall (hload hf)
    | ended _ he => exact absurd ⟨ht, he⟩ (hend hne hmap)
    | found _ _ _ hmap' => exact hmap.trans hmap'.symm

/-- **Runs with the same responses, in whatever order, have the same outcome.**  It
    is `io_error` if a description is not loaded, else the error that ends the query
    unless that is `timed_out` and an `igd` was found, else these igds. -/
theorem discover_reorder (al al' : ℕ → Alloc)
    (hperm : (ts.map Turn.outcome).Perm (ts'.map Turn.outcome))
    (hts : ∀ turn ∈ ts, turn.Arrives) (hlast : last.outcome = .ok (.error (.code ec)))
    (hlast' : last'.outcome = .ok (.error (.code ec)))
    (hf : FetchedBy env a fetch ts) (hf' : FetchedBy env a fetch ts')
    (hudn : OnePerUdn ((responses (ts.map Turn.outcome)).flatMap (embeddedOf fetch))) :
    ∃ r r', discover env al (.ok (ts ++ [last])) = some (.ok r) ∧
      discover env al' (.ok (ts' ++ [last'])) = some (.ok r') ∧ SameOutcome a r r' ∧
      OutcomeIs a fetch (responses (ts.map Turn.outcome)) ec r := by
  have hts' : ∀ turn ∈ ts', turn.Arrives := by
    intro turn ht
    obtain ⟨turn', ht', he⟩ := List.mem_map.1 (hperm.mem_iff.2 (List.mem_map_of_mem ht))
    have h := hts turn' ht'
    rwa [Turn.Arrives, he] at h
  obtain ⟨r, hr, ho⟩ := discover_outcome al hts hf hlast
  obtain ⟨r', hr', ho'⟩ := discover_outcome al' hts' hf' hlast'
  exact ⟨r, r', hr, hr', ho.same (ho'.perm (hperm.filterMap _) hudn), ho⟩

end

/-! ## Two gateways -/

/-- `read_xml` reads the descriptions of two gateways. -/
def twoDocuments : Env Unit := .oneHost fun s =>
  if s = (Doc.root (igdDoc [wanDoc "uuid:1".toList])).text then
    some (Doc.root (igdDoc [wanDoc "uuid:1".toList])).tree
  else if s = (Doc.root (igdDoc [wanDoc "uuid:3".toList])).text then
    some (Doc.root (igdDoc [wanDoc "uuid:3".toList])).tree
  else none

def firstTurn : Turn Unit :=
  ⟨.ok (.ok localResponse), describing [wanDoc "uuid:1".toList], fun _ => ⟨1, Int.one_pos⟩⟩

def secondTurn : Turn Unit :=
  ⟨.ok (.ok secondResponse), describing [wanDoc "uuid:3".toList], fun _ => ⟨1, Int.one_pos⟩⟩

/-- The end of the query. -/
def lastTurn : Turn Unit :=
  ⟨.ok (.error (.code .timedOut)), fun _ _ => .connectFailed .timedOut,
    fun _ => ⟨1, Int.one_pos⟩⟩

/-- What the two locations lead to. -/
def fetchTwo (location : Str) : Option Device :=
  if location = localResponse.location.1.buf then
    some ((localRoot [wanDoc "uuid:1".toList]).2.moveTo ⟨1, Int.one_pos⟩)
  else some ((localRoot [wanDoc "uuid:3".toList]).2.moveTo ⟨1, Int.one_pos⟩)

theorem fetchTwo_first : fetchTwo localResponse.location.1.buf =
    some ((localRoot [wanDoc "uuid:1".toList]).2.moveTo ⟨1, Int.one_pos⟩) := if_pos rfl

theorem fetchTwo_second : fetchTwo secondResponse.location.1.buf =
    some ((localRoot [wanDoc "uuid:3".toList]).2.moveTo ⟨1, Int.one_pos⟩) := if_neg (by decide)

theorem fetchedBy_twoTurns :
    FetchedBy twoDocuments ⟨1, Int.one_pos⟩ fetchTwo [firstTurn, secondTurn] := by
  have hne : ((Doc.root (igdDoc [wanDoc "uuid:3".toList])).text ==
      (Doc.root (igdDoc [wanDoc "uuid:1".toList])).text) = false := by decide +kernel
  have hx : twoDocuments.readXml (Doc.root (igdDoc [wanDoc "uuid:1".toList])).text =
      some (Doc.root (igdDoc [wanDoc "uuid:1".toList])).tree := by
    simp only [twoDocuments, Env.oneHost, if_true]
  have hx' : twoDocuments.readXml (Doc.root (igdDoc [wanDoc "uuid:3".toList])).text =
      some (Doc.root (igdDoc [wanDoc "uuid:3".toList])).tree := by
    simp only [twoDocuments, Env.oneHost, if_neg (ne_of_beq_false hne), if_true]
  have he : consumeEndpoint twoDocuments.makeAddress localResponse.location.1.hostAndPort =
      some (⟨(), 5000⟩, []) := rfl
  have he' : consumeEndpoint twoDocuments.makeAddress secondResponse.location.1.hostAndPort =
      some (⟨(), 5001⟩, []) := rfl
  intro turn ht rsp ho
  rcases List.mem_pair.1 ht with rfl | rfl
  · cases ho
    rw [fetchTwo_first]
    exact congrArg (fun r => (Except.toOption r).map (Device.moveTo ⟨1, Int.one_pos⟩))
      (queryRootDevice_describing hx he)
  · cases ho
    rw [fetchTwo_second]
    exact congrArg (fun r => (Except.toOption r).map (Device.moveTo ⟨1, Int.one_pos⟩))
      (queryRootDevice_describing hx' he')

/-- Each of the two responses leads to a WAN device of its own, with a gateway. -/
theorem embedded_twoTurns : ∃ e e' : Embedded,
    [localResponse, secondResponse].flatMap (embeddedOf fetchTwo) = [e, e'] ∧
    (e.device.udn = "uuid:1".toList ∧ e.isWan = true ∧ e.gateways ≠ []) ∧
    e'.device.udn = "uuid:3".toList ∧ e'.isWan = true ∧ e'.gateways ≠ [] := by
  have hone : ∀ (udn : Str) (rsp : Response), fetchTwo rsp.location.1.buf =
      some ((localRoot [wanDoc udn]).2.moveTo ⟨1, Int.one_pos⟩) → ∃ e : Embedded,
        embeddedOf fetchTwo rsp = [e] ∧ e.device.udn = udn ∧ e.isWan = true ∧ e.gateways ≠ [] := by
    intro udn rsp hfetch
    obtain ⟨device, hudn, htype, hdevice⟩ := candidates_wan udn
    obtain ⟨hne, hc⟩ := hdevice rsp
    refine ⟨Candidate.embedded ⟨1, Int.one_pos⟩ ⟨rsp, "1".toList, device⟩, ?_, ?_, ?_, ?_⟩
    · rw [← embedded_candidates hfetch, hc]
      rfl
    · exact Option.some.inj ((key_embedded _).trans (congrArg some hudn))
    · rw [isWan_embedded]
      exact decide_eq_true htype
    · rw [gateways_embedded, ne_eq, List.map_eq_nil_iff]
      exact hne
  obtain ⟨e, he, hwan⟩ := hone _ _ fetchTwo_first
  obtain ⟨e', he', hwan'⟩ := hone _ _ fetchTwo_second
  exact ⟨e, e', by rw [List.flatMap_cons, List.flatMap_singleton, he, he']; rfl, hwan, hwan'⟩

/-- Two gateways answer, in one order and in the other. -/
theorem discover_reorder_two : ∃ igds igds',
    discover twoDocuments (fun _ _ => ⟨1, Int.one_pos⟩) (.ok [firstTurn, secondTurn, lastTurn]) =
      some (.ok (.ok igds)) ∧
    discover twoDocuments (fun _ _ => ⟨2, by decide⟩) (.ok [secondTurn, firstTurn, lastTurn]) =
      some (.ok (.ok igds')) ∧
    2 ≤ igds.length ∧ SameOutcome ⟨1, Int.one_pos⟩ (.ok igds) (.ok igds') := by
  obtain ⟨e, e', hembedded, ⟨hudn, hwan, hne⟩, hudn', hwan', hne'⟩ := embedded_twoTurns
  have hother : "uuid:1".toList ≠ "uuid:3".toList := by decide
  have hts : ∀ turn ∈ [firstTurn, secondTurn], turn.Arrives := by
    intro turn ht
    rcases List.mem_pair.1 ht with rfl | rfl
    · exact .inl ⟨_, rfl⟩
    · exact .inl ⟨_, rfl⟩
  have hone : OnePerUdn ([localResponse, secondResponse].flatMap (embeddedOf fetchTwo)) := by
    rw [hembedded]
    intro d hd d' hd' heq
    rcases List.mem_pair.1 hd with rfl | rfl <;> rcases List.mem_pair.1 hd' with rfl | rfl
    · rfl
    · exact absurd (hudn.symm.trans (heq.trans hudn')) hother
    · exact absurd (hudn.symm.trans (heq.symm.trans hudn')) hother
    · rfl
  have hoffered : 2 ≤ (offered [e, e']).length := by
    have hkey : ¬ Repeats Embedded.key [e] e' := by
      simp [Repeats, Embedded.key, hudn, hudn']
    have hfirsts : firsts Embedded.key ([e] ++ [e']) = [e, e'] := by
      rw [firsts_snoc, if_neg hkey, firsts_singleton]
      rfl
    rw [offered, show [e, e'] = [e] ++ [e'] from rfl, hfirsts, List.filter_cons_of_pos hwan,
      List.filter_cons_of_pos hwan', List.filter_nil, List.flatMap_cons, List.flatMap_singleton,
      List.length_append]
    have hpos := List.length_pos_iff.2 hne
    have hpos' := List.length_pos_iff.2 hne'
    omega
  have hperm : [firstTurn, secondTurn].Perm [secondTurn, firstTurn] := List.Perm.swap _ _ _
  obtain ⟨r, r', hr, hr', hs, hout⟩ := discover_reorder (fun _ _ => ⟨1, Int.one_pos⟩)
    (fun _ _ => ⟨2, by decide⟩) (hperm.map _) hts (show lastTurn.outcome = _ from rfl)
    (show lastTurn.outcome = _ from rfl) fetchedBy_twoTurns
    (fun t ht => fetchedBy_twoTurns t (hperm.mem_iff.2 ht)) hone
  have hout : OutcomeIs ⟨1, Int.one_pos⟩ fetchTwo [localResponse, secondResponse] .timedOut r :=
    hout
  cases hout with
  | failed h =>
    obtain ⟨rsp, hrsp, hn⟩ := h
    rcases List.mem_pair.1 hrsp with rfl | rfl
    · cases fetchTwo_first.symm.trans hn
    · cases fetchTwo_second.symm.trans hn
  | ended _ he =>
    rw [hembedded] at he
    rcases he with he | he
    · exact absurd rfl he
    · rw [he] at hoffered
      cases hoffered
  | @found igds _ _ _ hmap =>
    rcases r' with ec | igds'
    · cases hs
    · refine ⟨igds, igds', hr, hr', ?_, hs⟩
      rw [hembedded] at hmap
      rwa [← hmap.length_eq, List.length_map] at hoffered

end Igd

end Upnp
