/-
  Looking for gateways (`igd::discover` and `igd::query_root_device`,
  `src/igd.cpp`).

  A run of `discover` is a list of `Turn`s, one for each call of `get_response`:
  what the call comes to, and the network the description is fetched from.  The
  model returns `none` as long as it waits for the next turn.

  * `controlUrl_spec`: the control URL of an `igd` is the location with another
    path, if an endpoint can be read from the location.
-/
import Upnp.Igd
import Upnp.Query
import Upnp.UrlView

namespace Upnp

/-- What a call of `get_response` comes to, the network as it is then, and the
    addresses for the URLs of a description. -/
structure Turn (Address : Type) where
  outcome : Outcome
  net : Net Address
  al : Alloc

namespace Igd

/-! ## The root device -/

/-- The request `query_root_device` sends. -/
def rootDeviceRequest (url : Url) : HttpRequest where
  method := "GET".toList
  target := url.get .path
  version := 11
  fields := [("Host".toList, url.hostAndPort), ("User-Agent".toList, userAgent)]
  body := []

/-- `query_root_device(url)` -/
def queryRootDevice {Address : Type} (env : Env Address) (net : Net Address) (al : Alloc)
    (url : Url) : Except ErrorCode Device :=
  match consumeEndpoint env.makeAddress url.hostAndPort with
  | none => .error .invalidArgument
  | some (ep, _) =>
    match net ep (rootDeviceRequest url) with
    | .connectFailed ec => .error ec
    | .writeFailed ec => .error ec
    | .readFailed ec => .error ec
    | .response rs =>
      if rs.status ≠ 200 then .error .protocolError
      else
        match deviceParseRoot env.readXml al rs.body with
        | none => .error .ioError
        | some rootDev => .ok rootDev

/-! ## The loops of `discover` -/

/-- The `v` for the type of a root device, `none` for one that is passed over. -/
def versionOf (type : Str) : Option Str :=
  if type = "urn:schemas-upnp-org:device:InternetGatewayDevice:1".toList then some "1".toList
  else if type = "urn:schemas-upnp-org:device:InternetGatewayDevice:2".toList then some "2".toList
  else none

def deviceUrn (v : Str) : Str := "urn:schemas-upnp-org:device:WANDevice:".toList ++ v

def connectionUrn (v : Str) : Str := "urn:schemas-upnp-org:device:WANConnectionDevice:".toList ++ v

def conIp (v : Str) : Str := "urn:schemas-upnp-org:service:WANIPConnection:".toList ++ v

def conPpp (v : Str) : Str := "urn:schemas-upnp-org:service:WANPPPConnection:".toList ++ v

/-- The URL of an `igd`: a copy of the location with another path, passed to the
    constructor by value and moved into the member. -/
def controlUrl (al : Alloc) (location : Url) (path : Str) : Except Fault Url := do
  let url := location.copy (al 0)
  let url ← url.replacePath (al 1) path
  .ok ((url.copy (al 2)).move (al 3))

/-- `igds.push_back(g)`, which may move the elements to other places. -/
def pushBack (al : Alloc) (igds : List Igd) (g : Igd) : List Igd :=
  (igds ++ [g]).mapIdx fun i g => { g with url := g.url.move (al i) }

/-- `already_seen` and `igds`. -/
structure Found where
  alreadySeen : Finset Str
  igds : List Igd

section
variable (al : ℕ → Alloc) (rsp : Response) (v : Str)

/-- The loop over the services of a connection device. -/
def addService (device : Device) (igds : List Igd) (service : Service) :
    Except Fault (List Igd) :=
  if service.type ≠ conIp v ∧ service.type ≠ conPpp v then .ok igds
  else do
    let al := al igds.length
    let url ← controlUrl al rsp.location.1 (service.controlUrl.get .path)
    .ok (pushBack (fun i => al (i + 4)) igds ⟨rsp.uuid, device, service.id, url, service.type⟩)

/-- The loop over the devices embedded in a WAN device. -/
def addConnection (device : Device) (igds : List Igd) (connection : Device) :
    Except Fault (List Igd) :=
  if connection.type ≠ connectionUrn v then .ok igds
  else connection.services.foldlM (addService al rsp v device) igds

/-- The loop over the devices embedded in the root device. -/
def addDevice (found : Found) (device : Device) : Except Fault Found :=
  if device.udn ∈ found.alreadySeen then .ok found
  else
    let found := { found with alreadySeen := insert device.udn found.alreadySeen }
    if device.type ≠ deviceUrn v then .ok found
    else do
      let igds ← device.devices.foldlM (addConnection al rsp v device) found.igds
      .ok { found with igds := igds }

/-- What `discover` does with a root device. -/
def addRoot (found : Found) (rootDev : Device) : Except Fault Found :=
  match versionOf rootDev.type with
  | none => .ok found
  | some v => rootDev.devices.foldlM (addDevice al rsp v) found

end

section
variable {Address : Type} (env : Env Address) (al : ℕ → Alloc)

/-- The loop over the responses. -/
def discoverLoop : List (Turn Address) → Found → Option (Except Fault (Except ErrorCode (List Igd)))
  | [], _ => none
  | turn :: turns, found =>
    match turn.outcome with
    | .error fault => some (.error fault)
    -- responses that could not be parsed are ignored
    | .ok (.error (.parse _)) => discoverLoop turns found
    | .ok (.error (.code ec)) =>
      if ec = .timedOut ∧ found.igds ≠ [] then some (.ok (.ok found.igds))
      else some (.ok (.error ec))
    | .ok (.ok rsp) =>
      match queryRootDevice env turn.net turn.al rsp.location.1 with
      | .error _ => some (.ok (.error .ioError))
      | .ok rootDev =>
        match addRoot al rsp found rootDev with
        | .error fault => some (.error fault)
        | .ok found => discoverLoop turns found

/-- `discover`: `query::start` gives an error, or a query with these turns. -/
def discover (q : Except ErrorCode (List (Turn Address))) :
    Option (Except Fault (Except ErrorCode (List Igd))) :=
  match q with
  | .error ec => some (.ok (.error ec))
  | .ok turns => discoverLoop env al turns ⟨∅, []⟩

end

end Igd

/-! ## The control URL -/

namespace Url

/-- A location with an endpoint in it had its path set. -/
theorem Located.pathAt {u : Url} (h : u.Located) (hc : ':' ∈ u.hostAndPort) :
    ∃ pre post, PathAt u pre post := by
  rcases h with ⟨a, ha⟩ | ⟨al, s, v, hv, hs⟩
  · rw [ha.hostAndPort, hostAndPort_eq] at hc
    cases hc
  · rw [hs.hostAndPort] at hc
    obtain ⟨pre, post, hp⟩ := pathAt_of_colon hv hc
    exact ⟨pre, post, hp.of_same hs⟩

end Url

namespace Igd

/-- **The control URL is the location with another path.** -/
theorem controlUrl_spec {u : Url} (h : u.Located) (hc : ':' ∈ u.hostAndPort) (al : Alloc)
    (path : Str) : ∃ w, controlUrl al u path = .ok w ∧ w.get .path = path ∧
      (∀ q, q ≠ .path → w.get q = u.get q) ∧ w.hostAndPort = u.hostAndPort := by
  have hcopy := Url.copy_same (al 0) u
  obtain ⟨pre, post, hp⟩ := h.pathAt hc
  obtain ⟨v, hv, -, hpath, hother, hhost⟩ :=
    Url.replacePath_spec (hp.of_same hcopy) (al 1) path
  have hmoved := (Url.move_same (al 3) (v.copy (al 2))).trans (Url.copy_same (al 2) v)
  refine ⟨(v.copy (al 2)).move (al 3), ?_, ?_, ?_, ?_⟩
  · rw [controlUrl]
    simp only [hv]
    rfl
  · rw [hmoved.get, hpath]
  · intro q hq
    rw [hmoved.get, hother q hq, hcopy.get]
  · rw [hmoved.hostAndPort, hhost, hcopy.hostAndPort]

end Igd

end Upnp
