/-
  The operations of an Internet Gateway Device (`igd.h`, `igd.cpp`).

  What is not in the repository is in an `Env` (Asio's `make_address`, the text
  of an address and the route to an endpoint, and Boost's `read_xml`) and in a
  `Net`, which connects, writes a request and reads the response.

  Each operation builds the message of its action, sends it in the envelope of
  `soapBody`, and decodes the body of a response with status 200.  A `Fault` is
  what the decoding must not run into.
-/
import Upnp.Device

namespace Upnp

/-- What the operations use of Asio and Boost. -/
structure Env (Address : Type) where
  /-- `net::ip::make_address`, `none` where it sets an error code -/
  makeAddress : Str → Option Address
  /-- `os << address` -/
  showAddress : Address → Str
  /-- `local_address_to` -/
  localAddressTo : Endpoint Address → Option Address
  /-- `read_xml`, `none` where it throws a `std::exception` -/
  readXml : Str → Option Ptree

/-- One host, `192.168.0.1`. -/
def Env.oneHost (readXml : Str → Option Ptree) : Env Unit where
  makeAddress s := if s = "192.168.0.1".toList then some () else none
  showAddress _ := "192.168.0.1".toList
  localAddressTo _ := some ()
  readXml := readXml

/-! ## HTTP -/

structure HttpRequest where
  method : Str
  target : Str
  version : ℕ
  fields : List (Str × Str)
  body : Str
  deriving DecidableEq, Repr

structure HttpResponse where
  status : ℕ
  body : Str
  deriving DecidableEq, Repr

/-- What becomes of a request. -/
inductive Exchange where
  | connectFailed (ec : ErrorCode)
  | writeFailed (ec : ErrorCode)
  | readFailed (ec : ErrorCode)
  | response (rs : HttpResponse)
  deriving DecidableEq, Repr

/-- A TCP stream for one request. -/
abbrev Net (Address : Type) := Endpoint Address → HttpRequest → Exchange

/-- `CPP_UPNP_HTTP_USER_AGENT` -/
def userAgent : Str := "CPPUPnP".toList

/-! ## Gateways -/

/-- `igd::protocol` -/
inductive Protocol where
  | tcp | udp
  deriving DecidableEq, Repr

/-- `os << proto` -/
def Protocol.print (p : Protocol) : Str := if p = .tcp then "TCP".toList else "UDP".toList

/-- `igd`, without its executor and its running operations. -/
structure Igd where
  uuid : Str
  upnpDevice : Device
  serviceId : Str
  url : Url
  urn : Str

/-- `igd::map_entry` -/
structure MapEntry (Address : Type) where
  description : Str
  extPort : ℕ
  intPort : ℕ
  leaseDuration : ℕ
  proto : Protocol
  intClient : Address
  enabled : Bool
  deriving DecidableEq, Repr

/-- `error::soap_request` -/
inductive SoapRequestError where
  | igdHostParseFailed (url : Url)
  | tcpConnect
  | httpRequest
  | httpResponse
  | httpStatus (status : ℕ)

/-- `error::add_port_mapping` -/
inductive AddPortMappingError where
  | igdHostParseFailed (url : Url)
  | noEndpointToIgd
  | soapRequest (e : SoapRequestError)

/-- `error::get_external_address` -/
inductive GetExternalAddressError where
  | soapRequest (e : SoapRequestError)
  | invalidXmlBody
  | invalidResponse
  | badAddress

/-- `error::get_generic_port_mapping_entry` and `error::get_list_of_port_mappings` -/
inductive GetMappingsError where
  | soapRequest (e : SoapRequestError)
  | invalidXmlBody
  | invalidResponse

/-- The body of a request with this message. -/
def soapBody (message : Str) : Str :=
  "<?xml version=\"1.0\"?>".toList ++
  ("<s:Envelope xmlns:s=\"http://schemas.xmlsoap.org/soap/envelope/\" ".toList ++
  ("s:encodingStyle=\"http://schemas.xmlsoap.org/soap/encoding/\">".toList ++
  ("<s:Body>".toList ++ (message ++ ("</s:Body>".toList ++ "</s:Envelope>".toList)))))

namespace Igd

/-- The request `soap_request(command, message)` sends. -/
def soapMessage (g : Igd) (command message : Str) : HttpRequest :=
  let body := soapBody message
  { method := "POST".toList
    target := g.url.get .path
    version := 11
    fields :=
      [("Host".toList, g.url.hostAndPort),
        ("User-Agent".toList, userAgent),
        ("Content-Type".toList, "text/xml; charset=\"utf-8\"".toList),
        ("Connection".toList, "Close".toList),
        ("Cache-Control".toList, "no-cache".toList),
        ("Pragma".toList, "no-cache".toList),
        ("SOAPAction".toList, ['"'] ++ g.urn ++ ['#'] ++ command ++ ['"']),
        -- `prepare_payload()`
        ("Content-Length".toList, decimal (byteLength body))]
    body }

section
variable {Address : Type} (env : Env Address) (net : Net Address) (g : Igd)

/-- `soap_request(command, message)` -/
def soapRequest (command message : Str) : Except SoapRequestError HttpResponse :=
  match consumeEndpoint env.makeAddress g.url.hostAndPort with
  | none => .error (.igdHostParseFailed g.url)
  | some (ep, _) =>
    match net ep (g.soapMessage command message) with
    | .connectFailed _ => .error .tcpConnect
    | .writeFailed _ => .error .httpRequest
    | .readFailed _ => .error .httpResponse
    | .response rs => if rs.status = 200 then .ok rs else .error (.httpStatus rs.status)

/-! ## Adding and deleting mappings -/

/-- The `body` of `add_port_mapping`. -/
def addPortMappingBody (urn : Str) (proto : Protocol) (externalPort internalPort : ℕ)
    (localIp description : Str) (duration : ℤ) : Str :=
  "<u:AddPortMapping xmlns:u=\"".toList ++ (urn ++ ("\">".toList ++
  ("<NewRemoteHost></NewRemoteHost>".toList ++
  ("<NewEnabled>1</NewEnabled>".toList ++
  ("<NewExternalPort>".toList ++ (decimal externalPort ++ ("</NewExternalPort>".toList ++
  ("<NewProtocol>".toList ++ (proto.print ++ ("</NewProtocol>".toList ++
  ("<NewInternalPort>".toList ++ (decimal internalPort ++ ("</NewInternalPort>".toList ++
  ("<NewInternalClient>".toList ++ (localIp ++ ("</NewInternalClient>".toList ++
  ("<NewPortMappingDescription>".toList ++ (description ++ ("</NewPortMappingDescription>".toList ++
  ("<NewLeaseDuration>".toList ++ (decimalInt duration ++ ("</NewLeaseDuration>".toList ++
  "</u:AddPortMapping>".toList))))))))))))))))))))))

/-- `add_port_mapping` -/
def addPortMapping (proto : Protocol) (externalPort internalPort : ℕ) (description : Str)
    (duration : ℤ) : Except AddPortMappingError Unit :=
  match consumeEndpoint env.makeAddress g.url.hostAndPort with
  | none => .error (.igdHostParseFailed g.url)
  | some (remoteEp, _) =>
    match env.localAddressTo remoteEp with
    | none => .error .noEndpointToIgd
    | some localIp =>
      let body := addPortMappingBody g.urn proto externalPort internalPort
        (env.showAddress localIp) description duration
      match g.soapRequest env net "AddPortMapping".toList body with
      | .error e => .error (.soapRequest e)
      | .ok _ => .ok ()

/-- The `body` of `delete_port_mapping`. -/
def deletePortMappingBody (urn : Str) (proto : Protocol) (extPort : ℕ) : Str :=
  "<u:DeletePortMapping xmlns:u=\"".toList ++ (urn ++ ("\"/>".toList ++
  ("<NewProtocol>".toList ++ (proto.print ++ ("</NewProtocol>".toList ++
  ("<NewExternalPort>".toList ++ (decimal extPort ++ ("</NewExternalPort>".toList ++
  ("<NewRemoteHost></NewRemoteHost>".toList ++
  "</u:DeletePortMapping>".toList)))))))))

/-- `delete_port_mapping` -/
def deletePortMapping (proto : Protocol) (extPort : ℕ) : Except SoapRequestError Unit :=
  match g.soapRequest env net "DeletePortMapping".toList
      (deletePortMappingBody g.urn proto extPort) with
  | .error e => .error e
  | .ok _ => .ok ()

/-! ## The external address -/

/-- The `body` of `get_external_address`. -/
def getExternalAddressBody (urn : Str) : Str :=
  "<u:GetExternalIPAddress xmlns:u=\"".toList ++ (urn ++ "\"/>".toList)

/-- `get_external_address`, from the body of the response on. -/
def decodeExternalAddress (b : Str) : Except Fault (Except GetExternalAddressError Address) :=
  match env.readXml b with
  | none => .ok (.error .invalidXmlBody)
  | some xmlRs =>
    let path := "*:Envelope.*:Body.u:GetExternalIPAddressResponse.NewExternalIPAddress".toList
    let optIpS := xmlRs.get path
    if optIpS.isNone then .ok (.error .invalidResponse)
    else do
      let ipS ← deref optIpS
      match env.makeAddress ipS with
      | none => .ok (.error .badAddress)
      | some addr => .ok (.ok addr)

/-- `get_external_address` -/
def getExternalAddress : Except Fault (Except GetExternalAddressError Address) :=
  match g.soapRequest env net "GetExternalIPAddress".toList (getExternalAddressBody g.urn) with
  | .error e => .ok (.error (.soapRequest e))
  | .ok rs => decodeExternalAddress env rs.body

/-! ## The mappings -/

/-- The `body` of `get_generic_port_mapping_entry`. -/
def getGenericPortMappingEntryBody (urn : Str) (index : ℕ) : Str :=
  "<u:GetGenericPortMappingEntry xmlns:u=\"".toList ++ (urn ++ ("\">".toList ++
  ("<NewPortMappingIndex>".toList ++ (decimal index ++ ("</NewPortMappingIndex>".toList ++
  "</u:GetGenericPortMappingEntry>".toList)))))

/-- The protocol of a generic entry, in letters of either case. -/
def genericProtocol (pro : Str) : Option Protocol :=
  if iequals pro "UDP".toList then some .udp
  else if iequals pro "TCP".toList then some .tcp
  else none

/-- `get_generic_port_mapping_entry`, from the body of the response on.  The
    pointer `get_child` returns is dereferenced as it is. -/
def decodeGenericPortMappingEntry (b : Str) :
    Except Fault (Except GetMappingsError (MapEntry Address)) :=
  match env.readXml b with
  | none => .ok (.error .invalidXmlBody)
  | some xmlRs => do
    let path := "*:Envelope.*:Body.u:GetGenericPortMappingEntryResponse".toList
    let o ← deref (xmlRs.getChild path)
    let odes := o.getOptional "NewPortMappingDescription".toList
    let oext := o.getNum 16 "NewExternalPort".toList
    let oint := o.getNum 16 "NewInternalPort".toList
    let odur := o.getNum 32 "NewLeaseDuration".toList
    let opro := o.getOptional "NewProtocol".toList
    let ocli := o.getAddress env.makeAddress "NewInternalClient".toList
    let oena := o.getNum 16 "NewEnabled".toList
    if oext.isNone || oint.isNone || ocli.isNone || oena.isNone || odur.isNone || odes.isNone ||
        opro.isNone then
      .ok (.error .invalidResponse)
    else
      let pro ← deref opro
      match genericProtocol pro with
      | none => .ok (.error .invalidResponse)
      | some proto =>
        let des ← deref odes
        let ext ← deref oext
        let int ← deref oint
        let dur ← deref odur
        let cli ← deref ocli
        let ena ← deref oena
        .ok (.ok ⟨des, ext, int, dur, proto, cli, ena ≠ 0⟩)

/-- `get_generic_port_mapping_entry` -/
def getGenericPortMappingEntry (index : ℕ) :
    Except Fault (Except GetMappingsError (MapEntry Address)) :=
  match g.soapRequest env net "GetGenericPortMappingEntry".toList
      (getGenericPortMappingEntryBody g.urn index) with
  | .error e => .ok (.error (.soapRequest e))
  | .ok rs => decodeGenericPortMappingEntry env rs.body

/-- The `body` of `get_list_of_port_mappings`. -/
def getListOfPortMappingsBody (urn : Str) (proto : Protocol) (minPort maxPort maxCount : ℕ) : Str :=
  "<u:GetListOfPortMappings xmlns:u=\"".toList ++ (urn ++ ("\">".toList ++
  ("<NewStartPort>".toList ++ (decimal minPort ++ ("</NewStartPort>".toList ++
  ("<NewEndPort>".toList ++ (decimal maxPort ++ ("</NewEndPort>".toList ++
  ("<NewProtocol>".toList ++ (proto.print ++ ("</NewProtocol>".toList ++
  ("<NewNumberOfPorts>".toList ++ (decimal maxCount ++ ("</NewNumberOfPorts>".toList ++
  "</u:GetListOfPortMappings>".toList))))))))))))))

/-- The protocol of a listed entry. -/
def listProtocol (pro : Str) : Option Protocol :=
  if pro = "UDP".toList then some .udp
  else if pro = "TCP".toList then some .tcp
  else none

/-- The loop over the entries of a port listing, for one child of the list. -/
def listEntry (entries : List (MapEntry Address)) (e : Str × Ptree) :
    Except Fault (List (MapEntry Address)) :=
  if e.1 ≠ "p:PortMappingEntry".toList then .ok entries
  else
    let child := e.2
    let oext := child.getNum 16 "p:NewExternalPort".toList
    let oint := child.getNum 16 "p:NewInternalPort".toList
    let ocli := child.getAddress env.makeAddress "p:NewInternalClient".toList
    let oena := child.getNum 16 "p:NewEnabled".toList
    let olea := child.getNum 32 "p:NewLeaseTime".toList
    let odes := child.getOptional "p:NewDescription".toList
    let opro := child.getOptional "p:NewProtocol".toList
    if oext.isNone || oint.isNone || ocli.isNone || oena.isNone || olea.isNone || odes.isNone ||
        opro.isNone then
      .ok entries
    else do
      let pro ← deref opro
      match listProtocol pro with
      | none => .ok entries
      | some proto =>
        let des ← deref odes
        let ext ← deref oext
        let int ← deref oint
        let lea ← deref olea
        let cli ← deref ocli
        let ena ← deref oena
        .ok (entries ++ [⟨des, ext, int, lea, proto, cli, ena ≠ 0⟩])

/-- `get_list_of_port_mappings`, from the body of the response on. -/
def decodeListOfPortMappings (b : Str) :
    Except Fault (Except GetMappingsError (List (MapEntry Address))) :=
  match env.readXml b with
  | none => .ok (.error .invalidXmlBody)
  | some xmlRs =>
    let path := "s:Envelope.s:Body.u:GetListOfPortMappingsResponse.NewPortListing".toList
    let o1 := xmlRs.getOptional path
    if o1.isNone then .ok (.error .invalidResponse)
    else do
      let s ← deref o1
      let o2 := env.readXml s
      if o2.isNone then .ok (.error .invalidResponse)
      else
        let t ← deref o2
        let o3 := t.getChildOptional "p:PortMappingList".toList
        if o3.isNone then .ok (.error .invalidResponse)
        else
          let list ← deref o3
          let entries ← list.children.foldlM (listEntry env) []
          .ok (.ok entries)

/-- `get_list_of_port_mappings` -/
def getListOfPortMappings (proto : Protocol) (minPort maxPort maxCount : ℕ) :
    Except Fault (Except GetMappingsError (List (MapEntry Address))) :=
  match g.soapRequest env net "GetListOfPortMappings".toList
      (getListOfPortMappingsBody g.urn proto minPort maxPort maxCount) with
  | .error e => .ok (.error (.soapRequest e))
  | .ok rs => decodeListOfPortMappings env rs.body

end

end Igd

end Upnp
