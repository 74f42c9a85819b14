/-
  Fields that are read as a number as a whole: the numbers of a SOAP response
  (`xml::get_num`), the port of a URL (`url_t::numeric_port`) and the endpoints
  that `soap_request` and `query_root_device` connect to.

  Each reader takes the number in front of the text and leaves what follows it
  alone, so "80abc" is read as 80.

  * `readNumber_iff`: when a number in front of a text is the whole of it;
  * `soapObtains_iff`, `rootObtains_iff`: the endpoint both requests are sent to;
  * `wholeField_iff`: each reader reads a number from the whole field only, unless
    the text is one that is misread.
-/
import Upnp.Number
import Upnp.Requests

namespace Upnp

open Igd

/-! ## Numbers -/

/-- The number that the whole of `x` is, if it is within the range of `T`. -/
def wholeNumber (w : Width) (x : Str) : Option ℕ :=
  if x ≠ [] ∧ x.all isDigit = true ∧ runValue x < 2 ^ w.bits then some (runValue x) else none

/-- Some digits in front of `x` are read as a number: a run of digits within
    range, or one the range check does not see. -/
def Readable (w : Width) (x : Str) : Prop :=
  digitRun x ≠ [] ∧ (runValue x < 2 ^ w.bits ∨ Unseen w (runValue x))

/-- The number in front of `x` is within range but something follows it, or it
    is out of range and the range check does not see it. -/
def Misread (w : Width) (x : Str) : Prop :=
  digitRun x ≠ [] ∧ ((∃ c ∈ x, isDigit c = false) ∧ runValue x < 2 ^ w.bits ∨ Unseen w (runValue x))

theorem digitRun_eq_self {x : Str} : digitRun x = x ↔ ∀ c ∈ x, isDigit c = true :=
  List.takeWhile_eq_self_iff

/-- **A number is read from the whole text, unless the text is misread.** -/
theorem readNumber_iff (w : Width) (x : Str) :
    (consumeNumber w.bits x).map (·.1) = wholeNumber w x ↔ ¬ Misread w x := by
  unfold wholeNumber Misread
  by_cases hdigits : ∀ c ∈ x, isDigit c = true
  · -- what is read is the number of the whole text
    have hrun := digitRun_eq_self.2 hdigits
    have hno : ¬ ∃ c ∈ x, isDigit c = false := by
      rintro ⟨c, hc, hnot⟩
      rw [hdigits c hc] at hnot
      cases hnot
    simp only [hno, false_and, false_or, hrun]
    by_cases hnil : x = []
    · subst hnil
      cases w <;> simp [consumeNumber]
    by_cases hlt : runValue x < 2 ^ w.bits
    · have hmod : runValue x % w.modulus = runValue x := by
        refine Nat.mod_eq_of_lt (hlt.trans_le ?_)
        cases w <;> decide
      have hread : digitRun x ≠ [] := by rwa [hrun]
      rw [consumeNumber_eq_some.2 ⟨⟨hread, .inl hlt⟩, rfl, rfl⟩, hmod,
        if_pos ⟨hnil, List.all_eq_true.2 hdigits, hlt⟩]
      refine iff_of_true rfl fun h => ?_
      exact absurd h.2.1 (Nat.not_le.2 hlt)
    · rw [if_neg fun h => hlt h.2.2]
      simp only [Option.map_eq_none_iff, consumeNumber_eq_none, hrun, hlt, false_or]
  · have hsome : ∃ c ∈ x, isDigit c = false := by
      push Not at hdigits
      obtain ⟨c, hc, hnot⟩ := hdigits
      exact ⟨c, hc, by simpa using hnot⟩
    rw [if_neg fun h => hdigits (List.all_eq_true.1 h.2.1)]
    simp only [Option.map_eq_none_iff, consumeNumber_eq_none, hsome, true_and]

/-- **`numeric_port` reads the number in front of the port.** -/
theorem numericPort_eq (u : Url) :
    u.numericPort = (consumeNumber Width.w16.bits (u.get .port)).map (·.1) := by
  unfold Url.numericPort
  split
  · rename_i h
    have hget : u.get .port = [] := by rw [Url.get, Url.text, h, List.take_zero]
    rw [hget]
    rfl
  · rfl

/-! ## Endpoints -/

section
variable {Address : Type} (env : Env Address)

/-- The endpoint at this host whose port the whole of `x` is. -/
def wholeEndpoint (host x : Str) : Option (Endpoint Address) :=
  (env.makeAddress host).bind fun addr => (wholeNumber .w16 x).map (Endpoint.mk addr)

/-- The host is an address and `x` is misread as its port; or the address ends
    at a colon inside of `x`, and a port can be read after it. -/
def MisreadEndpoint (host x : Str) : Prop :=
  match rfind ':' x with
  | none => env.makeAddress host ≠ none ∧ Misread .w16 x
  | some pos =>
    env.makeAddress (host ++ ':' :: x.take pos) ≠ none ∧ Readable .w16 (x.drop (pos + 1))

variable {env}

/-- `consume_endpoint` on a text with its last colon after `host`. -/
theorem consumeEndpoint_at {s host port : Str} (hs : s = host ++ ':' :: port)
    (h : rfind ':' s = some host.length) : (consumeEndpoint env.makeAddress s).map (·.1) =
      (env.makeAddress host).bind fun addr =>
        ((consumeNumber Width.w16.bits port).map (·.1)).map (Endpoint.mk addr) := by
  have htake : s.take host.length = host := by rw [hs, List.take_left]
  have hdrop : s.drop (host.length + 1) = port := by rw [hs, List.drop_add_one_eq_tail_drop,
    List.drop_left, List.tail_cons]
  simp only [consumeEndpoint, h, htake, hdrop, Option.bind_eq_bind, Option.bind_some]
  rcases env.makeAddress host with _ | addr
  · rfl
  · have hbits : consumeNumber Width.w16.bits port = consumeNumber 16 port := rfl
    rw [hbits]
    rcases consumeNumber 16 port with _ | r <;> rfl

/-- **An endpoint is read from the whole of `host:x`, unless `x` is misread.** -/
theorem consumeEndpoint_iff (host x : Str) :
    (consumeEndpoint env.makeAddress (host ++ ':' :: x)).map (·.1) = wholeEndpoint env host x ↔
      ¬ MisreadEndpoint env host x := by
  have hpos := rfind_append ':' host (':' :: x)
  unfold wholeEndpoint MisreadEndpoint
  rcases hx : rfind ':' x with _ | pos
  · -- the colon after the host is the last one
    have hread := readNumber_iff .w16 x
    simp only [rfind, hx, if_true, Nat.add_zero] at hpos
    rw [consumeEndpoint_at rfl hpos]
    rcases env.makeAddress host with _ | addr
    · simp
    · have hinj : Function.Injective (Endpoint.mk addr) := fun p q h => (Endpoint.mk.inj h).2
      simp only [Option.bind_some, (Option.map_injective hinj).eq_iff, hread, ne_eq, reduceCtorEq,
        not_false_eq_true, true_and]
  · obtain ⟨hlt, hsplit⟩ := rfind_split hx
    have hs : host ++ ':' :: x = (host ++ ':' :: x.take pos) ++ ':' :: x.drop (pos + 1) := by
      rw [List.append_assoc, List.cons_append, ← hsplit]
    have hlen : (host ++ ':' :: x.take pos).length = host.length + (pos + 1) := by
      rw [List.length_append, List.length_cons, List.length_take_of_le hlt.le]
    have hwhole : wholeNumber .w16 x = none := by
      refine if_neg fun h => ?_
      have := List.all_eq_true.1 h.2.1 ':' (rfind_mem hx)
      exact absurd this (by decide)
    simp only [rfind, hx] at hpos
    rw [consumeEndpoint_at hs (hlen ▸ hpos), hwhole]
    have hnone : consumeNumber Width.w16.bits (x.drop (pos + 1)) = none ↔
        ¬ Readable .w16 (x.drop (pos + 1)) := consumeNumber_eq_none
    rcases haddr : env.makeAddress (host ++ ':' :: x.take pos) with _ | addr
    · simp [haddr]
    · simp only [haddr, Option.bind_some, Option.map_none, Option.bind_fun_none,
        Option.map_eq_none_iff, hnone, ne_eq, reduceCtorEq, not_false_eq_true, true_and]

/-! ## The endpoints of the two requests -/

/-- `soap_request` gets this endpoint from the URL of `g`, or gets none. -/
def SoapObtains (env : Env Address) (g : Igd) : Option (Endpoint Address) → Prop
  | none => ∀ net command message,
    g.soapRequest env net command message = .error (.igdHostParseFailed g.url)
  | some ep => ∀ net command message,
    g.soapRequest env net command message = answer (net ep (g.soapMessage command message))

/-- What `query_root_device` makes of an exchange. -/
def rootAnswer (env : Env Address) (al : Alloc) : Exchange → Except ErrorCode Device
  | .connectFailed ec => .error ec
  | .writeFailed ec => .error ec
  | .readFailed ec => .error ec
  | .response rs =>
    if rs.status ≠ 200 then .error .protocolError
    else
      match deviceParseRoot env.readXml al rs.body with
      | none => .error .ioError
      | some rootDev => .ok rootDev

/-- `query_root_device` gets this endpoint from the URL, or gets none. -/
def RootObtains (env : Env Address) (url : Url) : Option (Endpoint Address) → Prop
  | none => ∀ net al, queryRootDevice env net al url = .error .invalidArgument
  | some ep => ∀ net al,
    queryRootDevice env net al url = rootAnswer env al (net ep (rootDeviceRequest url))

/-- A network on which only `ep` refuses the connection. -/
noncomputable def refusedBy (ep : Endpoint Address) : Net Address :=
  open Classical in
  fun ep' _ => if ep' = ep then .connectFailed .timedOut else .writeFailed .ioError

theorem soapObtains_iff {g : Igd} {r : Option (Endpoint Address)} : SoapObtains env g r ↔
    (consumeEndpoint env.makeAddress g.url.hostAndPort).map (·.1) = r := by
  have hsome : ∀ {ep rest}, consumeEndpoint env.makeAddress g.url.hostAndPort = some (ep, rest) →
      SoapObtains env g (some ep) := fun h => (reaches_of_consumeEndpoint h).soapRequest
  constructor
  · intro h
    rcases hc : consumeEndpoint env.makeAddress g.url.hostAndPort with _ | ⟨ep, rest⟩
    · rcases r with _ | ep'
      · rfl
      · have := h (refusedBy ep') [] []
        simp only [soapRequest, hc] at this
        exact absurd this.symm (answer_ne _ _)
    · have hep := hsome hc (refusedBy ep) [] []
      rcases r with _ | ep'
      · rw [h (refusedBy ep) [] []] at hep
        exact absurd hep.symm (answer_ne _ _)
      · rw [h (refusedBy ep) [] []] at hep
        by_cases heq : ep' = ep
        · rw [heq]
          rfl
        · simp [refusedBy, heq, answer] at hep
  · rintro rfl
    rcases hc : consumeEndpoint env.makeAddress g.url.hostAndPort with _ | ⟨ep, rest⟩
    · intro net command message
      simp only [soapRequest, hc]
    · exact hsome hc

theorem rootObtains_iff {url : Url} {r : Option (Endpoint Address)} : RootObtains env url r ↔
    (consumeEndpoint env.makeAddress url.hostAndPort).map (·.1) = r := by
  have hsome : ∀ {ep rest}, consumeEndpoint env.makeAddress url.hostAndPort = some (ep, rest) →
      RootObtains env url (some ep) := by
    intro ep rest h net al
    simp only [queryRootDevice, h]
    cases net ep (rootDeviceRequest url) <;> rfl
  let al : Alloc := fun _ => ⟨1, by omega⟩
  constructor
  · intro h
    rcases hc : consumeEndpoint env.makeAddress url.hostAndPort with _ | ⟨ep, rest⟩
    · rcases r with _ | ep'
      · rfl
      · have := h (refusedBy ep') al
        simp [queryRootDevice, hc, refusedBy, rootAnswer] at this
    · have hep := hsome hc (refusedBy ep) al
      rcases r with _ | ep'
      · rw [h (refusedBy ep) al] at hep
        simp [refusedBy, rootAnswer] at hep
      · rw [h (refusedBy ep) al] at hep
        by_cases heq : ep' = ep
        · rw [heq]
          rfl
        · simp [refusedBy, heq, rootAnswer] at hep
  · rintro rfl
    rcases hc : consumeEndpoint env.makeAddress url.hostAndPort with _ | ⟨ep, rest⟩
    · intro net al
      simp only [queryRootDevice, hc]
    · exact hsome hc

/-! ## All readers -/

/-- **A whole field is read as a number only if it is one, except where it is
    misread**: by `get_num` on a node with text `x`, by `numeric_port` on a port
    `x`, and by both requests on an endpoint `host:x`. -/
theorem wholeField_iff {Address : Type} (env : Env Address) :
    (∀ w t tag x, Ptree.getOptional t tag = some x →
      (t.getNum w.bits tag = wholeNumber w x ↔ ¬ Misread w x)) ∧
    (∀ u : Url, u.numericPort = wholeNumber .w16 (u.get .port) ↔ ¬ Misread .w16 (u.get .port)) ∧
    (∀ (g : Igd) host x, g.url.hostAndPort = host ++ ':' :: x →
      (SoapObtains env g (wholeEndpoint env host x) ↔ ¬ MisreadEndpoint env host x)) ∧
    (∀ (url : Url) host x, url.hostAndPort = host ++ ':' :: x →
      (RootObtains env url (wholeEndpoint env host x) ↔ ¬ MisreadEndpoint env host x)) := by
  refine ⟨?_, ?_, ?_, ?_⟩
  · intro w t tag x hx
    rw [Ptree.getNum, hx, Option.bind_some, readNumber_iff]
  · intro u
    rw [numericPort_eq, readNumber_iff]
  · intro g host x h
    rw [soapObtains_iff, h, consumeEndpoint_iff]
  · intro url host x h
    rw [rootObtains_iff, h, consumeEndpoint_iff]

end

/-- Behind a port and some letters. -/
def letteredGateway : Igd :=
  { localGateway with
    url := Url.parseLocal ⟨1, Int.one_pos⟩ "http://192.168.0.1:80abc/".toList }

theorem misread_lettered : Misread .w16 "80abc".toList :=
  ⟨by decide, .inl ⟨⟨'a', by decide, rfl⟩, by decide⟩⟩

/-- "80abc" is read as 80 by every reader. -/
theorem wholeField_fails :
    (Ptree.only "NewExternalPort".toList ⟨"80abc".toList, []⟩).getNum Width.w16.bits
      "NewExternalPort".toList ≠ wholeNumber .w16 "80abc".toList ∧
    letteredGateway.url.get .port = "80abc".toList ∧
    letteredGateway.url.numericPort ≠ wholeNumber .w16 "80abc".toList ∧
    ¬ SoapObtains (.oneHost fun _ => none) letteredGateway
      (wholeEndpoint (.oneHost fun _ => none) "192.168.0.1".toList "80abc".toList) ∧
    ¬ RootObtains (.oneHost fun _ => none) letteredGateway.url
      (wholeEndpoint (.oneHost fun _ => none) "192.168.0.1".toList "80abc".toList) := by
  have hnumber := mt (readNumber_iff .w16 "80abc".toList).1 (not_not.2 misread_lettered)
  have hpair : letteredGateway.url.hostAndPort =
      "192.168.0.1".toList ++ ':' :: "80abc".toList := rfl
  have hendpoint : MisreadEndpoint (.oneHost fun _ => none) "192.168.0.1".toList
      "80abc".toList := ⟨by decide, misread_lettered⟩
  have hread : (consumeEndpoint (Env.oneHost fun _ => none).makeAddress
      ("192.168.0.1".toList ++ ':' :: "80abc".toList)).map (·.1) ≠
        wholeEndpoint (.oneHost fun _ => none) "192.168.0.1".toList "80abc".toList :=
    fun h => (consumeEndpoint_iff _ _).1 h hendpoint
  refine ⟨?_, rfl, ?_, ?_, ?_⟩
  · rw [Ptree.getNum, Ptree.getOptional, Ptree.getChildOptional_last (by decide) (by decide)]
    exact hnumber
  · rw [numericPort_eq]
    exact hnumber
  · rw [soapObtains_iff, hpair]
    exact hread
  · rw [rootObtains_iff, hpair]
    exact hread

end Upnp
