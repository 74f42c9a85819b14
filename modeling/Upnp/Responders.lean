/-
  What the responders have to do with the outcome of `igd::discover`.

  * `discoverLoop_append`: the turns before the end of the query lead to `io_error`
    or to the igds of their roots, whatever comes after them;
  * `discover_insert_iff`: one more response that leads to no gateway changes nothing
    exactly if its description is loaded;
  * `discover_reorder`: the order of the turns makes no difference to the outcome.
-/
import Upnp.Requests

namespace Upnp

open Lib

/-- A call of `get_response` that gives a response, or one that could not be parsed. -/
def Turn.Arrives {Address : Type} (turn : Turn Address) : Prop :=
  (∃ rsp, turn.outcome = .ok (.ok rsp)) ∨ ∃ e, turn.outcome = .ok (.error (.parse e))

/-- The description of a response could not be loaded. -/
def Turn.Fails {Address : Type} (env : Env Address) (turn : Turn Address) : Prop :=
  ∃ rsp ec, turn.outcome = .ok (.ok rsp) ∧
    Igd.queryRootDevice env turn.net turn.al rsp.location.1 = .error ec

namespace Igd

section
variable {Address : Type} {env : Env Address} {al al' : ℕ → Alloc} {ts ts' : List (Turn Address)}

/-- The response of a turn, with the root device it leads to. -/
def rootOf (env : Env Address) (turn : Turn Address) : Option Root :=
  match turn.outcome with
  | .ok (.ok rsp) =>
    match queryRootDevice env turn.net turn.al rsp.location.1 with
    | .ok rootDev => some (rsp, rootDev)
    | .error _ => none
  | _ => none

/-- **Before the end of the query, the first description that is not loaded ends the
    loop; if all are, it goes on with what their roots gave.** -/
theorem discoverLoop_append (al : ℕ → Alloc) (hts : ∀ turn ∈ ts, turn.Arrives)
    {l : List Candidate} {found : Found} (hl : found.Holds l) :
    ((∃ turn ∈ ts, turn.Fails env) ∧
      ∀ rest, discoverLoop env al (ts ++ rest) found = some (.ok (.error .ioError))) ∨
    ((∀ turn ∈ ts, ¬ turn.Fails env) ∧ ∃ found' : Found,
      found'.Holds (l ++ (ts.filterMap (rootOf env)).flatMap candidates) ∧
      ∀ rest, discoverLoop env al (ts ++ rest) found = discoverLoop env al rest found') := by
  induction ts generalizing l found with
  | nil => exact .inr ⟨by simp, found, by simpa using hl, fun _ => rfl⟩
  | cons turn ts ih =>
    obtain ⟨hturn, hts⟩ := List.forall_mem_cons.1 hts
    simp only [List.cons_append, discoverLoop]
    rcases hturn with ⟨rsp, ho⟩ | ⟨e, ho⟩
    · rcases hq : queryRootDevice env turn.net turn.al rsp.location.1 with ec | rootDev
      · refine .inl ⟨⟨turn, List.mem_cons_self, rsp, ec, ho, hq⟩, ?_⟩
        intro rest
        simp only [ho, hq]
      · obtain ⟨ep, rest, -, he, -⟩ := consumeEndpoint_of_queryRootDevice hq
        obtain ⟨found₁, h₁, hl₁⟩ := addRoot_spec al (consumeEndpoint_colon he) hl rootDev
        have hroot : rootOf env turn = some (rsp, rootDev) := by simp only [rootOf, ho, hq]
        have hok : ¬ turn.Fails env := by
          rintro ⟨rsp', ec, ho', hq'⟩
          rw [ho] at ho'
          cases ho'
          rw [hq] at hq'
          cases hq'
        simp only [ho, hq, h₁]
        refine (ih hts hl₁).imp ?_ ?_
        · rintro ⟨⟨t, ht, hf⟩, hrest⟩
          exact ⟨⟨t, List.mem_cons_of_mem _ ht, hf⟩, hrest⟩
        · rintro ⟨hall, found', hl', hrest⟩
          refine ⟨List.forall_mem_cons.2 ⟨hok, hall⟩, found', ?_, hrest⟩
          rwa [List.filterMap_cons_some hroot, List.flatMap_cons, ← List.append_assoc]
    · have hroot : rootOf env turn = none := by simp only [rootOf, ho]
      have hok : ¬ turn.Fails env := by
        rintro ⟨rsp', ec, ho', -⟩
        rw [ho] at ho'
        cases ho'
      simp only [ho]
      refine (ih hts hl).imp ?_ ?_
      · rintro ⟨⟨t, ht, hf⟩, hrest⟩
        exact ⟨⟨t, List.mem_cons_of_mem _ ht, hf⟩, hrest⟩
      · rintro ⟨hall, found', hl', hrest⟩
        refine ⟨List.forall_mem_cons.2 ⟨hok, hall⟩, found', ?_, hrest⟩
        rwa [List.filterMap_cons_none hroot]

/-! ## One more responder -/

/-- A response that no gateway is found from. -/
inductive Useless (env : Env Address) (turn : Turn Address) (rsp : Response) : Prop
  /-- its location is missing, or there is no endpoint in it -/
  | location (h : consumeEndpoint env.makeAddress rsp.location.1.hostAndPort = none)
  /-- its description can not be fetched or parsed -/
  | description {ec : ErrorCode}
      (h : queryRootDevice env turn.net turn.al rsp.location.1 = .error ec)
  /-- its root device is no IGD -/
  | notIgd {rootDev : Device}
      (h : queryRootDevice env turn.net turn.al rsp.location.1 = .ok rootDev)
      (hv : versionOf rootDev.type = none)

/-- The location of a response leads to a description. -/
def Loads (env : Env Address) (turn : Turn Address) (rsp : Response) : Prop :=
  ∃ ep rest rs rootDev,
    consumeEndpoint env.makeAddress rsp.location.1.hostAndPort = some (ep, rest) ∧
    turn.net ep (rootDeviceRequest rsp.location.1) = .response rs ∧ rs.status = 200 ∧
    deviceParseRoot env.readXml turn.al rs.body = some rootDev

theorem loads_iff {turn : Turn Address} {rsp : Response} : Loads env turn rsp ↔
    ∃ rootDev, queryRootDevice env turn.net turn.al rsp.location.1 = .ok rootDev := by
  constructor
  · rintro ⟨ep, rest, rs, rootDev, he, hn, hs, hp⟩
    refine ⟨rootDev, ?_⟩
    simp only [queryRootDevice, he, hn, hs, hp, ne_eq, not_true_eq_false, if_false]
  · rintro ⟨rootDev, hq⟩
    obtain ⟨ep, rest, rs, he, hn, hp⟩ := consumeEndpoint_of_queryRootDevice hq
    refine ⟨ep, rest, rs, rootDev, he, hn, ?_, hp⟩
    by_contra hs
    simp only [queryRootDevice, he, hn, if_pos hs] at hq
    cases hq

/-- **A useless response changes nothing exactly if its description is loaded.** -/
theorem discover_insert_iff {pre post : List (Turn Address)} {turn : Turn Address}
    {rsp : Response} {igds : List Igd}
    (hd : discover env al (.ok (pre ++ post)) = some (.ok (.ok igds)))
    (hpre : ∀ t ∈ pre, t.Arrives) (ho : turn.outcome = .ok (.ok rsp))
    (hu : Useless env turn rsp) :
    discover env al (.ok (pre ++ turn :: post)) = some (.ok (.ok igds)) ↔ Loads env turn rsp := by
  rw [discover] at hd ⊢
  rcases discoverLoop_append al hpre Found.holds_nil with ⟨-, hrest⟩ | ⟨-, found, -, hrest⟩
  · rw [hrest] at hd
    cases hd
  · rw [hrest] at hd ⊢
    rw [loads_iff, discoverLoop, ho]
    rcases hq : queryRootDevice env turn.net turn.al rsp.location.1 with ec | rootDev
    · simp [hq]
    · have hv : versionOf rootDev.type = none := by
        rcases hu with h | h | ⟨h, hv⟩
        · simp only [queryRootDevice, h] at hq
          cases hq
        · rw [hq] at h
          cases h
        · rw [hq] at h
          cases h
          exact hv
      simp only [hq, addRoot, hv, hd, true_iff]
      exact ⟨rootDev, rfl⟩

end

/-- What is left when a message without headers was parsed. -/
def noLocation : Response := ⟨[], [], [], .empty ⟨1, Int.one_pos⟩⟩

theorem parse_noLocation :
    Response.parse (fun _ => ⟨1, Int.one_pos⟩) "HTTP/1.1 200 OK\r\n\r\n".toList =
      .ok noLocation := by
  have h : Response.parse (fun _ => ⟨1, Int.one_pos⟩) "HTTP/1.1 200 OK\r\n\r\n".toList =
      parseHeaders (fun _ => ⟨1, Int.one_pos⟩) "\r\n".toList noLocation := rfl
  rw [h, parseHeaders]
  rfl

/-- That response, from another host. -/
def noLocationTurn : Turn Unit :=
  ⟨.ok (.ok noLocation), fun _ _ => .connectFailed .timedOut, fun _ => ⟨1, Int.one_pos⟩⟩

/-- A device that is no gateway. -/
def mediaDoc : Doc :=
  .device "urn:schemas-upnp-org:device:MediaServer:1".toList "uuid:5".toList [] [] []

/-- A response that leads to its description. -/
def mediaTurn : Turn Unit :=
  ⟨.ok (.ok secondResponse), fun _ _ => .response ⟨200, (Doc.root mediaDoc).text⟩,
    fun _ => ⟨1, Int.one_pos⟩⟩

/-- `read_xml` reads both descriptions. -/
def withMedia : Env Unit := .oneHost fun s =>
  if s = (Doc.root mediaDoc).text then some (Doc.root mediaDoc).tree
  else (oneDocument wanFirst).readXml s

theorem queryRootDevice_media : ∃ rootDev,
    queryRootDevice withMedia mediaTurn.net mediaTurn.al secondResponse.location.1 = .ok rootDev ∧
      rootDev.type = "urn:schemas-upnp-org:device:MediaServer:1".toList := by
  have he : consumeEndpoint withMedia.makeAddress secondResponse.location.1.hostAndPort =
      some (⟨(), 5001⟩, []) := rfl
  have hx : withMedia.readXml (Doc.root mediaDoc).text = some (Doc.root mediaDoc).tree := by
    simp only [withMedia, Env.oneHost, if_true]
  exact ⟨_, queryRootDevice_root hx rfl (Doc.deviceParse_device _ _ _) he, rfl⟩

/-- One device that is no gateway, and one that has no location. -/
theorem discover_insert_wanFirst : ∃ igds, igds ≠ [] ∧
    discover withMedia (fun _ _ => ⟨1, Int.one_pos⟩) (.ok (oneResponse wanFirst)) =
      some (.ok (.ok igds)) ∧
    discover withMedia (fun _ _ => ⟨1, Int.one_pos⟩) (.ok (mediaTurn :: oneResponse wanFirst)) =
      some (.ok (.ok igds)) ∧
    discover withMedia (fun _ _ => ⟨1, Int.one_pos⟩)
      (.ok (noLocationTurn :: oneResponse wanFirst)) ≠ some (.ok (.ok igds)) := by
  have hne : ((Doc.root (igdDoc wanFirst)).text == (Doc.root mediaDoc).text) = false := by
    decide +kernel
  have hx : withMedia.readXml (Doc.root (igdDoc wanFirst)).text =
      some (Doc.root (igdDoc wanFirst)).tree := by
    simp only [withMedia, oneDocument, Env.oneHost, if_neg (ne_of_beq_false hne), if_true]
  obtain ⟨igds, higds, hd⟩ := discover_wanFirst_of (fetches_oneHost hx)
  have hd' : discover withMedia (fun _ _ => ⟨1, Int.one_pos⟩) (.ok ([] ++ oneResponse wanFirst)) =
      some (.ok (.ok igds)) := hd
  obtain ⟨rootDev, hq, htype⟩ := queryRootDevice_media
  have hv : versionOf rootDev.type = none := by
    rw [htype]
    decide
  refine ⟨igds, higds, hd, ?_, ?_⟩
  · exact (discover_insert_iff hd' (by simp) rfl (.notIgd hq hv)).2 (loads_iff.2 ⟨rootDev, hq⟩)
  · intro hsame
    obtain ⟨ep, rest, rs, rootDev, he, -⟩ :=
      (discover_insert_iff hd' (by simp) rfl (.location rfl)).1 hsame
    have hnone : consumeEndpoint withMedia.makeAddress noLocation.location.1.hostAndPort = none :=
      rfl
    rw [hnone] at he
    cases he

/-- A message without a location, in front of the response of a gateway: `discover`
    returns `io_error`. -/
theorem discover_noLocation : ∃ igds,
    discover (oneDocument wanFirst) (fun _ _ => ⟨1, Int.one_pos⟩) (.ok (oneResponse wanFirst)) =
      some (.ok (.ok igds)) ∧ igds ≠ [] ∧
    Response.parse (fun _ => ⟨1, Int.one_pos⟩) "HTTP/1.1 200 OK\r\n\r\n".toList = .ok noLocation ∧
    noLocationTurn.outcome = .ok (.ok noLocation) ∧
    discover (oneDocument wanFirst) (fun _ _ => ⟨1, Int.one_pos⟩)
      (.ok (noLocationTurn :: oneResponse wanFirst)) = some (.ok (.error .ioError)) := by
  obtain ⟨igds, hne, hd⟩ := discover_wanFirst
  exact ⟨igds, hd, hne, parse_noLocation, rfl, rfl⟩

end Igd

end Upnp
