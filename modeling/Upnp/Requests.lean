/-
  Where the requests of the gateways go that `igd::discover` returns.

  * `root_of_mem`: an `igd` has the host and the port of the location its
    description was fetched from;
  * `outcome_of_fault`: `discover` adds no fault to those of `get_response`;
  * `discover_reaches`: the requests of an `igd` go there, and none fails because
    the host could not be parsed.
-/
import Upnp.Gateways

namespace Upnp

open Lib

namespace Igd

section
variable {Address : Type} {env : Env Address} {al : ℕ → Alloc} {turns : List (Turn Address)}
  {roots : List Root}

theorem Fetches.turn_of_mem (h : Fetches env turns roots) {r : Root} (hr : r ∈ roots) :
    ∃ turn ∈ turns, turn.outcome = .ok (.ok r.1) ∧
      queryRootDevice env turn.net turn.al r.1.location.1 = .ok r.2 := by
  induction h with
  | timedOut _ => cases hr
  | ignored _ _ ih =>
    obtain ⟨turn, ht, h⟩ := ih hr
    exact ⟨turn, List.mem_cons_of_mem _ ht, h⟩
  | fetched ho hq _ ih =>
    rcases List.mem_cons.1 hr with rfl | hr
    · exact ⟨_, List.mem_cons_self, ho, hq⟩
    · obtain ⟨turn, ht, h⟩ := ih hr
      exact ⟨turn, List.mem_cons_of_mem _ ht, h⟩

theorem Candidate.hostAndPort_of_mem {c : Candidate} {g : Gateway} (h : g ∈ c.gateways) :
    g.hostAndPort = c.rsp.location.1.hostAndPort := by
  obtain ⟨connection, -, h⟩ := List.mem_flatMap.1 h
  obtain ⟨service, -, rfl⟩ := List.mem_map.1 h
  rfl

theorem rsp_of_mem_candidates {r : Root} {c : Candidate} (h : c ∈ candidates r) : c.rsp = r.1 := by
  unfold candidates at h
  split at h
  · cases h
  · obtain ⟨device, -, rfl⟩ := List.mem_map.1 h
    rfl

/-- An `igd` is a gateway of an embedded device. -/
theorem candidate_of_mem {igds : List Igd} {g : Igd}
    (hd : discover env al (.ok turns) = some (.ok (.ok igds))) (hg : g ∈ igds) :
    ∃ roots, Fetches env turns roots ∧ ∃ r ∈ roots, ∃ c ∈ candidates r, g.gateway ∈ c.gateways := by
  obtain ⟨roots, hf⟩ := fetches_of_ok hd
  obtain ⟨found, hl, hrun⟩ := discover_of_fetches al hf
  have higds : found.igds = igds := by
    rw [hrun] at hd
    split at hd <;> cases hd
    rfl
  have hmem : g.gateway ∈ found.igds.map gateway := List.mem_map_of_mem (higds ▸ hg)
  rw [hl.igds, List.mem_flatMap] at hmem
  obtain ⟨c, hc, hgc⟩ := hmem
  have hc := firsts_sublist.subset (List.mem_of_mem_filter hc)
  obtain ⟨r, hr, hcr⟩ := List.mem_flatMap.1 hc
  exact ⟨roots, hf, r, hr, c, hcr, hgc⟩

/-- **An `igd` has the host and the port of a location it was found at.** -/
theorem root_of_mem {igds : List Igd} {g : Igd}
    (hd : discover env al (.ok turns) = some (.ok (.ok igds))) (hg : g ∈ igds) :
    ∃ roots, Fetches env turns roots ∧
      ∃ r ∈ roots, g.url.hostAndPort = r.1.location.1.hostAndPort := by
  obtain ⟨roots, hf, r, hr, c, hc, hgc⟩ := candidate_of_mem hd hg
  refine ⟨roots, hf, r, hr, ?_⟩
  rw [← rsp_of_mem_candidates hc]
  exact Candidate.hostAndPort_of_mem hgc

/-- **Nothing that `discover` does itself runs into a fault.** -/
theorem outcome_of_fault {found : Found} {l : List Candidate} {fault : Fault}
    (hl : found.Holds l) (h : discoverLoop env al turns found = some (.error fault)) :
    ∃ turn ∈ turns, turn.outcome = .error fault := by
  induction turns generalizing found l with
  | nil => cases h
  | cons turn turns ih =>
    rw [discoverLoop] at h
    rcases ho : turn.outcome with fault' | (e | ec) | rsp
    · rw [ho] at h
      cases h
      exact ⟨turn, List.mem_cons_self, ho⟩
    · rw [ho] at h
      obtain ⟨turn', ht, h'⟩ := ih hl h
      exact ⟨turn', List.mem_cons_of_mem _ ht, h'⟩
    · simp only [ho] at h
      split at h <;> cases h
    · rcases hq : queryRootDevice env turn.net turn.al rsp.location.1 with ec | rootDev
      · simp only [ho, hq] at h; cases h
      · obtain ⟨ep, rest, -, he, -⟩ := consumeEndpoint_of_queryRootDevice hq
        obtain ⟨found₁, h₁, hl₁⟩ := addRoot_spec al (consumeEndpoint_colon he) hl rootDev
        simp only [ho, hq, h₁] at h
        obtain ⟨turn', ht, h'⟩ := ih hl₁ h
        exact ⟨turn', List.mem_cons_of_mem _ ht, h'⟩

end

/-- What `soap_request` makes of an exchange. -/
def answer : Exchange → Except SoapRequestError HttpResponse
  | .connectFailed _ => .error .tcpConnect
  | .writeFailed _ => .error .httpRequest
  | .readFailed _ => .error .httpResponse
  | .response rs => if rs.status = 200 then .ok rs else .error (.httpStatus rs.status)

/-- The requests of `g` are sent to `ep`, whatever they are. -/
structure Reaches {Address : Type} (env : Env Address) (g : Igd) (ep : Endpoint Address) :
    Prop where
  soapRequest : ∀ net command message,
    g.soapRequest env net command message = answer (net ep (g.soapMessage command message))
  soapRequest_ne : ∀ net command message url,
    g.soapRequest env net command message ≠ .error (.igdHostParseFailed url)
  addPortMapping_ne : ∀ net proto externalPort internalPort description duration e,
    g.addPortMapping env net proto externalPort internalPort description duration = .error e →
      ∀ url, e ≠ .igdHostParseFailed url ∧ e ≠ .soapRequest (.igdHostParseFailed url)

section
variable {Address : Type} {env : Env Address}

theorem answer_ne (x : Exchange) (url : Url) : answer x ≠ .error (.igdHostParseFailed url) := by
  rcases x with ec | ec | ec | rs <;> simp only [answer] <;> first | split | skip
  all_goals nofun

theorem reaches_of_consumeEndpoint {g : Igd} {ep : Endpoint Address} {rest : Str}
    (h : consumeEndpoint env.makeAddress g.url.hostAndPort = some (ep, rest)) :
    Reaches env g ep := by
  have hs : ∀ net command message, g.soapRequest env net command message =
      answer (net ep (g.soapMessage command message)) := by
    intro net command message
    simp only [Igd.soapRequest, h]
    cases net ep (g.soapMessage command message) <;> rfl
  refine ⟨hs, ?_, ?_⟩
  · intro net command message url
    rw [hs]
    exact answer_ne _ url
  · intro net proto externalPort internalPort description duration e he url
    simp only [addPortMapping, h] at he
    split at he
    · cases he
      exact ⟨nofun, nofun⟩
    · split at he
      · rename_i e' hr
        cases he
        refine ⟨nofun, ?_⟩
        intro hn
        cases hn
        rw [hs] at hr
        exact answer_ne _ url hr
      · cases he

/-- **The control URL of an `igd` is the location of its description with another
    path, and its requests go to where that was fetched from.**  Building it throws
    nothing: `discover` ends in a fault only if `get_response` did. -/
theorem discover_reaches {Address : Type} (env : Env Address) :
    (∀ (al al' al'' : Alloc) (location control : Str) (u c : Url) (ep : Endpoint Address)
      (rest : Str), Url.parse al location = some u → Url.parse al' control = some c →
      consumeEndpoint env.makeAddress u.hostAndPort = some (ep, rest) →
      ∃ w, controlUrl al'' u (c.get .path) = .ok w ∧ w.get .path = c.get .path ∧
        (∀ q, q ≠ .path → w.get q = u.get q) ∧
        consumeEndpoint env.makeAddress w.hostAndPort = some (ep, rest)) ∧
    (∀ (al : ℕ → Alloc) (turns : List (Turn Address)) (fault : Fault),
      discover env al (.ok turns) = some (.error fault) →
      ∃ turn ∈ turns, turn.outcome = .error fault) ∧
    ∀ (al : ℕ → Alloc) (turns : List (Turn Address)) (igds : List Igd),
      discover env al (.ok turns) = some (.ok (.ok igds)) → ∀ g ∈ igds,
      ∃ turn ∈ turns, ∃ rsp ep rest rs, turn.outcome = .ok (.ok rsp) ∧
        consumeEndpoint env.makeAddress rsp.location.1.hostAndPort = some (ep, rest) ∧
        turn.net ep (rootDeviceRequest rsp.location.1) = .response rs ∧ Reaches env g ep := by
  refine ⟨?_, fun al turns fault => outcome_of_fault Found.holds_nil, ?_⟩
  · intro al al' al'' location control u c ep rest hu _ he
    obtain ⟨w, hw, hpath, hother, hhost⟩ := controlUrl_spec (.inr ⟨al, location, u, hu, .refl u⟩)
      (consumeEndpoint_colon he) al'' (c.get .path)
    exact ⟨w, hw, hpath, hother, by rw [hhost, he]⟩
  · intro al turns igds hd g hg
    obtain ⟨roots, hf, r, hr, hhost⟩ := root_of_mem hd hg
    obtain ⟨turn, ht, ho, hq⟩ := hf.turn_of_mem hr
    obtain ⟨ep, rest, rs, he, hn, -⟩ := consumeEndpoint_of_queryRootDevice hq
    exact ⟨turn, ht, r.1, ep, rest, rs, ho, he, hn,
      reaches_of_consumeEndpoint (by rw [hhost]; exact he)⟩

theorem discover_wanFirst_of {env : Env Unit}
    (hf : Fetches env (oneResponse wanFirst) [localRoot wanFirst]) : ∃ igds, igds ≠ [] ∧
    discover env (fun _ _ => ⟨1, Int.one_pos⟩) (.ok (oneResponse wanFirst)) =
      some (.ok (.ok igds)) := by
  obtain ⟨wan, hw, hwk, hwan, hgw⟩ := exists_wan "uuid:1".toList
  obtain ⟨lan, hl, hlk, hlan⟩ := exists_lan "uuid:1".toList
  have hc : [localRoot wanFirst].flatMap candidates = [wan] ++ [lan] := by
    rw [wanFirst, hw, hl]
    rfl
  obtain ⟨found, hfound, hrun⟩ := discover_of_fetches (fun _ _ => ⟨1, Int.one_pos⟩) hf
  have hrep : Repeats Candidate.key [wan] lan := by simp [Repeats, hwk, hlk]
  have hmap : found.igds.map gateway = wan.gateways := by
    rw [hfound.igds, hc, firsts_snoc, if_pos hrep, firsts_singleton,
      List.filter_cons_of_pos hwan, List.filter_nil, List.flatMap_singleton]
  have hne : found.igds ≠ [] := fun h => hgw (by rw [← hmap, h, List.map_nil])
  exact ⟨found.igds, hne, by rw [hrun, if_pos hne]⟩

theorem discover_wanFirst : ∃ igds, igds ≠ [] ∧
    discover (oneDocument wanFirst) (fun _ _ => ⟨1, Int.one_pos⟩) (.ok (oneResponse wanFirst)) =
      some (.ok (.ok igds)) := discover_wanFirst_of (fetches_oneResponse wanFirst)

theorem discover_reaches_wanFirst :
    let al : Alloc := fun _ => ⟨1, Int.one_pos⟩
    let env := oneDocument wanFirst
    (∃ u c w, Url.parse al "http://192.168.0.1:5000/root.xml".toList = some u ∧
      Url.parse al "/ctl".toList = some c ∧ controlUrl al u (c.get .path) = .ok w ∧
      w.get .path = c.get .path ∧ (∀ q, q ≠ .path → w.get q = u.get q) ∧
      consumeEndpoint env.makeAddress w.hostAndPort = some (⟨(), 5000⟩, [])) ∧
    ∃ igds, igds ≠ [] ∧ ∀ g ∈ igds, ∃ turn ∈ oneResponse wanFirst, ∃ rsp ep rest rs,
      turn.outcome = .ok (.ok rsp) ∧
      consumeEndpoint env.makeAddress rsp.location.1.hostAndPort = some (ep, rest) ∧
      turn.net ep (rootDeviceRequest rsp.location.1) = .response rs ∧ Reaches env g ep := by
  intro al env
  obtain ⟨u, hu, he⟩ : ∃ u, Url.parse al "http://192.168.0.1:5000/root.xml".toList = some u ∧
      consumeEndpoint env.makeAddress u.hostAndPort = some (⟨(), 5000⟩, []) := ⟨_, rfl, rfl⟩
  obtain ⟨c, hc⟩ : ∃ c, Url.parse al "/ctl".toList = some c := ⟨_, rfl⟩
  obtain ⟨igds, hne, hd⟩ := discover_wanFirst
  obtain ⟨hurl, -, hrun⟩ := discover_reaches env
  obtain ⟨w, hw, h⟩ := hurl al al al _ _ u c _ _ hu hc he
  exact ⟨⟨u, c, w, hu, hc, hw, h⟩, igds, hne, hrun _ _ igds hd⟩

end

end Igd

end Upnp
