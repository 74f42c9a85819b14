/-
  From the datagrams of a search to the sessions with the gateways that are found.

  * `mem_deliverable`: the loop of `discover` works on responses that the query has to
    deliver;
  * `session_of_run`: an `igd` that a run of `discover` returns is at the location of such a
    response, and its operations do what direct calls of the gateway do.
-/
import Upnp.DiscoveryOutcome
import Upnp.Session

namespace Upnp

open Lib Lib.Xml

namespace Discovery

section
variable {Address : Type} {env : Env Address} {al : ℕ → Alloc} {s : Discovery}
  {as : List DiscoverAction} {es : List (DiscoverEvent Address)} {igds : List Igd} {g : Igd}

theorem mem_deliverable (h : (machine env al).Run as es s) {turn : Turn Address} {rsp : Response}
    (ht : turn ∈ turns es) (ho : turn.outcome = .ok (.ok rsp)) :
    rsp ∈ Query.deliverable (queryEvents es) := by
  obtain ⟨taken, hfirsts, hturns⟩ := taken_of_run h
  have hmem : (.ok (.ok rsp) : Outcome) ∈ (turns es).map Turn.outcome := ho ▸ List.mem_map_of_mem ht
  have htaken : (.ok (.ok rsp) : Outcome) ∈ taken.map Query.outcome := by
    rcases hturns with hitems | ⟨ec, -, -, -, hend⟩
    · rw [← hitems]
      exact List.mem_append_left _ hmem
    · rw [hend, List.mem_append, List.mem_singleton] at hmem
      exact hmem.resolve_right (fun h => by cases h)
  obtain ⟨i, hi, hout⟩ := List.mem_map.1 htaken
  have hok : i = .ok rsp := by
    cases i with
    | ok r => cases hout; rfl
    | error e => cases hout
  rw [Query.deliverable, hfirsts, Query.parsed, List.mem_filterMap]
  exact ⟨i, List.mem_append_left _ hi, by rw [hok]; rfl⟩

/-- **From the datagrams to the sessions.**  Every `igd` that a run of `discover` returns is
    at the host and port of a response that was received; and with any gateway there,
    operations over the network cannot be told from direct calls. -/
theorem session_of_run (h : (machine env al).Run as es s)
    (hr : s.phase = .returned (.ok (.ok igds))) (hg : g ∈ igds) :
    ∃ rsp ∈ Query.deliverable (queryEvents es), ∃ ep rest,
      consumeEndpoint env.makeAddress rsp.location.1.hostAndPort = some (ep, rest) ∧
      g.url.hostAndPort = rsp.location.1.hostAndPort ∧ g.Ready env ep ∧
      ∀ {σ : Type} {serve : Server σ} {wan : WanConnection Address σ}, Serves env g wan serve →
        (∀ a, CleanText (env.showAddress a)) →
        ∀ (s₀ s₁ : σ) (bs : List (Rpc.Action σ Operation Fate))
          (ds : List (Rpc.Event Operation (Operation.Outcome Address))),
          (∃ t, (Rpc.machine (g.network env ep serve) s₀).Run bs ds t ∧ t.server = s₁) ↔
            ∃ t, (Rpc.machine (wan.direct (env.localAddressTo ep)) s₀).Run bs ds t ∧
              t.server = s₁ := by
  have hd := discover_turns h
  rw [hr] at hd
  obtain ⟨turn, ht, rsp, ep, rest, ho, he, hhost, hready⟩ := Igd.ready_of_discover hd hg
  refine ⟨rsp, mem_deliverable h ht ho, ep, rest, he, hhost, hready, ?_⟩
  intro σ serve wan hserves hshow s₀ s₁ bs ds
  exact (network_agrees hserves hready hshow).same_runs_iff

end

/-! ## A search, and a session -/

/-- `read_xml` reads the description of the gateway, and its answers. -/
def wanEnv : Env Unit := searchEnv countingEnv.readXml

theorem session_of_searched : ∃ es s igds, (searchMachine countingEnv.readXml).Run searched es s ∧
    s.phase = .returned (.ok (.ok igds)) ∧ ∃ g ∈ igds,
      ∃ rsp ∈ Query.deliverable (queryEvents es), ∃ ep rest,
        consumeEndpoint wanEnv.makeAddress rsp.location.1.hostAndPort = some (ep, rest) ∧
        g.url.hostAndPort = rsp.location.1.hostAndPort ∧ g.Ready wanEnv ep ∧
        ∀ bs ds n, (∃ t, (Rpc.machine (g.network wanEnv ep countingServer) 0).Run bs ds t ∧
            t.server = n) ↔
          ∃ t, (Rpc.machine (countingWan.direct (wanEnv.localAddressTo ep)) 0).Run bs ds t ∧
            t.server = n := by
  obtain ⟨es, s, -, -, igds, -, -, ⟨h, hr, -⟩, -, hne, -⟩ := run_searched countingEnv.readXml
  obtain ⟨g, hg⟩ := List.exists_mem_of_ne_nil igds hne
  obtain ⟨rsp, hrsp, ep, rest, he, hhost, hready, hsession⟩ := session_of_run h hr hg
  have haddress : Document wanEnv "address".toList (.address ()) :=
    ⟨rfl, _, responds_inEnvelope rfl (by decide) (by decide), _, rfl, rfl⟩
  have hentry : Document wanEnv "entry".toList (.entry sshMapping) :=
    ⟨⟨by decide, by decide, by decide, rfl⟩, _, responds_inEnvelope rfl (by decide) (by decide),
      places_xml genericTag_name.1 genericTag_name.2 _⟩
  refine ⟨es, s, igds, h, hr, g, hg, rsp, hrsp, ep, rest, he, hhost, hready, fun bs ds n => ?_⟩
  exact hsession (serves_of_documents haddress hentry)
    (fun _ => show CleanText "192.168.0.1".toList by decide) 0 n bs ds

end Discovery

end Upnp
