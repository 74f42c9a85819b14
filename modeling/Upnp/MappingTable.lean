/-
  Listing the mappings of a gateway one by one (`example/add-port-mapping.cpp`).

  `list_port_mappings_igd1` asks for the mapping at the index 0, 1 and so on, until there is
  an error.  It counts with an `unsigned`, but the index that it asks for is a `uint16_t`.

  * `listPortMappingsIgd1_iff`: it ends exactly if the gateway has fewer than 65536 mappings,
    and then it has printed all of them, in their order.
-/
import Upnp.Lib.Loop
import Upnp.Session

namespace Upnp

open Lib Lib.Xml

section
variable {Address σ : Type} (env : Env Address) (net : Net Address) (g : Igd)

/-- What `list_port_mappings_igd1` prints: the mappings, and an error if the first call
    failed. -/
structure Printed (Address : Type) where
  mappings : List (MapEntry Address)
  error : Option GetMappingsError

/-- One round of the loop, with the index `i` and the mappings that have been printed. -/
def igd1Round (s : ℕ × List (MapEntry Address)) :
    (ℕ × List (MapEntry Address)) ⊕ Except Fault (Printed Address) :=
  match g.getGenericPortMappingEntry env net (s.1 % 2 ^ 16) with
  | .error fault => .inr (.error fault)
  | .ok (.error e) => .inr (.ok ⟨s.2, if s.1 = 0 then some e else none⟩)
  | .ok (.ok m) => .inl ((s.1 + 1) % 2 ^ 32, s.2 ++ [m])

/-- `list_port_mappings_igd1`, if it ends within `n` rounds. -/
def listPortMappingsIgd1 (n : ℕ) : Option (Except Fault (Printed Address)) :=
  rounds (igd1Round env net g) n (0, [])

end

section
variable {Address σ : Type} {env : Env Address} {g : Igd} {ep : Endpoint Address}
  {serve : Server σ} {wan : WanConnection Address σ} {s : σ} {ms : List (MapEntry Address)}
  {status : ℕ}

/-- A gateway with the mappings `ms`, and the status for an index that is too large. -/
def WanConnection.HasTable (wan : WanConnection Address σ) (s : σ) (ms : List (MapEntry Address))
    (status : ℕ) : Prop :=
  ∀ i, wan.getGenericPortMappingEntry s i = (ms[i]?).elim (.error status) .ok

theorem getGenericPortMappingEntry_served (h : Serves env g wan serve) (hg : g.Ready env ep)
    (hshow : ∀ a, CleanText (env.showAddress a)) (ht : wan.HasTable s ms status) (i : ℕ) :
    g.getGenericPortMappingEntry env (fun _ rq => .response (serve s rq).2) i =
      .ok ((ms[i]?).elim (.error (.soapRequest (.httpStatus status))) .ok) := by
  have hrun : (Operation.getGenericPortMappingEntry i).run env
      (fun _ rq => .response (serve s rq).2) g = _ := run_served h hg hshow rfl s
  have hperform : (wan.perform s (.getGenericPortMappingEntry i)).2 =
      (wan.getGenericPortMappingEntry s i).map .entry := rfl
  rw [hperform, ht i] at hrun
  refine Operation.Outcome.entry.inj (hrun.trans ?_)
  rcases ms[i]? with _ | m <;> rfl

/-- What the loop prints in the end. -/
def printedTable (ms : List (MapEntry Address)) (status : ℕ) : Printed Address :=
  ⟨ms, if ms = [] then some (.soapRequest (.httpStatus status)) else none⟩

/-- The mappings in front of the index are printed. -/
def PrintedUpTo (ms : List (MapEntry Address)) (s : ℕ × List (MapEntry Address)) : Prop :=
  s.1 ≤ ms.length ∧ s.2 = ms.take s.1

/-- One round prints the mapping at the index, if there is one. -/
theorem igd1Round_eq (h : Serves env g wan serve) (hg : g.Ready env ep)
    (hshow : ∀ a, CleanText (env.showAddress a)) (ht : wan.HasTable s ms status) (i : ℕ)
    (printed : List (MapEntry Address)) :
    igd1Round env (fun _ rq => .response (serve s rq).2) g (i, printed) =
      match ms[i % 2 ^ 16]? with
      | some m => .inl ((i + 1) % 2 ^ 32, printed ++ [m])
      | none => .inr (.ok ⟨printed,
          if i = 0 then some (.soapRequest (.httpStatus status)) else none⟩) := by
  simp only [igd1Round, getGenericPortMappingEntry_served h hg hshow ht]
  rcases ms[i % 2 ^ 16]? with _ | m <;> rfl

/-- The index does not wrap around where there are fewer mappings than indices. -/
theorem igd1Round_nears (h : Serves env g wan serve) (hg : g.Ready env ep)
    (hshow : ∀ a, CleanText (env.showAddress a)) (ht : wan.HasTable s ms status)
    (hlen : ms.length < 2 ^ 16) {t : ℕ × List (MapEntry Address)} (hp : PrintedUpTo ms t) :
    Nears (PrintedUpTo ms) (fun t => ms.length - t.1) (fun _ => .ok (printedTable ms status)) t
      (igd1Round env (fun _ rq => .response (serve s rq).2) g t) := by
  obtain ⟨i, printed⟩ := t
  obtain ⟨hi, hprinted⟩ := hp
  dsimp only at hi hprinted
  subst hprinted
  rw [igd1Round_eq h hg hshow ht, Nat.mod_eq_of_lt (by omega : i < 2 ^ 16),
    Nat.mod_eq_of_lt (by omega : i + 1 < 2 ^ 32)]
  by_cases hlt : i < ms.length
  · rw [List.getElem?_eq_getElem hlt]
    refine ⟨⟨hlt, ?_⟩, ?_, rfl⟩
    · exact List.take_append_getElem hlt
    · dsimp only
      omega
  · have hlast : i = ms.length := by omega
    rw [List.getElem?_eq_none (by omega), hlast, List.take_length]
    simp only [Nears, printedTable, List.length_eq_zero_iff]

/-- **`list_port_mappings_igd1` ends exactly if the gateway has fewer than 65536 mappings,
    and then it has printed all of them.** -/
theorem listPortMappingsIgd1_iff (h : Serves env g wan serve) (hg : g.Ready env ep)
    (hshow : ∀ a, CleanText (env.showAddress a)) (ht : wan.HasTable s ms status) :
    let net : Net Address := fun _ rq => .response (serve s rq).2
    ((∃ n r, listPortMappingsIgd1 env net g n = some r) ↔ ms.length < 2 ^ 16) ∧
    ∀ n r, listPortMappingsIgd1 env net g n = some r → r = .ok (printedTable ms status) := by
  intro net
  have hstart : PrintedUpTo ms (0, []) := ⟨Nat.zero_le _, rfl⟩
  by_cases hlen : ms.length < 2 ^ 16
  · have hnears := fun t => igd1Round_nears h hg hshow ht hlen (t := t)
    refine ⟨iff_of_true ⟨ms.length + 1, _, rounds_eq hnears hstart (Nat.lt_succ_self _)⟩ hlen, ?_⟩
    intro n r hr
    exact eq_of_rounds hnears hstart hr
  · have hon : ∀ t, ∃ t', igd1Round env net g t = .inl t' := by
      rintro ⟨i, printed⟩
      have hlt : i % 2 ^ 16 < ms.length :=
        Nat.lt_of_lt_of_le (Nat.mod_lt i (by decide)) (Nat.not_lt.1 hlen)
      rw [igd1Round_eq h hg hshow ht, List.getElem?_eq_getElem hlt]
      exact ⟨_, rfl⟩
    have hnone : ∀ n, listPortMappingsIgd1 env net g n = none := fun n => rounds_eq_none hon n _
    refine ⟨iff_of_false ?_ hlen, ?_⟩
    · rintro ⟨n, r, hr⟩
      rw [hnone] at hr
      cases hr
    · intro n r hr
      rw [hnone] at hr
      cases hr

/-- A gateway with two mappings. -/
theorem listPortMappingsIgd1_two :
    let net : Net Unit := fun _ rq => .response (countingServer 2 rq).2
    (∃ n r, listPortMappingsIgd1 countingEnv net Igd.localGateway n = some r) ∧
    ∀ n r, listPortMappingsIgd1 countingEnv net Igd.localGateway n = some r →
      r = .ok ⟨[sshMapping, sshMapping], none⟩ := by
  have ht : countingWan.HasTable 2 [sshMapping, sshMapping] 500 := by
    rintro (_ | _ | i) <;> rfl
  have hready : Igd.localGateway.Ready countingEnv ⟨(), 5000⟩ := ⟨⟨[], rfl⟩, by decide⟩
  have h := listPortMappingsIgd1_iff serves_counting hready
    (fun _ => show CleanText "192.168.0.1".toList by decide) ht
  exact ⟨h.1.2 (by decide), h.2⟩

end

end Upnp
