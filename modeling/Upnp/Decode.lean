/-
  Decoding the responses of a gateway, whatever it sends.

  `Handled` says that an operation ends in a value or in one of its errors.

  * `operations_handled_iff`: two of the operations always do; the third one
    exactly if the body is not XML or has the element it looks for.
-/
import Upnp.Igd
import Upnp.Lib.Fold

namespace Upnp

open Lib

/-- A value or an error the caller can see, but no fault. -/
def Handled {α : Type} (r : Except Fault α) : Prop := ∃ a, r = .ok a

theorem handled_ok {α : Type} (a : α) : Handled (.ok a : Except Fault α) := ⟨a, rfl⟩

theorem Handled.bind {α β : Type} {r : Except Fault α} {f : α → Except Fault β}
    (h : Handled r) (hf : ∀ a, Handled (f a)) : Handled (r >>= f) := by
  obtain ⟨a, rfl⟩ := h
  exact hf a

theorem Handled.foldlM {α β : Type} {f : β → α → Except Fault β} (hf : ∀ b a, Handled (f b a))
    (l : List α) (b : β) : Handled (l.foldlM f b) := by
  have hstep : ∀ (l : List α) a b, True → ∃ b', f b a = .ok b' ∧ True := fun _ a b _ =>
    (hf b a).imp fun _ h => ⟨h, trivial⟩
  exact (foldlM_spec hstep l trivial).imp fun _ h => h.1

/-- An optional that is dereferenced after a test. -/
theorem handled_deref {α β : Type} {o : Option α} {f : α → Except Fault β}
    (ho : o.isNone = false) (hf : ∀ a, Handled (f a)) : Handled (deref o >>= f) := by
  obtain ⟨a, rfl⟩ := Option.isSome_iff_exists.1 (by simpa using ho : o.isSome = true)
  exact hf a

namespace Ptree

/-- `c` is the first child whose name satisfies `q`. -/
def FirstChild (t : Ptree) (q : Str → Prop) (c : Ptree) : Prop :=
  ∃ pre n post, t.children = pre ++ (n, c) :: post ∧ q n ∧ ∀ e ∈ pre, ¬ q e.1

theorem find?_eq_some_iff {t c : Ptree} {q : Str → Prop} [DecidablePred q] :
    (t.children.find? fun e => q e.1).map (·.2) = some c ↔ t.FirstChild q c := by
  simp only [Option.map_eq_some_iff, List.find?_eq_some_iff_append, FirstChild, decide_eq_true_eq,
    Bool.not_eq_eq_eq_not, Bool.not_true, decide_eq_false_iff_not]
  constructor
  · rintro ⟨⟨n, c⟩, ⟨hq, pre, post, ht, hp⟩, rfl⟩
    exact ⟨pre, n, post, ht, hq, hp⟩
  · rintro ⟨pre, n, post, ht, hq, hp⟩
    exact ⟨(n, c), ⟨hq, pre, post, ht, hp⟩, rfl⟩

/-- The local name of a qualified one. -/
def localName (n : Str) : Str := (nameSplit n).2

/-- A name with the prefix `*` picks by the local name. -/
theorem pick_star {t c : Ptree} {p l : Str} (h : nameSplit p = (['*'], l)) :
    t.pick p = some c ↔ t.FirstChild (fun n => localName n = l) c := by
  rw [← find?_eq_some_iff]
  simp only [pick, h, if_true, localName, eq_comm]

/-- Any other name picks by the whole name. -/
theorem pick_name {t c : Ptree} {p : Str} (h : (nameSplit p).1 ≠ ['*']) :
    t.pick p = some c ↔ t.FirstChild (fun n => n = p) c := by
  rw [← find?_eq_some_iff]
  simp only [pick, h, if_false]

/-- The tree has the element of a port mapping entry in the body of an envelope:
    each time, the first child that matches is looked into. -/
def HasEntry (t : Ptree) : Prop :=
  ∃ envelope body entry,
    t.FirstChild (fun n => localName n = "Envelope".toList) envelope ∧
    envelope.FirstChild (fun n => localName n = "Body".toList) body ∧
    body.FirstChild (fun n => n = "u:GetGenericPortMappingEntryResponse".toList) entry

theorem consumeUntil_entryPath :
    consumeUntil "*:Envelope.*:Body.u:GetGenericPortMappingEntryResponse".toList [['.']] true =
      some ("*:Envelope".toList, "*:Body.u:GetGenericPortMappingEntryResponse".toList) := by
  decide

theorem getChild_entry (t : Ptree) :
    (∃ entry, t.getChild "*:Envelope.*:Body.u:GetGenericPortMappingEntryResponse".toList =
      some entry) ↔ t.HasEntry := by
  have h₁ : consumeUntil "*:Body.u:GetGenericPortMappingEntryResponse".toList [['.']] true =
      some ("*:Body".toList, "u:GetGenericPortMappingEntryResponse".toList) := by decide
  have h₂ : consumeUntil "u:GetGenericPortMappingEntryResponse".toList [['.']] true = none := by
    decide
  have hlast : ∀ t : Ptree, t.getChild "u:GetGenericPortMappingEntryResponse".toList =
      t.pick "u:GetGenericPortMappingEntryResponse".toList :=
    fun t => getChild_last (by decide) h₂
  simp only [getChild_cut consumeUntil_entryPath, getChild_cut h₁, hlast, Option.bind_eq_some_iff,
    pick_star (show nameSplit "*:Envelope".toList = (['*'], "Envelope".toList) by decide),
    pick_star (show nameSplit "*:Body".toList = (['*'], "Body".toList) by decide),
    pick_name (show (nameSplit "u:GetGenericPortMappingEntryResponse".toList).1 ≠ ['*'] by decide)]
  constructor
  · rintro ⟨entry, envelope, he, body, hb, hentry⟩
    exact ⟨envelope, body, entry, he, hb, hentry⟩
  · rintro ⟨envelope, body, entry, he, hb, hentry⟩
    exact ⟨entry, envelope, he, body, hb, hentry⟩

end Ptree

namespace Igd

variable {Address : Type} (env : Env Address) (b : Str)

theorem handled_external : Handled (decodeExternalAddress env b) := by
  unfold decodeExternalAddress
  split
  · exact handled_ok _
  · extract_lets
    split
    · exact handled_ok _
    · rename_i hs
      refine handled_deref (by simpa only [Bool.not_eq_true] using hs) ?_
      intro ipS
      split <;> exact handled_ok _

theorem handled_listEntry (entries : List (MapEntry Address)) (e : Str × Ptree) :
    Handled (listEntry env entries e) := by
  unfold listEntry
  split
  · exact handled_ok _
  · extract_lets
    split
    · exact handled_ok _
    · rename_i hg
      simp only [Bool.or_eq_true, not_or, Bool.not_eq_true] at hg
      obtain ⟨⟨⟨⟨⟨⟨hext, hint⟩, hcli⟩, hena⟩, hlea⟩, hdes⟩, hpro⟩ := hg
      refine handled_deref hpro ?_
      intro pro
      split
      · exact handled_ok _
      · exact handled_deref hdes fun _ => handled_deref hext fun _ => handled_deref hint fun _ =>
          handled_deref hlea fun _ => handled_deref hcli fun _ => handled_deref hena fun _ =>
            handled_ok _

theorem handled_list : Handled (decodeListOfPortMappings env b) := by
  unfold decodeListOfPortMappings
  split
  · exact handled_ok _
  · extract_lets
    split
    · exact handled_ok _
    · rename_i h1
      refine handled_deref (by simpa only [Bool.not_eq_true] using h1) ?_
      intro s
      extract_lets
      split
      · exact handled_ok _
      · rename_i h2
        refine handled_deref (by simpa only [Bool.not_eq_true] using h2) ?_
        intro t
        extract_lets
        split
        · exact handled_ok _
        · rename_i h3
          refine handled_deref (by simpa only [Bool.not_eq_true] using h3) ?_
          intro list
          exact Handled.bind (Handled.foldlM (handled_listEntry env) _ _) fun _ => handled_ok _

/-- What `get_generic_port_mapping_entry` does with the element it looks for. -/
theorem handled_generic_iff : Handled (decodeGenericPortMappingEntry env b) ↔
    ∀ t, env.readXml b = some t → t.HasEntry := by
  unfold decodeGenericPortMappingEntry
  rcases hx : env.readXml b with _ | t
  · exact iff_of_true (handled_ok _) nofun
  · simp only [Option.some.injEq, forall_eq', ← Ptree.getChild_entry]
    rcases hc : t.getChild
      "*:Envelope.*:Body.u:GetGenericPortMappingEntryResponse".toList with _ | o
    · exact iff_of_false (by rintro ⟨a, ha⟩; cases ha) (by rintro ⟨_, he⟩; cases he)
    · refine iff_of_true ?_ ⟨o, rfl⟩
      refine handled_deref rfl ?_
      intro o
      extract_lets
      split
      · exact handled_ok _
      · rename_i hg
        simp only [Bool.or_eq_true, not_or, Bool.not_eq_true] at hg
        obtain ⟨⟨⟨⟨⟨⟨hext, hint⟩, hcli⟩, hena⟩, hdur⟩, hdes⟩, hpro⟩ := hg
        refine handled_deref hpro ?_
        intro pro
        split
        · exact handled_ok _
        · exact handled_deref hdes fun _ => handled_deref hext fun _ => handled_deref hint fun _ =>
            handled_deref hdur fun _ => handled_deref hcli fun _ => handled_deref hena fun _ =>
              handled_ok _

/-! ## Whole operations -/

variable {env b}

theorem soapRequest_answered {net : Net Address} {g : Igd}
    (he : ∃ r, consumeEndpoint env.makeAddress g.url.hostAndPort = some r)
    (hnet : ∀ ep rq, net ep rq = .response ⟨200, b⟩) (command message : Str) :
    g.soapRequest env net command message = .ok ⟨200, b⟩ := by
  obtain ⟨⟨ep, r⟩, he⟩ := he
  simp only [soapRequest, he, hnet, if_true]

/-- **A gateway can answer with any body `b`: two of the operations always end in
    a value or an error, the third one exactly if `b` is not XML or has the
    element of a port mapping entry.** -/
theorem operations_handled_iff {net : Net Address} {g : Igd}
    (he : ∃ r, consumeEndpoint env.makeAddress g.url.hostAndPort = some r)
    (hnet : ∀ ep rq, net ep rq = .response ⟨200, b⟩) :
    Handled (g.getExternalAddress env net) ∧
    (∀ proto minPort maxPort maxCount,
      Handled (g.getListOfPortMappings env net proto minPort maxPort maxCount)) ∧
    ∀ index, Handled (g.getGenericPortMappingEntry env net index) ↔
      ∀ t, env.readXml b = some t → t.HasEntry := by
  simp only [getExternalAddress, getGenericPortMappingEntry, getListOfPortMappings,
    soapRequest_answered he hnet]
  exact ⟨handled_external env b, fun _ _ _ _ => handled_list env b,
    fun _ => handled_generic_iff env b⟩

/-- A gateway at `192.168.0.1:5000`. -/
def localGateway : Igd where
  uuid := []
  upnpDevice := ⟨[], [], [], [], []⟩
  serviceId := []
  url := Url.parseLocal ⟨1, Int.one_pos⟩ "http://192.168.0.1:5000/".toList
  urn := "urn:schemas-upnp-org:service:WANIPConnection:1".toList

/-- The documents are `<a/>`, and one with the element of an entry behind a header. -/
def entryOrNot : Env Unit := .oneHost fun s =>
  if s = "<a/>".toList then some ⟨[], [("a".toList, ⟨[], []⟩)]⟩
  else if s = "entry".toList then
    some ⟨[], [("s:Envelope".toList, ⟨[], [("s:Header".toList, ⟨[], []⟩),
      ("s:Body".toList, ⟨[], [("u:GetGenericPortMappingEntryResponse".toList, ⟨[], []⟩)]⟩)]⟩)]⟩
  else none

theorem operations_handled_entry :
    let net : Net Unit := fun _ _ => .response ⟨200, "entry".toList⟩
    Handled (localGateway.getExternalAddress entryOrNot net) ∧
    (∀ proto minPort maxPort maxCount, Handled
      (localGateway.getListOfPortMappings entryOrNot net proto minPort maxPort maxCount)) ∧
    ∀ index, Handled (localGateway.getGenericPortMappingEntry entryOrNot net index) := by
  intro net
  have hall : Handled (localGateway.getExternalAddress entryOrNot net) ∧ _ ∧ _ :=
    operations_handled_iff ⟨(⟨(), 5000⟩, []), rfl⟩ fun _ _ => rfl
  refine ⟨hall.1, hall.2.1, fun index => (hall.2.2 index).2 fun t ht => ?_⟩
  cases ht
  exact ⟨_, _, _, ⟨[], _, [], rfl, by decide, List.forall_mem_nil _⟩,
    ⟨[("s:Header".toList, ⟨[], []⟩)], _, [], rfl, by decide, by decide⟩,
    ⟨[], _, [], rfl, rfl, List.forall_mem_nil _⟩⟩

/-- `<a/>` is XML, but there is no envelope in it: the null pointer is
    dereferenced. -/
theorem envelope_missing :
    localGateway.getGenericPortMappingEntry entryOrNot
      (fun _ _ => .response ⟨200, "<a/>".toList⟩) 0 = .error .nullDereference ∧
    ¬ Handled (localGateway.getGenericPortMappingEntry entryOrNot
      (fun _ _ => .response ⟨200, "<a/>".toList⟩) 0) := by
  have hc : (⟨[], [("a".toList, ⟨[], []⟩)]⟩ : Ptree).getChild
      "*:Envelope.*:Body.u:GetGenericPortMappingEntryResponse".toList = none := by
    rw [Ptree.getChild_cut Ptree.consumeUntil_entryPath]
    rfl
  have hx : entryOrNot.readXml "<a/>".toList = some ⟨[], [("a".toList, ⟨[], []⟩)]⟩ := rfl
  have he : localGateway.getGenericPortMappingEntry entryOrNot
      (fun _ _ => .response ⟨200, "<a/>".toList⟩) 0 = .error .nullDereference := by
    rw [getGenericPortMappingEntry, soapRequest_answered ⟨(⟨(), 5000⟩, []), rfl⟩ fun _ _ => rfl]
    simp only [decodeGenericPortMappingEntry, hx, hc]
    rfl
  refine ⟨he, ?_⟩
  rw [he]
  rintro ⟨a, ha⟩
  cases ha

end Igd

end Upnp
