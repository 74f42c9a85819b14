/-
  The two decoders of a port mapping against each other.

  `get_generic_port_mapping_entry` and `get_list_of_port_mappings` read the same
  seven fields, under tags of their own.  Both come down to `readMapping`, but for
  the protocol: the first takes it in letters of either case, the second does not.

  * `getGenericPortMappingEntry_fields`, `getListOfPortMappings_fields`: what each
    operation makes of the fields;
  * `decoders_agree_iff`: both return the same mapping, or both none, unless the
    protocol is the only difference;
  * `readMapping_same_iff`: two elements are read as the same mapping exactly if each
    field is the same.
-/
import Upnp.Listing
import Upnp.TreePath

namespace Upnp

open Lib

/-! ## The fields -/

/-- The fields of a port mapping. -/
inductive MappingField where
  | description | externalPort | internalPort | client | enabled | lease | protocol
  deriving DecidableEq, Repr

/-- The tags of `get_generic_port_mapping_entry`. -/
def genericTag : MappingField → Str
  | .description => "NewPortMappingDescription".toList
  | .externalPort => "NewExternalPort".toList
  | .internalPort => "NewInternalPort".toList
  | .client => "NewInternalClient".toList
  | .enabled => "NewEnabled".toList
  | .lease => "NewLeaseDuration".toList
  | .protocol => "NewProtocol".toList

/-- The tags of `get_list_of_port_mappings`. -/
def listTag : MappingField → Str
  | .description => "p:NewDescription".toList
  | .externalPort => "p:NewExternalPort".toList
  | .internalPort => "p:NewInternalPort".toList
  | .client => "p:NewInternalClient".toList
  | .enabled => "p:NewEnabled".toList
  | .lease => "p:NewLeaseTime".toList
  | .protocol => "p:NewProtocol".toList

/-- The text of each field, if it is there. -/
abbrev FieldTexts := MappingField → Option Str

/-- The element `t` has the texts `f`, under these tags. -/
def Ptree.Places (t : Ptree) (tag : MappingField → Str) (f : FieldTexts) : Prop :=
  ∀ x, t.getOptional (tag x) = f x

/-- An element with these texts and nothing else. -/
def FieldTexts.xml (tag : MappingField → Str) (f : FieldTexts) : Ptree :=
  ⟨[], [.description, .externalPort, .internalPort, .client, .enabled, .lease, .protocol].filterMap
    fun x => (f x).map (Ptree.leaf (tag x))⟩

section
variable {Address : Type} (env : Env Address)

/-- The number of a field. -/
def FieldTexts.num (f : FieldTexts) (bits : ℕ) (x : MappingField) : Option ℕ :=
  (f x).bind fun s => (consumeNumber bits s).map (·.1)

/-- All of a mapping but its protocol. -/
def readRest (f : FieldTexts) : Option (Protocol → MapEntry Address) := do
  let des ← f .description
  let ext ← f.num 16 .externalPort
  let int ← f.num 16 .internalPort
  let cli ← (f .client).bind env.makeAddress
  let ena ← f.num 16 .enabled
  let lea ← f.num 32 .lease
  some fun proto => ⟨des, ext, int, lea, proto, cli, ena ≠ 0⟩

/-- A mapping whose protocol is read by `protocol`. -/
def readMapping (protocol : Str → Option Protocol) (f : FieldTexts) :
    Option (MapEntry Address) := do
  let entry ← readRest env f
  let pro ← f .protocol
  let proto ← protocol pro
  some (entry proto)

/-- All of the fields but the protocol can be read. -/
structure Usable (f : FieldTexts) : Prop where
  description : f .description ≠ none
  externalPort : f.num 16 .externalPort ≠ none
  internalPort : f.num 16 .internalPort ≠ none
  client : (f .client).bind env.makeAddress ≠ none
  enabled : f.num 16 .enabled ≠ none
  lease : f.num 32 .lease ≠ none

theorem readRest_eq_none {f : FieldTexts} : readRest env f = none ↔ ¬ Usable env f := by
  unfold readRest
  constructor
  · intro h hu
    obtain ⟨des, hdes⟩ := Option.ne_none_iff_exists'.1 hu.description
    obtain ⟨ext, hext⟩ := Option.ne_none_iff_exists'.1 hu.externalPort
    obtain ⟨int, hint⟩ := Option.ne_none_iff_exists'.1 hu.internalPort
    obtain ⟨cli, hcli⟩ := Option.ne_none_iff_exists'.1 hu.client
    obtain ⟨ena, hena⟩ := Option.ne_none_iff_exists'.1 hu.enabled
    obtain ⟨lea, hlea⟩ := Option.ne_none_iff_exists'.1 hu.lease
    simp only [hdes, hext, hint, hcli, hena, hlea, bind, Option.bind_some, reduceCtorEq] at h
  · intro hu
    by_contra hne
    obtain ⟨entry, h⟩ := Option.ne_none_iff_exists'.1 hne
    simp only [Option.bind_eq_bind, Option.bind_eq_some_iff] at h
    obtain ⟨des, hdes, ext, hext, int, hint, cli, hcli, ena, hena, lea, hlea, -⟩ := h
    refine hu ⟨?_, ?_, ?_, ?_, ?_, ?_⟩
    · exact Option.ne_none_iff_exists'.2 ⟨des, hdes⟩
    · exact Option.ne_none_iff_exists'.2 ⟨ext, hext⟩
    · exact Option.ne_none_iff_exists'.2 ⟨int, hint⟩
    · exact Option.ne_none_iff_exists'.2 ⟨cli, Option.bind_eq_some_iff.2 hcli⟩
    · exact Option.ne_none_iff_exists'.2 ⟨ena, hena⟩
    · exact Option.ne_none_iff_exists'.2 ⟨lea, hlea⟩

theorem Ptree.Places.getNum {t : Ptree} {tag : MappingField → Str} {f : FieldTexts}
    (h : t.Places tag f) (bits : ℕ) (x : MappingField) :
    t.getNum bits (tag x) = f.num bits x := by
  rw [Ptree.getNum, h x, FieldTexts.num]

theorem Ptree.Places.getAddress {t : Ptree} {tag : MappingField → Str} {f : FieldTexts}
    (h : t.Places tag f) (x : MappingField) :
    t.getAddress env.makeAddress (tag x) = (f x).bind env.makeAddress := by
  rw [Ptree.getAddress, h x]

/-! ## The two operations -/

/-- **A listed entry is read from its fields.** -/
theorem entryOf_fields {child : Ptree} {f : FieldTexts} (h : child.Places listTag f) :
    entryOf env child = readMapping env Igd.listProtocol f := by
  have hext : child.getNum 16 "p:NewExternalPort".toList = _ := h.getNum 16 .externalPort
  have hint : child.getNum 16 "p:NewInternalPort".toList = _ := h.getNum 16 .internalPort
  have hcli : child.getAddress env.makeAddress "p:NewInternalClient".toList = _ :=
    h.getAddress env .client
  have hena : child.getNum 16 "p:NewEnabled".toList = _ := h.getNum 16 .enabled
  have hlea : child.getNum 32 "p:NewLeaseTime".toList = _ := h.getNum 32 .lease
  have hdes : child.getOptional "p:NewDescription".toList = _ := h .description
  have hpro : child.getOptional "p:NewProtocol".toList = _ := h .protocol
  rw [entryOf, readMapping, readRest, hext, hint, hcli, hena, hlea, hdes, hpro]
  -- the fields are looked at in another order
  rcases f .description with _ | des <;> rcases f.num 16 .externalPort with _ | ext <;>
    rcases f.num 16 .internalPort with _ | int <;>
    rcases (f .client).bind env.makeAddress with _ | cli <;>
    rcases f.num 16 .enabled with _ | ena <;> rcases f.num 32 .lease with _ | lea <;> rfl

/-- **The generic entry is read from its fields.** -/
theorem decodeGenericPortMappingEntry_fields {b : Str} {xmlRs o : Ptree} {f : FieldTexts}
    (hx : env.readXml b = some xmlRs)
    (ho : xmlRs.getChild "*:Envelope.*:Body.u:GetGenericPortMappingEntryResponse".toList = some o)
    (h : o.Places genericTag f) : Igd.decodeGenericPortMappingEntry env b =
      .ok (match readMapping env Igd.genericProtocol f with
        | some entry => .ok entry
        | none => .error .invalidResponse) := by
  have hext : o.getNum 16 "NewExternalPort".toList = _ := h.getNum 16 .externalPort
  have hint : o.getNum 16 "NewInternalPort".toList = _ := h.getNum 16 .internalPort
  have hcli : o.getAddress env.makeAddress "NewInternalClient".toList = _ :=
    h.getAddress env .client
  have hena : o.getNum 16 "NewEnabled".toList = _ := h.getNum 16 .enabled
  have hdur : o.getNum 32 "NewLeaseDuration".toList = _ := h.getNum 32 .lease
  have hdes : o.getOptional "NewPortMappingDescription".toList = _ := h .description
  have hpro : o.getOptional "NewProtocol".toList = _ := h .protocol
  simp only [Igd.decodeGenericPortMappingEntry, hx, ho, deref, bind, Except.bind, hext, hint, hcli,
    hena, hdur, hdes, hpro, readMapping, readRest]
  rcases f .description with _ | des
  · simp
  rcases f.num 16 .externalPort with _ | ext
  · simp
  rcases f.num 16 .internalPort with _ | int
  · simp
  rcases (f .client).bind env.makeAddress with _ | cli
  · simp
  rcases f.num 16 .enabled with _ | ena
  · simp
  rcases f.num 32 .lease with _ | lea
  · simp
  rcases f .protocol with _ | pro
  · simp
  simp only [Option.isNone_some, Bool.or_self, Bool.false_eq_true, if_false, Option.bind_some]
  rcases Igd.genericProtocol pro with _ | proto <;> rfl

/-- The gateway answers `get_generic_port_mapping_entry(index)` with the element `o`. -/
def GenericAnswer (net : Net Address) (g : Igd) (index : ℕ) (o : Ptree) : Prop :=
  ∃ rs xmlRs, g.soapRequest env net "GetGenericPortMappingEntry".toList
      (Igd.getGenericPortMappingEntryBody g.urn index) = .ok rs ∧
    env.readXml rs.body = some xmlRs ∧
    xmlRs.getChild "*:Envelope.*:Body.u:GetGenericPortMappingEntryResponse".toList = some o

/-- The gateway answers `get_list_of_port_mappings` with a list whose only entry is
    `child`. -/
def ListAnswer (net : Net Address) (g : Igd) (proto : Protocol) (minPort maxPort maxCount : ℕ)
    (child : Ptree) : Prop :=
  ∃ rs xmlRs s t list, g.soapRequest env net "GetListOfPortMappings".toList
      (Igd.getListOfPortMappingsBody g.urn proto minPort maxPort maxCount) = .ok rs ∧
    env.readXml rs.body = some xmlRs ∧
    xmlRs.getOptional
      "s:Envelope.s:Body.u:GetListOfPortMappingsResponse.NewPortListing".toList = some s ∧
    env.readXml s = some t ∧ t.getChildOptional "p:PortMappingList".toList = some list ∧
    list.children.filter (fun e => e.1 = "p:PortMappingEntry".toList) =
      [("p:PortMappingEntry".toList, child)]

variable {env} {net net' : Net Address} {g g' : Igd} {index minPort maxPort maxCount : ℕ}
  {proto : Protocol} {o child : Ptree} {f : FieldTexts}

theorem getGenericPortMappingEntry_fields (ha : GenericAnswer env net g index o)
    (h : o.Places genericTag f) : g.getGenericPortMappingEntry env net index =
      .ok (match readMapping env Igd.genericProtocol f with
        | some entry => .ok entry
        | none => .error .invalidResponse) := by
  obtain ⟨rs, xmlRs, hrs, hxml, ho⟩ := ha
  rw [Igd.getGenericPortMappingEntry, hrs]
  exact decodeGenericPortMappingEntry_fields env hxml ho h

theorem getListOfPortMappings_fields
    (ha : ListAnswer env net g proto minPort maxPort maxCount child)
    (h : child.Places listTag f) : g.getListOfPortMappings env net proto minPort maxPort maxCount =
      .ok (.ok (readMapping env Igd.listProtocol f).toList) := by
  obtain ⟨rs, xmlRs, s, t, list, hrs, hxml, hs, ht, hlist, hone⟩ := ha
  have hlisting : listingOf env xmlRs = some list := by
    rw [listingOf, hs, Option.bind_some, ht, Option.bind_some, hlist]
  have hentries : entriesOf env list.children = (readMapping env Igd.listProtocol f).toList := by
    rw [entriesOf, ← flatMap_filter, hone, List.flatMap_singleton, entryOf_fields env h]
  rw [Igd.getListOfPortMappings, hrs]
  refine (decodeListOfPortMappings_eq env hxml).trans ?_
  simp only [hlisting, hentries]

/-! ## Agreement -/

/-- A protocol that only one of the two decoders knows. -/
def OtherCase (pro : Str) : Prop :=
  (iequals pro "UDP".toList ∨ iequals pro "TCP".toList) ∧ pro ≠ "UDP".toList ∧ pro ≠ "TCP".toList

theorem protocols_eq_iff (pro : Str) :
    Igd.genericProtocol pro = Igd.listProtocol pro ↔ ¬ OtherCase pro := by
  unfold OtherCase Igd.genericProtocol Igd.listProtocol
  by_cases hudp : pro = "UDP".toList
  · subst hudp
    decide
  by_cases htcp : pro = "TCP".toList
  · subst htcp
    decide
  simp only [hudp, htcp, if_false, ne_eq, not_false_eq_true, and_self, and_true]
  generalize iequals pro "UDP".toList = udp
  generalize iequals pro "TCP".toList = tcp
  cases udp <;> cases tcp <;> simp

/-- **What is read only depends on the protocol, once the other fields are usable.** -/
theorem readMapping_eq_iff {p q : Str → Option Protocol} :
    readMapping env p f = readMapping env q f ↔
      ∀ pro, Usable env f → f .protocol = some pro → p pro = q pro := by
  unfold readMapping
  rcases hrest : readRest env f with _ | entry
  · refine iff_of_true rfl ?_
    intro pro hu
    exact absurd hu ((readRest_eq_none env).1 hrest)
  · have hu : Usable env f := by
      by_contra hnot
      rw [(readRest_eq_none env).2 hnot] at hrest
      cases hrest
    -- the protocol can be seen in the mapping
    have hinj : Function.Injective entry := by
      unfold readRest at hrest
      simp only [Option.bind_eq_bind, Option.bind_eq_some_iff, Option.some.injEq] at hrest
      obtain ⟨des, -, ext, -, int, -, cli, -, ena, -, lea, -, rfl⟩ := hrest
      intro x y hxy
      exact (MapEntry.mk.inj hxy).2.2.2.2.1
    rcases hpro : f .protocol with _ | pro
    · simp
    · have hmap : ∀ r : Option Protocol, (r.bind fun proto => some (entry proto)) =
          r.map entry := fun r => by cases r <;> rfl
      simp only [Option.bind_eq_bind, Option.bind_some, hmap, (Option.map_injective hinj).eq_iff,
        hu, true_implies, Option.some.injEq, forall_eq']

/-- The two results agree: a mapping from one is the only mapping from the other;
    else the first is an error and the second is empty. -/
def DecodersAgree (generic : Except Fault (Except GetMappingsError (MapEntry Address)))
    (list : Except Fault (Except GetMappingsError (List (MapEntry Address)))) : Prop :=
  (∀ e, generic = .ok (.ok e) ↔ list = .ok (.ok [e])) ∧
  ((∀ e, generic ≠ .ok (.ok e)) → generic = .ok (.error .invalidResponse) ∧ list = .ok (.ok []))

theorem decodersAgree_iff (x y : Option (MapEntry Address)) :
    DecodersAgree (.ok (match x with
        | some entry => .ok entry
        | none => .error .invalidResponse)) (.ok (.ok y.toList)) ↔ x = y := by
  unfold DecodersAgree
  rcases x with _ | a <;> rcases y with _ | b
  · simp
  · simp
  · simp
  · simp [eq_comm]

/-- **The two decoders of a port mapping agree, unless all other fields are usable
    and the protocol is `TCP` or `UDP` in other letters.** -/
theorem decoders_agree_iff (hg : GenericAnswer env net g index o)
    (hl : ListAnswer env net' g' proto minPort maxPort maxCount child)
    (ho : o.Places genericTag f) (hc : child.Places listTag f) :
    DecodersAgree (g.getGenericPortMappingEntry env net index)
      (g'.getListOfPortMappings env net' proto minPort maxPort maxCount) ↔
    ¬ (Usable env f ∧ ∃ pro, f .protocol = some pro ∧ OtherCase pro) := by
  rw [getGenericPortMappingEntry_fields hg ho, getListOfPortMappings_fields hl hc,
    decodersAgree_iff, readMapping_eq_iff]
  simp only [protocols_eq_iff]
  push Not
  exact ⟨fun h hu pro hpro => h pro hu hpro, fun h pro hu hpro => h hu pro hpro⟩

end

/-! ## Equal mappings -/

section
variable {Address : Type} (env : Env Address) (protocol : Str → Option Protocol)

/-- All fields can be read, and the protocol by `protocol`. -/
structure HoldsMapping (f : FieldTexts) : Prop where
  usable : Usable env f
  protocol : (f .protocol).bind protocol ≠ none

/-- What stands in each field is the same. -/
structure SameFields (f f' : FieldTexts) : Prop where
  description : f .description = f' .description
  externalPort : f.num 16 .externalPort = f'.num 16 .externalPort
  internalPort : f.num 16 .internalPort = f'.num 16 .internalPort
  client : (f .client).bind env.makeAddress = (f' .client).bind env.makeAddress
  enabled : f.num 16 .enabled = some 0 ↔ f'.num 16 .enabled = some 0
  lease : f.num 32 .lease = f'.num 32 .lease
  protocol : (f .protocol).bind protocol = (f' .protocol).bind protocol

variable {env protocol} {f f' : FieldTexts} {m m' : MapEntry Address}

theorem readMapping_eq_some : readMapping env protocol f = some m ↔
    f .description = some m.description ∧ f.num 16 .externalPort = some m.extPort ∧
    f.num 16 .internalPort = some m.intPort ∧
    (f .client).bind env.makeAddress = some m.intClient ∧
    (∃ ena, f.num 16 .enabled = some ena ∧ decide (ena ≠ 0) = m.enabled) ∧
    f.num 32 .lease = some m.leaseDuration ∧ (f .protocol).bind protocol = some m.proto := by
  obtain ⟨des, ext, int, lea, proto, cli, ena⟩ := m
  unfold readMapping readRest
  rcases f .description with _ | des' <;> rcases f.num 16 .externalPort with _ | ext' <;>
    rcases f.num 16 .internalPort with _ | int' <;>
    rcases (f .client).bind env.makeAddress with _ | cli' <;>
    rcases f.num 16 .enabled with _ | ena' <;> rcases f.num 32 .lease with _ | lea' <;>
    simp only [bind, Option.bind_none, Option.bind_some, reduceCtorEq, false_and, and_false,
      exists_false]
  rcases f .protocol with _ | pro
  · simp
  · rcases hp : protocol pro with _ | proto'
    · simp [hp]
    · simp only [hp, Option.bind_some, Option.some.injEq, MapEntry.mk.injEq,
        exists_eq_left']
      -- the same equations, in the order of the fields
      tauto

theorem readMapping_eq_none :
    readMapping env protocol f = none ↔ ¬ HoldsMapping env protocol f := by
  have hholds : HoldsMapping env protocol f ↔ Usable env f ∧ (f .protocol).bind protocol ≠ none :=
    ⟨fun h => ⟨h.usable, h.protocol⟩, fun h => ⟨h.1, h.2⟩⟩
  have hmapping : readMapping env protocol f = (readRest env f).bind fun entry =>
      ((f .protocol).bind protocol).map entry := by
    unfold readMapping
    rcases readRest env f with _ | entry <;> rcases f .protocol with _ | pro <;> try rfl
    rcases h : protocol pro with _ | proto <;> simp [h]
  rw [hholds, hmapping]
  rcases hrest : readRest env f with _ | entry
  · exact iff_of_true rfl fun h => (readRest_eq_none env).1 hrest h.1
  · have hu : Usable env f := by
      by_contra hnot
      rw [(readRest_eq_none env).2 hnot] at hrest
      cases hrest
    simp [hu]

theorem holdsMapping_iff : HoldsMapping env protocol f ↔ readMapping env protocol f ≠ none := by
  rw [ne_eq, readMapping_eq_none, not_not]

instance : Decidable (HoldsMapping env protocol f) := decidable_of_iff _ holdsMapping_iff.symm

/-- Two mappings are the same exactly if their fields are. -/
theorem sameFields_iff (h : readMapping env protocol f = some m)
    (h' : readMapping env protocol f' = some m') : SameFields env protocol f f' ↔ m = m' := by
  obtain ⟨hdes, hext, hint, hcli, ⟨ena, hena, henabled⟩, hlea, hpro⟩ := readMapping_eq_some.1 h
  obtain ⟨hdes', hext', hint', hcli', ⟨ena', hena', henabled'⟩, hlea', hpro'⟩ :=
    readMapping_eq_some.1 h'
  have hzero : (f.num 16 .enabled = some 0 ↔ f'.num 16 .enabled = some 0) ↔
      m.enabled = m'.enabled := by
    rw [hena, hena', Option.some.injEq, Option.some.injEq, ← henabled, ← henabled',
      decide_eq_decide, not_iff_not]
  constructor
  · rintro ⟨sdes, sext, sint, scli, sena, slea, spro⟩
    rw [hdes, hdes', Option.some.injEq] at sdes
    rw [hext, hext', Option.some.injEq] at sext
    rw [hint, hint', Option.some.injEq] at sint
    rw [hcli, hcli', Option.some.injEq] at scli
    rw [hlea, hlea', Option.some.injEq] at slea
    rw [hpro, hpro', Option.some.injEq] at spro
    have sena := hzero.1 sena
    cases m
    cases m'
    rw [MapEntry.mk.injEq]
    exact ⟨sdes, sext, sint, slea, spro, scli, sena⟩
  · rintro rfl
    exact ⟨hdes.trans hdes'.symm, hext.trans hext'.symm, hint.trans hint'.symm,
      hcli.trans hcli'.symm, hzero.2 rfl, hlea.trans hlea'.symm, hpro.trans hpro'.symm⟩

/-- Two mappings that are the same, or none twice. -/
def SameMapping (env : Env Address) (protocol : Str → Option Protocol) (f f' : FieldTexts) :
    Prop :=
  (HoldsMapping env protocol f ∧ HoldsMapping env protocol f' ∧ SameFields env protocol f f') ∨
    ¬ HoldsMapping env protocol f ∧ ¬ HoldsMapping env protocol f'

/-- **What is read from two elements is the same exactly if the fields of both can be
    read and are the same, or those of neither can be read.** -/
theorem readMapping_same_iff : readMapping env protocol f = readMapping env protocol f' ↔
    SameMapping env protocol f f' := by
  rw [SameMapping, holdsMapping_iff, holdsMapping_iff]
  rcases h : readMapping env protocol f with _ | m <;>
    rcases h' : readMapping env protocol f' with _ | m'
  · simp
  · simp
  · simp
  · simp [sameFields_iff h h']

end

/-! ## A mapping in both answers -/

/-- The first of a list of elements with a tag, among those of the fields. -/
theorem find?_fields {tag : MappingField → Str} (htag : Function.Injective tag) (f : FieldTexts)
    (x : MappingField) {xs : List MappingField} (hxs : xs.Nodup) :
    ((xs.filterMap fun y => (f y).map (Ptree.leaf (tag y))).find? fun e => e.1 = tag x).map
      (·.2.data) = if x ∈ xs then f x else none := by
  induction xs with
  | nil => rfl
  | cons y xs ih =>
    obtain ⟨hy, hxs⟩ := List.nodup_cons.1 hxs
    have ih := ih hxs
    by_cases hxy : x = y
    · subst hxy
      rw [if_neg hy] at ih
      rw [if_pos List.mem_cons_self]
      rcases hf : f x with _ | s
      · rw [List.filterMap_cons_none (by rw [hf]; rfl), ih]
      · rw [List.filterMap_cons_some (by rw [hf]; rfl),
          List.find?_cons_of_pos (by simp [Ptree.leaf])]
        rfl
    · have hmem : x ∈ y :: xs ↔ x ∈ xs := by simp [hxy]
      simp only [hmem, ← ih]
      rcases hf : f y with _ | s
      · rw [List.filterMap_cons_none (by rw [hf]; rfl)]
      · rw [List.filterMap_cons_some (by rw [hf]; rfl), List.find?_cons_of_neg]
        exact decide_eq_true_iff.not.2 fun h => hxy (htag h).symm

/-- **Any texts can be placed in an element.** -/
theorem places_xml {tag : MappingField → Str} (htag : Function.Injective tag)
    (hname : ∀ x, tag x ≠ [] ∧ '.' ∉ tag x) (f : FieldTexts) : (f.xml tag).Places tag f := by
  intro x
  rw [Ptree.getOptional_name (hname x).1 (hname x).2]
  refine (find?_fields htag f x (by decide)).trans (if_pos ?_)
  cases x <;> decide

theorem genericTag_name : Function.Injective genericTag ∧ ∀ x, genericTag x ≠ [] ∧
    '.' ∉ genericTag x := by
  refine ⟨?_, fun x => by cases x <;> decide⟩
  intro x y
  cases x <;> cases y <;> first | exact fun _ => rfl | exact fun h => absurd h (by decide)

theorem listTag_name : Function.Injective listTag ∧ ∀ x, listTag x ≠ [] ∧ '.' ∉ listTag x := by
  refine ⟨?_, fun x => by cases x <;> decide⟩
  intro x y
  cases x <;> cases y <;> first | exact fun _ => rfl | exact fun h => absurd h (by decide)

/-- A mapping with this protocol. -/
def sshTexts (pro : Str) : FieldTexts
  | .description => some "ssh".toList
  | .externalPort => some "2222".toList
  | .internalPort => some "22".toList
  | .client => some "192.168.0.1".toList
  | .enabled => some "1".toList
  | .lease => some "3600".toList
  | .protocol => some pro

/-- The mapping as a generic entry, and in a list. -/
def sshEnv (pro : Str) : Env Unit := .oneHost fun s =>
  if s = "generic".toList then
    some (.only "s:Envelope".toList <| .only "s:Body".toList <|
      .only "u:GetGenericPortMappingEntryResponse".toList ((sshTexts pro).xml genericTag))
  else if s = "list".toList then
    some (.only "s:Envelope".toList <| .only "s:Body".toList <|
      .only "u:GetListOfPortMappingsResponse".toList <| .only "NewPortListing".toList
        ⟨"listing".toList, []⟩)
  else if s = "listing".toList then
    some (.only "p:PortMappingList".toList <|
      .only "p:PortMappingEntry".toList ((sshTexts pro).xml listTag))
  else none

theorem Ptree.pick_only {p tag : Str} {t : Ptree} (h : picks p (tag, t) = true) :
    (Ptree.only tag t).pick p = some t := by
  rw [← pickAt_node, pickAt_eq, Ptree.only, firstHit, h]
  rfl

theorem Ptree.getChild_only {p tag rest : Str} {t : Ptree} (hdot : '.' ∉ p)
    (h : picks p (tag, t) = true) :
    (Ptree.only tag t).getChild (p ++ '.' :: rest) = t.getChild rest := by
  rw [getChild_dot hdot, pick_only h, Option.bind_some]

theorem genericAnswer_ssh (pro : Str) : GenericAnswer (sshEnv pro)
    (fun _ _ => .response ⟨200, "generic".toList⟩) Igd.localGateway 0
    ((sshTexts pro).xml genericTag) := by
  refine ⟨_, _, Igd.soapRequest_answered ⟨(⟨(), 5000⟩, []), rfl⟩ (fun _ _ => rfl) _ _, rfl, ?_⟩
  have hpath : "*:Envelope.*:Body.u:GetGenericPortMappingEntryResponse".toList =
      "*:Envelope".toList ++ '.' :: ("*:Body".toList ++
        '.' :: "u:GetGenericPortMappingEntryResponse".toList) := by decide
  rw [hpath, Ptree.getChild_only (by decide) rfl,
    Ptree.getChild_only (by decide) rfl,
    Ptree.getChild_name (by decide) (by decide)]
  exact Ptree.pick_only rfl

theorem listAnswer_ssh (pro : Str) : ListAnswer (sshEnv pro)
    (fun _ _ => .response ⟨200, "list".toList⟩) Igd.localGateway .tcp 0 65535 10
    ((sshTexts pro).xml listTag) := by
  have hpath : "s:Envelope.s:Body.u:GetListOfPortMappingsResponse.NewPortListing".toList =
      "s:Envelope".toList ++ '.' :: ("s:Body".toList ++
        '.' :: ("u:GetListOfPortMappingsResponse".toList ++ '.' :: "NewPortListing".toList)) := by
    decide
  refine ⟨_, _, "listing".toList, _, .only "p:PortMappingEntry".toList _,
    Igd.soapRequest_answered ⟨(⟨(), 5000⟩, []), rfl⟩ (fun _ _ => rfl) _ _, rfl, ?_, rfl,
    Ptree.getChildOptional_last (by decide) (by decide), ?_⟩
  · rw [hpath, Ptree.getOptional, Ptree.getChildOptional_only (by decide),
      Ptree.getChildOptional_only (by decide), Ptree.getChildOptional_only (by decide),
      Ptree.getChildOptional_last (by decide) (by decide), Option.map_some]
  · simp [Ptree.only]

theorem decoders_agree_ssh : DecodersAgree
    (Igd.localGateway.getGenericPortMappingEntry (sshEnv "TCP".toList)
      (fun _ _ => .response ⟨200, "generic".toList⟩) 0)
    (Igd.localGateway.getListOfPortMappings (sshEnv "TCP".toList)
      (fun _ _ => .response ⟨200, "list".toList⟩) .tcp 0 65535 10) := by
  refine (decoders_agree_iff (genericAnswer_ssh _) (listAnswer_ssh _)
    (places_xml genericTag_name.1 genericTag_name.2 _)
    (places_xml listTag_name.1 listTag_name.2 _)).2 ?_
  rintro ⟨-, pro, hpro, -, -, hne⟩
  cases hpro
  exact hne rfl

/-- A protocol in small letters is only known to the generic decoder. -/
theorem decoders_disagree_ssh : ¬ DecodersAgree
    (Igd.localGateway.getGenericPortMappingEntry (sshEnv "tcp".toList)
      (fun _ _ => .response ⟨200, "generic".toList⟩) 0)
    (Igd.localGateway.getListOfPortMappings (sshEnv "tcp".toList)
      (fun _ _ => .response ⟨200, "list".toList⟩) .tcp 0 65535 10) := by
  have hgeneric := getGenericPortMappingEntry_fields (genericAnswer_ssh "tcp".toList)
    (places_xml genericTag_name.1 genericTag_name.2 _)
  have hlist := getListOfPortMappings_fields (listAnswer_ssh "tcp".toList)
    (places_xml listTag_name.1 listTag_name.2 _)
  rw [hgeneric, hlist, decodersAgree_iff]
  decide +kernel

end Upnp
