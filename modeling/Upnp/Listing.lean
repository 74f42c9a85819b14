/-
  Reading back a list of port mappings (`igd::get_list_of_port_mappings`).

  * `consumeNumber_decimal`: a number is read back from its decimal text;
  * `listEntry_eq`: one round of the loop adds what `entryOf` reads, if anything;
  * `decodeListOfPortMappings_eq`: what is made of a response;
  * `entryOf_renders`, `entryOf_skipped`: what `entryOf` reads from an entry;
  * `getListOfPortMappings_lists`: the mappings of a listing are returned in their
    order, and nothing else is.
-/
import Upnp.Decode
import Upnp.Lib.Digits

namespace Upnp

open Lib

/-! ## Numbers -/

/-- The value of some digits, the last one first. -/
def valueOf : Str → ℕ
  | [] => 0
  | c :: ds => (c.toNat - '0'.toNat) + 10 * valueOf ds

/-- The value of one digit. -/
def digitOf (c : Char) : ℕ := c.toNat - '0'.toNat

theorem valueOf_eq (ds : Str) : valueOf ds = Nat.ofDigits 10 (ds.map digitOf) := by
  induction ds with
  | nil => rfl
  | cons c ds ih => rw [valueOf, List.map_cons, Nat.ofDigits_cons, ih, digitOf]

/-- The loop of `consume_number` adds up the digits modulo `2 ^ 64`. -/
theorem digitsValue_capped (max : ℕ) (ds : Str) (r m : ℕ) :
    digitsValue max ds r m = cappedSum (2 ^ 64) 10 max (ds.map digitOf) r m := by
  induction ds generalizing r m with
  | nil => rfl
  | cons c ds ih => simp only [digitsValue, List.map_cons, cappedSum, ih, digitOf]

/-- **No `uint64_t` wraps around in `consume_number`, as long as the value fits.** -/
theorem digitsValue_eq {max : ℕ} (hmax : max < 2 ^ 64) (ds : Str) {r m : ℕ}
    (h : r + m * valueOf ds ≤ max) :
    digitsValue max ds r (m % 2 ^ 64) = some (r + m * valueOf ds) := by
  rw [valueOf_eq] at h ⊢
  rw [digitsValue_capped, cappedSum_noWrap _ (by omega) (by omega), if_pos h]

theorem isDigit_decimal {n : ℕ} {c : Char} (h : c ∈ decimal n) : isDigit c = true :=
  Nat.isDigit_of_mem_toDigits (by omega) (by omega) h

theorem valueOf_decimal (n : ℕ) : valueOf (decimal n).reverse = n := by
  have hdigit : ∀ d < 10, (Nat.digitChar d).toNat - '0'.toNat = d := by decide
  induction n using Nat.strong_induction_on with
  | _ n ih =>
    rw [decimal, Nat.toDigits_eq_if (by omega)]
    split
    · rename_i hn
      simp only [List.reverse_singleton, valueOf, hdigit n hn, Nat.mul_zero, Nat.add_zero]
    · rw [List.reverse_append, List.reverse_singleton, List.singleton_append, valueOf,
        hdigit _ (Nat.mod_lt n (by omega)), ← decimal, ih _ (Nat.div_lt_self (by omega) (by omega))]
      omega

/-- **A number is read back from its decimal text.** -/
theorem consumeNumber_decimal {bits n : ℕ} (hb : bits ≤ 32) (hn : n < 2 ^ bits) :
    consumeNumber bits (decimal n) = some (n, []) := by
  have htake : (decimal n).takeWhile isDigit = decimal n :=
    List.takeWhile_eq_self_iff.2 fun c => isDigit_decimal
  have hmax : 2 ^ bits - 1 < 2 ^ 64 := by
    have := Nat.pow_le_pow_right (show 0 < 2 by omega) hb
    omega
  have hne : decimal n ≠ [] := Nat.toDigits_ne_nil
  have hfit : 0 + 1 * valueOf (decimal n).reverse ≤ 2 ^ bits - 1 := by
    rw [valueOf_decimal]
    omega
  have hval : digitsValue (2 ^ bits - 1) (decimal n).reverse 0 1 = some n := by
    have := digitsValue_eq hmax (decimal n).reverse hfit
    rwa [valueOf_decimal, Nat.zero_add, Nat.one_mul] at this
  simp only [consumeNumber, htake]
  rw [if_neg hne, hval, Option.map_some, List.drop_length]

/-- A text that does not begin with a digit is no number. -/
theorem consumeNumber_of_head {bits : ℕ} {s : Str}
    (h : ∀ c, s.head? = some c → isDigit c = false) : consumeNumber bits s = none := by
  have htake : s.takeWhile isDigit = [] := by
    rcases s with _ | ⟨c, s⟩
    · rfl
    · exact List.takeWhile_cons_of_neg (by simp [h c rfl])
  simp only [consumeNumber, htake, if_true]

/-! ## One entry -/

section
variable {Address : Type} (env : Env Address)

/-- The mapping of an entry, if it has all that is required of it. -/
def entryOf (child : Ptree) : Option (MapEntry Address) := do
  let ext ← child.getNum 16 "p:NewExternalPort".toList
  let int ← child.getNum 16 "p:NewInternalPort".toList
  let cli ← child.getAddress env.makeAddress "p:NewInternalClient".toList
  let ena ← child.getNum 16 "p:NewEnabled".toList
  let lea ← child.getNum 32 "p:NewLeaseTime".toList
  let des ← child.getOptional "p:NewDescription".toList
  let pro ← child.getOptional "p:NewProtocol".toList
  let proto ← Igd.listProtocol pro
  some ⟨des, ext, int, lea, proto, cli, ena ≠ 0⟩

/-- **One round of the loop adds the mapping of the entry, if there is one.** -/
theorem listEntry_eq (entries : List (MapEntry Address)) (name : Str) (child : Ptree) :
    Igd.listEntry env entries (name, child) = .ok (entries ++
      if name = "p:PortMappingEntry".toList then (entryOf env child).toList else []) := by
  by_cases hname : name = "p:PortMappingEntry".toList
  · rw [Igd.listEntry, if_neg (not_not.2 hname), if_pos hname, entryOf]
    dsimp only
    -- the code looks at all fields before it gives up on the entry
    generalize child.getNum 16 "p:NewExternalPort".toList = oext
    generalize child.getNum 16 "p:NewInternalPort".toList = oint
    generalize child.getAddress env.makeAddress "p:NewInternalClient".toList = ocli
    generalize child.getNum 16 "p:NewEnabled".toList = oena
    generalize child.getNum 32 "p:NewLeaseTime".toList = olea
    generalize child.getOptional "p:NewDescription".toList = odes
    generalize child.getOptional "p:NewProtocol".toList = opro
    have hskip : (.ok entries : Except Fault (List (MapEntry Address))) =
        .ok (entries ++ Option.toList none) := by
      rw [Option.toList_none, List.append_nil]
    rcases oext with _ | ext
    · exact hskip
    rcases oint with _ | int
    · exact hskip
    rcases ocli with _ | cli
    · exact hskip
    rcases oena with _ | ena
    · exact hskip
    rcases olea with _ | lea
    · exact hskip
    rcases odes with _ | des
    · exact hskip
    rcases opro with _ | pro
    · exact hskip
    simp only [Option.isNone_some, Bool.or_self, Bool.false_eq_true, if_false, deref, bind,
      Except.bind, Option.bind_some]
    rcases Igd.listProtocol pro with _ | proto
    · exact hskip
    · rfl
  · rw [Igd.listEntry, if_pos hname, if_neg hname, List.append_nil]

/-! ## The whole answer -/

/-- The mappings in some elements. -/
def entriesOf (es : List (Str × Ptree)) : List (MapEntry Address) :=
  es.flatMap fun e => if e.1 = "p:PortMappingEntry".toList then (entryOf env e.2).toList else []

theorem entriesOf_cons (name : Str) (child : Ptree) (es : List (Str × Ptree)) :
    entriesOf env ((name, child) :: es) =
      (if name = "p:PortMappingEntry".toList then (entryOf env child).toList else []) ++
        entriesOf env es :=
  List.flatMap_cons

/-- **The loop over a list adds what each entry holds.** -/
theorem foldlM_listEntry (es : List (Str × Ptree)) :
    es.foldlM (Igd.listEntry env) [] = .ok (entriesOf env es) := by
  obtain ⟨entries, hfold, heq⟩ := foldlM_collect (f := Igd.listEntry env) (m := id)
    (fun entries e => ⟨_, listEntry_eq env entries e.1 e.2, rfl⟩) es []
  rw [hfold]
  exact congrArg Except.ok heq

/-- The path of `get_list_of_port_mappings`. -/
abbrev listPath : Str :=
  "s:Envelope.s:Body.u:GetListOfPortMappingsResponse.NewPortListing".toList

/-- The element `p:PortMappingList` in the text that a response has. -/
def listingOf (t : Ptree) : Option Ptree :=
  ((t.getOptional listPath).bind env.readXml).bind fun l =>
    l.getChildOptional "p:PortMappingList".toList

/-- **What is made of a response**: the mappings in its listing, if it has one. -/
theorem decodeListOfPortMappings_eq {b : Str} {t : Ptree} (hx : env.readXml b = some t) :
    Igd.decodeListOfPortMappings env b = .ok (match listingOf env t with
      | some list => .ok (entriesOf env list.children)
      | none => .error .invalidResponse) := by
  simp only [Igd.decodeListOfPortMappings, hx, listingOf]
  rcases t.getOptional listPath with _ | s
  · rfl
  simp only [Option.isNone_some, Bool.false_eq_true, if_false, deref, bind, Except.bind,
    Option.bind_some]
  rcases env.readXml s with _ | l
  · rfl
  simp only [Option.isNone_some, Bool.false_eq_true, if_false, Option.bind_some]
  rcases l.getChildOptional "p:PortMappingList".toList with _ | list
  · rfl
  simp only [Option.isNone_some, Bool.false_eq_true, if_false, foldlM_listEntry]

/-! ## Listings -/

/-- The first element `tag` of `t` has this text. -/
def Ptree.Field (t : Ptree) (tag text : Str) : Prop :=
  ∃ e, t.children.find? (fun e => e.1 = tag) = some e ∧ e.2.data = text

/-- What a listing can say of a mapping. -/
structure Listable (m : MapEntry Address) : Prop where
  extPort : m.extPort < 2 ^ 16
  intPort : m.intPort < 2 ^ 16
  leaseDuration : m.leaseDuration < 2 ^ 32
  intClient : env.makeAddress (env.showAddress m.intClient) = some m.intClient

/-- The entry has the fields of the mapping, as they are printed. -/
structure Renders (m : MapEntry Address) (child : Ptree) : Prop where
  extPort : child.Field "p:NewExternalPort".toList (decimal m.extPort)
  intPort : child.Field "p:NewInternalPort".toList (decimal m.intPort)
  intClient : child.Field "p:NewInternalClient".toList (env.showAddress m.intClient)
  enabled : child.Field "p:NewEnabled".toList (decimal m.enabled.toNat)
  leaseDuration : child.Field "p:NewLeaseTime".toList (decimal m.leaseDuration)
  description : child.Field "p:NewDescription".toList m.description
  proto : child.Field "p:NewProtocol".toList m.proto.print

/-- The numbers of an entry. -/
def numberTags : List Str :=
  ["p:NewExternalPort".toList, "p:NewInternalPort".toList, "p:NewEnabled".toList,
    "p:NewLeaseTime".toList]

/-- All that is required of an entry. -/
def entryTags : List Str :=
  numberTags ++ ["p:NewInternalClient".toList, "p:NewDescription".toList, "p:NewProtocol".toList]

/-- An entry of which nothing is listed. -/
inductive Skipped (child : Ptree) : Prop where
  | missing (tag : Str) (hmem : tag ∈ entryTags) (h : ∀ e ∈ child.children, e.1 ≠ tag)
  | notNumber (tag text : Str) (hmem : tag ∈ numberTags) (hfield : child.Field tag text)
      (h : ∀ c, text.head? = some c → isDigit c = false)
  | otherProtocol (text : Str) (hfield : child.Field "p:NewProtocol".toList text)
      (htcp : text ≠ "TCP".toList) (hudp : text ≠ "UDP".toList)

/-- The children of a `p:PortMappingList` list these mappings. -/
inductive Lists : List (Str × Ptree) → List (MapEntry Address) → Prop where
  | nil : Lists [] []
  | entry {m child es ms} (hm : Listable env m) (h : Renders env m child) (hes : Lists es ms) :
      Lists (("p:PortMappingEntry".toList, child) :: es) (m :: ms)
  | skipped {child es ms} (h : Skipped child) (hes : Lists es ms) :
      Lists (("p:PortMappingEntry".toList, child) :: es) ms
  | other {name child es ms} (h : name ≠ "p:PortMappingEntry".toList) (hes : Lists es ms) :
      Lists ((name, child) :: es) ms

/-- An element with nothing but text in it. -/
def Ptree.leaf (tag text : Str) : Str × Ptree := (tag, ⟨text, []⟩)

/-- The entry of a mapping, as a device writes it. -/
def MapEntry.xml (showAddress : Address → Str) (m : MapEntry Address) : Ptree :=
  ⟨[],
    [Ptree.leaf "p:NewRemoteHost".toList [],
      Ptree.leaf "p:NewExternalPort".toList (decimal m.extPort),
      Ptree.leaf "p:NewProtocol".toList m.proto.print,
      Ptree.leaf "p:NewInternalPort".toList (decimal m.intPort),
      Ptree.leaf "p:NewInternalClient".toList (showAddress m.intClient),
      Ptree.leaf "p:NewEnabled".toList (decimal m.enabled.toNat),
      Ptree.leaf "p:NewDescription".toList m.description,
      Ptree.leaf "p:NewLeaseTime".toList (decimal m.leaseDuration)]⟩

variable {env}

theorem renders_xml (m : MapEntry Address) : Renders env m (m.xml env.showAddress) where
  extPort := ⟨_, rfl, rfl⟩
  intPort := ⟨_, rfl, rfl⟩
  intClient := ⟨_, rfl, rfl⟩
  enabled := ⟨_, rfl, rfl⟩
  leaseDuration := ⟨_, rfl, rfl⟩
  description := ⟨_, rfl, rfl⟩
  proto := ⟨_, rfl, rfl⟩

theorem entryTags_name : ∀ tag ∈ entryTags, tag ≠ [] ∧ '.' ∉ tag := by decide

theorem getOptional_entryTag {tag : Str} (hmem : tag ∈ entryTags) (t : Ptree) :
    t.getOptional tag = (t.children.find? fun e => e.1 = tag).map (·.2.data) := by
  obtain ⟨hne, hdot⟩ := entryTags_name tag hmem
  exact Ptree.getOptional_name hne hdot

theorem getOptional_field {t : Ptree} {tag text : Str} (hmem : tag ∈ entryTags)
    (h : t.Field tag text) : t.getOptional tag = some text := by
  obtain ⟨e, he, rfl⟩ := h
  rw [getOptional_entryTag hmem, he, Option.map_some]

theorem getNum_field {t : Ptree} {tag : Str} {bits n : ℕ} (hmem : tag ∈ entryTags)
    (h : t.Field tag (decimal n)) (hb : bits ≤ 32) (hn : n < 2 ^ bits) :
    t.getNum bits tag = some n := by
  rw [Ptree.getNum, getOptional_field hmem h, Option.bind_some, consumeNumber_decimal hb hn,
    Option.map_some]

theorem listProtocol_print (proto : Protocol) : Igd.listProtocol proto.print = some proto := by
  cases proto <;> decide

/-- **An entry is read back from its fields.** -/
theorem entryOf_renders {m : MapEntry Address} {child : Ptree} (hm : Listable env m)
    (h : Renders env m child) : entryOf env child = some m := by
  have hext := getNum_field (by decide) h.extPort (by omega) hm.extPort
  have hint := getNum_field (by decide) h.intPort (by omega) hm.intPort
  have hcli : child.getAddress env.makeAddress "p:NewInternalClient".toList = some m.intClient := by
    rw [Ptree.getAddress, getOptional_field (by decide) h.intClient, Option.bind_some, hm.intClient]
  have hena : child.getNum 16 "p:NewEnabled".toList = some m.enabled.toNat :=
    getNum_field (by decide) h.enabled (by omega)
      (Nat.lt_of_le_of_lt (Bool.toNat_le _) (by omega))
  have hlea := getNum_field (by decide) h.leaseDuration (by omega) hm.leaseDuration
  have hdes := getOptional_field (by decide) h.description
  have hpro := getOptional_field (by decide) h.proto
  rw [entryOf, hext, hint, hcli, hena, hlea, hdes, hpro]
  simp only [bind, Option.bind_some, listProtocol_print]
  cases m with | mk _ _ _ _ _ _ enabled => cases enabled <;> rfl

/-- **What an entry has that is listed.** -/
theorem entryOf_some {child : Ptree} {m : MapEntry Address} (h : entryOf env child = some m) :
    (∀ tag ∈ numberTags, ∃ bits n, child.getNum bits tag = some n) ∧
    (∃ a, child.getAddress env.makeAddress "p:NewInternalClient".toList = some a) ∧
    (∃ des, child.getOptional "p:NewDescription".toList = some des) ∧
    ∃ pro, child.getOptional "p:NewProtocol".toList = some pro ∧
      Igd.listProtocol pro = some m.proto := by
  simp only [entryOf, Option.bind_eq_bind, Option.bind_eq_some_iff] at h
  obtain ⟨ext, hext, int, hint, cli, hcli, ena, hena, lea, hlea, des, hdes, pro, hpro, proto,
    hproto, hm⟩ := h
  refine ⟨?_, ⟨cli, hcli⟩, ⟨des, hdes⟩, pro, hpro, ?_⟩
  · intro tag hmem
    simp only [numberTags, List.mem_cons, List.not_mem_nil, or_false] at hmem
    rcases hmem with rfl | rfl | rfl | rfl
    · exact ⟨16, ext, hext⟩
    · exact ⟨16, int, hint⟩
    · exact ⟨16, ena, hena⟩
    · exact ⟨32, lea, hlea⟩
  · cases hm
    exact hproto

/-- **An entry is not listed that lacks a field, a number or a protocol.** -/
theorem entryOf_skipped {child : Ptree} (h : Skipped child) : entryOf env child = none := by
  by_contra hne
  obtain ⟨m, hm⟩ := Option.ne_none_iff_exists'.1 hne
  obtain ⟨hnum, ⟨a, ha⟩, ⟨des, hdes⟩, pro, hpro, hproto⟩ := entryOf_some hm
  rcases h with ⟨tag, hmem, hnone⟩ | ⟨tag, text, hmem, hfield, hhead⟩ | ⟨text, hfield, htcp, hudp⟩
  · have hget : child.getOptional tag = none := by
      rw [getOptional_entryTag hmem, List.find?_eq_none.2 (by simpa using hnone), Option.map_none]
    rcases List.mem_append.1 hmem with hmem | hmem
    · obtain ⟨bits, n, hn⟩ := hnum tag hmem
      rw [Ptree.getNum, hget] at hn
      cases hn
    · simp only [List.mem_cons, List.not_mem_nil, or_false] at hmem
      rcases hmem with rfl | rfl | rfl
      · rw [Ptree.getAddress, hget] at ha
        cases ha
      · rw [hget] at hdes
        cases hdes
      · rw [hget] at hpro
        cases hpro
  · obtain ⟨bits, n, hn⟩ := hnum tag hmem
    rw [Ptree.getNum, getOptional_field (List.mem_append_left _ hmem) hfield, Option.bind_some,
      consumeNumber_of_head hhead] at hn
    cases hn
  · rw [getOptional_field (by decide) hfield] at hpro
    cases hpro
    rw [Igd.listProtocol, if_neg hudp, if_neg htcp] at hproto
    cases hproto

/-- **The mappings that some elements list are the ones in them.** -/
theorem entriesOf_lists {es : List (Str × Ptree)} {ms : List (MapEntry Address)}
    (h : Lists env es ms) : entriesOf env es = ms := by
  induction h with
  | nil => rfl
  | entry hm h _ ih =>
    rw [entriesOf_cons, if_pos rfl, entryOf_renders hm h, ih, Option.toList_some,
      List.singleton_append]
  | skipped h _ ih =>
    rw [entriesOf_cons, if_pos rfl, entryOf_skipped h, ih, Option.toList_none, List.nil_append]
  | other h _ ih => rw [entriesOf_cons, if_neg h, ih, List.nil_append]

/-- **A listing is read back: its mappings, in their order, and nothing else.** -/
theorem Igd.getListOfPortMappings_lists {net : Net Address} {g : Igd} {proto : Protocol}
    {minPort maxPort maxCount : ℕ} {rs : HttpResponse} {xmlRs t list : Ptree} {s : Str}
    {ms : List (MapEntry Address)}
    (hrs : g.soapRequest env net "GetListOfPortMappings".toList
      (getListOfPortMappingsBody g.urn proto minPort maxPort maxCount) = .ok rs)
    (hxml : env.readXml rs.body = some xmlRs)
    (hs : xmlRs.getOptional
      "s:Envelope.s:Body.u:GetListOfPortMappingsResponse.NewPortListing".toList = some s)
    (ht : env.readXml s = some t)
    (hlist : t.getChildOptional "p:PortMappingList".toList = some list)
    (h : Lists env list.children ms) :
    g.getListOfPortMappings env net proto minPort maxPort maxCount = .ok (.ok ms) := by
  have hlisting : listingOf env xmlRs = some list := by
    rw [listingOf, hs, Option.bind_some, ht, Option.bind_some, hlist]
  rw [getListOfPortMappings, hrs]
  refine (decodeListOfPortMappings_eq env hxml).trans ?_
  simp only [hlisting, entriesOf_lists h]

end

/-! ## A listing -/

/-- Two mappings of one host. -/
def twoMappings : List (MapEntry Unit) :=
  [⟨"ssh".toList, 2222, 22, 3600, .tcp, (), true⟩, ⟨[], 65535, 0, 4294967295, .udp, (), false⟩]

/-- The two mappings, with an attribute in front of them and an empty entry between. -/
def twoMappingsXml : Ptree :=
  let entry m : Str × Ptree :=
    ("p:PortMappingEntry".toList, MapEntry.xml (fun () => "192.168.0.1".toList) m)
  ⟨[], ("<xmlattr>".toList, ⟨[], []⟩) ::
    (twoMappings.take 1).map entry ++ ("p:PortMappingEntry".toList, ⟨[], []⟩) ::
    (twoMappings.drop 1).map entry⟩

/-- An element with one child. -/
def Ptree.only (tag : Str) (t : Ptree) : Ptree := ⟨[], [(tag, t)]⟩

/-- The answer `rs`, with the listing `listing` in it. -/
def listingEnv : Env Unit := .oneHost fun s =>
  if s = "rs".toList then
    some (.only "s:Envelope".toList <| .only "s:Body".toList <|
      .only "u:GetListOfPortMappingsResponse".toList <| .only "NewPortListing".toList
        ⟨"listing".toList, []⟩)
  else if s = "listing".toList then some (.only "p:PortMappingList".toList twoMappingsXml)
  else none

theorem Ptree.getChildOptional_only {tag rest : Str} {t : Ptree} (hdot : '.' ∉ tag) :
    (Ptree.only tag t).getChildOptional (tag ++ '.' :: rest) = t.getChildOptional rest := by
  have htag : ∀ c ∈ tag, decide (c ≠ '.') = true := by
    intro c hc
    exact decide_eq_true fun h => hdot (h ▸ hc)
  rw [getChildOptional, if_neg (by simp), List.takeWhile_append_of_pos htag,
    List.dropWhile_append_of_pos htag]
  simp [Ptree.only]

theorem Ptree.getChildOptional_last {tag : Str} {t : Ptree} (hne : tag ≠ []) (hdot : '.' ∉ tag) :
    (Ptree.only tag t).getChildOptional tag = some t := by
  rw [getChildOptional_name hne hdot]
  simp [Ptree.only]

theorem Igd.getListOfPortMappings_two :
    localGateway.getListOfPortMappings listingEnv (fun _ _ => .response ⟨200, "rs".toList⟩)
      .tcp 0 65535 10 = .ok (.ok twoMappings) := by
  have hpath : "s:Envelope.s:Body.u:GetListOfPortMappingsResponse.NewPortListing".toList =
      "s:Envelope".toList ++ '.' :: ("s:Body".toList ++
        '.' :: ("u:GetListOfPortMappingsResponse".toList ++ '.' :: "NewPortListing".toList)) := by
    decide
  refine getListOfPortMappings_lists (s := "listing".toList)
    (soapRequest_answered ⟨(⟨(), 5000⟩, []), rfl⟩ (fun _ _ => rfl) _ _) rfl ?_ rfl
    (Ptree.getChildOptional_last (by decide) (by decide)) ?_
  · rw [hpath, Ptree.getOptional, Ptree.getChildOptional_only (by decide),
      Ptree.getChildOptional_only (by decide), Ptree.getChildOptional_only (by decide),
      Ptree.getChildOptional_last (by decide) (by decide), Option.map_some]
  · have hfields : ∀ m ∈ twoMappings, Listable listingEnv m := by
      intro m hm
      simp only [twoMappings, List.mem_cons, List.not_mem_nil, or_false] at hm
      rcases hm with rfl | rfl
      · exact ⟨by decide, by decide, by decide, rfl⟩
      · exact ⟨by decide, by decide, by decide, rfl⟩
    refine .other (by decide) (.entry (hfields _ List.mem_cons_self) (renders_xml _) ?_)
    refine .skipped (.missing "p:NewProtocol".toList (by decide) (List.forall_mem_nil _)) ?_
    exact .entry (hfields _ (List.mem_cons_of_mem _ List.mem_cons_self)) (renders_xml _) .nil

end Upnp
