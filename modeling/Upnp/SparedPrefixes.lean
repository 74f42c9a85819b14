/-
  Which namespace prefixes the operations of a gateway need.

  A renaming that spares the prefixes in the paths of an operation leads to the same
  places in all responses.  It is noticed in some response if it does not.

  * `samePlace_of_spares`: spared prefixes on a path do not matter to it;
  * `results_renamed_iff`: an operation returns the same for all responses after a
    renaming exactly if that leaves alone the prefixes in its paths.
-/
import Upnp.Renaming

namespace Upnp

open Lib Ptree

namespace Renaming

variable {ρ : Renaming} {δ : Str → Str → Str → Prop} {n n' x l : Str}

/-! ## Prefixes that are spared -/

/-- The prefixes `xs` stay what they are, and no other one becomes one of them. -/
def Spares (ρ : Renaming) (xs : List Str) : Prop :=
  ∀ x ∈ xs, ∀ q q', ρ.maps q q' → (q = x ↔ q' = x)

/-- The renaming spares the prefixes `xs`; unless some of them are missing before it,
    and some after it. -/
def Fixes (ρ : Renaming) (xs : List Str) : Prop :=
  ((∀ x ∈ xs, ∃ q', ρ.maps x q') ∨ ∀ x ∈ xs, ∃ q, ρ.maps q x) → ρ.Spares xs

/-- The prefix of a name that is renamed. -/
theorem Name.maps_left (h : ρ.Name (x ++ ':' :: l) n') (hx : ':' ∉ x) : ∃ q', ρ.maps x q' := by
  generalize hn : x ++ ':' :: l = n at h
  rcases h with h | @⟨q, q', h, l'⟩
  · subst hn
    simp at h
  · obtain ⟨rfl, -⟩ := qualified_inj hx (ρ.colon h).1 hn
    exact ⟨q', h⟩

/-- The prefix of a name after the renaming. -/
theorem Name.maps_right (h : ρ.Name n (x ++ ':' :: l)) (hx : ':' ∉ x) : ∃ q, ρ.maps q x := by
  generalize hn : x ++ ':' :: l = n' at h
  rcases h with h | @⟨q, q', h, l'⟩
  · subst hn
    simp at h
  · obtain ⟨rfl, -⟩ := qualified_inj hx (ρ.colon h).2 hn
    exact ⟨q, h⟩

theorem spares_singleton : ρ.Spares [x] ↔ ∀ q q', ρ.maps q q' → (q = x ↔ q' = x) :=
  List.forall_mem_singleton

theorem fixes_singleton : ρ.Fixes [x] ↔ ρ.Spares [x] := by
  simp only [Fixes, spares_singleton, List.forall_mem_singleton]
  refine ⟨?_, fun h _ => h⟩
  intro h q q' hq
  constructor
  · rintro rfl
    exact (h (.inl ⟨q', hq⟩) q q' hq).1 rfl
  · rintro rfl
    exact (h (.inr ⟨q, hq⟩) q q' hq).2 rfl

/-- **A name on a path hits the same elements before and after.** -/
theorem picks_renamed {xs : List Str} (hspares : ρ.Spares xs) {p : Str}
    (hp : ':' ∉ p ∨ (nameSplit p).1 ∈ ['*'] :: xs) {e e' : Str × Ptree} (h : ρ.Name e.1 e'.1) :
    picks p e = picks p e' := by
  have hlocal : (nameSplit e'.1).2 = (nameSplit e.1).2 := h.localName
  unfold picks
  split
  · rw [hlocal]
  · rename_i hstar
    refine decide_eq_decide.2 ?_
    by_cases hcolon : ':' ∈ p
    · obtain ⟨hsplit, hx⟩ := eq_qualified hcolon
      have hmem := (List.mem_cons.1 (hp.resolve_left (not_not.2 hcolon))).resolve_left hstar
      rw [hsplit]
      exact h.eq_qualified_iff hx (hspares _ hmem)
    · exact h.eq_plain_iff hcolon

/-- **Such a path leads to the same place before and after.** -/
theorem samePlace_of_spares {xs : List Str} (hspares : ρ.Spares xs) {path : Str} {ps : List Str}
    {p : Str} (hpath : OnPath path ps p)
    (hxs : ∀ q ∈ ps ++ [p], ':' ∉ q ∨ (nameSplit q).1 ∈ ['*'] :: xs) {e e' : Str × Ptree}
    (h : ρ.Inside δ e e') : SamePlace path e.2 e'.2 :=
  samePlace_of_picks hpath (fun q hq _ _ hname => picks_renamed hspares (hxs q hq) hname) h

section
variable {Address : Type} {env : Env Address} {t t' : Ptree}

theorem addressKept_of_fixes (hfix : ρ.Fixes ["u".toList]) (h : ρ.Response env t t') :
    AddressKept env t t' := by
  have hpath : OnPath externalPath ["*:Envelope".toList, "*:Body".toList,
      "u:GetExternalIPAddressResponse".toList] "NewExternalIPAddress".toList := by decide
  exact .inl (samePlace_of_spares (fixes_singleton.1 hfix) hpath (by decide) (inside_root h))

theorem entryKept_of_fixes (hfix : ρ.Fixes ["u".toList]) (h : ρ.Response env t t') :
    EntryKept env t t' := by
  have hpath : OnPath genericPath ["*:Envelope".toList, "*:Body".toList]
      "u:GetGenericPortMappingEntryResponse".toList := by decide
  exact .inl (samePlace_of_spares (fixes_singleton.1 hfix) hpath (by decide) (inside_root h))

/-! ## Listings after a renaming -/

/-- The prefixes on the paths of `get_list_of_port_mappings`. -/
def listPrefixes : List Str := ["s".toList, "u".toList, "p".toList]

theorem sameEntry_of_spares (hspares : ρ.Spares listPrefixes) {e e' : Str × Ptree}
    (h : ρ.Element (fun _ d d' => d = d') e e') : SameEntry e e' := by
  rcases h.inside with ⟨hattr, hattr'⟩ | hin
  · have hne : "<xmlattr>".toList ≠ entryName := by decide
    rw [← hattr] at hne
    exact ⟨by rw [hattr, hattr'], fun hname => absurd hname hne⟩
  · refine ⟨hin.name.eq_qualified_iff (x := "p".toList) (by decide) (hspares _ (by decide)), ?_⟩
    intro _ x
    have htag : ∀ q ∈ [] ++ [listTag x], ':' ∉ q ∨ (nameSplit q).1 ∈ ['*'] :: listPrefixes := by
      cases x <;> decide
    exact samePlace_of_spares hspares (listTag_onPath x).1 htag hin

theorem sameListing_of_spares (hspares : ρ.Spares listPrefixes) (h : ρ.Response env t t') :
    SameListing env t t' := by
  have hpath : OnPath listPath ["s:Envelope".toList, "s:Body".toList,
      "u:GetListOfPortMappingsResponse".toList] "NewPortListing".toList := by decide
  have hlast : OnPath listName [] listName := by decide
  have htext : SamePlace listPath t t' :=
    samePlace_of_spares hspares hpath (by decide) (inside_root h)
  have hread := listingText_samePlace h htext
  have hlist : ∀ l l', ρ.Tree l l' → SamePlace listName l l' :=
    fun l l' hl => samePlace_of_spares hspares hlast (by decide) (inside_root hl)
  refine ⟨htext, ?_, ?_⟩
  · intro l l' hl hl'
    rw [hl, hl'] at hread
    rcases hread with hl | _
    exact hlist l l' hl
  · intro list list' hfound hfound'
    obtain ⟨l, hl, hfound⟩ := Option.bind_eq_some_iff.1 hfound
    obtain ⟨l', hl', hfound'⟩ := Option.bind_eq_some_iff.1 hfound'
    rw [hl, hl'] at hread
    rcases hread with hl | _
    have hchild := listing_samePlace hl (hlist l l' hl)
    rw [hfound, hfound'] at hchild
    rcases hchild with ⟨n', hin⟩ | _
    exact hin.children.imp fun _ _ => sameEntry_of_spares hspares

/-- The nodes that a walk enters have partners, if those inside of a partner have. -/
theorem walk_partner {P : Str × Ptree → Str × Ptree → Prop} {path : List Str}
    {e e' : Str × Ptree} {r : List ℕ × Str × Ptree}
    (hP : ∀ e e', P e e' → ∀ c ∈ elements e, c.1 ≠ "<xmlattr>".toList → ∃ c', P c c')
    (hattr : ∀ p ∈ path, p ≠ "<xmlattr>".toList) (h : P e e')
    (hwalk : walk elements named path e = some r) :
    (∃ e', P r.2 e') ∧ ∀ p ∈ path, ∃ c, (∃ c', P c c') ∧ c.1 = p := by
  have hI : ∀ p ∈ path, ∀ e, (∃ e', P e e') → ∀ c ∈ elements e, named p c = true →
      ∃ c', P c c' := by
    rintro p hp e ⟨e', he⟩ c hc hit
    have hname : c.1 = p := of_decide_eq_true hit
    exact hP e e' he c hc (hname ▸ hattr p hp)
  obtain ⟨hend, hpath⟩ := walk_enters hI hwalk ⟨e', h⟩
  refine ⟨hend, fun p hp => ?_⟩
  obtain ⟨c, hc, hit⟩ := hpath p hp
  exact ⟨c, hc, of_decide_eq_true hit⟩

/-- On the way to a listing, there is an element with each of the prefixes. -/
theorem listingOf_partner {P Q : Str × Ptree → Str × Ptree → Prop} {e' : Str × Ptree}
    {list : Ptree}
    (hP : ∀ e e', P e e' → ∀ c ∈ elements e, c.1 ≠ "<xmlattr>".toList → ∃ c', P c c')
    (hQ : ∀ e e', Q e e' → ∀ c ∈ elements e, c.1 ≠ "<xmlattr>".toList → ∃ c', Q c c')
    (hread : ∀ e e' l, P e e' → Ptree.localName e.1 = "NewPortListing".toList →
      env.readXml e.2.data = some l → ∃ e', Q ([], l) e')
    (h : P ([], t) e') (hlist : listingOf env t = some list) :
    ∀ x ∈ listPrefixes, ∃ l c c', (P (x ++ ':' :: l, c) c' ∨ Q (x ++ ':' :: l, c) c') := by
  have hnames : pathNames listPath = ["s:Envelope".toList, "s:Body".toList,
      "u:GetListOfPortMappingsResponse".toList] ++ ["NewPortListing".toList] := rfl
  have hlast : pathNames "p:PortMappingList".toList = ["p:PortMappingList".toList] := rfl
  obtain ⟨l, hl, hlist⟩ := Option.bind_eq_some_iff.1 hlist
  obtain ⟨d, hd, hl⟩ := Option.bind_eq_some_iff.1 hl
  rw [getOptional, getChildOptional_walk t [], hnames, Option.map_map] at hd
  obtain ⟨r, hr, rfl⟩ := Option.map_eq_some_iff.1 hd
  obtain ⟨⟨c', hc'⟩, hpath⟩ := walk_partner hP (by decide) h hr
  have hlocal : Ptree.localName r.2.1 = "NewPortListing".toList := by
    have hit : named "NewPortListing".toList r.2 = true := walk_last hr
    have hname : r.2.1 = "NewPortListing".toList := of_decide_eq_true hit
    rw [hname]
    decide
  obtain ⟨e', he'⟩ := hread _ _ l hc' hlocal hl
  rw [getChildOptional_walk l [], hlast] at hlist
  obtain ⟨r', hr', -⟩ := Option.map_eq_some_iff.1 hlist
  obtain ⟨-, hinner⟩ := walk_partner hQ (by decide) he' hr'
  simp only [List.cons_append, List.nil_append, List.forall_mem_cons] at hpath hinner
  obtain ⟨⟨⟨n, c⟩, ⟨c', hc⟩, hn⟩, -, ⟨⟨n₁, c₁⟩, ⟨c₁', hc₁⟩, hn₁⟩, -⟩ := hpath
  obtain ⟨⟨⟨n₂, c₂⟩, ⟨c₂', hc₂⟩, hn₂⟩, -⟩ := hinner
  dsimp only at hn hn₁ hn₂
  subst hn hn₁ hn₂
  simp only [listPrefixes, List.forall_mem_cons]
  refine ⟨?_, ?_, ?_, List.forall_mem_nil _⟩
  · exact ⟨"Envelope".toList, c, c', .inl hc⟩
  · exact ⟨"GetListOfPortMappingsResponse".toList, c₁, c₁', .inl hc₁⟩
  · exact ⟨"PortMappingList".toList, c₂, c₂', .inr hc₂⟩

theorem Inside.child {e e' : Str × Ptree} (h : ρ.Inside δ e e') :
    ∀ c ∈ elements e, c.1 ≠ "<xmlattr>".toList → ∃ c', ρ.Inside δ c c' := by
  intro c hc hattr
  obtain ⟨i, hi, rfl⟩ := List.getElem_of_mem hc
  have hi' : i < (elements e').length := h.children.length_eq ▸ hi
  have hin := (h.children.get hi hi').inside
  exact ⟨_, hin.resolve_left fun h => hattr h.1⟩

theorem Inside.child' {e e' : Str × Ptree} (h : ρ.Inside δ e e') :
    ∀ c' ∈ elements e', c'.1 ≠ "<xmlattr>".toList → ∃ c, ρ.Inside δ c c' := by
  intro c hc hattr
  obtain ⟨i, hi', rfl⟩ := List.getElem_of_mem hc
  have hi : i < (elements e).length := h.children.length_eq ▸ hi'
  have hin := (h.children.get hi hi').inside
  exact ⟨_, hin.resolve_left fun h => hattr h.2⟩

/-- The text of a port listing, after a renaming. -/
theorem Inside.text {e e' : Str × Ptree} (h : ρ.Inside (ρ.Text env) e e')
    (hlocal : Ptree.localName e.1 = "NewPortListing".toList) :
    Option.Rel ρ.Tree (env.readXml e.2.data) (env.readXml e'.2.data) := by
  have htext := h.data
  rwa [Text, if_pos hlocal] at htext

theorem prefixes_left {list : Ptree} (h : ρ.Response env t t')
    (hlist : listingOf env t = some list) : ∀ x ∈ listPrefixes, ∃ q', ρ.maps x q' := by
  have hcolon : ∀ x ∈ listPrefixes, ':' ∉ x := by decide
  have hpartner := listingOf_partner (P := ρ.Inside (ρ.Text env))
    (Q := ρ.Inside fun _ d d' => d = d') (fun _ _ h => h.child) (fun _ _ h => h.child) ?_
    (inside_root h) hlist
  · intro x hx
    obtain ⟨l, c, c', hin | hin⟩ := hpartner x hx
    · exact hin.name.maps_left (hcolon x hx)
    · exact hin.name.maps_left (hcolon x hx)
  · intro e e' l he hlocal hl
    have htext := he.text hlocal
    rw [hl] at htext
    generalize env.readXml e'.2.data = y at htext
    rcases htext with htree | _
    exact ⟨_, inside_root htree⟩

theorem prefixes_right {list : Ptree} (h : ρ.Response env t t')
    (hlist : listingOf env t' = some list) : ∀ x ∈ listPrefixes, ∃ q, ρ.maps q x := by
  have hcolon : ∀ x ∈ listPrefixes, ':' ∉ x := by decide
  have hpartner := listingOf_partner (P := fun e' e => ρ.Inside (ρ.Text env) e e')
    (Q := fun e' e => ρ.Inside (fun _ d d' => d = d') e e') (fun _ _ h => h.child')
    (fun _ _ h => h.child') ?_ (inside_root h) hlist
  · intro x hx
    obtain ⟨l, c, c', hin | hin⟩ := hpartner x hx
    · exact hin.name.maps_right (hcolon x hx)
    · exact hin.name.maps_right (hcolon x hx)
  · intro e' e l' he hlocal hl
    have htext := he.text (he.name.localName ▸ hlocal)
    rw [hl] at htext
    generalize env.readXml e.2.data = x at htext
    rcases htext with htree | _
    exact ⟨_, inside_root htree⟩

theorem listKept_of_fixes (hfix : ρ.Fixes listPrefixes) (h : ρ.Response env t t') :
    ListKept env t t' := by
  by_cases hsome : (∃ list, listingOf env t = some list) ∨ ∃ list, listingOf env t' = some list
  · have hspares := hfix (hsome.imp (fun ⟨_, hl⟩ => prefixes_left h hl)
      fun ⟨_, hl⟩ => prefixes_right h hl)
    exact .inl (sameListing_of_spares hspares h)
  · -- neither of the answers has a listing
    rw [not_or] at hsome
    exact .inr (.inl ⟨Option.eq_none_iff_forall_ne_some.2 fun l hl => hsome.1 ⟨l, hl⟩,
      Option.eq_none_iff_forall_ne_some.2 fun l hl => hsome.2 ⟨l, hl⟩⟩)

/-! ## What the operations return -/

/-- The gateway answers the same request twice, the second time after a renaming. -/
def Answers (ρ : Renaming) (env : Env Address) (net net' : Net Address) (g : Igd)
    (command message : Str) : Prop :=
  ∃ t t', ρ.AnswersWith env net net' g command message t t'

end

/-- `get_external_address` returns the same after the renaming. -/
def KeepsExternalAddress (ρ : Renaming) : Prop :=
  ∀ (Address : Type) (env : Env Address) (net net' : Net Address) (g : Igd),
    ρ.Answers env net net' g "GetExternalIPAddress".toList (Igd.getExternalAddressBody g.urn) →
    g.getExternalAddress env net = g.getExternalAddress env net'

/-- So does `get_generic_port_mapping_entry`. -/
def KeepsGenericEntry (ρ : Renaming) : Prop :=
  ∀ (Address : Type) (env : Env Address) (net net' : Net Address) (g : Igd) (index : ℕ),
    ρ.Answers env net net' g "GetGenericPortMappingEntry".toList
      (Igd.getGenericPortMappingEntryBody g.urn index) →
    g.getGenericPortMappingEntry env net index = g.getGenericPortMappingEntry env net' index

/-- So does `get_list_of_port_mappings`. -/
def KeepsList (ρ : Renaming) : Prop :=
  ∀ (Address : Type) (env : Env Address) (net net' : Net Address) (g : Igd) (proto : Protocol)
    (minPort maxPort maxCount : ℕ),
    ρ.Answers env net net' g "GetListOfPortMappings".toList
      (Igd.getListOfPortMappingsBody g.urn proto minPort maxPort maxCount) →
    g.getListOfPortMappings env net proto minPort maxPort maxCount =
      g.getListOfPortMappings env net' proto minPort maxPort maxCount

theorem keepsExternalAddress_of_fixes (h : ρ.Fixes ["u".toList]) : ρ.KeepsExternalAddress := by
  rintro Address env net net' g ⟨t, t', ha⟩
  exact (getExternalAddress_iff ha).2 (addressKept_of_fixes h ha.response)

theorem keepsGenericEntry_of_fixes (h : ρ.Fixes ["u".toList]) : ρ.KeepsGenericEntry := by
  rintro Address env net net' g index ⟨t, t', ha⟩
  exact (getGenericEntry_iff ha).2 (entryKept_of_fixes h ha.response)

theorem keepsList_of_fixes (h : ρ.Fixes listPrefixes) : ρ.KeepsList := by
  rintro Address env net net' g proto minPort maxPort maxCount ⟨t, t', ha⟩
  exact (getList_iff ha).2 (listKept_of_fixes h ha.response)

/-! ## Renamings that are noticed -/

section
variable {Address : Type} {env : Env Address} {t t' : Ptree} {m m' p : Str}

/-- **A renaming that changes what has the prefix `u` is noticed.** -/
theorem fixes_of_keepsExternalAddress (h : ρ.KeepsExternalAddress) : ρ.Fixes ["u".toList] := by
  refine fixes_singleton.2 (spares_singleton.2 fun q q' hq => ?_)
  let docs := [("rs".toList, externalDoc q), ("rs'".toList, externalDoc q')]
  have hx : (reading docs).readXml "rs".toList = some (externalDoc q) := rfl
  have hx' : (reading docs).readXml "rs'".toList = some (externalDoc q') := rfl
  have hsame := h Unit (reading docs) (answering "rs".toList) (answering "rs'".toList)
    Igd.localGateway ⟨_, _, _, _, soapRequest_answering _ _ _ _, soapRequest_answering _ _ _ _,
      hx, hx', externalDoc_response hq⟩
  rw [Igd.getExternalAddress, Igd.getExternalAddress, soapRequest_answering,
    soapRequest_answering] at hsame
  have hsame : Except.ok _ = Except.ok _ :=
    (decodeExternal_doc hx).symm.trans (hsame.trans (decodeExternal_doc hx'))
  have hsame := Except.ok.inj hsame
  by_cases hqu : q = "u".toList <;> by_cases hqu' : q' = "u".toList <;> simp_all

/-- An answer to `get_generic_port_mapping_entry`, with the prefix `q`. -/
def genericDoc (q : Str) : Ptree :=
  .only "Envelope".toList <| .only "Body".toList <|
    .only (q ++ ':' :: "GetGenericPortMappingEntryResponse".toList) ⟨[], []⟩

theorem genericDoc_response {q q' : Str} (h : ρ.maps q q') :
    ρ.Response env (genericDoc q) (genericDoc q') := by
  have hresponse : ρ.Element (ρ.Text env)
      (q ++ ':' :: "GetGenericPortMappingEntryResponse".toList, ⟨[], []⟩) _ :=
    element_qualified h (by decide) [] .nil
  have hbody := element_plain (l := "Body".toList) (by decide) [] (.cons hresponse .nil)
  have henvelope := element_plain (l := "Envelope".toList) (by decide) [] (.cons hbody .nil)
  exact element_plain (by decide) [] (.cons henvelope .nil)

theorem decodeGeneric_doc {docs : List (Str × Ptree)} {b q : Str}
    (hx : (reading docs).readXml b = some (genericDoc q)) :
    Handled (Igd.decodeGenericPortMappingEntry (reading docs) b) ↔ q = "u".toList := by
  have hpath : genericPath = "*:Envelope".toList ++ '.' :: ("*:Body".toList ++
      '.' :: ("u".toList ++ ':' :: "GetGenericPortMappingEntryResponse".toList)) := rfl
  have hu : picks ("u".toList ++ ':' :: "GetGenericPortMappingEntryResponse".toList) = named _ :=
    picks_plain (by decide)
  have hchild : (genericDoc q).getChild genericPath =
      if q = "u".toList then some ⟨[], []⟩ else none := by
    rw [hpath, genericDoc, Ptree.getChild_only (by decide) rfl, Ptree.getChild_only (by decide) rfl,
      getChild_name (by simp) (by decide)]
    by_cases hq : q = "u".toList
    · subst hq
      rw [if_pos rfl, Ptree.pick_only (by rw [hu]; exact decide_eq_true rfl)]
    · rw [if_neg hq, pick_only_ne (by
        rw [hu]
        exact decide_eq_false fun h => hq (List.append_cancel_right h))]
  rw [Igd.handled_generic_iff, hx]
  simp only [Option.some.injEq, forall_eq', ← getChild_entry, hchild]
  by_cases hq : q = "u".toList
  · simp only [hq, if_true, Option.some.injEq, exists_eq']
  · simp only [hq, if_false, reduceCtorEq, exists_false]

theorem fixes_of_keepsGenericEntry (h : ρ.KeepsGenericEntry) : ρ.Fixes ["u".toList] := by
  refine fixes_singleton.2 (spares_singleton.2 fun q q' hq => ?_)
  let docs := [("rs".toList, genericDoc q), ("rs'".toList, genericDoc q')]
  have hx : (reading docs).readXml "rs".toList = some (genericDoc q) := rfl
  have hx' : (reading docs).readXml "rs'".toList = some (genericDoc q') := rfl
  have hsame := h Unit (reading docs) (answering "rs".toList) (answering "rs'".toList)
    Igd.localGateway 0 ⟨_, _, _, _, soapRequest_answering _ _ _ _, soapRequest_answering _ _ _ _,
      hx, hx', genericDoc_response hq⟩
  rw [Igd.getGenericPortMappingEntry, Igd.getGenericPortMappingEntry, soapRequest_answering,
    soapRequest_answering] at hsame
  have hsame : Igd.decodeGenericPortMappingEntry (reading docs) "rs".toList =
    Igd.decodeGenericPortMappingEntry (reading docs) "rs'".toList := hsame
  rw [← decodeGeneric_doc hx, ← decodeGeneric_doc hx', hsame]

/-- An answer to `get_list_of_port_mappings`, with these prefixes around a text. -/
def listDoc (e b u text : Str) : Ptree :=
  .only (e ++ ':' :: "Envelope".toList) <| .only (b ++ ':' :: "Body".toList) <|
    .only (u ++ ':' :: "GetListOfPortMappingsResponse".toList) <|
      .only "NewPortListing".toList ⟨text, []⟩

/-- A listing without mappings, with the prefix `p`. -/
def listingDoc (p : Str) : Ptree := .only (p ++ ':' :: "PortMappingList".toList) ⟨[], []⟩

/-- An answer with these four prefixes, and one with four others. -/
def listDocs (e b u p e' b' u' p' : Str) : List (Str × Ptree) :=
  [("rs".toList, listDoc e b u "listing".toList), ("listing".toList, listingDoc p),
    ("rs'".toList, listDoc e' b' u' "listing'".toList), ("listing'".toList, listingDoc p')]

theorem listDoc_response {e b u p e' b' u' p' text text' : Str} (he : ρ.maps e e')
    (hb : ρ.maps b b') (hu : ρ.maps u u') (hp : ρ.maps p p')
    (hx : env.readXml text = some (listingDoc p))
    (hx' : env.readXml text' = some (listingDoc p')) :
    ρ.Response env (listDoc e b u text) (listDoc e' b' u' text') := by
  have hlisting : ρ.Element (ρ.Text env) ("NewPortListing".toList, ⟨text, []⟩)
      ("NewPortListing".toList, ⟨text', []⟩) := by
    refine .element (.plain (by decide)) ?_ .nil
    rw [Text, if_pos (by decide), hx, hx']
    exact .some (.element (.plain (by decide)) rfl
      (.cons (.element (.qualified hp _) rfl .nil) .nil))
  have hresponse := element_qualified (l := "GetListOfPortMappingsResponse".toList) hu (by decide)
    [] (.cons hlisting .nil)
  have hbody := element_qualified (l := "Body".toList) hb (by decide) [] (.cons hresponse .nil)
  have henvelope := element_qualified (l := "Envelope".toList) he (by decide) [] (.cons hbody .nil)
  exact element_plain (by decide) [] (.cons henvelope .nil)

theorem getChildOptional_name_ite (hne : p ≠ []) (hdot : '.' ∉ p) :
    (Ptree.only m t).getChildOptional p = if m = p then some t else none := by
  rw [getChildOptional_name hne hdot]
  by_cases hm : m = p <;> simp [Ptree.only, hm]

theorem listingOf_doc {e b u p text : Str} (hx : env.readXml text = some (listingDoc p)) :
    (∃ list, listingOf env (listDoc e b u text) = some list) ↔
      e = "s".toList ∧ b = "s".toList ∧ u = "u".toList ∧ p = "p".toList := by
  have hpath : listPath = ("s".toList ++ ':' :: "Envelope".toList) ++
      '.' :: (("s".toList ++ ':' :: "Body".toList) ++
        '.' :: (("u".toList ++ ':' :: "GetListOfPortMappingsResponse".toList) ++
          '.' :: "NewPortListing".toList)) := rfl
  have hlast : "p:PortMappingList".toList = "p".toList ++ ':' :: "PortMappingList".toList := by
    decide
  have hinner : (∃ list, (listingDoc p).getChildOptional "p:PortMappingList".toList = some list) ↔
      p = "p".toList := by
    rw [hlast, listingDoc, getChildOptional_name_ite (by simp) (by decide)]
    simp only [List.append_cancel_right_eq]
    by_cases hp : p = "p".toList
    · simp only [hp, if_true, Option.some.injEq, exists_eq']
    · simp only [hp, if_false, reduceCtorEq, exists_false]
  unfold listingOf
  rw [getOptional, hpath, listDoc, getChildOptional_only_ite (by decide),
    getChildOptional_only_ite (by decide), getChildOptional_only_ite (by decide),
    Ptree.getChildOptional_last (by decide) (by decide)]
  simp only [List.append_cancel_right_eq]
  by_cases he : e = "s".toList
  · by_cases hb : b = "s".toList
    · by_cases hu : u = "u".toList
      · simp only [he, hb, hu, if_true, Option.map_some, Option.bind_some, hx, hinner, true_and]
      · simp only [hu, if_false, if_true, he, hb, false_and, and_false, Option.map_none,
          Option.bind_none, reduceCtorEq, exists_false]
    · simp only [hb, he, if_true, if_false, false_and, and_false, Option.map_none,
        Option.bind_none, reduceCtorEq, exists_false]
  · simp only [he, if_false, false_and, Option.map_none, Option.bind_none, reduceCtorEq,
      exists_false]

/-- What four renamed prefixes have to do with each other, if nothing is noticed. -/
theorem KeepsList.prefixes_iff (h : ρ.KeepsList) {e b u p e' b' u' p' : Str} (he : ρ.maps e e')
    (hb : ρ.maps b b') (hu : ρ.maps u u') (hp : ρ.maps p p') :
    (e = "s".toList ∧ b = "s".toList ∧ u = "u".toList ∧ p = "p".toList) ↔
      (e' = "s".toList ∧ b' = "s".toList ∧ u' = "u".toList ∧ p' = "p".toList) := by
  let env := reading (listDocs e b u p e' b' u' p')
  have hx : env.readXml "rs".toList = some (listDoc e b u "listing".toList) := rfl
  have hx' : env.readXml "rs'".toList = some (listDoc e' b' u' "listing'".toList) := rfl
  have hl : env.readXml "listing".toList = some (listingDoc p) := rfl
  have hl' : env.readXml "listing'".toList = some (listingDoc p') := rfl
  have hsame := h Unit env (answering "rs".toList) (answering "rs'".toList) Igd.localGateway .tcp
    0 65535 10 ⟨_, _, _, _, soapRequest_answering _ _ _ _, soapRequest_answering _ _ _ _, hx, hx',
      listDoc_response he hb hu hp hl hl'⟩
  rw [Igd.getListOfPortMappings, Igd.getListOfPortMappings, soapRequest_answering,
    soapRequest_answering] at hsame
  have hsame : Except.ok _ = Except.ok _ :=
    (decodeListOfPortMappings_eq env hx).symm.trans
      (hsame.trans (decodeListOfPortMappings_eq env hx'))
  rw [← listingOf_doc hl, ← listingOf_doc hl']
  generalize listingOf env (listDoc e b u "listing".toList) = x at hsame ⊢
  generalize listingOf env (listDoc e' b' u' "listing'".toList) = y at hsame ⊢
  rcases x with _ | l <;> rcases y with _ | l'
  · rfl
  · cases hsame
  · cases hsame
  · exact iff_of_true ⟨l, rfl⟩ ⟨l', rfl⟩

/-- **A renaming that changes what has one of the three prefixes is noticed.** -/
theorem fixes_of_keepsList (h : ρ.KeepsList) : ρ.Fixes listPrefixes := by
  intro hany
  -- the three prefixes are there, and stay what they are
  have hself : ρ.maps "s".toList "s".toList ∧ ρ.maps "u".toList "u".toList ∧
      ρ.maps "p".toList "p".toList := by
    simp only [listPrefixes, List.forall_mem_cons] at hany
    rcases hany with ⟨⟨s', hs⟩, ⟨u', hu⟩, ⟨p', hp⟩, -⟩ | ⟨⟨s', hs⟩, ⟨u', hu⟩, ⟨p', hp⟩, -⟩
    · obtain ⟨rfl, -, rfl, rfl⟩ := (h.prefixes_iff hs hs hu hp).1 ⟨rfl, rfl, rfl, rfl⟩
      exact ⟨hs, hu, hp⟩
    · obtain ⟨rfl, -, rfl, rfl⟩ := (h.prefixes_iff hs hs hu hp).2 ⟨rfl, rfl, rfl, rfl⟩
      exact ⟨hs, hu, hp⟩
  obtain ⟨hs, hu, hp⟩ := hself
  have hfix : ∀ q q', ρ.maps q q' → (q = "s".toList ↔ q' = "s".toList) ∧
      (q = "u".toList ↔ q' = "u".toList) ∧ (q = "p".toList ↔ q' = "p".toList) := by
    intro q q' hq
    refine ⟨?_, ?_, ?_⟩
    · simpa only [and_true] using h.prefixes_iff hq hs hu hp
    · simpa only [and_true, true_and] using h.prefixes_iff hs hs hq hp
    · simpa only [true_and] using h.prefixes_iff hs hs hu hq
  simp only [Spares, listPrefixes, List.forall_mem_cons]
  exact ⟨fun q q' hq => (hfix q q' hq).1, fun q q' hq => (hfix q q' hq).2.1,
    fun q q' hq => (hfix q q' hq).2.2, List.forall_mem_nil _⟩

end

/-- **A renaming of the prefixes does not matter exactly if it leaves those alone
    that the operations have in their paths**: `u`, and for a list `s` and `p` too. -/
theorem results_renamed_iff (ρ : Renaming) :
    (ρ.KeepsExternalAddress ↔ ρ.Fixes ["u".toList]) ∧
    (ρ.KeepsGenericEntry ↔ ρ.Fixes ["u".toList]) ∧
    (ρ.KeepsList ↔ ρ.Fixes ["s".toList, "u".toList, "p".toList]) :=
  ⟨⟨fixes_of_keepsExternalAddress, keepsExternalAddress_of_fixes⟩,
    ⟨fixes_of_keepsGenericEntry, keepsGenericEntry_of_fixes⟩,
    ⟨fixes_of_keepsList, keepsList_of_fixes⟩⟩

end Renaming

end Upnp
