/-
  Other namespace prefixes in the responses of a gateway.

  Which prefixes a gateway declares is up to it.  A `Renaming` says which of them
  become which; it changes the elements of a response, and of the port listing that
  stands as a text inside of one.

  * `getChild_samePlace`: a path that leads to the same place before and after ends
    in nodes of which one becomes the other;
  * `results_same_iff`: what the operations return for a response and for a renamed
    one is the same exactly if their paths lead to the same places, or to others
    that hold the same.
-/
import Upnp.MappingFields

namespace Upnp

open Lib

theorem eq_of_rel {α : Type*} {R : α → α → Prop} {x y : Option α} (h : Option.Rel R x y)
    (hR : ∀ a b, R a b → a = b) : x = y := by
  rcases h with hab | _
  · exact congrArg some (hR _ _ hab)
  · rfl

namespace Ptree

/-! ## Names on a path -/

theorem localName_qualified {q : Str} (hq : ':' ∉ q) (l : Str) : localName (q ++ ':' :: l) = l := by
  have hcut : cut [':'] (q ++ ':' :: l) = some (q, l) := cut_singleton_append hq
  rw [localName, nameSplit, consumeUntil_true, hcut]
  rfl

theorem localName_plain {n : Str} (h : ':' ∉ n) : localName n = n := by
  rw [localName, nameSplit, consumeUntil_true, cut_singleton_eq_none.2 h]
  rfl

theorem qualified_inj {q q' l l' : Str} (hq : ':' ∉ q) (hq' : ':' ∉ q')
    (h : q ++ ':' :: l = q' ++ ':' :: l') : q = q' ∧ l = l' := by
  have hcut : some (q, l) = some (q', l') :=
    (cut_singleton_append hq).symm.trans ((congrArg (cut [':']) h).trans (cut_singleton_append hq'))
  exact Prod.mk.inj (Option.some.inj hcut)

theorem eq_qualified {p : Str} (h : ':' ∈ p) :
    p = (nameSplit p).1 ++ ':' :: (nameSplit p).2 ∧ ':' ∉ (nameSplit p).1 := by
  obtain ⟨q, l, rfl, hq⟩ := List.eq_append_cons_of_mem h
  have hcut : cut [':'] (q ++ ':' :: l) = some (q, l) := cut_singleton_append hq
  rw [nameSplit, consumeUntil_true, hcut]
  exact ⟨rfl, hq⟩

theorem getChild_walk (t : Ptree) (n path : Str) : t.getChild path =
    (walk elements picks (pathNames path) (n, t)).map fun r => r.2.2 := by
  rw [← getChildAt_node, getChildAt_walk t n, Option.map_map]
  rfl

theorem getChildOptional_walk (t : Ptree) (n path : Str) : t.getChildOptional path =
    (walk elements named (pathNames path) (n, t)).map fun r => r.2.2 := by
  rw [← getChildOptionalAt_node, getChildOptionalAt_walk t n, Option.map_map]
  rfl

end Ptree

open Ptree

/-! ## Renamings -/

/-- Which namespace prefix becomes which. -/
structure Renaming where
  maps : Str → Str → Prop
  colon : ∀ {q q'}, maps q q' → ':' ∉ q ∧ ':' ∉ q'

namespace Renaming

/-- A name becomes another one: what stands in front of its first `:` is renamed. -/
inductive Name (ρ : Renaming) : Str → Str → Prop where
  | plain {n} (h : ':' ∉ n) : Name ρ n n
  | qualified {q q'} (h : ρ.maps q q') (l) : Name ρ (q ++ ':' :: l) (q' ++ ':' :: l)

/-- An element becomes another one.  Its text may change as `δ` says, which knows
    the name of the element.  What becomes of attributes is left open: they declare
    the prefixes. -/
inductive Element (ρ : Renaming) (δ : Str → Str → Str → Prop) : Str × Ptree → Str × Ptree → Prop
  | attributes (t t') : Element ρ δ ("<xmlattr>".toList, t) ("<xmlattr>".toList, t')
  | element {n n' d d' es es'} (hn : ρ.Name n n') (hd : δ n d d')
      (hes : List.Forall₂ (Element ρ δ) es es') : Element ρ δ (n, ⟨d, es⟩) (n', ⟨d', es'⟩)

/-- A tree becomes another one, with the same texts. -/
def Tree (ρ : Renaming) (t t' : Ptree) : Prop :=
  ρ.Element (fun _ d d' => d = d') ([], t) ([], t')

/-- A text becomes another one: in a `NewPortListing`, what is read from it. -/
def Text {Address : Type} (ρ : Renaming) (env : Env Address) (n d d' : Str) : Prop :=
  if localName n = "NewPortListing".toList then
    Option.Rel ρ.Tree (env.readXml d) (env.readXml d')
  else d = d'

/-- A response becomes another one. -/
def Response {Address : Type} (ρ : Renaming) (env : Env Address) (t t' : Ptree) : Prop :=
  ρ.Element (ρ.Text env) ([], t) ([], t')

variable {ρ : Renaming} {δ : Str → Str → Str → Prop} {n n' x l : Str}

theorem Name.localName (h : ρ.Name n n') : localName n' = localName n := by
  rcases h with h | ⟨h, l⟩
  · rfl
  · rw [localName_qualified (ρ.colon h).1, localName_qualified (ρ.colon h).2]

theorem Name.eq_plain_iff (h : ρ.Name n n') (hl : ':' ∉ l) : n = l ↔ n' = l := by
  rcases h with h | ⟨h, l'⟩
  · rfl
  · refine iff_of_false ?_ ?_ <;> rintro rfl <;> simp at hl

theorem Name.eq_qualified_iff (h : ρ.Name n n') (hx : ':' ∉ x)
    (hfix : ∀ q q', ρ.maps q q' → (q = x ↔ q' = x)) : n = x ++ ':' :: l ↔ n' = x ++ ':' :: l := by
  rcases h with h | @⟨q, q', h, l'⟩
  · rfl
  · obtain ⟨hq, hq'⟩ := ρ.colon h
    constructor
    · intro heq
      obtain ⟨hqx, rfl⟩ := qualified_inj hq hx heq
      rw [(hfix q q' h).1 hqx]
    · intro heq
      obtain ⟨hqx, rfl⟩ := qualified_inj hq' hx heq
      rw [(hfix q q' h).2 hqx]

/-! ## Paths -/

/-- Two elements of which the first becomes the second, and not as an attribute. -/
structure Inside (ρ : Renaming) (δ : Str → Str → Str → Prop) (e e' : Str × Ptree) : Prop where
  name : ρ.Name e.1 e'.1
  data : δ e.1 e.2.data e'.2.data
  children : List.Forall₂ (ρ.Element δ) (elements e) (elements e')

theorem Element.inside {e e' : Str × Ptree} (h : ρ.Element δ e e') :
    (e.1 = "<xmlattr>".toList ∧ e'.1 = "<xmlattr>".toList) ∨ ρ.Inside δ e e' := by
  rcases h with _ | ⟨hn, hd, hes⟩
  · exact .inl ⟨rfl, rfl⟩
  · exact .inr ⟨hn, hd, hes⟩

theorem inside_root {t t' : Ptree} (h : ρ.Element δ ([], t) ([], t')) :
    ρ.Inside δ ([], t) ([], t') :=
  h.inside.resolve_left fun hattr => absurd hattr.1.symm (List.cons_ne_nil _ _)

/-- The names `ps` and `p` are on the path, and `p` does not begin with `*:`. -/
abbrev OnPath (path : Str) (ps : List Str) (p : Str) : Prop :=
  pathNames path = ps ++ [p] ∧ ¬ ['*', ':'] <+: p ∧
    ∀ q ∈ ps ++ [p], q ≠ "<xmlattr>".toList ∧ localName q ≠ "<xmlattr>".toList

/-- The path leads to the same place in both trees, or to none in both. -/
def SamePlace (path : Str) (t t' : Ptree) : Prop :=
  (t.getChildAt path).map (·.1) = (t'.getChildAt path).map (·.1)

/-- Attributes are never hit. -/
theorem picks_attributes {p : Str} (hp : p ≠ "<xmlattr>".toList)
    (hlocal : Ptree.localName p ≠ "<xmlattr>".toList) {e : Str × Ptree}
    (he : e.1 = "<xmlattr>".toList) : picks p e = false := by
  have hattr : Ptree.localName "<xmlattr>".toList = "<xmlattr>".toList := rfl
  unfold picks
  split
  · exact decide_eq_false fun h => hlocal (h.trans ((congrArg Ptree.localName he).trans hattr))
  · exact decide_eq_false fun h => hp (h.symm.trans he)

theorem samePlace_walk {path : Str} {e e' : Str × Ptree} : SamePlace path e.2 e'.2 ↔
    (walk elements picks (pathNames path) e).map (·.1) =
      (walk elements picks (pathNames path) e').map (·.1) := by
  rw [SamePlace, getChildAt_walk e.2 e.1, getChildAt_walk e'.2 e'.1, Option.map_map, Option.map_map]
  rfl

/-- **Along a path to the same place, `get_child` finds nodes of which one becomes
    the other.** -/
theorem getChild_samePlace {path : Str} {ps : List Str} {p : Str} (hpath : OnPath path ps p)
    {e e' : Str × Ptree} (h : ρ.Inside δ e e') (hplace : SamePlace path e.2 e'.2) :
    Option.Rel (fun c c' => ∃ n', ρ.Inside δ (p, c) (n', c')) (e.2.getChild path)
      (e'.2.getChild path) := by
  obtain ⟨hnames, hp, hps⟩ := hpath
  rw [samePlace_walk, hnames] at hplace
  have hhits : ∀ q ∈ ps ++ [p], ∀ c c', ρ.Element δ c c' → picks q c = true → ρ.Inside δ c c' := by
    intro q hq c c' hc hit
    obtain ⟨hqattr, hqlocal⟩ := hps q hq
    refine hc.inside.resolve_left fun hattr => ?_
    rw [picks_attributes hqattr hqlocal hattr.1] at hit
    cases hit
  have hchildren : ∀ c c', ρ.Inside δ c c' →
      List.Forall₂ (ρ.Element δ) (elements c) (elements c') := fun _ _ h => h.children
  have hwalk := walk_places hchildren hhits h hplace
  have hlast : ∀ r, walk elements picks (ps ++ [p]) e = some r → picks p r.2 = true :=
    fun _ => walk_last
  rw [getChild_walk e.2 e.1, getChild_walk e'.2 e'.1, hnames]
  generalize walk elements picks (ps ++ [p]) e = x at hwalk hlast ⊢
  generalize walk elements picks (ps ++ [p]) e' = y at hwalk ⊢
  rcases hwalk with @⟨⟨i, n, c⟩, ⟨i', n', c'⟩, hc⟩ | _
  · have hn : n = p := by
      have hit := hlast _ rfl
      rw [picks_plain hp] at hit
      exact of_decide_eq_true hit
    subst hn
    exact .some ⟨n', hc⟩
  · exact .none

/-- **What `get` reads at the end of such a path.** -/
theorem get_samePlace {path : Str} {ps : List Str} {p : Str} (hpath : OnPath path ps p)
    {e e' : Str × Ptree} (h : ρ.Inside δ e e') (hplace : SamePlace path e.2 e'.2) :
    Option.Rel (δ p) (e.2.get path) (e'.2.get path) := by
  have hchild := getChild_samePlace hpath h hplace
  unfold Ptree.get
  generalize e.2.getChild path = x at hchild ⊢
  generalize e'.2.getChild path = y at hchild ⊢
  rcases hchild with ⟨n', hc⟩ | _
  · exact .some hc.data
  · exact .none

/-- What Boost's `get_optional` reads, on a path without `*:`. -/
theorem getOptional_samePlace {path : Str} {ps : List Str} {p : Str} (hpath : OnPath path ps p)
    (hplain : ∀ q ∈ path.splitOn '.', ¬ ['*', ':'] <+: q) {e e' : Str × Ptree}
    (h : ρ.Inside δ e e') (hplace : SamePlace path e.2 e'.2) :
    Option.Rel (δ p) (e.2.getOptional path) (e'.2.getOptional path) := by
  have hget := get_samePlace hpath h hplace
  rwa [Ptree.get, Ptree.get, getChild_plain _ hplain, getChild_plain _ hplain] at hget

/-- A place that is missing before and after is the same. -/
theorem samePlace_of_none {path : Str} {t t' : Ptree} (h : t.getChild path = none)
    (h' : t'.getChild path = none) : SamePlace path t t' := by
  rw [← getChildAt_node, Option.map_eq_none_iff] at h h'
  rw [SamePlace, h, h']

/-- **A path whose names hit the same elements leads to the same place.** -/
theorem samePlace_of_picks {path : Str} {ps : List Str} {p : Str} (hpath : OnPath path ps p)
    (hpicks : ∀ q ∈ ps ++ [p], ∀ c c' : Str × Ptree, ρ.Name c.1 c'.1 → picks q c = picks q c')
    {e e' : Str × Ptree} (h : ρ.Inside δ e e') : SamePlace path e.2 e'.2 := by
  obtain ⟨hnames, -, hattr⟩ := hpath
  have hwalk : Option.Rel (fun r r' => r.1 = r'.1 ∧ ρ.Inside δ r.2 r'.2)
      (walk elements picks (ps ++ [p]) e) (walk elements picks ((ps ++ [p]).map id) e') := by
    refine walk_rel (fun _ _ h => h.children) ?_ h
    intro q hq c c' hc
    obtain ⟨hqattr, hqlocal⟩ := hattr q hq
    rcases hc.inside with ⟨hattr, hattr'⟩ | hc
    · rw [picks_attributes hqattr hqlocal hattr, id, picks_attributes hqattr hqlocal hattr']
      exact ⟨rfl, fun h => by cases h⟩
    · exact ⟨hpicks q hq c c' hc.name, fun _ => hc⟩
  rw [List.map_id] at hwalk
  rw [samePlace_walk, hnames]
  generalize walk elements picks (ps ++ [p]) e = x at hwalk ⊢
  generalize walk elements picks (ps ++ [p]) e' = y at hwalk ⊢
  rcases hwalk with ⟨hpos, -⟩ | _
  · exact congrArg some hpos
  · rfl

/-- A name without a prefix leads to the same place. -/
theorem samePlace_plain {p : Str} (hpath : OnPath p [] p) (hcolon : ':' ∉ p) {e e' : Str × Ptree}
    (h : ρ.Inside δ e e') : SamePlace p e.2 e'.2 := by
  refine samePlace_of_picks hpath (fun q hq c c' hname => ?_) h
  obtain rfl := List.mem_singleton.1 hq
  rw [picks_plain hpath.2.1]
  exact decide_eq_decide.2 (hname.eq_plain_iff hcolon)

/-! ## Two answers, two mappings -/

section
variable {Address : Type} (env : Env Address)

/-- The path of `get_external_address`. -/
abbrev externalPath : Str :=
  "*:Envelope.*:Body.u:GetExternalIPAddressResponse.NewExternalIPAddress".toList

/-- The path of `get_generic_port_mapping_entry`. -/
abbrev genericPath : Str := "*:Envelope.*:Body.u:GetGenericPortMappingEntryResponse".toList

/-- The name that `get_list_of_port_mappings` looks for in a listing. -/
abbrev listName : Str := "p:PortMappingList".toList

/-- The name of the entries of a listing. -/
abbrev entryName : Str := "p:PortMappingEntry".toList

/-- The texts that an element has under these tags. -/
def fieldTexts (tag : MappingField → Str) (t : Ptree) : FieldTexts := fun x => t.getOptional (tag x)

/-- An element of a listing that is an entry with a mapping in its fields. -/
def IsEntry (e : Str × Ptree) : Prop :=
  e.1 = entryName ∧ HoldsMapping env Igd.listProtocol (fieldTexts listTag e.2)

instance : DecidablePred (IsEntry env) := fun _ => inferInstanceAs (Decidable (_ ∧ _))

/-- Two entries have the same in each of their fields. -/
def AlikeEntries (e e' : Str × Ptree) : Prop :=
  SameFields env Igd.listProtocol (fieldTexts listTag e.2) (fieldTexts listTag e'.2)

/-- The path leads to the same element before and after; or to two that hold the
    same address, or two texts that are none. -/
def AddressKept (t t' : Ptree) : Prop :=
  SamePlace externalPath t t' ∨ ∃ d d', t.get externalPath = some d ∧
    t'.get externalPath = some d' ∧ env.makeAddress d = env.makeAddress d'

/-- The path leads to the same element before and after; or to two with the same
    mapping in their fields, or two without one. -/
def EntryKept (t t' : Ptree) : Prop :=
  SamePlace genericPath t t' ∨ ∃ o o', t.getChild genericPath = some o ∧
    t'.getChild genericPath = some o' ∧
    SameMapping env Igd.genericProtocol (fieldTexts genericTag o) (fieldTexts genericTag o')

/-- An element of a listing is an entry before exactly if after, and then its fields
    are at the same places. -/
structure SameEntry (e e' : Str × Ptree) : Prop where
  name : e.1 = entryName ↔ e'.1 = entryName
  fields : e.1 = entryName → ∀ x, SamePlace (listTag x) e.2 e'.2

/-- All paths of `get_list_of_port_mappings` lead to the same places: the one to the
    text of the listing, the one inside of it, and those from its elements. -/
structure SameListing (t t' : Ptree) : Prop where
  text : SamePlace listPath t t'
  list : ∀ l l', (t.getOptional listPath).bind env.readXml = some l →
    (t'.getOptional listPath).bind env.readXml = some l' → SamePlace listName l l'
  entries : ∀ list list', listingOf env t = some list → listingOf env t' = some list' →
    List.Forall₂ SameEntry list.children list'.children

/-- All paths lead to the same places; or there is no listing before and after; or
    there are two whose entries, one after the other, have the same in their fields. -/
def ListKept (t t' : Ptree) : Prop :=
  SameListing env t t' ∨ (listingOf env t = none ∧ listingOf env t' = none) ∨
    ∃ list list', listingOf env t = some list ∧ listingOf env t' = some list' ∧
      List.Forall₂ (AlikeEntries env) (list.children.filter (IsEntry env))
        (list'.children.filter (IsEntry env))

variable {env} {b b' : Str} {t t' : Ptree}

theorem text_eq {d d' : Str} (hn : Ptree.localName n ≠ "NewPortListing".toList)
    (h : ρ.Text env n d d') : d = d' := by
  rwa [Text, if_neg hn] at h

/-! ## The address -/

theorem decodeExternalAddress_eq (hx : env.readXml b = some t) :
    Igd.decodeExternalAddress env b = .ok (match t.get externalPath with
      | none => .error .invalidResponse
      | some d => match env.makeAddress d with
        | none => .error .badAddress
        | some addr => .ok addr) := by
  simp only [Igd.decodeExternalAddress, hx]
  rcases t.get externalPath with _ | d
  · rfl
  · simp only [Option.isNone_some, Bool.false_eq_true, if_false, deref, bind, Except.bind]
    rcases env.makeAddress d with _ | addr <;> rfl

theorem get_external_eq (h : ρ.Response env t t') (hplace : SamePlace externalPath t t') :
    t.get externalPath = t'.get externalPath := by
  have hpath : OnPath externalPath ["*:Envelope".toList, "*:Body".toList,
      "u:GetExternalIPAddressResponse".toList] "NewExternalIPAddress".toList := by decide
  exact eq_of_rel (get_samePlace hpath (inside_root h) hplace) fun _ _ => text_eq (by decide)

theorem decodeExternalAddress_iff (hx : env.readXml b = some t) (hx' : env.readXml b' = some t')
    (h : ρ.Response env t t') : Igd.decodeExternalAddress env b = Igd.decodeExternalAddress env b' ↔
      AddressKept env t t' := by
  rw [decodeExternalAddress_eq hx, decodeExternalAddress_eq hx', Except.ok.injEq]
  constructor
  · intro heq
    rcases hd : t.get externalPath with _ | d <;> rcases hd' : t'.get externalPath with _ | d' <;>
      rw [hd, hd'] at heq
    · rw [Ptree.get, Option.map_eq_none_iff] at hd hd'
      exact .inl (samePlace_of_none hd hd')
    · dsimp only at heq
      split at heq <;> cases heq
    · dsimp only at heq
      split at heq <;> cases heq
    · refine .inr ⟨d, d', hd, hd', ?_⟩
      dsimp only at heq
      generalize env.makeAddress d = x at heq ⊢
      generalize env.makeAddress d' = y at heq ⊢
      rcases x with _ | addr <;> rcases y with _ | addr' <;> cases heq <;> rfl
  · rintro (hplace | ⟨d, d', hd, hd', haddr⟩)
    · rw [get_external_eq h hplace]
    · simp only [hd, hd', haddr]

/-! ## The generic entry -/

theorem genericTag_onPath (x : MappingField) : OnPath (genericTag x) [] (genericTag x) ∧
    ':' ∉ genericTag x ∧ (∀ p ∈ (genericTag x).splitOn '.', ¬ ['*', ':'] <+: p) ∧
    Ptree.localName (genericTag x) ≠ "NewPortListing".toList := by
  cases x <;> decide

/-- The fields of a generic entry have no prefixes. -/
theorem fieldTexts_generic {e e' : Str × Ptree} (h : ρ.Inside (ρ.Text env) e e') :
    fieldTexts genericTag e.2 = fieldTexts genericTag e'.2 := by
  funext x
  obtain ⟨htag, hcolon, hplain, hlocal⟩ := genericTag_onPath x
  exact eq_of_rel (getOptional_samePlace htag hplain h (samePlace_plain htag hcolon h))
    fun _ _ => text_eq hlocal

theorem decodeGeneric_none (hx : env.readXml b = some t) (ho : t.getChild genericPath = none) :
    Igd.decodeGenericPortMappingEntry env b = .error .nullDereference := by
  simp only [Igd.decodeGenericPortMappingEntry, hx, ho]
  rfl

theorem decodeGeneric_iff (hx : env.readXml b = some t) (hx' : env.readXml b' = some t')
    (h : ρ.Response env t t') :
    Igd.decodeGenericPortMappingEntry env b = Igd.decodeGenericPortMappingEntry env b' ↔
      EntryKept env t t' := by
  have hfields := fun (b : Str) (t o : Ptree) (hx : env.readXml b = some t)
      (ho : t.getChild genericPath = some o) =>
    decodeGenericPortMappingEntry_fields (f := fieldTexts genericTag o) env hx ho fun _ => rfl
  constructor
  · intro heq
    rcases ho : t.getChild genericPath with _ | o <;>
      rcases ho' : t'.getChild genericPath with _ | o'
    · exact .inl (samePlace_of_none ho ho')
    · rw [decodeGeneric_none hx ho, hfields b' t' o' hx' ho'] at heq
      cases heq
    · rw [hfields b t o hx ho, decodeGeneric_none hx' ho'] at heq
      cases heq
    · refine .inr ⟨o, o', ho, ho', ?_⟩
      rw [hfields b t o hx ho, hfields b' t' o' hx' ho', Except.ok.injEq] at heq
      refine readMapping_same_iff.1 ?_
      generalize readMapping env Igd.genericProtocol (fieldTexts genericTag o) = x at heq ⊢
      generalize readMapping env Igd.genericProtocol (fieldTexts genericTag o') = y at heq ⊢
      rcases x with _ | m <;> rcases y with _ | m' <;> cases heq <;> rfl
  · rintro (hplace | ⟨o, o', ho, ho', hread⟩)
    · have hpath : OnPath genericPath ["*:Envelope".toList, "*:Body".toList]
          "u:GetGenericPortMappingEntryResponse".toList := by decide
      have hchild := getChild_samePlace hpath (inside_root h) hplace
      generalize ho : t.getChild genericPath = o at hchild
      generalize ho' : t'.getChild genericPath = o' at hchild
      rcases hchild with @⟨o, o', n', hin⟩ | _
      · rw [hfields b t o hx ho, hfields b' t' o' hx' ho', fieldTexts_generic hin]
      · rw [decodeGeneric_none hx ho, decodeGeneric_none hx' ho']
    · rw [hfields b t o hx ho, hfields b' t' o' hx' ho',
        readMapping_same_iff.2 hread]

/-! ## The list -/

variable (env) in
/-- The mapping that stands in an element of a listing, if one does. -/
def listed (e : Str × Ptree) : Option (MapEntry Address) :=
  if e.1 = entryName then readMapping env Igd.listProtocol (fieldTexts listTag e.2) else none

theorem entriesOf_eq (es : List (Str × Ptree)) : entriesOf env es = es.filterMap (listed env) := by
  rw [List.filterMap_eq_flatMap_toList, entriesOf]
  refine List.flatMap_congr fun e _ => ?_
  rw [listed, entryOf_fields env fun _ => rfl]
  by_cases hname : e.1 = entryName
  · rw [if_pos hname, if_pos hname]
    rfl
  · rw [if_neg hname, if_neg hname]
    rfl

theorem isEntry_iff {e : Str × Ptree} : IsEntry env e ↔ ∃ m, listed env e = some m := by
  rw [IsEntry, holdsMapping_iff, Option.ne_none_iff_exists', listed]
  by_cases hname : e.1 = entryName
  · simp only [hname, true_and, if_true]
  · simp only [hname, false_and, if_false, reduceCtorEq, exists_false]

/-- What two entries hold. -/
theorem listed_eq_iff {e e' : Str × Ptree} (h : IsEntry env e) (h' : IsEntry env e') :
    listed env e = listed env e' ↔ AlikeEntries env e e' := by
  rw [listed, listed, if_pos h.1, if_pos h'.1, readMapping_same_iff, SameMapping, AlikeEntries]
  simp only [h.2, h'.2, true_and, not_true_eq_false, and_false, or_false]

/-- Two listings hold the same mappings exactly if these stand one after the other. -/
theorem entriesOf_eq_iff {es es' : List (Str × Ptree)} : entriesOf env es = entriesOf env es' ↔
    List.Forall₂ (AlikeEntries env) (es.filter (IsEntry env)) (es'.filter (IsEntry env)) := by
  have hmap : ∀ es : List (Str × Ptree), (entriesOf env es).map some =
      (es.filter (IsEntry env)).map (listed env) := by
    intro es
    rw [entriesOf_eq]
    induction es with
    | nil => rfl
    | cons e es ih =>
      by_cases he : IsEntry env e
      · obtain ⟨m, hm⟩ := isEntry_iff.1 he
        rw [List.filterMap_cons_some hm, List.filter_cons_of_pos (by simp [he]),
          List.map_cons, List.map_cons, hm, ih]
      · have hnone : listed env e = none :=
          Option.eq_none_iff_forall_ne_some.2 fun m hm => he (isEntry_iff.2 ⟨m, hm⟩)
        rw [List.filterMap_cons_none hnone, List.filter_cons_of_neg (by simp [he]), ih]
  have hentry : ∀ {es : List (Str × Ptree)} {i : ℕ} (hi : i < (es.filter (IsEntry env)).length),
      IsEntry env ((es.filter (IsEntry env)).get ⟨i, hi⟩) :=
    fun hi => of_decide_eq_true (List.mem_filter.1 (List.get_mem _ ⟨_, hi⟩)).2
  rw [← (List.map_injective_iff.2 (Option.some_injective _)).eq_iff, hmap, hmap,
    ← List.forall₂_eq_eq_eq, List.forall₂_map_left_iff, List.forall₂_map_right_iff,
    List.forall₂_iff_get, List.forall₂_iff_get]
  exact and_congr_right fun _ =>
    forall₃_congr fun i hi hi' => listed_eq_iff (hentry hi) (hentry hi')

theorem listTag_onPath (x : MappingField) : OnPath (listTag x) [] (listTag x) ∧
    ∀ p ∈ (listTag x).splitOn '.', ¬ ['*', ':'] <+: p := by
  cases x <;> decide

theorem listed_sameEntry {e e' : Str × Ptree} (h : ρ.Element (fun _ d d' => d = d') e e')
    (hsame : SameEntry e e') : listed env e = listed env e' := by
  rcases h.inside with ⟨hattr, hattr'⟩ | hin
  · have hne : "<xmlattr>".toList ≠ entryName := by decide
    rw [listed, listed, hattr, hattr', if_neg hne, if_neg hne]
  · by_cases hname : e.1 = entryName
    · have hfields : fieldTexts listTag e.2 = fieldTexts listTag e'.2 := by
        funext x
        obtain ⟨htag, hplain⟩ := listTag_onPath x
        exact eq_of_rel (getOptional_samePlace htag hplain hin (hsame.fields hname x))
          fun _ _ => id
      rw [listed, listed, if_pos hname, if_pos (hsame.name.1 hname), hfields]
    · rw [listed, listed, if_neg hname, if_neg (mt hsame.name.2 hname)]

theorem entriesOf_sameEntry {es es' : List (Str × Ptree)}
    (h : List.Forall₂ (ρ.Element fun _ d d' => d = d') es es')
    (hsame : List.Forall₂ SameEntry es es') : entriesOf env es = entriesOf env es' := by
  rw [entriesOf_eq, entriesOf_eq]
  induction h with
  | nil => rfl
  | cons he _ ih =>
    cases hsame with
    | cons hsame hrest =>
      rw [List.filterMap_cons, List.filterMap_cons, ih hrest, listed_sameEntry he hsame]

/-- The texts of the two listings are read as trees of which one becomes the other. -/
theorem listingText_samePlace (h : ρ.Response env t t') (hplace : SamePlace listPath t t') :
    Option.Rel ρ.Tree ((t.getOptional listPath).bind env.readXml)
      ((t'.getOptional listPath).bind env.readXml) := by
  have hpath : OnPath listPath ["s:Envelope".toList, "s:Body".toList,
      "u:GetListOfPortMappingsResponse".toList] "NewPortListing".toList := by decide
  have htext := getOptional_samePlace hpath (by decide) (inside_root h) hplace
  generalize t.getOptional listPath = x at htext ⊢
  generalize t'.getOptional listPath = y at htext ⊢
  rcases htext with @⟨d, d', hd⟩ | _
  · rwa [Text, if_pos (by decide)] at hd
  · exact .none

theorem listing_samePlace {l l' : Ptree} (h : ρ.Tree l l') (hplace : SamePlace listName l l') :
    Option.Rel (fun list list' =>
        ∃ n', ρ.Inside (fun _ d d' => d = d') (listName, list) (n', list'))
      (l.getChildOptional listName) (l'.getChildOptional listName) := by
  have hpath : OnPath listName [] listName := by decide
  have hchild := getChild_samePlace hpath (inside_root h) hplace
  rwa [getChild_plain _ (by decide), getChild_plain _ (by decide)] at hchild

/-- **What is found along paths to the same places.** -/
theorem listingOf_sameListing (h : ρ.Response env t t') (hsame : SameListing env t t') :
    Option.Rel (fun list list' => entriesOf env list.children = entriesOf env list'.children)
      (listingOf env t) (listingOf env t') := by
  have hread := listingText_samePlace h hsame.text
  have hlist := hsame.list
  have hentries := hsame.entries
  unfold listingOf at hentries ⊢
  generalize (t.getOptional listPath).bind env.readXml = x at hread hlist hentries ⊢
  generalize (t'.getOptional listPath).bind env.readXml = y at hread hlist hentries ⊢
  rcases hread with @⟨l, l', hl⟩ | _
  · have hchild := listing_samePlace hl (hlist l l' rfl rfl)
    rw [Option.bind_some, Option.bind_some] at hentries ⊢
    generalize l.getChildOptional listName = x at hchild hentries ⊢
    generalize l'.getChildOptional listName = y at hchild hentries ⊢
    rcases hchild with @⟨list, list', n', hin⟩ | _
    · exact .some (entriesOf_sameEntry hin.children (hentries list list' rfl rfl))
    · exact .none
  · exact .none

theorem decodeList_iff (hx : env.readXml b = some t) (hx' : env.readXml b' = some t')
    (h : ρ.Response env t t') :
    Igd.decodeListOfPortMappings env b = Igd.decodeListOfPortMappings env b' ↔
      ListKept env t t' := by
  rw [decodeListOfPortMappings_eq env hx, decodeListOfPortMappings_eq env hx', Except.ok.injEq]
  constructor
  · intro heq
    refine .inr ?_
    generalize listingOf env t = x at heq ⊢
    generalize listingOf env t' = y at heq ⊢
    rcases x with _ | list <;> rcases y with _ | list'
    · exact .inl ⟨rfl, rfl⟩
    · cases heq
    · cases heq
    · exact .inr ⟨list, list', rfl, rfl, entriesOf_eq_iff.1 (Except.ok.inj heq)⟩
  · rintro (hsame | ⟨hnone, hnone'⟩ | ⟨list, list', hlist, hlist', hread⟩)
    · have hrel := listingOf_sameListing h hsame
      generalize listingOf env t = x at hrel ⊢
      generalize listingOf env t' = y at hrel ⊢
      rcases hrel with heq | _
      · exact congrArg Except.ok heq
      · rfl
    · rw [hnone, hnone']
    · simp only [hlist, hlist', entriesOf_eq_iff.2 hread]

/-! ## What the operations return -/

/-- The gateway answers the same request twice, with the responses `t` and `t'`, of
    which the first becomes the second. -/
def AnswersWith (ρ : Renaming) (env : Env Address) (net net' : Net Address) (g : Igd)
    (command message : Str) (t t' : Ptree) : Prop :=
  ∃ rs rs', g.soapRequest env net command message = .ok rs ∧
    g.soapRequest env net' command message = .ok rs' ∧
    env.readXml rs.body = some t ∧ env.readXml rs'.body = some t' ∧ ρ.Response env t t'

variable {net net' : Net Address} {g : Igd}

theorem AnswersWith.response {command message : Str}
    (h : ρ.AnswersWith env net net' g command message t t') : ρ.Response env t t' := by
  obtain ⟨_, _, -, -, -, -, ht⟩ := h
  exact ht

theorem getExternalAddress_iff (h : ρ.AnswersWith env net net' g "GetExternalIPAddress".toList
    (Igd.getExternalAddressBody g.urn) t t') :
    g.getExternalAddress env net = g.getExternalAddress env net' ↔ AddressKept env t t' := by
  obtain ⟨rs, rs', hrs, hrs', hx, hx', ht⟩ := h
  simp only [Igd.getExternalAddress, hrs, hrs']
  exact decodeExternalAddress_iff hx hx' ht

theorem getGenericEntry_iff {index : ℕ} (h : ρ.AnswersWith env net net' g
    "GetGenericPortMappingEntry".toList (Igd.getGenericPortMappingEntryBody g.urn index) t t') :
    g.getGenericPortMappingEntry env net index = g.getGenericPortMappingEntry env net' index ↔
      EntryKept env t t' := by
  obtain ⟨rs, rs', hrs, hrs', hx, hx', ht⟩ := h
  simp only [Igd.getGenericPortMappingEntry, hrs, hrs']
  exact decodeGeneric_iff hx hx' ht

theorem getList_iff {proto : Protocol} {minPort maxPort maxCount : ℕ}
    (h : ρ.AnswersWith env net net' g "GetListOfPortMappings".toList
      (Igd.getListOfPortMappingsBody g.urn proto minPort maxPort maxCount) t t') :
    g.getListOfPortMappings env net proto minPort maxPort maxCount =
      g.getListOfPortMappings env net' proto minPort maxPort maxCount ↔ ListKept env t t' := by
  obtain ⟨rs, rs', hrs, hrs', hx, hx', ht⟩ := h
  simp only [Igd.getListOfPortMappings, hrs, hrs']
  exact decodeList_iff hx hx' ht

end

/-- The prefix `q` becomes `q'`. -/
def single (q q' : Str) (h : ':' ∉ q ∧ ':' ∉ q') : Renaming where
  maps x x' := x = q ∧ x' = q'
  colon := by
    rintro _ _ ⟨rfl, rfl⟩
    exact h

/-- An environment in which exactly these documents can be read. -/
def reading (docs : List (Str × Ptree)) : Env Unit := .oneHost fun s => docs.lookup s

/-- A net on which every request is answered with the body `b`. -/
def answering (b : Str) : Net Unit := fun _ _ => .response ⟨200, b⟩

theorem soapRequest_answering (docs : List (Str × Ptree)) (b command message : Str) :
    Igd.localGateway.soapRequest (reading docs) (answering b) command message = .ok ⟨200, b⟩ :=
  Igd.soapRequest_answered ⟨(⟨(), 5000⟩, []), rfl⟩ (fun _ _ => rfl) _ _

section
variable {Address : Type} {env : Env Address} {t t' : Ptree} {m m' p : Str}

theorem text_refl (hn : Ptree.localName n ≠ "NewPortListing".toList) (d : Str) :
    ρ.Text env n d d := by
  rw [Text, if_neg hn]

/-- An element without a prefix. -/
theorem element_plain (hl : ':' ∉ l ∧ l ≠ "NewPortListing".toList) (d : Str)
    {es es' : List (Str × Ptree)} (hes : List.Forall₂ (ρ.Element (ρ.Text env)) es es') :
    ρ.Element (ρ.Text env) (l, ⟨d, es⟩) (l, ⟨d, es'⟩) := by
  refine .element (.plain hl.1) (text_refl ?_ d) hes
  rw [localName_plain hl.1]
  exact hl.2

/-- An element with a prefix. -/
theorem element_qualified {q q' : Str} (hq : ρ.maps q q') (hl : l ≠ "NewPortListing".toList)
    (d : Str) {es es' : List (Str × Ptree)}
    (hes : List.Forall₂ (ρ.Element (ρ.Text env)) es es') :
    ρ.Element (ρ.Text env) (q ++ ':' :: l, ⟨d, es⟩) (q' ++ ':' :: l, ⟨d, es'⟩) := by
  refine .element (.qualified hq l) (text_refl ?_ d) hes
  rw [localName_qualified (ρ.colon hq).1]
  exact hl

theorem pick_only_ne (h : picks p (m, t) = false) : (Ptree.only m t).pick p = none := by
  rw [← pickAt_node, pickAt_eq, Ptree.only, firstHit, h]
  rfl

theorem getChild_only_ne {rest : Str} (hdot : '.' ∉ p) (h : picks p (m, t) = false) :
    (Ptree.only m t).getChild (p ++ '.' :: rest) = none := by
  rw [getChild_dot hdot, pick_only_ne h, Option.bind_none]

theorem getChildOptional_only_ite {rest : Str} (hdot : '.' ∉ p) :
    (Ptree.only m t).getChildOptional (p ++ '.' :: rest) =
      if m = p then t.getChildOptional rest else none := by
  rw [getChildOptional_dot hdot]
  by_cases hm : m = p <;> simp [Ptree.only, named, hm]

/-- An answer to `get_external_address`, with the prefix `q`. -/
def externalDoc (q : Str) : Ptree :=
  .only "Envelope".toList <| .only "Body".toList <|
    .only (q ++ ':' :: "GetExternalIPAddressResponse".toList) <|
      .only "NewExternalIPAddress".toList ⟨"192.168.0.1".toList, []⟩

theorem externalDoc_response {q q' : Str} (h : ρ.maps q q') :
    ρ.Response env (externalDoc q) (externalDoc q') := by
  have hip : ρ.Element (ρ.Text env) ("NewExternalIPAddress".toList, ⟨"192.168.0.1".toList, []⟩) _ :=
    element_plain (by decide) _ .nil
  have hresponse := element_qualified (l := "GetExternalIPAddressResponse".toList) h (by decide) []
    (.cons hip .nil)
  have hbody := element_plain (l := "Body".toList) (by decide) [] (.cons hresponse .nil)
  have henvelope := element_plain (l := "Envelope".toList) (by decide) [] (.cons hbody .nil)
  exact element_plain (by decide) [] (.cons henvelope .nil)

theorem decodeExternal_doc {docs : List (Str × Ptree)} {b q : Str}
    (hx : (reading docs).readXml b = some (externalDoc q)) :
    Igd.decodeExternalAddress (reading docs) b =
      .ok (if q = "u".toList then .ok () else .error .invalidResponse) := by
  have hpath : externalPath = "*:Envelope".toList ++ '.' :: ("*:Body".toList ++
      '.' :: (("u".toList ++ ':' :: "GetExternalIPAddressResponse".toList) ++
        '.' :: "NewExternalIPAddress".toList)) := rfl
  have hget : (externalDoc q).get externalPath =
      if q = "u".toList then some "192.168.0.1".toList else none := by
    rw [Ptree.get, hpath, externalDoc, Ptree.getChild_only (by decide) rfl,
      Ptree.getChild_only (by decide) rfl]
    have hu : picks ("u".toList ++ ':' :: "GetExternalIPAddressResponse".toList) = named _ :=
      picks_plain (by decide)
    by_cases hq : q = "u".toList
    · subst hq
      rw [if_pos rfl, Ptree.getChild_only (by decide) (by rw [hu]; exact decide_eq_true rfl),
        getChild_name (by decide) (by decide), Ptree.pick_only rfl]
      rfl
    · rw [if_neg hq, getChild_only_ne (by decide) (by
        rw [hu]
        exact decide_eq_false fun h => hq (List.append_cancel_right h))]
      rfl
  simp only [Igd.decodeExternalAddress, hx, hget]
  by_cases hq : q = "u".toList
  · simp only [hq, if_true]
    rfl
  · simp only [hq, if_false]
    rfl

end

end Renaming

end Upnp
