/-
  Device descriptions of any depth, against `device_parse`.

  A `DeviceText` is what a description says of a device, with the devices embedded
  in it; `Renders` relates it to the trees that say so.  Where a list has nodes
  that lack a required tag, these say nothing.

  * `ListsAll.filterMap`: what a loop over a list makes of its nodes;
  * `deviceParse_iff`: `device_parse` returns the device that a tree renders, and
    none exactly if a required tag is missing.
-/
import Upnp.Listing

namespace Upnp

/-! ## Descriptions -/

/-- What a description says of a service. -/
structure ServiceText where
  id : Str
  type : Str
  controlUrl : Str

/-- What a description says of a device. -/
structure DeviceText where
  type : Str
  udn : Str
  friendlyName : Str
  devices : List DeviceText
  services : List ServiceText

/-- The tags required of a service. -/
def serviceTags : List Str := ["serviceId".toList, "serviceType".toList, "controlURL".toList]

/-- The tags required of a device. -/
def deviceTags : List Str := ["deviceType".toList, "UDN".toList, "friendlyName".toList]

namespace Ptree

/-- The element lacks one of the tags. -/
def Lacks (t : Ptree) (tags : List Str) : Prop := ∃ tag ∈ tags, ∀ e ∈ t.children, e.1 ≠ tag

/-- The nodes in the first element `tag`; there are none if it is missing. -/
inductive Items (t : Ptree) (tag : Str) : List (Str × Ptree) → Prop
  | list {e} (h : t.children.find? (fun e => e.1 = tag) = some e) : Items t tag e.2.children
  | absent (h : ∀ e ∈ t.children, e.1 ≠ tag) : Items t tag []

end Ptree

/-- The nodes of a list render these things, in their order; other nodes are between
    them that lack one of the tags. -/
inductive ListsAll {α : Type} (R : α → Ptree → Prop) (tags : List Str) :
    List α → List (Str × Ptree) → Prop
  | nil : ListsAll R tags [] []
  | item {a c as es} (n) (h : R a c) (hes : ListsAll R tags as es) :
      ListsAll R tags (a :: as) ((n, c) :: es)
  | extra {c as es} (n) (h : c.Lacks tags) (hes : ListsAll R tags as es) :
      ListsAll R tags as ((n, c) :: es)

/-- The tree renders the service. -/
structure ServiceText.Renders (s : ServiceText) (t : Ptree) : Prop where
  id : t.Field "serviceId".toList s.id
  type : t.Field "serviceType".toList s.type
  controlUrl : t.Field "controlURL".toList s.controlUrl

/-- The tree renders the device, with all that is embedded in it. -/
inductive DeviceText.Renders : DeviceText → Ptree → Prop
  | device {d t ss ds} (type : t.Field "deviceType".toList d.type)
      (udn : t.Field "UDN".toList d.udn)
      (friendlyName : t.Field "friendlyName".toList d.friendlyName)
      (hss : t.Items "serviceList".toList ss)
      (services : ListsAll ServiceText.Renders serviceTags d.services ss)
      (hds : t.Items "deviceList".toList ds)
      (devices : ListsAll DeviceText.Renders deviceTags d.devices ds) : DeviceText.Renders d t

/-- The service that is read from a description: its `control_url` is what
    `url_t::parse` makes of the text. -/
def ServiceText.toService (al : Alloc) (s : ServiceText) : Service :=
  ⟨s.id, s.type, ((Url.parseLocal (al 0) s.controlUrl).move (al 1)).move (al 2)⟩

/-- The device that is read from a description. -/
def DeviceText.toDevice (al : Alloc) (d : DeviceText) : Device :=
  ⟨d.type, d.udn, d.friendlyName, d.devices.map (toDevice al), d.services.map (·.toService al)⟩
termination_by sizeOf d
decreasing_by
  obtain ⟨type, udn, friendlyName, devices, services⟩ := d
  rename_i hmem
  have := List.sizeOf_lt_of_mem hmem
  simp only [DeviceText.mk.sizeOf_spec] at this ⊢
  omega

/-! ## Tags -/

section
variable {al : Alloc} {t : Ptree} {tag text : Str}

theorem serviceTags_name : ∀ tag ∈ serviceTags, tag ≠ [] ∧ '.' ∉ tag := by decide

theorem deviceTags_name : ∀ tag ∈ deviceTags, tag ≠ [] ∧ '.' ∉ tag := by decide

theorem getOptional_of_field (hname : tag ≠ [] ∧ '.' ∉ tag) (h : t.Field tag text) :
    t.getOptional tag = some text := by
  obtain ⟨e, he, rfl⟩ := h
  rw [Ptree.getOptional_name hname.1 hname.2, he, Option.map_some]

theorem field_of_getOptional (hname : tag ≠ [] ∧ '.' ∉ tag) (h : t.getOptional tag = some text) :
    t.Field tag text := by
  rw [Ptree.getOptional_name hname.1 hname.2, Option.map_eq_some_iff] at h
  exact h

theorem getOptional_eq_none (hname : tag ≠ [] ∧ '.' ∉ tag) :
    t.getOptional tag = none ↔ ∀ e ∈ t.children, e.1 ≠ tag := by
  rw [Ptree.getOptional_name hname.1 hname.2, Option.map_eq_none_iff, List.find?_eq_none]
  simp only [decide_eq_true_eq, ne_eq]

theorem lacks_iff {tags : List Str} (hname : ∀ tag ∈ tags, tag ≠ [] ∧ '.' ∉ tag) :
    t.Lacks tags ↔ ∃ tag ∈ tags, t.getOptional tag = none :=
  exists_congr fun tag => and_congr_right fun hmem => (getOptional_eq_none (hname tag hmem)).symm

theorem field_of_not_lacks {tags : List Str} (hname : ∀ tag ∈ tags, tag ≠ [] ∧ '.' ∉ tag)
    (h : ¬ t.Lacks tags) : ∀ tag ∈ tags, ∃ text, t.Field tag text := by
  intro tag hmem
  rw [lacks_iff hname] at h
  obtain ⟨text, htext⟩ := Option.ne_none_iff_exists'.1 fun hnone => h ⟨tag, hmem, hnone⟩
  exact ⟨text, field_of_getOptional (hname tag hmem) htext⟩

/-- The nodes of a list are what the code loops over. -/
theorem Ptree.Items.childrenOf_eq {es : List (Str × Ptree)} (h : t.Items tag es)
    (hname : tag ≠ [] ∧ '.' ∉ tag) : childrenOf t tag = es := by
  unfold childrenOf
  rw [Ptree.getChildOptional_name hname.1 hname.2]
  rcases h with h | h
  · rw [h]
    rfl
  · rw [List.find?_eq_none.2 (by simpa using h)]
    rfl

theorem items_childrenOf (hname : tag ≠ [] ∧ '.' ∉ tag) : t.Items tag (childrenOf t tag) := by
  unfold childrenOf
  rcases hc : t.getChildOptional tag with _ | c
  · rw [Ptree.getChildOptional_name hname.1 hname.2, Option.map_eq_none_iff,
      List.find?_eq_none] at hc
    exact .absent (by simpa using hc)
  · rw [Ptree.getChildOptional_name hname.1 hname.2, Option.map_eq_some_iff] at hc
    obtain ⟨e, he, rfl⟩ := hc
    exact .list he

/-! ## Lists -/

/-- **A loop over a list finds what its nodes render, and passes over the others.** -/
theorem ListsAll.filterMap {α β : Type} {R : α → Ptree → Prop} {tags : List Str} {as : List α}
    {es : List (Str × Ptree)} {parse : Ptree → Option β} {f : α → β} (h : ListsAll R tags as es)
    (hR : ∀ e ∈ es, ∀ a, R a e.2 → parse e.2 = some (f a))
    (hlacks : ∀ e ∈ es, e.2.Lacks tags → parse e.2 = none) :
    es.filterMap (fun e => parse e.2) = as.map f := by
  induction h with
  | nil => rfl
  | item n h _ ih =>
    rw [List.forall_mem_cons] at hR hlacks
    rw [List.filterMap_cons, hR.1 _ h, List.map_cons, ih hR.2 hlacks.2]
  | extra n h _ ih =>
    rw [List.forall_mem_cons] at hR hlacks
    rw [List.filterMap_cons, hlacks.1 h, ih hR.2 hlacks.2]

/-- Any list renders something, if each of its nodes lacks a tag or does. -/
theorem exists_listsAll {α : Type} {R : α → Ptree → Prop} {tags : List Str}
    (es : List (Str × Ptree)) (h : ∀ e ∈ es, e.2.Lacks tags ∨ ∃ a, R a e.2) :
    ∃ as, ListsAll R tags as es := by
  induction es with
  | nil => exact ⟨[], .nil⟩
  | cons e es ih =>
    rw [List.forall_mem_cons] at h
    obtain ⟨as, has⟩ := ih h.2
    rcases h.1 with hlacks | ⟨a, ha⟩
    · exact ⟨as, .extra e.1 hlacks has⟩
    · exact ⟨a :: as, .item e.1 ha has⟩

/-! ## Services -/

theorem serviceParse_renders {s : ServiceText} (h : s.Renders t) :
    serviceParse al t = some (s.toService al) := by
  have hid := getOptional_of_field (by decide) h.id
  have htype := getOptional_of_field (by decide) h.type
  have hurl := getOptional_of_field (by decide) h.controlUrl
  rw [serviceParse, hid, htype, hurl]
  rfl

theorem serviceParse_lacks (h : t.Lacks serviceTags) : serviceParse al t = none := by
  obtain ⟨tag, hmem, hnone⟩ := (lacks_iff serviceTags_name).1 h
  simp only [serviceTags, List.mem_cons, List.not_mem_nil, or_false] at hmem
  rw [serviceParse]
  rcases hmem with rfl | rfl | rfl
  · rw [hnone]
    rfl
  · rw [hnone]
    rcases t.getOptional "serviceId".toList with _ | id <;> rfl
  · rw [hnone]
    rcases t.getOptional "serviceId".toList with _ | id
    · rfl
    · rcases t.getOptional "serviceType".toList with _ | type <;> rfl

theorem service_lacks_or_renders (t : Ptree) :
    t.Lacks serviceTags ∨ ∃ s : ServiceText, s.Renders t := by
  by_cases hlacks : t.Lacks serviceTags
  · exact .inl hlacks
  · have hfield := field_of_not_lacks serviceTags_name hlacks
    obtain ⟨id, hid⟩ := hfield "serviceId".toList (by decide)
    obtain ⟨type, htype⟩ := hfield "serviceType".toList (by decide)
    obtain ⟨url, hurl⟩ := hfield "controlURL".toList (by decide)
    exact .inr ⟨⟨id, type, url⟩, hid, htype, hurl⟩

/-! ## Devices -/

theorem deviceParse_eq_none : deviceParse al t = none ↔ t.Lacks deviceTags := by
  constructor
  · intro h
    by_contra hlacks
    have hfield := field_of_not_lacks deviceTags_name hlacks
    obtain ⟨type, htype⟩ := hfield "deviceType".toList (by decide)
    obtain ⟨udn, hudn⟩ := hfield "UDN".toList (by decide)
    obtain ⟨name, hname⟩ := hfield "friendlyName".toList (by decide)
    rw [deviceParse_eq (getOptional_of_field (by decide) htype)
      (getOptional_of_field (by decide) hudn) (getOptional_of_field (by decide) hname)] at h
    cases h
  · intro hlacks
    obtain ⟨tag, hmem, hnone⟩ := (lacks_iff deviceTags_name).1 hlacks
    simp only [deviceTags, List.mem_cons, List.not_mem_nil, or_false] at hmem
    rw [deviceParse]
    rcases hmem with rfl | rfl | rfl
    · rw [hnone]
      rfl
    · rw [hnone]
      rcases t.getOptional "deviceType".toList with _ | type <;> rfl
    · rw [hnone]
      rcases t.getOptional "deviceType".toList with _ | type
      · rfl
      · rcases t.getOptional "UDN".toList with _ | udn <;> rfl

theorem DeviceText.toDevice_eq (al : Alloc) (d : DeviceText) : d.toDevice al =
    ⟨d.type, d.udn, d.friendlyName, d.devices.map (·.toDevice al),
      d.services.map (·.toService al)⟩ := by
  rw [DeviceText.toDevice]

/-- **What a tree renders is read from it**, at any depth. -/
theorem deviceParse_renders {d : DeviceText} (h : d.Renders t) :
    deviceParse al t = some (d.toDevice al) := by
  induction hn : sizeOf t using Nat.strong_induction_on generalizing t d with
  | _ n ih =>
    obtain ⟨type, udn, friendlyName, hss, services, hds, devices⟩ := h
    have hss := hss.childrenOf_eq (by decide)
    have hds := hds.childrenOf_eq (by decide)
    rw [deviceParse_eq (getOptional_of_field (by decide) type)
      (getOptional_of_field (by decide) udn) (getOptional_of_field (by decide) friendlyName),
      DeviceText.toDevice_eq, hss, hds]
    rw [services.filterMap (fun _ _ _ => serviceParse_renders) fun _ _ => serviceParse_lacks]
    -- an embedded device is smaller than its tree
    have hsize : ∀ e ∈ childrenOf t "deviceList".toList, sizeOf e.2 < n :=
      fun e he => hn ▸ sizeOf_childrenOf he
    rw [hds] at hsize
    rw [devices.filterMap (fun e he a ha => ih _ (hsize e he) ha rfl) fun _ _ =>
      deviceParse_eq_none.2]

/-- Any tree that has the required tags renders a device. -/
theorem device_lacks_or_renders (t : Ptree) :
    t.Lacks deviceTags ∨ ∃ d : DeviceText, d.Renders t := by
  induction hn : sizeOf t using Nat.strong_induction_on generalizing t with
  | _ n ih =>
    by_cases hlacks : t.Lacks deviceTags
    · exact .inl hlacks
    · have hfield := field_of_not_lacks deviceTags_name hlacks
      obtain ⟨type, htype⟩ := hfield "deviceType".toList (by decide)
      obtain ⟨udn, hudn⟩ := hfield "UDN".toList (by decide)
      obtain ⟨name, hname⟩ := hfield "friendlyName".toList (by decide)
      obtain ⟨services, hservices⟩ := exists_listsAll (childrenOf t "serviceList".toList)
        fun e _ => service_lacks_or_renders e.2
      obtain ⟨devices, hdevices⟩ := exists_listsAll (childrenOf t "deviceList".toList)
        fun e he => ih _ (hn ▸ sizeOf_childrenOf he) e.2 rfl
      exact .inr ⟨⟨type, udn, name, devices, services⟩, .device htype hudn hname
        (items_childrenOf (by decide)) hservices (items_childrenOf (by decide)) hdevices⟩

/-- **`device_parse` undoes rendering**: it returns the device that the tree renders,
    and none exactly if one of the required tags is missing at the top. -/
theorem deviceParse_iff (al : Alloc) :
    (∀ t dev, deviceParse al t = some dev ↔ ∃ d : DeviceText, d.Renders t ∧ d.toDevice al = dev) ∧
    (∀ t, deviceParse al t = none ↔ t.Lacks deviceTags) ∧
    ∀ s : ServiceText, ∃ url, Url.parse al s.controlUrl = some url ∧
      (s.toService al).controlUrl.Same url := by
  refine ⟨?_, fun _ => deviceParse_eq_none, fun s => ⟨_, rfl, Url.move_same _ _⟩⟩
  intro t dev
  constructor
  · intro h
    rcases device_lacks_or_renders t with hlacks | ⟨d, hd⟩
    · rw [deviceParse_eq_none.2 hlacks] at h
      cases h
    · rw [deviceParse_renders hd] at h
      exact ⟨d, hd, Option.some.inj h⟩
  · rintro ⟨d, hd, rfl⟩
    exact deviceParse_renders hd

end

/-! ## A description -/

/-- The element of a service, as a gateway writes it. -/
def ServiceText.xml (s : ServiceText) : Str × Ptree :=
  ("service".toList, ⟨[], [Ptree.leaf "serviceType".toList s.type,
    Ptree.leaf "serviceId".toList s.id, Ptree.leaf "controlURL".toList s.controlUrl]⟩)

/-- The element of a device, as a gateway writes it. -/
def DeviceText.xml (d : DeviceText) : Str × Ptree :=
  ("device".toList, ⟨[], [Ptree.leaf "deviceType".toList d.type,
    Ptree.leaf "friendlyName".toList d.friendlyName, Ptree.leaf "UDN".toList d.udn,
    ("serviceList".toList, ⟨[], d.services.map ServiceText.xml⟩),
    ("deviceList".toList, ⟨[], d.devices.map xml⟩)]⟩)
termination_by sizeOf d
decreasing_by
  obtain ⟨type, udn, friendlyName, devices, services⟩ := d
  rename_i hmem
  have := List.sizeOf_lt_of_mem hmem
  simp only [DeviceText.mk.sizeOf_spec] at this ⊢
  omega

theorem ServiceText.renders_xml (s : ServiceText) : s.Renders s.xml.2 :=
  ⟨⟨_, rfl, rfl⟩, ⟨_, rfl, rfl⟩, ⟨_, rfl, rfl⟩⟩

theorem listsAll_map {α : Type} {R : α → Ptree → Prop} {tags : List Str} {xml : α → Str × Ptree}
    {as : List α} (h : ∀ a ∈ as, R a (xml a).2) : ListsAll R tags as (as.map xml) := by
  induction as with
  | nil => exact .nil
  | cons a as ih =>
    rw [List.forall_mem_cons] at h
    exact .item (xml a).1 h.1 (ih h.2)

/-- **Any device can be rendered.** -/
theorem DeviceText.renders_xml (d : DeviceText) : d.Renders d.xml.2 := by
  induction hn : sizeOf d using Nat.strong_induction_on generalizing d with
  | _ n ih =>
    have hdevices : ∀ a ∈ d.devices, a.Renders a.xml.2 := by
      intro a ha
      refine ih _ ?_ a rfl
      obtain ⟨type, udn, friendlyName, devices, services⟩ := d
      have := List.sizeOf_lt_of_mem ha
      simp only [DeviceText.mk.sizeOf_spec] at this hn
      omega
    rw [DeviceText.xml]
    exact .device ⟨_, rfl, rfl⟩ ⟨_, rfl, rfl⟩ ⟨_, rfl, rfl⟩ (.list rfl)
      (listsAll_map fun s _ => s.renders_xml) (.list rfl) (listsAll_map hdevices)

/-- A device with a service. -/
def wanDevice : DeviceText :=
  ⟨"WANDevice".toList, "uuid:2".toList, "wan".toList, [],
    [⟨"WANIPConn1".toList, "WANIPConnection:1".toList, "/ctl/IPConn".toList⟩]⟩

/-- The device in a gateway. -/
def gateway : DeviceText :=
  ⟨"InternetGatewayDevice".toList, "uuid:1".toList, "gateway".toList, [wanDevice], []⟩

/-- The gateway, with the tags in another order, and with an embedded device that has
    no `UDN`. -/
def gatewayXml : Ptree :=
  ⟨[], [Ptree.leaf "UDN".toList "uuid:1".toList, Ptree.leaf "modelName".toList "m".toList,
    ("deviceList".toList, ⟨[],
      [("device".toList, ⟨[], [Ptree.leaf "deviceType".toList [],
        Ptree.leaf "friendlyName".toList [], ("deviceList".toList, ⟨[], [wanDevice.xml]⟩)]⟩),
        wanDevice.xml]⟩),
    Ptree.leaf "friendlyName".toList "gateway".toList,
    Ptree.leaf "deviceType".toList "InternetGatewayDevice".toList]⟩

theorem deviceParse_gateway : deviceParse (fun _ => ⟨4096, by decide⟩) gatewayXml =
    some (gateway.toDevice fun _ => ⟨4096, by decide⟩) := by
  have hlacks : (⟨[], [Ptree.leaf "deviceType".toList [], Ptree.leaf "friendlyName".toList [],
      ("deviceList".toList, ⟨[], [wanDevice.xml]⟩)]⟩ : Ptree).Lacks deviceTags :=
    ⟨"UDN".toList, by decide, by simp [Ptree.leaf]⟩
  refine ((deviceParse_iff _).1 _ _).2 ⟨gateway, ?_, rfl⟩
  refine .device ⟨_, rfl, rfl⟩ ⟨_, rfl, rfl⟩ ⟨_, rfl, rfl⟩ (.absent ?_) .nil (.list rfl)
    (.extra _ hlacks (.item _ wanDevice.renders_xml .nil))
  simp [gatewayXml, Ptree.leaf]

end Upnp
