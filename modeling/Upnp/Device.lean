/-
  Device descriptions (`upnp/device.h`, `src/parse_device.cpp`).
-/
import Upnp.Ptree
import Upnp.Url

namespace Upnp

/-- `service` -/
structure Service where
  id : Str
  type : Str
  controlUrl : Url

/-- `device` -/
structure Device where
  type : Str
  udn : Str
  friendlyName : Str
  devices : List Device
  services : List Service

/-- `service_parse(tree)` -/
def serviceParse (al : Alloc) (tree : Ptree) : Option Service := do
  let id ← tree.getOptional "serviceId".toList
  let type ← tree.getOptional "serviceType".toList
  let urlS ← tree.getOptional "controlURL".toList
  let url ← Url.parse al urlS
  some ⟨id, type, url.move (al 2)⟩

/-- The children of a list in a description, as far as they can be parsed. -/
def childrenOf (tree : Ptree) (tag : Str) : List (Str × Ptree) :=
  match tree.getChildOptional tag with
  | some list => list.children
  | none => []

theorem sizeOf_childrenOf {tree : Ptree} {tag : Str} {v : Str × Ptree}
    (h : v ∈ childrenOf tree tag) : sizeOf v.2 < sizeOf tree := by
  unfold childrenOf at h
  split at h
  · rename_i list hl
    exact Nat.lt_of_lt_of_le (Ptree.sizeOf_child h) (Ptree.sizeOf_getChildOptional hl)
  · cases h

/-- `device_parse(tree)`.  Services and embedded devices that can not be parsed
    are left out. -/
def deviceParse (al : Alloc) (tree : Ptree) : Option Device := do
  let type ← tree.getOptional "deviceType".toList
  let udn ← tree.getOptional "UDN".toList
  let name ← tree.getOptional "friendlyName".toList
  let services := (childrenOf tree "serviceList".toList).filterMap fun v => serviceParse al v.2
  let devices := (childrenOf tree "deviceList".toList).attach.filterMap fun v =>
    deviceParse al v.1.2
  some ⟨type, udn, name, devices, services⟩
termination_by sizeOf tree
decreasing_by exact sizeOf_childrenOf v.2

theorem deviceParse_eq {al : Alloc} {tree : Ptree} {type udn name : Str}
    (ht : tree.getOptional "deviceType".toList = some type)
    (hu : tree.getOptional "UDN".toList = some udn)
    (hn : tree.getOptional "friendlyName".toList = some name) :
    deviceParse al tree = some ⟨type, udn, name,
      (childrenOf tree "deviceList".toList).filterMap fun v => deviceParse al v.2,
      (childrenOf tree "serviceList".toList).filterMap fun v => serviceParse al v.2⟩ := by
  rw [deviceParse]
  simp only [ht, hu, hn, Option.bind_eq_bind, Option.bind_some]
  have ha := List.filterMap_map (l := (childrenOf tree "deviceList".toList).attach)
    (f := Subtype.val) (g := fun v => deviceParse al v.2)
  rw [List.attach_map_subtype_val] at ha
  rw [ha]
  rfl

/-- The devices and services of a device are read from the lists of its element. -/
theorem mem_of_deviceParse {al : Alloc} {tree : Ptree} {dev : Device}
    (h : deviceParse al tree = some dev) :
    (∀ d ∈ dev.devices, ∃ v ∈ childrenOf tree "deviceList".toList, deviceParse al v.2 = some d) ∧
    ∀ s ∈ dev.services, ∃ v ∈ childrenOf tree "serviceList".toList,
      serviceParse al v.2 = some s := by
  have hfields : ∃ type udn name, tree.getOptional "deviceType".toList = some type ∧
      tree.getOptional "UDN".toList = some udn ∧
      tree.getOptional "friendlyName".toList = some name := by
    rw [deviceParse] at h
    simp only [Option.bind_eq_bind, Option.bind_eq_some_iff] at h
    obtain ⟨type, ht, udn, hu, name, hn, -⟩ := h
    exact ⟨type, udn, name, ht, hu, hn⟩
  obtain ⟨type, udn, name, ht, hu, hn⟩ := hfields
  rw [deviceParse_eq ht hu hn, Option.some.injEq] at h
  subst h
  exact ⟨fun d => List.mem_filterMap.1, fun s => List.mem_filterMap.1⟩

/-- `device_parse_root(xml_str)` -/
def deviceParseRoot (readXml : Str → Option Ptree) (al : Alloc) (xmlStr : Str) : Option Device := do
  let tree ← readXml xmlStr
  let dev ← tree.getChildOptional "root.device".toList
  deviceParse al dev

/-! ## Written descriptions -/

/-- A piece of a description: its text, and what `read_xml` makes of it. -/
structure Doc where
  text : Str
  node : Str × Ptree

namespace Doc

def tagged (name inside : Str) : Str :=
  '<' :: name ++ '>' :: inside ++ '<' :: '/' :: name ++ ['>']

def leaf (name : String) (text : Str) : Doc :=
  ⟨tagged name.toList text, name.toList, text, []⟩

def elem (name : String) (docs : List Doc) : Doc :=
  ⟨tagged name.toList (docs.flatMap text), name.toList, [], docs.map node⟩

def service (id type controlUrl : Str) : Doc :=
  elem "service" [leaf "serviceType" type, leaf "serviceId" id, leaf "controlURL" controlUrl]

def device (type udn name : Str) (services devices : List Doc) : Doc :=
  elem "device" [leaf "deviceType" type, leaf "friendlyName" name, leaf "UDN" udn,
    elem "serviceList" services, elem "deviceList" devices]

def root (device : Doc) : Doc := elem "root" [device]

/-- The tree of the whole document. -/
def tree (doc : Doc) : Ptree := ⟨[], [doc.node]⟩

variable {al : Alloc} {docs services devices : List Doc} {tag : Str}

theorem getChildOptional_elem {n : String} (hne : tag ≠ []) (hdot : '.' ∉ tag) :
    (elem n docs).node.2.getChildOptional tag =
      ((docs.map node).find? fun e => e.1 = tag).map (·.2) :=
  Ptree.getChildOptional_name hne hdot

theorem getOptional_elem {n : String} (hne : tag ≠ []) (hdot : '.' ∉ tag) :
    (elem n docs).node.2.getOptional tag =
      (((docs.map node).find? fun e => e.1 = tag).map (·.2)).map Ptree.data := by
  rw [Ptree.getOptional, getChildOptional_elem hne hdot]

theorem childrenOf_elem {n : String} (list : Doc) (hne : tag ≠ []) (hdot : '.' ∉ tag)
    (h : (docs.map node).find? (fun e => e.1 = tag) = some list.node) :
    childrenOf (elem n docs).node.2 tag = list.node.2.children := by
  rw [childrenOf, getChildOptional_elem hne hdot, h]
  rfl

theorem serviceParse_service (id type controlUrl : Str) :
    serviceParse al (service id type controlUrl).node.2 =
      (Url.parse al controlUrl).map fun url => ⟨id, type, url.move (al 2)⟩ := by
  rw [serviceParse, service, getOptional_elem (by decide) (by decide),
    getOptional_elem (by decide) (by decide), getOptional_elem (by decide) (by decide)]
  rfl

/-- **A written device is parsed as it is meant.** -/
theorem deviceParse_device (type udn name : Str) :
    deviceParse al (device type udn name services devices).node.2 = some ⟨type, udn, name,
      devices.filterMap fun d => deviceParse al d.node.2,
      services.filterMap fun d => serviceParse al d.node.2⟩ := by
  have hd : childrenOf (device type udn name services devices).node.2 "deviceList".toList =
      devices.map node :=
    childrenOf_elem (elem "deviceList" devices) (by decide) (by decide) rfl
  have hs : childrenOf (device type udn name services devices).node.2 "serviceList".toList =
      services.map node :=
    childrenOf_elem (elem "serviceList" services) (by decide) (by decide) rfl
  rw [deviceParse_eq (getOptional_elem (by decide) (by decide))
    (getOptional_elem (by decide) (by decide)) (getOptional_elem (by decide) (by decide)), hd, hs,
    List.filterMap_map, List.filterMap_map]
  rfl

/-- **So is the root device of a written document.** -/
theorem deviceParseRoot_tree (al : Alloc) {readXml : Str → Option Ptree} {doc : Doc} {xmlStr : Str}
    (h : readXml xmlStr = some (root doc).tree) (hn : doc.node.1 = "device".toList) :
    deviceParseRoot readXml al xmlStr = deviceParse al doc.node.2 := by
  have hroot : (root doc).tree.getChildOptional "root.device".toList = some doc.node.2 := by
    rw [Ptree.getChildOptional, if_neg (by decide)]
    show ((root doc).node.2.getChildOptional "device".toList) = _
    rw [root, getChildOptional_elem (by decide) (by decide)]
    simp [hn]
  rw [deviceParseRoot, h, Option.bind_eq_bind, Option.bind_some, hroot]
  rfl

end Doc

end Upnp
