/-
  The XML trees the decoders walk (`src/xml.h`, `src/xml.cpp`).

  A tree is what Boost's `read_xml` makes of a document: its data, and its
  children in order, with attributes and comments among them as the children
  `<xmlattr>` and `<xmlcomment>`.  `getChildOptional` is Boost's own lookup,
  `getChild` the one of `xml.cpp`, which may return a null pointer.

  * `getChild_cut`, `getChild_last`: `getChild` picks one child after the other,
    along the path.
-/
import Upnp.Str

namespace Upnp

open Lib

/-- `boost::property_tree::ptree` -/
structure Ptree where
  data : Str
  children : List (Str × Ptree)

/-- `*o` and `o->` of an `optional` or a pointer. -/
def deref {α : Type*} : Option α → Except Fault α
  | some a => .ok a
  | none => .error .nullDereference

namespace Ptree

/-- `get_child_optional(path)` of Boost: the first child with each name on the
    path.  A trailing `.` adds no name. -/
def getChildOptional (t : Ptree) (path : Str) : Option Ptree :=
  if path = [] then some t
  else
    match t.children.find? fun e => e.1 = path.takeWhile (· ≠ '.') with
    | some e => e.2.getChildOptional ((path.dropWhile (· ≠ '.')).drop 1)
    | none => none
termination_by path.length
decreasing_by
  rename_i h
  have := List.length_dropWhile_le (· ≠ '.') path
  have := List.length_pos_of_ne_nil h
  rw [List.length_drop]
  omega

/-- `get_optional<std::string>(path)` -/
def getOptional (t : Ptree) (path : Str) : Option Str := (t.getChildOptional path).map data

/-- `name_split(s)`: the namespace prefix and the local name. -/
def nameSplit (s : Str) : Str × Str := (consumeUntil s [[':']] true).getD ([], s)

/-- The two loops over the children in `get_child`, for the name `p` on the path. -/
def pick (t : Ptree) (p : Str) : Option Ptree :=
  let ns := nameSplit p
  if ns.1 = ['*'] then (t.children.find? fun e => ns.2 = (nameSplit e.1).2).map (·.2)
  else (t.children.find? fun e => e.1 = p).map (·.2)

/-- `get_child(tr, path)`, `none` for the null pointer. -/
def getChild (t : Ptree) (path : Str) : Option Ptree :=
  if path = [] then some t
  else
    match _h : consumeUntil path [['.']] true with
    | some (p, path) => (t.pick p).bind fun c => c.getChild path
    | none => t.pick path
termination_by path.length
decreasing_by
  rw [consumeUntil_true] at _h
  exact (cut_append_lt (by simp) _h).2

/-- `xml::get<std::string>(tr, path)` -/
def get (t : Ptree) (path : Str) : Option Str := (t.getChild path).map data

/-- `xml::get_num<T>(t, tag)`, for an unsigned `T` of `bits` bits. -/
def getNum (bits : ℕ) (t : Ptree) (tag : Str) : Option ℕ :=
  (t.getOptional tag).bind fun s => (consumeNumber bits s).map (·.1)

/-- `xml::get_address(t, tag)`, with Asio's `make_address`. -/
def getAddress {Address : Type} (makeAddress : Str → Option Address) (t : Ptree) (tag : Str) :
    Option Address :=
  (t.getOptional tag).bind makeAddress

variable {t : Ptree} {path p rest : Str}

theorem getChild_cut (h : consumeUntil path [['.']] true = some (p, rest)) :
    t.getChild path = (t.pick p).bind fun c => c.getChild rest := by
  have hne : path ≠ [] := by rintro rfl; cases h
  rw [getChild, if_neg hne]
  split <;> rename_i h' <;> rw [h] at h' <;> cases h'
  rfl

theorem getChild_last (hne : path ≠ []) (h : consumeUntil path [['.']] true = none) :
    t.getChild path = t.pick path := by
  rw [getChild, if_neg hne]
  split <;> rename_i h'
  · rw [h] at h'; cases h'
  · rfl

/-- A path of one name. -/
theorem getChildOptional_name (hne : path ≠ []) (hdot : '.' ∉ path) :
    t.getChildOptional path = (t.children.find? fun e => e.1 = path).map (·.2) := by
  have hp : ∀ c ∈ path, (decide (c ≠ '.')) = true := fun c hc => by
    simpa using fun h : c = '.' => hdot (h ▸ hc)
  have htake : path.takeWhile (· ≠ '.') = path := List.takeWhile_eq_self_iff.2 hp
  have hdrop : path.dropWhile (· ≠ '.') = [] := List.dropWhile_eq_nil_iff.2 hp
  rw [getChildOptional, if_neg hne, htake, hdrop, List.drop_nil]
  split
  · rename_i e he
    rw [he, getChildOptional, if_pos rfl, Option.map_some]
  · rename_i he
    rw [he, Option.map_none]

/-- What stands in the first child of that name. -/
theorem getOptional_name (hne : path ≠ []) (hdot : '.' ∉ path) :
    t.getOptional path = (t.children.find? fun e => e.1 = path).map (·.2.data) := by
  rw [getOptional, getChildOptional_name hne hdot, Option.map_map]
  rfl

/-- A child is smaller than its tree. -/
theorem sizeOf_child {e : Str × Ptree} (h : e ∈ t.children) : sizeOf e.2 < sizeOf t := by
  obtain ⟨data, children⟩ := t
  obtain ⟨name, c⟩ := e
  have := List.sizeOf_lt_of_mem h
  simp only [Ptree.mk.sizeOf_spec, Prod.mk.sizeOf_spec] at this ⊢
  omega

theorem sizeOf_getChildOptional {c : Ptree} (h : t.getChildOptional path = some c) :
    sizeOf c ≤ sizeOf t := by
  induction hn : path.length using Nat.strong_induction_on generalizing t path with
  | _ n ih =>
    rw [getChildOptional] at h
    split at h
    · cases h; rfl
    · rename_i hne
      split at h
      · rename_i e he
        have hlt := sizeOf_child (List.mem_of_find?_eq_some he)
        have hlen := List.length_dropWhile_le (· ≠ '.') path
        have := List.length_pos_of_ne_nil hne
        have := ih _ (by rw [List.length_drop]; omega) h rfl
        omega
      · cases h

end Ptree

end Upnp
