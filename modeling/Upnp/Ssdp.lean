/-
  The responses of an SSDP search (`ssdp::query::response`, `src/ssdp.cpp`).

  A `Response` keeps its location as a `Location`: a URL that `url_t::parse`
  returned, or the default constructed one, moved or copied any number of
  times.  No other URL ever gets there.

  * `Response.parse` reads a datagram;
  * `consumeUntil_lt`: the view gets shorter with every consumed line, so the
    loops end.
-/
import Upnp.Url

namespace Upnp

open Lib

/-- `query::error::parse`, with the text that was left to read. -/
inductive ParseError where
  | httpStatusLine (response : Str)
  | httpResult (response : Str)
  | locationUrl (response : Str)
  deriving DecidableEq, Repr

/-- A URL that was parsed, or never assigned, wherever it has been moved to. -/
def Url.Located (u : Url) : Prop :=
  (∃ a, Same u (empty a)) ∨ ∃ al s v, parse al s = some v ∧ Same u v

theorem Url.Located.of_same {u v : Url} (h : v.Located) (hs : Same u v) : u.Located := by
  rcases h with ⟨a, ha⟩ | ⟨al, s, w, hw, hv⟩
  · exact .inl ⟨a, hs.trans ha⟩
  · exact .inr ⟨al, s, w, hw, hs.trans hv⟩

abbrev Location := {u : Url // u.Located}

/-- `url_t()`. -/
def Location.empty (a : Addr) : Location := ⟨.empty a, .inl ⟨a, .refl _⟩⟩

/-- A parsed URL, moved to `a`. -/
def Location.ofParse {al : Alloc} {s : Str} {u : Url} (h : Url.parse al s = some u) (a : Addr) :
    Location :=
  ⟨u.move a, .inr ⟨al, s, u, h, Url.move_same a u⟩⟩

/-- `ssdp::query::response`. -/
structure Response where
  serviceType : Str
  usn : Str
  uuid : Str
  location : Location

/-! ## Consumed text -/

theorem consumeUntil_lt {s x r : Str} {tokens : List Str} (ht : ∀ t ∈ tokens, t ≠ [])
    (h : consumeUntil s tokens true = some (x, r)) : r.length < s.length := by
  rw [consumeUntil_eq, Option.map_eq_some_iff] at h
  obtain ⟨⟨y, z⟩, hf, he⟩ := h
  obtain ⟨rfl, -, hb, -⟩ := firstSuffix_spec hf
  obtain ⟨token, hfind⟩ := Option.isSome_iff_exists.1 hb
  have hpos := List.length_pos_of_ne_nil (ht token (List.mem_of_find?_eq_some hfind))
  have hp : token.isPrefixOf z = true := by simpa using List.find?_some hfind
  have hpre := (List.isPrefixOf_iff_prefix.1 hp).length_le
  simp only [leave, hfind, if_true, Prod.mk.injEq] at he
  rw [← he.2, List.length_append, List.length_drop]
  omega

/-- The two ends of a line. -/
def newlines : List Str := [['\r', '\n'], ['\n']]

theorem newlines_ne_nil : ∀ t ∈ newlines, t ≠ [] := by decide

/-! ## Parsing -/

/-- The `uuid` that the loop over the tokens of a USN leaves behind; `uuid` is
    what it was before. -/
def uuidOf (val uuid : Str) : Str :=
  match _h : consumeUntil val [[':']] true with
  | none => uuid
  | some (token, rest) =>
    if iequals token "uuid".toList then
      match _h' : consumeUntil rest [[':', ':']] true with
      | some (uuid, rest') => uuidOf rest' uuid
      | none => uuidOf rest rest
    else uuidOf rest uuid
termination_by val.length
decreasing_by
  · exact (consumeUntil_lt (by simp) _h').trans (consumeUntil_lt (by simp) _h)
  · exact consumeUntil_lt (by simp) _h
  · exact consumeUntil_lt (by simp) _h

/-- What one header line does to `ret`; `lines` is what is left to read. -/
def headerField (al : Alloc) (key val lines : Str) (ret : Response) :
    Except ParseError Response := do
  let ret := if iequals key "USN".toList then { ret with usn := val, uuid := uuidOf val ret.uuid }
    else ret
  let ret ←
    if iequals key "LOCATION".toList then
      match h : Url.parse al val with
      | none => .error (.locationUrl lines)
      | some _ => .ok { ret with location := .ofParse h (al 2) }
    else .ok ret
  if iequals key "ST".toList then .ok { ret with serviceType := val } else .ok ret

/-- The loop of `response::parse` after the first line. -/
def parseHeaders (al : Alloc) (lines : Str) (ret : Response) : Except ParseError Response :=
  match _h : consumeUntil lines newlines true with
  | none => .ok ret
  | some (line, rest) =>
    match consumeUntil line [[':']] true with
    | none => .ok ret
    | some (key, val) =>
      match headerField al key (trimSpaceSuffix (trimSpacePrefix val)) rest ret with
      | .error e => .error e
      | .ok ret => parseHeaders (fun n => al (n + 3)) rest ret
termination_by lines.length
decreasing_by exact consumeUntil_lt newlines_ne_nil _h

/-- `response::parse(lines)`.  A datagram without a complete line gives the
    default constructed response. -/
def Response.parse (al : Alloc) (lines : Str) : Except ParseError Response :=
  let ret : Response := ⟨[], [], [], .empty (al 0)⟩
  match consumeUntil lines newlines true with
  | none => .ok ret
  | some (line, rest) =>
    if istartsWith line "http".toList then
      -- the first word of the line stays when there is no blank after it
      let line := ((consumeUntil line [[' ']] true).map (·.2)).getD line
      match consumeUntil (trimSpacePrefix line) [[' ']] true with
      | some (result, _) =>
        if result = "200".toList then parseHeaders (fun n => al (n + 1)) rest ret
        else .error (.httpResult rest)
      | none => .error (.httpResult rest)
    else .error (.httpStatusLine rest)

end Upnp
