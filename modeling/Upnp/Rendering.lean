/-
  Reading back a written SSDP response.

  A `Rendering` is a response as a device may write it: the headers in any order and
  in letters of either case, with white space around the values, and each line with
  its own end.

  * `firstLine_eol`, `trim_padded`: a line is read up to its end, a value without
    what stands around it;
  * `uuidOf_uuid`, `uuidOf_uuid_type`: the uuid of a USN;
  * `parse_rendering`: the parser returns what was written.
-/
import Upnp.StatusLine

namespace Upnp

open Lib

/-! ## Written lines -/

inductive Eol where
  | crlf | lf
  deriving DecidableEq, Repr

def Eol.text : Eol → Str
  | .crlf => ['\r', '\n']
  | .lf => ['\n']

theorem firstLine_eol {line : Str} (hr : '\r' ∉ line) (hn : '\n' ∉ line) (e : Eol) (rest : Str) :
    FirstLine (line ++ (e.text ++ rest)) line rest := by
  cases e with
  | crlf => exact .crlf hn
  | lf =>
    refine .lf hn ?_
    rintro l rfl
    exact hr (by simp)

/-- A value, and what it is called. -/
structure HeaderLine where
  name : Str
  value : Str
  before : Str
  after : Str
  eol : Eol
  name_ok : ':' ∉ name ∧ '\r' ∉ name ∧ '\n' ∉ name
  value_ok : '\r' ∉ value ∧ '\n' ∉ value
  trimmed : (∀ c, value.head? = some c → isSpace c = false) ∧
    ∀ c, value.getLast? = some c → isSpace c = false
  before_ok : ∀ c ∈ before, c = ' ' ∨ c = '\t'
  after_ok : ∀ c ∈ after, c = ' ' ∨ c = '\t'

namespace HeaderLine
variable (h : HeaderLine)

def padded : Str := h.before ++ (h.value ++ h.after)

def line : Str := h.name ++ ':' :: h.padded

def text : Str := h.line ++ h.eol.text

variable {h}

theorem notMem_line : '\r' ∉ h.line ∧ '\n' ∉ h.line := by
  obtain ⟨-, hnr, hnn⟩ := h.name_ok
  obtain ⟨hvr, hvn⟩ := h.value_ok
  have hpad : ∀ {s : Str}, (∀ c ∈ s, c = ' ' ∨ c = '\t') → '\r' ∉ s ∧ '\n' ∉ s :=
    fun hs => ⟨fun hm => absurd (hs _ hm) (by decide), fun hm => absurd (hs _ hm) (by decide)⟩
  obtain ⟨hbr, hbn⟩ := hpad h.before_ok
  obtain ⟨har, han⟩ := hpad h.after_ok
  simp [line, padded, hnr, hnn, hvr, hvn, hbr, hbn, har, han]

end HeaderLine

theorem dropWhile_append_of_all {p : Char → Bool} {x y : Str} (hx : ∀ c ∈ x, p c = true)
    (hy : ∀ c, y.head? = some c → p c = false) : (x ++ y).dropWhile p = y := by
  induction x with
  | nil =>
    rcases y with _ | ⟨c, y⟩
    · rfl
    · exact List.dropWhile_cons_of_neg (by simp [hy c rfl])
  | cons c x ih =>
    obtain ⟨hc, hx⟩ := List.forall_mem_cons.1 hx
    rw [List.cons_append, List.dropWhile_cons_of_pos hc, ih hx]

/-- **A value is read without the white space around it.** -/
theorem HeaderLine.trim_padded (h : HeaderLine) :
    trimSpaceSuffix (trimSpacePrefix h.padded) = h.value := by
  have hspace : ∀ {s : Str}, (∀ c ∈ s, c = ' ' ∨ c = '\t') → ∀ c ∈ s, isSpace c = true := by
    intro s hs c hc
    rcases hs c hc with rfl | rfl <;> rfl
  have hb := hspace h.before_ok
  have ha := hspace h.after_ok
  obtain ⟨hhead, hlast⟩ := h.trimmed
  have hprefix : trimSpacePrefix h.padded = h.value ++ h.after ∨
      h.value = [] ∧ trimSpacePrefix h.padded = [] := by
    rcases hv : h.value with _ | ⟨c, v⟩
    · refine .inr ⟨rfl, ?_⟩
      rw [trimSpacePrefix, padded, hv, List.nil_append, List.dropWhile_eq_nil_iff]
      intro c hc
      exact (List.mem_append.1 hc).elim (hb c) (ha c)
    · refine .inl ?_
      rw [trimSpacePrefix, padded, hv]
      refine dropWhile_append_of_all hb ?_
      rintro d ⟨⟩
      exact hhead c (by rw [hv]; rfl)
  rcases hprefix with hp | ⟨hv, hp⟩
  · rw [hp, trimSpaceSuffix, List.rdropWhile, List.reverse_append, dropWhile_append_of_all,
      List.reverse_reverse]
    · intro c hc
      exact ha c (List.mem_reverse.1 hc)
    · intro c hc
      exact hlast c (by rwa [List.head?_reverse] at hc)
  · rw [hp, hv]
    rfl

theorem HeaderLine.cut_line (h : HeaderLine) :
    consumeUntil h.line [[':']] true = some (h.name, h.padded) := by
  rw [consumeUntil_true, line, cut_singleton_append h.name_ok.1]

/-! ## The uuid -/

/-- No part of the text that a colon ends is `uuid`. -/
def NoUuid (t : Str) : Prop :=
  ∀ x s y, t = x ++ (s ++ ':' :: y) → (x = [] ∨ ∃ x', x = x' ++ [':']) → ':' ∉ s →
    iequals s "uuid".toList = false

theorem uuidOf_nil {val uuid : Str} (h : ':' ∉ val) : uuidOf val uuid = uuid := by
  rw [uuidOf]
  split
  · rfl
  · rename_i h'
    rw [consumeUntil_true, cut_singleton_eq_none.2 h] at h'
    cases h'

/-- One round of the loop over the tokens of a USN. -/
theorem uuidOf_token {token rest uuid : Str} (h : ':' ∉ token) :
    uuidOf (token ++ ':' :: rest) uuid = if iequals token "uuid".toList then
        match cut [':', ':'] rest with
        | some (u, rest') => uuidOf rest' u
        | none => uuidOf rest rest
      else uuidOf rest uuid := by
  have hc := cut_singleton_append (y := rest) h
  rw [uuidOf]
  split
  · rename_i h'
    rw [consumeUntil_true, hc] at h'
    cases h'
  · rename_i h'
    rw [consumeUntil_true, hc] at h'
    cases h'
    by_cases ht : iequals token "uuid".toList = true
    · rw [if_pos ht, if_pos ht]
      split <;> rename_i h'' <;> rw [consumeUntil_true] at h'' <;> rw [h'']
    · rw [if_neg ht, if_neg ht]

theorem uuidOf_of_noUuid {t uuid : Str} (h : NoUuid t) : uuidOf t uuid = uuid := by
  induction hn : t.length using Nat.strong_induction_on generalizing t with
  | _ n ih =>
    rcases hc : cut [':'] t with _ | ⟨token, rest⟩
    · exact uuidOf_nil (cut_singleton_eq_none.1 hc)
    · obtain ⟨rfl, ht⟩ := cut_singleton_eq_some.1 hc
      rw [uuidOf_token ht, h [] token rest rfl (.inl rfl) ht]
      refine ih rest.length ?_ ?_ rfl
      · rw [← hn, List.length_append, List.length_cons]
        omega
      · rintro x s y rfl hx hs
        refine h (token ++ ':' :: x) s y (by simp) (.inr ?_) hs
        rcases hx with rfl | ⟨x', rfl⟩
        · exact ⟨token, rfl⟩
        · exact ⟨token ++ ':' :: x', by simp⟩

section
variable {u uuid : Str}

/-- **`uuid:U`** -/
theorem uuidOf_uuid (h : ':' ∉ u) : uuidOf ("uuid".toList ++ ':' :: u) uuid = u := by
  have hn : cut [':', ':'] u = none := by
    refine (cut_eq_none (by simp)).2 ?_
    intro hi
    exact h (hi.subset List.mem_cons_self)
  rw [uuidOf_token (by decide), if_pos (by decide), hn]
  exact uuidOf_nil h

/-- **`uuid:U::T`** -/
theorem uuidOf_uuid_type {t : Str} (h : ':' ∉ u) (ht : NoUuid t) :
    uuidOf ("uuid".toList ++ ':' :: (u ++ ':' :: ':' :: t)) uuid = u := by
  have hs : cut [':', ':'] (u ++ ':' :: ':' :: t) = some (u, t) :=
    (cut_eq_some (by simp)).2 ⟨rfl, noEarlier_of_notMem h⟩
  rw [uuidOf_token (by decide), if_pos (by decide), hs]
  exact uuidOf_of_noUuid ht

end

/-! ## Written responses -/

/-- The values of the headers with a name, in letters of either case. -/
def valuesOf (key : String) (hs : List HeaderLine) : List Str :=
  (hs.filter fun h => iequals h.name key.toList).map HeaderLine.value

theorem valuesOf_cons (key : String) (h : HeaderLine) (hs : List HeaderLine) :
    valuesOf key (h :: hs) =
      if iequals h.name key.toList then h.value :: valuesOf key hs else valuesOf key hs := by
  by_cases hk : iequals h.name key.toList = true <;> simp [valuesOf, hk]

theorem foldl_valuesOf {β : Type} (f : β → Str → β) (key : String) (h : HeaderLine)
    (hs : List HeaderLine) (b : β) : (valuesOf key (h :: hs)).foldl f b =
      (valuesOf key hs).foldl f (if iequals h.name key.toList then f b h.value else b) := by
  rw [valuesOf_cons]
  split <;> rfl

/-- What these headers make of a response, where the last one with a name counts. -/
structure HeadersRead (hs : List HeaderLine) (ret ret' : Response) : Prop where
  usn : ret'.usn = (valuesOf "USN" hs).foldl (fun _ v => v) ret.usn
  uuid : ret'.uuid = (valuesOf "USN" hs).foldl (fun uuid v => uuidOf v uuid) ret.uuid
  serviceType : ret'.serviceType = (valuesOf "ST" hs).foldl (fun _ v => v) ret.serviceType
  located : ∀ v, (valuesOf "LOCATION" hs).getLast? = some v →
    ∃ al u, Url.parse al v = some u ∧ Url.Same ret'.location.1 u
  unlocated : valuesOf "LOCATION" hs = [] → ret'.location = ret.location

/-- **The header lines are read one by one**, up to an empty line or to the end. -/
theorem parseHeaders_written (tail : Option (Eol × Str)) (hs : List HeaderLine) (al : Alloc)
    (ret : Response) : ∃ ret', parseHeaders al (hs.flatMap HeaderLine.text ++
      (tail.elim [] fun t => t.1.text ++ t.2)) ret = .ok ret' ∧ HeadersRead hs ret ret' := by
  induction hs generalizing al ret with
  | nil =>
    refine ⟨ret, ?_, rfl, rfl, rfl, nofun, fun _ => rfl⟩
    rcases tail with _ | ⟨e, t⟩
    · exact parseHeaders_nil rfl
    · exact parseHeaders_end (consumeUntil_newlines (firstLine_eol (by simp) (by simp) e t)) rfl
  | cons h hs ih =>
    obtain ⟨hr, hn⟩ := h.notMem_line
    have hline := consumeUntil_newlines (firstLine_eol hr hn h.eol
      (hs.flatMap HeaderLine.text ++ tail.elim [] fun t => t.1.text ++ t.2))
    have hfield := headerField_eq al h.name h.value
      (hs.flatMap HeaderLine.text ++ tail.elim [] fun t => t.1.text ++ t.2) ret
    obtain ⟨ret', hret, hread⟩ := ih (fun n => al (n + 3)) _
    refine ⟨ret', ?_, ?_, ?_, ?_, ?_, ?_⟩
    · rw [List.flatMap_cons, HeaderLine.text, List.append_assoc, List.append_assoc,
        parseHeaders_line hline h.cut_line (by rw [h.trim_padded]; exact hfield), hret]
    · exact hread.usn.trans (foldl_valuesOf _ "USN" h hs ret.usn).symm
    · exact hread.uuid.trans (foldl_valuesOf _ "USN" h hs ret.uuid).symm
    · exact hread.serviceType.trans (foldl_valuesOf _ "ST" h hs ret.serviceType).symm
    · intro v hv
      rw [valuesOf_cons] at hv
      by_cases hk : iequals h.name "LOCATION".toList = true
      · rw [if_pos hk] at hv
        rcases hvs : valuesOf "LOCATION" hs with _ | ⟨w, vs⟩
        · rw [hvs, List.getLast?_singleton, Option.some.injEq] at hv
          subst hv
          rw [hread.unlocated hvs]
          simp only [if_pos hk]
          exact ⟨al, _, rfl, Url.move_same _ _⟩
        · rw [hvs, List.getLast?_cons_cons, ← hvs] at hv
          exact hread.located v hv
      · rw [if_neg hk] at hv
        exact hread.located v hv
    · intro hnil
      rw [valuesOf_cons] at hnil
      by_cases hk : iequals h.name "LOCATION".toList = true
      · rw [if_pos hk] at hnil
        cases hnil
      · rw [if_neg hk] at hnil
        rw [hread.unlocated hnil]
        exact if_neg hk

/-- A response to a search, as a device may write it. -/
structure Rendering where
  version : Str
  reason : Str
  eol : Eol
  headers : List HeaderLine
  /-- an empty line, and anything after it -/
  tail : Option (Eol × Str)
  version_ok : ' ' ∉ version ∧ '\r' ∉ version ∧ '\n' ∉ version
  reason_ok : '\r' ∉ reason ∧ '\n' ∉ reason

namespace Rendering
variable (m : Rendering)

def statusLine : Str := "HTTP/".toList ++ (m.version ++ ' ' :: ("200".toList ++ ' ' :: m.reason))

def text : Str := m.statusLine ++ (m.eol.text ++
  (m.headers.flatMap HeaderLine.text ++ m.tail.elim [] fun t => t.1.text ++ t.2))

/-- What the response says, if these are its USN, its type and its location. -/
structure Decoded (name type url : Str) (r : Response) : Prop where
  usn : r.usn = name
  serviceType : r.serviceType = type
  location : ∃ al u, Url.parse al url = some u ∧ Url.Same r.location.1 u
  uuid : ∀ u, ':' ∉ u → name = "uuid".toList ++ ':' :: u → r.uuid = u
  uuid_type : ∀ u t, ':' ∉ u → NoUuid t →
    name = "uuid".toList ++ ':' :: (u ++ ':' :: ':' :: t) → r.uuid = u

theorem statusLine_eq :
    m.statusLine = "HTTP/".toList ++ (m.version ++ ' ' :: ("200".toList ++ ' ' :: m.reason)) := rfl

theorem parse_text (al : Alloc) : ∃ r, Response.parse al m.text = .ok r ∧
    HeadersRead m.headers ⟨[], [], [], .empty (al 0)⟩ r := by
  obtain ⟨hvs, hvr, hvn⟩ := m.version_ok
  obtain ⟨hrr, hrn⟩ := m.reason_ok
  have hr : '\r' ∉ m.statusLine := by simp [statusLine_eq, hvr, hrr]
  have hn : '\n' ∉ m.statusLine := by simp [statusLine_eq, hvn, hrn]
  have hline := consumeUntil_newlines (firstLine_eol hr hn m.eol
    (m.headers.flatMap HeaderLine.text ++ m.tail.elim [] fun t => t.1.text ++ t.2))
  have hversion : consumeUntil m.statusLine [[' ']] true =
      some ("HTTP/".toList ++ m.version, "200".toList ++ ' ' :: m.reason) := by
    rw [consumeUntil_true, statusLine_eq, ← List.append_assoc, cut_singleton_append (by simp [hvs])]
  have hresult : consumeUntil (trimSpacePrefix ("200".toList ++ ' ' :: m.reason)) [[' ']] true =
      some ("200".toList, m.reason) := by
    rw [consumeUntil_true]
    exact cut_singleton_append (x := "200".toList) (by decide)
  obtain ⟨r, hparse, hread⟩ := parseHeaders_written m.tail m.headers (fun n => al (n + 1))
    ⟨[], [], [], .empty (al 0)⟩
  refine ⟨r, ?_, hread⟩
  rw [Response.parse, text, hline]
  simp only [hversion, Option.map_some, Option.getD_some, hresult, if_true, hparse]
  exact if_pos rfl

/-- **A written response is read back**, however it was written. -/
theorem parse_rendering (al : Alloc) {name type url : Str}
    (hu : valuesOf "USN" m.headers = [name]) (hs : valuesOf "ST" m.headers = [type])
    (hl : valuesOf "LOCATION" m.headers = [url]) :
    ∃ r, Response.parse al m.text = .ok r ∧ Decoded name type url r := by
  obtain ⟨r, hr, hread⟩ := m.parse_text al
  have huuid := hread.uuid
  rw [hu] at huuid
  refine ⟨r, hr, ?_, ?_, ?_, ?_, ?_⟩
  · rw [hread.usn, hu]
    rfl
  · rw [hread.serviceType, hs]
    rfl
  · exact hread.located url (by rw [hl]; rfl)
  · rintro u h rfl
    exact huuid.trans (uuidOf_uuid h)
  · rintro u t h ht rfl
    exact huuid.trans (uuidOf_uuid_type h ht)

/-- `St`, with a tab behind it. -/
def stHeader : HeaderLine where
  name := "St".toList
  value := "upnp:rootdevice".toList
  before := []
  after := ['\t']
  eol := .lf
  name_ok := by decide
  value_ok := by decide
  trimmed := ⟨by rintro c ⟨⟩; rfl, by rintro c ⟨⟩; rfl⟩
  before_ok := List.forall_mem_nil _
  after_ok := List.forall_mem_singleton.2 (.inr rfl)

def usnHeader : HeaderLine where
  name := "USN".toList
  value := "uuid:1::upnp:rootdevice".toList
  before := [' ']
  after := []
  eol := .crlf
  name_ok := by decide
  value_ok := by decide
  trimmed := ⟨by rintro c ⟨⟩; rfl, by rintro c ⟨⟩; rfl⟩
  before_ok := List.forall_mem_singleton.2 (.inl rfl)
  after_ok := List.forall_mem_nil _

def extHeader : HeaderLine where
  name := "EXT".toList
  value := []
  before := []
  after := []
  eol := .crlf
  name_ok := by decide
  value_ok := ⟨List.not_mem_nil, List.not_mem_nil⟩
  trimmed := ⟨nofun, nofun⟩
  before_ok := List.forall_mem_nil _
  after_ok := List.forall_mem_nil _

def locationHeader : HeaderLine where
  name := "location".toList
  value := "http://192.168.0.1:5000/root.xml".toList
  before := [' ']
  after := []
  eol := .crlf
  name_ok := by decide
  value_ok := by decide
  trimmed := ⟨by rintro c ⟨⟩; rfl, by rintro c ⟨⟩; rfl⟩
  before_ok := List.forall_mem_singleton.2 (.inl rfl)
  after_ok := List.forall_mem_nil _

/-- These four, and an empty line. -/
def fourHeaders : Rendering where
  version := "1.1".toList
  reason := "OK".toList
  eol := .crlf
  headers := [stHeader, extHeader, usnHeader, locationHeader]
  tail := some (.crlf, [])
  version_ok := by decide
  reason_ok := by decide

theorem noUuid_rootdevice : NoUuid "upnp:rootdevice".toList := by
  rintro x s y h (rfl | ⟨x', rfl⟩) hs
  · have hc : cut [':'] "upnp:rootdevice".toList = some (s, y) := by
      rw [h]
      exact cut_singleton_append hs
    cases hc
    rfl
  · have hcount := congrArg (List.count ':') h
    simp only [List.count_append, List.count_cons_self, List.count_nil] at hcount
    have hone : List.count ':' "upnp:rootdevice".toList = 1 := rfl
    omega

theorem parse_fourHeaders : ∃ r,
    Response.parse (fun _ => ⟨1, Int.one_pos⟩) fourHeaders.text = .ok r ∧
    Decoded "uuid:1::upnp:rootdevice".toList "upnp:rootdevice".toList
      "http://192.168.0.1:5000/root.xml".toList r ∧ r.uuid = "1".toList := by
  obtain ⟨r, hr, hd⟩ := parse_rendering fourHeaders (fun _ => ⟨1, Int.one_pos⟩) rfl rfl rfl
  exact ⟨r, hr, hd, hd.uuid_type "1".toList _ (by decide) noUuid_rootdevice rfl⟩

end Rendering

end Upnp
