/-
  Where each view of a parsed URL stands, and what copies and moves keep of it.

  * `parseLocal_placed`: each component stands right behind what is rendered
    before it;
  * `parse_tiles`: the components of a parsed URL and their delimiters tile the
    text, in the buffer of every copy of it, moved wherever it may be.
-/
import Upnp.UrlView

namespace Upnp

open Lib

namespace UrlText

/-! ## What stands before a component -/

/-- The delimiter of an optional component, if it is there. -/
def mark (delim : Str) : Option Str → Str
  | some _ => delim
  | none => []

/-- The text in front of the host. -/
def head (t : UrlText) : Str := before [':', '/', '/'] t.scheme ++ before ['@'] t.userinfo

/-- The text in front of the path. -/
def authority (t : UrlText) : Str := t.head ++ (t.host ++ after [':'] t.port)

/-- The text in front of a component, the delimiter in between included. -/
def upTo (t : UrlText) : Part → Str
  | .scheme => []
  | .userinfo => before [':', '/', '/'] t.scheme
  | .host => t.head
  | .port => t.head ++ (t.host ++ mark [':'] t.port)
  | .path => t.authority
  | .query => t.authority ++ (t.path ++ mark ['?'] t.query)
  | .fragment => t.authority ++ (t.path ++ (after ['?'] t.query ++ mark ['#'] t.fragment))

/-- **Each component stands right behind the text in front of it.** -/
theorem render_upTo (t : UrlText) (p : Part) :
    ∃ post, t.render = t.upTo p ++ (t.part p ++ post) := by
  obtain ⟨scheme, userinfo, host, port, path, query, fragment⟩ := t
  cases p with
  | scheme => cases scheme <;> simp [render, upTo, part, before]
  | userinfo => cases userinfo <;> simp [render, upTo, part, before]
  | host => simp [render, upTo, part, head]
  | port => cases port <;> simp [render, upTo, part, head, after, mark]
  | path => simp [render, upTo, part, head, authority]
  | query => cases query <;> simp [render, upTo, part, head, authority, after, mark]
  | fragment => cases fragment <;> simp [render, upTo, part, head, authority, after, mark]

theorem elim_scheme {t : UrlText} (h : t.scheme = none) (o : Option Str) :
    o.elim t (t.put .scheme) = { t with scheme := o } := by
  obtain ⟨scheme, userinfo, host, port, path, query, fragment⟩ := t
  subst h
  cases o <;> rfl

theorem elim_userinfo {t : UrlText} (h : t.userinfo = none) (o : Option Str) :
    o.elim t (t.put .userinfo) = { t with userinfo := o } := by
  obtain ⟨scheme, userinfo, host, port, path, query, fragment⟩ := t
  subst h
  cases o <;> rfl

end UrlText

namespace Url

open UrlText

/-! ## Where the parser puts the views -/

/-- Each view of `u` is as long as its component, and one that is not empty
    stands at its place. -/
structure Placed (u : Url) (t : UrlText) : Prop where
  size : ∀ p, u.size p = (t.part p).length
  off : ∀ p, t.part p ≠ [] → u.off p = (t.upTo p).length

section
variable {u : Url} {t t' : UrlText} {p : Part} {state tok : Str}

/-- What stands before an empty component does not matter. -/
theorem Placed.congr (h : Placed u t) (hpart : ∀ q, t'.part q = t.part q)
    (hup : ∀ q, t.part q ≠ [] → t'.upTo q = t.upTo q) : Placed u t' := by
  refine ⟨fun q => by rw [hpart, h.size], ?_⟩
  intro q hq
  rw [hpart] at hq
  rw [hup q hq, h.off q hq]

theorem Placed.set (h : Placed u t) (hbuf : u.buf = (t.put p tok).upTo p ++ state)
    (hup : ∀ q, q ≠ p → t.part q ≠ [] → (t.put p tok).upTo q = t.upTo q) :
    Placed (u.set p state tok) (t.put p tok) := by
  constructor
  · intro q
    by_cases hq : q = p
    · rw [hq, size_set_self, part_put_self]
    · rw [size_set_ne hq, part_put_ne hq, h.size]
  · intro q hne
    by_cases hq : q = p
    · rw [hq, off_set_self, hbuf, List.length_append]
      omega
    · rw [part_put_ne hq] at hne
      rw [off_set_ne hq, hup q hq hne, h.off q hne]

theorem parsePart_placed (p : Part) (token x state : Str) (h : Placed u t)
    (hbuf : u.buf = x ++ state)
    (hx : ∀ tok, (t.put p tok).upTo p = x)
    (hup : ∀ tok q, q ≠ p → t.part q ≠ [] → (t.put p tok).upTo q = t.upTo q) :
    Placed (parsePart p token u state).1 ((cutOr token state).1.elim t (t.put p)) ∧
      (parsePart p token u state).1.buf = u.buf := by
  simp only [parsePart, cutOr, consumeUntil_true]
  rcases hc : cut token state with _ | ⟨tok, y⟩
  · exact ⟨h, rfl⟩
  · exact ⟨h.set (by rw [hx, hbuf]) (hup tok), rfl⟩

/-- Only the path and what follows it are still missing. -/
structure UpToPath (t : UrlText) : Prop where
  path : t.path = []
  query : t.query = none
  fragment : t.fragment = none

theorem UpToPath.upTo_eq (ht : UpToPath t) {q : Part} (hq : t.part q ≠ []) (tok : Str) :
    (t.put .path tok).upTo q = t.upTo q := by
  cases q with
  | path => rfl
  | query => exact absurd (by rw [part, ht.query]; rfl) hq
  | fragment => exact absurd (by rw [part, ht.fragment]; rfl) hq
  | scheme | userinfo | host | port => rfl

theorem parsePath_placed (h : Placed u t) (ht : UpToPath t)
    (hbuf : u.buf = t.authority ++ state) : Placed (parsePath u state)
      { t with path := (dividePath state).1, query := (dividePath state).2.1,
               fragment := (dividePath state).2.2 } := by
  obtain ⟨scheme, userinfo, host, port, path₀, query₀, fragment₀⟩ := t
  obtain ⟨rfl, rfl, rfl⟩ : path₀ = [] ∧ query₀ = none ∧ fragment₀ = none :=
    ⟨ht.path, ht.query, ht.fragment⟩
  have hpath : ∀ tok, Placed (u.set .path state tok) _ := fun tok =>
    h.set hbuf fun q _ hq => ht.upTo_eq hq tok
  simp only [parsePath, dividePath, consumeUntil_true]
  rcases hq : cut ['?'] state with _ | ⟨path, r⟩
  · rcases hf : cut ['#'] state with _ | ⟨path, fragment⟩
    · exact hpath state
    · obtain ⟨hs, -⟩ := cut_singleton_eq_some.1 hf
      refine (hpath path).set ?_ ?_
      · simp [hbuf, hs, upTo, put, after, mark, authority, head]
      · intro q hne hq
        cases q with
        | fragment => exact absurd rfl hne
        | _ => rfl
  · obtain ⟨hs, -⟩ := cut_singleton_eq_some.1 hq
    have hquery : ∀ query, Placed ((u.set .path state path).set .query r query)
        ⟨scheme, userinfo, host, port, path, some query, none⟩ := by
      refine fun query => (hpath path).set ?_ ?_
      · simp [hbuf, hs, upTo, put, mark, authority, head]
      · intro q hne hq
        cases q with
        | query => exact absurd rfl hne
        | fragment => exact absurd rfl hq
        | _ => rfl
    rcases hf : cut ['#'] r with _ | ⟨query, fragment⟩
    · simp only [hf]
      exact hquery r
    · obtain ⟨hr, -⟩ := cut_singleton_eq_some.1 hf
      simp only [hf]
      refine (hquery query).set ?_ ?_
      · simp [hbuf, hs, hr, upTo, put, after, mark, authority, head]
      · intro q hne hq
        cases q with
        | fragment => exact absurd rfl hne
        | _ => rfl

theorem parseHost_placed (h : Placed u t) (ht : t.host = [] ∧ t.port = none) (hp : UpToPath t)
    (hbuf : u.buf = t.head ++ state) : Placed (parseHost u state)
      { t with
        host := (divideHost state).1
        port := (divideHost state).2.1
        path := (dividePath (divideHost state).2.2).1
        query := (dividePath (divideHost state).2.2).2.1
        fragment := (dividePath (divideHost state).2.2).2.2 } := by
  obtain ⟨scheme, userinfo, host₀, port₀, path₀, query₀, fragment₀⟩ := t
  obtain ⟨rfl, rfl⟩ : host₀ = [] ∧ port₀ = none := ht
  obtain ⟨rfl, rfl, rfl⟩ : path₀ = [] ∧ query₀ = none ∧ fragment₀ = none :=
    ⟨hp.path, hp.query, hp.fragment⟩
  have hlate : ∀ {q}, UrlText.part ⟨scheme, userinfo, [], none, [], none, none⟩ q ≠ [] →
      q = .scheme ∨ q = .userinfo := by
    intro q hq
    cases q with
    | scheme => exact .inl rfl
    | userinfo => exact .inr rfl
    | _ => exact absurd rfl hq
  have hhost : ∀ tok, Placed (u.set .host state tok)
      ⟨scheme, userinfo, tok, none, [], none, none⟩ := by
    refine fun tok => h.set hbuf ?_
    intro q _ hq
    rcases hlate hq with rfl | rfl <;> rfl
  simp only [parseHost, divideHost, consumeUntil_true, consumeUntil_false]
  rcases hc : cut [':'] state with _ | ⟨host, r⟩
  · rcases hs : cut ['/'] state with _ | ⟨host, r⟩
    · simpa [dividePath, cut, firstSuffix] using hhost state
    · obtain ⟨hstate, -⟩ := cut_singleton_eq_some.1 hs
      refine parsePath_placed (hhost host) ⟨rfl, rfl, rfl⟩ ?_
      simp [hbuf, hstate, authority, head, after]
  · obtain ⟨hstate, -⟩ := cut_singleton_eq_some.1 hc
    rcases hs : cut ['/'] r with _ | ⟨port, r'⟩
    · -- no port is set, but its colon stands in front of the path
      have hport : Placed (u.set .host state host)
          ⟨scheme, userinfo, host, some [], [], none, none⟩ := by
        refine (hhost host).congr ?_ ?_
        · intro q
          cases q <;> rfl
        · intro q hq
          cases q with
          | scheme | userinfo | host => rfl
          | _ => exact absurd rfl hq
      simp only [hs, Option.map_none]
      refine parsePath_placed hport ⟨rfl, rfl, rfl⟩ ?_
      simp [hbuf, hstate, authority, head, after]
    · obtain ⟨hr, -⟩ := cut_singleton_eq_some.1 hs
      have hport : Placed ((u.set .host state host).set .port r port)
          ⟨scheme, userinfo, host, some port, [], none, none⟩ := by
        refine (hhost host).set ?_ ?_
        · simp [hbuf, hstate, upTo, put, mark, head]
        · intro q hne hq
          cases q with
          | scheme | userinfo | host => rfl
          | port => exact absurd rfl hne
          | _ => exact absurd rfl hq
      simp only [hs, Option.map_some]
      refine parsePath_placed hport ⟨rfl, rfl, rfl⟩ ?_
      simp [hbuf, hstate, hr, authority, head, after]

end

/-- **The parser puts each view at the place of its component.** -/
theorem parseLocal_placed (a : Addr) (s : Str) : Placed (parseLocal a s) (divide s) := by
  have h0 : Placed { Url.empty a with buf := s } ⟨none, none, [], none, [], none, none⟩ := by
    refine ⟨fun p => by cases p <;> rfl, ?_⟩
    intro p hp
    exact absurd (by cases p <;> rfl) hp
  obtain ⟨h1, b1⟩ := parsePart_placed .scheme [':', '/', '/'] [] s h0 rfl (fun _ => rfl)
    fun tok q _ hq => absurd (by cases q <;> rfl) hq
  have hscheme := cutOr_render [':', '/', '/'] s (by decide)
  rw [elim_scheme rfl] at h1
  have hbuf := b1.trans hscheme.symm
  obtain ⟨h2, b2⟩ := parsePart_placed .userinfo ['@'] _ _ h1 hbuf (fun _ => rfl) (by
    intro tok q hne hq
    cases q with
    | scheme => rfl
    | userinfo => exact absurd rfl hne
    | _ => exact absurd rfl hq)
  have huser := cutOr_render ['@'] (cutOr [':', '/', '/'] s).2 (by decide)
  rw [elim_userinfo rfl] at h2
  rw [parseLocal_eq]
  refine parseHost_placed h2 ⟨rfl, rfl⟩ ⟨rfl, rfl, rfl⟩ ?_
  rw [b2, hbuf, UrlText.head, List.append_assoc, fromHost, huser]

/-! ## Copies and moves -/

/-- What a chain of copies and moves makes of `u`: `moved` stands for the
    constructor and the assignment alike, whatever was assigned to. -/
inductive Chain (u : Url) : Url → Prop
  | refl : Chain u u
  | copied {v : Url} (a : Addr) (h : Chain u v) : Chain u (v.copy a)
  | moved {v : Url} (a : Addr) (h : Chain u v) : Chain u (v.move a)

/-- **A chain of copies and moves changes nothing but the address.** -/
theorem Chain.same {u v : Url} (h : Chain u v) : Same v u := by
  induction h with
  | refl => exact Same.refl u
  | copied a _ ih => exact (copy_same a _).trans ih
  | moved a _ ih => exact (move_same a _).trans ih

/-- The components of `v` and their delimiters, those of `t`, make up the text
    `s`; each view that is not empty lies within the buffer, at the place of its
    component. -/
structure Tiles (v : Url) (t : UrlText) (s : Str) : Prop where
  render : t.render = s
  buf : v.buf = s
  get : ∀ p, v.get p = t.part p
  inside : ∀ p, (v.view p).size ≠ 0 → v.addr ≤ (v.view p).data ∧
    (v.view p).data + (v.view p).size ≤ v.addr + v.buf.length
  place : ∀ p, (v.view p).size ≠ 0 → (v.view p).data - v.addr = (t.upTo p).length

theorem Placed.tiles {v : Url} {t : UrlText} {s : Str} (h : Placed v t) (hr : t.render = s)
    (hbuf : v.buf = s) : Tiles v t s := by
  have hne : ∀ p, (v.view p).size ≠ 0 → t.part p ≠ [] := by
    intro p hp hnil
    have hsize : (v.view p).size = (t.part p).length := h.size p
    rw [hsize, hnil] at hp
    exact hp rfl
  have hoff : ∀ p, (v.view p).size ≠ 0 → (v.view p).data - v.addr = (t.upTo p).length :=
    fun p hp => h.off p (hne p hp)
  refine ⟨hr, hbuf, ?_, ?_, hoff⟩
  · intro p
    by_cases hp : (v.view p).size = 0
    · have hsize : (v.view p).size = (t.part p).length := h.size p
      rw [Url.get, text, hp, List.take_zero, List.eq_nil_of_length_eq_zero (hsize.symm.trans hp)]
    · obtain ⟨post, hpost⟩ := t.render_upTo p
      rw [get_eq, h.off p (hne p hp), h.size, hbuf, ← hr, hpost, Int.toNat_natCast,
        List.drop_left, List.take_left]
  · intro p hp
    obtain ⟨post, hpost⟩ := t.render_upTo p
    have hlen := congrArg List.length (hr.symm.trans hpost)
    have hsize : (v.view p).size = (t.part p).length := h.size p
    have := hoff p hp
    rw [List.length_append, List.length_append] at hlen
    rw [hbuf, hlen, hsize]
    omega

theorem Placed.of_same {u v : Url} {t : UrlText} (h : Placed u t) (hs : Same v u) : Placed v t :=
  ⟨fun p => (hs.size p).trans (h.size p), fun p hp => (hs.off p).trans (h.off p hp)⟩

/-- **The components of a parsed URL tile the text, and they do so in every
    object that copies and moves make of it**: at the same offsets, with the same
    texts and with host and port next to each other. -/
theorem parse_tiles (al : Alloc) (s : Str) : ∃ u t, parse al s = some u ∧
    ∀ v, Chain u v → Tiles v t s ∧ (∀ p, v.off p = u.off p ∧ v.get p = u.get p) ∧
      v.hostAndPort = v.get .host ++ if v.get .port = [] then [] else ':' :: v.get .port := by
  refine ⟨_, divide s, rfl, ?_⟩
  intro v hv
  have hsame := hv.same
  have hmove := move_same (al 1) (parseLocal (al 0) s)
  have hplaced := (parseLocal_placed (al 0) s).of_same (hsame.trans hmove)
  have hbuf : v.buf = s := (hsame.trans hmove).buf.trans (parseLocal_buf _ s)
  have htiles := hplaced.tiles (render_divide s) hbuf
  refine ⟨htiles, fun p => ⟨hsame.off p, hsame.get p⟩, ?_⟩
  rw [hsame.hostAndPort, parse_hostAndPort rfl, htiles.get, htiles.get]
  rfl

end Url

end Upnp
