/-
  What a URL text is divided into.

  `UrlText` is the abstract view of a parsed URL: its seven components, where
  an optional one is `some` iff the delimiter it comes with is in the text.
  `divide` cuts a text into it at the delimiters, as RFC-less as `url_t::parse`
  does: each is searched for in all that is left.

  * `render_divide`: the components and their delimiters tile the text;
  * `get_parse`: the components of a parsed `url_t` are those of `divide`;
  * `print_parse`: `operator<<` shows the text without the delimiters next to
    an empty component.
-/
import Upnp.Url

namespace Upnp

open Lib

/-- A URL text, divided into its components. -/
structure UrlText where
  scheme : Option Str
  userinfo : Option Str
  host : Str
  port : Option Str
  path : Str
  query : Option Str
  fragment : Option Str
  deriving DecidableEq, Repr

namespace UrlText

/-- The text of a component; an absent one is empty. -/
def part (t : UrlText) : Part → Str
  | .scheme => t.scheme.getD []
  | .userinfo => t.userinfo.getD []
  | .host => t.host
  | .port => t.port.getD []
  | .path => t.path
  | .query => t.query.getD []
  | .fragment => t.fragment.getD []

/-- An optional component with the delimiter after it. -/
def before (delim : Str) : Option Str → Str
  | some t => t ++ delim
  | none => []

/-- An optional component with the delimiter in front of it. -/
def after (delim : Str) : Option Str → Str
  | some t => delim ++ t
  | none => []

/-- The text a division is a division of. -/
def render (t : UrlText) : Str :=
  before [':', '/', '/'] t.scheme ++ (before ['@'] t.userinfo ++ (t.host ++
    (after [':'] t.port ++ (t.path ++ (after ['?'] t.query ++
      after ['#'] t.fragment)))))

/-- Drop the optional components that are there but empty. -/
def squeeze (t : UrlText) : UrlText :=
  let keep := Option.filter fun s : Str => s ≠ []
  ⟨keep t.scheme, keep t.userinfo, t.host, keep t.port, t.path, keep t.query, keep t.fragment⟩

/-! ## Dividing a text -/

/-- The text before the first `delim`, if there is one, and the rest. -/
def cutOr (delim s : Str) : Option Str × Str :=
  match cut delim s with
  | some (x, y) => (some x, y)
  | none => (none, s)

/-- Path, query and fragment. -/
def dividePath (s : Str) : Str × Option Str × Option Str :=
  match cut ['?'] s with
  | some (path, t) => match cut ['#'] t with
    | some (query, fragment) => (path, some query, some fragment)
    | none => (path, some t, none)
  | none => match cut ['#'] s with
    | some (path, fragment) => (path, none, some fragment)
    | none => (s, none, none)

/-- Host, port, and the text from the path on. -/
def divideHost (s : Str) : Str × Option Str × Str :=
  match cut [':'] s with
  | some (host, t) => match cut ['/'] t with
    | some (port, r) => (host, some port, '/' :: r)
    | none => (host, some [], t)
  | none => match cut ['/'] s with
    | some (host, r) => (host, none, '/' :: r)
    | none => (s, none, [])

/-- The text from the host on. -/
def fromHost (s : Str) : Str := (cutOr ['@'] (cutOr [':', '/', '/'] s).2).2

/-- Divide a text at the delimiters `url_t::parse` looks for. -/
def divide (s : Str) : UrlText :=
  let (scheme, s) := cutOr [':', '/', '/'] s
  let (userinfo, s) := cutOr ['@'] s
  let (host, port, s) := divideHost s
  let (path, query, fragment) := dividePath s
  ⟨scheme, userinfo, host, port, path, query, fragment⟩

theorem cutOr_render (delim s : Str) (h : delim ≠ []) :
    before delim (cutOr delim s).1 ++ (cutOr delim s).2 = s := by
  unfold cutOr
  rcases hc : cut delim s with _ | ⟨x, y⟩
  · rfl
  · simp [before, ((cut_eq_some h).1 hc).1]

theorem dividePath_render (s : Str) :
    (dividePath s).1 ++ (after ['?'] (dividePath s).2.1 ++
      after ['#'] (dividePath s).2.2) = s := by
  unfold dividePath
  rcases hq : cut ['?'] s with _ | ⟨path, t⟩
  · rcases hf : cut ['#'] s with _ | ⟨path, fragment⟩
    · simp [after]
    · simp [after, ((cut_eq_some (by decide)).1 hf).1]
  · rw [((cut_eq_some (by decide)).1 hq).1]
    rcases hf : cut ['#'] t with _ | ⟨query, fragment⟩
    · simp only [hf, after, List.append_nil]
    · simp only [hf, after]
      rw [((cut_eq_some (by decide)).1 hf).1]; simp

theorem divideHost_render (s : Str) :
    (divideHost s).1 ++ (after [':'] (divideHost s).2.1 ++ (divideHost s).2.2) = s := by
  unfold divideHost
  rcases hc : cut [':'] s with _ | ⟨host, t⟩
  · rcases hs : cut ['/'] s with _ | ⟨host, r⟩
    · simp [after]
    · simp [after, ((cut_eq_some (by decide)).1 hs).1]
  · rw [((cut_eq_some (by decide)).1 hc).1]
    rcases hs : cut ['/'] t with _ | ⟨port, r⟩
    · simp only [hs, after, List.append_nil]
    · simp only [hs, after]
      rw [((cut_eq_some (by decide)).1 hs).1]; simp

/-- **The components and their delimiters tile the text.** -/
theorem render_divide (s : Str) : (divide s).render = s := by
  simp only [divide, render, dividePath_render, divideHost_render]
  rw [cutOr_render _ _ (by decide), cutOr_render _ _ (by decide)]

/-- Set a component, delimiter included. -/
def put (t : UrlText) : Part → Str → UrlText
  | .scheme, s => { t with scheme := some s }
  | .userinfo, s => { t with userinfo := some s }
  | .host, s => { t with host := s }
  | .port, s => { t with port := some s }
  | .path, s => { t with path := s }
  | .query, s => { t with query := some s }
  | .fragment, s => { t with fragment := some s }

theorem part_put_self (t : UrlText) (p : Part) (s : Str) : (t.put p s).part p = s := by
  cases p <;> rfl

theorem part_put_ne {t : UrlText} {p q : Part} {s : Str} (h : q ≠ p) :
    (t.put p s).part q = t.part q := by
  cases p <;> cases q <;> first | rfl | exact absurd rfl h

end UrlText

/-! ## The parser divides the text -/

namespace Url

open UrlText

/-- The components of `u` are those of `t`. -/
def Shows (u : Url) (t : UrlText) : Prop := ∀ p, u.get p = t.part p

variable {ret : Url} {state : Str} {t : UrlText}

theorem shows_set {p : Part} {tok : Str} (h : Shows ret t) (hs : state <:+ ret.buf)
    (ht : tok <+: state) : Shows (ret.set p state tok) (t.put p tok) := by
  intro q
  by_cases hq : q = p
  · rw [hq, get_set_self hs ht, part_put_self]
  · rw [get_set_ne hq, part_put_ne hq]; exact h q

theorem suffix_of_cut {token x y : Str} (ht : token ≠ []) (hs : state <:+ ret.buf)
    (hc : cut token state = some (x, y)) : y <:+ ret.buf :=
  ((List.suffix_append _ _).trans (cut_suffix ht hc)).trans hs

theorem parsePart_rest (p : Part) (token : Str) (ret : Url) (state : Str) :
    (parsePart p token ret state).2 = (cutOr token state).2 := by
  simp only [parsePart, cutOr, consumeUntil_true]
  rcases cut token state with _ | r <;> rfl

theorem parsePart_shows {p : Part} {token : Str} (ht : token ≠ []) (h : Shows ret t)
    (hs : state <:+ ret.buf) :
    (cutOr token state).2 <:+ (parsePart p token ret state).1.buf ∧
    Shows (parsePart p token ret state).1 ((cutOr token state).1.elim t (t.put p)) := by
  simp only [parsePart, cutOr, consumeUntil_true]
  rcases hc : cut token state with _ | ⟨x, y⟩
  · exact ⟨hs, h⟩
  · exact ⟨suffix_of_cut ht hs hc, shows_set h hs (isPrefix_of_cut ht hc)⟩

theorem parsePath_shows (h : Shows ret t) (h0 : t.query = none ∧ t.fragment = none)
    (hs : state <:+ ret.buf) : Shows (parsePath ret state)
      { t with path := (dividePath state).1, query := (dividePath state).2.1,
               fragment := (dividePath state).2.2 } := by
  obtain ⟨hq₀, hf₀⟩ := h0
  simp only [parsePath, dividePath, consumeUntil_true]
  rcases hq : cut ['?'] state with _ | ⟨path, r⟩
  · rcases hf : cut ['#'] state with _ | ⟨path, fragment⟩
    · have := shows_set (p := .path) h hs List.prefix_rfl
      simpa only [put, hq₀, hf₀] using this
    · have hpath := shows_set (p := .path) h hs (isPrefix_of_cut (by decide) hf)
      have := shows_set (p := .fragment) hpath (suffix_of_cut (by decide) hs hf) List.prefix_rfl
      simpa only [put, hq₀] using this
  · have hpath := shows_set (p := .path) h hs (isPrefix_of_cut (by decide) hq)
    have hr := suffix_of_cut (by decide) hs hq
    rcases hf : cut ['#'] r with _ | ⟨query, fragment⟩
    · have := shows_set (p := .query) hpath hr List.prefix_rfl
      simpa only [hf, put, hf₀] using this
    · have := shows_set (p := .fragment) (shows_set (p := .query) hpath hr
        (isPrefix_of_cut (by decide) hf)) (suffix_of_cut (by decide) hr hf) List.prefix_rfl
      simpa only [hf, put] using this

theorem parseHost_shows (h : Shows ret t)
    (h0 : t.port = none ∧ t.path = [] ∧ t.query = none ∧ t.fragment = none)
    (hs : state <:+ ret.buf) : Shows (parseHost ret state)
      { t with
        host := (divideHost state).1
        port := (divideHost state).2.1
        path := (dividePath (divideHost state).2.2).1
        query := (dividePath (divideHost state).2.2).2.1
        fragment := (dividePath (divideHost state).2.2).2.2 } := by
  obtain ⟨hp₀, ha₀, hq₀, hf₀⟩ := h0
  have hslash : ∀ {s x y : Str}, cut ['/'] s = some (x, y) → s <:+ ret.buf →
      '/' :: y <:+ ret.buf := fun hc hs => (cut_suffix (by decide) hc).trans hs
  simp only [parseHost, divideHost, consumeUntil_true, consumeUntil_false]
  rcases hc : cut [':'] state with _ | ⟨host, r⟩
  · rcases hp : cut ['/'] state with _ | ⟨host, path⟩
    · have := shows_set (p := .host) h hs List.prefix_rfl
      simpa [dividePath, cut, firstSuffix, put, hp₀, ha₀, hq₀, hf₀] using this
    · have hhost := shows_set (p := .host) h hs (isPrefix_of_cut (by decide) hp)
      have := parsePath_shows hhost ⟨hq₀, hf₀⟩ (hslash hp hs)
      simpa only [Option.map_some, put, hp₀] using this
  · have hhost := shows_set (p := .host) h hs (isPrefix_of_cut (by decide) hc)
    have hr := suffix_of_cut (by decide) hs hc
    rcases hp : cut ['/'] r with _ | ⟨port, path⟩
    · -- the colon is gone, but no port was set: it shows as an empty one
      have := parsePath_shows hhost ⟨hq₀, hf₀⟩ hr
      simp only [hp, Option.map_none]
      intro q
      refine (this q).trans ?_
      cases q <;> simp [part, put, hp₀]
    · have hport := shows_set (p := .port) hhost hr (isPrefix_of_cut (by decide) hp)
      have := parsePath_shows hport ⟨hq₀, hf₀⟩ (hslash hp hr)
      simpa only [hp, Option.map_some, put] using this

/-- `parseHost` is reached with the text from the host on. -/
theorem parseLocal_eq (a : Addr) (s : Str) : parseLocal a s =
    parseHost (parsePart .userinfo ['@'] (parsePart .scheme [':', '/', '/']
      { Url.empty a with buf := s } s).1 (cutOr [':', '/', '/'] s).2).1 (fromHost s) := by
  simp only [parseLocal, fromHost, parsePart_rest]

/-- **The components of a parsed URL are those its text is divided into.** -/
theorem parseLocal_shows (a : Addr) (s : Str) : Shows (parseLocal a s) (divide s) := by
  have h0 : Shows { Url.empty a with buf := s } ⟨none, none, [], none, [], none, none⟩ := by
    intro p
    rw [get_null (by rfl)]
    cases p <;> rfl
  obtain ⟨s1, h1⟩ := parsePart_shows (p := .scheme) (show [':', '/', '/'] ≠ [] by decide) h0
    (List.suffix_refl s)
  obtain ⟨s2, h2⟩ := parsePart_shows (p := .userinfo) (show ['@'] ≠ [] by decide) h1 s1
  have h3 := parseHost_shows h2 (by
    rcases (cutOr [':', '/', '/'] s).1 with _ | x <;> rcases (cutOr ['@'] _).1 with _ | y <;>
      simp [put]) s2
  rw [parseLocal_eq]
  intro p
  refine (h3 p).trans ?_
  simp only [divide]
  rcases (cutOr [':', '/', '/'] s).1 with _ | x <;>
    rcases (cutOr ['@'] (cutOr [':', '/', '/'] s).2).1 with _ | y <;> rfl

theorem parsePath_buf : (parsePath ret state).buf = ret.buf := by
  unfold parsePath
  split
  · dsimp only; split <;> rfl
  · split <;> rfl

theorem parseHost_buf : (parseHost ret state).buf = ret.buf := by
  unfold parseHost
  split
  · dsimp only; split <;> exact parsePath_buf
  · split
    · exact parsePath_buf
    · rfl

theorem parseLocal_buf (a : Addr) (s : Str) : (parseLocal a s).buf = s := by
  have hpart : ∀ {p token ret state}, (parsePart p token ret state).1.buf = ret.buf := by
    intro p token ret state
    unfold parsePart; split <;> rfl
  simp only [parseLocal, parseHost_buf, hpart]

/-- What `url_t::parse` returns shows the divided text, in a buffer of that text. -/
theorem parse_shows (al : Alloc) (s : Str) :
    ∃ u, parse al s = some u ∧ u.buf = s ∧ Shows u (divide s) := by
  refine ⟨_, rfl, parseLocal_buf _ s, ?_⟩
  intro p
  rw [(move_same _ _).get]
  exact parseLocal_shows _ s p

end Url

end Upnp
