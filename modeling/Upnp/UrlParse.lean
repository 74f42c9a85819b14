/-
  Printing a parsed URL, and parsing a composed one.

  * `print_parse_iff`: `operator<<` gives the parsed text back iff no delimiter
    of the text stands next to an empty component (`KeepsDelimiters`);
  * `parse_compose_iff`: the components of a URL composed as RFC 3986 has it
    are parsed back iff no component after the host holds a delimiter that an
    earlier, absent component is searched by (`Unambiguous`).
-/
import Upnp.UrlText

namespace Upnp

open Lib

namespace UrlText

/-! ## Delimiters of empty components -/

/-- No optional component is there but empty. -/
structure Lossless (t : UrlText) : Prop where
  scheme : t.scheme ≠ some []
  userinfo : t.userinfo ≠ some []
  port : t.port ≠ some []
  query : t.query ≠ some []
  fragment : t.fragment ≠ some []

theorem length_before_filter {d : Str} (hd : d ≠ []) (o : Option Str) :
    (before d (o.filter fun s => s ≠ [])).length ≤ (before d o).length ∧
    ((before d (o.filter fun s => s ≠ [])).length = (before d o).length ↔ o ≠ some []) := by
  have := List.length_pos_of_ne_nil hd
  rcases o with _ | s
  · simp [before]
  · by_cases hs : s = []
    · subst hs
      simp only [ne_eq, Option.filter_some, not_true_eq_false, decide_false, before]
      simp [hd, eq_comm]
    · simp [before, Option.filter, hs]

theorem length_after_filter {d : Str} (hd : d ≠ []) (o : Option Str) :
    (after d (o.filter fun s => s ≠ [])).length ≤ (after d o).length ∧
    ((after d (o.filter fun s => s ≠ [])).length = (after d o).length ↔ o ≠ some []) := by
  have := length_before_filter hd o
  have hl : ∀ o : Option Str, (after d o).length = (before d o).length := by
    rintro (_ | s) <;> simp [before, after, Nat.add_comm]
  rwa [hl, hl]

theorem filter_eq_self {o : Option Str} (h : o ≠ some []) : o.filter (fun s => s ≠ []) = o := by
  rcases o with _ | s
  · rfl
  · have hs : s ≠ [] := fun e => h (by rw [e])
    simp [Option.filter, hs]

theorem squeeze_of_lossless {t : UrlText} (h : t.Lossless) : t.squeeze = t := by
  simp only [squeeze, filter_eq_self h.scheme, filter_eq_self h.userinfo, filter_eq_self h.port,
    filter_eq_self h.query, filter_eq_self h.fragment]

/-- **Dropping empty components changes the text, unless there are none.** -/
theorem render_squeeze_iff (t : UrlText) : t.squeeze.render = t.render ↔ t.Lossless := by
  refine ⟨?_, fun h => by rw [squeeze_of_lossless h]⟩
  intro h
  have hlen := congrArg List.length h
  simp only [render, squeeze, List.length_append] at hlen
  obtain ⟨l1, e1⟩ := length_before_filter (d := [':', '/', '/']) (by decide) t.scheme
  obtain ⟨l2, e2⟩ := length_before_filter (d := ['@']) (by decide) t.userinfo
  obtain ⟨l3, e3⟩ := length_after_filter (d := [':']) (by decide) t.port
  obtain ⟨l4, e4⟩ := length_after_filter (d := ['?']) (by decide) t.query
  obtain ⟨l5, e5⟩ := length_after_filter (d := ['#']) (by decide) t.fragment
  exact ⟨e1.1 (by omega), e2.1 (by omega), e3.1 (by omega), e4.1 (by omega), e5.1 (by omega)⟩

end UrlText

open UrlText

/-- **`operator<<` drops the delimiters of empty components.** -/
theorem Url.print_of_shows {u : Url} {t : UrlText} (h : u.Shows t) :
    u.print = t.squeeze.render := by
  replace h : ∀ p, u.get p = t.part p := h
  have hb : ∀ (d : Str) (o : Option Str), (if o.getD [] ≠ [] then o.getD [] ++ d else []) =
      before d (o.filter fun s => s ≠ []) := by
    rintro d (_ | s)
    · rfl
    · by_cases hs : s = [] <;> simp [before, Option.filter, hs]
  have ha : ∀ (d : Str) (o : Option Str), (if o.getD [] ≠ [] then d ++ o.getD [] else []) =
      after d (o.filter fun s => s ≠ []) := by
    rintro d (_ | s)
    · rfl
    · by_cases hs : s = [] <;> simp [after, Option.filter, hs]
  have hi : ∀ s : Str, (if s ≠ [] then s else []) = s := by
    intro s; split_ifs with hs <;> simp_all
  simp only [Url.print, h, part, hb, ha, hi]
  rfl

/-! ## Which texts print back -/

/-- What follows the first `delim`; all of the text if there is none. -/
def rest (delim s : Str) : Str := (cutOr delim s).2

/-- Neither the query nor the fragment is empty, in what follows a `?`. -/
def QueryKeeps (t : Str) : Prop :=
  t ≠ [] ∧ ∀ query fragment, '#' ∉ query → t = query ++ '#' :: fragment →
    query ≠ [] ∧ fragment ≠ []

/-- Neither a `?` nor a `#` is followed by an empty component, from the path on. -/
def PathKeeps (r : Str) : Prop :=
  (∀ path t, '?' ∉ path → r = path ++ '?' :: t → QueryKeeps t) ∧
  ('?' ∉ r → ∀ path fragment, '#' ∉ path → r = path ++ '#' :: fragment → fragment ≠ [])

/-- A `:` is followed by a non-empty port and a `/`, from the host on. -/
def HostKeeps (s : Str) : Prop :=
  (∀ host t, ':' ∉ host → s = host ++ ':' :: t →
    ∃ port r, '/' ∉ port ∧ t = port ++ '/' :: r ∧ port ≠ [] ∧ PathKeeps ('/' :: r)) ∧
  (':' ∉ s → ∀ host r, '/' ∉ host → s = host ++ '/' :: r → PathKeeps ('/' :: r))

/-- No delimiter that splits the text stands next to an empty component. -/
def KeepsDelimiters (s : Str) : Prop :=
  ¬ [':', '/', '/'] <+: s ∧ ¬ ['@'] <+: rest [':', '/', '/'] s ∧
    HostKeeps (rest ['@'] (rest [':', '/', '/'] s))

theorem cutOr_ne_some_nil {delim s : Str} (hd : delim ≠ []) :
    (cutOr delim s).1 ≠ some [] ↔ ¬ delim <+: s := by
  rw [not_iff_not]
  unfold cutOr
  rcases hc : cut delim s with _ | ⟨x, y⟩
  · simp only [reduceCtorEq, false_iff]
    exact fun h => (cut_eq_none hd).1 hc h.isInfix
  · obtain ⟨rfl, hl⟩ := (cut_eq_some hd).1 hc
    simp only [Option.some.injEq]
    constructor
    · rintro rfl; exact List.prefix_append _ _
    · intro h
      by_contra hx
      exact hl [] x rfl hx h

theorem queryKeeps_iff (t : Str) : QueryKeeps t ↔
    (∀ x y, cut ['#'] t = some (x, y) → x ≠ [] ∧ y ≠ []) ∧ (cut ['#'] t = none → t ≠ []) := by
  simp only [QueryKeeps, cut_singleton_eq_some, cut_singleton_eq_none]
  constructor
  · rintro ⟨h1, h2⟩
    exact ⟨fun x y ⟨e, hx⟩ => h2 x y hx e, fun _ => h1⟩
  · rintro ⟨h1, h2⟩
    refine ⟨?_, fun x y hx e => h1 x y ⟨e, hx⟩⟩
    rintro rfl
    exact h2 (by simp) rfl

theorem dividePath_keeps (r : Str) : PathKeeps r ↔
    (dividePath r).2.1 ≠ some [] ∧ (dividePath r).2.2 ≠ some [] := by
  unfold dividePath PathKeeps
  rcases hq : cut ['?'] r with _ | ⟨path, t⟩
  · have hn := cut_singleton_eq_none.1 hq
    have h1 : ∀ path t, '?' ∉ path → r = path ++ '?' :: t → QueryKeeps t := by
      rintro path t - rfl; simp at hn
    rcases hf : cut ['#'] r with _ | ⟨path, fragment⟩
    · have hn' := cut_singleton_eq_none.1 hf
      simp only [ne_eq, reduceCtorEq, not_false_eq_true, and_self, iff_true]
      refine ⟨h1, ?_⟩
      intro _ path fragment _ e
      rw [e] at hn'; simp at hn'
    · obtain ⟨rfl, hp⟩ := cut_singleton_eq_some.1 hf
      simp only [ne_eq, reduceCtorEq, not_false_eq_true, true_and, Option.some.injEq]
      constructor
      · exact fun h => h.2 hn path fragment hp rfl
      · refine fun h => ⟨h1, ?_⟩
        intro _ path' fragment' hp' e
        rw [← (cut_singleton_unique hp hp' e).2]; exact h
  · obtain ⟨rfl, hp⟩ := cut_singleton_eq_some.1 hq
    have hk : ((∀ path' t', '?' ∉ path' → path ++ '?' :: t = path' ++ '?' :: t' → QueryKeeps t') ∧
        ('?' ∉ path ++ '?' :: t → ∀ path' fragment, '#' ∉ path' →
          path ++ '?' :: t = path' ++ '#' :: fragment → fragment ≠ [])) ↔ QueryKeeps t := by
      constructor
      · exact fun h => h.1 path t hp rfl
      · refine fun h => ⟨?_, fun h' => absurd h' (by simp)⟩
        intro path' t' hp' e
        rw [← (cut_singleton_unique hp hp' e).2]; exact h
    rw [hk, queryKeeps_iff]
    rcases hf : cut ['#'] t with _ | ⟨query, fragment⟩
    · simp [hf]
    · simp [hf]

theorem divideHost_keeps (s : Str) : HostKeeps s ↔
    (divideHost s).2.1 ≠ some [] ∧ PathKeeps (divideHost s).2.2 := by
  unfold divideHost HostKeeps
  rcases hc : cut [':'] s with _ | ⟨host, t⟩
  · have hn := cut_singleton_eq_none.1 hc
    have h1 : ∀ host t, ':' ∉ host → s = host ++ ':' :: t →
        ∃ port r, '/' ∉ port ∧ t = port ++ '/' :: r ∧ port ≠ [] ∧ PathKeeps ('/' :: r) := by
      rintro host t - rfl; simp at hn
    rcases hs : cut ['/'] s with _ | ⟨host, r⟩
    · have hn' := cut_singleton_eq_none.1 hs
      refine ⟨fun _ => ⟨by simp, by simp [dividePath_keeps, dividePath, cut, firstSuffix]⟩,
        fun _ => ⟨h1, ?_⟩⟩
      intro _ host r _ e
      rw [e] at hn'; simp at hn'
    · obtain ⟨rfl, hh⟩ := cut_singleton_eq_some.1 hs
      refine ⟨fun h => ⟨by simp, h.2 hn host r hh rfl⟩, fun h => ⟨h1, ?_⟩⟩
      intro _ host' r' hh' e
      rw [← (cut_singleton_unique hh hh' e).2]; exact h.2
  · obtain ⟨rfl, hh⟩ := cut_singleton_eq_some.1 hc
    have h2 : ':' ∉ host ++ ':' :: t → ∀ host' r, '/' ∉ host' →
        host ++ ':' :: t = host' ++ '/' :: r → PathKeeps ('/' :: r) := fun h => absurd h (by simp)
    rcases hs : cut ['/'] t with _ | ⟨port, r⟩
    · have hn := cut_singleton_eq_none.1 hs
      simp only [hs, ne_eq, not_true_eq_false, false_and, iff_false]
      rintro ⟨h, -⟩
      obtain ⟨port, r, -, rfl, -⟩ := h host t hh rfl
      simp at hn
    · obtain ⟨rfl, hp⟩ := cut_singleton_eq_some.1 hs
      simp only [hs, ne_eq, Option.some.injEq]
      constructor
      · rintro ⟨h, -⟩
        obtain ⟨port', r', hp', e, hne, hk⟩ := h host _ hh rfl
        obtain ⟨rfl, rfl⟩ := cut_singleton_unique hp hp' e
        exact ⟨hne, hk⟩
      · rintro ⟨hne, hk⟩
        refine ⟨?_, h2⟩
        intro host' t' hh' e
        rw [← (cut_singleton_unique hh hh' e).2]
        exact ⟨port, r, hp, rfl, hne, hk⟩

theorem lossless_divide (s : Str) : (divide s).Lossless ↔ KeepsDelimiters s := by
  have hb := @cutOr_ne_some_nil [':', '/', '/'] s (by decide)
  have hu := @cutOr_ne_some_nil ['@'] (rest [':', '/', '/'] s) (by decide)
  rw [KeepsDelimiters, divideHost_keeps, dividePath_keeps, ← hb, ← hu]
  simp only [divide, rest]
  refine ⟨fun h => ⟨h.scheme, h.userinfo, h.port, h.query, h.fragment⟩, ?_⟩
  rintro ⟨h1, h2, h3, h4, h5⟩
  exact ⟨h1, h2, h3, h4, h5⟩

/-- The text parses, `operator<<` prints the result as it was, and so as
    `operator string_view` shows it. -/
def PrintsBack (al : Alloc) (s : Str) : Prop :=
  ∃ u, Url.parse al s = some u ∧ u.print = s ∧ u.print = u.stringView

/-- **A URL prints as it was parsed iff none of its delimiters stands next to an
    empty component.** -/
theorem print_parse_iff (al : Alloc) (s : Str) : PrintsBack al s ↔ KeepsDelimiters s := by
  obtain ⟨u, hu, hbuf, hs⟩ := Url.parse_shows al s
  have hp : u.print = s ↔ KeepsDelimiters s := by
    rw [Url.print_of_shows hs, ← lossless_divide, ← render_squeeze_iff, render_divide]
  rw [PrintsBack, ← hp]
  constructor
  · rintro ⟨v, hv, h, -⟩
    rw [hu] at hv; cases hv; exact h
  · exact fun h => ⟨u, hu, h, h.trans hbuf.symm⟩

/-- The colon of a port that no path follows is lost. -/
theorem port_without_path_not_printed :
    ¬ PrintsBack (fun _ => ⟨4096, by decide⟩) "http://example.org:1500".toList := by
  rintro ⟨u, hu, h, -⟩
  cases hu
  revert h
  decide

/-! ## Composed URLs -/

/-- The components of a URL, as RFC 3986 constrains them.  An optional component
    is `some` iff its delimiter is written, `some []` if it is empty. -/
structure Composed where
  scheme : Str
  userinfo : Option Str
  host : Str
  port : Option Str
  path : Str
  query : Option Str
  fragment : Option Str
  scheme_ok : scheme ≠ [] ∧ ∀ c ∈ scheme, c.isAlpha
  userinfo_ok : ∀ s, userinfo = some s → '@' ∉ s ∧ '/' ∉ s
  host_ok : host ≠ [] ∧ ':' ∉ host ∧ '/' ∉ host ∧ '@' ∉ host ∧ '?' ∉ host ∧ '#' ∉ host
  port_ok : ∀ s, port = some s → ∀ c ∈ s, isDigit c
  path_ok : path.head? = some '/' ∧ '?' ∉ path ∧ '#' ∉ path
  query_ok : ∀ s, query = some s → '#' ∉ s

namespace Composed
variable (c : Composed)

def parts : UrlText := ⟨some c.scheme, c.userinfo, c.host, c.port, c.path, c.query, c.fragment⟩

/-- `scheme://[userinfo@]host[:port]path[?query][#fragment]` -/
def text : Str := c.parts.render

/-- The text from the path on. -/
def tail : Str := c.path ++ (after ['?'] c.query ++ after ['#'] c.fragment)

/-- The text from the host on. -/
def fromHost : Str := c.host ++ (after [':'] c.port ++ c.tail)

/-- An absent component is not mistaken: its delimiter does not occur later. -/
structure Unambiguous : Prop where
  userinfo : c.userinfo = none → '@' ∉ c.tail
  port : c.port = none → ':' ∉ c.tail
  query : c.query = none → '?' ∉ c.fragment.getD []

variable {c}

theorem digit_ne {d : Char} {s : Str} (hd : ∀ x ∈ s, isDigit x) (h : isDigit d = false) : d ∉ s :=
  fun hm => by simp [hd d hm] at h

theorem tail_eq : ∃ r, c.tail = '/' :: r := by
  obtain ⟨h, -, -⟩ := c.path_ok
  rcases hp : c.path with _ | ⟨a, r⟩
  · rw [hp] at h; cases h
  · rw [hp, List.head?_cons, Option.some.injEq] at h
    exact ⟨_, by rw [tail, hp, h]; rfl⟩

theorem fromHost_ne_at : ∃ d r, c.fromHost = d :: r ∧ d ≠ '@' := by
  obtain ⟨hne, -, -, hat, -⟩ := c.host_ok
  rcases hh : c.host with _ | ⟨d, r⟩
  · exact absurd hh hne
  · rw [hh] at hat
    exact ⟨d, _, by rw [fromHost, hh]; rfl, fun e => hat (by simp [e])⟩

theorem at_notMem_fromHost (h : '@' ∉ c.tail) : '@' ∉ c.fromHost := by
  obtain ⟨-, -, -, hat, -⟩ := c.host_ok
  rcases hp : c.port with _ | p
  · simp [fromHost, hp, after, hat, h]
  · have := digit_ne (d := '@') (c.port_ok p hp) (by decide)
    simp [fromHost, hp, after, hat, h, this]

/-! ### The cuts, one after the other -/

theorem cutOr_scheme : cutOr [':', '/', '/'] c.text =
    (some c.scheme, before ['@'] c.userinfo ++ c.fromHost) := by
  have hc : ':' ∉ c.scheme := fun h => absurd (c.scheme_ok.2 _ h) (by decide)
  have : cut [':', '/', '/'] c.text =
      some (c.scheme, before ['@'] c.userinfo ++ c.fromHost) := by
    rw [cut_eq_some (by decide)]
    exact ⟨by simp [text, UrlText.render, parts, before, fromHost, tail], noEarlier_of_notMem hc⟩
  rw [cutOr, this]

theorem cutOr_userinfo : (cutOr ['@'] (before ['@'] c.userinfo ++ c.fromHost)).1.getD [] =
      c.userinfo.getD [] ↔ (c.userinfo = none → '@' ∉ c.tail) := by
  rcases hu : c.userinfo with _ | u
  · obtain ⟨d, r, he, hd⟩ := c.fromHost_ne_at
    simp only [before, List.nil_append, cutOr, forall_const, Option.getD_none]
    rcases hc : cut ['@'] c.fromHost with _ | ⟨x, y⟩
    · have := cut_singleton_eq_none.1 hc
      simp only [fromHost, List.mem_append, not_or] at this
      simp [this]
    · obtain ⟨hx, -⟩ := cut_singleton_eq_some.1 hc
      have hmem : '@' ∈ c.tail := by
        by_contra hn
        exact c.at_notMem_fromHost hn (hx ▸ by simp)
      have hne : x ≠ [] := by
        rintro rfl
        rw [he] at hx; simp only [List.nil_append, List.cons.injEq] at hx
        exact hd hx.1
      simp [hne, hmem]
  · have hn := (c.userinfo_ok u hu).1
    simp [before, cutOr, cut_singleton_append hn]

theorem cutOr_userinfo_rest (h : c.userinfo = none → '@' ∉ c.tail) :
    cutOr ['@'] (before ['@'] c.userinfo ++ c.fromHost) = (c.userinfo, c.fromHost) := by
  rcases hu : c.userinfo with _ | u
  · have := cut_singleton_eq_none.2 (c.at_notMem_fromHost (h hu))
    simp [before, cutOr, this]
  · have hn := (c.userinfo_ok u hu).1
    simp [before, cutOr, cut_singleton_append hn]

theorem divideHost_fromHost (h : c.port = none → ':' ∉ c.tail) :
    divideHost c.fromHost = (c.host, c.port, c.tail) := by
  obtain ⟨-, hcolon, hslash, -⟩ := c.host_ok
  obtain ⟨r, hr⟩ := c.tail_eq
  rcases hp : c.port with _ | p
  · have hn : ':' ∉ c.fromHost := by simp [fromHost, hp, after, hcolon, h hp]
    have hs := cut_singleton_append (y := r) hslash
    simp only [divideHost, cut_singleton_eq_none.2 hn]
    simp only [fromHost, hp, after, List.nil_append, hr, hs]
  · have hd := digit_ne (d := '/') (c.port_ok p hp) (by decide)
    have hs := cut_singleton_append (y := r) hd
    have hc := cut_singleton_append (y := p ++ '/' :: r) hcolon
    simp only [divideHost, fromHost, hp, after, List.cons_append, List.nil_append, hc, hr, hs]

theorem divideHost_ne (h : c.port = none) (hm : ':' ∈ c.tail) :
    (divideHost c.fromHost).1 ≠ c.host := by
  obtain ⟨r, hr⟩ := c.tail_eq
  have he : c.fromHost = c.host ++ c.tail := by simp [fromHost, h, after]
  rcases hc : cut [':'] c.fromHost with _ | ⟨x, y⟩
  · exact absurd (cut_singleton_eq_none.1 hc) (by simp [he, hm])
  · obtain ⟨hx, -⟩ := cut_singleton_eq_some.1 hc
    have h1 : (divideHost c.fromHost).1 = x := by
      simp only [divideHost, hc]; split <;> rfl
    rw [h1]
    rintro rfl
    rw [he, List.append_right_inj, hr] at hx
    simp at hx

theorem dividePath_tail (h : c.query = none → '?' ∉ c.fragment.getD []) :
    dividePath c.tail = (c.path, c.query, c.fragment) := by
  obtain ⟨-, hq, hf⟩ := c.path_ok
  rcases hqu : c.query with _ | q
  · rcases hfr : c.fragment with _ | f
    · simp [dividePath, tail, hqu, hfr, after, cut_singleton_eq_none.2 hq,
        cut_singleton_eq_none.2 hf]
    · have hn : '?' ∉ f := by simpa [hfr] using h hqu
      have h1 : cut ['?'] (c.path ++ '#' :: f) = none := by
        rw [cut_singleton_eq_none]; simp [hq, hn]
      simp [dividePath, tail, hqu, hfr, after, h1, cut_singleton_append hf]
  · have hqn := c.query_ok q hqu
    rcases hfr : c.fragment with _ | f
    · simp [dividePath, tail, hqu, hfr, after, cut_singleton_append hq,
        cut_singleton_eq_none.2 hqn]
    · simp [dividePath, tail, hqu, hfr, after, cut_singleton_append hq, cut_singleton_append hqn]

theorem dividePath_ne (h : c.query = none) (hm : '?' ∈ c.fragment.getD []) :
    (dividePath c.tail).1 ≠ c.path := by
  rcases hfr : c.fragment with _ | f
  · simp [hfr] at hm
  · have he : c.tail = c.path ++ '#' :: f := by simp [tail, h, hfr, after]
    rcases hc : cut ['?'] c.tail with _ | ⟨x, y⟩
    · have hn := cut_singleton_eq_none.1 hc
      simp_all
    · obtain ⟨hx, -⟩ := cut_singleton_eq_some.1 hc
      have h1 : (dividePath c.tail).1 = x := by
        simp only [dividePath, hc]; split <;> rfl
      rw [h1]
      rintro rfl
      rw [he, List.append_right_inj] at hx
      simp at hx

end Composed

/-- The composed text parses back to the components it was composed of. -/
def ParsesBack (al : Alloc) (c : Composed) : Prop :=
  ∃ u, Url.parse al c.text = some u ∧ ∀ p, u.get p = c.parts.part p

/-- **A composed URL parses back iff it is unambiguous.** -/
theorem parse_compose_iff (al : Alloc) (c : Composed) : ParsesBack al c ↔ c.Unambiguous := by
  obtain ⟨u, hu, -, hs⟩ := Url.parse_shows al c.text
  have hp : ParsesBack al c ↔ ∀ p, (divide c.text).part p = c.parts.part p := by
    constructor
    · rintro ⟨v, hv, h⟩ p
      rw [hu] at hv; cases hv
      exact (hs p).symm.trans (h p)
    · exact fun h => ⟨u, hu, fun p => (hs p).trans (h p)⟩
  rw [hp]
  constructor
  · intro h
    have h1 : c.userinfo = none → '@' ∉ c.tail := by
      rw [← Composed.cutOr_userinfo]
      have := h .userinfo
      simp only [divide, Composed.cutOr_scheme] at this
      exact this
    simp only [divide, Composed.cutOr_scheme, Composed.cutOr_userinfo_rest h1] at h
    have h2 : c.port = none → ':' ∉ c.tail := fun hn hm => Composed.divideHost_ne hn hm (h .host)
    simp only [Composed.divideHost_fromHost h2] at h
    exact ⟨h1, h2, fun hn hm => Composed.dividePath_ne hn hm (h .path)⟩
  · rintro ⟨h1, h2, h3⟩ p
    have hd : divide c.text = c.parts := by
      simp only [divide, Composed.cutOr_scheme, Composed.cutOr_userinfo_rest h1,
        Composed.divideHost_fromHost h2, Composed.dividePath_tail h3, Composed.parts]
    rw [hd]

/-- `http://host/a@b`: what stands before the `@` of the path is taken for a userinfo. -/
def atInPath : Composed where
  scheme := "http".toList
  userinfo := none
  host := "host".toList
  port := none
  path := "/a@b".toList
  query := none
  fragment := none
  scheme_ok := ⟨by decide, List.all_eq_true.1 (by decide)⟩
  userinfo_ok := by simp
  host_ok := by decide
  port_ok := by simp
  path_ok := by decide
  query_ok := by simp

theorem at_in_path_not_parsed : ¬ ParsesBack (fun _ => ⟨4096, by decide⟩) atInPath := by
  rintro ⟨u, hu, h⟩
  cases hu
  exact absurd (h .userinfo) (by decide)

end Upnp
