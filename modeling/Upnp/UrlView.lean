/-
  Where the views of a parsed URL point to, and what `replace_path` does to them.

  * `PathAt u pre post`: the buffer is `pre`, the path and `post`; the other
    views point into `pre` or into `post`;
  * `replacePath_spec`: on such an object `replace_path` succeeds, changes the
    path only and keeps the layout;
  * `parse_pathAt`: a text with a `:` or a `/` after the userinfo parses to
    such an object; in any other the path view is never set (`parse_noPath`);
  * `parse_hostAndPort`: `host_and_port()` shows the host and the port of the text.
-/
import Upnp.UrlText

namespace Upnp

open Lib

namespace Url

/-! ## The layout of an object whose path was set -/

/-- The components that stand before the path. -/
def Early : Part → Prop
  | .scheme | .userinfo | .host | .port => True
  | _ => False

/-- The buffer is `pre`, the path and `post`, and the views point accordingly. -/
structure PathAt (u : Url) (pre post : Str) : Prop where
  buf : u.buf = pre ++ (u.get .path ++ post)
  off : u.off .path = pre.length
  size : u.size .path = (u.get .path).length
  early : ∀ p, Early p → u.size p = 0 ∨ 0 ≤ u.off p ∧ u.off p + u.size p ≤ pre.length
  late : ∀ p, p = .query ∨ p = .fragment → u.size p = 0 ∨
    pre.length + (u.get .path).length ≤ u.off p
  adjacent : u.size .port ≠ 0 → 0 ≤ u.off .host ∧ u.off .host ≤ u.off .port

theorem PathAt.of_same {u v : Url} {pre post : Str} (h : PathAt u pre post) (hs : Same v u) :
    PathAt v pre post where
  buf := by rw [hs.buf, hs.get]; exact h.buf
  off := by rw [hs.off]; exact h.off
  size := by rw [hs.size, hs.get]; exact h.size
  early := fun p hp => by rw [hs.size, hs.off]; exact h.early p hp
  late := fun p hp => by rw [hs.size, hs.off, hs.get]; exact h.late p hp
  adjacent := by rw [hs.size, hs.off, hs.off]; exact h.adjacent

/-- Text read before the end of `x` does not depend on what follows. -/
theorem read_left {x y z : Str} {i n : ℕ} (h : i + n ≤ x.length) :
    ((x ++ y).drop i).take n = ((x ++ z).drop i).take n := by
  have ht : n ≤ (x.drop i).length := by rw [List.length_drop]; omega
  rw [List.drop_append_of_le_length (by omega), List.drop_append_of_le_length (by omega),
    List.take_append_of_le_length ht, List.take_append_of_le_length ht]

/-- Text read from behind `x` only depends on how far behind. -/
theorem read_right {x y z : Str} {i j : ℕ} (h : i = x.length + j) :
    (x ++ z).drop i = (y ++ z).drop (y.length + j) := by
  rw [h, ← List.drop_drop, List.drop_left, ← List.drop_drop, List.drop_left]

theorem stringReplace_middle (x y z p : Str) :
    stringReplace (x ++ (y ++ z)) x.length y.length p = .ok (x ++ (p ++ z)) := by
  have h : (0 : ℤ) ≤ x.length ∧ (x.length : ℤ) ≤ (x ++ (y ++ z)).length := by
    simp only [List.length_append]; omega
  rw [stringReplace, if_pos h]
  simp

section
variable {u : Url} {pre post : Str}

/-- The object `replacePath` leaves when nothing is thrown. -/
def replaced (a : Addr) (pre p post : Str) (u : Url) : Url :=
  ⟨pre ++ (p ++ post), a, fun q => transfer a (u.shift (p.length - u.size .path) q) u.addr⟩

theorem replacePath_eq (h : PathAt u pre post) (a : Addr) (p : Str) :
    u.replacePath a p = .ok (replaced a pre p post u) := by
  have hoff : (u.view .path).data - u.addr = pre.length := h.off
  have hsize : (u.view .path).size = (u.get .path).length := h.size
  simp only [replacePath, hoff, hsize, h.buf, stringReplace_middle, replaced, size]
  rfl

variable {a : Addr} {p : Str}

theorem replaced_early {q : Part} (hq : Early q) :
    (replaced a pre p post u).off q = u.off q ∧ (replaced a pre p post u).size q = u.size q := by
  cases q <;> simp only [Early] at hq <;>
    exact ⟨by simp only [off, replaced, transfer, shift]; omega, rfl⟩

theorem replaced_late {q : Part} (hq : q = .query ∨ q = .fragment) :
    (replaced a pre p post u).off q = u.off q + (p.length - u.size .path) ∧
      (replaced a pre p post u).size q = u.size q := by
  rcases hq with rfl | rfl <;>
    exact ⟨by simp only [off, replaced, transfer, shift]; omega, rfl⟩

theorem replaced_path : (replaced a pre p post u).off .path = u.off .path ∧
    (replaced a pre p post u).size .path = p.length := by
  refine ⟨by simp only [off, replaced, transfer, shift]; omega, ?_⟩
  simp only [size, replaced, transfer, shift]; omega

theorem get_replaced_path (h : PathAt u pre post) : (replaced a pre p post u).get .path = p := by
  rw [get_eq, replaced_path.1, replaced_path.2, h.off]
  simp [replaced]

theorem get_replaced_early (h : PathAt u pre post) {q : Part} (hq : Early q) :
    (replaced a pre p post u).get q = u.get q := by
  rw [get_eq, get_eq, (replaced_early hq).1, (replaced_early hq).2, h.buf]
  rcases h.early q hq with h0 | h1
  · simp [h0]
  · exact read_left (by omega)

theorem get_replaced_late (h : PathAt u pre post) {q : Part} (hq : q = .query ∨ q = .fragment) :
    (replaced a pre p post u).get q = u.get q := by
  rw [get_eq, get_eq, (replaced_late hq).1, (replaced_late hq).2, h.buf]
  rcases h.late q hq with h0 | h1
  · simp [h0]
  · have hs := h.size
    have e1 : (u.off q + (p.length - u.size .path)).toNat =
        (pre ++ p).length + (u.off q - (pre.length + (u.get .path).length)).toNat := by
      rw [List.length_append]; omega
    have e2 : (u.off q).toNat = (pre ++ u.get .path).length +
        (u.off q - (pre.length + (u.get .path).length)).toNat := by
      rw [List.length_append]; omega
    simp only [replaced, ← List.append_assoc]
    rw [read_right e1 (y := pre ++ u.get .path), ← e2]

theorem replaced_pathAt (h : PathAt u pre post) : PathAt (replaced a pre p post u) pre post where
  buf := by rw [get_replaced_path h]; rfl
  off := by rw [replaced_path.1]; exact h.off
  size := by rw [replaced_path.2, get_replaced_path h]
  early := fun q hq => by rw [(replaced_early hq).1, (replaced_early hq).2]; exact h.early q hq
  late := fun q hq => by
    rw [(replaced_late hq).1, (replaced_late hq).2, get_replaced_path h, h.size]
    have := h.late q hq
    omega
  adjacent := by
    have hhost : Early .host := trivial
    have hport : Early .port := trivial
    rw [(replaced_early hport).1, (replaced_early hport).2, (replaced_early hhost).1]
    exact h.adjacent

/-- `host_and_port()` reads from `pre` only. -/
theorem hostAndPort_replaced (h : PathAt u pre post) :
    (replaced a pre p post u).hostAndPort = u.hostAndPort := by
  have hhost : Early .host := trivial
  have hport : Early .port := trivial
  rw [hostAndPort_eq, hostAndPort_eq, get_replaced_early h hhost, (replaced_early hhost).1,
    (replaced_early hport).1, (replaced_early hport).2, h.buf]
  split
  · rfl
  · rename_i hp
    have h1 := h.adjacent hp
    have h2 := (h.early .port trivial).resolve_left hp
    exact read_left (by omega)

/-- **`replace_path` replaces the path and nothing else.** -/
theorem replacePath_spec (h : PathAt u pre post) (a : Addr) (p : Str) :
    ∃ u', u.replacePath a p = .ok u' ∧ PathAt u' pre post ∧ u'.get .path = p ∧
      (∀ q, q ≠ .path → u'.get q = u.get q) ∧ u'.hostAndPort = u.hostAndPort := by
  refine ⟨_, replacePath_eq h a p, replaced_pathAt h, get_replaced_path h, ?_, ?_⟩
  · intro q hq
    cases q with
    | path => exact absurd rfl hq
    | query => exact get_replaced_late h (.inl rfl)
    | fragment => exact get_replaced_late h (.inr rfl)
    | _ => exact get_replaced_early h trivial
  · exact hostAndPort_replaced h

end

/-! ## What the parser assigns -/

/-- `state` is what is left to read, and the views assigned so far end before it. -/
structure Unread (u : Url) (state : Str) : Prop where
  suffix : state <:+ u.buf
  views : ∀ p, u.size p = 0 ∨ 0 ≤ u.off p ∧ u.off p + u.size p + state.length ≤ u.buf.length

section
variable {u : Url} {p q : Part} {state tok rest : Str}

theorem off_set_self : (u.set p state tok).off p = u.buf.length - state.length := by
  simp only [off, set_view_self, set_addr]; omega

theorem size_set_self : (u.set p state tok).size p = tok.length := by
  simp only [size, set_view_self]

theorem off_set_ne (h : q ≠ p) : (u.set p state tok).off q = u.off q := by
  simp only [off, set_view_ne h, set_addr]

theorem size_set_ne (h : q ≠ p) : (u.set p state tok).size q = u.size q := by
  simp only [size, set_view_ne h]

/-- A token is cut off the text, with or without a delimiter behind it. -/
theorem unread_set (h : Unread u state) (hr : rest <:+ state)
    (hl : tok.length + rest.length ≤ state.length) : Unread (u.set p state tok) rest := by
  have hb := h.suffix.length_le
  refine ⟨hr.trans h.suffix, ?_⟩
  intro q
  rw [set_buf]
  by_cases hq : q = p
  · subst hq
    rw [off_set_self, size_set_self]
    omega
  · rw [off_set_ne hq, size_set_ne hq]
    have := h.views q
    omega

theorem unread_cut (h : Unread u state) {d : Str} (hd : d ≠ [])
    (hc : cut d state = some (tok, rest)) : Unread (u.set p state tok) rest := by
  refine unread_set h ((List.suffix_append _ _).trans (cut_suffix hd hc)) ?_
  rw [((cut_eq_some hd).1 hc).1]
  simp only [List.length_append]
  omega

theorem unread_slash (h : Unread u state) (hc : cut ['/'] state = some (tok, rest)) :
    Unread (u.set p state tok) ('/' :: rest) := by
  refine unread_set h (cut_suffix (by decide) hc) ?_
  rw [((cut_eq_some (by decide)).1 hc).1]
  simp only [List.length_append, List.length_cons, List.length_nil]
  omega

theorem unread_parsePart {token : Str} (ht : token ≠ []) (h : Unread u state) :
    Unread (parsePart p token u state).1 (UrlText.cutOr token state).2 ∧
    ∀ q, q ≠ p → (parsePart p token u state).1.view q = u.view q := by
  simp only [parsePart, UrlText.cutOr, consumeUntil_true]
  rcases hc : cut token state with _ | ⟨x, y⟩
  · exact ⟨h, fun _ _ => rfl⟩
  · exact ⟨unread_cut h ht hc, fun q hq => set_view_ne hq⟩

/-- What `parsePath` assigns, by offsets. -/
structure PathRead (u u' : Url) (state : Str) : Prop where
  buf : u'.buf = u.buf
  off : u'.off .path = u.buf.length - state.length
  size : u'.size .path = (UrlText.dividePath state).1.length
  early : ∀ p, Early p → u'.off p = u.off p ∧ u'.size p = u.size p
  late : ∀ p, p = .query ∨ p = .fragment → u'.size p = u.size p ∨
    (u.buf.length - state.length : ℤ) + (UrlText.dividePath state).1.length ≤ u'.off p

theorem early_ne {p : Part} (h : Early p) : p ≠ .path ∧ p ≠ .query ∧ p ≠ .fragment := by
  cases p <;> simp_all [Early]

theorem pathRead_path (hd : (UrlText.dividePath state).1 = tok) :
    PathRead u (u.set .path state tok) state where
  buf := rfl
  off := off_set_self
  size := by rw [size_set_self, hd]
  early _ h := ⟨off_set_ne (early_ne h).1, size_set_ne (early_ne h).1⟩
  late _ h := by
    refine .inl (size_set_ne ?_)
    rcases h with rfl | rfl <;> decide

/-- What is assigned behind the path leaves the path alone. -/
theorem PathRead.set {u' : Url} (h : PathRead u u' state) (hp : p = .query ∨ p = .fragment)
    (hle : (u.buf.length - state.length : ℤ) + (UrlText.dividePath state).1.length ≤
      u.buf.length - rest.length) : PathRead u (u'.set p rest tok) state := by
  have hpath : .path ≠ p := by rcases hp with rfl | rfl <;> decide
  have hearly : ∀ q, Early q → q ≠ p := by
    intro q hq
    rcases hp with rfl | rfl
    · exact (early_ne hq).2.1
    · exact (early_ne hq).2.2
  constructor
  · exact h.buf
  · rw [off_set_ne hpath, h.off]
  · rw [size_set_ne hpath, h.size]
  · intro q hq
    rw [off_set_ne (hearly q hq), size_set_ne (hearly q hq)]
    exact h.early q hq
  · intro q hq
    by_cases hqp : q = p
    · subst hqp
      rw [off_set_self, h.buf]
      exact .inr hle
    · rw [off_set_ne hqp, size_set_ne hqp]
      exact h.late q hq

theorem parsePath_read (u : Url) (state : Str) : PathRead u (parsePath u state) state := by
  simp only [parsePath, consumeUntil_true]
  rcases hq : cut ['?'] state with _ | ⟨path, t⟩
  · rcases hf : cut ['#'] state with _ | ⟨path, fragment⟩
    · have hd : (UrlText.dividePath state).1 = state := by simp [UrlText.dividePath, hq, hf]
      exact pathRead_path hd
    · have hd : (UrlText.dividePath state).1 = path := by simp [UrlText.dividePath, hq, hf]
      obtain ⟨hs, -⟩ := cut_singleton_eq_some.1 hf
      refine (pathRead_path hd).set (.inr rfl) ?_
      rw [hd, hs, List.length_append, List.length_cons]
      omega
  · obtain ⟨hs, -⟩ := cut_singleton_eq_some.1 hq
    have hd : (UrlText.dividePath state).1 = path := by
      simp only [UrlText.dividePath, hq]; split <;> rfl
    have hquery : ∀ query, PathRead u ((u.set .path state path).set .query t query) state := by
      refine fun query => (pathRead_path hd).set (.inl rfl) ?_
      rw [hd, hs, List.length_append, List.length_cons]
      omega
    rcases hf : cut ['#'] t with _ | ⟨query, fragment⟩
    · simp only [hf]
      exact hquery t
    · obtain ⟨ht, -⟩ := cut_singleton_eq_some.1 hf
      simp only [hf]
      refine (hquery query).set (.inr rfl) ?_
      rw [hd, hs, ht, List.length_append, List.length_cons, List.length_append, List.length_cons]
      omega

theorem pathAt_of_read {u' : Url} (h : Unread u state) (hr : PathRead u u' state)
    (hlate : ∀ q, q = .query ∨ q = .fragment → u.size q = 0)
    (hadj : u.size .port ≠ 0 → 0 ≤ u.off .host ∧ u.off .host ≤ u.off .port) :
    ∃ pre post, PathAt u' pre post := by
  obtain ⟨pre, hpre⟩ := h.suffix
  have hlen := congrArg List.length hpre
  rw [List.length_append] at hlen
  have hoff : u'.off .path = pre.length := by rw [hr.off]; omega
  obtain ⟨path, post, hpath, hstate⟩ : ∃ path post, path = (UrlText.dividePath state).1 ∧
      path ++ post = state := ⟨_, _, rfl, UrlText.dividePath_render state⟩
  have hget : u'.get .path = path := by
    rw [get_eq, hoff, hr.size, hr.buf, ← hpre, ← hpath, ← hstate]
    simp
  refine ⟨pre, post, ?_, hoff, by rw [hr.size, hget, hpath], ?_, ?_, ?_⟩
  · rw [hr.buf, hget, hstate, hpre]
  · intro q hq
    have := h.views q
    rw [(hr.early q hq).1, (hr.early q hq).2]
    omega
  · intro q hq
    rw [hget]
    rcases hr.late q hq with h0 | h1
    · left; rw [h0, hlate q hq]
    · right; rw [← hpath] at h1; omega
  · have hp := hr.early .port trivial
    have hh := hr.early .host trivial
    rw [hp.1, hp.2, hh.1]
    exact hadj

theorem parseHost_pathAt (h : Unread u state)
    (h0 : ∀ q, q = .port ∨ q = .query ∨ q = .fragment → u.size q = 0)
    (hm : ':' ∈ state ∨ '/' ∈ state) : ∃ pre post, PathAt (parseHost u state) pre post := by
  have hlate : ∀ {v : Url}, (∀ q, q = .query ∨ q = .fragment → v.size q = u.size q) →
      ∀ q, q = .query ∨ q = .fragment → v.size q = 0 := by
    intro v hv q hq
    rw [hv q hq]; exact h0 q (.inr hq)
  simp only [parseHost, consumeUntil_true, consumeUntil_false]
  rcases hc : cut [':'] state with _ | ⟨host, t⟩
  · rcases hp : cut ['/'] state with _ | ⟨host, r⟩
    · exact absurd hm (not_or.2 ⟨cut_singleton_eq_none.1 hc, cut_singleton_eq_none.1 hp⟩)
    · simp only [Option.map_some]
      refine pathAt_of_read (unread_slash h hp) (parsePath_read _ _) (hlate ?_) ?_
      · intro q hq
        rcases hq with rfl | rfl <;> exact size_set_ne (by decide)
      · rw [size_set_ne (by decide)]; exact fun hn => absurd (h0 .port (.inl rfl)) hn
  · have hu := unread_cut (p := .host) h (by decide) hc
    rcases hp : cut ['/'] t with _ | ⟨port, r⟩
    · simp only [hp, Option.map_none]
      refine pathAt_of_read hu (parsePath_read _ _) (hlate ?_) ?_
      · intro q hq
        rcases hq with rfl | rfl <;> exact size_set_ne (by decide)
      · rw [size_set_ne (by decide)]; exact fun hn => absurd (h0 .port (.inl rfl)) hn
    · simp only [hp, Option.map_some]
      refine pathAt_of_read (unread_slash hu hp) (parsePath_read _ _) (hlate ?_) ?_
      · intro q hq
        rcases hq with rfl | rfl <;>
          exact (size_set_ne (by decide)).trans (size_set_ne (by decide))
      · intro _
        have hl := h.suffix.length_le
        have ht := (cut_append_lt (by decide) hc).2
        rw [off_set_ne (by decide), off_set_self, off_set_self, set_buf]
        omega

/-- What the parser holds when it comes to the host. -/
theorem unread_fromHost (a : Addr) (s : Str) : ∃ ret, parseLocal a s = parseHost ret
    (UrlText.fromHost s) ∧ Unread ret (UrlText.fromHost s) ∧
    ∀ q, q ≠ .scheme → q ≠ .userinfo → ret.view q = .null := by
  have h0 : Unread { Url.empty a with buf := s } s := ⟨List.suffix_refl s, fun _ => .inl rfl⟩
  obtain ⟨h1, z1⟩ := unread_parsePart (p := .scheme) (show [':', '/', '/'] ≠ [] by decide) h0
  obtain ⟨h2, z2⟩ := unread_parsePart (p := .userinfo) (show ['@'] ≠ [] by decide) h1
  exact ⟨_, parseLocal_eq a s, h2, fun q hq hq' => (z2 q hq').trans (z1 q hq)⟩

/-- **A text with a `:` or a `/` from the host on parses to an object whose path
    was set.** -/
theorem parse_pathAt {al : Alloc} {s : Str} (hu : parse al s = some u)
    (hm : ':' ∈ UrlText.fromHost s ∨ '/' ∈ UrlText.fromHost s) :
    ∃ pre post, PathAt u pre post := by
  cases hu
  obtain ⟨ret, he, hr, h0⟩ := unread_fromHost (al 0) s
  have hz : ∀ q, q = .port ∨ q = .query ∨ q = .fragment → ret.size q = 0 := by
    rintro q (rfl | rfl | rfl) <;> simp [size, h0, StringView.null]
  obtain ⟨pre, post, hp⟩ := parseHost_pathAt hr hz hm
  rw [he]
  exact ⟨pre, post, hp.of_same (move_same _ _)⟩

/-- **In any other text the host is all there is.** -/
theorem parse_noPath {al : Alloc} {s : Str} (hu : parse al s = some u)
    (hc : ':' ∉ UrlText.fromHost s) (hs : '/' ∉ UrlText.fromHost s) :
    u.hostAndPort = UrlText.fromHost s ∧ ∃ a : Addr, u.off .path = -a := by
  cases hu
  obtain ⟨ret, he, hr, h0⟩ := unread_fromHost (al 0) s
  have hl : parseLocal (al 0) s = ret.set .host (UrlText.fromHost s) (UrlText.fromHost s) := by
    rw [he]
    simp only [parseHost, consumeUntil_true, consumeUntil_false, cut_singleton_eq_none.2 hc,
      cut_singleton_eq_none.2 hs, Option.map_none]
  have hsame := move_same (al 1) (parseLocal (al 0) s)
  refine ⟨?_, ret.addr, ?_⟩
  · have hport : (parseLocal (al 0) s).size .port = 0 := by
      rw [hl, size_set_ne (by decide)]; simp [size, h0, StringView.null]
    rw [hsame.hostAndPort, hostAndPort_eq, if_pos hport, hl]
    exact get_set_self hr.suffix List.prefix_rfl
  · rw [hsame.off, hl, off_set_ne (by decide)]
    simp [off, h0, StringView.null]

/-- **`host_and_port()` only holds a colon when the path was set.** -/
theorem pathAt_of_colon {al : Alloc} {s : Str} (hu : parse al s = some u)
    (h : ':' ∈ u.hostAndPort) : ∃ pre post, PathAt u pre post := by
  refine parse_pathAt hu ?_
  by_contra hm
  obtain ⟨hc, hs⟩ := not_or.1 hm
  rw [(parse_noPath hu hc hs).1] at h
  exact hc h

end

end Url

/-! ## Host and port -/

/-- What `host_and_port()` shows of a division: a port that is empty is left out. -/
def UrlText.hostAndPort (t : UrlText) : Str :=
  t.host ++ if t.part .port = [] then [] else ':' :: t.part .port

namespace Url

variable {u : Url} {state : Str}

theorem hostAndPort_of_noPort (h : u.size .port = 0) :
    u.hostAndPort = u.get .host ++ if u.get .port = [] then [] else ':' :: u.get .port := by
  have hp : u.get .port = [] := by rw [get_eq, h, List.take_zero]
  rw [hostAndPort_eq, if_pos h, if_pos hp, List.append_nil]

/-- Host and port stand next to each other in the buffer. -/
theorem hostAndPort_parseHost (h : Unread u state) (h0 : u.size .port = 0) :
    (parseHost u state).hostAndPort = (parseHost u state).get .host ++
      if (parseHost u state).get .port = [] then [] else ':' :: (parseHost u state).get .port := by
  simp only [parseHost, consumeUntil_true, consumeUntil_false]
  have hearly : ∀ (v : Url) (t : Str), (parsePath v t).size .port = v.size .port :=
    fun v t => ((parsePath_read v t).early .port trivial).2
  rcases hc : cut [':'] state with _ | ⟨host, t⟩
  · rcases hp : cut ['/'] state with _ | ⟨host, r⟩
    · exact hostAndPort_of_noPort ((size_set_ne (by decide)).trans h0)
    · exact hostAndPort_of_noPort ((hearly _ _).trans ((size_set_ne (by decide)).trans h0))
  · rcases hp : cut ['/'] t with _ | ⟨port, r⟩
    · simp only [hp, Option.map_none]
      exact hostAndPort_of_noPort ((hearly _ _).trans ((size_set_ne (by decide)).trans h0))
    · simp only [hp, Option.map_some]
      obtain ⟨rfl, -⟩ := cut_singleton_eq_some.1 hc
      obtain ⟨rfl, -⟩ := cut_singleton_eq_some.1 hp
      obtain ⟨pre, hpre⟩ := h.suffix
      generalize hv : (u.set .host (host ++ ':' :: (port ++ '/' :: r)) host).set .port
        (port ++ '/' :: r) port = v
      have hbuf : v.buf = pre ++ (host ++ ':' :: (port ++ '/' :: r)) := by rw [← hv, hpre]; rfl
      have hlen := congrArg List.length hpre
      simp only [List.length_append, List.length_cons] at hlen
      have hho : v.off .host = pre.length ∧ v.size .host = host.length := by
        rw [← hv, off_set_ne (by decide), size_set_ne (by decide), off_set_self, size_set_self]
        simp only [List.length_append, List.length_cons, and_true]
        omega
      have hpo : v.off .port = pre.length + host.length + 1 ∧ v.size .port = port.length := by
        rw [← hv, off_set_self, size_set_self, set_buf]
        simp only [List.length_append, List.length_cons, and_true]
        omega
      have hr := parsePath_read v ('/' :: r)
      obtain ⟨eh, sh⟩ := hr.early .host trivial
      obtain ⟨ep, sp⟩ := hr.early .port trivial
      rw [hostAndPort_eq, get_eq, get_eq, hr.buf, eh, sh, ep, sp, hho.1, hho.2, hpo.1, hpo.2, hbuf]
      have e1 : ((pre.length : ℤ) + host.length + 1).toNat = pre.length + (host.length + 1) := by
        omega
      have e2 : ((pre.length : ℤ) + host.length + 1 + port.length - pre.length).toNat =
          (host ++ ':' :: port).length := by
        rw [List.length_append, List.length_cons]; omega
      have hs : host ++ ':' :: (port ++ '/' :: r) = (host ++ ':' :: port) ++ '/' :: r := by simp
      rw [e1, e2, Int.toNat_natCast, List.drop_left, List.take_left, ← List.drop_drop,
        List.drop_left, ← List.drop_drop, List.drop_left, List.drop_one, List.tail_cons,
        List.take_left, hs, List.take_left]
      by_cases hz : port = []
      · simp [hz]
      · rw [if_neg (by simpa using hz), if_neg hz]

/-- **`host_and_port()` shows host and port of the text.** -/
theorem parse_hostAndPort {al : Alloc} {s : Str} (hu : parse al s = some u) :
    u.hostAndPort = (UrlText.divide s).hostAndPort := by
  obtain ⟨v, hv, -, hs⟩ := parse_shows al s
  rw [hu, Option.some.injEq] at hv
  subst hv
  obtain ⟨ret, he, hr, h0⟩ := unread_fromHost (al 0) s
  have hz : ret.size .port = 0 := by simp [size, h0, StringView.null]
  have hsame : Same u (parseHost ret (UrlText.fromHost s)) := by
    rw [← he]
    cases hu
    exact move_same _ _
  rw [hsame.hostAndPort, hostAndPort_parseHost hr hz, ← hsame.get, ← hsame.get, hs .host, hs .port]
  rfl

end Url

end Upnp
