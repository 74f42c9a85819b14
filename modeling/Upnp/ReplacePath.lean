/-
  What `replace_path` does to a parsed URL.

  `parse` returns early on a text with neither a `:` nor a `/` from the host on:
  the view of the path is never set, and `replace_path` computes its offset from
  a null pointer.

  * `parse_pathAt_divide`: on any other text, the path stands between the
    authority and the query;
  * `replaced_twice`: replacing the path twice is replacing it once;
  * `replaceExact_iff`: `replace_path` replaces just the path, on those texts.
-/
import Upnp.UrlTiling

namespace Upnp

open Lib

namespace UrlText

/-- The text from the query on. -/
def trailer (t : UrlText) : Str := after ['?'] t.query ++ after ['#'] t.fragment

theorem render_path (t : UrlText) : t.render = t.authority ++ (t.path ++ t.trailer) := by
  simp only [render, authority, head, trailer, List.append_assoc]

/-- **What stands around the path does not depend on it.** -/
theorem render_put_path (t : UrlText) (p : Str) :
    (t.put .path p).render = t.authority ++ (p ++ t.trailer) := by
  rw [render_path]
  rfl

end UrlText

namespace Url

open UrlText

section
variable {u : Url} {state pre post : Str}

/-! ## Where the path stands -/

theorem parseHost_path_off (hm : ':' ∈ state ∨ '/' ∈ state) :
    (parseHost u state).off .path = u.buf.length - (divideHost state).2.2.length := by
  simp only [parseHost, divideHost, consumeUntil_true, consumeUntil_false]
  rcases hc : cut [':'] state with _ | ⟨host, r⟩
  · rcases hs : cut ['/'] state with _ | ⟨host, r⟩
    · exact absurd hm (not_or.2 ⟨cut_singleton_eq_none.1 hc, cut_singleton_eq_none.1 hs⟩)
    · exact (parsePath_read _ _).off
  · rcases hs : cut ['/'] r with _ | ⟨port, r'⟩
    · simp only [hs, Option.map_none]
      exact (parsePath_read _ _).off
    · simp only [hs, Option.map_some]
      exact (parsePath_read _ _).off

/-- **The path of a parsed text stands between the authority and the query.** -/
theorem parse_pathAt_divide {al : Alloc} {s : Str} (hu : parse al s = some u)
    (hm : ':' ∈ fromHost s ∨ '/' ∈ fromHost s) :
    PathAt u (divide s).authority (divide s).trailer := by
  obtain ⟨pre, post, hpath⟩ := parse_pathAt hu hm
  obtain ⟨v, hv, hbuf, hshows⟩ := parse_shows al s
  rw [hu, Option.some.injEq] at hv
  subst hv
  -- the text in front of the path is as long as the authority
  have hlen : pre.length = (divide s).authority.length := by
    obtain ⟨ret, he, hr, -⟩ := unread_fromHost (al 0) s
    have hoff : u.off .path = ret.buf.length - (divideHost (fromHost s)).2.2.length := by
      have hsame : Same u (parseLocal (al 0) s) := by
        cases hu
        exact move_same _ _
      rw [hsame.off, he, parseHost_path_off hm]
    have hret : ret.buf = s := by
      have hlocal := parseLocal_buf (al 0) s
      rw [he] at hlocal
      rw [← hlocal, parseHost_buf]
    have hrender := congrArg List.length (render_path (divide s))
    have hrest : (divide s).path ++ (divide s).trailer = (divideHost (fromHost s)).2.2 :=
      dividePath_render _
    rw [render_divide, List.length_append, hrest] at hrender
    rw [hpath.off, hret] at hoff
    omega
  have hsplit : pre ++ (u.get .path ++ post) =
      (divide s).authority ++ (u.get .path ++ (divide s).trailer) := by
    have hget : u.get .path = (divide s).path := hshows .path
    rw [← hpath.buf, hbuf, hget, ← render_path, render_divide]
  obtain ⟨rfl, htail⟩ := List.append_inj hsplit hlen
  obtain rfl := List.append_cancel_left htail
  exact hpath

/-! ## Replacing it -/

theorem part_cases (r : Part) : Early r ∨ r = .path ∨ (r = .query ∨ r = .fragment) := by
  cases r <;> simp [Early]

/-- **Replacing the path twice is replacing it once.** -/
theorem replaced_twice (a b c : Addr) (p q : Str) :
    Same (replaced b pre q post (replaced a pre p post u)) (replaced c pre q post u) := by
  have hsize : (replaced a pre p post u).size .path = p.length := replaced_path.2
  refine ⟨rfl, ?_, ?_⟩
  · intro r
    rcases part_cases r with hr | rfl | hr
    · rw [(replaced_early hr).1, (replaced_early hr).1, (replaced_early hr).1]
    · rw [replaced_path.1, replaced_path.1, replaced_path.1]
    · rw [(replaced_late hr).1, (replaced_late hr).1, (replaced_late hr).1, hsize]
      omega
  · intro r
    rcases part_cases r with hr | rfl | hr
    · rw [(replaced_early hr).2, (replaced_early hr).2, (replaced_early hr).2]
    · rw [replaced_path.2, replaced_path.2]
    · rw [(replaced_late hr).2, (replaced_late hr).2, (replaced_late hr).2]

end

/-- `replace_path(p)` on the URL parsed from `s` throws nothing and replaces just
    the path, in the text too; a second call does what it would do alone. -/
def ReplaceExact (al : Alloc) (s p : Str) : Prop :=
  ∃ u, parse al s = some u ∧ ∀ a, ∃ u', u.replacePath a p = .ok u' ∧
    u'.get .path = p ∧ (∀ c, c ≠ .path → u'.get c = u.get c) ∧
    u'.buf = ((divide s).put .path p).render ∧
    ∀ b c q, ∃ v w, u'.replacePath b q = .ok v ∧ u.replacePath c q = .ok w ∧ Same v w

/-- Without a path, its view is a null pointer, which lies before the buffer. -/
theorem not_replaceExact {al : Alloc} {s : Str} (hc : ':' ∉ fromHost s) (hs : '/' ∉ fromHost s)
    (p : Str) : ¬ ReplaceExact al s p := by
  rintro ⟨u, hu, hreplace⟩
  obtain ⟨-, b, hoff⟩ := parse_noPath hu hc hs
  obtain ⟨u', h, -⟩ := hreplace b
  have hneg : ¬ (0 ≤ (u.view .path).data - (u.addr : ℤ) ∧
      (u.view .path).data - (u.addr : ℤ) ≤ u.buf.length) := by
    have hb := b.2
    have : (u.view .path).data - (u.addr : ℤ) = -b := hoff
    omega
  simp only [replacePath, stringReplace, if_neg hneg, bind, Except.bind, reduceCtorEq] at h

/-- **`replace_path` replaces just the path, if and only if there is a `:` or a
    `/` from the host on.** -/
theorem replaceExact_iff (al : Alloc) (s p : Str) :
    ReplaceExact al s p ↔ ':' ∈ fromHost s ∨ '/' ∈ fromHost s := by
  constructor
  · intro h
    by_contra hm
    obtain ⟨hc, hs⟩ := not_or.1 hm
    exact not_replaceExact hc hs p h
  · intro hm
    obtain ⟨u, hu, -⟩ := parse_shows al s
    have hpath := parse_pathAt_divide hu hm
    refine ⟨u, hu, ?_⟩
    intro a
    obtain ⟨u', hu', hpath', hget, hne, -⟩ := replacePath_spec hpath a p
    refine ⟨u', hu', hget, hne, ?_, ?_⟩
    · rw [render_put_path, hpath'.buf, hget]
    · intro b c q
      refine ⟨_, _, replacePath_eq hpath' b q, replacePath_eq hpath c q, ?_⟩
      rw [replacePath_eq hpath] at hu'
      cases hu'
      exact replaced_twice a b c p q

/-- A URL of the tests, with a query and without a path. -/
theorem replaceExact_noPath :
    ¬ ReplaceExact (fun _ => ⟨4096, by decide⟩) "http://alice@example.org?foo=bar".toList
      "/abcd".toList :=
  not_replaceExact (by decide) (by decide) _

end Url

end Upnp
