/-
  Which datagrams `response::parse` accepts.

  * `consumeUntil_newlines`: `consume_until` finds the end of the first line;
  * `parseHeaders_ok`: no header makes the parser fail;
  * `parse_ok_iff`: exactly the `Regular` texts are accepted as they should, that is,
    if the first line says 200.
-/
import Upnp.Ssdp

namespace Upnp

open Lib

/-! ## Lines -/

/-- The first line of a text, without its end, and what follows it. -/
inductive FirstLine : Str → Str → Str → Prop
  | crlf {line rest : Str} (h : '\n' ∉ line) : FirstLine (line ++ '\r' :: '\n' :: rest) line rest
  | lf {line rest : Str} (h : '\n' ∉ line) (hr : ∀ l, line ≠ l ++ ['\r']) :
    FirstLine (line ++ '\n' :: rest) line rest

theorem begins_newlines {s : Str} :
    begins newlines s = true ↔ ['\r', '\n'] <+: s ∨ ['\n'] <+: s := by
  simp only [begins, newlines, List.find?_cons, List.find?_nil, ← List.isPrefixOf_iff_prefix]
  rcases ['\r', '\n'].isPrefixOf s with _ | _ <;> rcases ['\n'].isPrefixOf s with _ | _ <;> simp

theorem begins_newlines_cons {c : Char} {s : Str} (h : begins newlines (c :: s) = true) :
    c = '\n' ∨ c = '\r' ∧ ∃ t, s = '\n' :: t := by
  rcases begins_newlines.1 h with ⟨t, ht⟩ | ⟨t, ht⟩
  · obtain ⟨rfl, rfl⟩ := List.cons.inj ht
    exact .inr ⟨rfl, t, rfl⟩
  · exact .inl (List.cons.inj ht).1.symm

/-- No end of a line begins inside it, also not in front of the end `e`. -/
theorem not_begins_newlines {line e : Str} (h : '\n' ∉ line)
    (hr : ∀ l, line = l ++ ['\r'] → ∀ t, e ≠ '\n' :: t) :
    ∀ x₁ x₂, line = x₁ ++ x₂ → x₂ ≠ [] → begins newlines (x₂ ++ e) = false := by
  rintro x₁ (_ | ⟨c, x₂⟩) rfl hne
  · exact absurd rfl hne
  · rw [Bool.eq_false_iff]
    intro hb
    rcases begins_newlines_cons hb with rfl | ⟨rfl, t, ht⟩
    · exact h (by simp)
    · rcases x₂ with _ | ⟨d, x₂⟩
      · exact hr x₁ rfl t ht
      · obtain ⟨rfl, -⟩ := List.cons.inj ht
        exact h (by simp)

/-- **`consume_until` ends a line where it ends.** -/
theorem consumeUntil_newlines {s line rest : Str} (h : FirstLine s line rest) :
    consumeUntil s newlines true = some (line, rest) := by
  rw [consumeUntil_eq]
  cases h with
  | crlf h =>
    have hb : begins newlines ('\r' :: '\n' :: rest) = true := begins_newlines.2 (.inl ⟨rest, rfl⟩)
    rw [firstSuffix_append (by simp) hb (not_begins_newlines h fun _ _ _ => by simp)]
    rfl
  | lf h hr =>
    have hb : begins newlines ('\n' :: rest) = true := begins_newlines.2 (.inr ⟨rest, rfl⟩)
    rw [firstSuffix_append (by simp) hb (not_begins_newlines h fun l hl => absurd hl (hr l))]
    rfl

theorem consumeUntil_newlines_none {s : Str} (h : '\n' ∉ s) :
    consumeUntil s newlines true = none := by
  rw [consumeUntil_eq, Option.map_eq_none_iff, firstSuffix_eq_none]
  rintro x (_ | ⟨c, y⟩) rfl hne
  · exact absurd rfl hne
  · rw [Bool.eq_false_iff]
    intro hb
    rcases begins_newlines_cons hb with rfl | ⟨-, t, rfl⟩ <;> exact h (by simp)

theorem exists_firstLine {s : Str} (h : '\n' ∈ s) : ∃ line rest, FirstLine s line rest := by
  obtain ⟨x, rest, rfl, hx⟩ := List.eq_append_cons_of_mem h
  by_cases hr : ∃ l, x = l ++ ['\r']
  · obtain ⟨l, rfl⟩ := hr
    refine ⟨l, rest, ?_⟩
    rw [List.append_assoc]
    exact .crlf fun hl => hx (List.mem_append_left _ hl)
  · exact ⟨x, rest, .lf hx fun l hl => hr ⟨l, hl⟩⟩

theorem FirstLine.mem {s line rest : Str} (h : FirstLine s line rest) : '\n' ∈ s := by
  cases h <;> simp

theorem FirstLine.unique {s line rest line' rest' : Str} (h : FirstLine s line rest)
    (h' : FirstLine s line' rest') : line' = line ∧ rest' = rest := by
  have he := consumeUntil_newlines h
  rw [consumeUntil_newlines h', Option.some.injEq, Prod.mk.injEq] at he
  exact he

/-! ## Header lines -/

/-- **Every header line can be read**: `url_t::parse` takes any text. -/
theorem headerField_eq (al : Alloc) (key val lines : Str) (ret : Response) :
    headerField al key val lines ret = .ok
      { serviceType := if iequals key "ST".toList then val else ret.serviceType
        usn := if iequals key "USN".toList then val else ret.usn
        uuid := if iequals key "USN".toList then uuidOf val ret.uuid else ret.uuid
        location := if iequals key "LOCATION".toList
          then .ofParse (show Url.parse al val = some _ from rfl) (al 2) else ret.location } := by
  unfold headerField
  by_cases hu : iequals key "USN".toList = true <;>
    by_cases hl : iequals key "LOCATION".toList = true <;>
      by_cases hs : iequals key "ST".toList = true <;>
        · simp only [hu, hl, hs, if_true]
          rfl

section
variable {al : Alloc} {lines line rest key val : Str} {ret ret' : Response}

theorem parseHeaders_nil (h : consumeUntil lines newlines true = none) :
    parseHeaders al lines ret = .ok ret := by
  rw [parseHeaders]
  split
  · rfl
  · rename_i h'
    rw [h] at h'
    cases h'

/-- A line without a colon ends the headers. -/
theorem parseHeaders_end (h : consumeUntil lines newlines true = some (line, rest))
    (hk : consumeUntil line [[':']] true = none) : parseHeaders al lines ret = .ok ret := by
  rw [parseHeaders]
  split
  · rfl
  · rename_i h'
    rw [h] at h'
    cases h'
    rw [hk]

theorem parseHeaders_line (h : consumeUntil lines newlines true = some (line, rest))
    (hk : consumeUntil line [[':']] true = some (key, val))
    (hf : headerField al key (trimSpaceSuffix (trimSpacePrefix val)) rest ret = .ok ret') :
    parseHeaders al lines ret = parseHeaders (fun n => al (n + 3)) rest ret' := by
  rw [parseHeaders]
  split
  · rename_i h'
    rw [h] at h'
    cases h'
  · rename_i h'
    rw [h] at h'
    cases h'
    rw [hk]
    simp only [hf]

/-- **No header makes the parser fail.** -/
theorem parseHeaders_ok (al : Alloc) (lines : Str) (ret : Response) :
    ∃ ret', parseHeaders al lines ret = .ok ret' := by
  induction al, lines, ret using parseHeaders.induct with
  | case1 al lines ret h => exact ⟨ret, parseHeaders_nil h⟩
  | case2 al lines ret line rest h hk => exact ⟨ret, parseHeaders_end h hk⟩
  | case3 al lines ret line rest h key val hk e hf =>
    rw [headerField_eq] at hf
    cases hf
  | case4 al lines ret line rest h key val hk ret' hf ih =>
    rw [parseHeaders_line h hk hf]
    exact ih

end

/-! ## The status line -/

/-- What follows the first word of a line and the space after it. -/
def AfterVersion (line r : Str) : Prop := ∃ version, ' ' ∉ version ∧ line = version ++ ' ' :: r

/-- The second word of a line is `w`, where words are separated by spaces. -/
def SecondWord (line w : Str) : Prop :=
  ∃ r, AfterVersion line r ∧
    (r.dropWhile (· = ' ') = w ∨ ∃ tail, r.dropWhile (· = ' ') = w ++ ' ' :: tail)

/-- The first line is a status line with a 200. -/
def Successful (t : Str) : Prop :=
  ∃ line rest, FirstLine t line rest ∧ istartsWith line "http".toList = true ∧
    SecondWord line "200".toList

/-- The line ends right behind its 200. -/
def EndsInStatus (line : Str) : Prop :=
  ∃ r, AfterVersion line r ∧ r.dropWhile (· = ' ') = "200".toList

/-- Other white space than spaces stands before the 200, which a space follows. -/
def OtherBlank (line : Str) : Prop :=
  ∃ r, AfterVersion line r ∧ (∃ tail, r.dropWhile isSpace = "200".toList ++ ' ' :: tail) ∧
    r.dropWhile (· = ' ') ≠ r.dropWhile isSpace

/-- The first line has an end, and if it starts like a status line then neither of
    the two. -/
def Regular (t : Str) : Prop :=
  ∃ line rest, FirstLine t line rest ∧ (istartsWith line "http".toList = true →
    ¬ EndsInStatus line ∧ ¬ OtherBlank line)

theorem AfterVersion.unique {line r r' : Str} (h : AfterVersion line r)
    (h' : AfterVersion line r') : r' = r := by
  obtain ⟨version, hv, rfl⟩ := h
  obtain ⟨version', hv', he⟩ := h'
  exact (cut_singleton_unique hv hv' he).2.symm

/-- **What the parser accepts as a status.** -/
theorem result_iff {line : Str} : (∃ tail, consumeUntil
      (trimSpacePrefix (((consumeUntil line [[' ']] true).map (·.2)).getD line)) [[' ']] true =
        some ("200".toList, tail)) ↔
    ∃ r, AfterVersion line r ∧ ∃ tail, r.dropWhile isSpace = "200".toList ++ ' ' :: tail := by
  simp only [consumeUntil_true, trimSpacePrefix]
  rcases hc : cut [' '] line with _ | ⟨version, r⟩
  · -- without a space there is no second word
    have hn := cut_singleton_eq_none.1 hc
    constructor
    · rintro ⟨tail, h⟩
      rw [Option.map_none, Option.getD_none, cut_singleton_eq_some] at h
      exact absurd ((List.dropWhile_suffix isSpace).subset (h.1 ▸ by simp)) hn
    · rintro ⟨r, ⟨version, -, rfl⟩, -⟩
      simp at hn
  · obtain ⟨rfl, hv⟩ := cut_singleton_eq_some.1 hc
    simp only [Option.map_some, Option.getD_some, cut_singleton_eq_some]
    constructor
    · rintro ⟨tail, h, -⟩
      exact ⟨r, ⟨version, hv, rfl⟩, tail, h⟩
    · rintro ⟨r', hr, tail, h⟩
      rw [AfterVersion.unique ⟨version, hv, rfl⟩ hr] at h
      exact ⟨tail, h, by simp⟩

/-- **The parser accepts a text whose first line it accepts, and one without a line.** -/
theorem parse_ok_of_firstLine (al : Alloc) {t line rest : Str} (h : FirstLine t line rest) :
    (∃ r, Response.parse al t = .ok r) ↔ istartsWith line "http".toList = true ∧
      ∃ r, AfterVersion line r ∧ ∃ tail, r.dropWhile isSpace = "200".toList ++ ' ' :: tail := by
  rw [← result_iff]
  simp only [Response.parse, consumeUntil_newlines h]
  generalize consumeUntil (trimSpacePrefix (((consumeUntil line [[' ']] true).map (·.2)).getD line))
    [[' ']] true = res
  by_cases hs : istartsWith line "http".toList = true
  · rw [if_pos hs, and_iff_right hs]
    rcases res with _ | ⟨result, tail⟩
    · exact iff_of_false nofun nofun
    · by_cases h2 : result = "200".toList
      · rw [h2]
        exact iff_of_true (parseHeaders_ok _ _ _) ⟨tail, rfl⟩
      · simp only [if_neg h2]
        refine iff_of_false nofun ?_
        rintro ⟨tail', h'⟩
        cases h'
        exact h2 rfl
  · rw [if_neg hs]
    exact iff_of_false nofun fun h' => hs h'.1

theorem dropWhile_isSpace (r : Str) :
    (r.dropWhile (· = ' ')).dropWhile isSpace = r.dropWhile isSpace := by
  induction r with
  | nil => rfl
  | cons c r ih =>
    by_cases hc : c = ' '
    · rw [List.dropWhile_cons_of_pos (by simp [hc]), ih,
        List.dropWhile_cons_of_pos (by simp [hc, isSpace])]
    · rw [List.dropWhile_cons_of_neg (by simp [hc])]

/-- Skipping spaces and skipping white space both stop at the 200. -/
theorem dropWhile_isSpace_of_space {r t : Str}
    (h : r.dropWhile (· = ' ') = "200".toList ++ t) :
    r.dropWhile isSpace = "200".toList ++ t := by
  rw [← dropWhile_isSpace, h]
  rfl

/-- **The parser and the definition agree on a line exactly if it is neither of the
    two kinds.** -/
theorem status_iff (line : Str) :
    ((∃ r, AfterVersion line r ∧ ∃ tail, r.dropWhile isSpace = "200".toList ++ ' ' :: tail) ↔
      SecondWord line "200".toList) ↔ ¬ EndsInStatus line ∧ ¬ OtherBlank line := by
  constructor
  · intro h
    constructor
    · rintro ⟨r, hr, he⟩
      obtain ⟨r', hr', tail, ht⟩ := h.2 ⟨r, hr, .inl he⟩
      rw [hr.unique hr', dropWhile_isSpace_of_space (t := []) he] at ht
      cases ht
    · rintro ⟨r, hr, ⟨tail, ht⟩, hne⟩
      obtain ⟨r', hr', he⟩ := h.1 ⟨r, hr, tail, ht⟩
      rw [hr.unique hr'] at he
      rcases he with he | ⟨tail', he⟩
      · exact hne (he.trans (dropWhile_isSpace_of_space (t := []) he).symm)
      · exact hne (he.trans (dropWhile_isSpace_of_space he).symm)
  · rintro ⟨hend, hblank⟩
    constructor
    · rintro ⟨r, hr, tail, ht⟩
      by_cases he : r.dropWhile (· = ' ') = r.dropWhile isSpace
      · exact ⟨r, hr, .inr ⟨tail, he.trans ht⟩⟩
      · exact absurd ⟨r, hr, ⟨tail, ht⟩, he⟩ hblank
    · rintro ⟨r, hr, he | ⟨tail, he⟩⟩
      · exact absurd ⟨r, hr, he⟩ hend
      · exact ⟨r, hr, tail, dropWhile_isSpace_of_space he⟩

/-- **A datagram is accepted as it should be exactly if it is regular.** -/
theorem parse_ok_iff (al : Alloc) (t : Str) :
    ((∃ r, Response.parse al t = .ok r) ↔ Successful t) ↔ Regular t := by
  by_cases hn : '\n' ∈ t
  · obtain ⟨line, rest, hl⟩ := exists_firstLine hn
    have hs : Successful t ↔
        istartsWith line "http".toList = true ∧ SecondWord line "200".toList := by
      constructor
      · rintro ⟨line', rest', hl', h⟩
        rwa [(hl.unique hl').1] at h
      · exact fun h => ⟨line, rest, hl, h⟩
    have hr : Regular t ↔ (istartsWith line "http".toList = true →
        ¬ EndsInStatus line ∧ ¬ OtherBlank line) := by
      constructor
      · rintro ⟨line', rest', hl', h⟩
        rwa [(hl.unique hl').1] at h
      · exact fun h => ⟨line, rest, hl, h⟩
    rw [parse_ok_of_firstLine al hl, hs, hr, and_congr_right_iff, status_iff]
  · have hparse : ∃ r, Response.parse al t = .ok r :=
      ⟨⟨[], [], [], .empty (al 0)⟩, by rw [Response.parse, consumeUntil_newlines_none hn]⟩
    have hs : ¬ Successful t := by
      rintro ⟨line, rest, hl, -⟩
      exact hn hl.mem
    refine iff_of_false (fun h => hs (h.1 hparse)) ?_
    rintro ⟨line, rest, hl, -⟩
    exact hn hl.mem

/-- An empty datagram is accepted, and a status line without a reason is not. -/
theorem parse_not_as_successful :
    ((∃ r, Response.parse (fun _ => ⟨1, Int.one_pos⟩) [] = .ok r) ∧ ¬ Successful []) ∧
    (¬ ∃ r, Response.parse (fun _ => ⟨1, Int.one_pos⟩) "HTTP/1.1 200\r\n".toList = .ok r) ∧
      Successful "HTTP/1.1 200\r\n".toList := by
  have hn : '\n' ∉ "HTTP/1.1 200".toList := by decide
  have hline : FirstLine "HTTP/1.1 200\r\n".toList "HTTP/1.1 200".toList [] := .crlf hn
  refine ⟨⟨⟨_, rfl⟩, ?_⟩, ?_, ?_⟩
  · rintro ⟨line, rest, hl, -⟩
    exact List.not_mem_nil hl.mem
  · rintro ⟨r, hr⟩
    cases hr
  · exact ⟨_, _, hline, rfl, "200".toList, ⟨"HTTP/1.1".toList, by decide, rfl⟩, .inl rfl⟩

end Upnp
