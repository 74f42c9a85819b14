/-
  Where `consume_until` splits a text, and the loops of `response::parse` that rest
  on it.

  * `split_or_absent`: a text is split at the leftmost place where a token occurs,
    around the first token in the list that occurs there;
  * `rounds_uuidRound`, `rounds_parseRound`: the loop over the tokens of a USN and
    the loop over the lines, written round by round as in the source, end with what
    `uuidOf` and `Response.parse` compute;
  * `consumeUntil_promise`: both together.
-/
import Upnp.Lib.Loop
import Upnp.Ssdp

namespace Upnp

open Lib

/-! ## Where the text is split -/

/-- `consume_until(s, tokens, consume_tokens)` with the view it is called with: the
    result, and what `s` is afterwards. -/
def consumeUntilFrom (s : Str) (tokens : List Str) (consumeTokens : Bool) : Option Str × Str :=
  match consumeUntil s tokens consumeTokens with
  | some (x, c) => (some x, c)
  | none => (none, s)

section
variable {s x c : Str} {tokens : List Str} {ct : Bool}

theorem consumeUntilFrom_some (h : consumeUntil s tokens ct = some (x, c)) :
    consumeUntilFrom s tokens ct = (some x, c) := by
  rw [consumeUntilFrom, h]

theorem consumeUntilFrom_none (h : consumeUntil s tokens ct = none) :
    consumeUntilFrom s tokens ct = (none, s) := by
  rw [consumeUntilFrom, h]

end

/-- Some token occurs in `s`. -/
def Occurs (tokens : List Str) (s : Str) : Prop := ∃ t ∈ tokens, t <:+: s

/-- `i` is the least position at which a token occurs in `s`, and `t` the first of
    the tokens that occur there. -/
structure Leftmost (tokens : List Str) (s : Str) (i : ℕ) (t : Str) : Prop where
  occurs : t <+: s.drop i
  least : ∀ j < i, ∀ t' ∈ tokens, ¬ t' <+: s.drop j
  first : ∃ before after, tokens = before ++ t :: after ∧ ∀ t' ∈ before, ¬ t' <+: s.drop i

variable {tokens : List Str} {s : Str} {ct : Bool}

theorem begins_iff {c : Str} : begins tokens c = true ↔ ∃ t ∈ tokens, t <+: c := by
  simp only [begins, List.find?_isSome, List.isPrefixOf_iff_prefix]

theorem begins_eq_false {c : Str} : begins tokens c = false ↔ ∀ t ∈ tokens, ¬ t <+: c := by
  rw [Bool.eq_false_iff, ne_eq, begins_iff]
  push Not
  rfl

/-- Without a place where a token begins, no token occurs. -/
theorem firstSuffix_begins_eq_none (ht : ∀ t ∈ tokens, t ≠ []) :
    firstSuffix (begins tokens) s = none ↔ ¬ Occurs tokens s := by
  rw [firstSuffix_eq_none]
  constructor
  · rintro h ⟨t, hmem, x, y, rfl⟩
    have hno := h x (t ++ y) (List.append_assoc ..) (by simp [ht t hmem])
    exact begins_eq_false.1 hno t hmem (List.prefix_append t y)
  · rintro h x y rfl -
    refine begins_eq_false.2 fun t hmem hp => h ⟨t, hmem, ?_⟩
    exact hp.isInfix.trans (List.suffix_append x y).isInfix

/-- The first place where a token begins, by its position. -/
theorem leftmost_of_firstSuffix {x y : Str} (h : firstSuffix (begins tokens) s = some (x, y)) :
    ∃ t, x = s.take x.length ∧ y = s.drop x.length ∧ tokens.find? (·.isPrefixOf y) = some t ∧
      Leftmost tokens s x.length t := by
  obtain ⟨rfl, -, hb, hearlier⟩ := firstSuffix_spec h
  obtain ⟨t, hfind⟩ := Option.isSome_iff_exists.1 hb
  obtain ⟨hp, before, after, htokens, hbefore⟩ := List.find?_eq_some_iff_append.1 hfind
  refine ⟨t, List.take_left.symm, List.drop_left.symm, hfind, ?_, ?_, before, after, htokens, ?_⟩
  · rw [List.drop_left]
    exact List.isPrefixOf_iff_prefix.1 hp
  · intro j hj
    -- what stands right of an earlier position is no place where a token begins
    have hno := hearlier (x.take j) (x.drop j) (List.take_append_drop j x).symm
      (List.ne_nil_of_length_pos (by rw [List.length_drop]; omega))
    rw [List.drop_append_of_le_length hj.le]
    exact begins_eq_false.1 hno
  · intro t' hmem
    rw [List.drop_left, ← List.isPrefixOf_iff_prefix]
    simpa only [Bool.not_eq_true', Bool.eq_false_iff] using hbefore t' hmem

/-- The text around the leftmost token: `x` before it, `rest` after it, or from it on
    when it is not consumed. -/
structure SplitAt (tokens : List Str) (ct : Bool) (s x rest : Str) (i : ℕ) (t : Str) : Prop where
  leftmost : Leftmost tokens s i t
  result : x = s.take i
  left : rest = s.drop (if ct then i + t.length else i)
  whole : x ++ t ++ s.drop (i + t.length) = s
  joined : (if ct then x ++ t ++ rest else x ++ rest) = s

theorem Leftmost.splitAt {i : ℕ} {t : Str} (h : Leftmost tokens s i t) (ct : Bool) :
    SplitAt tokens ct s (s.take i) (s.drop (if ct then i + t.length else i)) i t := by
  have hwhole : s.take i ++ t ++ s.drop (i + t.length) = s := by
    obtain ⟨y, hy⟩ := h.occurs
    rw [← List.drop_drop, ← hy, List.drop_left, List.append_assoc, hy, List.take_append_drop]
  refine ⟨h, rfl, rfl, hwhole, ?_⟩
  cases ct with
  | true => exact hwhole
  | false => exact List.take_append_drop i s

/-- **`consume_until` splits at the leftmost token, or leaves the text alone.** -/
theorem split_or_absent (ht : ∀ t ∈ tokens, t ≠ []) (s : Str) (ct : Bool) :
    (Occurs tokens s → ∃ x rest i t, consumeUntilFrom s tokens ct = (some x, rest) ∧
      SplitAt tokens ct s x rest i t) ∧
    (¬ Occurs tokens s → consumeUntilFrom s tokens ct = (none, s)) := by
  have hnone := firstSuffix_begins_eq_none (s := s) ht
  rcases hf : firstSuffix (begins tokens) s with _ | ⟨x, y⟩
  · refine ⟨fun h => absurd h (hnone.1 hf), fun _ => ?_⟩
    rw [consumeUntilFrom, consumeUntil_eq, hf, Option.map_none]
  · refine ⟨fun _ => ?_, fun h => by rw [hnone.2 h] at hf; cases hf⟩
    obtain ⟨t, hx, hy, hfind, hl⟩ := leftmost_of_firstSuffix hf
    have hleave : leave tokens ct y = s.drop (if ct then x.length + t.length else x.length) := by
      simp only [leave, hfind]
      cases ct with
      | true => rw [if_pos rfl, if_pos rfl, hy, List.drop_drop]
      | false => rw [if_neg Bool.false_ne_true, if_neg Bool.false_ne_true, hy]
    refine ⟨x, leave tokens ct y, x.length, t, ?_, ?_⟩
    · rw [consumeUntilFrom, consumeUntil_eq, hf, Option.map_some]
    · rw [hleave]
      have := hl.splitAt ct
      rwa [← hx] at this

/-- "\r\n" ends where "\n" does, but begins before it. -/
example : consumeUntilFrom "a\r\nb\n".toList newlines true = (some ['a'], "b\n".toList) ∧
    consumeUntilFrom "b\n".toList newlines true = (some ['b'], []) := by
  exact ⟨rfl, rfl⟩

/-! ## The loops of `response::parse` -/

/-- One round of the loop over the tokens of a USN, which keeps `val` and `ret.uuid`. -/
def uuidRound : Str × Str → (Str × Str) ⊕ Str
  | (val, uuid) =>
    match consumeUntilFrom val [[':']] true with
    | (none, _) => .inr uuid
    | (some token, val) =>
      if iequals token "uuid".toList then
        match consumeUntilFrom val [[':', ':']] true with
        | (some uuid, val) => .inl (val, uuid)
        | (none, val) => .inl (val, val)
      else .inl (val, uuid)

/-- What the loop over the lines keeps, with the addresses it has not used. -/
structure Parsing where
  lines : Str
  lineN : ℕ
  ret : Response
  al : Alloc

/-- What it begins with. -/
def Parsing.start (al : Alloc) (lines : Str) : Parsing :=
  ⟨lines, 0, ⟨[], [], [], .empty (al 0)⟩, fun n => al (n + 1)⟩

/-- One round of the loop over the lines. -/
def parseRound (st : Parsing) : Parsing ⊕ Except ParseError Response :=
  match consumeUntilFrom st.lines newlines true with
  | (none, _) => .inr (.ok st.ret)
  | (some line, lines) =>
    if st.lineN = 0 then
      if istartsWith line "http".toList then
        let line := (consumeUntilFrom line [[' ']] true).2
        match consumeUntilFrom (trimSpacePrefix line) [[' ']] true with
        | (some result, _) =>
          if result = "200".toList then .inl { st with lines, lineN := st.lineN + 1 }
          else .inr (.error (.httpResult lines))
        | (none, _) => .inr (.error (.httpResult lines))
      else .inr (.error (.httpStatusLine lines))
    else
      match consumeUntilFrom line [[':']] true with
      | (none, _) => .inr (.ok st.ret)
      | (some key, val) =>
        match headerField st.al key (trimSpaceSuffix (trimSpacePrefix val)) lines st.ret with
        | .error e => .inr (.error e)
        | .ok ret => .inl ⟨lines, st.lineN + 1, ret, fun n => st.al (n + 3)⟩

theorem uuidRound_nears (st : Str × Str) :
    Nears (fun _ => True) (fun st => st.1.length) (fun st => uuidOf st.1 st.2) st
      (uuidRound st) := by
  obtain ⟨val, uuid⟩ := st
  rcases h : consumeUntil val [[':']] true with _ | ⟨token, rest⟩
  · simp only [uuidRound, consumeUntilFrom_none h, Nears]
    rw [uuidOf, h]
  have hlt := consumeUntil_lt (by simp) h
  by_cases hu : iequals token "uuid".toList = true
  · rcases h' : consumeUntil rest [[':', ':']] true with _ | ⟨uuid', rest'⟩
    · simp only [uuidRound, consumeUntilFrom_some h, hu, consumeUntilFrom_none h', if_true, Nears,
        true_and]
      refine ⟨hlt, ?_⟩
      rw [uuidOf, h]
      simp only [hu, if_true]
      rw [h']
    · simp only [uuidRound, consumeUntilFrom_some h, hu, consumeUntilFrom_some h', if_true, Nears,
        true_and]
      refine ⟨(consumeUntil_lt (by simp) h').trans hlt, ?_⟩
      rw [uuidOf, h]
      simp only [hu, if_true]
      rw [h']
  · simp only [uuidRound, consumeUntilFrom_some h, hu, if_false, Nears, true_and,
      Bool.false_eq_true]
    refine ⟨hlt, ?_⟩
    rw [uuidOf, h]
    simp only [hu, if_false, Bool.false_eq_true]

/-- **The loop over the tokens of a USN ends**, with what `uuidOf` computes. -/
theorem rounds_uuidRound (val uuid : Str) :
    rounds uuidRound (val.length + 1) (val, uuid) = some (uuidOf val uuid) :=
  rounds_eq (fun st _ => uuidRound_nears st) trivial (Nat.lt_succ_self _)

/-- After the first line, the rounds are those of `parseHeaders`. -/
theorem parseRound_nears (st : Parsing) (hn : st.lineN ≠ 0) :
    Nears (fun st => st.lineN ≠ 0) (fun st => st.lines.length)
      (fun st => parseHeaders st.al st.lines st.ret) st (parseRound st) := by
  obtain ⟨lines, lineN, ret, al⟩ := st
  rcases h : consumeUntil lines newlines true with _ | ⟨line, rest⟩
  · simp only [parseRound, consumeUntilFrom_none h, Nears]
    rw [parseHeaders, h]
  rcases hk : consumeUntil line [[':']] true with _ | ⟨key, val⟩
  · simp only [parseRound, consumeUntilFrom_some h, hn, if_false, consumeUntilFrom_none hk, Nears]
    rw [parseHeaders, h]
    simp only [hk]
  rcases hf : headerField al key (trimSpaceSuffix (trimSpacePrefix val)) rest ret with e | ret'
  · simp only [parseRound, consumeUntilFrom_some h, hn, if_false, consumeUntilFrom_some hk, hf,
      Nears]
    rw [parseHeaders, h]
    simp only [hk, hf]
  · simp only [parseRound, consumeUntilFrom_some h, hn, if_false, consumeUntilFrom_some hk, hf,
      Nears]
    refine ⟨Nat.succ_ne_zero _, consumeUntil_lt newlines_ne_nil h, ?_⟩
    rw [parseHeaders, h]
    simp only [hk, hf]

/-- What is left of the view, whether or not there is a token. -/
theorem consumeUntilFrom_snd (s : Str) (tokens : List Str) (ct : Bool) :
    (consumeUntilFrom s tokens ct).2 = ((consumeUntil s tokens ct).map (·.2)).getD s := by
  rw [consumeUntilFrom]
  cases consumeUntil s tokens ct <;> rfl

/-- **The loop over the lines ends**, with what `Response.parse` computes. -/
theorem rounds_parseRound (al : Alloc) (lines : Str) :
    rounds parseRound (lines.length + 1) (.start al lines) = some (Response.parse al lines) := by
  rcases h : consumeUntil lines newlines true with _ | ⟨line, rest⟩
  · simp only [rounds, parseRound, Parsing.start, consumeUntilFrom_none h, Response.parse, h]
  simp only [rounds, parseRound, Parsing.start, consumeUntilFrom_some h, Response.parse, h,
    if_true, ← consumeUntilFrom_snd]
  by_cases hl : istartsWith line "http".toList = true
  · generalize trimSpacePrefix (consumeUntilFrom line [[' ']] true).2 = line'
    rcases hr : consumeUntil line' [[' ']] true with _ | ⟨result, line''⟩
    · simp only [hl, if_true, consumeUntilFrom_none hr]
    by_cases h200 : result = "200".toList
    · -- the other lines are headers
      simp only [hl, if_true, consumeUntilFrom_some hr, h200]
      exact rounds_eq parseRound_nears (Nat.succ_ne_zero 0) (consumeUntil_lt newlines_ne_nil h)
    · simp only [hl, if_true, consumeUntilFrom_some hr, h200, if_false]
  · simp only [hl, if_false, Bool.false_eq_true]

/-! ## Both together -/

/-- **`consume_until` splits at the leftmost occurrence of its tokens**, so it makes the
    text shorter, and the loops over lines and over the tokens of a USN end. -/
theorem consumeUntil_promise :
    (∀ tokens : List Str, (∀ t ∈ tokens, t ≠ []) → ∀ s ct,
      ((Occurs tokens s → ∃ x rest i t, consumeUntilFrom s tokens ct = (some x, rest) ∧
        SplitAt tokens ct s x rest i t) ∧
      (¬ Occurs tokens s → consumeUntilFrom s tokens ct = (none, s))) ∧
      ∀ x rest, consumeUntilFrom s tokens true = (some x, rest) → rest.length < s.length) ∧
    (∀ al lines,
      rounds parseRound (lines.length + 1) (.start al lines) = some (Response.parse al lines)) ∧
    (∀ val uuid,
      rounds uuidRound (val.length + 1) (val, uuid) = some (uuidOf val uuid)) := by
  refine ⟨?_, rounds_parseRound, rounds_uuidRound⟩
  intro tokens ht s ct
  refine ⟨split_or_absent ht s ct, ?_⟩
  intro x rest h
  refine consumeUntil_lt ht (x := x) ?_
  rcases hc : consumeUntil s tokens true with _ | ⟨x', c⟩
  · rw [consumeUntilFrom_none hc] at h
    cases h
  · rw [consumeUntilFrom_some hc] at h
    cases h
    rfl

theorem consumeUntil_lines :
    (∃ x rest i t, consumeUntilFrom "a\r\nb".toList newlines true = (some x, rest) ∧
      SplitAt newlines true "a\r\nb".toList x rest i t ∧ rest.length < 4) ∧
    consumeUntilFrom "ab".toList newlines true = (none, "ab".toList) := by
  have hsplit := consumeUntil_promise.1 newlines newlines_ne_nil "a\r\nb".toList true
  obtain ⟨x, rest, i, t, heq, hat⟩ := hsplit.1.1 ⟨['\n'], by decide, ['a', '\r'], ['b'], rfl⟩
  refine ⟨⟨x, rest, i, t, heq, hat, hsplit.2 x rest heq⟩, ?_⟩
  refine (consumeUntil_promise.1 newlines newlines_ne_nil "ab".toList true).1.2 ?_
  rintro ⟨t, ht, hin⟩
  have hnone : ∀ t ∈ newlines, ¬ t <:+: "ab".toList := by decide
  exact hnone t ht hin

end Upnp
