/-
  The tokens of an XML 1.0 document.

  `next` reads one token, `lex` all of them; nesting is left to the reader of
  the tokens.

  * `next_weight`, `lex_weight`: no token is written shorter than its `weight`;
  * `next_start`, `next_empty`, `next_close`, `lex_text`: what tokens written in
    the plain way are read as;
  * `lex_span`: text in front of a token is never longer than what is written
    there, and as long only if it is clean and stands there as it is.
-/
import Upnp.Lib.XmlAttr

namespace Lib.Xml

inductive Token where
  | start (name : Text) (attrs : List (Text × Text))
  /-- an empty element tag -/
  | empty (name : Text) (attrs : List (Text × Text))
  | close (name : Text)
  /-- a character that is not markup -/
  | char (c : Char)
  /-- a reference or a CDATA section -/
  | data (t : Text)
  /-- a comment or a processing instruction -/
  | skip
  deriving DecidableEq, Repr

/-- [42] `ETag`, after `</` -/
def closeTag (r : Text) : Option (Token × Text) :=
  (name r).bind fun n =>
    match skipS n.2 with
    | '>' :: r => some (.close n.1, r)
    | _ => none

/-- The end of a start tag or an empty element tag. -/
def tagEnd (n : Text) (as : List (Text × Text)) : Text → Option (Token × Text)
  | '>' :: r => some (.start n as, r)
  | '/' :: '>' :: r => some (.empty n as, r)
  | _ => none

/-- [40] `STag` and [44] `EmptyElemTag`, after `<`.  No attribute name occurs
    twice. -/
def openTag (r : Text) : Option (Token × Text) :=
  (name r).bind fun n => (attributes n.2).bind fun as =>
    if (as.1.map (·.1)).Nodup then tagEnd n.1 as.1 as.2 else none

/-- [15] `Comment`, after `<!--` -/
def comment (r : Text) : Option (Token × Text) :=
  (cut ['-', '-'] r).bind fun p =>
    match p.2 with
    | '>' :: r => if p.1.all isXmlChar then some (.skip, r) else none
    | _ => none

/-- [18] `CDSect`, after `<![CDATA[` -/
def cdata (r : Text) : Option (Token × Text) :=
  (cut [']', ']', '>'] r).bind fun p =>
    if p.1.all isXmlChar then some (.data p.1, p.2) else none

/-- [16] `PI`, after `<?` -/
def pi (r : Text) : Option (Token × Text) :=
  (name r).bind fun n => (cut ['?', '>'] n.2).bind fun p =>
    if n.1.map Char.toLower ≠ ['x', 'm', 'l'] ∧ p.1.head?.all isS = true ∧ p.1.all isXmlChar = true
    then some (.skip, p.2) else none

def bang (r : Text) : Option (Token × Text) :=
  if ['-', '-'].isPrefixOf r then comment (r.drop 2)
  else if ['[', 'C', 'D', 'A', 'T', 'A', '['].isPrefixOf r then cdata (r.drop 7)
  else none

/-- What follows a `<`. -/
def markup : Text → Option (Token × Text)
  | '/' :: r => closeTag r
  | '!' :: r => bang r
  | '?' :: r => pi r
  | r => openTag r

/-- [14] `CharData`: the character `c` is no markup, in front of `r`. -/
def Plain (c : Char) (r : Text) : Prop :=
  c ≠ '<' ∧ c ≠ '&' ∧ isXmlChar c = true ∧ ¬ [']', ']', '>'] <+: c :: r

instance (c : Char) (r : Text) : Decidable (Plain c r) := inferInstanceAs (Decidable (_ ∧ _))

/-- The token a text begins with, and what is left. -/
def next : Text → Option (Token × Text)
  | [] => none
  | c :: r =>
    if c = '<' then markup r
    else if c = '&' then (reference r).map fun p => (.data [p.1], p.2)
    else if Plain c r then some (.char c, r)
    else none

/-- The least number of characters a token takes. -/
def Token.weight : Token → ℕ
  | .start n as => n.length + (as.map attrWeight).sum + 2
  | .empty n as => n.length + (as.map attrWeight).sum + 3
  | .close n => n.length + 3
  | .char _ => 1
  | .data t => t.length
  | .skip => 0

/-! ## What is consumed -/

theorem closeTag_length {r r' : Text} {tok : Token} (h : closeTag r = some (tok, r')) :
    r'.length + tok.weight ≤ r.length + 2 ∧ r'.length ≤ r.length := by
  simp only [closeTag, Option.bind_eq_some_iff] at h
  obtain ⟨⟨n, r₁⟩, hn, h⟩ := h
  split at h
  · rename_i r₂ hr
    cases h
    have h₁ := congrArg List.length (name_spec hn).1
    have h₂ := skipS_length r₁
    simp only at hr
    rw [hr, List.length_cons] at h₂
    rw [List.length_append] at h₁
    simp only [Token.weight]
    omega
  · cases h

theorem openTag_length {r r' : Text} {tok : Token} (h : openTag r = some (tok, r')) :
    r'.length + tok.weight ≤ r.length + 1 ∧ r'.length ≤ r.length := by
  simp only [openTag, Option.bind_eq_some_iff, Option.ite_none_right_eq_some] at h
  obtain ⟨⟨n, r₁⟩, hn, ⟨as, r₂⟩, ha, -, h⟩ := h
  have h₁ := congrArg List.length (name_spec hn).1
  have h₂ := attributes_length ha
  rw [List.length_append] at h₁
  simp only [tagEnd] at h h₂
  split at h
  · cases h
    simp only [Token.weight, List.length_cons] at h₂ ⊢
    omega
  · cases h
    simp only [Token.weight, List.length_cons] at h₂ ⊢
    omega
  · cases h

/-- Text: anything that may stand between two tags. -/
def Token.isText : Token → Bool
  | .char _ | .data _ | .skip => true
  | _ => false

/-- The characters a token stands for. -/
def Token.text : Token → Text
  | .char c => [c]
  | .data t => t
  | _ => []

theorem weight_of_isText {tok : Token} (h : tok.isText = true) : tok.weight = tok.text.length := by
  cases tok <;> first | rfl | cases h

theorem closeTag_isText {r r' : Text} {tok : Token} (h : closeTag r = some (tok, r')) :
    tok.isText = false := by
  simp only [closeTag, Option.bind_eq_some_iff] at h
  obtain ⟨_, -, h⟩ := h
  split at h <;> cases h
  rfl

theorem openTag_isText {r r' : Text} {tok : Token} (h : openTag r = some (tok, r')) :
    tok.isText = false := by
  simp only [openTag, Option.bind_eq_some_iff, Option.ite_none_right_eq_some] at h
  obtain ⟨_, -, _, -, -, h⟩ := h
  unfold tagEnd at h
  split at h <;> cases h <;> rfl

/-- Markup that is read as text stands for fewer characters than it takes, also
    when its first character is not counted. -/
structure Shrinks (tok : Token) (r r' : Text) : Prop where
  text : tok.isText = true
  consumed : ∃ p, r = p ++ r' ∧ tok.text.length ≤ p.length

theorem comment_shrinks {r r' : Text} {tok : Token} (h : comment r = some (tok, r')) :
    Shrinks tok r r' := by
  simp only [comment, Option.bind_eq_some_iff] at h
  obtain ⟨⟨x, y⟩, hc, h⟩ := h
  obtain ⟨rfl, -⟩ := (cut_eq_some (by simp)).1 hc
  split at h
  · rename_i r₁ hy
    rw [Option.ite_none_right_eq_some] at h
    cases h.2
    simp only at hy
    exact ⟨rfl, x ++ ['-', '-', '>'], by simp [hy], Nat.zero_le _⟩
  · cases h

theorem cdata_shrinks {r r' : Text} {tok : Token} (h : cdata r = some (tok, r')) :
    Shrinks tok r r' := by
  simp only [cdata, Option.bind_eq_some_iff, Option.ite_none_right_eq_some] at h
  obtain ⟨⟨x, y⟩, hc, -, h⟩ := h
  obtain ⟨rfl, -⟩ := (cut_eq_some (by simp)).1 hc
  cases h
  exact ⟨rfl, x ++ [']', ']', '>'], by simp, by simp [Token.text]⟩

theorem pi_shrinks {r r' : Text} {tok : Token} (h : pi r = some (tok, r')) : Shrinks tok r r' := by
  simp only [pi, Option.bind_eq_some_iff, Option.ite_none_right_eq_some] at h
  obtain ⟨⟨n, r₁⟩, hn, ⟨x, y⟩, hc, -, h⟩ := h
  obtain ⟨rfl, -⟩ := name_spec hn
  have hx := ((cut_eq_some (by simp)).1 hc).1
  cases h
  exact ⟨rfl, n ++ (x ++ ['?', '>']), by simp only at hx; simp [hx], Nat.zero_le _⟩

theorem reference_shrinks {r r' : Text} {c : Char} (h : reference r = some (c, r')) :
    Shrinks (.data [c]) r r' := by
  simp only [reference, Option.bind_eq_some_iff, Option.map_eq_some_iff] at h
  obtain ⟨⟨x, y⟩, hc, _, _, he⟩ := h
  obtain ⟨rfl, -⟩ := (cut_eq_some (by simp)).1 hc
  cases he
  exact ⟨rfl, x ++ [';'], by simp, by simp [Token.text]⟩

theorem bang_shrinks {r r' : Text} {tok : Token} (h : bang r = some (tok, r')) :
    Shrinks tok r r' := by
  have hdrop : ∀ k, Shrinks tok (r.drop k) r' → Shrinks tok r r' := by
    rintro k ⟨ht, p, hp, hw⟩
    refine ⟨ht, r.take k ++ p, ?_, by rw [List.length_append]; omega⟩
    rw [List.append_assoc, ← hp, List.take_append_drop]
  unfold bang at h
  split at h
  · exact hdrop _ (comment_shrinks h)
  · split at h
    · exact hdrop _ (cdata_shrinks h)
    · cases h

/-- What a `<` begins: a tag, or something that shrinks. -/
theorem markup_cases {r r' : Text} {tok : Token} (h : markup r = some (tok, r')) :
    Shrinks tok r r' ∨
      tok.isText = false ∧ r'.length + tok.weight ≤ r.length + 1 ∧ r'.length ≤ r.length := by
  unfold markup at h
  split at h
  · have := closeTag_length h
    rw [List.length_cons]
    exact .inr ⟨closeTag_isText h, by omega, by omega⟩
  · obtain ⟨ht, p, rfl, hp⟩ := bang_shrinks h
    exact .inl ⟨ht, '!' :: p, rfl, by rw [List.length_cons]; omega⟩
  · obtain ⟨ht, p, rfl, hp⟩ := pi_shrinks h
    exact .inl ⟨ht, '?' :: p, rfl, by rw [List.length_cons]; omega⟩
  · exact .inr ⟨openTag_isText h, openTag_length h⟩

/-- Text in front of `r'`: it is longer than what it stands for, or it is a
    character that stands for itself. -/
theorem next_text {r r' : Text} {tok : Token} (h : next r = some (tok, r'))
    (ht : tok.isText = true) : ∃ p, r = p ++ r' ∧ tok.text.length ≤ p.length ∧ p ≠ [] ∧
      (tok.text.length = p.length → ∃ c, tok = .char c ∧ p = [c] ∧ Plain c r') := by
  have hshrink : ∀ {c r}, Shrinks tok r r' → ∃ p, c :: r = p ++ r' ∧
      tok.text.length ≤ p.length ∧ p ≠ [] ∧
      (tok.text.length = p.length → ∃ c, tok = .char c ∧ p = [c] ∧ Plain c r') := by
    rintro c r ⟨-, p, rfl, hp⟩
    refine ⟨c :: p, rfl, ?_, by simp, fun he => ?_⟩ <;> rw [List.length_cons] at * <;> omega
  rcases r with _ | ⟨c, r⟩
  · cases h
  · rw [next] at h
    split at h
    · rcases markup_cases h with hs | ⟨hf, -⟩
      · exact hshrink hs
      · rw [ht] at hf; cases hf
    · split at h
      · obtain ⟨⟨d, r₁⟩, hr, he⟩ := Option.map_eq_some_iff.1 h
        cases he
        exact hshrink (reference_shrinks hr)
      · rw [Option.ite_none_right_eq_some] at h
        obtain ⟨hp, he⟩ := h
        cases he
        exact ⟨[c], rfl, le_rfl, by simp, fun _ => ⟨c, rfl, rfl, hp⟩⟩

/-- **No token is written shorter than its weight.** -/
theorem next_weight {r r' : Text} {tok : Token} (h : next r = some (tok, r')) :
    r'.length + tok.weight ≤ r.length ∧ r'.length < r.length := by
  by_cases ht : tok.isText = true
  · obtain ⟨p, rfl, hw, hp, -⟩ := next_text h ht
    have := List.length_pos_of_ne_nil hp
    rw [weight_of_isText ht, List.length_append]
    omega
  · rcases r with _ | ⟨c, r⟩
    · cases h
    · rw [next] at h
      split at h
      · rcases markup_cases h with hs | ⟨-, hw⟩
        · exact absurd hs.text ht
        · rw [List.length_cons]; omega
      · split at h
        · obtain ⟨⟨d, r₁⟩, -, he⟩ := Option.map_eq_some_iff.1 h
          cases he; exact absurd rfl ht
        · rw [Option.ite_none_right_eq_some] at h
          cases h.2; exact absurd rfl ht

/-! ## All tokens -/

/-- The tokens of a text. -/
def lex : Text → Option (List Token)
  | [] => some []
  | c :: r =>
    match _h : next (c :: r) with
    | some (tok, r') => (lex r').map (tok :: ·)
    | none => none
termination_by r => r.length
decreasing_by exact (next_weight _h).2

theorem lex_nil : lex [] = some [] := by rw [lex]

theorem lex_next {r r' : Text} {tok : Token} (h : next r = some (tok, r')) :
    lex r = (lex r').map (tok :: ·) := by
  rcases r with _ | ⟨c, r⟩
  · cases h
  · rw [lex]
    split <;> rename_i h' <;> rw [h] at h' <;> cases h'
    rfl

theorem lex_cons {r : Text} {tok : Token} {ts : List Token} (h : lex r = some (tok :: ts)) :
    ∃ r', next r = some (tok, r') ∧ lex r' = some ts := by
  rcases r with _ | ⟨c, r⟩
  · rw [lex] at h; cases h
  · rw [lex] at h
    split at h
    · rename_i tok' r' hn
      obtain ⟨ts', hts, he⟩ := Option.map_eq_some_iff.1 h
      cases he
      exact ⟨r', hn, hts⟩
    · cases h

/-- The least number of characters some tokens take. -/
def weight (ts : List Token) : ℕ := (ts.map Token.weight).sum

/-- **No text is written shorter than its tokens weigh.** -/
theorem lex_weight {r : Text} {ts : List Token} (h : lex r = some ts) : weight ts ≤ r.length := by
  induction ts generalizing r with
  | nil => exact Nat.zero_le _
  | cons tok ts ih =>
    obtain ⟨r', hn, hl⟩ := lex_cons h
    have h₁ := next_weight hn
    have h₂ := ih hl
    simp only [weight, List.map_cons, List.sum_cons] at h₂ ⊢
    omega

/-! ## Tokens written plainly -/

/-- `<n a="v"` -/
def writeOpen (n : Text) (as : List (Text × Text)) : Text := '<' :: (n ++ as.flatMap writeAttr)

/-- `</n>` -/
def writeClose (n : Text) : Text := '<' :: '/' :: (n ++ ['>'])

/-- Attributes that are read as they are written. -/
def CleanAttrs (as : List (Text × Text)) : Prop :=
  (as.map (·.1)).Nodup ∧ ∀ a ∈ as, isName a.1 = true ∧ CleanAttr a.2

instance : DecidablePred CleanAttrs := fun _ => inferInstanceAs (Decidable (_ ∧ _))

variable {n r : Text} {as : List (Text × Text)}

/-- A `<` in front of a name begins a tag. -/
theorem next_tag (hn : isName n = true) : next ('<' :: (n ++ r)) = openTag (n ++ r) := by
  rcases n with _ | ⟨c, n⟩
  · cases hn
  · simp only [isName, Bool.and_eq_true] at hn
    rw [next, if_pos rfl, List.cons_append]
    unfold markup
    split <;> rename_i h <;> first | rfl | (cases h; exact absurd hn.1 (by decide))

/-- A tag whose attributes are read as they are written, up to its end. -/
theorem next_open {c : Char} (hn : isName n = true) (ha : CleanAttrs as)
    (hc : c = '>' ∨ c = '/') :
    next (writeOpen n as ++ c :: r) = tagEnd n as (c :: r) := by
  have hend : attributes (c :: r) = some ([], c :: r) := by
    rcases hc with rfl | rfl
    · exact attributes_gt
    · exact attributes_slash
  obtain ⟨d, r', hd, hd'⟩ : ∃ d r', as.flatMap writeAttr ++ c :: r = d :: r' ∧
      isNameChar d = false := by
    rcases as with _ | ⟨a, as⟩
    · exact ⟨c, r, rfl, by rcases hc with rfl | rfl <;> decide⟩
    · exact ⟨' ', _, rfl, by decide⟩
  have has := attributes_write (r := c :: r) ha.2
  rw [writeOpen, List.cons_append, List.append_assoc, next_tag hn, openTag, hd,
    name_append hn hd', Option.bind_some, ← hd, has, hend]
  simp only [Option.map_some, Option.bind_some, List.append_nil, if_pos ha.1]

theorem next_start (hn : isName n = true) (ha : CleanAttrs as) :
    next (writeOpen n as ++ '>' :: r) = some (.start n as, r) :=
  next_open hn ha (.inl rfl)

theorem next_empty (hn : isName n = true) (ha : CleanAttrs as) :
    next (writeOpen n as ++ '/' :: '>' :: r) = some (.empty n as, r) :=
  next_open hn ha (.inr rfl)

theorem next_close (hn : isName n = true) :
    next (writeClose n ++ r) = some (.close n, r) := by
  have hname := name_append (r := r) hn (show isNameChar '>' = false by decide)
  simp only [writeClose, List.cons_append, List.append_assoc, List.nil_append, next, if_true,
    markup, closeTag, hname, Option.bind_some, skipS_cons (show isS '>' = false by decide)]

/-- The characters of `t` are no markup, in front of `r`. -/
def Verbatim : Text → Text → Prop
  | [], _ => True
  | c :: t, r => Plain c (t ++ r) ∧ Verbatim t r

theorem lex_verbatim {t : Text} (h : Verbatim t r) :
    lex (t ++ r) = (lex r).map (t.map .char ++ ·) := by
  induction t with
  | nil => simp
  | cons c t ih =>
    have hn : next (c :: (t ++ r)) = some (.char c, t ++ r) := by
      rw [next, if_neg h.1.1, if_neg h.1.2.1, if_pos h.1]
    rw [List.cons_append, lex_next hn, ih h.2, Option.map_map]
    rfl

/-- **Text in front of a token is never longer than what is written there, and
    as long only if what is written there stands for itself.** -/
theorem lex_span {txt ts : List Token} (ht : ∀ t ∈ txt, t.isText = true)
    (h : lex r = some (txt ++ ts)) : ∃ q r', r = q ++ r' ∧ lex r' = some ts ∧
      (txt.flatMap Token.text).length ≤ q.length ∧
      ((txt.flatMap Token.text).length = q.length →
        txt.flatMap Token.text = q ∧ Verbatim q r') := by
  induction txt generalizing r with
  | nil => exact ⟨[], r, rfl, h, le_rfl, fun _ => ⟨rfl, trivial⟩⟩
  | cons t txt ih =>
    obtain ⟨ht, hts⟩ := List.forall_mem_cons.1 ht
    obtain ⟨r₁, hn, hl⟩ := lex_cons h
    obtain ⟨q, r', rfl, hr', hlen, heq⟩ := ih hts hl
    obtain ⟨p, rfl, hp, -, hp'⟩ := next_text hn ht
    refine ⟨p ++ q, r', by simp, hr', ?_, ?_⟩
    · simp only [List.flatMap_cons, List.length_append]; omega
    · intro he
      simp only [List.flatMap_cons, List.length_append] at he
      obtain ⟨c, rfl, rfl, hc⟩ := hp' (by omega)
      obtain ⟨htxt, hv⟩ := heq (by omega)
      rw [List.flatMap_cons, htxt]
      exact ⟨rfl, hc, hv⟩

end Lib.Xml
