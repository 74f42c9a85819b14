/-
  Reading an XML 1.0 document: the element its tokens describe.

  A document type declaration is not accepted, and an encoding declaration is
  not looked at: a text is the decoded characters.

  * `readDocument`: the root element, `none` unless the text is well-formed;
  * `inside_weight`: no document is shorter than its root element weighs;
  * `inside_extends`: nothing that has been read is lost;
  * `readFrom_leaves`, `readFrom_close`: reading what is written plainly;
  * `verbatim_of_readFrom`: the text of an element that is read back as it was
    put in is no markup.
-/
import Upnp.Lib.XmlLex

namespace Lib.Xml

/-- An element: its attributes, the character data directly in it, and its
    child elements. -/
structure Elem where
  name : Text
  attrs : List (Text × Text)
  text : Text
  children : List Elem

namespace Elem

def addText (t : Text) (e : Elem) : Elem := { e with text := e.text ++ t }

def addChild (e c : Elem) : Elem := { e with children := e.children ++ [c] }

theorem addText_nil (e : Elem) : e.addText [] = e := by
  obtain ⟨n, as, t, cs⟩ := e
  rw [addText, List.append_nil]

/-- An element without child elements. -/
def leaf (a : Text × Text) : Elem := ⟨a.1, [], a.2, []⟩

end Elem

/-! ## Nesting -/

/-- After the root element there are only comments, processing instructions and
    white space. -/
def epilog (e : Elem) (ts : List Token) : Option Elem :=
  if ts.all (fun | .skip => true | .char c => isS c | _ => false) then some e else none

/-- The innermost open element `e`, and those around it, the innermost first. -/
def inside (e : Elem) (outer : List Elem) : List Token → Option Elem
  | [] => none
  | .skip :: ts => inside e outer ts
  | .char c :: ts => inside (e.addText [c]) outer ts
  | .data t :: ts => inside (e.addText t) outer ts
  | .start n as :: ts => inside ⟨n, as, [], []⟩ (e :: outer) ts
  | .empty n as :: ts => inside (e.addChild ⟨n, as, [], []⟩) outer ts
  | .close n :: ts =>
    if n = e.name then
      match outer with
      | [] => epilog e ts
      | p :: outer => inside (p.addChild e) outer ts
    else none

/-- The root element, after comments, processing instructions and white space. -/
def prolog : List Token → Option Elem
  | .skip :: ts => prolog ts
  | .char c :: ts => if isS c then prolog ts else none
  | .start n as :: ts => inside ⟨n, as, [], []⟩ [] ts
  | .empty n as :: ts => epilog ⟨n, as, [], []⟩ ts
  | _ => none

/-- 2.11: a line ends with a line feed. -/
def normalize : Text → Text
  | [] => []
  | '\r' :: '\n' :: r => '\n' :: normalize r
  | c :: r => (if c = '\r' then '\n' else c) :: normalize r

/-- The attributes of an XML declaration: a version, and at most an encoding and
    a standalone declaration. -/
def declared : List (Text × Text) → Bool
  | (k, v) :: as =>
    k == "version".toList && "1.".toList.isPrefixOf v && v.length > 2 &&
      (v.drop 2).all Char.isDigit &&
      (as.map (·.1)).isSublist ["encoding".toList, "standalone".toList]
  | [] => false

/-- What stands after [23] `XMLDecl`, if there is one. -/
def xmlDecl (r : Text) : Option Text :=
  if "<?xml".toList.isPrefixOf r && (r.drop 5).head?.any isS then
    (cut ['?', '>'] (r.drop 5)).bind fun p =>
      match attributes p.1 with
      | some (as, []) => if declared as then some p.2 else none
      | _ => none
  else some r

/-- [1] `document` -/
def readDocument (s : Text) : Option Elem :=
  (xmlDecl (normalize s)).bind fun r => (lex r).bind prolog

/-- Read on with these elements open. -/
def readFrom (e : Elem) (outer : List Elem) (r : Text) : Option Elem :=
  (lex r).bind (inside e outer)

/-! ## Line ends -/

variable {r s t : Text}

theorem normalize_cons {c : Char} (h : c ≠ '\r' ∨ r.head? ≠ some '\n') :
    normalize (c :: r) = (if c = '\r' then '\n' else c) :: normalize r := by
  rw [normalize]
  rintro r' rfl rfl
  simp at h

theorem normalize_length (r : Text) : (normalize r).length ≤ r.length := by
  induction r using normalize.induct with
  | case1 => rfl
  | case2 r ih => simp only [normalize, List.length_cons]; omega
  | case3 c r hc ih => simp only [normalize, List.length_cons]; omega

theorem notMem_normalize (r : Text) : '\r' ∉ normalize r := by
  induction r using normalize.induct with
  | case1 => simp [normalize]
  | case2 r ih => simp [normalize, ih]
  | case3 c r hc ih =>
    simp only [normalize, List.mem_cons, not_or]
    refine ⟨?_, ih⟩
    split <;> simp_all [eq_comm]

theorem normalize_append (hs : '\r' ∉ s) : normalize (s ++ r) = s ++ normalize r := by
  induction s with
  | nil => rfl
  | cons c s ih =>
    simp only [List.mem_cons, not_or] at hs
    have hc : c ≠ '\r' := fun h => hs.1 h.symm
    rw [List.cons_append, normalize_cons (.inl hc), if_neg hc, ih hs.2, List.cons_append]

theorem normalize_eq (hs : '\r' ∉ s) : normalize s = s := by
  have := normalize_append (r := []) hs
  simpa [normalize] using this

/-- A line does not end across a character that is no line feed. -/
theorem normalize_split {c : Char} (hc : c ≠ '\n') :
    normalize (s ++ c :: r) = normalize s ++ normalize (c :: r) := by
  induction s using normalize.induct with
  | case1 => rfl
  | case2 s ih => simp only [List.cons_append, normalize, ih]
  | case3 d s hd ih =>
    have h : d ≠ '\r' ∨ (s ++ c :: r).head? ≠ some '\n' := by
      rcases s with _ | ⟨e, s⟩
      · exact .inr (by simpa using hc)
      · by_cases hdr : d = '\r'
        · refine .inr ?_
          intro he
          simp only [List.cons_append, List.head?_cons, Option.some.injEq] at he
          exact hd s hdr (by rw [he])
        · exact .inl hdr
    have h' : d ≠ '\r' ∨ s.head? ≠ some '\n' := by
      refine h.imp id fun h he => h ?_
      rcases s with _ | ⟨e, s⟩
      · cases he
      · exact he
    rw [List.cons_append, normalize_cons h, normalize_cons h', ih, List.cons_append]

/-! ## Weights -/

mutual
/-- The least number of characters an element takes. -/
def Elem.weight : Elem → ℕ
  | ⟨n, as, t, cs⟩ => n.length + (as.map attrWeight).sum + 2 +
    if t.isEmpty && cs.isEmpty then 1 else t.length + weights cs + n.length + 3
def weights : List Elem → ℕ
  | [] => 0
  | c :: cs => c.weight + weights cs
end

/-- The least number of characters of an element that is still open. -/
def Elem.openWeight (e : Elem) : ℕ :=
  e.name.length + (e.attrs.map attrWeight).sum + 2 + e.text.length + weights e.children

theorem weights_append (cs cs' : List Elem) : weights (cs ++ cs') = weights cs + weights cs' := by
  induction cs with
  | nil => simp [weights]
  | cons c cs ih => simp only [List.cons_append, weights, ih]; omega

theorem Elem.weight_le (e : Elem) : e.weight ≤ e.openWeight + (e.name.length + 3) := by
  obtain ⟨n, as, t, cs⟩ := e
  simp only [weight, openWeight]
  split <;> omega

theorem Elem.weight_eq {e : Elem} (h : e.text ≠ [] ∨ e.children ≠ []) :
    e.weight = e.openWeight + (e.name.length + 3) := by
  obtain ⟨n, as, t, cs⟩ := e
  have hne : (t.isEmpty && cs.isEmpty) = false := by
    simpa [imp_iff_not_or] using h
  simp only [weight, openWeight, hne]
  simp only [Bool.false_eq_true, if_false]
  omega

theorem openWeight_addText (e : Elem) : (e.addText t).openWeight = e.openWeight + t.length := by
  simp only [Elem.addText, Elem.openWeight, List.length_append]; omega

theorem openWeight_addChild (e c : Elem) :
    (e.addChild c).openWeight = e.openWeight + c.weight := by
  simp only [Elem.addChild, Elem.openWeight, weights_append, weights]; omega

theorem openWeight_new (n : Text) (as : List (Text × Text)) :
    (⟨n, as, [], []⟩ : Elem).openWeight = (Token.start n as).weight := by
  simp [Elem.openWeight, Token.weight, weights]

theorem weight_empty (n : Text) (as : List (Text × Text)) :
    (⟨n, as, [], []⟩ : Elem).weight = (Token.empty n as).weight := by
  simp [Elem.weight, Token.weight]

theorem weight_cons (tok : Token) (ts : List Token) :
    Xml.weight (tok :: ts) = tok.weight + Xml.weight ts := by
  simp [Xml.weight]

/-- The least number of characters of all open elements. -/
def openWeights (e : Elem) (outer : List Elem) : ℕ :=
  e.openWeight + (outer.map Elem.openWeight).sum

/-- **The root element weighs no more than what is open and what comes.** -/
theorem inside_weight {e E : Elem} {outer : List Elem} {ts : List Token}
    (h : inside e outer ts = some E) : E.weight ≤ openWeights e outer + Xml.weight ts := by
  induction ts generalizing e outer with
  | nil => cases h
  | cons tok ts ih =>
    rw [weight_cons]
    cases tok with
    | skip => exact (ih h).trans (by simp [Token.weight])
    | char c =>
      have := ih h
      simp only [openWeights, openWeight_addText, Token.weight, List.length_singleton] at this ⊢
      omega
    | data t =>
      have := ih h
      simp only [openWeights, openWeight_addText, Token.weight] at this ⊢
      omega
    | start n as =>
      have := ih h
      simp only [openWeights, openWeight_new, List.map_cons, List.sum_cons] at this ⊢
      omega
    | empty n as =>
      have := ih h
      simp only [openWeights, openWeight_addChild, weight_empty] at this ⊢
      omega
    | close n =>
      simp only [inside, Option.ite_none_right_eq_some] at h
      obtain ⟨rfl, h⟩ := h
      have hle := e.weight_le
      rcases outer with _ | ⟨p, outer⟩
      · simp only [epilog, Option.ite_none_right_eq_some, Option.some.injEq] at h
        obtain ⟨-, rfl⟩ := h
        simp only [openWeights, Token.weight]
        omega
      · have := ih h
        simp only [openWeights, openWeight_addChild, List.map_cons, List.sum_cons,
          Token.weight] at this ⊢
        omega

/-! ## What has been read stays -/

/-- `e'` is `e` with more in it. -/
structure Grows (e e' : Elem) : Prop where
  name : e'.name = e.name
  attrs : e'.attrs = e.attrs
  text : e.text <+: e'.text
  children : e.children <+: e'.children

theorem Grows.refl (e : Elem) : Grows e e :=
  ⟨rfl, rfl, List.prefix_refl _, List.prefix_refl _⟩

theorem Grows.trans {e e' e'' : Elem} (h : Grows e e') (h' : Grows e' e'') : Grows e e'' :=
  ⟨h'.name.trans h.name, h'.attrs.trans h.attrs, h.text.trans h'.text,
    h.children.trans h'.children⟩

theorem grows_addText (e : Elem) : Grows e (e.addText t) :=
  ⟨rfl, rfl, List.prefix_append _ _, List.prefix_refl _⟩

theorem grows_addChild (e c : Elem) : Grows e (e.addChild c) :=
  ⟨rfl, rfl, List.prefix_refl _, List.prefix_append _ _⟩

/-- The root element `E` has the open elements in it, each with more in it. -/
def Extends (e : Elem) : List Elem → Elem → Prop
  | [], E => Grows e E
  | p :: outer, E => ∃ e', Grows e e' ∧ Extends (p.addChild e') outer E

theorem Extends.mono {e e' E : Elem} {outer : List Elem} (hg : Grows e e')
    (h : Extends e' outer E) : Extends e outer E := by
  cases outer with
  | nil => exact hg.trans h
  | cons p outer =>
    obtain ⟨e'', h₁, h₂⟩ := h
    exact ⟨e'', hg.trans h₁, h₂⟩

/-- **The root element has everything in it that was open.** -/
theorem inside_extends {e E : Elem} {outer : List Elem} {ts : List Token}
    (h : inside e outer ts = some E) : Extends e outer E := by
  induction ts generalizing e outer with
  | nil => cases h
  | cons tok ts ih =>
    cases tok with
    | skip => exact ih h
    | char c => exact (ih h).mono (grows_addText e)
    | data t => exact (ih h).mono (grows_addText e)
    | start n as =>
      obtain ⟨e', -, he⟩ := ih h
      exact he.mono (grows_addChild e e')
    | empty n as => exact (ih h).mono (grows_addChild e _)
    | close n =>
      simp only [inside, Option.ite_none_right_eq_some] at h
      rcases outer with _ | ⟨p, outer⟩
      · simp only [epilog, Option.ite_none_right_eq_some, Option.some.injEq] at h
        rw [← h.2.2]
        exact Grows.refl e
      · exact ⟨e, Grows.refl e, ih h.2⟩

theorem extends_start {e E : Elem} {outer : List Elem} {n : Text} {as : List (Text × Text)}
    {ts : List Token} (h : inside e outer (.start n as :: ts) = some E) :
    ∃ e', Grows ⟨n, as, [], []⟩ e' ∧ Extends (e.addChild e') outer E := by
  have h' : inside ⟨n, as, [], []⟩ (e :: outer) ts = some E := h
  exact inside_extends h'

theorem extends_empty {e E : Elem} {outer : List Elem} {n : Text} {as : List (Text × Text)}
    {ts : List Token} (h : inside e outer (.empty n as :: ts) = some E) :
    Extends (e.addChild ⟨n, as, [], []⟩) outer E := by
  have h' : inside (e.addChild ⟨n, as, [], []⟩) outer ts = some E := h
  exact inside_extends h'

/-! ## Reading what is written plainly -/

variable {e E p : Elem} {outer : List Elem} {n : Text} {as : List (Text × Text)}

theorem readFrom_next {r r' : Text} {tok : Token} (h : next r = some (tok, r')) :
    readFrom e outer r = (lex r').bind fun ts => inside e outer (tok :: ts) := by
  rw [readFrom, lex_next h, Option.bind_map]
  rfl

theorem readFrom_start (hn : isName n = true) (ha : CleanAttrs as) :
    readFrom e outer (writeOpen n as ++ '>' :: r) =
      readFrom ⟨n, as, [], []⟩ (e :: outer) r :=
  readFrom_next (next_start hn ha)

theorem readFrom_empty (hn : isName n = true) (ha : CleanAttrs as) :
    readFrom e outer (writeOpen n as ++ '/' :: '>' :: r) =
      readFrom (e.addChild ⟨n, as, [], []⟩) outer r :=
  readFrom_next (next_empty hn ha)

theorem readFrom_close (hn : isName e.name = true) :
    readFrom e (p :: outer) (writeClose e.name ++ r) = readFrom (p.addChild e) outer r := by
  rw [readFrom_next (next_close hn)]
  simp only [inside, if_true]
  rfl

/-- An end tag of another element is not well-formed. -/
theorem readFrom_close_ne (hn : isName n = true) (hne : n ≠ e.name) :
    readFrom e outer (writeClose n ++ r) = none := by
  rw [readFrom_next (next_close hn)]
  simp only [inside, if_neg hne, Option.bind_fun_none]

theorem readFrom_end (hn : isName e.name = true) :
    readFrom e [] (writeClose e.name) = some e := by
  have h := next_close (r := []) hn
  rw [List.append_nil] at h
  rw [readFrom_next h, lex_nil]
  simp [inside, epilog]

theorem inside_text {txt ts : List Token} (ht : ∀ t ∈ txt, t.isText = true) :
    inside e outer (txt ++ ts) = inside (e.addText (txt.flatMap Token.text)) outer ts := by
  induction txt generalizing e with
  | nil => rw [List.flatMap_nil, Elem.addText_nil]; rfl
  | cons t txt ih =>
    obtain ⟨h, hts⟩ := List.forall_mem_cons.1 ht
    rw [List.cons_append]
    cases t with
    | char c => simp [inside, ih hts, Elem.addText, Token.text]
    | data t => simp [inside, ih hts, Elem.addText, Token.text]
    | skip => simp [inside, ih hts, Token.text]
    | start _ _ | empty _ _ | close _ => cases h

theorem readFrom_verbatim (h : Verbatim t r) :
    readFrom e outer (t ++ r) = readFrom (e.addText t) outer r := by
  have ht : (t.map Token.char).flatMap Token.text = t := by
    induction t with
    | nil => rfl
    | cons c t ih => rw [List.map_cons, List.flatMap_cons, ih h.2]; rfl
  rw [readFrom, lex_verbatim h, Option.bind_map]
  congr 1
  funext ts
  have hp : ∀ k ∈ t.map Token.char, k.isText = true := by
    intro k hk
    obtain ⟨c, -, rfl⟩ := List.mem_map.1 hk
    rfl
  exact (inside_text hp).trans (by rw [ht])

/-- Text that stands for itself between two tags of a document. -/
def CleanText (t : Text) : Prop :=
  (∀ c ∈ t, c ≠ '<' ∧ c ≠ '&' ∧ c ≠ '\r' ∧ isXmlChar c = true) ∧ ¬ [']', ']', '>'] <:+: t

instance : DecidablePred CleanText := fun t =>
  @instDecidableAnd _ _ (List.decidableBAll _ t) inferInstance

theorem prefix_of_notMem {α : Type*} {tok x y : List α} {c : α} (hc : c ∉ tok)
    (h : tok <+: x ++ c :: y) : tok <+: x := by
  rcases List.prefix_or_prefix_of_prefix h (List.prefix_append x (c :: y)) with hx | ⟨z, rfl⟩
  · exact hx
  · rcases z with _ | ⟨d, z⟩
    · simp
    · have := (List.prefix_append_right_inj x).1 h
      obtain ⟨w, hw⟩ := this
      simp only [List.cons_append, List.cons.injEq] at hw
      exact absurd (by simp [hw.1]) hc

theorem verbatim_of_clean (h : CleanText t) : Verbatim t ('<' :: r) := by
  obtain ⟨hc, hi⟩ := h
  induction t with
  | nil => trivial
  | cons c t ih =>
    obtain ⟨⟨h1, h2, -, h3⟩, ht⟩ := List.forall_mem_cons.1 hc
    refine ⟨⟨h1, h2, h3, fun hp => hi ?_⟩,
      ih ht fun h => hi (h.trans (List.suffix_cons c t).isInfix)⟩
    rw [← List.cons_append] at hp
    exact (prefix_of_notMem (by decide) hp).isInfix

theorem clean_of_verbatim (h : Verbatim t r) (hr : '\r' ∉ t) : CleanText t := by
  induction t with
  | nil => exact ⟨by simp, by simp⟩
  | cons c t ih =>
    simp only [List.mem_cons, not_or] at hr
    obtain ⟨⟨h1, h2, h3, h4⟩, hv⟩ := h
    obtain ⟨hc, hi⟩ := ih hv hr.2
    refine ⟨List.forall_mem_cons.2 ⟨⟨h1, h2, fun e => hr.1 e.symm, h3⟩, hc⟩, ?_⟩
    intro hin
    rcases List.infix_cons_iff.1 hin with hp | ht
    · exact h4 (hp.trans (List.prefix_append (c :: t) r))
    · exact hi ht

/-- `<k>v</k>` -/
def writeLeaf (a : Text × Text) : Text := writeOpen a.1 [] ++ '>' :: (a.2 ++ writeClose a.1)

/-- An argument that is read back as it is written. -/
def CleanLeaf (a : Text × Text) : Prop := isName a.1 = true ∧ CleanText a.2

theorem cleanAttrs_nil : CleanAttrs [] := ⟨List.nodup_nil, by simp⟩

theorem readFrom_leaf {a : Text × Text} (ha : CleanLeaf a) :
    readFrom e outer (writeLeaf a ++ r) = readFrom (e.addChild (.leaf a)) outer r := by
  rw [writeLeaf, List.append_assoc, List.cons_append, List.append_assoc,
    readFrom_start ha.1 cleanAttrs_nil, writeClose, List.cons_append,
    readFrom_verbatim (verbatim_of_clean ha.2)]
  exact readFrom_close ha.1

/-- **Leaves that are written plainly are read as they are.** -/
theorem readFrom_leaves {ls : List (Text × Text)} (hl : ∀ a ∈ ls, CleanLeaf a) :
    readFrom e outer (ls.flatMap writeLeaf ++ r) =
      readFrom { e with children := e.children ++ ls.map .leaf } outer r := by
  induction ls generalizing e with
  | nil =>
    obtain ⟨n, as, t, cs⟩ := e
    rw [List.flatMap_nil, List.map_nil, List.append_nil, List.nil_append]
  | cons a ls ih =>
    obtain ⟨ha, hls⟩ := List.forall_mem_cons.1 hl
    rw [List.flatMap_cons, List.append_assoc, readFrom_leaf ha, ih hls]
    simp [Elem.addChild]

/-! ## Reading what may be markup -/

theorem readFrom_some (h : readFrom e outer r = some E) :
    ∃ ts, lex r = some ts ∧ inside e outer ts = some E :=
  Option.bind_eq_some_iff.1 h

/-- An element that is to end without child elements takes none. -/
theorem not_extends_addChild {e' : Elem}
    (hE : ∀ e', Extends (p.addChild e') outer E → e'.text = t ∧ e'.children = []) :
    ¬ Extends (e.addChild e') (p :: outer) E := by
  rintro ⟨e'', hg, he⟩
  have hpre := hg.children
  rw [(hE e'' he).2, List.prefix_nil] at hpre
  exact absurd hpre (by simp [Elem.addChild])

/-- **Text that is read back as it was put into an element is no markup.**  The
    element can only end with the text `t` and no child elements, and `E` is too
    large to be read from less than what follows. -/
theorem verbatim_of_readFrom {d post : Text}
    (h : readFrom ⟨n, as, [], []⟩ (p :: outer) (d ++ post) = some E)
    (hE : ∀ e', Extends (p.addChild e') outer E → e'.text = t ∧ e'.children = [])
    (hw : openWeights ⟨n, as, t, []⟩ (p :: outer) + post.length ≤ E.weight)
    (hd : d.length ≤ t.length) : d = t ∧ Verbatim t post := by
  obtain ⟨ts, hl, hi⟩ := readFrom_some h
  rw [← List.takeWhile_append_dropWhile (p := Token.isText) (l := ts)] at hl hi
  have htxt : ∀ tok ∈ ts.takeWhile Token.isText, tok.isText = true :=
    fun _ => List.mem_takeWhile_imp
  rw [inside_text htxt] at hi
  obtain ⟨q, r', hq, hr', hlen, heq⟩ := lex_span htxt hl
  rcases hts : ts.dropWhile Token.isText with _ | ⟨tok, ts'⟩
  · rw [hts] at hi; cases hi
  have hntext : tok.isText = false := by
    have := List.head?_dropWhile_not Token.isText ts
    rw [hts] at this
    simpa using this
  rw [hts] at hi hr'
  cases tok with
  | char _ | data _ | skip => cases hntext
  | start m bs =>
    obtain ⟨e', -, he⟩ := extends_start hi
    exact absurd he (not_extends_addChild hE)
  | empty m bs => exact absurd (extends_empty hi) (not_extends_addChild hE)
  | close m =>
    have hweight := inside_weight hi
    simp only [inside, Option.ite_none_right_eq_some] at hi
    have ht : (ts.takeWhile Token.isText).flatMap Token.text = t :=
      (hE _ (inside_extends hi.2)).1
    have hr := lex_weight hr'
    have hlen' := congrArg List.length hq
    rw [ht] at hlen heq hweight
    simp only [List.length_append] at hlen'
    have he : Elem.addText t ⟨n, as, [], []⟩ = ⟨n, as, t, []⟩ := rfl
    rw [he] at hweight
    -- nothing of what follows was taken for text, so nothing was left over
    obtain ⟨rfl, hv⟩ := heq (by omega)
    obtain ⟨rfl, rfl⟩ := List.append_inj hq (by omega)
    exact ⟨rfl, hv⟩

/-- **An attribute value that may be markup.**  The first tag has an attribute
    with the value that is read, and its element gets into the root element. -/
theorem attr_of_readFrom {k raw r : Text} {c : Char} (hn : isName n = true) (hk : isName k = true)
    (h : readFrom e outer (writeOpen n [(k, raw)] ++ c :: r) = some E) :
    ∃ v q e', e'.name = n ∧ e'.attrs = (k, v) :: q ∧ Extends (e.addChild e') outer E ∧
      v.length ≤ raw.length ∧ (v.length = raw.length →
        v = raw.map (fun c => if isS c then ' ' else c) ∧
        ∀ c ∈ raw, c ≠ '<' ∧ c ≠ '&' ∧ c ≠ '"' ∧ isXmlChar c = true) := by
  obtain ⟨ts, hl, hi⟩ := readFrom_some h
  have hopen : next (writeOpen n [(k, raw)] ++ c :: r) =
      ((attValue ('"' :: (raw ++ '"' :: c :: r))).bind fun v =>
        (attributes v.2).map fun q => ((k, v.1) :: q.1, q.2)).bind fun as =>
        if (as.1.map (·.1)).Nodup then tagEnd n as.1 as.2 else none := by
    rw [writeOpen, List.cons_append, List.append_assoc, next_tag hn, openTag]
    simp only [List.flatMap_cons, List.flatMap_nil, List.append_nil, writeAttr, List.cons_append,
      List.append_assoc, List.nil_append]
    rw [name_append hn (by decide), Option.bind_some, attributes_quoted hk]
  rcases ts with _ | ⟨tok, ts⟩
  · cases hi
  obtain ⟨r', hnext, -⟩ := lex_cons hl
  rw [hopen] at hnext
  simp only [Option.bind_eq_some_iff, Option.map_eq_some_iff,
    Option.ite_none_right_eq_some] at hnext
  obtain ⟨⟨as, r₂⟩, ⟨⟨v, r₁⟩, hv, ⟨q, r₃⟩, -, he⟩, -, htag⟩ := hnext
  cases he
  have hval := attValue_quoted hv
  refine ⟨v, q, ?_⟩
  simp only [tagEnd] at htag
  split at htag
  · cases htag
    obtain ⟨e', hg, he⟩ := extends_start hi
    exact ⟨e', hg.name, hg.attrs, he, hval.1, fun h => (hval.2 h).2⟩
  · cases htag
    exact ⟨_, rfl, rfl, extends_empty hi, hval.1, fun h => (hval.2 h).2⟩
  · cases htag

/-- A value that is read back as it was put into an attribute, where line ends
    were normalized first, is no markup. -/
theorem cleanAttr_of_eq {raw : Text} (h : raw.length = (normalize raw).length →
      raw = (normalize raw).map (fun c => if isS c then ' ' else c) ∧
      ∀ c ∈ normalize raw, c ≠ '<' ∧ c ≠ '&' ∧ c ≠ '"' ∧ isXmlChar c = true)
    (hle : raw.length ≤ (normalize raw).length) : CleanAttr raw := by
  obtain ⟨heq, hc⟩ := h (le_antisymm hle (normalize_length raw))
  have hs : ∀ c ∈ raw, isS c = true → c = ' ' := by
    intro c hm hs
    rw [heq, List.mem_map] at hm
    obtain ⟨d, -, hd⟩ := hm
    split at hd
    · exact hd.symm
    · rename_i hn; rw [hd] at hn; exact absurd hs hn
  have hr : '\r' ∉ raw := fun hm => absurd (hs _ hm (by decide)) (by decide)
  rw [normalize_eq hr] at hc
  exact fun c hm => ⟨(hc c hm).1, (hc c hm).2.1, (hc c hm).2.2.1, (hc c hm).2.2.2, hs c hm⟩

end Lib.Xml
