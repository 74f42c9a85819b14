/-
  The names, references and attributes of XML 1.0 (fifth edition).  The
  bracketed numbers are those of its productions; a text is the characters of a
  document, with its line ends normalized.

  Every reader returns what it has read and what is left.  No entity is declared
  but the predefined ones: a document type declaration is nothing these modules
  read.

  * `value_spec`: an attribute value is never read as more than what is written,
    and as much only if nothing in it is markup;
  * `attributes_length`: the attributes of a tag are not written shorter than
    their weights.
-/
import Mathlib.Algebra.BigOperators.Group.List.Basic
import Mathlib.Algebra.Order.Ring.Nat
import Mathlib.Data.List.TakeWhile
import Upnp.Lib.Search

namespace Lib.Xml

abbrev Text := List Char

/-! ## Characters and names -/

/-- [2] `Char`: the surrogates are no `Char` of Lean either. -/
def isXmlChar (c : Char) : Bool :=
  c = '\t' || c = '\n' || c = '\r' || (' ' ≤ c && c.toNat ≠ 0xFFFE && c.toNat ≠ 0xFFFF)

theorem isXmlChar_of_isDigit {c : Char} (h : c.isDigit = true) : isXmlChar c = true := by
  simp only [Char.isDigit, Bool.and_eq_true, decide_eq_true_eq, ge_iff_le] at h
  have h₁ : 48 ≤ c.toNat := h.1
  have h₂ : c.toNat ≤ 57 := h.2
  have h₃ : ' ' ≤ c := Char.le_def.2 (UInt32.le_iff_toNat_le.2 (le_trans (by decide) h₁))
  have h₄ : c.toNat ≠ 0xFFFE ∧ c.toNat ≠ 0xFFFF := by omega
  simp [isXmlChar, h₃, h₄]

/-- [3] `S` -/
def isS (c : Char) : Bool := c = ' ' || c = '\t' || c = '\n' || c = '\r'

def inRanges (ranges : List (ℕ × ℕ)) (c : Char) : Bool :=
  ranges.any fun r => r.1 ≤ c.toNat && c.toNat ≤ r.2

/-- [4] `NameStartChar` -/
def isNameStart (c : Char) : Bool :=
  c = ':' || c = '_' || c.isAlpha || inRanges
    [(0xC0, 0xD6), (0xD8, 0xF6), (0xF8, 0x2FF), (0x370, 0x37D), (0x37F, 0x1FFF), (0x200C, 0x200D),
      (0x2070, 0x218F), (0x2C00, 0x2FEF), (0x3001, 0xD7FF), (0xF900, 0xFDCF), (0xFDF0, 0xFFFD),
      (0x10000, 0xEFFFF)] c

/-- [4a] `NameChar` -/
def isNameChar (c : Char) : Bool :=
  isNameStart c || c = '-' || c = '.' || c.isDigit ||
    inRanges [(0xB7, 0xB7), (0x300, 0x36F), (0x203F, 0x2040)] c

/-- [5] `Name` -/
def isName : Text → Bool
  | [] => false
  | c :: n => isNameStart c && n.all isNameChar

/-- A name, and what is left after it. -/
def name : Text → Option (Text × Text)
  | [] => none
  | c :: r => if isNameStart c then some (c :: r.takeWhile isNameChar, r.dropWhile isNameChar)
      else none

def skipS (r : Text) : Text := r.dropWhile isS

/-! ## References and attribute values -/

/-- The value of some digits. -/
def digits (base : ℕ) (digit : Char → Option ℕ) (ds : Text) : Option ℕ :=
  if ds = [] then none
  else ds.foldl (fun n d => n.bind fun n => (digit d).map fun d => n * base + d) (some 0)

def decDigit (c : Char) : Option ℕ := if c.isDigit then some (c.toNat - '0'.toNat) else none

def hexDigit (c : Char) : Option ℕ :=
  if c.isDigit then some (c.toNat - '0'.toNat)
  else if 'a' ≤ c ∧ c ≤ 'f' then some (c.toNat - 'a'.toNat + 10)
  else if 'A' ≤ c ∧ c ≤ 'F' then some (c.toNat - 'A'.toNat + 10)
  else none

/-- The character with this number, if it is one of XML. -/
def charOf (n : ℕ) : Option Char :=
  if isXmlChar (Char.ofNat n) then some (Char.ofNat n) else none

/-- What stands between `&` and `;`: [66] `CharRef`, or one of the five
    predefined entities of [68] `EntityRef`.  No other entity is declared. -/
def entity : Text → Option Char
  | '#' :: 'x' :: ds => (digits 16 hexDigit ds).bind charOf
  | '#' :: ds => (digits 10 decDigit ds).bind charOf
  | ['l', 't'] => some '<'
  | ['g', 't'] => some '>'
  | ['a', 'm', 'p'] => some '&'
  | ['a', 'p', 'o', 's'] => some '\''
  | ['q', 'u', 'o', 't'] => some '"'
  | _ => none

/-- [67] `Reference`, after its `&`. -/
def reference (r : Text) : Option (Char × Text) :=
  (cut [';'] r).bind fun p => (entity p.1).map fun c => (c, p.2)

theorem reference_lt {r r' : Text} {c : Char} (h : reference r = some (c, r')) :
    r'.length < r.length := by
  simp only [reference, Option.bind_eq_some_iff, Option.map_eq_some_iff] at h
  obtain ⟨⟨x, y⟩, hp, _, _, he⟩ := h
  cases he
  exact (cut_append_lt (by simp) hp).2

/-- [10] `AttValue`, what stands between its quotes: references are replaced,
    and white space becomes blanks. -/
def value : Text → Option Text
  | [] => some []
  | c :: r =>
    if c = '&' then
      match _h : reference r with
      | some (d, r') => (value r').map (d :: ·)
      | none => none
    else if c ≠ '<' ∧ isXmlChar c = true then (value r).map ((if isS c then ' ' else c) :: ·)
    else none
termination_by r => r.length
decreasing_by
  · exact (reference_lt _h).trans (Nat.lt_succ_self _)
  · exact Nat.lt_succ_self _

/-- A quoted value, and what is left after it. -/
def attValue : Text → Option (Text × Text)
  | q :: r => if q = '"' ∨ q = '\'' then
      (cut [q] r).bind fun p => (value p.1).map fun v => (v, p.2) else none
  | [] => none

/-- [25] `Eq` -/
def eq (r : Text) : Option Text :=
  match skipS r with
  | '=' :: r => some (skipS r)
  | _ => none

/-- [41] `Attribute`: its name and its value. -/
def oneAttr (r : Text) : Option ((Text × Text) × Text) :=
  (name r).bind fun n => (eq n.2).bind fun r => (attValue r).map fun v => ((n.1, v.1), v.2)

/-- The least number of characters an attribute takes, with a blank before it. -/
def attrWeight (a : Text × Text) : ℕ := a.1.length + a.2.length + 4

theorem name_spec {r n r' : Text} (h : name r = some (n, r')) : r = n ++ r' ∧ n ≠ [] := by
  cases r with
  | nil => cases h
  | cons c r =>
    simp only [name, Option.ite_none_right_eq_some, Option.some.injEq, Prod.mk.injEq] at h
    obtain ⟨-, rfl, rfl⟩ := h
    exact ⟨by rw [List.cons_append, List.takeWhile_append_dropWhile], by simp⟩

theorem skipS_length (r : Text) : (skipS r).length ≤ r.length :=
  List.length_dropWhile_le ..

theorem value_cons {c : Char} {r : Text} (hc : c ≠ '&') : value (c :: r) =
    if c ≠ '<' ∧ isXmlChar c = true then (value r).map ((if isS c then ' ' else c) :: ·)
    else none := by
  rw [value, if_neg hc]

theorem value_amp {r : Text} : value ('&' :: r) =
    (reference r).bind fun p => (value p.2).map (p.1 :: ·) := by
  rw [value, if_pos rfl]
  split <;> rename_i h <;> rw [h] <;> rfl

/-- What a value is read as is never longer than what is written, and as long
    only without a reference. -/
theorem value_spec {r v : Text} (h : value r = some v) : v.length ≤ r.length ∧
    (v.length = r.length → v = r.map (fun c => if isS c then ' ' else c) ∧
      ∀ c ∈ r, c ≠ '&' ∧ c ≠ '<' ∧ isXmlChar c = true) := by
  induction hn : r.length using Nat.strong_induction_on generalizing r v with
  | _ n ih =>
    rcases r with _ | ⟨c, r⟩
    · rw [value] at h; cases h; simp_all
    · subst hn
      by_cases hc : c = '&'
      · subst hc
        rw [value_amp, Option.bind_eq_some_iff] at h
        obtain ⟨⟨d, r'⟩, hr, hv⟩ := h
        obtain ⟨w, hw, rfl⟩ := Option.map_eq_some_iff.1 hv
        have hlt := reference_lt hr
        have := (ih r'.length (by simp only [List.length_cons]; omega) hw rfl).1
        simp only [List.length_cons]
        exact ⟨by omega, fun he => by omega⟩
      · rw [value_cons hc, Option.ite_none_right_eq_some] at h
        obtain ⟨⟨hlt, hx⟩, hv⟩ := h
        obtain ⟨w, hw, rfl⟩ := Option.map_eq_some_iff.1 hv
        have := ih r.length (by simp) hw rfl
        simp only [List.length_cons, Nat.add_le_add_iff_right, Nat.add_right_cancel_iff,
          List.map_cons, List.cons.injEq, true_and, List.forall_mem_cons]
        exact ⟨this.1, fun he => ⟨(this.2 he).1, ⟨hc, hlt, hx⟩, (this.2 he).2⟩⟩

theorem attValue_length {r v r' : Text} (h : attValue r = some (v, r')) :
    r'.length + v.length + 2 ≤ r.length := by
  rcases r with _ | ⟨q, r⟩
  · cases h
  · simp only [attValue, Option.ite_none_right_eq_some, Option.bind_eq_some_iff,
      Option.map_eq_some_iff] at h
    obtain ⟨-, ⟨x, y⟩, hp, w, hw, he⟩ := h
    cases he
    obtain ⟨rfl, -⟩ := (cut_eq_some (by simp)).1 hp
    have := (value_spec hw).1
    simp only [List.length_cons, List.length_append, List.length_nil] at this ⊢
    omega

theorem eq_length {r r' : Text} (h : eq r = some r') : r'.length + 1 ≤ r.length := by
  unfold eq at h
  split at h
  · rename_i r₁ hr
    cases h
    have h₁ := skipS_length r
    have h₂ := skipS_length r₁
    rw [hr, List.length_cons] at h₁
    omega
  · cases h

theorem oneAttr_length {r r' : Text} {a : Text × Text} (h : oneAttr r = some (a, r')) :
    r'.length + attrWeight a ≤ r.length + 1 := by
  simp only [oneAttr, Option.bind_eq_some_iff, Option.map_eq_some_iff] at h
  obtain ⟨⟨n, r₁⟩, hn, r₂, he, ⟨v, r₃⟩, hv, hp⟩ := h
  cases hp
  have h₁ := congrArg List.length (name_spec hn).1
  have h₂ := eq_length he
  have h₃ := attValue_length hv
  rw [List.length_append] at h₁
  simp only [attrWeight] at h₂ ⊢
  omega

/-- The attributes of a tag, each after white space, and what is left after
    them and the white space there. -/
def attributes (r : Text) : Option (List (Text × Text) × Text) :=
  if (skipS r).length < r.length ∧ (skipS r).head?.any isNameStart = true then
    match _h : oneAttr (skipS r) with
    | some (a, r') => (attributes r').map fun p => (a :: p.1, p.2)
    | none => none
  else some ([], skipS r)
termination_by r.length
decreasing_by
  rename_i hs
  have := oneAttr_length _h
  simp only [attrWeight] at this
  omega

theorem attributes_cons {r : Text} (hs : (skipS r).length < r.length)
    (hn : (skipS r).head?.any isNameStart = true) :
    attributes r = (oneAttr (skipS r)).bind fun p =>
      (attributes p.2).map fun q => (p.1 :: q.1, q.2) := by
  rw [attributes, if_pos ⟨hs, hn⟩]
  split <;> rename_i h <;> rw [h] <;> rfl

theorem attributes_length {r r' : Text} {as : List (Text × Text)}
    (h : attributes r = some (as, r')) : r'.length + (as.map attrWeight).sum ≤ r.length := by
  induction hn : r.length using Nat.strong_induction_on generalizing r as with
  | _ n ih =>
    by_cases hc : (skipS r).length < r.length ∧ (skipS r).head?.any isNameStart = true
    · rw [attributes_cons hc.1 hc.2, Option.bind_eq_some_iff] at h
      obtain ⟨⟨a, r₁⟩, ha, hm⟩ := h
      obtain ⟨⟨as₁, r₂⟩, has, he⟩ := Option.map_eq_some_iff.1 hm
      cases he
      have h₁ := oneAttr_length ha
      have h₂ := ih r₁.length (by simp only [attrWeight] at h₁; omega) has rfl
      simp only [List.map_cons, List.sum_cons] at h₂ ⊢
      omega
    · rw [attributes, if_neg hc] at h
      cases h
      have := skipS_length r
      rw [List.map_nil, List.sum_nil]
      omega

/-! ## What is written plainly -/

theorem name_append {n r : Text} {c : Char} (hn : isName n = true) (hc : isNameChar c = false) :
    name (n ++ c :: r) = some (n, c :: r) := by
  rcases n with _ | ⟨d, n⟩
  · cases hn
  · simp only [isName, Bool.and_eq_true, List.all_eq_true] at hn
    have ht : (n ++ c :: r).takeWhile isNameChar = n := by
      rw [List.takeWhile_append_of_pos hn.2, List.takeWhile_cons_of_neg (by simp [hc]),
        List.append_nil]
    have hd : (n ++ c :: r).dropWhile isNameChar = c :: r := by
      rw [List.dropWhile_append_of_pos hn.2, List.dropWhile_cons_of_neg (by simp [hc])]
    rw [List.cons_append, name, if_pos hn.1, ht, hd]

theorem skipS_cons {c : Char} {r : Text} (h : isS c = false) : skipS (c :: r) = c :: r :=
  List.dropWhile_cons_of_neg (by simp [h])

/-- A value that stands for itself between double quotes. -/
def CleanAttr (v : Text) : Prop :=
  ∀ c ∈ v, c ≠ '<' ∧ c ≠ '&' ∧ c ≠ '"' ∧ isXmlChar c = true ∧ (isS c = true → c = ' ')

instance : DecidablePred CleanAttr := fun v => List.decidableBAll _ v

theorem value_clean {v : Text} (h : CleanAttr v) : value v = some v := by
  induction v with
  | nil => rw [value]
  | cons c v ih =>
    obtain ⟨⟨h1, h2, -, h4, h5⟩, hv⟩ := List.forall_mem_cons.1 h
    have hs : (if isS c then ' ' else c) = c := by
      split
      · rename_i hs; exact (h5 hs).symm
      · rfl
    rw [value_cons h2, if_pos ⟨h1, h4⟩, ih hv, hs]
    rfl

theorem attValue_clean {v r : Text} (h : CleanAttr v) :
    attValue ('"' :: (v ++ '"' :: r)) = some (v, r) := by
  have hq : '"' ∉ v := fun hm => (h _ hm).2.2.1 rfl
  simp [attValue, cut_singleton_append hq, value_clean h]

/-- What is read from between the quotes is never longer than what was put
    there, and as long only if the quotes are these and nothing is markup. -/
theorem attValue_quoted {raw r r' v : Text}
    (h : attValue ('"' :: (raw ++ '"' :: r)) = some (v, r')) : v.length ≤ raw.length ∧
      (v.length = raw.length → r' = r ∧ v = raw.map (fun c => if isS c then ' ' else c) ∧
        ∀ c ∈ raw, c ≠ '<' ∧ c ≠ '&' ∧ c ≠ '"' ∧ isXmlChar c = true) := by
  simp only [attValue, true_or, if_true, Option.bind_eq_some_iff, Option.map_eq_some_iff] at h
  obtain ⟨⟨x, y⟩, hcut, w, hw, he⟩ := h
  cases he
  have hv := value_spec hw
  obtain ⟨heq, hx⟩ := cut_singleton_eq_some.1 hcut
  by_cases hq : '"' ∈ raw
  · -- the value ends at the first quote, which is inside `raw`
    obtain ⟨a, b, rfl, ha⟩ := List.eq_append_cons_of_mem hq
    rw [List.append_assoc, List.cons_append] at heq
    obtain ⟨rfl, -⟩ := cut_singleton_unique hx ha heq.symm
    have := hv.1
    simp only [List.length_append, List.length_cons] at this ⊢
    exact ⟨by omega, fun he => by omega⟩
  · obtain ⟨rfl, rfl⟩ := cut_singleton_unique hx hq heq.symm
    refine ⟨hv.1, fun he => ⟨rfl, (hv.2 he).1, ?_⟩⟩
    intro c hc
    have := (hv.2 he).2 c hc
    exact ⟨this.2.1, this.1, fun e => hq (e ▸ hc), this.2.2⟩

/-- ` k="v"` -/
def writeAttr (a : Text × Text) : Text := ' ' :: (a.1 ++ '=' :: '"' :: (a.2 ++ ['"']))

theorem attributes_nil : attributes [] = some ([], []) := by
  rw [attributes, if_neg (by simp [skipS])]
  rfl

theorem attributes_gt {r : Text} : attributes ('>' :: r) = some ([], '>' :: r) := by
  rw [attributes, if_neg (by simp [skipS_cons (show isS '>' = false by decide)]),
    skipS_cons (by decide)]

theorem attributes_slash {r : Text} : attributes ('/' :: r) = some ([], '/' :: r) := by
  rw [attributes, if_neg (by simp [skipS_cons (show isS '/' = false by decide)]),
    skipS_cons (by decide)]

theorem isS_of_isNameStart {c : Char} (h : isNameStart c = true) : isS c = false := by
  by_contra hs
  simp only [isS, Bool.not_eq_false, Bool.or_eq_true, decide_eq_true_eq] at hs
  rcases hs with ((rfl | rfl) | rfl) | rfl <;> exact absurd h (by decide)

/-- One more attribute: its name is read, and its value is what `attValue` reads. -/
theorem attributes_quoted {k r : Text} (hk : isName k = true) :
    attributes (' ' :: (k ++ '=' :: '"' :: r)) = (attValue ('"' :: r)).bind fun v =>
      (attributes v.2).map fun q => ((k, v.1) :: q.1, q.2) := by
  obtain ⟨c, k', rfl, hc⟩ : ∃ c k', k = c :: k' ∧ isNameStart c = true := by
    rcases k with _ | ⟨c, k'⟩
    · cases hk
    · simp only [isName, Bool.and_eq_true] at hk; exact ⟨c, k', rfl, hk.1⟩
  have hs : skipS (' ' :: (c :: k' ++ '=' :: '"' :: r)) = c :: k' ++ '=' :: '"' :: r := by
    rw [skipS, List.dropWhile_cons_of_pos (by decide), List.cons_append]
    exact skipS_cons (isS_of_isNameStart hc)
  have heq : eq ('=' :: '"' :: r) = some ('"' :: r) := by
    simp only [eq, skipS_cons (show isS '=' = false by decide),
      skipS_cons (show isS '"' = false by decide)]
  rw [attributes_cons (by rw [hs]; simp) (by rw [hs]; simpa using hc), hs, oneAttr,
    name_append hk (by decide)]
  simp only [Option.bind_some, heq, Option.bind_map]
  rfl

theorem attributes_write {as : List (Text × Text)} {r : Text}
    (ha : ∀ a ∈ as, isName a.1 = true ∧ CleanAttr a.2) :
    attributes (as.flatMap writeAttr ++ r) =
      (attributes r).map fun q => (as ++ q.1, q.2) := by
  induction as with
  | nil => simp
  | cons a as ih =>
    obtain ⟨⟨hk, hv⟩, has⟩ := List.forall_mem_cons.1 ha
    rw [List.flatMap_cons, List.append_assoc, writeAttr]
    simp only [List.cons_append, List.append_assoc, List.nil_append]
    rw [attributes_quoted hk, attValue_clean hv, Option.bind_some, ih has, Option.map_map]
    rfl

end Lib.Xml
