/-
  Free text among the arguments of an action.

  `add_port_mapping` puts the description of a mapping into its document as it
  is.  What a reader gets back decides whether that was right.

  * `read_text_iff`: one argument of an action is read back exactly if it is no
    markup, when those after it are not empty;
  * `addPortMapping_reads_iff`: the description of a mapping.
-/
import Upnp.Soap

namespace Upnp

open Lib.Xml

section
variable {urn n k t : Str} {pre post : List (Str × Str)}

/-- The tags around a text of at least one character can not be shorter. -/
theorem weight_leaf {v : Str} (hv : v ≠ []) :
    (Elem.leaf (k, v)).weight = (writeLeaf (k, v)).length := by
  rw [Elem.weight_eq (.inl hv)]
  simp [Elem.leaf, Elem.openWeight, weights, writeLeaf, writeOpen, writeClose]
  omega

theorem weights_leaves (hp : ∀ a ∈ post, a.2 ≠ []) :
    weights (post.map .leaf) = (post.flatMap writeLeaf).length := by
  induction post with
  | nil => rfl
  | cons a post ih =>
    obtain ⟨ha, hp⟩ := List.forall_mem_cons.1 hp
    rw [List.map_cons, List.flatMap_cons, weights, ih hp, weight_leaf ha, List.length_append]

/-- What stands after the text `t` of the argument `k`. -/
def afterText (n k : Str) (post : List (Str × Str)) : Str :=
  writeClose k ++ (writeArgs n post ++ closing)

/-- The whole tree is as large as what is open in front of the text, the text,
    and what stands after it. -/
theorem weight_soapTree (ht : t ≠ []) (hp : ∀ a ∈ post, a.2 ≠ []) :
    openWeights ⟨k, [], t, []⟩ [⟨n, actionAttrs urn, [], pre.map .leaf⟩, body, envelope] +
        (afterText n k post).length =
      (soapTree urn n (pre ++ (k, t) :: post)).weight := by
  have hE : (soapTree urn n (pre ++ (k, t) :: post)).weight =
      envelope.openWeight + (body.openWeight +
        (actionElem urn n (pre ++ (k, t) :: post)).weight + (body.name.length + 3)) +
        (envelope.name.length + 3) := by
    rw [soapTree, Elem.weight_eq (.inr (by simp [Elem.addChild])), openWeight_addChild,
      Elem.weight_eq (.inr (by simp [Elem.addChild])), openWeight_addChild]
    rfl
  have hA : (actionElem urn n (pre ++ (k, t) :: post)).weight =
      (⟨n, actionAttrs urn, [], pre.map .leaf⟩ : Elem).openWeight + (writeLeaf (k, t)).length +
        (post.flatMap writeLeaf).length + (n.length + 3) := by
    rw [Elem.weight_eq (.inr (by simp [actionElem])), ← weight_leaf ht, ← weights_leaves hp]
    simp [actionElem, Elem.openWeight, weights_append, weights]
    omega
  have hclosing : closing.length = (body.name.length + 3) + (envelope.name.length + 3) := rfl
  rw [hE, hA]
  simp only [openWeights, List.map_cons, List.map_nil, List.sum_cons, List.sum_nil, afterText,
    writeArgs, writeLeaf, writeOpen, writeClose, List.length_append, List.length_cons, hclosing,
    Elem.openWeight, List.flatMap_nil, List.length_nil, weights]
  omega

/-- The element of the text has to be the argument that was meant. -/
theorem leaf_of_extends {e : Elem}
    (h : Extends ((⟨n, actionAttrs urn, [], pre.map .leaf⟩ : Elem).addChild e) [body, envelope]
      (soapTree urn n (pre ++ (k, t) :: post))) : e = .leaf (k, t) := by
  obtain ⟨a, ha, he⟩ := h
  have hchildren : pre.map .leaf ++ [e] <+: a.children := ha.children
  rw [eq_of_extends he] at hchildren
  simp only [actionElem, List.map_append, List.map_cons, List.prefix_append_right_inj,
    List.cons_prefix_cons] at hchildren
  exact hchildren.1

theorem writeArgs_text : writeArgs n (pre ++ (k, t) :: post) =
    pre.flatMap writeLeaf ++
      (writeOpen k [] ++ '>' :: (t ++ (writeClose k ++ writeArgs n post))) := by
  simp [writeArgs, writeLeaf]

theorem normalize_text (hn : isName n = true) (hk : isName k = true)
    (hpre : ∀ a ∈ pre, CleanLeaf a) (hpost : ∀ a ∈ post, CleanLeaf a) :
    normalize (writeArgs n (pre ++ (k, t) :: post)) ++ closing =
      pre.flatMap writeLeaf ++ (writeOpen k [] ++ '>' :: (normalize t ++ afterText n k post)) := by
  have hopen : '\r' ∉ pre.flatMap writeLeaf ++ (writeOpen k [] ++ ['>']) := by
    simp only [List.mem_append, List.mem_flatMap, not_or, not_exists, not_and]
    exact ⟨fun a hm => notMem_writeLeaf (hpre a hm),
      by simp [writeOpen, notMem_of_isName hk], by decide⟩
  have hafter : '\r' ∉ writeClose k ++ writeArgs n post := by
    rw [List.mem_append, not_or]
    exact ⟨by simp [writeClose, notMem_of_isName hk], notMem_writeArgs hn hpost⟩
  have h := normalize_append (r := t ++ (writeClose k ++ writeArgs n post)) hopen
  have ht : normalize (t ++ (writeClose k ++ writeArgs n post)) =
      normalize t ++ (writeClose k ++ writeArgs n post) := by
    conv_rhs => rw [← normalize_eq hafter]
    exact normalize_split (by decide)
  rw [ht] at h
  rw [writeArgs_text, afterText]
  simp only [List.append_assoc, List.cons_append, List.nil_append] at h ⊢
  rw [h]
  simp only [List.append_assoc, List.cons_append]

/-- **An argument with any text is read back, with all others, exactly if the text
    and the URN are no markup.**  The other arguments are none, and those after
    the text are not empty. -/
theorem read_text_iff (hn : isName n = true) (hk : isName k = true)
    (hpre : ∀ a ∈ pre, CleanLeaf a) (hpost : ∀ a ∈ post, CleanLeaf a ∧ a.2 ≠ []) :
    readDocument (soapBody (writeOpen n (actionAttrs urn) ++ '>' ::
      writeArgs n (pre ++ (k, t) :: post))) = some (soapTree urn n (pre ++ (k, t) :: post)) ↔
    CleanAttr urn ∧ CleanText t := by
  constructor
  · intro h
    have hu := cleanAttr_of_read hn (by decide) h
    refine ⟨hu, ?_⟩
    rcases eq_or_ne t [] with rfl | ht
    · decide
    rw [read_action hn hu, normalize_text hn hk hpre fun a ha => (hpost a ha).1,
      readFrom_leaves hpre, List.nil_append, readFrom_start hk cleanAttrs_nil] at h
    obtain ⟨heq, hv⟩ := verbatim_of_readFrom h
      (fun e he => by rw [leaf_of_extends he]; exact ⟨rfl, rfl⟩)
      (weight_soapTree ht fun a ha => (hpost a ha).2).le (normalize_length t)
    exact clean_of_verbatim hv (heq ▸ notMem_normalize t)
  · rintro ⟨hu, ht⟩
    refine (read_args_iff hn ?_).2 hu
    intro a ha
    rcases List.mem_append.1 ha with ha | ha
    · exact hpre a ha
    · rcases List.mem_cons.1 ha with rfl | ha
      · exact cleanLeaf hk ht
      · exact (hpost a ha).1

end

/-! ## The description of a mapping -/

/-- The arguments of `AddPortMapping` in front of the description. -/
def argsBefore (proto : Protocol) (externalPort internalPort : ℕ) (localIp : Str) :
    List (Str × Str) :=
  [("NewRemoteHost".toList, []), ("NewEnabled".toList, ['1']),
    ("NewExternalPort".toList, decimal externalPort), ("NewProtocol".toList, proto.print),
    ("NewInternalPort".toList, decimal internalPort), ("NewInternalClient".toList, localIp)]

/-- The arguments of `AddPortMapping`. -/
def addPortMappingArgs (proto : Protocol) (externalPort internalPort : ℕ)
    (localIp description : Str) (duration : ℤ) : List (Str × Str) :=
  argsBefore proto externalPort internalPort localIp ++
    [("NewPortMappingDescription".toList, description),
      ("NewLeaseDuration".toList, decimalInt duration)]

set_option maxRecDepth 4000 in
theorem addPortMappingBody_eq (urn : Str) (proto : Protocol) (externalPort internalPort : ℕ)
    (localIp description : Str) (duration : ℤ) :
    Igd.addPortMappingBody urn proto externalPort internalPort localIp description duration =
      writeOpen "u:AddPortMapping".toList (actionAttrs urn) ++ '>' ::
        writeArgs "u:AddPortMapping".toList
          (addPortMappingArgs proto externalPort internalPort localIp description duration) := by
  simp only [addPortMappingArgs, argsBefore, List.cons_append, List.nil_append, writeAction_append,
    writeArgs_cons, writeArgs_nil]
  rfl

theorem decimalInt_ne_nil (k : ℤ) : decimalInt k ≠ [] := by
  cases k with
  | ofNat k => exact Nat.toDigits_ne_nil
  | negSucc k => exact List.cons_ne_nil _ _

theorem addPortMapping_text_iff {urn localIp description : Str} {proto : Protocol}
    {externalPort internalPort : ℕ} {duration : ℤ} (hip : CleanText localIp) :
    readDocument (soapBody (Igd.addPortMappingBody urn proto externalPort internalPort localIp
        description duration)) =
      some (soapTree urn "u:AddPortMapping".toList (addPortMappingArgs proto externalPort
        internalPort localIp description duration)) ↔
    CleanAttr urn ∧ CleanText description := by
  rw [addPortMappingBody_eq]
  refine read_text_iff (by decide) (by decide) ?_ ?_
  · simp only [argsBefore, List.forall_mem_cons]
    exact ⟨cleanLeaf (by decide) (by decide), cleanLeaf (by decide) (by decide),
      cleanLeaf (by decide) (cleanText_decimal _), cleanLeaf (by decide) (cleanText_print _),
      cleanLeaf (by decide) (cleanText_decimal _), cleanLeaf (by decide) hip, nofun⟩
  · exact List.forall_mem_singleton.2
      ⟨cleanLeaf (by decide) (cleanText_decimalInt _), decimalInt_ne_nil _⟩

/-- **The document of `add_port_mapping` is read back as it is meant, exactly if
    the description and the URN are no markup.**  Asio prints an address in digits,
    letters, dots, colons and the name of a scope. -/
theorem addPortMapping_reads_iff {Address : Type} (env : Env Address)
    (hshow : ∀ a, CleanText (env.showAddress a)) (urn : Str) (proto : Protocol)
    (externalPort internalPort : ℕ) (localIp : Address) (description : Str) (duration : ℤ) :
    readDocument (soapBody (Igd.addPortMappingBody urn proto externalPort internalPort
        (env.showAddress localIp) description duration)) =
      some (soapTree urn "u:AddPortMapping".toList (addPortMappingArgs proto externalPort
        internalPort (env.showAddress localIp) description duration)) ↔
    CleanAttr urn ∧ CleanText description :=
  addPortMapping_text_iff (hshow localIp)

theorem addPortMapping_plain_read :
    let env := Env.oneHost fun _ => none
    let urn := "urn:schemas-upnp-org:service:WANIPConnection:1".toList
    readDocument (soapBody (Igd.addPortMappingBody urn .tcp 80 8080 (env.showAddress ())
        "web server".toList 0)) =
      some (soapTree urn "u:AddPortMapping".toList (addPortMappingArgs .tcp 80 8080
        (env.showAddress ()) "web server".toList 0)) :=
  (addPortMapping_reads_iff (.oneHost fun _ => none)
    (fun _ => show CleanText "192.168.0.1".toList by decide) _ _ _ _ _ _ _).2
    ⟨by decide, by decide⟩

/-- The description `R&D` makes the document another one, or none. -/
theorem addPortMapping_markup_not_read :
    let urn := "urn:schemas-upnp-org:service:WANIPConnection:1".toList
    readDocument (soapBody (Igd.addPortMappingBody urn .tcp 80 8080 "192.168.0.1".toList
        "R&D".toList 0)) ≠
      some (soapTree urn "u:AddPortMapping".toList (addPortMappingArgs .tcp 80 8080
        "192.168.0.1".toList "R&D".toList 0)) := by
  intro urn h
  have := (addPortMapping_text_iff (by decide)).1 h
  exact absurd this.2 (by decide)

end Upnp
