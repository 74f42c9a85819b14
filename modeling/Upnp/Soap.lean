/-
  The documents the operations send, and what an XML reader gets back.

  A reader gets back what was meant if it reads the element of the action, in
  the body of the envelope, with one child for each argument and its value:
  `soapTree`.

  * `request_reads_iff`: for the operations without free text;
  * `addPortMapping_reads_iff`: for `add_port_mapping`.
-/
import Mathlib.Data.List.Nodup
import Upnp.Igd
import Upnp.Lib.XmlRead

namespace Upnp

open Lib.Xml

/-! ## The envelope -/

/-- The `Envelope` element, open and empty. -/
def envelope : Elem where
  name := "s:Envelope".toList
  attrs :=
    [("xmlns:s".toList, "http://schemas.xmlsoap.org/soap/envelope/".toList),
      ("s:encodingStyle".toList, "http://schemas.xmlsoap.org/soap/encoding/".toList)]
  text := []
  children := []

/-- The `Body` element, open and empty. -/
def body : Elem := ⟨"s:Body".toList, [], [], []⟩

/-- The attribute of an action. -/
def actionAttrs (urn : Str) : List (Text × Text) := [("xmlns:u".toList, urn)]

/-- The element of an action. -/
def actionElem (urn name : Str) (args : List (Str × Str)) : Elem :=
  ⟨name, actionAttrs urn, [], args.map .leaf⟩

/-- What a reader has to get back. -/
def soapTree (urn name : Str) (args : List (Str × Str)) : Elem :=
  envelope.addChild (body.addChild (actionElem urn name args))

/-- What stands after the message. -/
def closing : Str := writeClose "s:Body".toList ++ writeClose "s:Envelope".toList

theorem xmlDecl_append (r : Str) :
    xmlDecl ("<?xml version=\"1.0\"?>".toList ++ r) = some r := by
  have hclean : ∀ a ∈ [("version".toList, "1.0".toList)], isName a.1 = true ∧ CleanAttr a.2 := by
    decide
  have hattr : attributes " version=\"1.0\"".toList =
      some ([("version".toList, "1.0".toList)], []) := by
    have h := attributes_write (r := []) hclean
    rw [attributes_nil] at h
    exact h
  have hcut : Lib.cut ['?', '>'] (" version=\"1.0\"".toList ++ ("?>".toList ++ r)) =
      some (" version=\"1.0\"".toList, r) := rfl
  have hdrop : ("<?xml version=\"1.0\"?>".toList ++ r).drop 5 =
      " version=\"1.0\"".toList ++ ("?>".toList ++ r) := rfl
  have hpre : ("<?xml".toList.isPrefixOf ("<?xml version=\"1.0\"?>".toList ++ r) &&
      (("<?xml version=\"1.0\"?>".toList ++ r).drop 5).head?.any isS) = true := rfl
  rw [xmlDecl, if_pos hpre, hdrop, hcut, Option.bind_some]
  simp only [hattr]
  rfl

theorem cleanAttrs_envelope : CleanAttrs envelope.attrs := by decide

/-- The document, by the tags in front of the message. -/
theorem soapBody_eq (m : Str) : soapBody m = "<?xml version=\"1.0\"?>".toList ++
    (writeOpen envelope.name envelope.attrs ++ '>' ::
      (writeOpen "s:Body".toList [] ++ '>' :: (m ++ closing))) := by
  rfl

theorem notMem_writeOpen_envelope :
    '\r' ∉ writeOpen envelope.name envelope.attrs ++
      '>' :: (writeOpen "s:Body".toList [] ++ ['>']) := by
  decide

/-- **Reading a document comes down to reading its message inside the body.** -/
theorem read_soapBody (m : Str) :
    readDocument (soapBody m) = readFrom body [envelope] (normalize m ++ closing) := by
  have hclose : normalize closing = closing := normalize_eq (by decide)
  have hnorm : normalize (soapBody m) = "<?xml version=\"1.0\"?>".toList ++
      (writeOpen envelope.name envelope.attrs ++ '>' ::
        (writeOpen "s:Body".toList [] ++ '>' :: (normalize m ++ closing))) := by
    have hmess : normalize (m ++ closing) = normalize m ++ closing :=
      (normalize_split (s := m) (c := '<') (by decide)).trans (congrArg _ hclose)
    rw [soapBody_eq, normalize_append (by decide)]
    congr 1
    have hopen := normalize_append (r := m ++ closing) notMem_writeOpen_envelope
    rw [hmess] at hopen
    simpa only [List.append_assoc, List.cons_append, List.nil_append] using hopen
  rw [readDocument, hnorm, xmlDecl_append, Option.bind_some,
    lex_next (next_start (by decide) cleanAttrs_envelope), Option.bind_map]
  have hp : prolog ∘ (fun x => Token.start envelope.name envelope.attrs :: x) =
      inside envelope [] := rfl
  rw [hp, ← readFrom, readFrom_start (by decide) cleanAttrs_nil]
  rfl

/-! ## The element of the action -/

section
variable {urn n m : Str} {args : List (Str × Str)}

/-- Whatever is read, the body of the envelope holds the element of the action. -/
theorem eq_of_extends {e : Elem} (h : Extends (body.addChild e) [envelope] (soapTree urn n args)) :
    e = actionElem urn n args := by
  obtain ⟨b, hb, he⟩ := h
  have hb' : [b] <+: [body.addChild (actionElem urn n args)] := he.children
  obtain rfl : b = body.addChild (actionElem urn n args) := by
    simpa [List.cons_prefix_cons] using hb'
  have he' : [e] <+: [actionElem urn n args] := hb.children
  simpa [List.cons_prefix_cons] using he'

/-- What closes the action, the body and the envelope ends the document. -/
theorem readFrom_closing {a : Elem} (hn : isName a.name = true) :
    readFrom a [body, envelope] (writeClose a.name ++ closing) =
      some (envelope.addChild (body.addChild a)) := by
  rw [readFrom_close hn, closing]
  have hbody : isName (body.addChild a).name = true := show isName body.name = true by decide
  have henv : isName (envelope.addChild (body.addChild a)).name = true :=
    show isName envelope.name = true by decide
  exact (readFrom_close hbody).trans (readFrom_end henv)

theorem notMem_of_isName (hn : isName n = true) : '\r' ∉ n := by
  rcases n with _ | ⟨c, n⟩
  · simp
  · simp only [isName, Bool.and_eq_true, List.all_eq_true] at hn
    simp only [List.mem_cons, not_or]
    exact ⟨by rintro rfl; exact absurd hn.1 (by decide), fun h => absurd (hn.2 _ h) (by decide)⟩

theorem normalize_action {c : Char} (hn : isName n = true) (hc : c ≠ '\r') :
    normalize (writeOpen n (actionAttrs urn) ++ c :: m) =
      writeOpen n [("xmlns:u".toList, normalize urn)] ++ c :: normalize m := by
  have hopen : '\r' ∉ '<' :: (n ++ (' ' :: ("xmlns:u".toList ++ ['=', '"']))) := by
    simp only [List.mem_cons, List.mem_append, not_or]
    exact ⟨by decide, notMem_of_isName hn, by decide, by decide, by decide⟩
  have h := normalize_append (r := urn ++ '"' :: c :: m) hopen
  rw [normalize_split (by decide), normalize_cons (.inl (by decide)), normalize_cons (.inl hc),
    if_neg (by decide), if_neg hc] at h
  simpa [writeOpen, writeAttr, actionAttrs] using h

/-- **If the element of the action is read back, its URN is no markup.** -/
theorem cleanAttr_of_read {c : Char} (hn : isName n = true) (hc : c ≠ '\r')
    (h : readDocument (soapBody (writeOpen n (actionAttrs urn) ++ c :: m)) =
      some (soapTree urn n args)) : CleanAttr urn := by
  rw [read_soapBody, normalize_action hn hc, List.append_assoc, List.cons_append] at h
  obtain ⟨v, q, e, -, hattrs, he, hle, hv⟩ := attr_of_readFrom hn (by decide) h
  rw [eq_of_extends he] at hattrs
  have heq : [("xmlns:u".toList, urn)] = ("xmlns:u".toList, v) :: q := hattrs
  obtain ⟨hurn, -⟩ := List.cons.inj heq
  obtain rfl : urn = v := (Prod.mk.inj hurn).2
  exact cleanAttr_of_eq hv hle

theorem cleanAttrs_action (hu : CleanAttr urn) : CleanAttrs (actionAttrs urn) := by
  refine ⟨List.nodup_singleton _, ?_⟩
  rintro a ha
  rw [List.mem_singleton.1 ha]
  exact ⟨show isName "xmlns:u".toList = true by decide, hu⟩

theorem notMem_of_cleanAttr (hu : CleanAttr urn) : '\r' ∉ urn :=
  fun h => absurd ((hu _ h).2.2.2.2 (by decide)) (by decide)

/-- The element of an action with a URN that is no markup is opened. -/
theorem read_action (hn : isName n = true) (hu : CleanAttr urn) :
    readDocument (soapBody (writeOpen n (actionAttrs urn) ++ '>' :: m)) =
      readFrom ⟨n, actionAttrs urn, [], []⟩ [body, envelope] (normalize m ++ closing) := by
  rw [read_soapBody, normalize_action hn (by decide),
    normalize_eq (notMem_of_cleanAttr hu), List.append_assoc, List.cons_append]
  exact readFrom_start hn (cleanAttrs_action hu)

/-- An action without arguments, written as an empty element. -/
theorem read_emptyAction (hn : isName n = true) (hu : CleanAttr urn) :
    readDocument (soapBody (writeOpen n (actionAttrs urn) ++ '/' :: '>' :: m)) =
      readFrom (body.addChild (actionElem urn n [])) [envelope] (normalize m ++ closing) := by
  rw [read_soapBody, normalize_action hn (by decide),
    normalize_eq (notMem_of_cleanAttr hu), normalize_cons (.inl (by decide)), if_neg (by decide),
    List.append_assoc, List.cons_append, List.cons_append]
  exact readFrom_empty hn (cleanAttrs_action hu)

/-! ## The arguments -/

/-- An argument with its name and value. -/
theorem cleanLeaf {k v : Str} (hk : isName k = true) (hv : CleanText v) : CleanLeaf (k, v) :=
  ⟨hk, hv⟩

/-- The arguments of an action, and its end. -/
def writeArgs (n : Str) (args : List (Str × Str)) : Str := args.flatMap writeLeaf ++ writeClose n

theorem notMem_writeLeaf {a : Str × Str} (ha : CleanLeaf a) : '\r' ∉ writeLeaf a := by
  have hn := notMem_of_isName ha.1
  have ht : '\r' ∉ a.2 := fun h => (ha.2.1 _ h).2.2.1 rfl
  simp [writeLeaf, writeOpen, writeClose, hn, ht]

theorem notMem_writeArgs (hn : isName n = true) (ha : ∀ a ∈ args, CleanLeaf a) :
    '\r' ∉ writeArgs n args := by
  have hn := notMem_of_isName hn
  simp only [writeArgs, List.mem_append, List.mem_flatMap, not_or, not_exists, not_and]
  exact ⟨fun a hm => notMem_writeLeaf (ha a hm), by simp [writeClose, hn]⟩

/-- **An action whose arguments are no markup is read back exactly if its URN is
    none either.** -/
theorem read_args_iff (hn : isName n = true) (ha : ∀ a ∈ args, CleanLeaf a) :
    readDocument (soapBody (writeOpen n (actionAttrs urn) ++ '>' :: writeArgs n args)) =
      some (soapTree urn n args) ↔ CleanAttr urn := by
  refine ⟨cleanAttr_of_read hn (by decide), ?_⟩
  intro hu
  rw [read_action hn hu, normalize_eq (notMem_writeArgs hn ha), writeArgs, List.append_assoc,
    readFrom_leaves ha]
  exact readFrom_closing hn

/-- The start of an action, by what the operations put together. -/
theorem writeAction_append (r : Str) : writeOpen n (actionAttrs urn) ++ r =
    '<' :: (n ++ (" xmlns:u=\"".toList ++ (urn ++ ('"' :: r)))) := by
  simp [writeOpen, actionAttrs, writeAttr]

theorem writeArgs_nil : writeArgs n [] = '<' :: '/' :: (n ++ ['>']) := rfl

theorem writeArgs_cons {a : Str × Str} : writeArgs n (a :: args) =
    '<' :: (a.1 ++ ('>' :: (a.2 ++ ('<' :: '/' :: (a.1 ++ ('>' :: writeArgs n args)))))) := by
  simp [writeArgs, writeLeaf, writeOpen, writeClose]

end

/-! ## The printed arguments -/

theorem cleanText_of_plain {t : Str} (h : ∀ c ∈ t, c.isDigit = true ∨ c = '-') : CleanText t := by
  have hdigit : ∀ c d : Char, c.isDigit = true → d.isDigit = false → c ≠ d := by
    rintro c d hc hd rfl
    rw [hc] at hd; cases hd
  have hall : ∀ c ∈ t, c ≠ '<' ∧ c ≠ '&' ∧ c ≠ '\r' ∧ c ≠ ']' ∧ isXmlChar c = true := by
    intro c hc
    rcases h c hc with hd | rfl
    · exact ⟨hdigit c _ hd (by decide), hdigit c _ hd (by decide), hdigit c _ hd (by decide),
        hdigit c _ hd (by decide), isXmlChar_of_isDigit hd⟩
    · decide
  refine ⟨?_, ?_⟩
  · intro c hc
    have := hall c hc
    exact ⟨this.1, this.2.1, this.2.2.1, this.2.2.2.2⟩
  · intro hi
    exact (hall ']' (hi.subset (by simp))).2.2.2.1 rfl

theorem cleanText_decimal (k : ℕ) : CleanText (decimal k) :=
  cleanText_of_plain fun _ hc => .inl (Nat.isDigit_of_mem_toDigits (by decide) (by decide) hc)

theorem cleanText_decimalInt (k : ℤ) : CleanText (decimalInt k) := by
  cases k with
  | ofNat k => exact cleanText_decimal k
  | negSucc k =>
    refine cleanText_of_plain ?_
    intro c hc
    rcases List.mem_cons.1 hc with rfl | hc
    · exact .inr rfl
    · exact .inl (Nat.isDigit_of_mem_toDigits (by decide) (by decide) hc)

theorem cleanText_print (p : Protocol) : CleanText p.print := by
  cases p <;> decide

/-! ## The operations without free text -/

/-- A call of one of the operations whose arguments are numbers and protocols. -/
inductive Request where
  | getExternalAddress
  | getGenericPortMappingEntry (index : ℕ)
  | getListOfPortMappings (proto : Protocol) (minPort maxPort maxCount : ℕ)
  | deletePortMapping (proto : Protocol) (extPort : ℕ)
  deriving DecidableEq, Repr

namespace Request

/-- The qualified name of the action. -/
def action : Request → Str
  | getExternalAddress => "u:GetExternalIPAddress".toList
  | getGenericPortMappingEntry _ => "u:GetGenericPortMappingEntry".toList
  | getListOfPortMappings .. => "u:GetListOfPortMappings".toList
  | deletePortMapping .. => "u:DeletePortMapping".toList

/-- The arguments that are passed. -/
def args : Request → List (Str × Str)
  | getExternalAddress => []
  | getGenericPortMappingEntry index => [("NewPortMappingIndex".toList, decimal index)]
  | getListOfPortMappings proto minPort maxPort maxCount =>
    [("NewStartPort".toList, decimal minPort), ("NewEndPort".toList, decimal maxPort),
      ("NewProtocol".toList, proto.print), ("NewNumberOfPorts".toList, decimal maxCount)]
  | deletePortMapping proto extPort =>
    [("NewProtocol".toList, proto.print), ("NewExternalPort".toList, decimal extPort),
      ("NewRemoteHost".toList, [])]

/-- The message the operation sends. -/
def message (urn : Str) : Request → Str
  | getExternalAddress => Igd.getExternalAddressBody urn
  | getGenericPortMappingEntry index => Igd.getGenericPortMappingEntryBody urn index
  | getListOfPortMappings proto minPort maxPort maxCount =>
    Igd.getListOfPortMappingsBody urn proto minPort maxPort maxCount
  | deletePortMapping proto extPort => Igd.deletePortMappingBody urn proto extPort

theorem isName_action (rq : Request) : isName rq.action = true := by
  cases rq
  · exact show isName "u:GetExternalIPAddress".toList = true by decide
  · exact show isName "u:GetGenericPortMappingEntry".toList = true by decide
  · exact show isName "u:GetListOfPortMappings".toList = true by decide
  · exact show isName "u:DeletePortMapping".toList = true by decide

theorem cleanLeaf_args (rq : Request) : ∀ a ∈ rq.args, CleanLeaf a := by
  cases rq with
  | getExternalAddress => exact nofun
  | getGenericPortMappingEntry index =>
    exact List.forall_mem_singleton.2 (cleanLeaf (by decide) (cleanText_decimal index))
  | getListOfPortMappings proto minPort maxPort maxCount =>
    simp only [args, List.forall_mem_cons]
    exact ⟨cleanLeaf (by decide) (cleanText_decimal _), cleanLeaf (by decide) (cleanText_decimal _),
      cleanLeaf (by decide) (cleanText_print _), cleanLeaf (by decide) (cleanText_decimal _), nofun⟩
  | deletePortMapping proto extPort =>
    simp only [args, List.forall_mem_cons]
    exact ⟨cleanLeaf (by decide) (cleanText_print _), cleanLeaf (by decide) (cleanText_decimal _),
      cleanLeaf (by decide) (by decide), nofun⟩

variable {urn : Str}

theorem message_getExternalAddress : message urn getExternalAddress =
    writeOpen getExternalAddress.action (actionAttrs urn) ++ '/' :: '>' :: [] := by
  rw [writeAction_append]
  rfl

theorem message_getGenericPortMappingEntry (index : ℕ) :
    let rq := getGenericPortMappingEntry index
    rq.message urn =
      writeOpen rq.action (actionAttrs urn) ++ '>' :: writeArgs rq.action rq.args := by
  simp only [args, writeAction_append, writeArgs_cons, writeArgs_nil]
  rfl

set_option maxRecDepth 2000 in
theorem message_getListOfPortMappings (proto : Protocol) (minPort maxPort maxCount : ℕ) :
    let rq := getListOfPortMappings proto minPort maxPort maxCount
    rq.message urn =
      writeOpen rq.action (actionAttrs urn) ++ '>' :: writeArgs rq.action rq.args := by
  simp only [args, writeAction_append, writeArgs_cons, writeArgs_nil]
  rfl

/-- The arguments of `DeletePortMapping` stand after its element. -/
theorem message_deletePortMapping (proto : Protocol) (extPort : ℕ) :
    let rq := deletePortMapping proto extPort
    rq.message urn =
      writeOpen rq.action (actionAttrs urn) ++ '/' :: '>' :: writeArgs rq.action rq.args := by
  simp only [args, writeAction_append, writeArgs_cons, writeArgs_nil]
  rfl

end Request

/-- The document of `delete_port_mapping` is not well-formed: the end tag of its
    action closes an element that is closed already. -/
theorem deletePortMapping_illFormed {urn : Str} (hu : CleanAttr urn) (proto : Protocol)
    (extPort : ℕ) :
    readDocument (soapBody ((Request.deletePortMapping proto extPort).message urn)) = none := by
  have hn := (Request.deletePortMapping proto extPort).isName_action
  have ha := (Request.deletePortMapping proto extPort).cleanLeaf_args
  rw [Request.message_deletePortMapping, read_emptyAction hn hu,
    normalize_eq (notMem_writeArgs hn ha), writeArgs, List.append_assoc, readFrom_leaves ha]
  exact readFrom_close_ne hn (show "u:DeletePortMapping".toList ≠ body.name by decide)

/-- **The documents of the operations without free text are read back as they are
    meant, exactly if the URN is no markup and the operation is not
    `delete_port_mapping`.** -/
theorem request_reads_iff (urn : Str) (rq : Request) :
    readDocument (soapBody (rq.message urn)) = some (soapTree urn rq.action rq.args) ↔
      (∀ proto extPort, rq ≠ .deletePortMapping proto extPort) ∧ CleanAttr urn := by
  have hn := rq.isName_action
  have ha := rq.cleanLeaf_args
  cases rq with
  | getExternalAddress =>
    rw [Request.message_getExternalAddress]
    refine (Iff.intro (cleanAttr_of_read hn (by decide)) ?_).trans (and_iff_right nofun).symm
    intro hu
    rw [read_emptyAction hn hu]
    exact (readFrom_close (e := body.addChild _) (show isName body.name = true by decide)).trans
      (readFrom_end (e := envelope.addChild _) (show isName envelope.name = true by decide))
  | getGenericPortMappingEntry index =>
    rw [Request.message_getGenericPortMappingEntry, read_args_iff hn ha]
    exact (and_iff_right nofun).symm
  | getListOfPortMappings proto minPort maxPort maxCount =>
    rw [Request.message_getListOfPortMappings, read_args_iff hn ha]
    exact (and_iff_right nofun).symm
  | deletePortMapping proto extPort =>
    refine iff_of_false ?_ fun h => h.1 proto extPort rfl
    intro h
    have hu : CleanAttr urn := by
      rw [Request.message_deletePortMapping] at h
      exact cleanAttr_of_read hn (by decide) h
    rw [deletePortMapping_illFormed hu proto extPort] at h
    cases h

/-- The URN of a gateway, and a mapping of TCP port 80. -/
theorem deletePortMapping_not_read :
    let urn := "urn:schemas-upnp-org:service:WANIPConnection:1".toList
    let rq := Request.deletePortMapping .tcp 80
    readDocument (soapBody (rq.message urn)) = none ∧
      readDocument (soapBody (rq.message urn)) ≠ some (soapTree urn rq.action rq.args) := by
  have h := deletePortMapping_illFormed
    (show CleanAttr "urn:schemas-upnp-org:service:WANIPConnection:1".toList by decide) .tcp 80
  exact ⟨h, by rw [h]; exact nofun⟩

end Upnp
