/-
  What `igd::discover` comes to, from the datagrams that its query has received.

  `Told` is what a response says, wherever the buffers of its location are.

  * `parse_told`: what a datagram says does not depend on where it is read to;
  * `outcome_of_run`: the outcome of a run that does not run into a fault is the one that
    belongs to all responses received in time, each USN once;
  * `same_outcome`: so the outcome does not depend on when the datagrams came in, on how
    long the descriptions took, or on what ran in between.

  `run_searched` is a run that finds a gateway, for both.
-/
import Upnp.Discovery
import Upnp.Rendering

namespace Upnp

open Lib

/-- What a response says. -/
structure Told where
  serviceType : Str
  usn : Str
  uuid : Str
  location : Str
  deriving DecidableEq, Repr

def Response.told (r : Response) : Told := ⟨r.serviceType, r.usn, r.uuid, r.location.1.buf⟩

/-! ## What a datagram says -/

/-- What a header line adds to what was said before it. -/
theorem headerField_told (al al' : Alloc) (key val lines : Str) {ret ret' : Response}
    (h : ret.told = ret'.told) :
    (headerField al key val lines ret).map Response.told =
      (headerField al' key val lines ret').map Response.told := by
  have hbuf : ∀ (al : Alloc) (r : Response), (if iequals key "LOCATION".toList
      then Location.ofParse (show Url.parse al val = some _ from rfl) (al 2)
      else r.location).1.buf =
        if iequals key "LOCATION".toList then val else r.location.1.buf := by
    intro al r
    split
    · exact Url.parseLocal_buf _ _
    · rfl
  simp only [Response.told, Told.mk.injEq] at h
  obtain ⟨hst, husn, huuid, hloc⟩ := h
  simp only [headerField_eq, Except.map, Response.told, hbuf, hst, husn, huuid, hloc]

theorem parseHeaders_told (al al' : Alloc) (lines : Str) {ret ret' : Response}
    (h : ret.told = ret'.told) :
    (parseHeaders al lines ret).map Response.told =
      (parseHeaders al' lines ret').map Response.told := by
  induction al, lines, ret using parseHeaders.induct generalizing al' ret' with
  | case1 al lines ret hl =>
    rw [parseHeaders_nil hl, parseHeaders_nil hl]
    exact congrArg Except.ok h
  | case2 al lines ret line rest hl hk =>
    rw [parseHeaders_end hl hk, parseHeaders_end hl hk]
    exact congrArg Except.ok h
  | case3 al lines ret line rest hl key val hk e hf =>
    rw [headerField_eq] at hf
    cases hf
  | case4 al lines ret line rest hl key val hk ret₁ hf ih =>
    have htold := headerField_told al al' key (trimSpaceSuffix (trimSpacePrefix val)) rest h
    obtain ⟨ret₂, hf'⟩ : ∃ ret₂, headerField al' key (trimSpaceSuffix (trimSpacePrefix val)) rest
        ret' = .ok ret₂ := ⟨_, headerField_eq al' _ _ _ ret'⟩
    rw [hf, hf'] at htold
    rw [parseHeaders_line hl hk hf, parseHeaders_line hl hk hf']
    exact ih _ (Except.ok.inj htold)

/-- **What a datagram says does not depend on where it is read to.** -/
theorem parse_told (al al' : Alloc) (t : Str) :
    (Response.parse al t).map Response.told = (Response.parse al' t).map Response.told := by
  have hempty : (⟨[], [], [], .empty (al 0)⟩ : Response).told =
      (⟨[], [], [], .empty (al' 0)⟩ : Response).told := rfl
  simp only [Response.parse]
  split
  · exact congrArg Except.ok hempty
  · split
    · split
      · split
        · exact parseHeaders_told _ _ _ hempty
        · rfl
      · rfl
    · rfl

namespace Query

/-- The datagrams that were received in time. -/
def datagrams (es : List Event) : List Str :=
  es.filterMap fun | .completed true _ ⟨none, data⟩ => some data | _ => none

/-- What an item says, if it says anything. -/
def tells (i : Item) : Option Told := (Item.response i).map Response.told

/-- The responses the query has to deliver: the first one of each USN. -/
def deliverable (es : List Event) : List Response := parsed (firsts Item.usn (arrivals es))

theorem tells_parse (al al' : Alloc) (t : Str) :
    tells (Response.parse al t) = tells (Response.parse al' t) := by
  have h := parse_told al al' t
  rcases hp : Response.parse al t with e | r
  · rcases hp' : Response.parse al' t with e' | r'
    · rfl
    · rw [hp, hp'] at h; cases h
  · rcases hp' : Response.parse al' t with e' | r'
    · rw [hp, hp'] at h; cases h
    · rw [hp, hp'] at h
      exact congrArg some (Except.ok.inj h)

/-- What has arrived says what the datagrams say. -/
theorem tells_arrivals (es : List Event) : (arrivals es).filterMap tells =
    (datagrams es).filterMap fun t => tells (Response.parse (fun _ => ⟨1, Int.one_pos⟩) t) := by
  rw [arrivals, datagrams, List.filterMap_filterMap, List.filterMap_filterMap]
  refine List.filterMap_congr fun e _ => ?_
  rcases e with ⟨_ | _, al, ⟨_ | ec, t⟩⟩ | _ | _ | _ | _
  case completed.true.none => exact tells_parse _ _ t
  all_goals rfl

/-- **What is to be delivered says what the datagrams say, each USN once.** -/
theorem told_deliverable (es : List Event) : (deliverable es).map Response.told =
    firsts (fun t => some t.usn) ((datagrams es).filterMap fun t =>
      tells (Response.parse (fun _ => ⟨1, Int.one_pos⟩) t)) := by
  have h := @firsts_filterMap _ _ _ _ Item.usn (arrivals es) tells Told.usn ?_
  · rw [← tells_arrivals, ← h, deliverable, parsed, List.map_filterMap]
    rfl
  · intro i
    rcases i with e | r <;> rfl

/-- Every malformed datagram is to be delivered. -/
theorem failed_firsts (l : List Item) : failed (firsts Item.usn l) = failed l := by
  refine filterMap_firsts ?_
  intro i e hi
  cases i with
  | ok r => cases hi
  | error e => rfl

end Query

namespace Igd

/-! ## Outcomes -/

section
variable {a : Addr} {fetch : Str → Option Device} {rsps rsps' : List Response} {ec : ErrorCode}

/-- The embedded devices that a response leads to depend on what it says. -/
theorem embeddedOf_told {rsp rsp' : Response} (h : rsp.told = rsp'.told) :
    embeddedOf fetch rsp = embeddedOf fetch rsp' := by
  have hbuf : rsp.location.1.buf = rsp'.location.1.buf := congrArg Told.location h
  have huuid : rsp.uuid = rsp'.uuid := congrArg Told.uuid h
  rw [embeddedOf, embeddedOf, hbuf, huuid]

theorem flatMap_embeddedOf (h : rsps.map Response.told = rsps'.map Response.told) :
    rsps.flatMap (embeddedOf fetch) = rsps'.flatMap (embeddedOf fetch) := by
  induction rsps generalizing rsps' with
  | nil => rw [eq_comm, List.map_eq_nil_iff.1 h.symm]
  | cons rsp rsps ih =>
    obtain ⟨rsp', rest, rfl, htold, hrest⟩ := List.map_eq_cons_iff.1 h.symm
    rw [List.flatMap_cons, List.flatMap_cons, ih hrest.symm, embeddedOf_told htold]

theorem exists_told (h : rsps.map Response.told = rsps'.map Response.told)
    (hn : ∃ rsp ∈ rsps, fetch rsp.location.1.buf = none) :
    ∃ rsp ∈ rsps', fetch rsp.location.1.buf = none := by
  obtain ⟨rsp, hr, hn⟩ := hn
  have hmem := List.mem_map_of_mem (f := Response.told) hr
  rw [h] at hmem
  obtain ⟨rsp', hr', htold⟩ := List.mem_map.1 hmem
  have hbuf : rsp'.location.1.buf = rsp.location.1.buf := congrArg Told.location htold
  exact ⟨rsp', hr', by rw [hbuf, hn]⟩

/-- **The outcome depends on what the responses say.** -/
theorem OutcomeIs.told {r : Except ErrorCode (List Igd)} (h : OutcomeIs a fetch rsps ec r)
    (ht : rsps.map Response.told = rsps'.map Response.told) : OutcomeIs a fetch rsps' ec r := by
  have hall : (∀ rsp ∈ rsps, fetch rsp.location.1.buf ≠ none) →
      ∀ rsp ∈ rsps', fetch rsp.location.1.buf ≠ none := by
    intro h rsp hr hn
    obtain ⟨rsp₀, hr₀, hn₀⟩ := exists_told ht.symm ⟨rsp, hr, hn⟩
    exact h rsp₀ hr₀ hn₀
  cases h with
  | failed h => exact .failed (exists_told ht h)
  | ended h he => exact .ended (hall h) (by rwa [← flatMap_embeddedOf ht])
  | found h he hne hmap => exact .found (hall h) he hne (by rwa [← flatMap_embeddedOf ht])

end

/-! ## The loop over items -/

section
variable {Address : Type} {env : Env Address} {al : ℕ → Alloc} {ts rest : List (Turn Address)}

/-- **Where the loop does not run into a fault, it fails at a description, or all the
    items were responses.** -/
theorem discoverLoop_items {found : Found} {r : Except ErrorCode (List Igd)}
    (hts : ∀ turn ∈ ts, ∃ i, turn.outcome = Query.outcome i)
    (h : discoverLoop env al (ts ++ rest) found = some (.ok r)) :
    (r = .error .ioError ∧ ∃ turn ∈ ts, turn.Fails env) ∨
    (∀ turn ∈ ts, ∃ rsp, turn.outcome = .ok (.ok rsp)) ∧
      ∃ found', discoverLoop env al rest found' = some (.ok r) := by
  induction ts generalizing found with
  | nil => exact .inr ⟨by simp, found, h⟩
  | cons turn ts ih =>
    obtain ⟨⟨i, hi⟩, hts⟩ := List.forall_mem_cons.1 hts
    rw [List.cons_append, Discovery.discoverLoop_cons] at h
    rcases i with e | rsp
    · simp only [Discovery.loopBody, hi, Query.outcome, value, Except.map] at h
      cases h
    · have ho : turn.outcome = .ok (.ok rsp) := hi
      rcases hq : queryRootDevice env turn.net turn.al rsp.location.1 with ec | rootDev
      · simp only [Discovery.loopBody, ho, hq] at h
        cases h
        exact .inl ⟨rfl, turn, List.mem_cons_self, rsp, ec, ho, hq⟩
      · rcases hadd : addRoot al rsp found rootDev with fault | found'
        · simp only [Discovery.loopBody, ho, hq, hadd] at h
          cases h
        · simp only [Discovery.loopBody, ho, hq, hadd] at h
          refine (ih hts h).imp ?_ ?_
          · rintro ⟨hr, t, ht, hf⟩
            exact ⟨hr, t, List.mem_cons_of_mem _ ht, hf⟩
          · rintro ⟨hall, hrest⟩
            exact ⟨List.forall_mem_cons.2 ⟨⟨rsp, ho⟩, hall⟩, hrest⟩

end

end Igd

namespace Discovery

open Igd

section
variable {Address : Type} {env : Env Address} {al al' : ℕ → Alloc} {s s' : Discovery}
  {as as' : List DiscoverAction} {es es' : List (DiscoverEvent Address)} {a : Addr}
  {fetch : Str → Option Device} {r r' : Except ErrorCode (List Igd)}

/-- Each of these outcomes is that of an item. -/
theorem exists_item_of_map {ts : List (Turn Address)} {items : List Item}
    (h : ts.map Turn.outcome = items.map Query.outcome) :
    ∀ turn ∈ ts, ∃ i, turn.outcome = Query.outcome i := by
  intro turn ht
  have hmem := List.mem_map_of_mem (f := Turn.outcome) ht
  rw [h] at hmem
  obtain ⟨i, -, hi⟩ := List.mem_map.1 hmem
  exact ⟨i, hi.symm⟩

theorem responses_outcome (items : List Item) :
    responses (items.map Query.outcome) = Query.parsed items := by
  rw [responses, Query.parsed, List.filterMap_map]
  refine List.filterMap_congr fun i _ => ?_
  cases i <;> rfl

theorem failed_of_responses {ts : List (Turn Address)} {items : List Item}
    (h : ts.map Turn.outcome = items.map Query.outcome)
    (hall : ∀ turn ∈ ts, ∃ rsp, turn.outcome = .ok (.ok rsp)) : Query.failed items = [] := by
  refine List.filterMap_eq_nil_iff.2 ?_
  intro i hi
  have hmem := List.mem_map_of_mem (f := Query.outcome) hi
  rw [← h] at hmem
  obtain ⟨turn, ht, ho⟩ := List.mem_map.1 hmem
  obtain ⟨rsp, hrsp⟩ := hall turn ht
  rw [hrsp] at ho
  cases i with
  | ok r => rfl
  | error e => cases ho

/-- How a run that does not run into a fault has come to `r`. -/
inductive Accounted (a : Addr) (fetch : Str → Option Device) (es : List (DiscoverEvent Address))
    (s : Discovery) (r : Except ErrorCode (List Igd)) : Prop
  | failed (hr : r = .error .ioError)
      (hf : ∃ rsp ∈ Query.deliverable (queryEvents es), fetch rsp.location.1.buf = none)
  | ended (ec : ErrorCode) (he : s.query.rxEc = some ec) (hq : s.query.responses = [])
      (hwell : Query.failed (Query.arrivals (queryEvents es)) = [])
      (hlast : ∃ turn ∈ turns es, turn.outcome = .ok (.error (.code ec)))
      (hout : OutcomeIs a fetch (Query.deliverable (queryEvents es)) ec r)

theorem accounted_of_run (h : (machine env al).Run as es s) (hr : s.phase = .returned (.ok r))
    (hf : FetchedBy env a fetch (turns es)) : Accounted a fetch es s r := by
  obtain ⟨taken, hfirsts, hturns⟩ := taken_of_run h
  have hd := discover_turns h
  rw [hr] at hd
  -- a response that fails is one of those to be delivered
  have hfail : ∀ ts : List (Turn Address), (∀ turn ∈ ts, turn ∈ turns es) →
      (∃ turn ∈ ts, turn.Fails env) → responses (ts.map Turn.outcome) = Query.parsed taken →
      ∃ rsp ∈ Query.deliverable (queryEvents es), fetch rsp.location.1.buf = none := by
    intro ts hsub hts hrsps
    obtain ⟨rsp, hrsp, hn⟩ :=
      (exists_fails_iff fun turn ht => hf turn (hsub turn ht)).1 hts
    refine ⟨rsp, ?_, hn⟩
    rw [hrsps] at hrsp
    rw [Query.deliverable, hfirsts, Query.parsed, List.filterMap_append]
    exact List.mem_append_left _ hrsp
  rcases hturns with hitems | ⟨ec, hq, he, -, hend⟩
  · rw [hr] at hitems
    have hitems : (turns es).map Turn.outcome = taken.map Query.outcome := by
      simpa [Phase.pending] using hitems
    have hloop : discoverLoop env al (turns es ++ []) ⟨∅, []⟩ = some (.ok r) := by
      rw [List.append_nil]; exact hd
    rcases discoverLoop_items (exists_item_of_map hitems) hloop with ⟨hio, hts⟩ | ⟨-, found, hn⟩
    · exact .failed hio (hfail _ (fun _ h => h) hts (by rw [hitems, responses_outcome]))
    · cases hn
  · obtain ⟨ts, last, hts, hitems, hlast⟩ := List.map_eq_append_iff.1 hend
    obtain ⟨last, rfl, hcode⟩ := List.map_eq_singleton_iff.1 hlast
    have hsub : ∀ turn ∈ ts, turn ∈ turns es := by
      intro turn ht
      rw [hts]
      exact List.mem_append_left _ ht
    rw [hts, discover] at hd
    rcases discoverLoop_items (exists_item_of_map hitems) hd with ⟨hio, hfails⟩ | ⟨hall, -⟩
    · exact .failed hio (hfail ts hsub hfails (by rw [hitems, responses_outcome]))
    · have harrive : ∀ turn ∈ ts, turn.Arrives := fun turn ht => .inl (hall turn ht)
      obtain ⟨r₀, hr₀, hout⟩ := discover_outcome al harrive
        (fun turn ht => hf turn (hsub turn ht)) hcode
      rw [discover, hd] at hr₀
      cases hr₀
      rw [hq, List.append_nil] at hfirsts
      refine .ended ec he hq ?_ ⟨last, ?_, hcode⟩ ?_
      · rw [← Query.failed_firsts, hfirsts]
        exact failed_of_responses hitems hall
      · rw [hts]
        exact List.mem_append_right _ List.mem_cons_self
      · rwa [hitems, responses_outcome, ← hfirsts] at hout

/-- **The outcome that belongs to what the query has received.**  A run that does not run
    into a fault fails at a description, or the query has ended, all its responses have
    been looked at, and none of the datagrams was malformed. -/
theorem outcome_of_run (h : (machine env al).Run as es s) (hr : s.phase = .returned (.ok r))
    (hf : FetchedBy env a fetch (turns es)) :
    (r = .error .ioError ∧
      ∃ rsp ∈ Query.deliverable (queryEvents es), fetch rsp.location.1.buf = none) ∨
    ∃ ec, s.query.rxEc = some ec ∧ s.query.responses = [] ∧
      Query.failed (Query.arrivals (queryEvents es)) = [] ∧
      (∃ turn ∈ turns es, turn.outcome = .ok (.error (.code ec))) ∧
      OutcomeIs a fetch (Query.deliverable (queryEvents es)) ec r := by
  cases accounted_of_run h hr hf with
  | failed hio hfail => exact .inl ⟨hio, hfail⟩
  | ended ec he hq hwell hlast hout => exact .inr ⟨ec, he, hq, hwell, hlast, hout⟩

end

/-! ## A search -/

/-- The document of a gateway with one WAN device. -/
def wanText : Str := (Doc.root (igdDoc [wanDoc "uuid:1".toList])).text

/-- `read_xml` reads that document; `readXml` is for all others. -/
def searchEnv (readXml : Str → Option Ptree) : Env Unit := .oneHost fun s =>
  if s = wanText then some (Doc.root (igdDoc [wanDoc "uuid:1".toList])).tree else readXml s

def searchMachine (readXml : Str → Option Ptree) :
    Machine Discovery DiscoverAction (DiscoverEvent Unit) :=
  machine (searchEnv readXml) fun _ _ => ⟨1, Int.one_pos⟩

/-- A response arrives. -/
def arriving : List Action :=
  [.rxStart, .receive ⟨none, Rendering.fourHeaders.text⟩, .rxResume fun _ => ⟨1, Int.one_pos⟩]

/-- Nobody else answers. -/
def timingOut : List Action :=
  [.timer, .receive ⟨some .operationAborted, []⟩, .rxResume fun _ => ⟨1, Int.one_pos⟩]

/-- The response has arrived; then its description is fetched, and the time is over. -/
def searched : List DiscoverAction :=
  let al : Alloc := fun _ => ⟨1, Int.one_pos⟩
  arriving.map .background ++
    ([.call, .io .done al, .io .done al, .io (.response ⟨200, wanText⟩) al] ++
      (timingOut.map .background ++ [.call]))

/-- `discover` waits for the response, and fetches its description until after the time
    is over. -/
def searchedLate : List DiscoverAction :=
  let al : Alloc := fun _ => ⟨1, Int.one_pos⟩
  [.call] ++ (arriving.map .background ++ ([.wake, .io .done al] ++ (timingOut.map .background ++
    [.io .done al, .io (.response ⟨200, wanText⟩) al, .call])))

/-- The turn in which the description of `rsp` is fetched. -/
def wanTurn (rsp : Response) : Turn Unit :=
  ⟨.ok (.ok rsp), describing [wanDoc "uuid:1".toList], fun _ => ⟨1, Int.one_pos⟩⟩

/-- The query in which `rsp` has arrived, with these calls woken. -/
def arrived (rsp : Response) (cs : List Call) (w : Finset Call) : Query :=
  { Query.start with
    responses := [.ok rsp], alreadySeenUsns := {rsp.usn}, posted := cs, suspended := w
    rx := .receiving, timer := .armed }

/-- The query in which `rsp` has been taken. -/
def looked (rsp : Response) : Query :=
  { Query.start with alreadySeenUsns := {rsp.usn}, rx := .receiving, timer := .armed }

/-- The same, when the time is over. -/
def ended (rsp : Response) : Query :=
  { looked rsp with
    rxEc := some .timedOut, socketOpen := false, rx := .finished, timer := .done }

section
variable {readXml : Str → Option Ptree} {rsp : Response} {rest : Str} {found : Found} {p : Phase}
  {q q' : Query} {qs : List Event}

theorem queryRootDevice_wan (he : consumeEndpoint (searchEnv readXml).makeAddress
    rsp.location.1.hostAndPort = some (⟨(), 5000⟩, rest)) :
    queryRootDevice (searchEnv readXml) (describing [wanDoc "uuid:1".toList])
      (fun _ => ⟨1, Int.one_pos⟩) rsp.location.1 = .ok (localRoot [wanDoc "uuid:1".toList]).2 := by
  refine queryRootDevice_describing ?_ he
  have htext : (Doc.root (igdDoc [wanDoc "uuid:1".toList])).text = wanText := rfl
  simp only [searchEnv, Env.oneHost, htext, if_true]

/-- That description has a gateway. -/
theorem addRoot_wan (he : consumeEndpoint (searchEnv readXml).makeAddress
    rsp.location.1.hostAndPort = some (⟨(), 5000⟩, rest)) :
    ∃ found : Found, addRoot (fun _ _ => ⟨1, Int.one_pos⟩) rsp ⟨∅, []⟩
      (localRoot [wanDoc "uuid:1".toList]).2 = .ok found ∧ found.igds ≠ [] := by
  obtain ⟨found, hfound, hholds⟩ := addRoot_spec (fun _ _ => ⟨1, Int.one_pos⟩)
    (consumeEndpoint_colon he) Found.holds_nil (localRoot [wanDoc "uuid:1".toList]).2
  obtain ⟨device, -, htype, hdevice⟩ := candidates_wan "uuid:1".toList
  obtain ⟨hne, hc⟩ := hdevice rsp
  refine ⟨found, hfound, fun hnil => hne ?_⟩
  have hwan : Candidate.isWan ⟨rsp, "1".toList, device⟩ = true := decide_eq_true htype
  have higds := hholds.igds
  rw [List.nil_append, hc, firsts_singleton, List.filter_cons_of_pos hwan, List.filter_nil,
    List.flatMap_singleton, hnil] at higds
  exact higds.symm

theorem run_background {as : List Action} (has : ∀ a ∈ as, a.ofHandlers = true)
    (h : Query.machine.RunFrom q as qs q') :
    (searchMachine readXml).RunFrom ⟨q, p, found⟩ (as.map .background) (qs.map .query)
      ⟨q', p, found⟩ := by
  induction as generalizing q qs with
  | nil =>
    obtain ⟨rfl, rfl⟩ := Machine.runFrom_nil.1 h
    exact Machine.runFrom_nil.2 ⟨rfl, rfl⟩
  | cons a as ih =>
    obtain ⟨ha, has⟩ := List.forall_mem_cons.1 has
    obtain ⟨q₁, qs₁, qs₂, hstep, hrun, rfl⟩ := Machine.runFrom_cons.1 h
    have hstep : q.step a = some (q₁, qs₁) := hstep
    refine Machine.runFrom_cons.2 ⟨⟨q₁, p, found⟩, qs₁.map .query, qs₂.map .query, ?_, ih has hrun,
      List.map_append⟩
    simp only [searchMachine, machine, step, ha, if_true, hstep, Option.map_some]

theorem run_arriving (cs : List Call) (w : Finset Call)
    (hp : Response.parse (fun _ => ⟨1, Int.one_pos⟩) Rendering.fourHeaders.text = .ok rsp) :
    Query.machine.RunFrom { Query.start with cv := cs, suspended := w } arriving
      [.completed true (fun _ => ⟨1, Int.one_pos⟩) ⟨none, Rendering.fourHeaders.text⟩,
        .pushed (.ok rsp)] (arrived rsp cs w) := by
  have hreceive : Query.machine.RunFrom { Query.start with cv := cs, suspended := w }
      (arriving.take 2) [] { Query.start with
        cv := cs, suspended := w
        rx := .resuming ⟨none, Rendering.fourHeaders.text⟩, timer := .armed } := rfl
  refine hreceive.snoc ?_
  simp only [Query.machine, Query.step, Query.rxLoop, Query.rxEcAfter, Query.take, hp]
  rfl

theorem run_timingOut (rsp : Response) : Query.machine.RunFrom (looked rsp) timingOut
    [.completed false (fun _ => ⟨1, Int.one_pos⟩) ⟨some .operationAborted, []⟩] (ended rsp) := rfl

/-- `discover` is given the response, whether it waits for it or not. -/
theorem step_got (he : consumeEndpoint (searchEnv readXml).makeAddress
    rsp.location.1.hostAndPort = some (⟨(), 5000⟩, rest)) :
    let es := [.query (.popped 0 (.ok rsp)), .query (.returned 0 (.ok (.ok rsp)))]
    (searchMachine readXml).step ⟨arrived rsp [] ∅, .calling, found⟩ .call =
        some (⟨looked rsp, .fetching rsp .connect, found⟩, es) ∧
      (searchMachine readXml).step ⟨arrived rsp [0] {0}, .waiting, found⟩ .wake =
        some (⟨looked rsp, .fetching rsp .connect, found⟩, es) := by
  have hgot : got (searchEnv readXml) (fun _ _ => ⟨1, Int.one_pos⟩) (.ok (.ok rsp))
      ⟨looked rsp, .calling, found⟩ = (⟨looked rsp, .fetching rsp .connect, found⟩, []) := by
    simp only [got, he]
  have hgot' : got (searchEnv readXml) (fun _ _ => ⟨1, Int.one_pos⟩) (.ok (.ok rsp))
      ⟨looked rsp, .waiting, found⟩ = (⟨looked rsp, .fetching rsp .connect, found⟩, []) := by
    simp only [got, he]
  exact ⟨congrArg some (congrArg (fun r => (r.1, _ ++ r.2)) hgot),
    congrArg some (congrArg (fun r => (r.1, _ ++ r.2)) hgot')⟩

/-- The description has been read. -/
theorem step_read (he : consumeEndpoint (searchEnv readXml).makeAddress
      rsp.location.1.hostAndPort = some (⟨(), 5000⟩, rest))
    (hadd : addRoot (fun _ _ => ⟨1, Int.one_pos⟩) rsp ⟨∅, []⟩
      (localRoot [wanDoc "uuid:1".toList]).2 = .ok found) (q : Query) :
    (searchMachine readXml).step ⟨q, .fetching rsp .read, ⟨∅, []⟩⟩
        (.io (.response ⟨200, wanText⟩) fun _ => ⟨1, Int.one_pos⟩) =
      some (⟨q, .calling, found⟩, [.turn (wanTurn rsp)]) := by
  have hbody : loopBody (searchEnv readXml) (fun _ _ => ⟨1, Int.one_pos⟩) (wanTurn rsp) ⟨∅, []⟩ =
      .inl found := by
    simp only [loopBody, wanTurn, queryRootDevice_wan he, hadd]
  have hadvance : (⟨q, .fetching rsp .read, ⟨∅, []⟩⟩ : Discovery).advance (searchEnv readXml)
      (fun _ _ => ⟨1, Int.one_pos⟩) (wanTurn rsp) =
        (⟨q, .calling, found⟩, [.turn (wanTurn rsp)]) := by
    simp only [advance, hbody]
  exact congrArg some hadvance

/-- `discover` is told that the time is over. -/
theorem step_ended (readXml : Str → Option Ptree) (rsp : Response) (hne : found.igds ≠ []) : ∃ s,
    (searchMachine readXml).step ⟨ended rsp, .calling, found⟩ .call =
      some (s, [.query (.returned 0 (.ok (.error (.code .timedOut)))),
        .turn (unsent (.ok (.error (.code .timedOut))))]) ∧
    s.phase = .returned (.ok (.ok found.igds)) := by
  have hbody : loopBody (searchEnv readXml) (fun _ _ => ⟨1, Int.one_pos⟩)
      (unsent (.ok (.error (.code .timedOut)))) found = .inr (.ok (.ok found.igds)) :=
    if_pos ⟨rfl, hne⟩
  have hadvance : (⟨ended rsp, .calling, found⟩ : Discovery).advance (searchEnv readXml)
      (fun _ _ => ⟨1, Int.one_pos⟩) (unsent (.ok (.error (.code .timedOut)))) =
        (finish (.ok (.ok found.igds)) ⟨ended rsp, .calling, found⟩,
          [.turn (unsent (.ok (.error (.code .timedOut))))]) := by
    simp only [advance, hbody]
  exact ⟨_, congrArg some (congrArg (fun r => (r.1, _ ++ r.2)) hadvance), rfl⟩

/-- What both runs have received and fetched. -/
structure Searched (es : List (DiscoverEvent Unit)) (rsp : Response) : Prop where
  turns : turns es = [wanTurn rsp, unsent (.ok (.error (.code .timedOut)))]
  datagrams : Query.datagrams (queryEvents es) = [Rendering.fourHeaders.text]

theorem run_early
    (hp : Response.parse (fun _ => ⟨1, Int.one_pos⟩) Rendering.fourHeaders.text = .ok rsp)
    (he : consumeEndpoint (searchEnv readXml).makeAddress rsp.location.1.hostAndPort =
      some (⟨(), 5000⟩, rest))
    (hadd : addRoot (fun _ _ => ⟨1, Int.one_pos⟩) rsp ⟨∅, []⟩
      (localRoot [wanDoc "uuid:1".toList]).2 = .ok found) (hne : found.igds ≠ []) :
    ∃ es s, (searchMachine readXml).Run searched es s ∧
      s.phase = .returned (.ok (.ok found.igds)) ∧ Searched es rsp := by
  have harriving : (searchMachine readXml).Run (arriving.map .background) _
      ⟨arrived rsp [] ∅, .calling, ⟨∅, []⟩⟩ :=
    run_background (by decide) (run_arriving [] ∅ hp)
  have hfetching : (searchMachine readXml).RunFrom ⟨arrived rsp [] ∅, .calling, ⟨∅, []⟩⟩
      [.call, .io .done fun _ => ⟨1, Int.one_pos⟩, .io .done fun _ => ⟨1, Int.one_pos⟩,
        .io (.response ⟨200, wanText⟩) fun _ => ⟨1, Int.one_pos⟩] _ ⟨looked rsp, .calling, found⟩ :=
    .cons (step_got he).1 (.cons rfl (.cons rfl
      (.cons (step_read he hadd (looked rsp)) (Machine.runFrom_nil.2 ⟨rfl, rfl⟩))))
  have htiming : (searchMachine readXml).RunFrom ⟨looked rsp, .calling, found⟩
      (timingOut.map .background) _ ⟨ended rsp, .calling, found⟩ :=
    run_background (by decide) (run_timingOut rsp)
  obtain ⟨s, hend, hs⟩ := step_ended readXml rsp hne
  exact ⟨_, s, harriving.append (hfetching.append (htiming.snoc hend)), hs, rfl, rfl⟩

theorem run_late
    (hp : Response.parse (fun _ => ⟨1, Int.one_pos⟩) Rendering.fourHeaders.text = .ok rsp)
    (he : consumeEndpoint (searchEnv readXml).makeAddress rsp.location.1.hostAndPort =
      some (⟨(), 5000⟩, rest))
    (hadd : addRoot (fun _ _ => ⟨1, Int.one_pos⟩) rsp ⟨∅, []⟩
      (localRoot [wanDoc "uuid:1".toList]).2 = .ok found) (hne : found.igds ≠ []) :
    ∃ es s, (searchMachine readXml).Run searchedLate es s ∧
      s.phase = .returned (.ok (.ok found.igds)) ∧ Searched es rsp := by
  have hwaiting : (searchMachine readXml).Run [.call] []
      ⟨{ Query.start with cv := [0], suspended := {0} }, .waiting, ⟨∅, []⟩⟩ := rfl
  have harriving : (searchMachine readXml).RunFrom
      ⟨{ Query.start with cv := [0], suspended := {0} }, .waiting, ⟨∅, []⟩⟩
      (arriving.map .background) _ ⟨arrived rsp [0] {0}, .waiting, ⟨∅, []⟩⟩ :=
    run_background (by decide) (run_arriving [0] {0} hp)
  have hwriting : (searchMachine readXml).RunFrom ⟨arrived rsp [0] {0}, .waiting, ⟨∅, []⟩⟩
      [.wake, .io .done fun _ => ⟨1, Int.one_pos⟩] _
      ⟨looked rsp, .fetching rsp .write, ⟨∅, []⟩⟩ :=
    .cons (step_got he).2 (.cons rfl (Machine.runFrom_nil.2 ⟨rfl, rfl⟩))
  have htiming : (searchMachine readXml).RunFrom ⟨looked rsp, .fetching rsp .write, ⟨∅, []⟩⟩
      (timingOut.map .background) _ ⟨ended rsp, .fetching rsp .write, ⟨∅, []⟩⟩ :=
    run_background (by decide) (run_timingOut rsp)
  obtain ⟨s, hend, hs⟩ := step_ended readXml rsp hne
  have hreading : (searchMachine readXml).RunFrom ⟨ended rsp, .fetching rsp .write, ⟨∅, []⟩⟩
      [.io .done fun _ => ⟨1, Int.one_pos⟩,
        .io (.response ⟨200, wanText⟩) fun _ => ⟨1, Int.one_pos⟩, .call] _ s :=
    .cons rfl (.cons (step_read he hadd (ended rsp))
      (.cons hend (Machine.runFrom_nil.2 ⟨rfl, rfl⟩)))
  exact ⟨_, s, hwaiting.append (harriving.append (hwriting.append (htiming.append hreading))),
    hs, rfl, rfl⟩

theorem run_searched (readXml : Str → Option Ptree) : ∃ es s es' s' igds rsp rest,
    ((searchMachine readXml).Run searched es s ∧ s.phase = .returned (.ok (.ok igds)) ∧
      Searched es rsp) ∧
    ((searchMachine readXml).Run searchedLate es' s' ∧ s'.phase = .returned (.ok (.ok igds)) ∧
      Searched es' rsp) ∧
    igds ≠ [] ∧ consumeEndpoint (searchEnv readXml).makeAddress rsp.location.1.hostAndPort =
      some (⟨(), 5000⟩, rest) := by
  obtain ⟨rsp, hparse, hread⟩ := Rendering.fourHeaders.parse_text fun _ => ⟨1, Int.one_pos⟩
  obtain ⟨al, u, hu, hsame⟩ := hread.located _ rfl
  have he : consumeEndpoint (searchEnv readXml).makeAddress rsp.location.1.hostAndPort =
      some (⟨(), 5000⟩, []) := by
    rw [hsame.hostAndPort, Url.parse_hostAndPort hu]
    rfl
  obtain ⟨found, hadd, hne⟩ := addRoot_wan he
  obtain ⟨es, s, hearly⟩ := run_early hparse he hadd hne
  obtain ⟨es', s', hlate⟩ := run_late hparse he hadd hne
  exact ⟨es, s, es', s', found.igds, rsp, [], hearly, hlate, hne, he⟩

theorem Searched.fetchedBy {es : List (DiscoverEvent Unit)} (h : Searched es rsp)
    (he : consumeEndpoint (searchEnv readXml).makeAddress rsp.location.1.hostAndPort =
      some (⟨(), 5000⟩, rest)) :
    FetchedBy (searchEnv readXml) ⟨1, Int.one_pos⟩
      (fun _ => some ((localRoot [wanDoc "uuid:1".toList]).2.moveTo ⟨1, Int.one_pos⟩))
      (Discovery.turns es) := by
  intro turn ht rsp' ho
  rw [h.turns] at ht
  rcases List.mem_pair.1 ht with rfl | rfl
  · cases ho
    exact congrArg (fun r => (Except.toOption r).map (Device.moveTo ⟨1, Int.one_pos⟩))
      (queryRootDevice_wan he)
  · cases ho

end

/-- A response is received, and its description fetched. -/
theorem outcome_of_searched : ∃ es s igds ec, (searchMachine fun _ => none).Run searched es s ∧
    s.phase = .returned (.ok (.ok igds)) ∧ igds ≠ [] ∧ s.query.rxEc = some ec ∧
    OutcomeIs ⟨1, Int.one_pos⟩
      (fun _ => some ((localRoot [wanDoc "uuid:1".toList]).2.moveTo ⟨1, Int.one_pos⟩))
      (Query.deliverable (queryEvents es)) ec (.ok igds) := by
  obtain ⟨es, s, -, -, igds, rsp, rest, ⟨h, hr, hsearched⟩, -, hne, he⟩ :=
    run_searched fun _ => none
  obtain ⟨ec, hec, -, -, -, hout⟩ := (outcome_of_run h hr (hsearched.fetchedBy he)).resolve_left
    (by rintro ⟨hio, -⟩; cases hio)
  exact ⟨es, s, igds, ec, h, hr, hne, hec, hout⟩

section
variable {Address : Type} {env : Env Address} {al al' : ℕ → Alloc} {s s' : Discovery}
  {as as' : List DiscoverAction} {es es' : List (DiscoverEvent Address)} {a : Addr}
  {fetch : Str → Option Device} {r r' : Except ErrorCode (List Igd)}

/-! ## Two schedules -/

/-- The query ends with `timed_out`, if `discover` gets to know of its end. -/
def TimedOut {Address : Type} (es : List (DiscoverEvent Address)) : Prop :=
  ∀ turn ∈ turns es, ∀ ec, turn.outcome = .ok (.error (.code ec)) → ec = .timedOut

theorem outcomeIs_of_run (h : (machine env al).Run as es s) (hr : s.phase = .returned (.ok r))
    (hf : FetchedBy env a fetch (turns es)) (ht : TimedOut es) :
    OutcomeIs a fetch (Query.deliverable (queryEvents es)) .timedOut r := by
  rcases accounted_of_run h hr hf with ⟨rfl, hfail⟩ | ⟨ec, -, -, -, ⟨turn, hm, hc⟩, hout⟩
  · exact .failed hfail
  · rwa [ht turn hm ec hc] at hout

/-- **The outcome does not depend on the schedule.**  Two runs whose queries received the
    same datagrams in time, and that fetched the same descriptions, come to the same. -/
theorem same_outcome (h : (machine env al).Run as es s) (h' : (machine env al').Run as' es' s')
    (hr : s.phase = .returned (.ok r)) (hr' : s'.phase = .returned (.ok r'))
    (hf : FetchedBy env a fetch (turns es)) (hf' : FetchedBy env a fetch (turns es'))
    (ht : TimedOut es) (ht' : TimedOut es')
    (hd : Query.datagrams (queryEvents es) = Query.datagrams (queryEvents es')) :
    SameOutcome a r r' := by
  have htold : (Query.deliverable (queryEvents es)).map Response.told =
      (Query.deliverable (queryEvents es')).map Response.told := by
    rw [Query.told_deliverable, Query.told_deliverable, hd]
  exact ((outcomeIs_of_run h hr hf ht).told htold).same (outcomeIs_of_run h' hr' hf' ht')

end

theorem Searched.timedOut {es : List (DiscoverEvent Unit)} {rsp : Response} (h : Searched es rsp) :
    TimedOut es := by
  intro turn ht ec ho
  rw [h.turns] at ht
  rcases List.mem_pair.1 ht with rfl | rfl <;> cases ho
  rfl

/-- The response is there before it is asked for, or it is waited for, and the time ends
    while its description is fetched. -/
theorem same_outcome_searched : ∃ es s es' s' igds igds',
    (searchMachine fun _ => none).Run searched es s ∧ s.phase = .returned (.ok (.ok igds)) ∧
    (searchMachine fun _ => none).Run searchedLate es' s' ∧
    s'.phase = .returned (.ok (.ok igds')) ∧ igds ≠ [] ∧
    SameOutcome ⟨1, Int.one_pos⟩ (.ok igds) (.ok igds') := by
  obtain ⟨es, s, es', s', igds, rsp, rest, ⟨h, hr, hs⟩, ⟨h', hr', hs'⟩, hne, he⟩ :=
    run_searched fun _ => none
  exact ⟨es, s, es', s', igds, igds, h, hr, h', hr', hne, same_outcome h h' hr hr'
    (hs.fetchedBy he) (hs'.fetchedBy he) hs.timedOut hs'.timedOut
    (hs.datagrams.trans hs'.datagrams.symm)⟩

end Discovery

end Upnp
