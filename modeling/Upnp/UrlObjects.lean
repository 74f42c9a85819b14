/-
  `url_t` objects are values (`include/upnp/url.h`, `src/url.cpp`).

  A program has any number of `url_t` objects, which it parses, copies, moves, changes and
  reads in any order.  It is written down once, over the operations `UrlOps`, and run on two
  representations:

  * `Url.ops`: the objects of the source, whose views are addresses.  A view that is not
    empty can be read where it lies in the buffer of its object;
  * `UrlValue.ops`: just the text of each URL, divided into its components.

  An object that was moved from, be it to itself, is not used again: what it holds is not
  specified.

  `Means` relates an object to its value; each operation keeps it, and
  `same_runs` says that no program can tell the two representations apart.
-/
import Upnp.Lib.Simulation
import Upnp.ReplacePath
import Upnp.UrlParse
import Upnp.UrlTiling

namespace Upnp

open Lib

/-! ## Programs over URLs -/

/-- The operations of `url_t`, on what represents one. -/
structure UrlOps (U : Type) where
  parse : Alloc → Str → Option U
  /-- `url_t(const url_t&)` -/
  copy : Addr → U → U
  /-- `url_t(url_t&&)` and `operator=(url_t&&)` -/
  move : Addr → U → U
  replacePath : Addr → Str → U → Except Fault U
  /-- `scheme()` and so on: what can be read through the view -/
  component : Part → U → Option Str
  hostAndPort : U → Option Str
  numericPort : U → Option ℕ
  /-- `operator<<` -/
  print : U → Str
  /-- `operator string_view` -/
  stringView : U → Str

/-- What a program does with its objects, which have numbers. -/
inductive UrlAction where
  /-- `i` becomes what `text` parses to -/
  | parse (i : ℕ) (al : Alloc) (text : Str)
  /-- `url_t i(j)` -/
  | copy (i : ℕ) (a : Addr) (j : ℕ)
  /-- `url_t i(std::move(j))` and `i = std::move(j)`; `j` is not used again -/
  | move (i : ℕ) (a : Addr) (j : ℕ)
  | replacePath (i : ℕ) (a : Addr) (p : Str)
  | component (i : ℕ) (p : Part)
  | hostAndPort (i : ℕ)
  | numericPort (i : ℕ)
  | print (i : ℕ)
  | stringView (i : ℕ)

/-- What a program sees. -/
inductive UrlEvent where
  | text (i : ℕ) (s : Option Str)
  | number (i : ℕ) (n : Option ℕ)
  | threw (i : ℕ) (f : Fault)
  deriving DecidableEq, Repr

namespace UrlOps

variable {U : Type} (ops : UrlOps U)

/-- `s i` is the object `i`, if it is there and was not moved from. -/
def step (s : ℕ → Option U) : UrlAction → Option ((ℕ → Option U) × List UrlEvent)
  | .parse i al text => (ops.parse al text).map fun u => (Function.update s i (some u), [])
  | .copy i a j => (s j).map fun u => (Function.update s i (some (ops.copy a u)), [])
  | .move i a j =>
    if i = j then none
    else (s j).map fun u =>
      (Function.update (Function.update s i (some (ops.move a u))) j none, [])
  | .replacePath i a p =>
    (s i).map fun u =>
      match ops.replacePath a p u with
      | .ok u' => (Function.update s i (some u'), [])
      | .error f => (s, [.threw i f])
  | .component i p => (s i).map fun u => (s, [.text i (ops.component p u)])
  | .hostAndPort i => (s i).map fun u => (s, [.text i (ops.hostAndPort u)])
  | .numericPort i => (s i).map fun u => (s, [.number i (ops.numericPort u)])
  | .print i => (s i).map fun u => (s, [.text i (some (ops.print u))])
  | .stringView i => (s i).map fun u => (s, [.text i (some (ops.stringView u))])

/-- A program, over the representation `ops`. -/
def machine : Machine (ℕ → Option U) UrlAction UrlEvent := ⟨fun _ => none, ops.step⟩

end UrlOps

/-! ## The two representations -/

namespace Url

/-- What can be read through a view: nothing, where it is not in the buffer. -/
def read (u : Url) (v : StringView) : Option Str :=
  if v.size = 0 ∨ u.addr ≤ v.data ∧ v.data + v.size ≤ u.addr + u.buf.length then some (u.text v)
  else none

def ops : UrlOps Url where
  parse := parse
  copy := copy
  move := move
  replacePath := replacePath
  component p u := u.read (u.view p)
  hostAndPort u := u.read u.hostAndPortView
  numericPort := numericPort
  print := print
  stringView := stringView

end Url

/-- A URL as a value. -/
structure UrlValue where
  text : UrlText
  /-- Somewhere from the host on there was a `:` or a `/`. -/
  hasPath : Bool
  deriving DecidableEq, Repr

namespace UrlValue

open UrlText

def parse (s : Str) : UrlValue :=
  ⟨divide s, decide (':' ∈ fromHost s ∨ '/' ∈ fromHost s)⟩

def replacePath (p : Str) (v : UrlValue) : Except Fault UrlValue :=
  if v.hasPath then .ok { v with text := v.text.put .path p } else .error .outOfRange

def numericPort (v : UrlValue) : Option ℕ :=
  if v.text.part .port = [] then none else (consumeNumber 16 (v.text.part .port)).map (·.1)

def ops : UrlOps UrlValue where
  parse _ s := some (parse s)
  copy _ v := v
  move _ v := v
  replacePath _ := replacePath
  component p v := some (v.text.part p)
  hostAndPort v := some v.text.hostAndPort
  numericPort := numericPort
  print v := v.text.squeeze.render
  stringView v := v.text.render

end UrlValue

/-! ## An object and its value -/

namespace Url

open UrlText

/-- The object `u` stands for the value `v`. -/
structure Means (u : Url) (v : UrlValue) : Prop where
  placed : Placed u v.text
  buf : u.buf = v.text.render
  hostAndPort : u.hostAndPort = v.text.hostAndPort
  pathAt : v.hasPath = true → PathAt u v.text.authority v.text.trailer
  /-- a path view that was never set points in front of the buffer -/
  noPath : v.hasPath = false → v.text.part .port = [] ∧ ∃ b : Addr, u.off .path = -b

variable {u u' : Url} {v : UrlValue} {p q : Part}

/-- The address of an object does not matter. -/
theorem Means.of_same (h : Means u v) (hs : Same u' u) : Means u' v where
  placed := h.placed.of_same hs
  buf := hs.buf.trans h.buf
  hostAndPort := hs.hostAndPort.trans h.hostAndPort
  pathAt hp := (h.pathAt hp).of_same hs
  noPath hp := by rw [hs.off]; exact h.noPath hp

theorem port_eq_nil {s : Str} (hc : ':' ∉ fromHost s) : (divide s).part .port = [] := by
  show ((divideHost (fromHost s)).2.1).getD [] = []
  simp only [divideHost, cut_singleton_eq_none.2 hc]
  rcases cut ['/'] (fromHost s) with _ | ⟨host, r⟩ <;> rfl

theorem means_parse {al : Alloc} {s : Str} (hu : parse al s = some u) :
    Means u (UrlValue.parse s) where
  placed := by
    cases hu
    exact (parseLocal_placed (al 0) s).of_same (move_same _ _)
  buf := by
    cases hu
    exact (parseLocal_buf _ s).trans (render_divide s).symm
  hostAndPort := parse_hostAndPort hu
  pathAt hp := parse_pathAt_divide hu (of_decide_eq_true hp)
  noPath hp := by
    obtain ⟨hc, hs⟩ := not_or.1 (of_decide_eq_false hp)
    exact ⟨port_eq_nil hc, (parse_noPath hu hc hs).2⟩

theorem Means.tiles (h : Means u v) : Tiles u v.text v.text.render := h.placed.tiles rfl h.buf

/-! ## Reading -/

theorem Means.read (h : Means u v) (p : Part) : u.read (u.view p) = some (v.text.part p) := by
  have hin : (u.view p).size = 0 ∨ u.addr ≤ (u.view p).data ∧
      (u.view p).data + (u.view p).size ≤ u.addr + u.buf.length := by
    by_cases hz : (u.view p).size = 0
    · exact .inl hz
    · exact .inr (h.tiles.inside p hz)
  rw [Url.read, if_pos hin, ← h.tiles.get]
  rfl

/-- The view that `host_and_port()` makes lies in the buffer, too. -/
theorem Means.read_hostAndPort (h : Means u v) :
    u.read u.hostAndPortView = some v.text.hostAndPort := by
  have hin : u.hostAndPortView.size = 0 ∨ u.addr ≤ u.hostAndPortView.data ∧
      u.hostAndPortView.data + u.hostAndPortView.size ≤ u.addr + u.buf.length := by
    by_cases hz : (u.view .port).size = 0
    · simp only [hostAndPortView, hz, if_true]
      by_cases hh : (u.view .host).size = 0
      · exact .inl hh
      · exact .inr (h.tiles.inside .host hh)
    · -- a port that is there comes with a path, and both views point into the buffer
      have hpath : v.hasPath = true := by
        by_contra hn
        refine hz ((h.placed.size .port).trans ?_)
        rw [(h.noPath (Bool.eq_false_iff.2 hn)).1]
        rfl
      obtain ⟨hhost, hle⟩ := (h.pathAt hpath).adjacent hz
      obtain ⟨-, hend⟩ := h.tiles.inside .port hz
      simp only [off] at hhost hle
      simp only [hostAndPortView, hz, if_false]
      right
      omega
  rw [Url.read, if_pos hin, ← h.hostAndPort]
  rfl

theorem Means.numericPort (h : Means u v) : u.numericPort = v.numericPort := by
  have hget : u.get .port = v.text.part .port := h.tiles.get .port
  have hsize : (u.view .port).size = (v.text.part .port).length := h.placed.size .port
  simp only [Url.numericPort, UrlValue.numericPort, hget, hsize, List.length_eq_zero_iff]

/-! ## Replacing the path -/

/-- What stands in front of a component, when the path is another one. -/
theorem upTo_put_path (t : UrlText) (s : Str) :
    (∀ q, Early q → (t.put .path s).upTo q = t.upTo q) ∧
    (t.put .path s).upTo .path = t.upTo .path ∧
    ∀ q, q = .query ∨ q = .fragment →
      ((t.put .path s).upTo q).length + t.path.length = (t.upTo q).length + s.length := by
  refine ⟨fun q hq => ?_, rfl, ?_⟩
  · cases q <;> first | rfl | exact hq.elim
  · rintro q (rfl | rfl)
    · simp only [upTo, put, authority, head, List.length_append]
      omega
    · simp only [upTo, put, authority, head, List.length_append]
      omega

/-- **`replace_path` puts every view where it belongs.** -/
theorem Means.replaced (h : Means u v) (hp : v.hasPath = true) (a : Addr) (s : Str) :
    Means (replaced a v.text.authority s v.text.trailer u)
      { v with text := v.text.put .path s } where
  placed := by
    obtain ⟨hearly, hpath, hlate⟩ := upTo_put_path v.text s
    constructor
    · intro q
      rcases part_cases q with hq | rfl | hq
      · rw [(replaced_early hq).2, h.placed.size, part_put_ne (early_ne hq).1]
      · rw [replaced_path.2, part_put_self]
      · have hne : q ≠ .path := by rcases hq with rfl | rfl <;> simp
        rw [(replaced_late hq).2, h.placed.size, part_put_ne hne]
    · intro q hne
      rcases part_cases q with hq | rfl | hq
      · rw [part_put_ne (early_ne hq).1] at hne
        rw [(replaced_early hq).1, h.placed.off q hne, hearly q hq]
      · rw [replaced_path.1, (h.pathAt hp).off, hpath]
        rfl
      · have hne' : q ≠ .path := by rcases hq with rfl | rfl <;> simp
        rw [part_put_ne hne'] at hne
        rw [(replaced_late hq).1, h.placed.off q hne, h.placed.size]
        have := hlate q hq
        simp only [part]
        omega
  buf := by rw [render_put_path]; rfl
  hostAndPort := (hostAndPort_replaced (h.pathAt hp)).trans h.hostAndPort
  pathAt _ := replaced_pathAt (h.pathAt hp)
  noPath hn := by
    rw [show v.hasPath = false from hn] at hp
    cases hp

/-- Without a path, `replace_path` throws. -/
theorem Means.throws (h : Means u v) (hp : v.hasPath = false) (a : Addr) (s : Str) :
    u.replacePath a s = .error .outOfRange := by
  obtain ⟨-, b, hoff⟩ := h.noPath hp
  have hneg : ¬ (0 ≤ (u.view .path).data - (u.addr : ℤ) ∧
      (u.view .path).data - (u.addr : ℤ) ≤ u.buf.length) := by
    have hb := b.2
    have : (u.view .path).data - (u.addr : ℤ) = -b := hoff
    omega
  simp only [replacePath, stringReplace, if_neg hneg, bind, Except.bind]

/-- `replace_path` does to the object what it does to the value. -/
theorem Means.replacePath (h : Means u v) (a : Addr) (s : Str) :
    (∃ u' v', u.replacePath a s = .ok u' ∧ v.replacePath s = .ok v' ∧ Means u' v') ∨
      ∃ f, u.replacePath a s = .error f ∧ v.replacePath s = .error f := by
  rcases hp : v.hasPath with _ | _
  · exact .inr ⟨_, h.throws hp a s, by rw [UrlValue.replacePath, hp]; rfl⟩
  · exact .inl ⟨_, _, replacePath_eq (h.pathAt hp) a s, by rw [UrlValue.replacePath, hp]; rfl,
      h.replaced hp a s⟩

/-! ## Programs -/

/-- The objects stand for the values, number by number. -/
def MeanAll (s : ℕ → Option Url) (t : ℕ → Option UrlValue) : Prop :=
  ∀ i, Option.Rel Means (s i) (t i)

variable {s : ℕ → Option Url} {t : ℕ → Option UrlValue}

theorem MeanAll.update (h : MeanAll s t) {x : Option Url} {y : Option UrlValue}
    (hxy : Option.Rel Means x y) (i : ℕ) :
    MeanAll (Function.update s i x) (Function.update t i y) := by
  intro j
  by_cases hj : j = i
  · rw [hj, Function.update_self, Function.update_self]
    exact hxy
  · rw [Function.update_of_ne hj, Function.update_of_ne hj]
    exact h j

/-- To go on with the object `i` and its value. -/
theorem MeanAll.map {α β : Type} {r : α → β → Prop} (h : MeanAll s t) (i : ℕ) {f : Url → α}
    {g : UrlValue → β} (hfg : ∀ u v, Means u v → r (f u) (g v)) :
    Option.Rel r ((s i).map f) ((t i).map g) := by
  have hi := h i
  generalize s i = x at hi
  generalize t i = y at hi
  cases hi with
  | some hm => exact .some (hfg _ _ hm)
  | none => exact .none

theorem bisimulation : ops.machine.Bisimulation UrlValue.ops.machine MeanAll where
  init _ := .none
  step {s t} h a := by
    cases a with
    | parse i al text => exact .some ⟨h.update (.some (means_parse rfl)) i, rfl⟩
    | copy i a j =>
      exact h.map j fun u v hm => ⟨h.update (.some (hm.of_same (copy_same a u))) i, rfl⟩
    | move i a j =>
      simp only [UrlOps.machine, UrlOps.step]
      split
      · exact .none
      · exact h.map j fun u v hm =>
          ⟨(h.update (.some (hm.of_same (move_same a u))) i).update .none j, rfl⟩
    | replacePath i a p =>
      refine h.map i fun u v hm => ?_
      rcases hm.replacePath a p with ⟨u', v', hu, hv, hm'⟩ | ⟨f, hu, hv⟩
      · simp only [ops, UrlValue.ops, hu, hv]
        exact ⟨h.update (.some hm') i, trivial⟩
      · simp only [ops, UrlValue.ops, hu, hv]
        exact ⟨h, trivial⟩
    | component i p => exact h.map i fun u v hm => ⟨h, by simp only [ops, UrlValue.ops, hm.read]⟩
    | hostAndPort i =>
      exact h.map i fun u v hm => ⟨h, by simp only [ops, UrlValue.ops, hm.read_hostAndPort]⟩
    | numericPort i =>
      exact h.map i fun u v hm => ⟨h, by simp only [ops, UrlValue.ops, hm.numericPort]⟩
    | print i =>
      exact h.map i fun u v hm =>
        ⟨h, by simp only [ops, UrlValue.ops, print_of_shows hm.tiles.get]⟩
    | stringView i =>
      exact h.map i fun u v hm => ⟨h, by simp only [ops, UrlValue.ops, stringView, hm.buf]⟩

/-- **No program can tell the objects from their values.**  Whatever it parses, copies,
    moves, changes and reads, it sees what it would see of the texts; so every view that it
    reads lies in the buffer of its object. -/
theorem same_runs (as : List UrlAction) (es : List UrlEvent) :
    (∃ s, ops.machine.Run as es s) ↔ ∃ t, UrlValue.ops.machine.Run as es t :=
  bisimulation.run_iff

end Url

end Upnp
