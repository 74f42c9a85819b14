/-
  `url_t` (`include/upnp/url.h`, `src/url.cpp`).

  A `url_t` owns a buffer and keeps seven `string_view`s into it, as raw
  addresses.  The model keeps the addresses: `Url.get` reads the memory a view
  points to, and copying, moving and `replacePath` re-base the views by pointer
  differences, as the source does.

  * `get_set_self`, `get_set_ne`: assigning a view makes its component the
    text it was cut from, and leaves the other components alone;
  * `Same`: two objects with the same buffer and the same view offsets; copies
    and moves give the `Same` object (`move_same`), at whatever address.
-/
import Upnp.Str

namespace Upnp

open Lib

/-- The seven components of a URL. -/
inductive Part where
  | scheme | userinfo | host | port | path | query | fragment
  deriving DecidableEq, Repr

/-- A `string_view`: where it points to, and its length. -/
structure StringView where
  data : ℤ
  size : ℕ
  deriving DecidableEq, Repr

/-- The default constructed `string_view`. -/
def StringView.null : StringView := ⟨0, 0⟩

/-- `url_t`: the text of `_buf`, the address `_buf.data()` and the seven views. -/
structure Url where
  buf : Str
  addr : Addr
  view : Part → StringView

namespace Url

/-- `url_t()`. -/
def empty (a : Addr) : Url := ⟨[], a, fun _ => .null⟩

/-- The characters a view shows, read from the buffer. -/
def text (u : Url) (v : StringView) : Str := (u.buf.drop (v.data - u.addr).toNat).take v.size

/-- `scheme()`, `userinfo()`, `host()`, `port()`, `path()`, `query()`, `fragment()`. -/
def get (u : Url) (p : Part) : Str := u.text (u.view p)

/-- The view `host_and_port()` returns. -/
def hostAndPortView (u : Url) : StringView :=
  let host := u.view .host
  let port := u.view .port
  if port.size = 0 then host else ⟨host.data, (port.data + port.size - host.data).toNat⟩

def hostAndPort (u : Url) : Str := u.text u.hostAndPortView

/-- `transfer(sv, from)`, after the buffer came to stand at `a`. -/
def transfer (a : Addr) (sv : StringView) (from_ : ℤ) : StringView :=
  ⟨sv.data - from_ + a, sv.size⟩

/-- `url_t(const url_t&)`, the copy's buffer at `a`. -/
def copy (a : Addr) (other : Url) : Url :=
  ⟨other.buf, a, fun p => transfer a (other.view p) other.addr⟩

/-- `url_t(url_t&&)` and `operator=(url_t&&)`: the buffer ends up at `a`, which
    is the old address unless the text is stored inside the string object. -/
def move (a : Addr) (other : Url) : Url :=
  ⟨other.buf, a, fun p => transfer a (other.view p) other.addr⟩

/-- `std::string::replace(pos, n, p)`.  `pos` is a pointer difference; as a
    `size_t`, a negative one exceeds the size. -/
def stringReplace (buf : Str) (pos : ℤ) (n : ℕ) (p : Str) : Except Fault Str :=
  if 0 ≤ pos ∧ pos ≤ buf.length then .ok (buf.take pos.toNat ++ (p ++ buf.drop (pos.toNat + n)))
  else .error .outOfRange

/-- The views after the first half of `replace_path`, by the difference of the
    lengths. -/
def shift (u : Url) (delta : ℤ) : Part → StringView
  | .path => ⟨(u.view .path).data, ((u.view .path).size + delta).toNat⟩
  | .query => ⟨(u.view .query).data + delta, (u.view .query).size⟩
  | .fragment => ⟨(u.view .fragment).data + delta, (u.view .fragment).size⟩
  | p => u.view p

/-- `replace_path(p)`, the changed buffer at `a`. -/
def replacePath (a : Addr) (p : Str) (u : Url) : Except Fault Url := do
  let path := u.view .path
  let buf ← stringReplace u.buf (path.data - u.addr) path.size p
  let delta : ℤ := p.length - path.size
  .ok ⟨buf, a, fun q => transfer a (u.shift delta q) u.addr⟩

/-! ## Parsing -/

/-- Assign the view of `tok`, the first characters of what is left of the
    buffer, `state`. -/
def set (u : Url) (p : Part) (state tok : Str) : Url :=
  { u with view := Function.update u.view p ⟨u.addr + (u.buf.length - state.length), tok.length⟩ }

/-- `if (auto opt = consume_until(state, token)) ret.p = *opt;` -/
def parsePart (p : Part) (token : Str) (ret : Url) (state : Str) : Url × Str :=
  match consumeUntil state [token] true with
  | some (tok, rest) => (ret.set p state tok, rest)
  | none => (ret, state)

/-- The last third of `url_t::parse`: path, query and fragment. -/
def parsePath (ret : Url) (state : Str) : Url :=
  match consumeUntil state [['?']] true with
  | some (path, rest) =>
    let ret := ret.set .path state path
    match consumeUntil rest [['#']] true with
    | some (query, rest') => (ret.set .query rest query).set .fragment rest' rest'
    | none => ret.set .query rest rest
  | none =>
    match consumeUntil state [['#']] true with
    | some (path, rest) => (ret.set .path state path).set .fragment rest rest
    | none => ret.set .path state state

/-- The middle of `url_t::parse`: host and port. -/
def parseHost (ret : Url) (state : Str) : Url :=
  match consumeUntil state [[':']] true with
  | some (host, rest) =>
    let ret := ret.set .host state host
    match consumeUntil rest [['/']] false with
    | some (port, rest') => parsePath (ret.set .port rest port) rest'
    | none => parsePath ret rest
  | none =>
    match consumeUntil state [['/']] false with
    | some (host, rest) => parsePath (ret.set .host state host) rest
    | none => ret.set .host state state

/-- The local variable `ret` that `url_t::parse` returns. -/
def parseLocal (a : Addr) (url : Str) : Url :=
  let ret : Url := { Url.empty a with buf := url }
  let (ret, state) := parsePart .scheme [':', '/', '/'] ret url
  let (ret, state) := parsePart .userinfo ['@'] ret state
  parseHost ret state

/-- `url_t::parse(url)`: `ret` is moved into the returned `optional`. -/
def parse (al : Alloc) (url : Str) : Option Url := some ((parseLocal (al 0) url).move (al 1))

/-- `numeric_port()`. -/
def numericPort (u : Url) : Option ℕ :=
  if (u.view .port).size = 0 then none else (consumeNumber 16 (u.get .port)).map (·.1)

/-- `operator<<(os, u)`. -/
def print (u : Url) : Str :=
  (if u.get .scheme ≠ [] then u.get .scheme ++ [':', '/', '/'] else []) ++
  ((if u.get .userinfo ≠ [] then u.get .userinfo ++ ['@'] else []) ++
  ((if u.get .host ≠ [] then u.get .host else []) ++
  ((if u.get .port ≠ [] then [':'] ++ u.get .port else []) ++
  ((if u.get .path ≠ [] then u.get .path else []) ++
  ((if u.get .query ≠ [] then ['?'] ++ u.get .query else []) ++
  (if u.get .fragment ≠ [] then ['#'] ++ u.get .fragment else []))))))

/-- `operator string_view()`. -/
def stringView (u : Url) : Str := u.buf

/-! ## Assigning a view -/

section
variable {u : Url} {p q : Part} {state tok : Str}

@[simp] theorem set_buf : (u.set p state tok).buf = u.buf := rfl
@[simp] theorem set_addr : (u.set p state tok).addr = u.addr := rfl

theorem set_view_self :
    (u.set p state tok).view p = ⟨u.addr + (u.buf.length - state.length), tok.length⟩ := by
  simp [set]

theorem set_view_ne (h : q ≠ p) : (u.set p state tok).view q = u.view q := by
  simp [set, h]

theorem get_set_ne (h : q ≠ p) : (u.set p state tok).get q = u.get q := by
  simp only [get, text, set_view_ne h, set_buf, set_addr]

theorem get_set_self (hs : state <:+ u.buf) (ht : tok <+: state) :
    (u.set p state tok).get p = tok := by
  obtain ⟨x, hx⟩ := hs
  obtain ⟨y, rfl⟩ := ht
  have hoff : (u.addr + (u.buf.length - (tok ++ y).length : ℤ) - u.addr).toNat = x.length := by
    rw [← hx]; simp only [List.length_append]; omega
  simp only [get, text, set_view_self, set_buf, set_addr, hoff]
  rw [← hx, List.drop_left, List.take_left]

theorem get_null (h : u.view p = .null) : u.get p = [] := by
  simp [get, text, h, StringView.null]

end

/-! ## Offsets -/

/-- How far into the buffer a view begins. -/
def off (u : Url) (p : Part) : ℤ := (u.view p).data - u.addr

/-- The length of a view. -/
def size (u : Url) (p : Part) : ℕ := (u.view p).size

theorem get_eq (u : Url) (p : Part) : u.get p = (u.buf.drop (u.off p).toNat).take (u.size p) := rfl

theorem hostAndPort_eq (u : Url) : u.hostAndPort =
    if u.size .port = 0 then u.get .host
    else (u.buf.drop (u.off .host).toNat).take
      (u.off .port + u.size .port - u.off .host).toNat := by
  by_cases hp : (u.view .port).size = 0
  · simp [hostAndPort, hostAndPortView, size, hp, get]
  · have he : (u.view .port).data + (u.view .port).size - (u.view .host).data =
        (u.view .port).data - u.addr + (u.view .port).size - ((u.view .host).data - u.addr) := by
      omega
    simp only [hostAndPort, hostAndPortView, size, hp, if_false, text, he, off]

/-- The same buffer, and each view as long and as far into it. -/
structure Same (u v : Url) : Prop where
  buf : u.buf = v.buf
  off : ∀ p, u.off p = v.off p
  size : ∀ p, u.size p = v.size p

theorem Same.refl (u : Url) : Same u u := ⟨rfl, fun _ => rfl, fun _ => rfl⟩

theorem Same.trans {u v w : Url} (h : Same u v) (h' : Same v w) : Same u w :=
  ⟨h.buf.trans h'.buf, fun p => (h.off p).trans (h'.off p), fun p => (h.size p).trans (h'.size p)⟩

/-- **Moving an object changes nothing but its address.** -/
theorem move_same (a : Addr) (u : Url) : Same (u.move a) u :=
  ⟨rfl, fun p => by simp only [Url.off, move, transfer]; omega, fun _ => rfl⟩

/-- **A copy is the same but for its address.** -/
theorem copy_same (a : Addr) (u : Url) : Same (u.copy a) u := move_same a u

theorem Same.get {u v : Url} (h : Same u v) (p : Part) : u.get p = v.get p := by
  simp only [get_eq, h.buf, h.off, h.size]

theorem Same.hostAndPort {u v : Url} (h : Same u v) : u.hostAndPort = v.hostAndPort := by
  simp only [hostAndPort_eq, h.get, h.buf, h.off, h.size]

end Url

end Upnp
