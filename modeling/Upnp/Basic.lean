/-
  What the models of all source files share: texts, error codes, the ways in
  which C++ code leaves its own control flow, and the addresses of buffers.
-/
import Mathlib.Algebra.Order.Ring.Nat
import Mathlib.Data.Int.Notation

namespace Upnp

/-- A `std::string` or the characters of a `string_view`, as decoded characters.
    The code only looks for ASCII characters, and no byte of another character is
    one, so it does with them what it does with the bytes. -/
abbrev Str := List Char

/-- The length of a text in bytes. -/
def byteLength (s : Str) : ℕ := (s.map Char.utf8Size).sum

/-- `net::error` and `sys::errc` values, as far as the code names them. -/
inductive ErrorCode where
  | timedOut
  | operationAborted
  | invalidArgument
  | protocolError
  | ioError
  /-- any other error the system reports -/
  | other (n : ℕ)
  deriving DecidableEq, Repr

/-- What the code must never run into: none of these is a value of a
    `result<>`. -/
inductive Fault where
  /-- `std::out_of_range`, thrown by `std::string::replace` -/
  | outOfRange
  /-- `value()` of a `result<>` that holds an error: terminates or throws,
      depending on `NDEBUG` -/
  | badResultAccess
  /-- a null pointer is dereferenced -/
  | nullDereference
  deriving DecidableEq, Repr

/-- `r.value()`. -/
def value {ε α : Type*} : Except ε α → Except Fault α
  | .ok a => .ok a
  | .error _ => .error .badResultAccess

/-- `os << n` for an unsigned integer. -/
def decimal (n : ℕ) : Str := Nat.toDigits 10 n

/-- `os << n` for a signed integer. -/
def decimalInt : ℤ → Str
  | .ofNat n => decimal n
  | .negSucc n => '-' :: decimal (n + 1)

/-- The address of a buffer: never null. -/
abbrev Addr := {a : ℤ // 0 < a}

/-- The addresses at which an operation finds its buffers, in the order in
    which it constructs, moves or resizes them. -/
abbrev Alloc := ℕ → Addr

end Upnp
