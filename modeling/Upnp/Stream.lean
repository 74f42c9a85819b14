/-
  A request over a `beast::tcp_stream`, by the operations that its coroutine waits for.

  `query_root_device` and `soap_request` (`src/igd.cpp`) connect, write the request and
  read the response, and are suspended in each of the three.  `Stage.next` is what one
  operation leads to: the next one, or the `Exchange` that has been made.

  * `Stage.left_next`: an exchange takes three operations at most.
-/
import Upnp.Igd

namespace Upnp

/-- The operation of the stream that is not complete. -/
inductive Stage where
  | connect | write | read
  deriving DecidableEq, Repr

/-- What an operation completes with. -/
inductive Io where
  | failed (ec : ErrorCode)
  /-- `async_connect` and `async_write`, without an error -/
  | done
  /-- `async_read`, without an error -/
  | response (rs : HttpResponse)
  deriving DecidableEq, Repr

namespace Stage

/-- The operation that comes next, or what has become of the exchange. -/
def next : Stage → Io → Option (Stage ⊕ Exchange)
  | .connect, .failed ec => some (.inr (.connectFailed ec))
  | .connect, .done => some (.inl .write)
  | .write, .failed ec => some (.inr (.writeFailed ec))
  | .write, .done => some (.inl .read)
  | .read, .failed ec => some (.inr (.readFailed ec))
  | .read, .response rs => some (.inr (.response rs))
  | _, _ => none

/-- How many operations there are left at most. -/
def left : Stage → ℕ
  | .connect => 3
  | .write => 2
  | .read => 1

variable {stage stage' : Stage} {r : Io}

theorem left_next (h : stage.next r = some (.inl stage')) : stage'.left + 1 = stage.left := by
  cases stage <;> cases r <;> cases h <;> rfl

theorem left_pos (stage : Stage) : 0 < stage.left := by cases stage <;> decide

/-- Any operation can fail. -/
theorem next_failed (stage : Stage) (ec : ErrorCode) :
    ∃ x, stage.next (.failed ec) = some (.inr x) := by
  cases stage <;> exact ⟨_, rfl⟩

end Stage

end Upnp
