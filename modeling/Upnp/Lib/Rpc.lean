/-
  Remote calls: what a caller asks of a server that may be far away.

  A `Protocol` says what a server makes of a call, and what the caller makes of the reply
  that it gets, or of what happens instead.  Any number of calls can be under way at a
  time: the server takes them up one by one, in any order, each at most once; a caller may
  give up on a call before that or after it; and the state of the server may change by
  itself.

  * `same_runs_iff`: two protocols over the same server that make the same of replies that
    say the same have the same runs.
-/
import Mathlib.Logic.Function.Basic
import Upnp.Lib.Simulation

namespace Lib

namespace Rpc

variable {σ κ φ ω ρ ρ' : Type}

/-- The server, and the calls. -/
structure Protocol (σ κ φ ω ρ : Type) where
  /-- What the server makes of a call: its next state, and the reply.  `none` if the call
      does not get to the server. -/
  serve : σ → κ → Option (σ × ρ)
  /-- What the caller makes of a call whose fate is `f`, of which the server has sent this
      reply, if it has taken it up.  `none` if that is nobody's fate. -/
  finish : κ → φ → Option ρ → Option ω

/-- The state of the server, and the calls under way with what was replied. -/
structure State (σ κ ρ : Type) where
  server : σ
  calls : ℕ → Option (κ × Option ρ)

inductive Action (σ κ φ : Type)
  | call (n : ℕ) (k : κ)
  | serve (n : ℕ)
  | finish (n : ℕ) (f : φ)
  /-- The state of the server changes by itself. -/
  | change (s : σ)

inductive Event (κ ω : Type)
  /-- The call `n` has come to this. -/
  | finished (n : ℕ) (k : κ) (o : ω)

variable (P : Protocol σ κ φ ω ρ)

def step (s : State σ κ ρ) : Action σ κ φ → Option (State σ κ ρ × List (Event κ ω))
  | .call n k =>
    match s.calls n with
    | some _ => none
    | none => some ({ s with calls := Function.update s.calls n (some (k, none)) }, [])
  | .serve n =>
    match s.calls n with
    | some (k, none) =>
      (P.serve s.server k).map fun r =>
        ({ server := r.1, calls := Function.update s.calls n (some (k, some r.2)) }, [])
    | _ => none
  | .finish n f =>
    match s.calls n with
    | some (k, r) =>
      (P.finish k f r).map fun o =>
        ({ s with calls := Function.update s.calls n none }, [.finished n k o])
    | none => none
  | .change s' => some ({ s with server := s' }, [])

/-- The server and its callers, with no calls under way. -/
def machine (s₀ : σ) : Machine (State σ κ ρ) (Action σ κ φ) (Event κ ω) :=
  ⟨⟨s₀, fun _ => none⟩, step P⟩

variable {P} {Q : Protocol σ κ φ ω ρ'}

/-- The protocols agree on everything but how replies are put, which `R` relates. -/
structure Agree (P : Protocol σ κ φ ω ρ) (Q : Protocol σ κ φ ω ρ') (R : κ → ρ → ρ' → Prop) :
    Prop where
  serve : ∀ s k, Option.Rel (fun x y => x.1 = y.1 ∧ R k x.2 y.2) (P.serve s k) (Q.serve s k)
  unserved : ∀ k f, P.finish k f none = Q.finish k f none
  served : ∀ {k r r'}, R k r r' → ∀ f, P.finish k f (some r) = Q.finish k f (some r')

/-- The calls under way are the same, and so are the replies. -/
structure SameCalls (R : κ → ρ → ρ' → Prop) (s : State σ κ ρ) (t : State σ κ ρ') : Prop where
  server : s.server = t.server
  calls : ∀ n, Option.Rel (fun x y => x.1 = y.1 ∧ Option.Rel (R x.1) x.2 y.2) (s.calls n)
    (t.calls n)

variable {R : κ → ρ → ρ' → Prop} {s : State σ κ ρ} {t : State σ κ ρ'}

theorem SameCalls.update (h : SameCalls R s t) {a b : σ} (hab : a = b) (n : ℕ)
    {x : Option (κ × Option ρ)} {y : Option (κ × Option ρ')}
    (hxy : Option.Rel (fun x y => x.1 = y.1 ∧ Option.Rel (R x.1) x.2 y.2) x y) :
    SameCalls R ⟨a, Function.update s.calls n x⟩ ⟨b, Function.update t.calls n y⟩ where
  server := hab
  calls m := by
    by_cases hm : m = n
    · subst hm
      simpa only [Function.update_self] using hxy
    · simpa only [Function.update_of_ne hm] using h.calls m

theorem Agree.step (h : Agree P Q R) (hr : SameCalls R s t) (a : Action σ κ φ) :
    Option.Rel (fun x y => SameCalls R x.1 y.1 ∧ x.2 = y.2) (step P s a) (step Q t a) := by
  cases a with
  | call n k =>
    have hn := hr.calls n
    simp only [Rpc.step]
    generalize s.calls n = x at hn ⊢
    generalize t.calls n = y at hn ⊢
    cases hn with
    | some _ => exact .none
    | none => exact .some ⟨hr.update hr.server n (.some ⟨rfl, .none⟩), rfl⟩
  | serve n =>
    have hn := hr.calls n
    simp only [Rpc.step]
    generalize s.calls n = x at hn ⊢
    generalize t.calls n = y at hn ⊢
    rcases hn with @⟨⟨k, r⟩, ⟨k', r'⟩, hk, hrr⟩ | _
    · cases hk
      cases hrr with
      | some _ => exact .none
      | none =>
        have hs := h.serve s.server k
        rw [hr.server] at hs ⊢
        dsimp only
        generalize P.serve t.server k = x at hs ⊢
        generalize Q.serve t.server k = y at hs ⊢
        cases hs with
        | some hs => exact .some ⟨hr.update hs.1 n (.some ⟨rfl, .some hs.2⟩), rfl⟩
        | none => exact .none
    · exact .none
  | finish n f =>
    have hn := hr.calls n
    simp only [Rpc.step]
    generalize s.calls n = x at hn ⊢
    generalize t.calls n = y at hn ⊢
    rcases hn with @⟨⟨k, r⟩, ⟨k', r'⟩, hk, hrr⟩ | _
    · cases hk
      have hf : P.finish k f r = Q.finish k f r' := by
        cases hrr with
        | some hrr => exact h.served hrr f
        | none => exact h.unserved k f
      dsimp only
      rw [hf]
      generalize Q.finish k f r' = z
      cases z with
      | some o => exact .some ⟨hr.update hr.server n .none, rfl⟩
      | none => exact .none
    · exact .none
  | change s' => exact .some ⟨⟨rfl, hr.calls⟩, rfl⟩

/-- **How replies are put does not matter**: the runs are the same, and so are the states
    that the server comes to. -/
theorem Agree.bisimulation (h : Agree P Q R) (s₀ : σ) :
    Machine.Bisimulation (machine P s₀) (machine Q s₀) (SameCalls R) where
  init := ⟨rfl, fun _ => .none⟩
  step hr a := h.step hr a

theorem Agree.same_runs_iff (h : Agree P Q R) {s₀ s₁ : σ} {as : List (Action σ κ φ)}
    {es : List (Event κ ω)} :
    (∃ s, (machine P s₀).Run as es s ∧ s.server = s₁) ↔
      ∃ t, (machine Q s₀).Run as es t ∧ t.server = s₁ := by
  constructor
  · rintro ⟨s, hs, rfl⟩
    obtain ⟨t, ht, hr⟩ := (h.bisimulation s₀).run hs
    exact ⟨t, ht, hr.server.symm⟩
  · rintro ⟨t, ht, rfl⟩
    obtain ⟨s, hs, hr⟩ := (h.bisimulation s₀).symm.run ht
    exact ⟨s, hs, hr.server⟩

end Rpc

end Lib
