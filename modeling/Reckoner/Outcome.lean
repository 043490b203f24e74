/-
  What a step leaves behind.

  A step ends with a value or a fault, and with a new state either way, for what
  was read and assigned before a fault stays so. `andThen` goes on with a value
  and stops at a fault; `inside` places the state in a larger one.
-/
import Reckoner.Fault

namespace Reckoner

/-- What a step leaves: a value or a fault, and a new state either way. -/
inductive Outcome (σ α : Type) where
  | ok (value : α) (state : σ)
  | fault (fault : Fault) (state : σ)
  deriving DecidableEq

namespace Outcome

variable {σ τ α β : Type}

/-- The state that is left. -/
def state : Outcome σ α → σ
  | .ok _ s => s
  | .fault _ s => s

/-- The same outcome with each state in a larger one. -/
def inside (wrap : σ → τ) : Outcome σ α → Outcome τ α
  | .ok a s => .ok a (wrap s)
  | .fault f s => .fault f (wrap s)

/-- Goes on with the value from the state that is left. A fault stays. -/
def andThen (o : Outcome σ α) (k : α → σ → Outcome σ β) : Outcome σ β :=
  match o with
  | .ok a s => k a s
  | .fault f s => .fault f s

@[simp] theorem state_inside (wrap : σ → τ) (o : Outcome σ α) :
    (o.inside wrap).state = wrap o.state := by
  cases o <;> rfl

@[simp] theorem andThen_ok (a : α) (s : σ) (k : α → σ → Outcome σ β) :
    (Outcome.ok a s).andThen k = k a s := rfl

@[simp] theorem andThen_fault (f : Fault) (s : σ) (k : α → σ → Outcome σ β) :
    (Outcome.fault f s).andThen k = .fault f s := rfl

theorem andThen_eq_ok {o : Outcome σ α} {k : α → σ → Outcome σ β} {b : β} {s' : σ} :
    o.andThen k = .ok b s' ↔ ∃ a s, o = .ok a s ∧ k a s = .ok b s' := by
  cases o with
  | ok a s => exact ⟨fun h => ⟨a, s, rfl, h⟩, fun ⟨_, _, h, hk⟩ => by cases h; exact hk⟩
  | fault f s => simp

theorem andThen_eq_fault {o : Outcome σ α} {k : α → σ → Outcome σ β} {f : Fault} {s' : σ} :
    o.andThen k = .fault f s' ↔
      o = .fault f s' ∨ ∃ a s, o = .ok a s ∧ k a s = .fault f s' := by
  cases o with
  | ok a s =>
    refine ⟨fun h => .inr ⟨a, s, rfl, h⟩, ?_⟩
    rintro (h | ⟨_, _, h, hk⟩)
    · cases h
    · cases h
      exact hk
  | fault g s => simp

end Outcome

end Reckoner
