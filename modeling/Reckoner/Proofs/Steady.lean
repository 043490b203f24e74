/-
  Runs that stay side by side whatever becomes of them.

  In a `Steady` lockstep a token that was taken, a fault and a statement given up
  all leave joined states. So nothing ends it: whole evaluations and sessions, and
  single calls in any order, do the same on both sides.

  Proved: `Steady.evaluate`, `Steady.converse`, and `Steady.answer` for any one call.
-/
import Reckoner.Proofs.Slot

namespace Reckoner

open State
open Outcome (Both)

variable {σ τ : Type} [Supply σ] [Supply τ]

/-- The states stay joined when a token was taken, when a fault ended both runs, and
    when a statement is given up. -/
structure Lockstep.Steady (L : Lockstep σ τ) : Prop where
  of_drawn {t : Token} {s : State σ} {u : State τ} : L.drawn t s u → L.joined s u
  of_failed {f : Fault} {s : State σ} {u : State τ} : L.failed f s u → L.joined s u
  giveUp {s : State σ} {u : State τ} : L.joined s u → ∀ kind,
    (s.giveUp kind).1 = (u.giveUp kind).1 ∧ L.joined (s.giveUp kind).2 (u.giveUp kind).2

namespace Lockstep.Steady

variable {L : Lockstep σ τ} {s : State σ} {u : State τ} {limit : Limit}

/-- What both sides do alike they leave joined, also where it failed. -/
theorem kept (h : L.Steady) {α : Type} {Q : α → State σ → State τ → Prop}
    {o : Outcome (State σ) α} {o' : Outcome (State τ) α} (both : Both Q L.failed o o')
    (hQ : ∀ a s u, Q a s u → L.joined s u) : Both (fun _ => L.joined) (fun _ => L.joined) o o' := by
  cases both with
  | ok hok => exact .ok (hQ _ _ _ hok)
  | fault hfault => exact .fault (h.of_failed hfault)

/-- A token may be lost as well. -/
theorem loses (h : L.Steady) : L.Loses :=
  fun _ _ _ drawn => L.failed_of_joined (h.of_drawn drawn) rfl

theorem statement (h : L.Steady) (limit : Limit) (joined : L.joined s u) :
    Both (fun _ => L.joined) (fun _ => L.joined) (s.statement limit) (u.statement limit) := by
  refine h.kept (L.statement (fun _ _ _ drawn _ => h.of_drawn drawn) limit (fun _ => h.loses)
    joined) ?_
  rintro v s u ⟨answered, ended⟩
  by_cases none : v = none
  · obtain ⟨t, drawn, -⟩ := ended none
    exact h.of_drawn drawn
  · exact answered none

/-! ## Runs -/

/-- The statements have the same values up to the same fault. -/
theorem evaluate (h : L.Steady) (limit : Limit) (joined : L.joined s u) :
    (s.evaluate limit).results = (u.evaluate limit).results ∧
      (s.evaluate limit).fault = (u.evaluate limit).fault ∧
      L.joined (s.evaluate limit).state (u.evaluate limit).state := by
  induction s using State.sessionInduction (σ := σ) limit generalizing u with
  | turn s answered =>
    have hs := evaluate_eq limit s
    have hu := evaluate_eq limit u
    have both := h.statement limit joined
    generalize hstatement : s.statement limit = o, u.statement limit = o' at both hs hu
    rw [hs, hu]
    cases both with
    | fault joined => exact ⟨rfl, rfl, joined⟩
    | @ok v s₁ u₁ joined =>
      cases v with
      | none => exact ⟨rfl, rfl, joined⟩
      | some value =>
        obtain ⟨results, fault, joined⟩ := answered value s₁ hstatement joined
        exact ⟨congrArg (value :: ·) results, fault, joined⟩

/-- Two sessions show the same and end alike. -/
theorem converse (h : L.Steady) (limit : Limit) (joined : L.joined s u) :
    (s.converse limit).events = (u.converse limit).events ∧
      (s.converse limit).fatal = (u.converse limit).fatal ∧
      L.joined (s.converse limit).state (u.converse limit).state := by
  induction s using State.sessionInduction (σ := σ) limit generalizing u with
  | turn s answered recovered =>
    have hs := converse_eq limit s
    have hu := converse_eq limit u
    have both := h.statement limit joined
    generalize hstatement : s.statement limit = o, u.statement limit = o' at both hs hu
    rw [hs, hu]
    cases both with
    | @fault f s₁ u₁ joined =>
      dsimp only
      by_cases recoverable : f.recoverable
      · obtain ⟨dropped, joined⟩ := h.giveUp joined .print
        obtain ⟨events, fatal, joined⟩ := recovered f s₁ hstatement joined
        rw [if_pos recoverable, if_pos recoverable, dropped]
        exact ⟨congrArg (Event.recovery f _ ++ ·) events, fatal, joined⟩
      · rw [if_neg recoverable, if_neg recoverable]
        exact ⟨rfl, rfl, joined⟩
    | @ok v s₁ u₁ joined =>
      cases v with
      | none => exact ⟨rfl, rfl, joined⟩
      | some value =>
        obtain ⟨events, fatal, joined⟩ := answered value s₁ hstatement joined
        exact ⟨congrArg (Event.prompt :: Event.result value :: ·) events, fatal, joined⟩

/-! ## Calls -/

theorem answer (h : L.Steady) (joined : L.joined s u) (r : Request) :
    Both (fun _ => L.joined) (fun _ => L.joined) (r.answer s) (r.answer u) := by
  have rule {α : Type} {o : Outcome (State σ) α} {o' : Outcome (State τ) α}
      (both : Both (fun _ => L.joined) L.failed o o') := h.kept both fun _ _ _ joined => joined
  have rules (limit : Limit) := L.follows_rules limit fun _ => h.loses
  cases r with
  | token => exact (h.kept (L.token joined) fun _ _ _ => h.of_drawn).passed _
  | giveUp kind =>
    obtain ⟨dropped, joined⟩ := h.giveUp joined kind
    rw [Request.answer, Request.answer, dropped]
    exact .ok joined
  | operand limit => exact (rule ((rules limit).2.2 s u joined)).passed _
  | product limit => exact (rule ((rules limit).2.1 s u joined)).passed _
  | sum limit => exact (rule ((rules limit).1 s u joined)).passed _
  | divisor limit => exact (rule (L.follows_divisor limit (fun _ => h.loses) joined)).passed _
  | statement limit => exact (h.statement limit joined).passed _
  | session limit =>
    obtain ⟨events, fatal, joined⟩ := h.converse limit joined
    rw [Request.answer, Request.answer, Conversation.reply, Conversation.reply, events, fatal]
    cases (u.converse limit).fatal with
    | none => exact .ok joined
    | some f => exact .fault joined

end Lockstep.Steady

/-- What the actions of one run keep, each call keeps. -/
theorem Invariant.state_answer {I : Invariant σ} {s : State σ}
    (steady : (I.lockstep false).Steady) (h : I.holds s) (r : Request) : I.holds (r.answer s).state := by
  have both := steady.answer (s := s) (u := s) ⟨rfl, h⟩ r
  generalize r.answer s = o at both
  cases both with
  | ok h => exact h.2
  | fault h => exact h.2

end Reckoner
