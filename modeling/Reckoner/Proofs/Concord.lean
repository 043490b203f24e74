/-
  Two runs that differ in their supplies.

  A `Concord` relates two supplies that give the same tokens, at least until a `;`
  or a `quit` is held or a fault came in place of a token. States are `Paired` if
  their slots and variables are the same and their supplies stand in that relation.
  That is a lockstep, so the rules do the same from paired states.

  Proved, where a `;` does not end the concord:
  * `Concord.evaluate`: the statements have the same values, the same fault at their
    end, and leave the same variables.
  * `Concord.converse`: if supplies that stand after a fault stand again when the
    statement is given up, two sessions show the same but for the counts of what
    they dropped.
-/
import Reckoner.Proofs.Lockstep

namespace Reckoner

open State
open Outcome (Both)

/-- The same in the slot and the same variables. How the supplies stand may depend
    on what is in the slot. -/
structure Paired {σ τ : Type} (P : Option Token → σ → τ → Prop) (s : State σ) (u : State τ) : Prop where
  slot : s.slot = u.slot
  vars : s.vars = u.vars
  supply : P s.slot s.supply u.supply

/-- What paired states are when the token was taken. -/
structure Parted {σ τ : Type} (P : Option Token → σ → τ → Prop) (t : Token) (s : State σ)
    (u : State τ) : Prop where
  left : s.slot = none
  right : u.slot = none
  vars : s.vars = u.vars
  supply : P (some t) s.supply u.supply

/-- Supplies that give the same tokens, at least up to a `;` or a `quit`. Behind a fault they
    may stand in another relation. -/
structure Concord (σ τ : Type) [Supply σ] [Supply τ] where
  stand : Option Token → σ → τ → Prop
  broken : Fault → Option Token → σ → τ → Prop
  next {a : σ} {b : τ} : stand none a b →
    Both (fun t => stand (some t)) (fun f => broken f none) (Supply.next a) (Supply.next b)
  stand_none {t : Token} {a : σ} {b : τ} :
    stand (some t) a b → t.kind ≠ .print → t.kind ≠ .quit → stand none a b
  broken_of_stand {f : Fault} {held : Option Token} {a : σ} {b : τ} :
    stand held a b → broken f held a b

namespace Concord

variable {σ τ : Type} [Supply σ] [Supply τ] (C : Concord σ τ) {s : State σ} {u : State τ} {t : Token}

theorem token (h : Paired C.stand s u) :
    Both (Parted C.stand) (fun f => Paired (C.broken f)) s.token u.token := by
  obtain ⟨supply, slot, vars⟩ := s
  obtain ⟨supply', slot', vars'⟩ := u
  obtain ⟨rfl, rfl, hsupply⟩ := h
  cases slot with
  | some t => exact .ok ⟨rfl, rfl, rfl, hsupply⟩
  | none =>
    have hnext := C.next hsupply
    show Both _ _ ((Supply.next supply).inside _) ((Supply.next supply').inside _)
    generalize Supply.next supply = o, Supply.next supply' = o' at hnext
    cases hnext with
    | ok h => exact .ok ⟨rfl, rfl, rfl, h⟩
    | fault h => exact .fault ⟨rfl, rfl, h⟩

theorem hold (h : Parted C.stand t s u) :
    Both (fun _ => Paired C.stand) (fun f => Paired (C.broken f)) (s.hold t) (u.hold t) := by
  obtain ⟨supply, slot, vars⟩ := s
  obtain ⟨supply', slot', vars'⟩ := u
  obtain ⟨rfl, rfl, rfl, hsupply⟩ := h
  exact .ok ⟨rfl, rfl, hsupply⟩

theorem paired_of_parted (h : Parted C.stand t s u) (hsupply : C.stand none s.supply u.supply) :
    Paired C.stand s u := by
  refine ⟨h.left.trans h.right.symm, h.vars, ?_⟩
  rw [h.left]
  exact hsupply

theorem broken_of_paired {f : Fault} (h : Paired C.stand s u) : Paired (C.broken f) s u :=
  ⟨h.slot, h.vars, C.broken_of_stand h.supply⟩

theorem assign (h : Paired C.stand s u) (name : String) (value : Float) :
    Paired C.stand (s.assign name value) (u.assign name value) :=
  ⟨h.slot, congrArg (·.assign name value) h.vars, h.supply⟩

/-- Runs on such supplies go side by side. -/
def lockstep : Lockstep σ τ where
  joined := Paired C.stand
  drawn := Parted C.stand
  failed f := Paired (C.broken f)
  named _ := True
  slot h := h.slot
  token := C.token
  hold := C.hold
  joined_of_drawn h notPrint notQuit := C.paired_of_parted h (C.stand_none h.supply notPrint notQuit)
  named_of_drawn _ _ := trivial
  failed_of_joined h _ := C.broken_of_paired h
  lookup h _ := State.both_lookup (h.vars ▸ rfl) (fun _ => h) (C.broken_of_paired h)
  assign _ _ _ _ _ h := C.assign h _ _

/-! ## Evaluations -/

/-- A `;` in the slot does not end the concord. -/
def Through (C : Concord σ τ) : Prop :=
  ∀ t a b, C.stand (some t) a b → t.kind = .print → C.stand none a b

/-- A token that was taken may be lost where a run ends. -/
def Loses (C : Concord σ τ) : Prop :=
  ∀ ⦃t : Token⦄ ⦃a : σ⦄ ⦃b : τ⦄, C.stand (some t) a b → C.broken .tooDeep none a b

variable {C}

theorem Loses.lockstep (h : C.Loses) : C.lockstep.Loses := by
  intro t s u parted
  refine ⟨parted.left.trans parted.right.symm, parted.vars, ?_⟩
  rw [parted.left]
  exact h parted.supply

theorem Through.lockstep (h : C.Through) : C.lockstep.Through :=
  fun t _ _ parted isPrint => C.paired_of_parted parted (h t _ _ parted.supply isPrint)

/-- Paired states have the same statement, and the same variables behind it. -/
theorem statement (through : C.Through) (loses : C.Loses) (limit : Limit) (h : Paired C.stand s u) :
    Both (fun v s u => s.vars = u.vars ∧ (v ≠ none → Paired C.stand s u))
      (fun f => Paired (C.broken f)) (s.statement limit) (u.statement limit) := by
  refine (Lockstep.statement through.lockstep limit (fun _ => loses.lockstep) h).mono ?_
  rintro v s u ⟨joined, ends⟩
  refine ⟨?_, joined⟩
  by_cases hv : v = none
  · obtain ⟨t, parted, -⟩ := ends hv
    exact parted.vars
  · exact (joined hv).vars

/-- From paired states the statements have the same values, one after the other, and
    end alike. -/
theorem evaluate (through : C.Through) (loses : C.Loses) (limit : Limit) (h : Paired C.stand s u) :
    (s.evaluate limit).results = (u.evaluate limit).results ∧
      (s.evaluate limit).fault = (u.evaluate limit).fault ∧
      (s.evaluate limit).state.vars = (u.evaluate limit).state.vars := by
  induction s using State.sessionInduction (σ := σ) limit generalizing u with
  | turn s answered =>
    have hs := evaluate_eq limit s
    have hu := evaluate_eq limit u
    have both := statement through loses limit h
    generalize hstatement : s.statement limit = o, u.statement limit = o' at both hs hu
    cases both with
    | @fault f s₁ u₁ broken =>
      rw [hs, hu]
      exact ⟨rfl, rfl, broken.vars⟩
    | @ok v s₁ u₁ joined =>
      obtain ⟨vars, joined⟩ := joined
      cases v with
      | none =>
        rw [hs, hu]
        exact ⟨rfl, rfl, vars⟩
      | some value =>
        obtain ⟨results, fault, vars⟩ :=
          answered value s₁ hstatement (joined (Option.some_ne_none value))
        rw [hs, hu]
        exact ⟨congrArg (value :: ·) results, fault, vars⟩

end Concord

/-! ## Sessions -/

/-- An event without the count of what was dropped. -/
def Event.uncounted : Event → Event
  | .skipped _ => .skipped 0
  | e => e

namespace Transcript

variable {xs ys : List Event}

/-- A channel on which no count is shown. -/
theorem join_of_uncounted (same : xs.map Event.uncounted = ys.map Event.uncounted)
    (text : Event → String) (blind : ∀ e : Event, text e.uncounted = text e) :
    String.join (xs.map text) = String.join (ys.map text) := by
  have uncounted (events : List Event) :
      (events.map Event.uncounted).map text = events.map text := by
    rw [List.map_map]
    exact List.map_congr_left fun e _ => blind e
  rw [← uncounted xs, same, uncounted ys]

theorem output_of_uncounted (same : xs.map Event.uncounted = ys.map Event.uncounted) :
    output xs = output ys :=
  join_of_uncounted same Event.output fun e => by cases e <;> rfl

theorem errors_of_uncounted (same : xs.map Event.uncounted = ys.map Event.uncounted) :
    errors xs = errors ys :=
  join_of_uncounted same Event.errors fun e => by cases e <;> rfl

theorem merged_of_uncounted (same : xs.map Event.uncounted = ys.map Event.uncounted) :
    merged xs = merged ys :=
  join_of_uncounted same Event.merged fun e => by cases e <;> rfl

end Transcript

/-- Two sessions that show the same but for the counts of what they dropped, and end
    alike. -/
structure Conversation.Alike {σ τ : Type} (c : Conversation σ) (c' : Conversation τ) : Prop where
  events : c.events.map Event.uncounted = c'.events.map Event.uncounted
  fatal : c.fatal = c'.fatal
  vars : c.state.vars = c'.state.vars

namespace Conversation.Alike

variable {σ τ : Type} {c : Conversation σ} {c' : Conversation τ}

theorem after (h : c.Alike c') {xs ys : List Event} (same : xs.map Event.uncounted = ys.map Event.uncounted) :
    (c.after xs).Alike (c'.after ys) := by
  refine ⟨?_, h.fatal, h.vars⟩
  rw [Conversation.after, Conversation.after, List.map_append, List.map_append, same, h.events]

theorem output (h : c.Alike c') : Transcript.output c.events = Transcript.output c'.events :=
  Transcript.output_of_uncounted h.events

theorem errors (h : c.Alike c') : Transcript.errors c.events = Transcript.errors c'.events :=
  Transcript.errors_of_uncounted h.events

theorem merged (h : c.Alike c') : Transcript.merged c.events = Transcript.merged c'.events :=
  Transcript.merged_of_uncounted h.events

end Conversation.Alike

namespace Concord

variable {σ τ : Type} [Supply σ] [Supply τ] {C : Concord σ τ} {s : State σ} {u : State τ}

theorem uncounted_recovery {f : Fault} {n m : Option Nat} (h : n.isSome = m.isSome) :
    (Event.recovery f n).map Event.uncounted = (Event.recovery f m).map Event.uncounted := by
  cases n <;> cases m <;> cases h <;> rfl

/-- To give up a statement makes supplies stand that do not after a fault. -/
structure Recovers (C : Concord σ τ) : Prop where
  skipPast {f : Fault} {held : Option Token} {a : σ} {b : τ} : C.broken f held a b →
    (∀ t, held = some t → t.kind ≠ .print) →
    C.stand none (Supply.skipPast .print a).2 (Supply.skipPast .print b).2
  held {f : Fault} {t : Token} {a : σ} {b : τ} :
    C.broken f (some t) a b → t.kind = .print → C.stand none a b

theorem Recovers.giveUp {f : Fault} (recovers : C.Recovers) (h : Paired (C.broken f) s u) :
    Paired C.stand (s.giveUp .print).2 (u.giveUp .print).2 ∧
      (s.giveUp .print).1.isSome = (u.giveUp .print).1.isSome := by
  obtain ⟨supply, slot, vars⟩ := s
  obtain ⟨supply', slot', vars'⟩ := u
  obtain ⟨rfl, rfl, hsupply⟩ := h
  unfold State.giveUp
  by_cases hslot : slot.any (·.kind = .print)
  · rw [if_pos hslot, if_pos hslot]
    obtain ⟨t, rfl, hk⟩ := (Option.any_eq_true _ _).mp hslot
    exact ⟨⟨rfl, rfl, recovers.held hsupply (of_decide_eq_true hk)⟩, rfl⟩
  · rw [if_neg hslot, if_neg hslot]
    refine ⟨⟨rfl, rfl, recovers.skipPast hsupply fun t ht hk => hslot ?_⟩, rfl⟩
    have ht : slot = some t := ht
    rw [ht]
    exact decide_eq_true hk

/-- From paired states two sessions are alike, if to give up a statement pairs them
    again. -/
theorem converse (through : C.Through) (loses : C.Loses) (recovers : C.Recovers) (limit : Limit)
    (h : Paired C.stand s u) : (s.converse limit).Alike (u.converse limit) := by
  induction s using State.sessionInduction (σ := σ) limit generalizing u with
  | turn s answered recovered =>
    have hs := converse_eq limit s
    have hu := converse_eq limit u
    have both := statement through loses limit h
    generalize hstatement : s.statement limit = o, u.statement limit = o' at both hs hu
    cases both with
    | @fault f s₁ u₁ broken =>
      by_cases recoverable : f.recoverable
      · simp only [if_pos recoverable] at hs hu
        rw [hs, hu]
        obtain ⟨joined, dropped⟩ := recovers.giveUp broken
        exact (recovered f s₁ hstatement joined).after (uncounted_recovery dropped)
      · simp only [if_neg recoverable] at hs hu
        rw [hs, hu]
        exact ⟨rfl, rfl, broken.vars⟩
    | @ok v s₁ u₁ joined =>
      obtain ⟨vars, joined⟩ := joined
      cases v with
      | none =>
        rw [hs, hu]
        exact ⟨rfl, rfl, vars⟩
      | some value =>
        rw [hs, hu]
        exact (answered value s₁ hstatement (joined (Option.some_ne_none value))).after rfl

end Concord

end Reckoner
