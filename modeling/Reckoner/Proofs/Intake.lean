/-
  Which tokens a state has ahead.

  `ahead` is the next token with the supply behind it, from the slot or from the
  supply. `s.Takes ts s'` says that the tokens `ts`, taken one after the other
  from `s`, lead to where `s'` is. A token in the slot of `s'` is not taken: two
  states are at the same place if the same is ahead of them, wherever it lies, and
  whatever the variables are. So a token that was put back leaves no trace.

  Proved:
  * `takes_append`, `takes_split`: intakes one after the other.
  * `ahead_hold`: to put a token back is to be where one was before it.
-/
import Reckoner.State

namespace Reckoner.State

variable {σ α : Type} [Supply σ]

/-- The next token, and the supply behind it. -/
def ahead (s : State σ) : Outcome σ Token :=
  match s.slot with
  | some t => .ok t s.supply
  | none => Supply.next s.supply

theorem ahead_of_slot {s : State σ} {t : Token} (h : s.slot = some t) :
    s.ahead = .ok t s.supply := by
  rw [ahead, h]

theorem token_eq (s : State σ) :
    s.token = s.ahead.inside fun supply => .ofSupply supply s.vars := by
  obtain ⟨supply, slot, vars⟩ := s
  cases slot <;> rfl

theorem token_eq_ok {s s' : State σ} {t : Token} (h : s.token = .ok t s') :
    s.ahead = .ok t s'.supply ∧ s' = .ofSupply s'.supply s.vars := by
  rw [token_eq] at h
  cases ha : s.ahead with
  | ok u supply =>
    rw [ha] at h
    injection h with ht hs
    subst ht hs
    exact ⟨rfl, rfl⟩
  | fault f supply =>
    rw [ha] at h
    cases h

/-- A fault comes from the supply: the slot was empty, and stays so. -/
theorem token_eq_fault {s s' : State σ} {f : Fault} (h : s.token = .fault f s') :
    s.slot = none ∧ Supply.next s.supply = .fault f s'.supply ∧ s' = .ofSupply s'.supply s.vars := by
  obtain ⟨supply, slot, vars⟩ := s
  cases slot with
  | some t => cases h
  | none =>
    change (Supply.next supply).inside _ = _ at h
    cases hnext : Supply.next supply with
    | ok t supply' =>
      rw [hnext] at h
      cases h
    | fault g supply' =>
      rw [hnext] at h
      injection h with hf hs
      subst hf hs
      exact ⟨rfl, rfl, rfl⟩

theorem vars_of_token {s s' : State σ} {t : Token} (h : s.token = .ok t s') : s'.vars = s.vars := by
  rw [(token_eq_ok h).2]
  rfl

theorem token_of_ahead {s : State σ} {t : Token} {supply : σ} (h : s.ahead = .ok t supply) :
    s.token = .ok t (.ofSupply supply s.vars) := by
  rw [token_eq, h]
  rfl

/-- To put a token back is to be where one was before it. -/
theorem ahead_hold {s s' : State σ} {t : Token} {u : Unit} (h : s.hold t = .ok u s') :
    s'.ahead = .ok t s.supply ∧ s'.slot = some t ∧ s'.vars = s.vars := by
  obtain ⟨supply, slot, vars⟩ := s
  cases slot with
  | some t' => cases h
  | none =>
    injection h with _ hs
    subst hs
    exact ⟨rfl, rfl, rfl⟩

theorem answer_eq_ok {s s' : State σ} {t : Token} {a b : α} (h : s.answer t a = .ok b s') :
    b = a ∧ s'.ahead = .ok t s.supply ∧ s'.slot = some t ∧ s'.vars = s.vars := by
  obtain ⟨u, s₁, hhold, hok⟩ := Outcome.andThen_eq_ok.mp h
  injection hok with ha hs
  exact ⟨ha.symm, hs ▸ ahead_hold hhold⟩

/-! ## A token that was just taken -/

/-- There is room for it in the slot. -/
theorem hold_of_token {s s₁ : State σ} {t : Token} (h : s.token = .ok t s₁) (u : Token) :
    s₁.hold u = .ok () ⟨s₁.supply, some u, s₁.vars⟩ := by
  rw [(token_eq_ok h).2]
  rfl

theorem refuse_of_token {s s₁ : State σ} {t : Token} (h : s.token = .ok t s₁)
    (u : Token) (f : Fault) :
    (s₁.refuse u f : Outcome (State σ) α) = .fault f ⟨s₁.supply, some u, s₁.vars⟩ := by
  rw [refuse, hold_of_token h]
  rfl

theorem answer_of_token {s s₁ : State σ} {t : Token} (h : s.token = .ok t s₁)
    (u : Token) (a : α) : s₁.answer u a = .ok a ⟨s₁.supply, some u, s₁.vars⟩ := by
  rw [answer, hold_of_token h]
  rfl

/-- What was put back is ahead as it was. -/
theorem ahead_of_token {s s₁ : State σ} {t : Token} (h : s.token = .ok t s₁) :
    s.ahead = (⟨s₁.supply, some t, s₁.vars⟩ : State σ).ahead := (token_eq_ok h).1

/-! ## A statement that is given up -/

/-- Its end is in the slot. -/
theorem giveUp_held {s : State σ} {kind : Kind} (h : s.slot.any fun (t : Token) => t.kind = kind) :
    s.giveUp kind = (none, .ofSupply s.supply s.vars) := if_pos h

/-- Its end is to be found. -/
theorem giveUp_dropped {s : State σ} {kind : Kind}
    (h : ¬ s.slot.any fun (t : Token) => t.kind = kind) :
    s.giveUp kind = (some (Supply.skipPast kind s.supply).1,
      .ofSupply (Supply.skipPast kind s.supply).2 s.vars) := if_neg h

/-! ## Intakes -/

/-- The tokens, taken one after the other, lead to the place of another state. -/
def Takes (s : State σ) : List Token → State σ → Prop
  | [], s' => s.ahead = s'.ahead
  | t :: ts, s' => ∃ supply, s.ahead = .ok t supply ∧ (ofSupply supply s.vars).Takes ts s'

theorem takes_nil {s s' : State σ} (h : s.ahead = s'.ahead) : s.Takes [] s' := h

theorem takes_refl (s : State σ) : s.Takes [] s := rfl

/-- Only the place of the first state counts. -/
theorem takes_congr {s u s' : State σ} {ts : List Token} (h : s.ahead = u.ahead) :
    s.Takes ts s' ↔ u.Takes ts s' := by
  have vars : ∀ (supply : σ) (b c : Bindings) (ts : List Token),
      (ofSupply supply b).Takes ts s' ↔ (ofSupply supply c).Takes ts s' := by
    intro supply b c ts
    induction ts generalizing supply with
    | nil => exact Iff.rfl
    | cons t ts ih => exact exists_congr fun next => and_congr_right fun _ => ih next
  cases ts with
  | nil => rw [Takes, Takes, h]
  | cons t ts =>
    rw [Takes, Takes, h]
    exact exists_congr fun supply => and_congr_right fun _ => vars supply _ _ ts

theorem takes_ofSupply {supply : σ} {b c : Bindings} {ts : List Token} {s' : State σ}
    (h : (ofSupply supply b).Takes ts s') : (ofSupply supply c).Takes ts s' := by
  have same : (ofSupply supply b).ahead = (ofSupply supply c).ahead := rfl
  exact (takes_congr same).mp h

theorem takes_trans_nil {s u s' : State σ} {ts : List Token} (h : s.Takes ts u)
    (hu : u.ahead = s'.ahead) : s.Takes ts s' := by
  induction ts generalizing s with
  | nil => exact Eq.trans h hu
  | cons t ts ih =>
    obtain ⟨supply, ha, h⟩ := h
    exact ⟨supply, ha, ih h⟩

theorem takes_append {s u s' : State σ} {ts us : List Token} (h : s.Takes ts u)
    (hu : u.Takes us s') : s.Takes (ts ++ us) s' := by
  induction ts generalizing s with
  | nil => exact (takes_congr h).mpr hu
  | cons t ts ih =>
    obtain ⟨supply, ha, h⟩ := h
    exact ⟨supply, ha, ih h⟩

theorem takes_token_cons {s u s' : State σ} {t : Token} {ts : List Token} (h : s.token = .ok t u)
    (hu : u.Takes ts s') : s.Takes (t :: ts) s' := by
  obtain ⟨ha, hs⟩ := token_eq_ok h
  exact ⟨u.supply, ha, hs ▸ hu⟩

theorem takes_token {s s' : State σ} {t : Token} (h : s.token = .ok t s') : s.Takes [t] s' :=
  takes_token_cons h (takes_refl s')

theorem takes_split {s s' : State σ} {ts us : List Token} (h : s.Takes (ts ++ us) s') :
    ∃ u, s.Takes ts u ∧ u.Takes us s' := by
  induction ts generalizing s with
  | nil => exact ⟨s, rfl, h⟩
  | cons t ts ih =>
    obtain ⟨supply, ha, h⟩ := h
    obtain ⟨u, hts, hus⟩ := ih h
    exact ⟨u, ⟨supply, ha, hts⟩, hus⟩

end Reckoner.State
