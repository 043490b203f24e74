/-
  One statement.

  A statement is a sum. Any number of `;` may stand before it, and the token
  behind it stays in the slot. That token may not be `=`, for a name would have
  taken it. `quit` in place of a statement means there is none.

  A statement that has a value leaves a smaller state (`size_statement`). So
  does one that fails, once the rest of it is given up
  (`size_giveUp_of_statement`). A session therefore ends.
-/
import Reckoner.Grammar

namespace Reckoner.State

variable {σ : Type} [Supply σ]

/-- The first token that is not `;`. -/
def firstToken (s : State σ) : Outcome (State σ) Token :=
  match _htoken : s.token with
  | .fault f s => .fault f s
  | .ok t s₁ => if _hprint : t.kind = .print then firstToken s₁ else .ok t s₁
termination_by s.size
decreasing_by
  have := size_token _htoken
  have := Token.weight_eq_one (t := t) (by rw [_hprint]; simp)
  omega

/-- The token behind a statement, which stays. An assignment sign may not stand there. -/
def close (value : Float) (s : State σ) : Outcome (State σ) (Option Float) :=
  s.token.andThen fun t s =>
  (s.hold t).andThen fun _ s =>
    if t.kind = .assign then .fault .notAssignable s else .ok (some value) s

/-- The statement that begins with a token. -/
def statementFrom (limit : Limit) (t : Token) (s : State σ) : Outcome (State σ) (Option Float) :=
  (s.hold t).andThen fun _ s =>
  ((Rule.sum limit).run s).andThen close

/-- The value of the next statement, or none if there is no more. -/
def statement (limit : Limit) (s : State σ) : Outcome (State σ) (Option Float) :=
  s.firstToken.andThen fun t s =>
    if t.kind = .quit then .ok none s else s.statementFrom limit t

/-! ## Sizes -/

theorem size_firstToken {s s' : State σ} {t : Token} (h : s.firstToken = .ok t s') :
    s'.size + t.weight ≤ s.size := by
  fun_induction firstToken s with
  | case1 => cases h
  | case2 s t₁ s₁ htoken hprint ih =>
    have := size_token htoken
    have := ih h
    omega
  | case3 s t₁ s₁ htoken hprint =>
    injection h with ht hs
    subst ht hs
    exact size_token htoken

theorem size_supply_le (s : State σ) : Supply.size s.supply ≤ s.size := Nat.le_add_left _ _

/-- Where no first token can be read, the supply has shrunk. -/
theorem size_supply_firstToken {s s' : State σ} {f : Fault} (h : s.firstToken = .fault f s') :
    Supply.size s'.supply < s.size := by
  fun_induction firstToken s with
  | case1 s f₁ s₁ htoken =>
    injection h with hf hs
    subst hf hs
    obtain ⟨supply, slot, vars⟩ := s
    cases slot with
    | some t => cases htoken
    | none =>
      simp only [token] at htoken
      cases hn : Supply.next supply with
      | ok t supply' =>
        rw [hn] at htoken
        cases htoken
      | fault f' supply' =>
        rw [hn] at htoken
        injection htoken with _ hs
        subst hs
        exact Nat.lt_of_lt_of_le (Supply.size_next_fault hn) (Nat.le_add_left _ _)
  | case2 s t₁ s₁ htoken hprint ih =>
    have := size_token htoken
    have := ih h
    omega
  | case3 => cases h

theorem size_close {value : Float} {v : Option Float} {s s' : State σ}
    (h : s.close value = .ok v s') : s'.size ≤ s.size := by
  obtain ⟨t, s₁, htoken, h⟩ := Outcome.andThen_eq_ok.mp h
  obtain ⟨u, s₂, hput, h⟩ := Outcome.andThen_eq_ok.mp h
  split at h
  · cases h
  · injection h with _ hs
    subst hs
    have := size_token htoken
    have := size_hold hput
    omega

theorem frugal_close (value : Float) : Frugal fun s : State σ => s.close value :=
  Frugal.token.andThen fun t => (Frugal.hold t).andThen fun _ => .ite (.fault _) (.ok _)

theorem frugal_statementFrom (limit : Limit) (t : Token) :
    Frugal fun s : State σ => s.statementFrom limit t :=
  (Frugal.hold t).andThen fun _ => (Rule.sum limit).frugal.andThen fun v => frugal_close v

/-- A statement with a value leaves a smaller state. -/
theorem size_statement {limit : Limit} {v : Float} {s s' : State σ}
    (h : s.statement limit = .ok (some v) s') : s'.size < s.size := by
  obtain ⟨t, s₁, hfirst, h⟩ := Outcome.andThen_eq_ok.mp h
  have hsize := size_firstToken hfirst
  split at h
  · cases h
  · obtain ⟨u, s₂, hput, h⟩ := Outcome.andThen_eq_ok.mp h
    obtain ⟨w, s₃, hsum, hclose⟩ := Outcome.andThen_eq_ok.mp h
    have := size_hold hput
    have := (Rule.sum limit).size_lt hsum
    have := size_close hclose
    omega

/-- The supply is smaller than the state was where a statement failed. -/
theorem size_supply_statement {limit : Limit} {f : Fault} {s s' : State σ}
    (h : s.statement limit = .fault f s') : Supply.size s'.supply < s.size := by
  unfold statement at h
  cases hfirst : s.firstToken with
  | fault f₁ s₁ =>
    rw [hfirst] at h
    injection h with _ hs
    exact hs ▸ size_supply_firstToken hfirst
  | ok t s₁ =>
    rw [hfirst, Outcome.andThen_ok] at h
    split at h
    · cases h
    · next hquit =>
      have hle : Supply.size s'.supply ≤ Supply.size s₁.supply :=
        (frugal_statementFrom limit t).le_of_fault h
      have := size_firstToken hfirst
      have := Token.weight_eq_one hquit
      have := size_supply_le s₁
      omega

/-- A statement that failed leaves a smaller state when it is given up. -/
theorem size_giveUp_of_statement {limit : Limit} {f : Fault} {s s' : State σ} (k : Kind)
    (h : s.statement limit = .fault f s') : (s'.giveUp k).2.size < s.size :=
  Nat.lt_of_le_of_lt (size_giveUp_le k s') (size_supply_statement h)

end Reckoner.State
