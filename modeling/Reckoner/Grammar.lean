/-
  The grammar, evaluated while it is read.

    sum     : product (('+' | '-') product)*
    product : operand (('*' | '/' | '%') operand)*
    operand : number
            | '(' sum ')'
            | '-' operand
            | name ('=' sum)?

  No tree is built: a `Rule` takes tokens from the state and leaves a value. A
  rule carries two laws on sizes. With a value it leaves a smaller state, and
  whatever it leaves, the supply is no larger. So the chains of operators and the
  runs of signs end, however long, without a bound given in advance.

  Nesting alone is bounded: a rule may have as many rules active at once as its
  `Limit` says, itself included. A parenthesis and an assignment take three, the
  signs before an operand one. Most rules beyond the limit do nothing. But where
  the stack is frail an operand one or two beyond it still asks for a token, and
  there is no room to keep what the supply gives: it is taken and lost (`brink`).
-/
import Reckoner.State

namespace Reckoner

open State

/-- How deep rules may nest. -/
structure Limit where
  /-- How many of them may be active at once. -/
  depth : Nat
  /-- Whether an operand just beyond them takes a token, and loses it. -/
  frail : Bool
  deriving DecidableEq

/-- Reads a value. -/
structure Rule (σ : Type) [Supply σ] where
  run : State σ → Outcome (State σ) Float
  /-- A value costs tokens. -/
  size_lt {s s' : State σ} {v : Float} : run s = .ok v s' → s'.size < s.size
  /-- No outcome adds to the supply. -/
  frugal : Frugal run

namespace Rule

variable {σ : Type} [Supply σ]

/-- The rule that is one too many. -/
def tooDeep : Rule σ where
  run s := .fault .tooDeep s
  size_lt h := nomatch h
  frugal := .fault _

/-- Takes a token and has no room for it. A bad one is told of before there is a token to keep. -/
def lose (s : State σ) : Outcome (State σ) Float := s.token.andThen fun _ s => .fault .tooDeep s

/-- The rule that is one too many, where an operand begins. Where the stack is frail it loses a
    token of the supply. One that was put back is left in the slot; but a name is taken, and
    the token behind it is lost. -/
def brink (frail : Bool) : Rule σ where
  run s :=
    if frail && s.slot.all (·.kind = .name) then lose { s with slot := none }
    else .fault .tooDeep s
  size_lt h := by
    split at h
    · obtain ⟨_, _, _, h⟩ := Outcome.andThen_eq_ok.mp h
      cases h
    · cases h
  frugal := by
    intro s
    dsimp only
    split
    · exact (Frugal.token.andThen fun _ => .fault _) { s with slot := none }
    · exact Nat.le_refl _

theorem run_brink_frail {s : State σ} (h : s.slot = none) : (brink true).run s = lose s := by
  obtain ⟨supply, slot, vars⟩ := s
  subst h
  rfl

theorem run_brink_name {s : State σ} {t : Token} (h : s.slot = some t) (isName : t.kind = .name) :
    (brink true).run s = s.token.andThen fun _ s => lose s := by
  obtain ⟨supply, slot, vars⟩ := s
  subst h
  exact if_pos (decide_eq_true isName)

theorem run_brink_held {frail : Bool} {s : State σ} {t : Token} (h : s.slot = some t)
    (notName : t.kind ≠ .name) : (brink frail).run s = .fault .tooDeep s := by
  show (if frail && s.slot.all (·.kind = .name) then _ else _) = _
  rw [h, Option.all_some, decide_eq_false notName, Bool.and_false, if_neg Bool.false_ne_true]

/-- All that can be done there. -/
theorem run_brink (frail : Bool) (s : State σ) : (brink frail).run s = .fault .tooDeep s ∨
    frail = true ∧ ((brink frail).run s = lose s ∨
      (∃ t, s.slot = some t ∧ t.kind = .name) ∧
        (brink frail).run s = s.token.andThen fun _ s => lose s) := by
  cases frail with
  | false => exact .inl rfl
  | true =>
    cases hslot : s.slot with
    | none => exact .inr ⟨rfl, .inl (run_brink_frail hslot)⟩
    | some t =>
      by_cases isName : t.kind = .name
      · exact .inr ⟨rfl, .inr ⟨⟨t, rfl, isName⟩, run_brink_name hslot isName⟩⟩
      · exact .inl (run_brink_held hslot isName)

theorem lose_ne_ok {s s' : State σ} {v : Float} : lose s ≠ .ok v s' := by
  intro h
  obtain ⟨_, _, _, h⟩ := Outcome.andThen_eq_ok.mp h
  cases h

theorem brink_ne_ok {frail : Bool} {s s' : State σ} {v : Float} :
    (brink frail).run s ≠ .ok v s' := by
  intro h
  obtain hrun | ⟨-, hrun | ⟨-, hrun⟩⟩ := run_brink frail s
  all_goals rw [hrun] at h
  · cases h
  · exact lose_ne_ok h
  · obtain ⟨_, _, _, h⟩ := Outcome.andThen_eq_ok.mp h
    exact lose_ne_ok h

/-! ## Chains of operators -/

/-- The operator that a kind is between products, at level 1, or between operands, at level 2. -/
def operatorAt : Nat → Kind → Option Operator
  | 1, .operator .add => some .add
  | 1, .operator .subtract => some .subtract
  | 2, .operator .multiply => some .multiply
  | 2, .operator .divide => some .divide
  | 2, .operator .remainder => some .remainder
  | _, _ => none

/-- The levels at which the rules read the operators are the precedences that these have in
    print. -/
theorem operatorAt_eq_some_iff {level : Nat} {k : Kind} {op : Operator} :
    operatorAt level k = some op ↔ k = .operator op ∧ op.precedence = level := by
  constructor
  · intro h
    unfold operatorAt at h
    split at h <;> cases h <;> exact ⟨rfl, rfl⟩
  · rintro ⟨rfl, rfl⟩
    cases op <;> rfl

/-- Applies the operators of one level as they come, from the left. The first token that is none
    of them is put back. -/
def chainFrom (level : Nat) (operand : Rule σ) (left : Float) (s : State σ) :
    Outcome (State σ) Float :=
  match _htoken : s.token with
  | .fault f s => .fault f s
  | .ok t s₁ =>
    match operatorAt level t.kind with
    | none => s₁.answer t left
    | some op =>
      match _hrun : operand.run s₁ with
      | .fault f s => .fault f s
      | .ok right s₂ =>
        match op.apply left right with
        | .error f => .fault f s₂
        | .ok value => chainFrom level operand value s₂
termination_by s.size
decreasing_by
  have := size_token _htoken
  have := operand.size_lt _hrun
  omega

theorem size_chainFrom {level : Nat} {operand : Rule σ} {left v : Float} {s s' : State σ}
    (h : chainFrom level operand left s = .ok v s') : s'.size ≤ s.size := by
  fun_induction chainFrom level operand left s with
  | case1 => cases h
  | case2 left s t s₁ htoken =>
    have := size_token htoken
    have := size_answer h
    omega
  | case3 => cases h
  | case4 => cases h
  | case5 left s t s₁ htoken op hop right s₂ hrun value happly ih =>
    have := size_token htoken
    have := operand.size_lt hrun
    have := ih h
    omega

theorem frugal_chainFrom (level : Nat) (operand : Rule σ) (left : Float) :
    Frugal (chainFrom level operand left) := by
  intro s
  fun_induction chainFrom level operand left s with
  | case1 left s f s₁ htoken => exact Frugal.token.le_of_fault htoken
  | case2 left s t s₁ htoken =>
    exact Nat.le_trans (Frugal.answer t left s₁) (Frugal.token.le_of_ok htoken)
  | case3 left s t s₁ htoken op hop f s₂ hrun =>
    exact Nat.le_trans (operand.frugal.le_of_fault hrun) (Frugal.token.le_of_ok htoken)
  | case4 left s t s₁ htoken op hop right s₂ hrun f happly =>
    exact Nat.le_trans (operand.frugal.le_of_ok hrun) (Frugal.token.le_of_ok htoken)
  | case5 left s t s₁ htoken op hop right s₂ hrun value happly ih =>
    exact Nat.le_trans ih
      (Nat.le_trans (operand.frugal.le_of_ok hrun) (Frugal.token.le_of_ok htoken))

/-- An operand, and what a chain makes of it. -/
def chain (level : Nat) (operand : Unit → Rule σ) : Rule σ where
  run s := ((operand ()).run s).andThen fun left s => chainFrom level (operand ()) left s
  size_lt h := by
    obtain ⟨left, s₁, hrun, hchain⟩ := Outcome.andThen_eq_ok.mp h
    have := (operand ()).size_lt hrun
    have := size_chainFrom hchain
    omega
  frugal := (operand ()).frugal.andThen fun _ => frugal_chainFrom _ _ _

/-! ## Operands -/

/-- Takes minus signs and tells whether, with those before, they turn the sign.
    The first other token is put back. -/
def signs (turned : Bool) (s : State σ) : Outcome (State σ) Bool :=
  match _htoken : s.token with
  | .fault f s => .fault f s
  | .ok t s₁ =>
    if _hminus : t.kind = .operator .subtract then signs (!turned) s₁ else s₁.answer t turned
termination_by s.size
decreasing_by
  have := size_token _htoken
  have := Token.weight_eq_one (t := t) (by rw [_hminus]; simp)
  omega

theorem size_signs {turned b : Bool} {s s' : State σ} (h : signs turned s = .ok b s') :
    s'.size ≤ s.size := by
  fun_induction signs turned s with
  | case1 => cases h
  | case2 turned s t s₁ htoken hminus ih =>
    have := size_token htoken
    have := ih h
    omega
  | case3 turned s t s₁ htoken =>
    have := size_token htoken
    have := size_answer h
    omega

theorem frugal_signs (turned : Bool) : Frugal fun s : State σ => signs turned s := by
  intro s
  dsimp only
  fun_induction signs turned s with
  | case1 turned s f s₁ htoken => exact Frugal.token.le_of_fault htoken
  | case2 turned s t s₁ htoken hminus ih => exact Nat.le_trans ih (Frugal.token.le_of_ok htoken)
  | case3 turned s t s₁ htoken =>
    exact Nat.le_trans (Frugal.answer t turned s₁) (Frugal.token.le_of_ok htoken)

/-- A value in parentheses, behind the opening one. -/
def enclosed (sum : Rule σ) (s : State σ) : Outcome (State σ) Float :=
  (sum.run s).andThen fun value s =>
  s.token.andThen fun t s =>
    if t.kind = .closing then .ok value s else s.refuse t .closingExpected

/-- A value behind a minus sign, and the signs that follow it. -/
def signed (operand : Rule σ) (s : State σ) : Outcome (State σ) Float :=
  (signs true s).andThen fun turned s =>
  (operand.run s).andThen fun value s =>
    .ok (if turned then -value else value) s

/-- The value of a name: of the sum it is assigned, or the one it has. -/
def named (sum : Rule σ) (name : String) (s : State σ) : Outcome (State σ) Float :=
  s.token.andThen fun t s =>
    if t.kind = .assign then
      (sum.run s).andThen fun value s => .ok value (s.assign name value)
    else
      (s.hold t).andThen fun _ s => s.lookup name

/-- The value that begins with a token. -/
def begun (sum operand : Unit → Rule σ) (t : Token) (s : State σ) : Outcome (State σ) Float :=
  match t.kind with
  | .number => .ok t.value s
  | .opening => enclosed (sum ()) s
  | .operator .subtract => signed (operand ()) s
  | .name => named (sum ()) t.name s
  | _ => s.refuse t .operandExpected

theorem size_enclosed {sum : Rule σ} {s s' : State σ} {v : Float}
    (h : enclosed sum s = .ok v s') : s'.size < s.size := by
  obtain ⟨value, s₁, hsum, h⟩ := Outcome.andThen_eq_ok.mp h
  obtain ⟨t, s₂, htoken, h⟩ := Outcome.andThen_eq_ok.mp h
  split at h
  · injection h with _ hs
    subst hs
    have := sum.size_lt hsum
    have := size_token htoken
    omega
  · exact absurd h refuse_ne_ok

theorem size_signed {operand : Rule σ} {s s' : State σ} {v : Float}
    (h : signed operand s = .ok v s') : s'.size < s.size := by
  obtain ⟨turned, s₁, hsigns, h⟩ := Outcome.andThen_eq_ok.mp h
  obtain ⟨value, s₂, hrun, h⟩ := Outcome.andThen_eq_ok.mp h
  injection h with _ hs
  subst hs
  have := size_signs hsigns
  have := operand.size_lt hrun
  omega

theorem size_named {sum : Rule σ} {name : String} {s s' : State σ} {v : Float}
    (h : named sum name s = .ok v s') : s'.size ≤ s.size := by
  obtain ⟨t, s₁, htoken, h⟩ := Outcome.andThen_eq_ok.mp h
  have := size_token htoken
  split at h
  · obtain ⟨value, s₂, hsum, h⟩ := Outcome.andThen_eq_ok.mp h
    injection h with _ hs
    subst hs
    have := sum.size_lt hsum
    rw [size_assign]
    omega
  · obtain ⟨_, s₂, hput, h⟩ := Outcome.andThen_eq_ok.mp h
    have := size_hold hput
    have := size_lookup h
    omega

theorem size_begun {sum operand : Unit → Rule σ} {t : Token} {s s' : State σ} {v : Float}
    (h : begun sum operand t s = .ok v s') : t.kind ≠ .quit ∧ s'.size ≤ s.size := by
  unfold begun at h
  split at h
  · next hk =>
    injection h with _ hs
    exact ⟨by simp [hk], Nat.le_of_eq (hs ▸ rfl)⟩
  · next hk => exact ⟨by simp [hk], Nat.le_of_lt (size_enclosed h)⟩
  · next hk => exact ⟨by simp [hk], Nat.le_of_lt (size_signed h)⟩
  · next hk => exact ⟨by simp [hk], size_named h⟩
  · exact absurd h refuse_ne_ok

theorem frugal_begun (sum operand : Unit → Rule σ) (t : Token) :
    Frugal (begun sum operand t) := by
  have henclosed : Frugal (enclosed (sum ())) :=
    (sum ()).frugal.andThen fun value =>
      Frugal.token.andThen fun t => .ite (.ok value) (.refuse t _)
  have hsigned : Frugal (signed (operand ())) :=
    (frugal_signs true).andThen fun turned =>
      (operand ()).frugal.andThen fun value => .ok _
  have hnamed : Frugal (named (sum ()) t.name) :=
    Frugal.token.andThen fun t' =>
      .ite ((sum ()).frugal.andThen fun value => .of_supply_eq fun s => rfl)
        ((Frugal.hold t').andThen fun _ => .lookup _)
  intro s
  unfold begun
  split
  · exact Nat.le_refl _
  · exact henclosed s
  · exact hsigned s
  · exact hnamed s
  · exact Frugal.refuse t _ s

/-- A number, a sum in parentheses, an operand behind signs, or a name. -/
def single (sum operand : Unit → Rule σ) : Rule σ where
  run s := s.token.andThen fun t s => begun sum operand t s
  size_lt h := by
    obtain ⟨t, s₁, htoken, hbegun⟩ := Outcome.andThen_eq_ok.mp h
    obtain ⟨hquit, hle⟩ := size_begun hbegun
    have := size_token htoken
    have := Token.weight_eq_one hquit
    omega
  frugal := Frugal.token.andThen fun t => frugal_begun sum operand t

/-! ## The rules -/

mutual

/-- Products, added and subtracted. -/
def sumWithin (frail : Bool) : Nat → Rule σ
  | 0 => tooDeep
  | n + 1 => chain 1 fun _ => productWithin frail n

/-- Operands, multiplied, divided and reduced. -/
def productWithin (frail : Bool) : Nat → Rule σ
  | 0 => brink frail
  | n + 1 => chain 2 fun _ => operandWithin frail n

/-- What operators stand between. -/
def operandWithin (frail : Bool) : Nat → Rule σ
  | 0 => brink frail
  | n + 1 => single (fun _ => sumWithin frail n) (fun _ => operandWithin frail n)

end

def sum (limit : Limit) : Rule σ := sumWithin limit.frail limit.depth

def product (limit : Limit) : Rule σ := productWithin limit.frail limit.depth

def operand (limit : Limit) : Rule σ := operandWithin limit.frail limit.depth

/-- An operand that can divide. -/
def divisor (limit : Limit) (s : State σ) : Outcome (State σ) Float :=
  ((operand limit).run s).andThen fun value s =>
    match Operator.divisor value with
    | .ok value => .ok value s
    | .error f => .fault f s

section Unfolding

variable {n : Nat} {frail : Bool}

theorem sum_zero : (sum ⟨0, frail⟩ : Rule σ) = tooDeep := rfl

theorem product_zero : (product ⟨0, frail⟩ : Rule σ) = brink frail := rfl

theorem operand_zero : (operand ⟨0, frail⟩ : Rule σ) = brink frail := rfl

theorem sum_succ : (sum ⟨n + 1, frail⟩ : Rule σ) = chain 1 fun _ => product ⟨n, frail⟩ := rfl

theorem product_succ : (product ⟨n + 1, frail⟩ : Rule σ) = chain 2 fun _ => operand ⟨n, frail⟩ := rfl

theorem operand_succ : (operand ⟨n + 1, frail⟩ : Rule σ) =
    single (fun _ => sum ⟨n, frail⟩) (fun _ => operand ⟨n, frail⟩) := rfl

end Unfolding

end Rule

end Reckoner
