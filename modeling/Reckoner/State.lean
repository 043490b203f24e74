/-
  The state a calculation works on, and its actions.

  A `State` has a supply of tokens, a slot for one token that was put back, and
  the variables. `token` takes the token in the slot before any other. `hold`
  fills the slot, which must be free. `giveUp` gives up what is left of a
  statement. The size of a state counts the token in the slot and the supply:
  `token` lowers it by the weight of the token, `hold` raises it by as much.
  No action but these two moves it, and none adds to the supply (`Frugal`).
-/
import Reckoner.Supply
import Reckoner.Scope

namespace Reckoner

structure State (σ : Type) where
  supply : σ
  slot : Option Token
  vars : Bindings
  deriving DecidableEq

namespace State

variable {σ α β : Type}

/-! ## Steps -/

/-- Puts a token into the slot. -/
def hold (s : State σ) (t : Token) : Outcome (State σ) Unit :=
  match s.slot with
  | some _ => .fault .slotTaken s
  | none => .ok () { s with slot := some t }

/-- Puts a token back and answers. -/
def answer (s : State σ) (t : Token) (a : α) : Outcome (State σ) α :=
  (s.hold t).andThen fun _ s => .ok a s

/-- Puts a token back and fails. -/
def refuse (s : State σ) (t : Token) (f : Fault) : Outcome (State σ) α :=
  (s.hold t).andThen fun _ s => .fault f s

/-- The value of a variable. -/
def lookup (s : State σ) (name : String) : Outcome (State σ) Float :=
  match s.vars.lookup name with
  | some value => .ok value s
  | none => .fault (.unknownName name) s

/-- Gives a variable a value. -/
def assign (s : State σ) (name : String) (value : Float) : State σ :=
  { s with vars := s.vars.assign name value }

theorem refuse_ne_ok {s s' : State σ} {t : Token} {f : Fault} {a : α} :
    s.refuse t f ≠ .ok a s' := by
  intro h
  obtain ⟨u, s₁, -, hf⟩ := Outcome.andThen_eq_ok.mp h
  cases hf

variable [Supply σ]

/-- A state with nothing in its slot. -/
def ofSupply (supply : σ) (vars : Bindings) : State σ := ⟨supply, none, vars⟩

/-- The next token: the one in the slot, or one from the supply. -/
def token (s : State σ) : Outcome (State σ) Token :=
  match s.slot with
  | some t => .ok t { s with slot := none }
  | none => (Supply.next s.supply).inside fun supply => { s with supply }

/-- What was put back is what comes next. -/
theorem token_of_hold {s s' : State σ} {t : Token} {u : Unit} (h : s.hold t = .ok u s') :
    s'.token = .ok t s := by
  obtain ⟨supply, slot, vars⟩ := s
  cases slot with
  | some t' => cases h
  | none =>
    injection h with _ hs
    subst hs
    rfl

/-! ## Sizes -/

/-- The size of the slot. -/
def slotSize (s : State σ) : Nat := (s.slot.map Token.weight).getD 0

/-- The slot and all that is left of the supply. -/
def size (s : State σ) : Nat := s.slotSize + Supply.size s.supply

theorem size_token {s s' : State σ} {t : Token} (h : s.token = .ok t s') :
    s'.size + t.weight ≤ s.size := by
  obtain ⟨supply, slot, vars⟩ := s
  cases slot with
  | some t' =>
    injection h with ht hs
    subst ht hs
    simp [size, slotSize]
    omega
  | none =>
    simp only [token] at h
    cases hn : Supply.next supply with
    | fault f supply' =>
      rw [hn] at h
      cases h
    | ok t' supply' =>
      rw [hn] at h
      injection h with ht hs
      subst ht hs
      simpa [size, slotSize] using Supply.size_next_ok hn

theorem size_hold {s s' : State σ} {t : Token} {u : Unit} (h : s.hold t = .ok u s') :
    s'.size = s.size + t.weight := by
  obtain ⟨supply, slot, vars⟩ := s
  cases slot with
  | some t' => cases h
  | none =>
    injection h with _ hs
    subst hs
    simp [size, slotSize]
    omega

theorem size_answer {s s' : State σ} {t : Token} {a b : α} (h : s.answer t a = .ok b s') :
    s'.size = s.size + t.weight := by
  obtain ⟨u, s₁, hput, hok⟩ := Outcome.andThen_eq_ok.mp h
  injection hok with _ hs
  exact hs ▸ size_hold hput

theorem size_lookup {s s' : State σ} {name : String} {v : Float} (h : s.lookup name = .ok v s') :
    s'.size = s.size := by
  unfold lookup at h
  split at h
  · injection h with _ hs
    rw [hs]
  · cases h

@[simp] theorem size_assign (s : State σ) (name : String) (value : Float) :
    (s.assign name value).size = s.size := rfl

/-! ## Giving up -/

/-- Gives up the statement. A token of the kind in the slot ends it; else the
    slot is emptied and the supply drops up to the next of the kind. The count
    is of what the supply dropped before it. -/
def giveUp (kind : Kind) (s : State σ) : Option Nat × State σ :=
  if s.slot.any (·.kind = kind) then (none, { s with slot := none })
  else
    let (skipped, supply) := Supply.skipPast kind s.supply
    (some skipped, { s with supply, slot := none })

@[simp] theorem slot_giveUp (kind : Kind) (s : State σ) : (s.giveUp kind).2.slot = none := by
  unfold giveUp
  split <;> rfl

@[simp] theorem vars_giveUp (kind : Kind) (s : State σ) :
    (s.giveUp kind).2.vars = s.vars := by
  unfold giveUp
  split <;> rfl

/-- What is given up leaves a state no larger than the supply was. -/
theorem size_giveUp_le (kind : Kind) (s : State σ) :
    (s.giveUp kind).2.size ≤ Supply.size s.supply := by
  have hskip := Supply.size_skipPast kind s.supply
  unfold size slotSize
  rw [slot_giveUp]
  unfold giveUp
  split
  · simp
  · simpa using hskip

/-! ## Steps that add nothing to the supply -/

/-- Whatever it leaves, the supply is no larger. -/
def Frugal (step : State σ → Outcome (State σ) α) : Prop :=
  ∀ s, Supply.size (step s).state.supply ≤ Supply.size s.supply

namespace Frugal

theorem of_supply_eq {step : State σ → Outcome (State σ) α}
    (h : ∀ s, (step s).state.supply = s.supply) : Frugal step :=
  fun s => Nat.le_of_eq (congrArg Supply.size (h s))

theorem le_of_ok {step : State σ → Outcome (State σ) α} (h : Frugal step) {s s' : State σ} {a : α}
    (hs : step s = .ok a s') : Supply.size s'.supply ≤ Supply.size s.supply := by
  have := h s
  rwa [hs] at this

theorem le_of_fault {step : State σ → Outcome (State σ) α} (h : Frugal step) {s s' : State σ}
    {f : Fault} (hs : step s = .fault f s') : Supply.size s'.supply ≤ Supply.size s.supply := by
  have := h s
  rwa [hs] at this

theorem ok (a : α) : Frugal fun s : State σ => .ok a s := of_supply_eq fun _ => rfl

theorem fault (f : Fault) : Frugal fun s : State σ => (.fault f s : Outcome (State σ) α) :=
  of_supply_eq fun _ => rfl

theorem andThen {step : State σ → Outcome (State σ) α} {k : α → State σ → Outcome (State σ) β}
    (hstep : Frugal step) (hk : ∀ a, Frugal (k a)) : Frugal fun s => (step s).andThen k := by
  intro s
  have h := hstep s
  dsimp only
  cases hs : step s with
  | ok a s₁ =>
    rw [hs] at h
    exact Nat.le_trans (hk a s₁) h
  | fault f s₁ =>
    rw [hs] at h
    exact h

theorem ite {c : Prop} [Decidable c] {m n : State σ → Outcome (State σ) α} (hm : Frugal m)
    (hn : Frugal n) : Frugal fun s => if c then m s else n s := by
  intro s
  dsimp only
  split
  · exact hm s
  · exact hn s

theorem token : Frugal fun s : State σ => s.token := by
  intro s
  obtain ⟨supply, slot, vars⟩ := s
  cases slot with
  | some t => exact Nat.le_refl _
  | none =>
    simp only [State.token, Outcome.state_inside]
    cases hn : Supply.next supply with
    | ok t supply' => exact Nat.le_trans (Nat.le_add_right _ _) (Supply.size_next_ok hn)
    | fault f supply' => exact Nat.le_of_lt (Supply.size_next_fault hn)

theorem hold (t : Token) : Frugal fun s : State σ => s.hold t :=
  of_supply_eq fun s => by unfold State.hold; split <;> rfl

theorem answer (t : Token) (a : α) : Frugal fun s : State σ => s.answer t a :=
  (hold t).andThen fun _ => ok a

theorem refuse (t : Token) (f : Fault) :
    Frugal fun s : State σ => (s.refuse t f : Outcome (State σ) α) :=
  (hold t).andThen fun _ => fault f

theorem lookup (name : String) : Frugal fun s : State σ => s.lookup name :=
  of_supply_eq fun s => by unfold State.lookup; split <;> rfl

end Frugal

end State

end Reckoner
