/-
  Two runs of the rules, side by side.

  A `Lockstep` is a relation between two states that the actions keep: `joined`
  between two actions, `drawn` while a token was taken and is not yet put back,
  `failed` when a fault ended both runs. The rules take no token behind a `;` or a
  `quit`, for one that meets it puts it back. So `drawn` states need to be joined
  again only if their token was neither. The rules look up no names but those of
  tokens they took (`named`), and set none but where an assignment sign came next.
  On a frail stack both runs may end with a token that they took and lost (`Loses`).

  Proved: from joined states each rule does the same and leaves joined states or
  failed ones (`follows_rules`), and so does a statement behind its first token
  (`statementFrom`). Where a `;` does not part the two runs (`Through`), so does a
  whole statement (`statement`). The inductions are along the loops of the first run.

  What the actions of one run keep is an `Invariant`. It is a lockstep of the run
  with itself, so the same holds of it.
-/
import Reckoner.Proofs.Intake
import Reckoner.Proofs.Loops

namespace Reckoner

open State

/-- Both end with the same value or the same fault, in related states. -/
inductive Outcome.Both {σ τ α : Type} (Q : α → σ → τ → Prop) (F : Fault → σ → τ → Prop) :
    Outcome σ α → Outcome τ α → Prop where
  | ok {a : α} {s : σ} {u : τ} (h : Q a s u) : Both Q F (.ok a s) (.ok a u)
  | fault {f : Fault} {s : σ} {u : τ} (h : F f s u) : Both Q F (.fault f s) (.fault f u)

namespace Outcome.Both

variable {σ τ α β : Type} {F : Fault → σ → τ → Prop}

theorem andThen {Q : α → σ → τ → Prop} {R : β → σ → τ → Prop} {o : Outcome σ α} {o' : Outcome τ α}
    {k : α → σ → Outcome σ β} {k' : α → τ → Outcome τ β} (h : Both Q F o o')
    (hk : ∀ a s u, o = .ok a s → Q a s u → Both R F (k a s) (k' a u)) :
    Both R F (o.andThen k) (o'.andThen k') := by
  cases h with
  | ok h => exact hk _ _ _ rfl h
  | fault h => exact .fault h

theorem mono {Q R : α → σ → τ → Prop} {o : Outcome σ α} {o' : Outcome τ α} (h : Both Q F o o')
    (hQ : ∀ a s u, Q a s u → R a s u) : Both R F o o' := by
  cases h with
  | ok h => exact .ok (hQ _ _ _ h)
  | fault h => exact .fault h

/-- What only passes a value on leaves what gave it. -/
theorem passed {P : σ → τ → Prop} {o : Outcome σ α} {o' : Outcome τ α}
    (h : Both (fun _ => P) F o o') (k : α → β) :
    Both (fun _ => P) F (o.andThen fun a s => .ok (k a) s) (o'.andThen fun a s => .ok (k a) s) :=
  h.andThen fun _ _ _ _ h => .ok h

end Outcome.Both

open Outcome (Both)

/-- Whether the rules raise the fault: not the supply, the slot or a name. -/
def Fault.ofRule : Fault → Bool
  | .operandExpected | .closingExpected | .notAssignable | .tooDeep | .zeroDivisor
  | .noRemainder => true
  | _ => false

theorem Operator.ofRule_of_apply {op : Operator} {x y : Float} {f : Fault}
    (h : op.apply x y = .error f) : f.ofRule = true := by
  obtain ⟨-, -, rfl⟩ | ⟨-, -, -, rfl⟩ := apply_eq_error_iff.mp h <;> rfl

/-- A relation between the states of two runs that their actions keep. -/
structure Lockstep (σ τ : Type) [Supply σ] [Supply τ] where
  joined : State σ → State τ → Prop
  /-- What joined states are when the token was taken. -/
  drawn : Token → State σ → State τ → Prop
  /-- What they are when a fault ended both runs. -/
  failed : Fault → State σ → State τ → Prop
  /-- The names that tokens can have. -/
  named : String → Prop
  slot {s : State σ} {u : State τ} : joined s u → s.slot = u.slot
  token {s : State σ} {u : State τ} : joined s u → Both drawn failed s.token u.token
  hold {t : Token} {s : State σ} {u : State τ} :
    drawn t s u → Both (fun _ => joined) failed (s.hold t) (u.hold t)
  joined_of_drawn {t : Token} {s : State σ} {u : State τ} :
    drawn t s u → t.kind ≠ .print → t.kind ≠ .quit → joined s u
  named_of_drawn {t : Token} {s : State σ} {u : State τ} :
    drawn t s u → t.kind = .name → named t.name
  failed_of_joined {f : Fault} {s : State σ} {u : State τ} :
    joined s u → f.ofRule = true → failed f s u
  lookup {name : String} {s : State σ} {u : State τ} : joined s u → named name →
    Both (fun _ => joined) failed (s.lookup name) (u.lookup name)
  /-- A name is set that was just taken, to a sum that began behind an assignment sign. -/
  assign {limit : Limit} {t sign : Token} {value : Float} {s s₁ s₂ : State σ} {u u₂ : State τ} :
    drawn t s u → t.kind = .name → s.token = .ok sign s₁ → sign.kind = .assign →
    (Rule.sum limit).run s₁ = .ok value s₂ → joined s₂ u₂ →
    joined (s₂.assign t.name value) (u₂.assign t.name value)

/-- A name that both have alike gives the same value. -/
theorem State.both_lookup {σ τ : Type} {Q : Float → State σ → State τ → Prop}
    {F : Fault → State σ → State τ → Prop} {s : State σ} {u : State τ} {name : String}
    (same : s.vars.lookup name = u.vars.lookup name) (found : ∀ value, Q value s u)
    (unknown : F (.unknownName name) s u) :
    Both Q F (s.lookup name) (u.lookup name) := by
  unfold State.lookup
  rw [same]
  cases u.vars.lookup name with
  | some value => exact .ok (found value)
  | none => exact .fault unknown

namespace Lockstep

variable {σ τ : Type} [Supply σ] [Supply τ] {L : Lockstep σ τ} {s : State σ} {u : State τ}
  {t : Token}

theorem answer {α : Type} {a : α} (h : L.drawn t s u) :
    Both (fun _ => L.joined) L.failed (s.answer t a) (u.answer t a) :=
  (L.hold h).andThen fun _ _ _ _ h => .ok h

theorem refuse {α : Type} {f : Fault} (h : L.drawn t s u) (ofRule : f.ofRule = true) :
    Both (fun _ : α => L.joined) L.failed (s.refuse t f) (u.refuse t f) :=
  (L.hold h).andThen fun _ _ _ _ h => .fault (L.failed_of_joined h ofRule)

/-! ## Rules -/

/-- A token that was taken may be lost where a run ends. -/
def Loses (L : Lockstep σ τ) : Prop :=
  ∀ ⦃t : Token⦄ ⦃s : State σ⦄ ⦃u : State τ⦄, L.drawn t s u → L.failed .tooDeep s u

/-- From joined states two rules do the same and leave joined states. -/
def Follows (L : Lockstep σ τ) (r : Rule σ) (r' : Rule τ) : Prop :=
  ∀ s u, L.joined s u → Both (fun _ => L.joined) L.failed (r.run s) (r'.run u)

open Rule (chainFrom signs operatorAt)

/-- A token of a kind that goes on with an expression leaves joined states. -/
theorem joined_of_kind {k : Kind} (h : L.drawn t s u) (hk : t.kind = k) (notPrint : k ≠ .print)
    (notQuit : k ≠ .quit) : L.joined s u :=
  L.joined_of_drawn h (by rw [hk]; exact notPrint) (by rw [hk]; exact notQuit)

theorem follows_chainFrom {p : Nat} {r : Rule σ} {r' : Rule τ} (hr : L.Follows r r')
    (left : Float) (h : L.joined s u) :
    Both (fun _ => L.joined) L.failed (chainFrom p r left s) (chainFrom p r' left u) := by
  induction s using Rule.chainInduction r generalizing u left with
  | turn s ih =>
    rw [Rule.chainFrom_eq p r left s, Rule.chainFrom_eq p r' left u]
    refine (L.token h).andThen ?_
    intro t s₁ u₁ htoken drawn
    cases hop : operatorAt p t.kind with
    | none => exact answer drawn
    | some op =>
      obtain ⟨isOperator, -⟩ := Rule.operatorAt_eq_some_iff.mp hop
      have joined := joined_of_kind drawn isOperator Kind.noConfusion Kind.noConfusion
      refine (hr s₁ u₁ joined).andThen ?_
      intro right s₂ u₂ hrun h₂
      cases happly : op.apply left right with
      | error f => exact .fault (L.failed_of_joined h₂ (Operator.ofRule_of_apply happly))
      | ok value => exact ih t s₁ right s₂ htoken hrun value h₂

theorem follows_chain {p : Nat} {r : Unit → Rule σ} {r' : Unit → Rule τ}
    (hr : L.Follows (r ()) (r' ())) : L.Follows (Rule.chain p r) (Rule.chain p r') := by
  intro s u h
  exact (hr s u h).andThen fun left s₁ u₁ _ h₁ => follows_chainFrom hr left h₁

theorem follows_signs (turned : Bool) (h : L.joined s u) :
    Both (fun _ => L.joined) L.failed (signs turned s) (signs turned u) := by
  induction s using State.tokenInduction generalizing u turned with
  | turn s ih =>
    rw [Rule.signs_eq turned s, Rule.signs_eq turned u]
    refine (L.token h).andThen ?_
    intro t s₁ u₁ htoken drawn
    by_cases isMinus : t.kind = .operator .subtract
    · rw [if_pos isMinus, if_pos isMinus]
      have joined := joined_of_kind drawn isMinus Kind.noConfusion Kind.noConfusion
      exact ih t s₁ htoken (by rw [isMinus]; exact Kind.noConfusion) (!turned) joined
    · rw [if_neg isMinus, if_neg isMinus]
      exact answer drawn

theorem follows_enclosed {sum : Rule σ} {sum' : Rule τ} (hsum : L.Follows sum sum')
    (h : L.joined s u) :
    Both (fun _ => L.joined) L.failed (Rule.enclosed sum s) (Rule.enclosed sum' u) := by
  refine (hsum s u h).andThen ?_
  intro value s₁ u₁ _ h₁
  refine (L.token h₁).andThen ?_
  intro t s₂ u₂ _ drawn
  by_cases closes : t.kind = .closing
  · rw [if_pos closes, if_pos closes]
    exact .ok (joined_of_kind drawn closes Kind.noConfusion Kind.noConfusion)
  · rw [if_neg closes, if_neg closes]
    exact refuse drawn rfl

theorem follows_signed {r : Rule σ} {r' : Rule τ} (hr : L.Follows r r') (h : L.joined s u) :
    Both (fun _ => L.joined) L.failed (Rule.signed r s) (Rule.signed r' u) := by
  refine (follows_signs true h).andThen ?_
  intro turned s₁ u₁ _ h₁
  exact (hr s₁ u₁ h₁).andThen fun value s₂ u₂ _ h₂ => .ok h₂

section Operands

variable {limit : Limit} (hsum : L.Follows (Rule.sum limit) (Rule.sum limit))
include hsum

theorem follows_named (drawn : L.drawn t s u) (isName : t.kind = .name) :
    Both (fun _ => L.joined) L.failed (Rule.named (Rule.sum limit) t.name s)
      (Rule.named (Rule.sum limit) t.name u) := by
  have h := joined_of_kind drawn isName Kind.noConfusion Kind.noConfusion
  refine (L.token h).andThen ?_
  intro sign s₁ u₁ htoken next
  by_cases isAssign : sign.kind = .assign
  · rw [if_pos isAssign, if_pos isAssign]
    have joined := joined_of_kind next isAssign Kind.noConfusion Kind.noConfusion
    refine (hsum s₁ u₁ joined).andThen ?_
    intro value s₂ u₂ hrun h₂
    exact .ok (L.assign drawn isName htoken isAssign hrun h₂)
  · rw [if_neg isAssign, if_neg isAssign]
    exact (L.hold next).andThen fun _ s₂ u₂ _ h₂ => L.lookup h₂ (L.named_of_drawn drawn isName)

theorem follows_begun {operand : Unit → Rule σ} {operand' : Unit → Rule τ}
    (hoperand : L.Follows (operand ()) (operand' ())) (h : L.drawn t s u) :
    Both (fun _ => L.joined) L.failed (Rule.begun (fun _ => Rule.sum limit) operand t s)
      (Rule.begun (fun _ => Rule.sum limit) operand' t u) := by
  unfold Rule.begun
  cases hk : t.kind with
  | number => exact .ok (joined_of_kind h hk Kind.noConfusion Kind.noConfusion)
  | opening => exact follows_enclosed hsum (joined_of_kind h hk Kind.noConfusion Kind.noConfusion)
  | name => exact follows_named hsum h hk
  | operator op =>
    cases op with
    | subtract => exact follows_signed hoperand (joined_of_kind h hk Kind.noConfusion Kind.noConfusion)
    | _ => exact refuse h rfl
  | _ => exact refuse h rfl

theorem follows_single {operand : Unit → Rule σ} {operand' : Unit → Rule τ}
    (hoperand : L.Follows (operand ()) (operand' ())) :
    L.Follows (Rule.single (fun _ => Rule.sum limit) operand)
      (Rule.single (fun _ => Rule.sum limit) operand') := by
  intro s u h
  exact (L.token h).andThen fun t s₁ u₁ _ drawn => follows_begun hsum hoperand drawn

end Operands

/-- The rule that is one too many may lose the same token on both sides. -/
theorem follows_brink {frail : Bool} (loses : frail = true → L.Loses) :
    L.Follows (Rule.brink frail) (Rule.brink frail) := by
  have lost (isFrail : frail = true) {s : State σ} {u : State τ} (h : L.joined s u) :
      Both (fun _ : Float => L.joined) L.failed (Rule.lose s) (Rule.lose u) :=
    (L.token h).andThen fun _ _ _ _ drawn => .fault (loses isFrail drawn)
  intro s u h
  have slot := L.slot h
  have deep : Both (fun _ : Float => L.joined) L.failed (.fault .tooDeep s) (.fault .tooDeep u) :=
    .fault (L.failed_of_joined h rfl)
  cases frail with
  | false => exact deep
  | true =>
    cases hslot : u.slot with
    | none =>
      rw [Rule.run_brink_frail (slot.trans hslot), Rule.run_brink_frail hslot]
      exact lost rfl h
    | some t =>
      have htoken := token_of_ahead (ahead_of_slot (slot.trans hslot))
      by_cases isName : t.kind = .name
      · rw [Rule.run_brink_name (slot.trans hslot) isName, Rule.run_brink_name hslot isName]
        refine (L.token h).andThen fun t' s₁ u₁ taken drawn => lost rfl ?_
        injection htoken.symm.trans taken with ht
        subst ht
        exact joined_of_kind drawn isName Kind.noConfusion Kind.noConfusion
      · rw [Rule.run_brink_held (slot.trans hslot) isName, Rule.run_brink_held hslot isName]
        exact deep

/-- The rules follow those on the other supply, whatever the limit. -/
theorem follows_rules (L : Lockstep σ τ) (limit : Limit) (loses : limit.frail = true → L.Loses) :
    L.Follows (Rule.sum limit) (Rule.sum limit) ∧
      L.Follows (Rule.product limit) (Rule.product limit) ∧
      L.Follows (Rule.operand limit) (Rule.operand limit) := by
  obtain ⟨n, frail⟩ := limit
  induction n with
  | zero =>
    have deep : L.Follows Rule.tooDeep Rule.tooDeep := fun _ _ h => .fault (L.failed_of_joined h rfl)
    exact ⟨deep, follows_brink loses, follows_brink loses⟩
  | succ n ih =>
    obtain ⟨ihSum, ihProduct, ihOperand⟩ := ih loses
    rw [Rule.sum_succ, Rule.sum_succ, Rule.product_succ, Rule.product_succ, Rule.operand_succ,
      Rule.operand_succ]
    exact ⟨follows_chain ihProduct, follows_chain ihOperand, follows_single ihSum ihOperand⟩

/-- So do the operands that can divide. -/
theorem follows_divisor (L : Lockstep σ τ) (limit : Limit) (loses : limit.frail = true → L.Loses)
    {s : State σ} {u : State τ} (h : L.joined s u) :
    Both (fun _ => L.joined) L.failed (Rule.divisor limit s) (Rule.divisor limit u) := by
  refine ((L.follows_rules limit loses).2.2 s u h).andThen ?_
  intro value s₁ u₁ _ h₁
  cases hzero : value == 0 with
  | true =>
    rw [Operator.divisor_zero hzero]
    exact .fault (L.failed_of_joined h₁ rfl)
  | false =>
    rw [Operator.divisor_nonzero hzero]
    exact .ok h₁

/-! ## Statements -/

theorem close (h : L.joined s u) (value : Float) :
    Both (fun v s u => v ≠ none ∧ L.joined s u) L.failed (s.close value) (u.close value) := by
  refine (L.token h).andThen ?_
  intro t s₁ u₁ _ drawn
  refine (L.hold drawn).andThen ?_
  intro _ s₂ u₂ _ h₂
  by_cases isAssign : t.kind = .assign
  · rw [if_pos isAssign, if_pos isAssign]
    exact .fault (L.failed_of_joined h₂ rfl)
  · rw [if_neg isAssign, if_neg isAssign]
    exact .ok ⟨Option.some_ne_none value, h₂⟩

theorem statementFrom (limit : Limit) (loses : limit.frail = true → L.Loses) (h : L.drawn t s u) :
    Both (fun v s u => v ≠ none ∧ L.joined s u) L.failed
      (s.statementFrom limit t) (u.statementFrom limit t) := by
  refine (L.hold h).andThen ?_
  intro _ s₁ u₁ _ h₁
  refine ((follows_rules L limit loses).1 s₁ u₁ h₁).andThen ?_
  intro value s₂ u₂ _ h₂
  exact close h₂ value

/-- A `;` does not part the two runs. -/
def Through (L : Lockstep σ τ) : Prop :=
  ∀ t s u, L.drawn t s u → t.kind = .print → L.joined s u

theorem firstToken (through : L.Through) (h : L.joined s u) :
    Both (fun t s u => L.drawn t s u ∧ t.kind ≠ .print) L.failed s.firstToken u.firstToken := by
  induction s using State.tokenInduction generalizing u with
  | turn s ih =>
    rw [firstToken_eq s, firstToken_eq u]
    refine (L.token h).andThen ?_
    intro t s₁ u₁ htoken drawn
    by_cases isPrint : t.kind = .print
    · rw [if_pos isPrint, if_pos isPrint]
      exact ih t s₁ htoken (by rw [isPrint]; exact Kind.noConfusion) (through t s₁ u₁ drawn isPrint)
    · rw [if_neg isPrint, if_neg isPrint]
      exact .ok ⟨drawn, isPrint⟩

/-- Both have the same statement. Where there is none a `quit` was taken. -/
theorem statement (through : L.Through) (limit : Limit) (loses : limit.frail = true → L.Loses)
    (h : L.joined s u) :
    Both (fun v s u => (v ≠ none → L.joined s u) ∧
        (v = none → ∃ t, L.drawn t s u ∧ t.kind = .quit)) L.failed
      (s.statement limit) (u.statement limit) := by
  refine (firstToken through h).andThen ?_
  intro t s₁ u₁ _ ⟨drawn, _⟩
  by_cases isQuit : t.kind = .quit
  · rw [if_pos isQuit, if_pos isQuit]
    exact .ok ⟨fun hne => absurd rfl hne, fun _ => ⟨t, drawn, isQuit⟩⟩
  · rw [if_neg isQuit, if_neg isQuit]
    exact (statementFrom limit loses drawn).mono fun v s u ⟨hv, h⟩ =>
      ⟨fun _ => h, fun hn => absurd hn hv⟩

end Lockstep

/-! ## One run -/

/-- A property of states that the actions keep. -/
structure Invariant (σ : Type) [Supply σ] where
  holds : State σ → Prop
  /-- What is so when the token was taken. -/
  drawn : Token → State σ → Prop
  token {s s' : State σ} {t : Token} : holds s → s.token = .ok t s' → drawn t s'
  fault {s s' : State σ} {f : Fault} : holds s → s.token = .fault f s' → holds s'
  slot {t : Token} {s : State σ} : drawn t s → s.slot = none
  hold {t : Token} {s : State σ} : drawn t s → holds { s with slot := some t }
  holds_of_drawn {t : Token} {s : State σ} : drawn t s → t.kind ≠ .print → holds s
  assign {s : State σ} : holds s → ∀ name value, holds (s.assign name value)

namespace Invariant

variable {σ : Type} [Supply σ]

/-- A property of the supply, and of whether a `;` was taken from it and is in the
    slot, is kept if the supply keeps it with each token. -/
def ofNext (P : Bool → σ → Prop)
    (ok : ∀ a b t, P false a → Supply.next a = .ok t b → P (t.kind = .print) b)
    (fault : ∀ a b f, P false a → Supply.next a = .fault f b → P false b) : Invariant σ where
  holds s := P (s.slot.any fun (t : Token) => t.kind = .print) s.supply
  drawn t s := s.slot = none ∧ P (t.kind = .print) s.supply
  token := by
    rintro ⟨supply, slot, vars⟩ s' t h htoken
    cases slot with
    | some t' =>
      injection htoken with ht hs
      subst ht hs
      exact ⟨rfl, h⟩
    | none =>
      change (Supply.next supply).inside _ = _ at htoken
      cases hnext : Supply.next supply with
      | fault f supply' =>
        rw [hnext] at htoken
        cases htoken
      | ok t' supply' =>
        rw [hnext] at htoken
        injection htoken with ht hs
        subst ht hs
        exact ⟨rfl, ok _ _ _ h hnext⟩
  fault := by
    rintro ⟨supply, slot, vars⟩ s' f h htoken
    cases slot with
    | some t' => cases htoken
    | none =>
      change (Supply.next supply).inside _ = _ at htoken
      cases hnext : Supply.next supply with
      | ok t' supply' =>
        rw [hnext] at htoken
        cases htoken
      | fault f' supply' =>
        rw [hnext] at htoken
        injection htoken with _ hs
        subst hs
        exact fault _ _ _ h hnext
  slot h := h.1
  hold h := h.2
  holds_of_drawn := by
    rintro t ⟨supply, slot, vars⟩ ⟨hslot, h⟩ notPrint
    subst hslot
    rw [decide_eq_false notPrint] at h
    exact h
  assign h _ _ := h

variable (I : Invariant σ)

/-- A run that ended keeps it, but for a token that it lost. -/
def Ends (frail : Bool) {α : Type} (o : Outcome (State σ) α) : Prop :=
  I.holds o.state ∨ frail = true ∧ ∃ s t, o = .fault .tooDeep s ∧ I.drawn t s

/-- A run beside itself. -/
def lockstep (frail : Bool) : Lockstep σ σ where
  joined s u := s = u ∧ I.holds s
  drawn t s u := s = u ∧ I.drawn t s
  failed f s u := s = u ∧ (I.holds s ∨ frail = true ∧ f = .tooDeep ∧ ∃ t, I.drawn t s)
  named _ := True
  slot h := h.1 ▸ rfl
  token := by
    rintro s u ⟨rfl, h⟩
    cases htoken : s.token with
    | ok t s' => exact .ok ⟨rfl, I.token h htoken⟩
    | fault f s' => exact .fault ⟨rfl, .inl (I.fault h htoken)⟩
  hold := by
    rintro t s u ⟨rfl, h⟩
    have hok : s.hold t = .ok () { s with slot := some t } := by rw [State.hold, I.slot h]
    rw [hok]
    exact .ok ⟨rfl, I.hold h⟩
  joined_of_drawn := fun ⟨same, h⟩ notPrint _ => ⟨same, I.holds_of_drawn h notPrint⟩
  named_of_drawn _ _ := trivial
  failed_of_joined h _ := ⟨h.1, .inl h.2⟩
  lookup h _ := State.both_lookup (h.1 ▸ rfl) (fun _ => h) ⟨h.1, .inl h.2⟩
  assign _ _ _ _ _ h := ⟨h.1 ▸ rfl, I.assign h.2 _ _⟩

theorem loses {frail : Bool} (h : frail = true) : (I.lockstep frail).Loses :=
  fun _ _ _ drawn => ⟨drawn.1, .inr ⟨h, rfl, _, drawn.2⟩⟩

variable {I}

/-- What a run beside itself keeps, it keeps to its end. -/
theorem ends_of_both {frail : Bool} {α : Type} {Q : α → State σ → State σ → Prop}
    {o : Outcome (State σ) α} (both : Both Q (I.lockstep frail).failed o o)
    (hQ : ∀ a s u, Q a s u → I.holds s) : I.Ends frail o := by
  cases both with
  | ok h => exact .inl (hQ _ _ _ h)
  | fault h =>
    obtain ⟨-, holds | ⟨isFrail, rfl, t, drawn⟩⟩ := h
    · exact .inl holds
    · exact .inr ⟨isFrail, _, t, rfl, drawn⟩

/-- Where a `;` that was taken keeps it, any token may be lost. -/
theorem Ends.state {frail : Bool} {α : Type} {o : Outcome (State σ) α} (h : I.Ends frail o)
    (through : ∀ t s, I.drawn t s → t.kind = .print → I.holds s) : I.holds o.state := by
  obtain holds | ⟨-, s, t, rfl, drawn⟩ := h
  · exact holds
  · by_cases isPrint : t.kind = .print
    · exact through t s drawn isPrint
    · exact I.holds_of_drawn drawn isPrint

/-- A statement keeps it behind its first token, however it ends. -/
theorem ends_statementFrom {s : State σ} {t : Token} (h : I.drawn t s) (limit : Limit) :
    I.Ends limit.frail (s.statementFrom limit t) :=
  ends_of_both ((I.lockstep limit.frail).statementFrom limit I.loses (s := s) (u := s) ⟨rfl, h⟩)
    fun _ _ _ h => h.2.2

/-- So does a whole statement, from what is so behind its first token. -/
theorem ends_statement {s : State σ} (failed : ∀ f s₁, s.firstToken = .fault f s₁ → I.holds s₁)
    (begun : ∀ t s₁, s.firstToken = .ok t s₁ → I.drawn t s₁) (limit : Limit) :
    I.Ends limit.frail (s.statement limit) := by
  rw [State.statement]
  cases hfirst : s.firstToken with
  | fault f s₁ => exact .inl (failed f s₁ hfirst)
  | ok t s₁ =>
    have drawn := begun t s₁ hfirst
    rw [Outcome.andThen_ok]
    by_cases isQuit : t.kind = .quit
    · rw [if_pos isQuit]
      exact .inl (I.holds_of_drawn drawn (by rw [isQuit]; exact Kind.noConfusion))
    · rw [if_neg isQuit]
      exact ends_statementFrom drawn limit

section Through

variable (through : ∀ t s, I.drawn t s → t.kind = .print → I.holds s)
include through

/-- Where a `;` that was taken keeps it, so do any number of them in front of a token. -/
theorem firstToken {s : State σ} (h : I.holds s) :
    (∀ f s₁, s.firstToken = .fault f s₁ → I.holds s₁) ∧
      ∀ t s₁, s.firstToken = .ok t s₁ → I.drawn t s₁ := by
  have both := (I.lockstep false).firstToken (s := s) (u := s)
    (fun t s u drawn isPrint => ⟨drawn.1, through t s drawn.2 isPrint⟩) ⟨rfl, h⟩
  generalize s.firstToken = o at both
  cases both with
  | ok drawn =>
    refine ⟨nofun, fun t s₁ same => ?_⟩
    injection same with ht hs
    exact ht ▸ hs ▸ drawn.1.2
  | fault failed =>
    refine ⟨fun f s₁ same => ?_, nofun⟩
    injection same with hf hs
    exact hs ▸ failed.2.resolve_right fun lost => Bool.false_ne_true lost.1

/-- Then a whole statement keeps it, whatever token is lost. -/
theorem state_statement {s : State σ} (h : I.holds s) (limit : Limit) :
    I.holds (s.statement limit).state := by
  obtain ⟨failed, begun⟩ := firstToken through h
  exact (ends_statement failed begun limit).state through

end Through

/-- Two properties at once. -/
def and (I J : Invariant σ) : Invariant σ where
  holds s := I.holds s ∧ J.holds s
  drawn t s := I.drawn t s ∧ J.drawn t s
  token h htoken := ⟨I.token h.1 htoken, J.token h.2 htoken⟩
  fault h htoken := ⟨I.fault h.1 htoken, J.fault h.2 htoken⟩
  slot h := I.slot h.1
  hold h := ⟨I.hold h.1, J.hold h.2⟩
  holds_of_drawn h notPrint := ⟨I.holds_of_drawn h.1 notPrint, J.holds_of_drawn h.2 notPrint⟩
  assign h name value := ⟨I.assign h.1 name value, J.assign h.2 name value⟩

end Invariant

end Reckoner
