/-
  The operations of a run, and how a session can end.

  The rules apply an operator as soon as they have both values. `sumOperations` and
  its companions list the operations of a run in order, by the recursion of the
  rules themselves; `State.operations` those of a statement and `sessionOperations`
  those of a session, however it goes.

  An outcome and the list tell of each other (`Accounts`): with a value all
  operations had one; with a fault of an operation the last is the one that failed,
  and with another fault none did.

  Proved: `status_of_interact`. A run of the program ends with 0 or 2, and with 2
  exactly if an infinite dividend was to leave a remainder.
-/
import Reckoner.Proofs.Derivation
import Reckoner.Proofs.Faults

namespace Reckoner

open State
open Outcome (Both)
open Rule (chainFrom operatorAt signs)

/-! ## Operations -/

/-- An operator with the two values it stands between. -/
structure Operation where
  left : Float
  operator : Operator
  right : Float
  deriving DecidableEq

/-- What becomes of it, if it has no value. -/
def Operation.fault (x : Operation) : Option Fault :=
  match x.operator.apply x.left x.right with
  | .error f => some f
  | .ok _ => none

theorem Operation.fault_eq_iff {x : Operation} {f : Fault} :
    x.fault = some f ↔ x.operator.apply x.left x.right = .error f := by
  unfold fault
  cases x.operator.apply x.left x.right <;> simp

/-- What is listed behind a value. Behind a fault there is nothing. -/
def Outcome.followed {σ α β : Type} (o : Outcome σ α) (k : α → σ → List β) : List β :=
  match o with
  | .ok a s => k a s
  | .fault _ _ => []

theorem Outcome.followed_nil {σ α β : Type} (o : Outcome σ α) :
    o.followed (fun _ _ => ([] : List β)) = [] := by
  cases o <;> rfl

section Lists

variable {σ : Type} [Supply σ]

/-- The operations of a chain, and of the operands behind its first. -/
def chainOperations (precedence : Nat) (operand : Rule σ) (inside : State σ → List Operation)
    (left : Float) (s : State σ) : List Operation :=
  match _htoken : s.token with
  | .fault _ _ => []
  | .ok t s₁ =>
    match operatorAt precedence t.kind with
    | none => []
    | some op =>
      inside s₁ ++
        match _hrun : operand.run s₁ with
        | .fault _ _ => []
        | .ok right s₂ =>
          ⟨left, op, right⟩ ::
            match op.apply left right with
            | .error _ => []
            | .ok value => chainOperations precedence operand inside value s₂
termination_by s.size
decreasing_by
  have := size_token _htoken
  have := operand.size_lt _hrun
  omega

theorem chainOperations_eq (p : Nat) (operand : Rule σ) (inside : State σ → List Operation)
    (left : Float) (s : State σ) :
    chainOperations p operand inside left s = s.token.followed fun t s =>
      match operatorAt p t.kind with
      | none => []
      | some op => inside s ++ (operand.run s).followed fun right s =>
          ⟨left, op, right⟩ ::
            match op.apply left right with
            | .error _ => []
            | .ok value => chainOperations p operand inside value s := by
  rw [chainOperations]
  cases s.token with
  | fault f s₁ => rfl
  | ok t s₁ =>
    dsimp only [Outcome.followed]
    cases operatorAt p t.kind with
    | none => rfl
    | some op =>
      dsimp only
      cases operand.run s₁ <;> rfl

/-- The operations of the operand that begins with a token. -/
def begunOperations (sum operand : State σ → List Operation) (t : Token) (s : State σ) :
    List Operation :=
  match t.kind with
  | .opening => sum s
  | .operator .subtract => (signs true s).followed fun _ s => operand s
  | .name => s.token.followed fun t s => if t.kind = .assign then sum s else []
  | _ => []

mutual

def sumOperations (frail : Bool) : Nat → State σ → List Operation
  | 0, _ => []
  | n + 1, s =>
    productOperations frail n s ++ ((Rule.product ⟨n, frail⟩).run s).followed fun left s =>
      chainOperations 1 (Rule.product ⟨n, frail⟩) (productOperations frail n) left s

def productOperations (frail : Bool) : Nat → State σ → List Operation
  | 0, _ => []
  | n + 1, s =>
    operandOperations frail n s ++ ((Rule.operand ⟨n, frail⟩).run s).followed fun left s =>
      chainOperations 2 (Rule.operand ⟨n, frail⟩) (operandOperations frail n) left s

def operandOperations (frail : Bool) : Nat → State σ → List Operation
  | 0, _ => []
  | n + 1, s => s.token.followed fun t s =>
      begunOperations (sumOperations frail n) (operandOperations frail n) t s

end

/-- The operations of the next statement. -/
def State.operations (limit : Limit) (s : State σ) : List Operation :=
  s.firstToken.followed fun t s =>
    if t.kind = .quit then [] else (s.hold t).followed fun _ s =>
      sumOperations limit.frail limit.depth s

/-- The operations of all statements of a session. -/
def State.sessionOperations (limit : Limit) (s : State σ) : List Operation :=
  s.operations limit ++
    match _hstatement : s.statement limit with
    | .ok none _ => []
    | .ok (some _) s₁ => sessionOperations limit s₁
    | .fault f s₁ =>
      if f.recoverable then
        match _hgiveUp : s₁.giveUp .print with
        | (_, s₂) => sessionOperations limit s₂
      else []
termination_by s.size
decreasing_by
  · exact size_statement _hstatement
  · simpa [_hgiveUp] using size_giveUp_of_statement .print _hstatement

theorem State.sessionOperations_eq (limit : Limit) (s : State σ) :
    s.sessionOperations limit = s.operations limit ++
      match s.statement limit with
      | .ok none _ => []
      | .ok (some _) s₁ => s₁.sessionOperations limit
      | .fault f s₁ => if f.recoverable then (s₁.giveUp .print).2.sessionOperations limit else [] := by
  rw [sessionOperations]
  split <;> next h => rw [h]

/-- The last operation of the second statement fails, and nothing is subtracted. -/
example : ((Scope.ofConstants .builtin).start "1 + 2 * 3; 4 / 0 - 5").sessionOperations
    nestingLimit = [⟨2, .multiply, 3⟩, ⟨1, .add, 6⟩, ⟨4, .divide, 0⟩] := by decide +kernel

end Lists

/-! ## What a list tells of an outcome -/

/-- Whether an operation fails with it. -/
def Fault.ofOperation : Fault → Bool
  | .zeroDivisor | .noRemainder => true
  | _ => false

/-- The operations behind an outcome. With a value all had one. With the fault of an
    operation only the last had none. `P` is so of all operators. -/
inductive Accounts {σ α : Type} (P : Operator → Prop) : Outcome σ α → List Operation → Prop where
  | value {a : α} {s : σ} {xs : List Operation}
      (sound : ∀ x ∈ xs, x.fault = none ∧ P x.operator) : Accounts P (.ok a s) xs
  | failed {f : Fault} {s : σ} {xs : List Operation} {x : Operation}
      (sound : ∀ x ∈ xs, x.fault = none ∧ P x.operator) (last : x.fault = some f)
      (used : P x.operator) : Accounts P (.fault f s) (xs ++ [x])
  | other {f : Fault} {s : σ} {xs : List Operation}
      (sound : ∀ x ∈ xs, x.fault = none ∧ P x.operator) (another : f.ofOperation = false) :
      Accounts P (.fault f s) xs

namespace Accounts

variable {σ α β : Type} {P : Operator → Prop} {o : Outcome σ α} {xs : List Operation}

theorem ok {a : α} {s : σ} : Accounts P (.ok a s) [] := .value (List.forall_mem_nil _)

theorem fault {f : Fault} {s : σ} (h : f.ofOperation = false) :
    Accounts P (.fault f s : Outcome σ α) [] := .other (List.forall_mem_nil _) h

/-- Operations with a value in front change nothing. -/
theorem behind {ys : List Operation} (h : Accounts P o ys)
    (sound : ∀ x ∈ xs, x.fault = none ∧ P x.operator) : Accounts P o (xs ++ ys) := by
  cases h with
  | value more => exact .value (List.forall_mem_append.mpr ⟨sound, more⟩)
  | failed more last used =>
    rw [← List.append_assoc]
    exact .failed (List.forall_mem_append.mpr ⟨sound, more⟩) last used
  | other more another => exact .other (List.forall_mem_append.mpr ⟨sound, more⟩) another

theorem andThen {k : α → σ → Outcome σ β} {more : α → σ → List Operation} (h : Accounts P o xs)
    (hk : ∀ a s, o = .ok a s → Accounts P (k a s) (more a s)) :
    Accounts P (o.andThen k) (xs ++ o.followed more) := by
  cases h with
  | value sound => exact (hk _ _ rfl).behind sound
  | failed sound last used =>
    rw [Outcome.followed, List.append_nil]
    exact .failed sound last used
  | other sound another =>
    rw [Outcome.followed, List.append_nil]
    exact .other sound another

/-- Nothing is computed in what follows. -/
theorem andThen_quiet {k : α → σ → Outcome σ β} (h : Accounts P o xs)
    (hk : ∀ a s, o = .ok a s → Accounts P (k a s) []) : Accounts P (o.andThen k) xs := by
  have both : Accounts P (o.andThen k) (xs ++ o.followed fun _ _ => []) := h.andThen hk
  rwa [Outcome.followed_nil, List.append_nil] at both

/-- Nothing is computed in what comes first. -/
theorem quiet_andThen {k : α → σ → Outcome σ β} {more : α → σ → List Operation}
    (h : Accounts P o []) (hk : ∀ a s, o = .ok a s → Accounts P (k a s) (more a s)) :
    Accounts P (o.andThen k) (o.followed more) := h.andThen hk

end Accounts

/-! ## Rules -/

/-- A token of the vocabulary is the operator. -/
def Vocabulary.Has (V : Vocabulary) (op : Operator) : Prop := ∃ t, V.token t ∧ t.kind = .operator op

section Rules

variable {V : Vocabulary} {s s₁ : State Script} {t : Token}

theorem accounts_token (P : Operator → Prop) (s : State Script) : Accounts P s.token [] := by
  have both := Script.both_token (Vocabulary.holds_any s)
  generalize s.token = o at both
  cases both with
  | ok h => exact .ok
  | @fault f s₁ _ h =>
    refine .fault ?_
    have bad := h.2.2.2.2
    cases f <;> first | rfl | cases bad

/-- It holds of what a token leaves, unless it was the last. -/
theorem holds_token (h : V.Holds s) (htoken : s.token = .ok t s₁) :
    V.token t ∧ V.Holds s₁ ∧ V.Holds ⟨s₁.supply, some t, s₁.vars⟩ := by
  have both := Script.both_token h
  rw [htoken] at both
  cases both with
  | ok h =>
    obtain ⟨-, empty, text, token⟩ := h
    exact ⟨token, .of_empty text empty, .held text token _⟩

theorem accounts_signs (P : Operator → Prop) (turned : Bool) (s : State Script) :
    Accounts P (signs turned s) [] := by
  induction s using State.tokenInduction generalizing turned with
  | turn s ih =>
    rw [Rule.signs_eq]
    refine (accounts_token P s).andThen_quiet fun t s₁ htoken => ?_
    by_cases isMinus : t.kind = .operator .subtract
    · rw [if_pos isMinus]
      exact ih t s₁ htoken (by rw [isMinus]; exact Kind.noConfusion) (!turned)
    · rw [if_neg isMinus, answer_of_token htoken]
      exact .ok

/-- The list is the operations of the rule. -/
def Traced (V : Vocabulary) (r : Rule Script) (xs : State Script → List Operation) : Prop :=
  ∀ s, V.Holds s → Accounts V.Has (r.run s) (xs s)

/-- What holds before a rule holds behind its value. -/
theorem holds_run {r : Rule Script} (follows : (alone V).Follows r r) (h : V.Holds s) {v : Float}
    (hrun : r.run s = .ok v s₁) : V.Holds s₁ := by
  have both := follows s s ⟨rfl, h⟩
  rw [hrun] at both
  cases both with
  | ok h => exact h.2

theorem accounts_chainFrom {p : Nat} {operand : Rule Script} {inside : State Script → List Operation}
    (follows : (alone V).Follows operand operand) (traced : Traced V operand inside) (left : Float)
    (h : V.Holds s) :
    Accounts V.Has (chainFrom p operand left s) (chainOperations p operand inside left s) := by
  induction s using Rule.chainInduction operand generalizing left with
  | turn s ih =>
    rw [Rule.chainFrom_eq, chainOperations_eq]
    refine (accounts_token V.Has s).quiet_andThen fun t s₁ htoken => ?_
    obtain ⟨token, h₁, -⟩ := holds_token h htoken
    cases hop : operatorAt p t.kind with
    | none =>
      dsimp only
      rw [answer_of_token htoken]
      exact .ok
    | some op =>
      have used : V.Has op := ⟨t, token, (Derivation.kind_of_operatorAt hop).1⟩
      refine (traced s₁ h₁).andThen fun right s₂ hrun => ?_
      have h₂ := holds_run follows h₁ hrun
      cases happly : op.apply left right with
      | error f =>
        have last : (Operation.mk left op right).fault = some f := Operation.fault_eq_iff.mpr happly
        show Accounts V.Has (.fault f s₂) ([] ++ [_])
        exact .failed (List.forall_mem_nil _) last used
      | ok value =>
        have sound : (Operation.mk left op right).fault = none := by rw [Operation.fault, happly]
        show Accounts V.Has _ ([_] ++ chainOperations p operand inside value s₂)
        refine (ih t s₁ right s₂ htoken hrun value h₂).behind ?_
        exact List.forall_mem_singleton.mpr ⟨sound, used⟩

theorem traced_chain {p : Nat} {operand : Rule Script} {inside : State Script → List Operation}
    (follows : (alone V).Follows operand operand) (traced : Traced V operand inside) :
    Traced V (Rule.chain p fun _ => operand) fun s => inside s ++ (operand.run s).followed fun left s =>
      chainOperations p operand inside left s :=
  fun s h => (traced s h).andThen fun left _ hrun =>
    accounts_chainFrom follows traced left (holds_run follows h hrun)

theorem accounts_refuse (P : Operator → Prop) (htoken : s.token = .ok t s₁) {f : Fault}
    (another : f.ofOperation = false) :
    Accounts P (s₁.refuse t f : Outcome (State Script) Float) [] := by
  rw [refuse_of_token htoken]
  exact .fault another

theorem accounts_enclosed {sum : Rule Script} {xs : State Script → List Operation}
    (traced : Traced V sum xs) (h : V.Holds s) : Accounts V.Has (Rule.enclosed sum s) (xs s) := by
  refine (traced s h).andThen_quiet fun v s₁ _ => ?_
  refine (accounts_token V.Has s₁).andThen_quiet fun t s₂ htoken => ?_
  by_cases closes : t.kind = .closing
  · rw [if_pos closes]
    exact .ok
  · rw [if_neg closes]
    exact accounts_refuse V.Has htoken rfl

theorem accounts_signed {operand : Rule Script} {xs : State Script → List Operation}
    (traced : Traced V operand xs) (h : V.Holds s) :
    Accounts V.Has (Rule.signed operand s) ((signs true s).followed fun _ s => xs s) := by
  refine (accounts_signs V.Has true s).quiet_andThen fun turned s₁ hsigns => ?_
  have both := (alone V).follows_signs true (s := s) (u := s) ⟨rfl, h⟩
  rw [hsigns] at both
  cases both with
  | ok h₁ => exact (traced s₁ h₁.2).andThen_quiet fun _ _ _ => .ok

theorem accounts_named {sum : Rule Script} {xs : State Script → List Operation}
    (traced : Traced V sum xs) (name : String) (h : V.Holds s) :
    Accounts V.Has (Rule.named sum name s)
      (s.token.followed fun t s => if t.kind = .assign then xs s else []) := by
  refine (accounts_token V.Has s).quiet_andThen fun t s₁ htoken => ?_
  by_cases isAssign : t.kind = .assign
  · rw [if_pos isAssign, if_pos isAssign]
    exact (traced s₁ (holds_token h htoken).2.1).andThen_quiet fun _ _ _ => .ok
  · rw [if_neg isAssign, if_neg isAssign, hold_of_token htoken, Outcome.andThen_ok]
    unfold State.lookup
    split
    · exact .ok
    · exact .fault rfl

theorem traced_single {sum operand : Unit → Rule Script} {xs ys : State Script → List Operation}
    (hsum : Traced V (sum ()) xs) (hoperand : Traced V (operand ()) ys) :
    Traced V (Rule.single sum operand) fun s => s.token.followed (begunOperations xs ys) := by
  intro s h
  refine (accounts_token V.Has s).quiet_andThen fun t s₁ htoken => ?_
  have h₁ := (holds_token h htoken).2.1
  have refused : Accounts V.Has (s₁.refuse t .operandExpected : Outcome (State Script) Float) [] :=
    accounts_refuse V.Has htoken rfl
  unfold Rule.begun begunOperations
  cases t.kind with
  | number => exact .ok
  | opening => exact accounts_enclosed hsum h₁
  | name => exact accounts_named hsum t.name h₁
  | operator op =>
    cases op with
    | subtract => exact accounts_signed hoperand h₁
    | _ => exact refused
  | _ => exact refused

/-- The rule that is one too many computes nothing. -/
theorem traced_brink (frail : Bool) : Traced V (Rule.brink frail) fun _ => [] := by
  intro s _
  show Accounts V.Has (if _ then _ else _) []
  split
  · exact (accounts_token V.Has _).andThen_quiet fun _ _ _ => .fault rfl
  · exact .fault rfl

/-- The lists are the operations of the rules, whatever the limit. -/
theorem traced_rules (V : Vocabulary) (frail : Bool) (n : Nat) :
    Traced V (Rule.sum ⟨n, frail⟩) (sumOperations frail n) ∧
      Traced V (Rule.product ⟨n, frail⟩) (productOperations frail n) ∧
      Traced V (Rule.operand ⟨n, frail⟩) (operandOperations frail n) := by
  induction n with
  | zero =>
    have deep : Traced V Rule.tooDeep fun _ => [] := fun _ _ => .fault rfl
    exact ⟨deep, traced_brink frail, traced_brink frail⟩
  | succ n ih =>
    obtain ⟨ihSum, ihProduct, ihOperand⟩ := ih
    obtain ⟨-, followsProduct, followsOperand⟩ :=
      (alone V).follows_rules ⟨n, frail⟩ fun _ => alone_loses
    exact ⟨traced_chain followsProduct ihProduct, traced_chain followsOperand ihOperand,
      traced_single ihSum ihOperand⟩

end Rules

/-! ## Statements and sessions -/

section Sessions

variable {V : Vocabulary} {s : State Script}

theorem accounts_firstToken (P : Operator → Prop) (s : State Script) :
    Accounts P s.firstToken [] := by
  induction s using State.tokenInduction with
  | turn s ih =>
    rw [firstToken_eq]
    refine (accounts_token P s).andThen_quiet fun t s₁ htoken => ?_
    by_cases isPrint : t.kind = .print
    · rw [if_pos isPrint]
      exact ih t s₁ htoken (by rw [isPrint]; exact Kind.noConfusion)
    · rw [if_neg isPrint]
      exact .ok

theorem accounts_close (P : Operator → Prop) (v : Float) (s : State Script) :
    Accounts P (s.close v) [] := by
  refine (accounts_token P s).andThen_quiet fun t s₁ htoken => ?_
  rw [hold_of_token htoken, Outcome.andThen_ok]
  by_cases isAssign : t.kind = .assign
  · rw [if_pos isAssign]
    exact .fault rfl
  · rw [if_neg isAssign]
    exact .ok

/-- There is room for the first token, and what held holds with it in the slot. -/
theorem holds_firstToken {t : Token} {s₁ : State Script} (h : V.Holds s)
    (hfirst : s.firstToken = .ok t s₁) :
    s₁.hold t = .ok () ⟨s₁.supply, some t, s₁.vars⟩ ∧ V.Holds ⟨s₁.supply, some t, s₁.vars⟩ := by
  have both := (alone V).firstToken alone_through (s := s) (u := s) ⟨rfl, h⟩
  rw [hfirst] at both
  cases both with
  | ok drawn =>
    obtain ⟨⟨-, empty, text, token⟩, -⟩ := drawn
    exact ⟨by rw [State.hold, empty], .held text token _⟩

/-- The operations of a statement tell of its outcome. -/
theorem accounts_statement (h : V.Holds s) (limit : Limit) :
    Accounts V.Has (s.statement limit) (s.operations limit) := by
  refine (accounts_firstToken V.Has s).quiet_andThen fun t s₁ hfirst => ?_
  by_cases isQuit : t.kind = .quit
  · rw [if_pos isQuit, if_pos isQuit]
    exact .ok
  · obtain ⟨hhold, h₂⟩ := holds_firstToken h hfirst
    rw [if_neg isQuit, if_neg isQuit, statementFrom, hhold]
    exact ((traced_rules V limit.frail limit.depth).1 _ h₂).andThen_quiet fun v s₃ _ =>
      accounts_close _ v s₃

theorem Accounts.used {σ α : Type} {P : Operator → Prop} {o : Outcome σ α} {xs : List Operation}
    (h : Accounts P o xs) : ∀ x ∈ xs, P x.operator := by
  cases h with
  | value sound => exact fun x hx => (sound x hx).2
  | other sound another => exact fun x hx => (sound x hx).2
  | failed sound last used =>
    exact List.forall_mem_append.mpr
      ⟨fun x hx => (sound x hx).2, List.forall_mem_singleton.mpr used⟩

/-- The fault of an operation is that of the outcome. -/
theorem Accounts.fault_iff {σ α : Type} {P : Operator → Prop} {o : Outcome σ α} {xs : List Operation}
    (h : Accounts P o xs) {f : Fault} (ofOperation : f.ofOperation = true) :
    (∃ x ∈ xs, x.fault = some f) ↔ ∃ s, o = .fault f s := by
  cases h with
  | @value a s xs sound =>
    constructor
    · rintro ⟨x, hx, hf⟩
      rw [(sound x hx).1] at hf
      cases hf
    · rintro ⟨s', hs⟩
      cases hs
  | @failed g s xs y sound last used =>
    constructor
    · rintro ⟨x, hx, hf⟩
      rcases List.mem_append.mp hx with hx | hx
      · rw [(sound x hx).1] at hf
        cases hf
      · rw [List.mem_singleton.mp hx, last] at hf
        injection hf with hf
        exact ⟨s, by rw [hf]⟩
    · rintro ⟨s', hs⟩
      injection hs with hg
      exact ⟨y, List.mem_append_right _ (List.mem_singleton.mpr rfl), hg ▸ last⟩
  | @other g s xs sound another =>
    constructor
    · rintro ⟨x, hx, hf⟩
      rw [(sound x hx).1] at hf
      cases hf
    · rintro ⟨s', hs⟩
      injection hs with hg
      rw [hg, ofOperation] at another
      cases another

/-- A session ends for want of a remainder if an operation of it had none. -/
theorem fatal_iff (h : V.Holds s) (limit : Limit) :
    (∀ x ∈ s.sessionOperations limit, V.Has x.operator) ∧
      ((s.converse limit).fatal = some .noRemainder ↔
        ∃ x ∈ s.sessionOperations limit, x.fault = some .noRemainder) := by
  induction s using State.sessionInduction (σ := Script) limit with
  | turn s answered recovered =>
    have accounts := accounts_statement h limit
    have here := accounts.fault_iff (f := .noRemainder) rfl
    -- Where the statement itself has not failed so, the rest of the session decides.
    have onward {later : List Operation} {c : Option Fault}
        (notHere : ∀ s', s.statement limit ≠ .fault .noRemainder s')
        (rest : (∀ x ∈ later, V.Has x.operator) ∧
          (c = some .noRemainder ↔ ∃ x ∈ later, x.fault = some .noRemainder)) :
        (∀ x ∈ s.operations limit ++ later, V.Has x.operator) ∧
          (c = some .noRemainder ↔
            ∃ x ∈ s.operations limit ++ later, x.fault = some .noRemainder) := by
      refine ⟨List.forall_mem_append.mpr ⟨accounts.used, rest.1⟩, rest.2.trans ?_⟩
      have noneHere : ¬ ∃ x ∈ s.operations limit, x.fault = some .noRemainder := by
        rw [here]
        exact fun ⟨s', hs'⟩ => notHere s' hs'
      simp only [List.mem_append, or_and_right, exists_or]
      exact (or_iff_right noneHere).symm
    have ended : (∀ x ∈ ([] : List Operation), V.Has x.operator) ∧
        ((none : Option Fault) = some .noRemainder ↔
          ∃ x ∈ ([] : List Operation), x.fault = some .noRemainder) := by simp
    rw [converse_eq, sessionOperations_eq]
    cases hstatement : s.statement limit with
    | ok v s₁ =>
      have notHere : ∀ s', s.statement limit ≠ .fault .noRemainder s' := by
        intro s' hs'
        rw [hstatement] at hs'
        cases hs'
      cases v with
      | none => exact onward notHere ended
      | some value =>
        exact onward notHere (answered value s₁ hstatement (holds_statement h hstatement))
    | fault f s₁ =>
      dsimp only
      by_cases recoverable : f.recoverable
      · have notHere : ∀ s', s.statement limit ≠ .fault .noRemainder s' := by
          intro s' hs'
          rw [hstatement] at hs'
          injection hs' with hf
          rw [hf] at recoverable
          cases recoverable
        rw [if_pos recoverable, if_pos recoverable]
        exact onward notHere (recovered f s₁ hstatement (holds_giveUp h hstatement .print))
      · have textual := (textual_statement h hstatement).1
        have hf : f = .noRemainder := textual.eq_noRemainder (eq_false_of_ne_true recoverable)
        rw [if_neg recoverable, if_neg recoverable, List.append_nil, here, hstatement, hf]
        exact ⟨accounts.used, ⟨fun _ => ⟨s₁, rfl⟩, fun _ => rfl⟩⟩

/-- Every operator has its character in the text. -/
def written (cs : List Char) : Vocabulary where
  text u := ∀ c ∈ u, c ∈ cs
  token t := ∀ op, t.kind = .operator op → op.symbol ∈ cs
  behind h c hc := h c (List.mem_append_right _ hc)
  read {constants u left t} h lexeme op hk := by
    cases lexeme with
    | @symbol k c left isSymbol =>
      have hk : k = .operator op := hk
      subst hk
      injection isSymbol with hc
      exact hc ▸ h c List.mem_cons_self
    | nothing => cases hk
    | numeral => cases hk
    | constant => cases hk
    | name => cases hk

end Sessions

/-! ## The program -/

/-- An infinite dividend is to leave a remainder, and the divisor is a number other
    than zero. -/
def Operation.Endless (x : Operation) : Prop :=
  x.operator = .remainder ∧ Binary64.isInfinite x.left = true ∧ (x.right == 0) = false ∧
    Binary64.isUndefined x.right = false

theorem Operation.endless_iff (x : Operation) : x.fault = some .noRemainder ↔ x.Endless := by
  rw [fault_eq_iff, Operator.apply_eq_error_iff, remainder_eq_none_iff]
  simp only [reduceCtorEq, and_false, false_or, and_true]
  exact ⟨fun ⟨op, zero, infinite, defined⟩ => ⟨op, infinite, zero, defined⟩,
    fun ⟨op, infinite, zero, defined⟩ => ⟨op, zero, infinite, defined⟩⟩

theorem Operation.fault_of_zero {x : Operation} (divides : x.operator = .divide ∨ x.operator = .remainder)
    (zero : (x.right == 0) = true) : x.fault = some .zeroDivisor :=
  fault_eq_iff.mpr (Operator.apply_eq_error_iff.mpr (.inl ⟨divides, zero, rfl⟩))

theorem interact_status (input : String) (limit : Limit) :
    (((Scope.ofConstants .builtin).converse input limit).fatal = none →
        (interact input limit).status = 0) ∧
      ∀ f, ((Scope.ofConstants .builtin).converse input limit).fatal = some f →
        (interact input limit).status = 2 := by
  unfold interact
  dsimp only
  cases ((Scope.ofConstants .builtin).converse input limit).fatal with
  | none => exact ⟨fun _ => rfl, nofun⟩
  | some f => exact ⟨nofun, fun _ _ => rfl⟩

/-- **Only a missing remainder ends the program early.** Whatever the limit, its status is
    0 or 2, and it is 2 exactly if some operation of the session was to leave the remainder
    of an infinite dividend; so it is 0 for a text without `%`. A statement ends with no
    faults but a bad token, bad grammar, a zero divisor, an unknown name, and that one. The
    only literal that is no number is a lone point, and to divide by zero ends in the fault
    that says so. -/
theorem status_of_interact (input : String) (limit : Limit) :
    let operations := ((Scope.ofConstants .builtin).start input).sessionOperations limit
    let status := (interact input limit).status
    (status = 0 ∨ status = 2) ∧
      (status = 2 ↔ ∃ x ∈ operations, x.Endless) ∧
      ('%' ∉ input.toList → status = 0) ∧
      (∀ (s s' : State Script) (f : Fault), s.statement limit = .fault f s' →
        (f.category = .badToken ∨ f.category = .grammar ∨ f.category = .zeroDivisor ∨
          f.category = .unknownName ∨ f = .noRemainder ∧ ∃ x ∈ s.operations limit, x.Endless) ∧
        ∀ literal, f = .badNumber literal → literal = ['.']) ∧
      ∀ (s : State Script), ∀ x ∈ s.operations limit,
        x.operator = .divide ∨ x.operator = .remainder → (x.right == 0) = true →
          ∃ s', s.statement limit = .fault .zeroDivisor s' := by
  intro operations status
  have holds : (written input.toList).Holds ((Scope.ofConstants .builtin).start input) :=
    .start _ fun _ hc => hc
  obtain ⟨used, fatal⟩ := fatal_iff holds limit
  simp only [Operation.endless_iff] at fatal
  have textual := textual_converse holds limit
  obtain ⟨whole, broken⟩ := interact_status input limit
  have either : status = 0 ∧ ¬ (∃ x ∈ operations, x.Endless) ∨
      status = 2 ∧ ∃ x ∈ operations, x.Endless := by
    rw [← fatal]
    cases hfatal : ((Scope.ofConstants .builtin).converse input limit).fatal with
    | none =>
      refine .inl ⟨whole hfatal, fun same => ?_⟩
      cases hfatal.symm.trans same
    | some f =>
      obtain ⟨hf, unrecoverable⟩ := textual.fatal f hfatal
      rw [hf.eq_noRemainder unrecoverable] at hfatal
      exact .inr ⟨broken _ hfatal, hfatal⟩
  have two : status = 2 ↔ ∃ x ∈ operations, x.Endless := by
    obtain ⟨zero, none⟩ | ⟨two, some⟩ := either
    · rw [zero]
      exact ⟨nofun, fun some => absurd some none⟩
    · exact ⟨fun _ => some, fun _ => two⟩
  refine ⟨either.imp And.left And.left, two, fun spared => ?_, ?_, ?_⟩
  · refine (either.imp And.left And.left).resolve_right fun h => spared ?_
    obtain ⟨x, hx, isRemainder, -⟩ := two.mp h
    obtain ⟨t, token, hk⟩ := used x hx
    rw [isRemainder] at hk
    exact token _ hk
  · intro s s' f failed
    have textual := (textual_statement (Vocabulary.holds_any s) failed).1
    have accounts := (accounts_statement (Vocabulary.holds_any s) limit).fault_iff (f := f)
    refine ⟨?_, textual.literal⟩
    cases f with
    | noRemainder =>
      obtain ⟨x, hx, endless⟩ := (accounts rfl).mpr ⟨s', failed⟩
      exact .inr (.inr (.inr (.inr ⟨rfl, x, hx, x.endless_iff.mp endless⟩)))
    | slotTaken => exact absurd rfl textual.ne_slotTaken
    | constantsFixed => exact absurd rfl textual.ne_constantsFixed
    | badToken | badNumber => exact .inl rfl
    | zeroDivisor => exact .inr (.inr (.inl rfl))
    | unknownName => exact .inr (.inr (.inr (.inl rfl)))
    | _ => exact .inr (.inl rfl)
  · intro s x hx divides zero
    exact ((accounts_statement (Vocabulary.holds_any s) limit).fault_iff rfl).mp
      ⟨x, hx, Operation.fault_of_zero divides zero⟩

/-- The dividend overflowed. Without the operator, or where a zero divisor is met
    first, the session goes on. -/
theorem status_of_infinite_dividend :
    (interact "x = 2e308; 1 + x % 2; 3").status = 2 ∧
      (∃ x ∈ ((Scope.ofConstants .builtin).start "x = 2e308; 1 + x % 2; 3").sessionOperations
        nestingLimit, x.Endless) ∧
      (interact "x = 2e308; x / 2; 3").status = 0 ∧
      ∃ s', ((Scope.ofConstants .builtin).start "2e308 % (1 - 1); 3").statement nestingLimit =
        .fault .zeroDivisor s' := by
  have status : (interact "x = 2e308; 1 + x % 2; 3").status = 2 := by decide +kernel
  obtain ⟨-, endless, -, -, -⟩ := status_of_interact "x = 2e308; 1 + x % 2; 3" nestingLimit
  obtain ⟨-, -, spared, -, divisor⟩ := status_of_interact "x = 2e308; x / 2; 3" nestingLimit
  exact ⟨status, endless.mp status, spared (by decide), divisor _ ⟨2e308, .remainder, 0⟩
    (by decide +kernel) (.inr rfl) (by decide +kernel)⟩

end Reckoner
