/-
  A run of signs is read as its signs one by one.

  The grammar has `operand : '-' operand`. `Rule.operand` does not call itself for each
  sign: it takes the whole run in a loop, keeps no more of it than whether it turns the
  sign, puts back the token behind it and reads one operand. The `Signwise` rules are as
  the grammar has them: an operand takes one sign, calls itself and turns the sign of what
  comes back.

  A rule that calls itself meets the limit on active rules sooner, so two runs are `Alike`
  if they are the same unless one of them meets its limit, and it is told when. Rules that
  are alike everywhere make chains, parentheses and assignments that are (`Matches`). For
  the signs the induction is along the run, with the parity in its statement: two turned
  signs cancel, bit for bit (`alike_signs`). The rules match by induction on the limit.

  Proved: `operand_of_signs`.
-/
import Reckoner.Proofs.Nesting

namespace Reckoner

open State

/-! ## The grammar as it is written -/

namespace Rule.Signwise

variable {σ : Type} [Supply σ]

/-- An operand behind one sign. -/
def negated (operand : Rule σ) (s : State σ) : Outcome (State σ) Float :=
  (operand.run s).andThen fun value s => .ok (-value) s

theorem size_negated {operand : Rule σ} {s s' : State σ} {v : Float}
    (h : negated operand s = .ok v s') : s'.size < s.size := by
  obtain ⟨value, s₁, hrun, h⟩ := Outcome.andThen_eq_ok.mp h
  injection h with _ hs
  exact hs ▸ operand.size_lt hrun

/-- What `Rule.single` reads, but for the signs. -/
def single (sum operand : Unit → Rule σ) : Rule σ where
  run s := s.token.andThen fun t s =>
    if t.kind = .operator .subtract then negated (operand ()) s else begun sum operand t s
  size_lt h := by
    obtain ⟨t, s₁, htoken, h⟩ := Outcome.andThen_eq_ok.mp h
    have := size_token htoken
    split at h
    · have := size_negated h
      omega
    · obtain ⟨notQuit, hle⟩ := size_begun h
      have := Token.weight_eq_one notQuit
      omega
  frugal := Frugal.token.andThen fun t =>
    .ite ((operand ()).frugal.andThen fun _ => .ok _) (frugal_begun sum operand t)

mutual

/-- Products, added and subtracted. -/
def sum : Nat → Rule σ
  | 0 => tooDeep
  | n + 1 => chain 1 fun _ => product n

/-- Operands, multiplied, divided and reduced. -/
def product : Nat → Rule σ
  | 0 => tooDeep
  | n + 1 => chain 2 fun _ => operand n

/-- What operators stand between. -/
def operand : Nat → Rule σ
  | 0 => tooDeep
  | n + 1 => single (fun _ => sum n) (fun _ => operand n)

end

end Rule.Signwise

/-! ## The same but for the limit -/

/-- The limit was met. -/
def Outcome.TooDeep {σ α : Type} (o : Outcome σ α) : Prop := ∃ s, o = .fault .tooDeep s

/-- Two outcomes are the same; or the first run met its limit, which it does where that is
    `scant`; or the second did, and then the first did too if its limit is as `low`. -/
inductive Outcome.Alike {σ α : Type} (low scant : Prop) : Outcome σ α → Outcome σ α → Prop where
  | same (o : Outcome σ α) : Alike low scant o o
  | first {o o' : Outcome σ α} (isScant : scant) (deep : o.TooDeep) : Alike low scant o o'
  | second {o o' : Outcome σ α} (deep : o'.TooDeep) (both : low → o.TooDeep) :
      Alike low scant o o'

namespace Outcome

variable {σ α β : Type} {low scant : Prop} {o o' : Outcome σ α} {k k' : α → σ → Outcome σ β}

theorem TooDeep.andThen (h : o.TooDeep) (k : α → σ → Outcome σ β) : (o.andThen k).TooDeep := by
  obtain ⟨s, rfl⟩ := h
  exact ⟨s, rfl⟩

namespace Alike

theorem mono {scant' : Prop} (h : Alike low scant o o') (weaker : scant → scant') :
    Alike low scant' o o' := by
  cases h with
  | same => exact .same _
  | first isScant deep => exact .first (weaker isScant) deep
  | second deep both => exact .second deep both

theorem lower {low' : Prop} (h : Alike low scant o o') (stronger : low' → low) :
    Alike low' scant o o' := by
  cases h with
  | same => exact .same _
  | first isScant deep => exact .first isScant deep
  | second deep both => exact .second deep fun isLow => both (stronger isLow)

theorem andThen (h : Alike low scant o o')
    (hk : ∀ a s, o' = .ok a s → Alike low scant (k a s) (k' a s)) :
    Alike low scant (o.andThen k) (o'.andThen k') := by
  cases h with
  | same =>
    cases o with
    | ok a s => exact hk a s rfl
    | fault f s => exact .same _
  | first isScant deep => exact .first isScant (deep.andThen k)
  | second deep both => exact .second (deep.andThen k') fun isLow => (both isLow).andThen k

/-- What is done with the value counts for nothing. -/
theorem passed (h : Alike low scant o o') (k : α → σ → Outcome σ β) :
    Alike low scant (o.andThen k) (o'.andThen k) := h.andThen fun _ _ _ => .same _

theorem eq (h : Alike low scant o o') (shallow' : ¬ o'.TooDeep) (shallow : ¬ o.TooDeep) : o = o' := by
  cases h with
  | same => rfl
  | first _ deep => exact absurd deep shallow
  | second deep _ => exact absurd deep shallow'

theorem not_tooDeep (h : Alike low scant o o') (shallow' : ¬ o'.TooDeep) (ample : ¬ scant) :
    ¬ o.TooDeep := by
  cases h with
  | same => exact shallow'
  | first isScant _ => exact absurd isScant ample
  | second deep _ => exact absurd deep shallow'

theorem tooDeep (h : Alike low scant o o') (deep' : o'.TooDeep) (isLow : low) : o.TooDeep := by
  cases h with
  | same => exact deep'
  | first _ deep => exact deep
  | second _ both => exact both isLow

end Alike

end Outcome

open Outcome (Alike TooDeep)

/-! ## Rules -/

namespace Rule

variable {σ : Type} [Supply σ] {slack m n : Nat} {frail : Bool} {s s₁ : State σ} {t : Token}

/-- From each state the rules are alike, the first with the limit `m` and the second with
    `n`. A limit that is greater by all there is to read and the `slack` is not scant. -/
def Matches (slack m n : Nat) (r r' : Rule σ) : Prop :=
  ∀ s, Alike (m ≤ n) (m < n + s.size + slack) (r.run s) (r'.run s)

/-- A rule matches from a state with less to read. -/
theorem Matches.within {r r' : Rule σ} (h : Matches slack m n r r') (smaller : s₁.size ≤ s.size) :
    Alike (m ≤ n) (m < n + s.size + slack) (r.run s₁) (r'.run s₁) := (h s₁).mono fun _ => by omega

/-- One more call counts for nothing if both have it. -/
theorem Matches.succ {r r' : Rule σ} (h : Matches slack m n r r') :
    Matches slack (m + 1) (n + 1) r r' :=
  fun s => ((h s).lower fun _ => by omega).mono fun _ => by omega

theorem Matches.loosen {r r' : Rule σ} (h : Matches 0 m n r r') : Matches slack m n r r' :=
  fun s => (h s).mono fun _ => by omega

theorem alike_chainFrom (p : Nat) {r r' : Rule σ} (h : Matches slack m n r r') (left : Float)
    (s : State σ) :
    Alike (m ≤ n) (m < n + s.size + slack) (chainFrom p r left s) (chainFrom p r' left s) := by
  induction s using Rule.chainInduction r' generalizing left with
  | turn s ih =>
    rw [chainFrom_eq p r left s, chainFrom_eq p r' left s]
    refine (Alike.same s.token).andThen fun t s₁ htoken => ?_
    have := size_token htoken
    cases operatorAt p t.kind with
    | none => exact .same _
    | some op =>
      refine (h.within (by omega)).andThen fun right s₂ hrun => ?_
      have := r'.size_lt hrun
      cases op.apply left right with
      | error f => exact .same _
      | ok value => exact (ih t s₁ right s₂ htoken hrun value).mono fun _ => by omega

theorem matches_chain (p : Nat) {r r' : Unit → Rule σ} (h : Matches slack m n (r ()) (r' ())) :
    Matches slack m n (chain p r) (chain p r') := by
  intro s
  refine (h s).andThen fun left s₁ hrun => ?_
  have := (r' ()).size_lt hrun
  exact (alike_chainFrom p h left s₁).mono fun _ => by omega

theorem alike_enclosed {r r' : Rule σ} (h : Matches slack m n r r') (s : State σ) :
    Alike (m ≤ n) (m < n + s.size + slack) (enclosed r s) (enclosed r' s) := (h s).passed _

theorem alike_named {r r' : Rule σ} (h : Matches slack m n r r') (name : String) (s : State σ) :
    Alike (m ≤ n) (m < n + s.size + slack) (named r name s) (named r' name s) := by
  refine (Alike.same s.token).andThen fun t s₁ htoken => ?_
  have := size_token htoken
  by_cases isAssign : t.kind = .assign
  · rw [if_pos isAssign, if_pos isAssign]
    exact (h.within (by omega)).passed _
  · rw [if_neg isAssign, if_neg isAssign]
    exact .same _

/-- What begins with no sign. -/
theorem alike_begun {sum sum' operand operand' : Unit → Rule σ}
    (h : Matches slack m n (sum ()) (sum' ())) (notMinus : t.kind ≠ .operator .subtract)
    (s : State σ) :
    Alike (m ≤ n) (m < n + s.size + slack) (begun sum operand t s) (begun sum' operand' t s) := by
  unfold begun
  cases hk : t.kind with
  | opening => exact alike_enclosed h s
  | name => exact alike_named h t.name s
  | operator op =>
    cases op with
    | subtract => exact absurd hk notMinus
    | _ => exact .same _
  | _ => exact .same _

/-! ## Signs -/

/-- A value whose sign is turned, if so many signs turn it. -/
def turnedIf (turned : Bool) (value : Float) (s : State σ) : Outcome (State σ) Float :=
  .ok (if turned then -value else value) s

/-- To turn a sign twice is not to turn it. -/
theorem turnedIf_negated (turned : Bool) (operand : Rule σ) (s : State σ) :
    (Signwise.negated operand s).andThen (turnedIf turned) =
      (operand.run s).andThen (turnedIf !turned) := by
  unfold Signwise.negated
  cases operand.run s with
  | fault f s => rfl
  | ok value s =>
    cases turned with
    | true => exact congrArg (Outcome.ok · s) (Binary64.neg_neg value)
    | false => rfl

theorem Signwise.run_operand (m : Nat) (s : State σ) :
    (Signwise.operand (m + 1)).run s = s.token.andThen fun t s =>
      if t.kind = .operator .subtract then Signwise.negated (Signwise.operand m) s
      else begun (fun _ => Signwise.sum m) (fun _ => Signwise.operand m) t s := by
  rw [Signwise.operand]
  rfl

/-- An operand that takes its signs one by one, behind signs that turn it or not, is as the
    one behind the whole run, if operands match where no sign is left to take. -/
theorem alike_signs (h : ∀ m, Matches 0 m n (Signwise.operand m : Rule σ) (operand ⟨n, frail⟩))
    (turned : Bool) (s : State σ) (m : Nat) :
    Alike (m ≤ n) (m < n + s.size + 1) (((Signwise.operand m).run s).andThen (turnedIf turned))
      ((signs turned s).andThen fun turned s =>
        ((operand ⟨n, frail⟩).run s).andThen (turnedIf turned)) := by
  induction s using State.tokenInduction generalizing m turned with
  | turn s ih =>
    cases m with
    | zero =>
      rw [Signwise.operand]
      exact .first (by omega) ⟨s, rfl⟩
    | succ m =>
      rw [signs_eq, Signwise.run_operand]
      cases htoken : s.token with
      | fault f s₁ => exact .same _
      | ok t s₁ =>
        have hsize := size_token htoken
        rw [Outcome.andThen_ok, Outcome.andThen_ok]
        by_cases isMinus : t.kind = .operator .subtract
        · have notQuit : t.kind ≠ .quit := by rw [isMinus]; exact Kind.noConfusion
          have weight := Token.weight_eq_one notQuit
          rw [if_pos isMinus, if_pos isMinus, turnedIf_negated]
          have behind := ih t s₁ htoken notQuit (!turned) m
          exact (behind.lower fun _ => by omega).mono fun _ => by omega
        · -- The token that was put back is the one that the other run has taken.
          have hhold := hold_of_token htoken t
          have hsize' := size_hold hhold
          have again := Signwise.run_operand m (⟨s₁.supply, some t, s₁.vars⟩ : State σ)
          rw [token_of_hold hhold, Outcome.andThen_ok, if_neg isMinus] at again
          rw [if_neg isMinus, if_neg isMinus, answer_of_token htoken, Outcome.andThen_ok, ← again]
          exact ((h (m + 1) _).passed _).mono fun _ => by omega

/-! ## All rules -/

/-- Operands match if those with one rule less do, behind signs, and the sums in them. A sum
    has a token in front, and may have some slack for it. -/
theorem matches_operand (hsum : Matches 1 m n (Signwise.sum m : Rule σ) (sum ⟨n, frail⟩))
    (hoperand : ∀ m, Matches 0 m n (Signwise.operand m : Rule σ) (operand ⟨n, frail⟩)) :
    Matches 0 m n (Signwise.operand (m + 1) : Rule σ) (operand ⟨n + 1, frail⟩) := by
  intro s
  rw [Signwise.run_operand, operand_succ]
  refine (Alike.same s.token).andThen fun t s₁ htoken => ?_
  by_cases isQuit : t.kind = .quit
  · rw [if_neg (by rw [isQuit]; exact Kind.noConfusion), begun, begun, isQuit]
    exact .same _
  have hsize := size_token htoken
  have weight := Token.weight_eq_one isQuit
  by_cases isMinus : t.kind = .operator .subtract
  · rw [if_pos isMinus, begun, isMinus]
    exact (alike_signs hoperand true s₁ m).mono fun _ => by omega
  · rw [if_neg isMinus]
    exact (alike_begun hsum isMinus s₁).mono fun _ => by omega

/-- Where a fault is met there is something to read. -/
theorem Meets.size_pos {f : Fault} {s' : State σ} (h : Meets s f s') : 0 < s.size := by
  have whole (s : State σ) : s.size = s.slotSize + Supply.size s.supply := rfl
  have pos {s : State σ} (htoken : s.token = .fault f s') : 0 < s.size := by
    have spent := Supply.size_next_fault (token_eq_fault htoken).2.1
    rw [whole]
    omega
  obtain htoken | ⟨t, s₁, htoken, -, hfault⟩ := h
  · exact pos htoken
  · exact Nat.lt_of_lt_of_le (pos hfault) (by have := size_token htoken; omega)

theorem Meets.operand {f : Fault} {s' : State σ} (h : Meets s f s') (m : Nat) :
    (Signwise.operand (m + 1)).run s = .fault f s' := by
  rw [Signwise.run_operand]
  obtain htoken | ⟨t, s₁, htoken, isName, hfault⟩ := h
  · exact Outcome.andThen_of_eq_fault htoken _
  · rw [htoken, Outcome.andThen_ok, if_neg (by rw [isName]; exact Kind.noConfusion), begun, isName]
    exact Outcome.andThen_of_eq_fault hfault _

/-- The rule that is one too many meets the limit, or a fault that another rule meets as well,
    unless that is too deep within its slack. -/
theorem matches_brink {r : Rule σ} (frail : Bool) (none : m = 0 → ∀ s, (r.run s).TooDeep)
    (meets : ∀ s f s', Meets s f s' →
      m ≤ slack ∧ (r.run s).TooDeep ∨ r.run s = .fault f s') :
    Matches slack m 0 r (brink frail) := by
  intro s
  obtain ⟨f, s', hrun, -, rfl | met⟩ := brink_fault frail s
  · rw [hrun]
    exact .second ⟨s', rfl⟩ fun low => none (Nat.le_zero.mp low) s
  · have := met.size_pos
    obtain ⟨isScant, deep⟩ | same := meets s f s' met
    · exact .first (by omega) deep
    · rw [hrun, same]
      exact .same _

/-- The rules match, whatever the two limits. A product is a call more than the operand it
    begins with, and may meet a fault where that of the other has not begun. -/
theorem matches_rules (frail : Bool) (n : Nat) : ∀ m,
    Matches 1 m n (Signwise.sum m : Rule σ) (sum ⟨n, frail⟩) ∧
      Matches 1 m n (Signwise.product m : Rule σ) (product ⟨n, frail⟩) ∧
      Matches 0 m n (Signwise.operand m : Rule σ) (operand ⟨n, frail⟩) := by
  have deep (s : State σ) : ((tooDeep : Rule σ).run s).TooDeep := ⟨s, rfl⟩
  induction n with
  | zero =>
    intro m
    rw [sum_zero, product_zero, operand_zero]
    refine ⟨fun s => .second (deep s) fun low => ?_, matches_brink frail ?_ ?_,
      matches_brink frail ?_ ?_⟩
    · rw [Nat.le_zero.mp low, Signwise.sum]
      exact deep s
    · rintro rfl s
      rw [Signwise.product]
      exact deep s
    · intro s f s' met
      match m with
      | 0 =>
        rw [Signwise.product]
        exact .inl ⟨Nat.zero_le 1, deep s⟩
      | 1 =>
        rw [Signwise.product, Signwise.operand]
        exact .inl ⟨Nat.le_refl 1, deep s⟩
      | m + 2 =>
        rw [Signwise.product]
        exact .inr (Outcome.andThen_of_eq_fault (met.operand m) _)
    · rintro rfl s
      rw [Signwise.operand]
      exact deep s
    · intro s f s' met
      cases m with
      | zero =>
        rw [Signwise.operand]
        exact .inl ⟨Nat.le_refl 0, deep s⟩
      | succ m => exact .inr (met.operand m)
  | succ n ih =>
    intro m
    cases m with
    | zero =>
      have first (slack : Nat) (r : Rule σ) : Matches slack 0 (n + 1) tooDeep r :=
        fun s => .first (by omega) (deep s)
      simp only [Signwise.sum, Signwise.product, Signwise.operand]
      exact ⟨first 1 _, first 1 _, first 0 _⟩
    | succ m =>
      obtain ⟨ihSum, ihProduct, ihOperand⟩ := ih m
      refine ⟨.succ ?_, .succ ?_, .succ (matches_operand ihSum fun m => (ih m).2.2)⟩
      · rw [Signwise.sum, sum_succ]
        exact matches_chain 1 ihProduct
      · rw [Signwise.product, product_succ]
        exact matches_chain 2 ihOperand.loosen

/-- A limit above four times all there is to read is not met. -/
theorem not_tooDeep_of_size (plain : Supply.Plain σ) {limit : Limit}
    (enough : 4 * s.size + 2 ≤ limit.depth) : ¬ ((operand limit).run s).TooDeep := by
  rintro ⟨s', h⟩
  obtain ⟨ts, u, strained⟩ := (strains plain limit.frail limit.depth).2.2.1 _ _ h
  obtain ⟨inner, hinner, deep⟩ := strained.deep
  have opens := length_nestAll_le [] ts
  have weights := weights_le_size strained.taken
  rw [hinner, List.append_nil, List.length_nil] at opens
  omega

end Rule

/-! ## Operands of a text -/

/-- **A run of signs is its signs one by one.** Let an operand be read from any state: with
    a limit by the rule that takes its signs in a loop, and with the limit `m` by the
    one that takes a sign and calls itself. Unless one of them meets its limit they are the
    same: the value bit for bit, or the fault, and all that is left. If the first does not meet
    its limit, neither does the second where `m` is greater by all there is to read; and the first
    does not where its limit is above four times all that. Where the first is too deep, so is the
    second with no higher limit. -/
theorem operand_of_signs (s : State Script) (limit : Limit) (m : Nat) :
    let folded := (Rule.operand limit).run s
    let called := (Rule.Signwise.operand m).run s
    (¬ folded.TooDeep → ¬ called.TooDeep → called = folded) ∧
      (¬ folded.TooDeep → limit.depth + s.size ≤ m → ¬ called.TooDeep) ∧
      (4 * s.size + 2 ≤ limit.depth → ¬ folded.TooDeep) ∧
      (folded.TooDeep → m ≤ limit.depth → called.TooDeep) := by
  intro folded called
  have alike : Alike (m ≤ limit.depth) (m < limit.depth + s.size) called folded :=
    (Rule.matches_rules limit.frail limit.depth m).2.2 s
  exact ⟨alike.eq, fun shallow enough => alike.not_tooDeep shallow (Nat.not_lt.mpr enough),
    Rule.not_tooDeep_of_size Script.plain, alike.tooDeep⟩

/-- Three signs and two, around an assignment in parentheses; then three in front of one whose
    sum meets a bad token. -/
theorem operand_of_signs_around_assignment :
    let start := (Scope.ofConstants .builtin).start
    let assigned := start "---(x = --2) 7;"
    let broken := start "---x = --2 $ 7;"
    let left : State Script := ⟨⟨⟨[], " 7;".toList, 12⟩, .builtin⟩, none, ⟨[("x", 2)]⟩⟩
    let behind : State Script := ⟨⟨⟨[], " 7;".toList, 12⟩, .builtin⟩, none, .empty⟩
    (Rule.Signwise.operand 1010).run assigned = .ok (-2) left ∧
      (Rule.Signwise.operand 1010).run broken = .fault (.badToken '$') behind := by
  intro start assigned broken left behind
  have value : (Rule.operand nestingLimit).run assigned = .ok (-2) left := by decide +kernel
  have fault : (Rule.operand nestingLimit).run broken = .fault (.badToken '$') behind := by decide +kernel
  have shallow : ¬ ((Rule.operand nestingLimit).run assigned).TooDeep := by
    rintro ⟨s, deep⟩
    cases value.symm.trans deep
  have shallow' : ¬ ((Rule.operand nestingLimit).run broken).TooDeep := by
    rintro ⟨s, deep⟩
    cases fault.symm.trans deep
  obtain ⟨same, reached, -⟩ := operand_of_signs assigned nestingLimit 1010
  obtain ⟨same', reached', -⟩ := operand_of_signs broken nestingLimit 1010
  rw [same shallow (reached shallow (by decide)), same' shallow' (reached' shallow' (by decide))]
  exact ⟨value, fault⟩

end Reckoner
