/-
  The rules follow the grammar.

  Where a derivation stands ahead, with a token behind it that it must stop at,
  and the limit leaves room for its calls, a rule does what the walk over its tree
  does: it leaves the same value behind the derivation or fails with the same
  fault, and leaves the same variables (`Agrees`).

  The induction is on the derivation. A chain is read from the left while a
  derivation nests to the left, so for it the statement is about the chain that
  still goes on (`Followed.onward`). A run of signs is read by one rule, so for
  operands there is a statement about the run as well (`Followed.behindSigns`).
-/
import Reckoner.Proofs.Derivation
import Reckoner.Proofs.Intake
import Reckoner.Proofs.Loops
import Reckoner.Proofs.Negation

namespace Reckoner

open State Reckoner.Derivation

variable {σ : Type} [Supply σ] {p : Nat}

theorem Outcome.andThen_ok_right {τ α : Type} (o : Outcome τ α) : o.andThen .ok = o := by
  cases o <;> rfl

/-- What a rule leaves is what a walk leaves. After a value the state is at the
    place of `u`. -/
inductive Agrees (u : State σ) : Outcome (State σ) Float → Outcome Bindings Float → Prop where
  | ok {v : Float} {s : State σ} (place : s.ahead = u.ahead) : Agrees u (.ok v s) (.ok v s.vars)
  | fault {f : Fault} {s : State σ} : Agrees u (.fault f s) (.fault f s.vars)

namespace Agrees

theorem of_eq {u s : State σ} {v : Float} {b : Bindings} (place : s.ahead = u.ahead)
    (vars : s.vars = b) : Agrees u (.ok v s) (.ok v b) := vars ▸ .ok place

/-- Steps that agree one after the other. -/
theorem andThen {u w : State σ} {o : Outcome (State σ) Float} {walk : Outcome Bindings Float}
    {k : Float → State σ → Outcome (State σ) Float} {l : Float → Bindings → Outcome Bindings Float}
    (h : Agrees u o walk) (hk : ∀ v s, s.ahead = u.ahead → Agrees w (k v s) (l v s.vars)) :
    Agrees w (o.andThen k) (walk.andThen l) := by
  cases h with
  | ok place => exact hk _ _ place
  | fault => exact .fault

end Agrees

namespace Rule

/-- The rule of a level. -/
def atLevel (frail : Bool) : Nat → Nat → Rule σ
  | 1, n => sum ⟨n, frail⟩
  | 2, n => product ⟨n, frail⟩
  | _, n => operand ⟨n, frail⟩

theorem atLevel_chain (level : p = 1 ∨ p = 2) (frail : Bool) (n : Nat) :
    (atLevel frail p (n + 1) : Rule σ) = chain p fun _ => atLevel frail (p + 1) n := by
  rcases level with rfl | rfl <;> rfl

theorem atLevel_operand (frail : Bool) (n : Nat) :
    (atLevel frail 3 (n + 1) : Rule σ) =
      single (fun _ => sum ⟨n, frail⟩) fun _ => operand ⟨n, frail⟩ := rfl

end Rule

open Rule (atLevel chainFrom operatorAt signs)

/-! ## One turn of a loop -/

theorem chainFrom_operator {operand : Rule σ} {left : Float} {s : State σ} {t : Token} {supply : σ}
    {op : Operator} (ha : s.ahead = .ok t supply) (hop : operatorAt p t.kind = some op) :
    chainFrom p operand left s =
      (operand.run (.ofSupply supply s.vars)).andThen fun right s =>
        match op.apply left right with
        | .error f => .fault f s
        | .ok value => chainFrom p operand value s := by
  have h := Rule.chainFrom_eq p operand left s
  rw [token_of_ahead ha, Outcome.andThen_ok, hop] at h
  exact h

theorem chainFrom_stop {operand : Rule σ} {left : Float} {s : State σ} {t : Token} {supply : σ}
    (ha : s.ahead = .ok t supply) (hop : operatorAt p t.kind = none) :
    chainFrom p operand left s = .ok left ⟨supply, some t, s.vars⟩ := by
  have h := Rule.chainFrom_eq p operand left s
  rw [token_of_ahead ha, Outcome.andThen_ok, hop] at h
  exact h

theorem signs_minus {turned : Bool} {s : State σ} {t : Token} {supply : σ}
    (ha : s.ahead = .ok t supply) (isMinus : t.kind = .operator .subtract) :
    signs turned s = signs (!turned) (.ofSupply supply s.vars) := by
  rw [Rule.signs_eq, token_of_ahead ha, Outcome.andThen_ok, if_pos isMinus]

theorem signs_stop {turned : Bool} {s : State σ} {t : Token} {supply : σ}
    (ha : s.ahead = .ok t supply) (notMinus : t.kind ≠ .operator .subtract) :
    signs turned s = .ok turned ⟨supply, some t, s.vars⟩ := by
  rw [Rule.signs_eq, token_of_ahead ha, Outcome.andThen_ok, if_neg notMinus]
  rfl

/-! ## Derivations ahead -/

/-- The derivation stands ahead of `s`, up to the place of `u`, where a token
    comes that settles it. -/
structure Stands (s u : State σ) (d : Derivation p) (level : Nat) : Prop where
  taken : s.Takes d.word u
  next : ∃ t supply, u.ahead = .ok t supply ∧ d.Settled level t

variable (σ) in
/-- The rules do with a derivation what the walk does. -/
structure Followed (frail : Bool) (d : Derivation p) : Prop where
  /-- The rule of the level reads it. -/
  whole {n : Nat} (room : d.calls ≤ n) {s u : State σ} (h : Stands s u d p) :
    Agrees u ((atLevel frail p n).run s) (d.tree.eval s.vars)
  /-- The chain of the level reads it and goes on behind it. -/
  onward (level : p = 1 ∨ p = 2) {n : Nat} (room : d.calls ≤ n + 1) {s u : State σ}
    (h : Stands s u d (p + 1)) : ∃ o, Agrees u o (d.tree.eval s.vars) ∧
      (atLevel frail p (n + 1)).run s =
        o.andThen fun v s => chainFrom p (atLevel frail (p + 1) n) v s
  /-- Behind a sign, the signs in front of it are counted and the rest is read. -/
  behindSigns (level : p = 3) {n : Nat}
    (room : d.calls ≤ if d.isSigned then n + 1 else n) {s u : State σ} (h : Stands s u d p)
    (turned : Bool) :
    Agrees u
      ((signs turned s).andThen fun turned s => ((atLevel frail 3 n).run s).andThen fun v s =>
        .ok (if turned then -v else v) s)
      ((d.tree.eval s.vars).andThen fun v b => .ok (if turned then -v else v) b)

/-! ## Chains -/

theorem operatorAt_eq_none_of_settled {d : Derivation p} {t : Token} (h : d.Settled p t) :
    operatorAt p t.kind = none := by
  cases hop : operatorAt p t.kind with
  | none => rfl
  | some op =>
    obtain ⟨hk, hp⟩ := kind_of_operatorAt hop
    have := h.lower op hk
    omega

theorem Derivation.calls_pos (d : Derivation p) : 0 < d.calls := by
  induction d with
  | lone | number | enclosed | named | assigned => exact Nat.succ_pos _
  | chained left sign op isOperator right ihl ihr => exact Nat.lt_of_lt_of_le ihl (Nat.le_max_left _ _)
  | signed minus isMinus operand ih =>
    unfold calls
    split
    · exact ih
    · exact Nat.succ_pos _

theorem Stands.mono {s u : State σ} {d : Derivation p} {q r : Nat} (h : Stands s u d q)
    (hq : q ≤ r) : Stands s u d r := by
  obtain ⟨t, supply, ha, settled⟩ := h.next
  exact ⟨h.taken, t, supply, ha, settled.mono hq⟩

variable {frail : Bool}

/-- What a chain reads and goes on behind, the rule of the level reads: at a token
    that settles it the chain ends. -/
theorem followed_of_onward {d : Derivation p} (level : p = 1 ∨ p = 2)
    (onward : ∀ {n : Nat}, d.calls ≤ n + 1 → ∀ {s u : State σ}, Stands s u d (p + 1) →
      ∃ o, Agrees u o (d.tree.eval s.vars) ∧
        (atLevel frail p (n + 1)).run s =
          o.andThen fun v s => chainFrom p (atLevel frail (p + 1) n) v s) :
    Followed σ frail d := by
  refine ⟨fun {n} room s u h => ?_, fun _ _ => onward, fun h3 => by omega⟩
  cases n with
  | zero => exact absurd d.calls_pos (Nat.not_lt.mpr room)
  | succ n =>
    obtain ⟨o, agrees, hrun⟩ := onward room (h.mono (Nat.le_succ p))
    obtain ⟨t, supply, ha, settled⟩ := h.next
    rw [hrun]
    generalize d.tree.eval s.vars = walk at agrees ⊢
    cases agrees with
    | fault => exact .fault
    | ok place =>
      rw [Outcome.andThen_ok, chainFrom_stop (place.trans ha) (operatorAt_eq_none_of_settled settled)]
      exact .of_eq ha.symm rfl

theorem followed_lone (level : p = 1 ∨ p = 2) {d : Derivation (p + 1)}
    (ih : Followed σ frail d) : Followed σ frail (.lone level d) := by
  refine followed_of_onward level ?_
  intro n room s u h
  obtain ⟨t, supply, ha, settled⟩ := h.next
  have h' : Stands s u d (p + 1) := ⟨h.taken, t, supply, ha, settled.congr rfl rfl⟩
  refine ⟨(atLevel frail (p + 1) n).run s, ih.whole (Nat.le_of_succ_le_succ room) h', ?_⟩
  rw [Rule.atLevel_chain level]
  rfl

theorem followed_chained {l : Derivation p} {t : Token} {op : Operator}
    {hop : operatorAt p t.kind = some op} {r : Derivation (p + 1)} (level : p = 1 ∨ p = 2)
    (tidy : l.endsOpen = false) (ihl : Followed σ frail l) (ihr : Followed σ frail r) :
    Followed σ frail (.chained l t op hop r) := by
  refine followed_of_onward level ?_
  intro n room s u h
  obtain ⟨hk, hprec⟩ := kind_of_operatorAt hop
  obtain ⟨t', supply', ha', settled⟩ := h.next
  obtain ⟨w, hl, supply, ha, hr⟩ := takes_split h.taken
  have room : max l.calls (r.calls + 1) ≤ n + 1 := room
  have left : Stands s w l (p + 1) := by
    refine ⟨hl, t, supply, ha, ⟨fun _ _ => tidy, fun h => ?_⟩, fun op' h => ?_⟩
    · rw [hk] at h
      cases h
    · rw [hk] at h
      injection h with h
      subst h
      omega
  obtain ⟨o, agrees, hrun⟩ := ihl.onward (n := n) level (by omega) left
  rw [tree, Expr.eval]
  generalize l.tree.eval s.vars = walk at agrees ⊢
  cases agrees with
  | fault => exact ⟨.fault _ _, .fault, hrun⟩
  | @ok x s₁ place =>
    have right : Stands (.ofSupply supply s₁.vars) u r (p + 1) :=
      ⟨takes_ofSupply hr, t', supply', ha', settled.congr rfl rfl⟩
    have agrees := ihr.whole (n := n) (by omega) right
    rw [hrun, Outcome.andThen_ok, Outcome.andThen_ok, chainFrom_operator (place.trans ha) hop]
    refine ⟨_, agrees.andThen (k := fun y s =>
      match op.apply x y with
      | .error f => .fault f s
      | .ok z => .ok z s) fun y s place => ?_, ?_⟩
    · cases op.apply x y with
      | error f => exact .fault
      | ok z => exact .ok place
    · cases (atLevel frail (p + 1) n).run (.ofSupply supply s₁.vars) with
      | fault f s => rfl
      | ok y s =>
        rw [Outcome.andThen_ok, Outcome.andThen_ok]
        cases op.apply x y <;> rfl

/-! ## Operands -/

/-- Where no sign stands in front, none is counted. -/
theorem behindSigns_of_whole {d : Derivation 3} (notSigned : d.isSigned = false)
    (whole : ∀ {n : Nat}, d.calls ≤ n → ∀ {s u : State σ}, Stands s u d 3 →
      Agrees u ((atLevel frail 3 n).run s) (d.tree.eval s.vars))
    {n : Nat} (room : d.calls ≤ n) {s u : State σ} (h : Stands s u d 3) (turned : Bool) :
    Agrees u
      ((signs turned s).andThen fun turned s => ((atLevel frail 3 n).run s).andThen fun v s =>
        .ok (if turned then -v else v) s)
      ((d.tree.eval s.vars).andThen fun v b => .ok (if turned then -v else v) b) := by
  obtain ⟨t, supply, ha, notMinus⟩ : ∃ t supply, s.ahead = .ok t supply ∧
      t.kind ≠ .operator .subtract := by
    have h := h.taken
    cases d with
    | lone level => omega
    | chained l t op hop =>
      have := (kind_of_operatorAt hop).2
      have := op.precedence_lt
      omega
    | signed => cases notSigned
    | number t hk | named t hk | enclosed t _ hk | assigned t _ hk =>
      obtain ⟨supply, ha, -⟩ := h
      exact ⟨t, supply, ha, by simp [hk]⟩
  rw [signs_stop ha notMinus, Outcome.andThen_ok]
  have same : s.ahead = (⟨supply, some t, s.vars⟩ : State σ).ahead := ha
  exact (whole room (s := ⟨supply, some t, s.vars⟩) ⟨(takes_congr same).mp h.taken, h.next⟩).andThen
    fun v s place => .ok place

theorem followed_of_whole {d : Derivation 3} (notSigned : d.isSigned = false)
    (whole : ∀ {n : Nat}, d.calls ≤ n + 1 → ∀ {s u : State σ}, Stands s u d 3 →
      Agrees u ((atLevel frail 3 (n + 1)).run s) (d.tree.eval s.vars)) : Followed σ frail d := by
  have whole {n : Nat} (room : d.calls ≤ n) {s u : State σ} (h : Stands s u d 3) :
      Agrees u ((atLevel frail 3 n).run s) (d.tree.eval s.vars) := by
    cases n with
    | zero => exact absurd d.calls_pos (Nat.not_lt.mpr room)
    | succ n => exact whole room h
  refine ⟨whole, fun level => by omega, fun _ {n} room s u h turned => ?_⟩
  rw [notSigned] at room
  exact behindSigns_of_whole notSigned whole room h turned

theorem run_operand {s : State σ} {t : Token} {supply : σ} (ha : s.ahead = .ok t supply) (n : Nat) :
    (atLevel frail 3 (n + 1)).run s =
      Rule.begun (fun _ => Rule.sum ⟨n, frail⟩) (fun _ => Rule.operand ⟨n, frail⟩) t
        (.ofSupply supply s.vars) := by
  rw [Rule.atLevel_operand]
  show s.token.andThen _ = _
  rw [token_of_ahead ha, Outcome.andThen_ok]

theorem followed_number (t : Token) (isNumber : t.kind = .number) :
    Followed σ frail (.number t isNumber) := by
  refine followed_of_whole rfl ?_
  intro n _ s u h
  obtain ⟨supply, ha, place⟩ := h.taken
  rw [run_operand ha, Rule.begun, isNumber]
  exact .ok place

theorem followed_named (t : Token) (isName : t.kind = .name) :
    Followed σ frail (.named t isName) := by
  refine followed_of_whole rfl ?_
  intro n _ s u h
  obtain ⟨supply, ha, place⟩ := h.taken
  obtain ⟨t', supply', ha', settled⟩ := h.next
  have notAssign : t'.kind ≠ .assign := fun hk => by cases settled.name_of_assign hk
  have htoken := token_of_ahead (Eq.trans place ha')
  rw [run_operand ha, Rule.begun, isName]
  simp only [Rule.named, htoken, Outcome.andThen_ok, if_neg notAssign]
  show Agrees u (State.lookup ⟨supply', some t', s.vars⟩ t.name) (Expr.eval (.name t.name) s.vars)
  rw [State.lookup, Expr.eval]
  cases s.vars.lookup t.name with
  | none => exact .fault
  | some value => exact .of_eq ha'.symm rfl

theorem followed_enclosed {o c : Token} (opens : o.kind = .opening) (closes : c.kind = .closing)
    {d : Derivation 1} (ih : Followed σ frail d) :
    Followed σ frail (.enclosed o c opens closes d) := by
  refine followed_of_whole rfl ?_
  intro n room s u h
  obtain ⟨supply, ha, hrest⟩ := h.taken
  obtain ⟨w, hd, supply', ha', place⟩ := takes_split hrest
  have settled : d.Settled 1 c := settled_of_ne (fun op => by simp [closes]) (by simp [closes])
  have agrees := ih.whole (n := n) (Nat.le_of_succ_le_succ room)
    (s := .ofSupply supply s.vars) ⟨hd, c, supply', ha', settled⟩
  rw [run_operand ha, Rule.begun, opens]
  show Agrees u (((atLevel frail 1 n).run _).andThen _) (d.tree.eval s.vars)
  rw [← Outcome.andThen_ok_right (d.tree.eval s.vars)]
  refine agrees.andThen ?_
  intro v s₁ place'
  rw [token_of_ahead (place'.trans ha'), Outcome.andThen_ok, if_pos closes]
  exact .of_eq place rfl

theorem followed_assigned {t e : Token} (isName : t.kind = .name) (isAssign : e.kind = .assign)
    {d : Derivation 1} (ih : Followed σ frail d) :
    Followed σ frail (.assigned t e isName isAssign d) := by
  refine followed_of_whole rfl ?_
  intro n room s u h
  obtain ⟨supply, ha, supply', ha', hd⟩ := h.taken
  obtain ⟨t', supply'', ha'', settled⟩ := h.next
  have noOperator : ∀ op, t'.kind ≠ .operator op := fun op hk => by
    cases settled.open_of_operator op hk
  have settled : d.Settled 1 t' :=
    ⟨⟨fun op hk => absurd hk (noOperator op), settled.name_of_assign⟩,
      fun op hk => absurd hk (noOperator op)⟩
  have agrees := ih.whole (n := n) (Nat.le_of_succ_le_succ room)
    (s := .ofSupply supply' s.vars) ⟨hd, t', supply'', ha'', settled⟩
  rw [run_operand ha, Rule.begun, isName]
  simp only [Rule.named, token_of_ahead ha', Outcome.andThen_ok, if_pos isAssign]
  exact agrees.andThen fun v s₁ place => .of_eq place rfl

theorem followed_signed {t : Token} (isMinus : t.kind = .operator .subtract) {d : Derivation 3}
    (ih : Followed σ frail d) : Followed σ frail (.signed t isMinus d) := by
  have stands {s u : State σ} (h : Stands s u (.signed t isMinus d) 3) :
      ∃ supply, s.ahead = .ok t supply ∧ Stands (.ofSupply supply s.vars) u d 3 := by
    obtain ⟨supply, ha, hd⟩ := h.taken
    obtain ⟨t', supply', ha', settled⟩ := h.next
    exact ⟨supply, ha, hd, t', supply', ha', settled.congr rfl rfl⟩
  refine ⟨fun {n} room s u h => ?_, fun level => by omega, fun _ {n} room s u h turned => ?_⟩
  · obtain ⟨supply, ha, h⟩ := stands h
    cases n with
    | zero => exact absurd (Derivation.calls_pos _) (Nat.not_lt.mpr room)
    | succ n =>
      rw [run_operand ha, Rule.begun, isMinus]
      refine ih.behindSigns rfl ?_ h true
      unfold calls at room
      split at room <;> simp_all
  · obtain ⟨supply, ha, h⟩ := stands h
    have room : d.calls ≤ if d.isSigned then n + 1 else n := by
      unfold calls at room
      split at room <;> simp_all [isSigned]
    have agrees := ih.behindSigns rfl room h (!turned)
    have walk : ((d.tree.eval s.vars).andThen fun v b => .ok (-v) b).andThen
        (fun v b => .ok (if turned then -v else v) b) =
        (d.tree.eval s.vars).andThen fun v b => .ok (if !turned then -v else v) b := by
      cases d.tree.eval s.vars with
      | fault f b => rfl
      | ok v b => cases turned <;> simp [Binary64.neg_neg]
    rw [signs_minus ha isMinus, tree, Expr.eval, walk]
    exact agrees

/-- The rules do with a tidy derivation what the walk does. -/
theorem followed {d : Derivation p} (tidy : d.Tidy) : Followed σ frail d := by
  induction d with
  | lone level only ih => exact followed_lone level (ih tidy)
  | chained left sign op isOperator right ihl ihr =>
    refine followed_chained ?_ tidy.2.1 (ihl tidy.1) (ihr tidy.2.2)
    have := (kind_of_operatorAt isOperator).2
    have := op.precedence_pos
    have := op.precedence_lt
    omega
  | number t isNumber => exact followed_number t isNumber
  | enclosed opening closing opens closes inner ih => exact followed_enclosed opens closes (ih tidy)
  | signed minus isMinus operand ih => exact followed_signed isMinus (ih tidy)
  | named t isName => exact followed_named t isName
  | assigned target equals isName isAssign value ih =>
    exact followed_assigned isName isAssign (ih tidy)

end Reckoner
