/-
  Only nesting makes a statement too deep.

  Behind some tokens certain parentheses and assignments are open (`opened`). A rule that
  reads something of a level needs at most four rules at once for each of them, and five
  less its level besides: a sign, the operand behind it, the product and the sum around
  them. So where the limit is met the tokens taken have opened many (`Strained`), however
  long they are. Conversely each opening has at least three rules active, and so many of
  them meet any limit (`tooDeep_of_openings`).

  Both are inductions on the limit, with a step for each rule. For the first an operand
  behind signs is apart: it has a rule more than its limit says, for no sign can come.

  Proved: `tooDeep_by_nesting`, with what a session does then.
-/
import Reckoner.Proofs.Recovery
import Reckoner.Proofs.Viability

namespace Reckoner

open State Reckoner.Derivation

/-! ## What is open -/

/-- What is open behind a token, the innermost first: `(` opens a parenthesis and `=` an
    assignment, and `)` ends a parenthesis with the assignments in it. -/
def Kind.nest (outer : List Kind) : Kind → List Kind
  | .opening => .opening :: outer
  | .assign => .assign :: outer
  | .closing => (outer.dropWhile (· ≠ .opening)).tail
  | _ => outer

def nestAll (outer : List Kind) (ts : List Token) : List Kind :=
  ts.foldl (fun outer t => t.kind.nest outer) outer

/-- The parentheses and assignments that are open behind some tokens. -/
def opened (ts : List Token) : List Kind := nestAll [] ts

theorem nestAll_append (outer : List Kind) (ts us : List Token) :
    nestAll outer (ts ++ us) = nestAll (nestAll outer ts) us := List.foldl_append

theorem nestAll_cons (outer : List Kind) (t : Token) (ts : List Token) :
    nestAll outer (t :: ts) = nestAll (t.kind.nest outer) ts := rfl

/-- How many assignments are open at the end of a derivation. -/
def Derivation.pending {p : Nat} : Derivation p → Nat
  | lone _ d => d.pending
  | chained l _ _ _ r => r.pending + l.pending
  | signed _ _ d => d.pending
  | assigned _ _ _ _ d => d.pending + 1
  | _ => 0

section Open

variable {p : Nat}

theorem nest_closing (k : Nat) (outer : List Kind) :
    Kind.closing.nest (List.replicate k .assign ++ .opening :: outer) = outer := by
  have passed : (List.replicate k Kind.assign ++ .opening :: outer).dropWhile (· ≠ .opening) =
      .opening :: outer := by
    rw [List.dropWhile_append_of_pos fun c hc => ?_]
    · rfl
    · rw [List.eq_of_mem_replicate hc]
      rfl
  rw [Kind.nest, passed, List.tail_cons]

/-- A derivation leaves open what was, and the assignments at its end. -/
theorem nestAll_word (d : Derivation p) (outer : List Kind) :
    nestAll outer d.word = List.replicate d.pending .assign ++ outer := by
  induction d generalizing outer with
  | lone level only ih => exact ih outer
  | chained left sign op isOperator right ihl ihr =>
    rw [word, nestAll_append, ihl, nestAll_cons, (kind_of_operatorAt isOperator).1, Kind.nest, ihr,
      pending, List.replicate_add, List.append_assoc]
    all_goals exact Kind.noConfusion
  | number t isNumber => rw [word, nestAll_cons, isNumber]; rfl
  | enclosed opening closing opens closes inner ih =>
    rw [word, nestAll_cons, opens, Kind.nest, nestAll_append, ih, nestAll_cons, closes, nest_closing]
    rfl
  | signed minus isMinus operand ih =>
    rw [word, nestAll_cons, isMinus]
    exact ih outer
  | named t isName => rw [word, nestAll_cons, isName]; rfl
  | assigned target equals isName isAssign value ih =>
    rw [word, nestAll_cons, isName, nestAll_cons, isAssign]
    show nestAll (.assign :: outer) value.word = _
    rw [ih, pending, List.replicate_succ', List.append_assoc]
    rfl

theorem pending_eq_zero {d : Derivation p} (tidy : d.Tidy) (closed : d.endsOpen = false) :
    d.pending = 0 := by
  induction d with
  | lone level only ih => exact ih tidy closed
  | chained left sign op isOperator right ihl ihr =>
    rw [pending, ihl tidy.1 tidy.2.1, ihr tidy.2.2 closed]
  | signed minus isMinus operand ih => exact ih tidy closed
  | assigned => cases closed
  | _ => rfl

/-- What ends before an operator leaves nothing open. -/
theorem nestAll_closed {d : Derivation p} (tidy : d.Tidy) (closed : d.endsOpen = false)
    (outer : List Kind) : nestAll outer d.word = outer := by
  rw [nestAll_word, pending_eq_zero tidy closed]
  rfl

end Open

/-! ## Where the limit is met -/

section Limit

variable {σ : Type} [Supply σ] {p k n : Nat} {frail : Bool} {limit : Limit}

theorem State.token_ne_tooDeep (plain : Supply.Plain σ) {s s' : State σ} :
    s.token ≠ .fault .tooDeep s' := by
  intro h
  obtain ⟨-, hnext, -⟩ := token_eq_fault h
  cases plain _ _ _ hnext

theorem Operator.apply_ne_tooDeep {op : Operator} {x y : Float} :
    op.apply x y ≠ .error .tooDeep := by
  intro h
  obtain ⟨-, -, hf⟩ | ⟨-, -, -, hf⟩ := apply_eq_error_iff.mp h <;> cases hf

/-- From `s` the tokens `ts` were taken, with which something of a level begins, and they
    have opened so much that `k` rules are not enough. -/
structure Strained (p k : Nat) (s : State σ) (ts : List Token) (s' : State σ) : Prop
    extends Started p s ts s' where
  deep : ∃ inner, (∀ outer, nestAll outer ts = inner ++ outer) ∧ k < 4 * inner.length + 5

namespace Strained

variable {s s₀ s₁ s' : State σ} {ts : List Token} {u : Token}

theorem of_ahead (h : Strained p k s₁ ts s') (same : s.ahead = s₁.ahead) : Strained p k s ts s' :=
  ⟨h.toStarted.of_ahead same, h.deep⟩

/-- Where nothing was taken. -/
theorem nothing (hp : 1 ≤ p ∧ p ≤ 3) (hk : k < 5) (s : State σ) : Strained p k s [] s := by
  let number : Derivation 3 := .number (.number 0) rfl
  have begun : ∃ (d : Derivation p) (more : List Token), d.word = more := by
    match p, hp with
    | 1, _ => exact ⟨.lone (.inl rfl) (.lone (.inr rfl) number), _, rfl⟩
    | 2, _ => exact ⟨.lone (.inr rfl) number, _, rfl⟩
    | 3, _ => exact ⟨number, _, rfl⟩
  exact ⟨⟨takes_refl s, begun⟩, [], fun _ => rfl, hk⟩

theorem lone (level : p = 1 ∨ p = 2) (h : Strained (p + 1) k s ts s') : Strained p k s ts s' :=
  ⟨h.toStarted.lone level, h.deep⟩

theorem chained {d : Derivation p} {op : Operator} (taken : s₀.Takes d.word s) (tidy : d.Tidy)
    (closed : d.endsOpen = false) (htoken : s.token = .ok u s₁)
    (hop : Rule.operatorAt p u.kind = some op) (h : Strained (p + 1) k s₁ ts s') :
    Strained p k s₀ (d.word ++ u :: ts) s' := by
  obtain ⟨inner, hinner, deep⟩ := h.deep
  refine ⟨h.toStarted.chained taken htoken hop, inner, fun outer => ?_, deep⟩
  rw [nestAll_append, nestAll_closed tidy closed, nestAll_cons, (kind_of_operatorAt hop).1]
  exact hinner outer

theorem signed (htoken : s.token = .ok u s₁) (isMinus : u.kind = .operator .subtract)
    (h : Strained 3 k s₁ ts s') : Strained 3 k s (u :: ts) s' := by
  obtain ⟨inner, hinner, deep⟩ := h.deep
  refine ⟨h.toStarted.signed htoken isMinus, inner, fun outer => ?_, deep⟩
  rw [nestAll_cons, isMinus]
  exact hinner outer

theorem enclosed (htoken : s.token = .ok u s₁) (opens : u.kind = .opening)
    (h : Strained 1 k s₁ ts s') : Strained 3 (k + 4) s (u :: ts) s' := by
  obtain ⟨inner, hinner, deep⟩ := h.deep
  refine ⟨h.toStarted.enclosed htoken opens, inner ++ [.opening], fun outer => ?_, ?_⟩
  · rw [nestAll_cons, opens, Kind.nest, hinner, List.append_assoc]
    rfl
  · rw [List.length_append, List.length_singleton]
    omega

theorem assigned {e : Token} (htoken : s.token = .ok u s₀) (isName : u.kind = .name)
    (hnext : s₀.token = .ok e s₁) (isAssign : e.kind = .assign) (h : Strained 1 k s₁ ts s') :
    Strained 3 (k + 4) s (u :: e :: ts) s' := by
  obtain ⟨inner, hinner, deep⟩ := h.deep
  refine ⟨h.toStarted.assigned htoken isName hnext isAssign, inner ++ [.assign],
    fun outer => ?_, ?_⟩
  · rw [nestAll_cons, isName, nestAll_cons, isAssign]
    show nestAll (.assign :: outer) ts = _
    rw [hinner, List.append_assoc]
    rfl
  · rw [List.length_append, List.length_singleton]
    omega

theorem mono {k' : Nat} (h : Strained p k s ts s') (hk : k' ≤ k) : Strained p k' s ts s' := by
  obtain ⟨inner, hinner, deep⟩ := h.deep
  exact ⟨h.toStarted, inner, hinner, by omega⟩

end Strained

namespace Rule

/-- Where the rule meets the limit, much is open. -/
def Strains (p k : Nat) (r : Rule σ) : Prop :=
  ∀ s s', r.run s = .fault .tooDeep s' → ∃ ts u, Strained p k s ts u

/-- So few rules are not enough where nothing is open. -/
theorem strains_of_lt (hp : 1 ≤ p ∧ p ≤ 3) (hk : k < 5) (r : Rule σ) : r.Strains p k :=
  fun s _ _ => ⟨[], s, .nothing hp hk s⟩

section Rules

variable (plain : Supply.Plain σ)
include plain

theorem strains_chainFrom {operand : Rule σ} (hsound : operand.Sound (p + 1))
    (hstrains : operand.Strains (p + 1) k) {s₀ s s' : State σ} {left : Float} {d : Derivation p}
    (taken : s₀.Takes d.word s) (tidy : d.Tidy)
    (settled : ∀ {t supply}, s.ahead = .ok t supply → d.Settled (p + 1) t)
    (h : chainFrom p operand left s = .fault .tooDeep s') : ∃ ts u, Strained p k s₀ ts u := by
  fun_induction chainFrom p operand left s generalizing d with
  | case1 left s f s₁ htoken =>
    injection h with hf
    exact absurd (hf ▸ htoken) (token_ne_tooDeep plain)
  | case2 left s t s₁ htoken hnone =>
    rw [answer_of_token htoken] at h
    cases h
  | case3 left s t s₁ htoken op hsome f s₂ hrun =>
    injection h with hf hs
    subst hf hs
    obtain ⟨ts, u, strained⟩ := hstrains _ _ hrun
    have closed := (settled (token_eq_ok htoken).1).open_of_operator op (kind_of_operatorAt hsome).1
    exact ⟨_, _, strained.chained taken tidy closed htoken hsome⟩
  | case4 left s t s₁ htoken op hsome right s₂ hrun f happly =>
    injection h with hf
    exact absurd (hf ▸ happly) Operator.apply_ne_tooDeep
  | case5 left s t s₁ htoken op hsome right s₂ hrun value happly ih =>
    obtain ⟨r, reading⟩ := hsound _ _ _ hrun
    have closed := (settled (token_eq_ok htoken).1).open_of_operator op (kind_of_operatorAt hsome).1
    refine ih (d := .chained d t op hsome r) ?_ ⟨tidy, closed, reading.tidy⟩ ?_ h
    · exact takes_append taken (takes_token_cons htoken reading.taken)
    · exact fun hnext => (reading.settled hnext).congr rfl rfl

theorem strains_chain (level : p = 1 ∨ p = 2) {operand : Unit → Rule σ}
    (hsound : (operand ()).Sound (p + 1)) (hstrains : (operand ()).Strains (p + 1) k) :
    (chain p operand).Strains p k := by
  intro s s' h
  obtain h | ⟨left, s₁, hrun, h⟩ := Outcome.andThen_eq_fault.mp h
  · obtain ⟨ts, u, strained⟩ := hstrains _ _ h
    exact ⟨ts, u, strained.lone level⟩
  · obtain ⟨d, reading⟩ := hsound _ _ _ hrun
    exact strains_chainFrom plain hsound hstrains (d := .lone level d) reading.taken reading.tidy
      (fun hnext => (reading.settled hnext).congr rfl rfl) h

theorem signs_ne_tooDeep {turned : Bool} {s s' : State σ} :
    signs turned s ≠ .fault .tooDeep s' := by
  intro h
  fun_induction signs turned s with
  | case1 turned s f s₁ htoken =>
    injection h with hf
    exact token_ne_tooDeep plain (hf ▸ htoken)
  | case2 turned s t s₁ htoken hminus ih => exact ih h
  | case3 turned s t s₁ htoken hminus =>
    rw [answer_of_token htoken] at h
    cases h

omit plain in
/-- Behind signs no sign comes, and what is strained there is so in front of them. -/
theorem strained_signs {turned b : Bool} {s s₁ : State σ} (h : signs turned s = .ok b s₁) :
    (∃ t, s₁.slot = some t ∧ t.kind ≠ .operator .subtract) ∧
      ∀ ts s', Strained 3 k s₁ ts s' → ∃ ts, Strained 3 k s ts s' := by
  fun_induction signs turned s with
  | case1 => cases h
  | case2 turned s u s₂ htoken hminus ih =>
    obtain ⟨bare, front⟩ := ih h
    refine ⟨bare, fun ts s' strained => ?_⟩
    obtain ⟨ts, strained⟩ := front ts s' strained
    exact ⟨_, strained.signed htoken hminus⟩
  | case3 turned s u s₂ htoken hminus =>
    rw [answer_of_token htoken] at h
    injection h with _ hs
    subst hs
    exact ⟨⟨u, rfl, hminus⟩, fun ts s' strained => ⟨ts, strained.of_ahead (ahead_of_token htoken)⟩⟩

theorem strained_enclosed {sum : Rule σ} (hsum : sum.Strains 1 k) {s s₁ s' : State σ} {t : Token}
    (htoken : s.token = .ok t s₁) (opens : t.kind = .opening)
    (h : enclosed sum s₁ = .fault .tooDeep s') : ∃ ts u, Strained 3 (k + 4) s ts u := by
  obtain h | ⟨value, s₂, hrun, h⟩ := Outcome.andThen_eq_fault.mp h
  · obtain ⟨ts, u, strained⟩ := hsum _ _ h
    exact ⟨_, _, strained.enclosed htoken opens⟩
  · obtain h | ⟨c, s₃, hnext, h⟩ := Outcome.andThen_eq_fault.mp h
    · exact absurd h (token_ne_tooDeep plain)
    · split at h
      · cases h
      · rw [refuse_of_token hnext] at h
        cases h

theorem strained_named {sum : Rule σ} (hsum : sum.Strains 1 k) {s s₁ s' : State σ} {t : Token}
    (htoken : s.token = .ok t s₁) (isName : t.kind = .name)
    (h : named sum t.name s₁ = .fault .tooDeep s') : ∃ ts u, Strained 3 (k + 4) s ts u := by
  obtain h | ⟨e, s₂, hnext, h⟩ := Outcome.andThen_eq_fault.mp h
  · exact absurd h (token_ne_tooDeep plain)
  · split at h
    · next isAssign =>
      obtain h | ⟨value, s₃, -, h⟩ := Outcome.andThen_eq_fault.mp h
      · obtain ⟨ts, u, strained⟩ := hsum _ _ h
        exact ⟨_, _, strained.assigned htoken isName hnext isAssign⟩
      · cases h
    · rw [hold_of_token hnext, Outcome.andThen_ok] at h
      unfold State.lookup at h
      split at h <;> cases h

/-- Where no sign is ahead an operand opens something before the limit is met. -/
theorem strained_bare {sum operand : Unit → Rule σ} (hsum : (sum ()).Strains 1 k)
    {s s₁ s' : State σ} {t : Token} (htoken : s.token = .ok t s₁)
    (notMinus : t.kind ≠ .operator .subtract)
    (h : begun sum operand t s₁ = .fault .tooDeep s') : ∃ ts u, Strained 3 (k + 4) s ts u := by
  have refused (h : (s₁.refuse t .operandExpected : Outcome (State σ) Float) = .fault .tooDeep s') :
      ∃ ts u, Strained 3 (k + 4) s ts u := by
    rw [refuse_of_token htoken] at h
    cases h
  unfold begun at h
  cases hk : t.kind with
  | number =>
    rw [hk] at h
    cases h
  | opening =>
    rw [hk] at h
    exact strained_enclosed plain hsum htoken hk h
  | name =>
    rw [hk] at h
    exact strained_named plain hsum htoken hk h
  | operator op =>
    rw [hk] at h
    cases op with
    | subtract => exact absurd hk notMinus
    | _ => exact refused h
  | _ =>
    rw [hk] at h
    exact refused h

theorem strained_signed {operand : Rule σ} (hoperand : ∀ s s' t, s.slot = some t →
      t.kind ≠ .operator .subtract → operand.run s = .fault .tooDeep s' → ∃ ts u, Strained 3 k s ts u)
    {s s₁ s' : State σ} {t : Token} (htoken : s.token = .ok t s₁)
    (isMinus : t.kind = .operator .subtract) (h : signed operand s₁ = .fault .tooDeep s') :
    ∃ ts u, Strained 3 k s ts u := by
  obtain h | ⟨turned, s₂, hsigns, h⟩ := Outcome.andThen_eq_fault.mp h
  · exact absurd h (signs_ne_tooDeep plain)
  · obtain h | ⟨v, s₃, -, h⟩ := Outcome.andThen_eq_fault.mp h
    · obtain ⟨⟨u, hslot, notMinus⟩, front⟩ := strained_signs hsigns
      obtain ⟨ts, w, strained⟩ := hoperand _ _ u hslot notMinus h
      obtain ⟨ts, strained⟩ := front ts w strained
      exact ⟨_, _, strained.signed htoken isMinus⟩
    · cases h

/-- Where a rule meets its limit, each rule that was allowed has been used. -/
theorem strains (frail : Bool) (n : Nat) :
    (sum ⟨n, frail⟩ : Rule σ).Strains 1 (n + 1) ∧ (product ⟨n, frail⟩ : Rule σ).Strains 2 (n + 2) ∧
      (operand ⟨n, frail⟩ : Rule σ).Strains 3 (n + 3) ∧
      ∀ (s s' : State σ) t, s.slot = some t → t.kind ≠ .operator .subtract →
        (operand ⟨n, frail⟩).run s = .fault .tooDeep s' → ∃ ts u, Strained 3 (n + 4) s ts u := by
  induction n with
  | zero =>
    exact ⟨strains_of_lt (by omega) (by omega) _, strains_of_lt (by omega) (by omega) _,
      strains_of_lt (by omega) (by omega) _,
      fun s s' _ _ _ => strains_of_lt (by omega) (by omega) _ s s'⟩
  | succ n ih =>
    obtain ⟨ihSum, ihProduct, ihOperand, ihBare⟩ := ih
    obtain ⟨-, hproduct, hoperand⟩ := sound (σ := σ) ⟨n, frail⟩
    rw [sum_succ, product_succ, operand_succ]
    refine ⟨strains_chain plain (.inl rfl) hproduct.sound ihProduct,
      strains_chain plain (.inr rfl) hoperand ihOperand, fun s s' h => ?_, fun s s' t hslot hk h => ?_⟩
    · obtain h | ⟨t, s₁, htoken, h⟩ := Outcome.andThen_eq_fault.mp h
      · exact absurd h (token_ne_tooDeep plain)
      · by_cases isMinus : t.kind = .operator .subtract
        · rw [begun, isMinus] at h
          exact strained_signed plain ihBare htoken isMinus h
        · obtain ⟨ts, u, strained⟩ := strained_bare plain ihSum htoken isMinus h
          exact ⟨ts, u, strained.mono (by omega)⟩
    · have htoken := token_of_ahead (ahead_of_slot hslot)
      change s.token.andThen _ = _ at h
      rw [htoken, Outcome.andThen_ok] at h
      exact strained_bare plain ihSum htoken hk h

end Rules

end Rule

/-! ## Statements -/

theorem State.firstToken_ne_tooDeep (plain : Supply.Plain σ) {s s' : State σ} :
    s.firstToken ≠ .fault .tooDeep s' := by
  intro h
  fun_induction firstToken s with
  | case1 s f s₁ htoken =>
    injection h with hf
    exact token_ne_tooDeep plain (hf ▸ htoken)
  | case2 s t s₁ htoken hprint ih => exact ih h
  | case3 => cases h

/-- Where a statement meets the limit, behind any `;` it took the beginning of a sentence,
    and in that so much is open. -/
theorem State.opened_of_tooDeep (plain : Supply.Plain σ) {s s' : State σ}
    (h : s.statement limit = .fault .tooDeep s') :
    ∃ prints ts u, (∀ t ∈ prints, t.kind = .print) ∧ s.Takes (prints ++ ts) u ∧ Viable ts ∧
      limit.depth < 4 * (opened ts).length + 4 := by
  obtain h | ⟨t, s₁, hfirst, h⟩ := Outcome.andThen_eq_fault.mp h
  · exact absurd h (firstToken_ne_tooDeep plain)
  · obtain ⟨prints, hprints, taken, hslot⟩ := takes_firstToken hfirst
    split at h
    · cases h
    · rw [statementFrom, State.hold, hslot, Outcome.andThen_ok] at h
      obtain h | ⟨v, s₂, hrun, h⟩ := Outcome.andThen_eq_fault.mp h
      · obtain ⟨ts, u, strained⟩ := (Rule.strains plain limit.frail limit.depth).1 _ _ h
        obtain ⟨d, more, hword⟩ := strained.begun
        obtain ⟨inner, hinner, deep⟩ := strained.deep
        refine ⟨prints, ts, u, hprints, takes_append taken strained.taken, ⟨more, d, hword⟩, ?_⟩
        rw [opened, hinner, List.append_nil]
        omega
      · obtain h | ⟨e, s₃, hnext, h⟩ := Outcome.andThen_eq_fault.mp h
        · exact absurd h (token_ne_tooDeep plain)
        · rw [hold_of_token hnext, Outcome.andThen_ok] at h
          split at h <;> cases h

/-- At no point of the statement ahead more than so many parentheses and assignments are
    open. It goes as far as a sentence could. -/
def State.NestsWithin (s : State σ) (most : Nat) : Prop :=
  ∀ prints ts u, (∀ t ∈ prints, t.kind = .print) → s.Takes (prints ++ ts) u → Viable ts →
    (opened ts).length ≤ most

theorem length_nestAll_le (outer : List Kind) (ts : List Token) :
    (nestAll outer ts).length ≤ outer.length + (ts.map Token.weight).sum := by
  induction ts generalizing outer with
  | nil => exact Nat.le_refl _
  | cons t ts ih =>
    have step : (t.kind.nest outer).length ≤ outer.length + t.weight := by
      unfold Token.weight
      cases t.kind with
      | closing =>
        have := (List.dropWhile_suffix (l := outer) (· ≠ Kind.opening)).length_le
        rw [Kind.nest, List.length_tail]
        omega
      | _ => simp [Kind.nest]
    have := ih (t.kind.nest outer)
    rw [nestAll_cons, List.map_cons, List.sum_cons]
    omega

theorem State.weights_le_size {s u : State σ} {ts : List Token} (h : s.Takes ts u) :
    (ts.map Token.weight).sum ≤ s.size := by
  induction ts generalizing s with
  | nil => exact Nat.zero_le _
  | cons t ts ih =>
    obtain ⟨a, ha, h⟩ := h
    have := ih h
    have := size_token (token_of_ahead ha)
    rw [List.map_cons, List.sum_cons]
    omega

/-- What is ahead nests no deeper than it is long. -/
theorem State.nestsWithin_size (s : State σ) : s.NestsWithin s.size := by
  intro prints ts u _ taken _
  have opens := length_nestAll_le [] ts
  have weights := weights_le_size taken
  rw [List.map_append, List.sum_append] at weights
  rw [List.length_nil] at opens
  exact Nat.le_trans opens (by omega)

end Limit

/-! ## Openings -/

/-- The most rules that can begin before the limit is met. -/
def Limit.most (limit : Limit) : Nat := limit.depth + 2 * limit.frail.toNat

/-- So many openings, each a `(` or a name with an assignment sign, and signs among them. -/
inductive Openings : Nat → List Token → Prop where
  | nothing : Openings 0 []
  | sign {k : Nat} {t : Token} {ts : List Token} (isMinus : t.kind = .operator .subtract)
      (more : Openings k ts) : Openings k (t :: ts)
  | parenthesis {k : Nat} {t : Token} {ts : List Token} (opens : t.kind = .opening)
      (more : Openings k ts) : Openings (k + 1) (t :: ts)
  | assignment {k : Nat} {t e : Token} {ts : List Token} (isName : t.kind = .name)
      (isAssign : e.kind = .assign) (more : Openings k ts) : Openings (k + 1) (t :: e :: ts)

/-- What a run keeps, from one state to another. -/
def State.Keeps {σ : Type} [Supply σ] (s s' : State σ) : Prop :=
  ∀ I : Invariant σ, I.holds s → I.holds s'

/-- The limit was met. No variable has changed, and no `;` was lost. -/
def Outcome.Exhausted {σ α : Type} [Supply σ] (o : Outcome (State σ) α) (s : State σ) : Prop :=
  ∃ s', o = .fault .tooDeep s' ∧ s'.vars = s.vars ∧ s.Keeps s'

section Openings

variable {σ : Type} [Supply σ] {s s₁ u : State σ} {t : Token} {a : σ} {ts : List Token} {k n : Nat}
  {frail : Bool} {limit : Limit}

theorem State.keeps_taken (ha : s.ahead = .ok t a) (notPrint : t.kind ≠ .print) :
    s.Keeps (ofSupply a s.vars) :=
  fun I h => I.holds_of_drawn (I.token h (token_of_ahead ha)) notPrint

theorem State.keeps_held (ha : s.ahead = .ok t a) : s.Keeps ⟨a, some t, s.vars⟩ :=
  fun I h => I.hold (I.token h (token_of_ahead ha))

theorem Outcome.exhausted_here {α : Type} (s : State σ) :
    (.fault .tooDeep s : Outcome (State σ) α).Exhausted s := ⟨s, rfl, rfl, fun _ h => h⟩

theorem Outcome.Exhausted.behind {α : Type} {o : Outcome (State σ) α} (h : o.Exhausted s₁)
    (keeps : s.Keeps s₁) (hvars : s₁.vars = s.vars) : o.Exhausted s := by
  obtain ⟨s', rfl, hvars', keeps'⟩ := h
  exact ⟨s', rfl, hvars'.trans hvars, fun I holds => keeps' I (keeps I holds)⟩

theorem Outcome.Exhausted.andThen {α β : Type} {o : Outcome (State σ) α} (h : o.Exhausted s)
    (l : α → State σ → Outcome (State σ) β) : (o.andThen l).Exhausted s := by
  obtain ⟨s', rfl, hvars, keeps⟩ := h
  exact ⟨s', rfl, hvars, keeps⟩

theorem Openings.begins (h : Openings (k + 1) ts) :
    ∃ t ts', ts = t :: ts' ∧ t.kind ≠ .print ∧ t.kind ≠ .quit := by
  cases h with
  | sign isMinus => exact ⟨_, _, rfl, by rw [isMinus]; exact ⟨Kind.noConfusion, Kind.noConfusion⟩⟩
  | parenthesis opens => exact ⟨_, _, rfl, by rw [opens]; exact ⟨Kind.noConfusion, Kind.noConfusion⟩⟩
  | assignment isName => exact ⟨_, _, rfl, by rw [isName]; exact ⟨Kind.noConfusion, Kind.noConfusion⟩⟩

/-- A token that ends no statement may be lost. -/
theorem lose_of_ahead (ha : s.ahead = .ok t a) (notPrint : t.kind ≠ .print) :
    (Rule.lose s).Exhausted s := by
  rw [Rule.lose, token_of_ahead ha, Outcome.andThen_ok]
  exact (Outcome.exhausted_here _).behind (keeps_taken ha notPrint) rfl

/-- In front of an opening the rule that is one too many loses a part of it at most. -/
theorem brink_of_openings (openings : Openings (k + 1) ts) (taken : s.Takes ts u) :
    ((Rule.brink frail).run s).Exhausted s := by
  obtain hrun | ⟨-, hrun | ⟨⟨held, hslot, isName⟩, hrun⟩⟩ := Rule.run_brink frail s
  all_goals rw [hrun]
  · exact Outcome.exhausted_here s
  · obtain ⟨t, ts', rfl, notPrint, -⟩ := openings.begins
    obtain ⟨a, ha, -⟩ := taken
    exact lose_of_ahead ha notPrint
  · have hheld := ahead_of_slot hslot
    have notPrint : held.kind ≠ .print := by rw [isName]; exact Kind.noConfusion
    rw [token_of_ahead hheld, Outcome.andThen_ok]
    refine Outcome.Exhausted.behind ?_ (keeps_taken hheld notPrint) rfl
    -- Behind a name the opening goes on with its assignment sign.
    cases openings with
    | sign isMinus more =>
      obtain ⟨a, ha, -⟩ := taken
      injection hheld.symm.trans ha with same
      subst same
      cases isMinus.symm.trans isName
    | parenthesis opens more =>
      obtain ⟨a, ha, -⟩ := taken
      injection hheld.symm.trans ha with same
      subst same
      cases opens.symm.trans isName
    | assignment _ isAssign more =>
      obtain ⟨a, ha, b, hb, -⟩ := taken
      injection hheld.symm.trans ha with _ same
      subst same
      exact lose_of_ahead hb (by rw [isAssign]; exact Kind.noConfusion)

/-- Signs in front of an opening are read, and it is still to come. -/
theorem signs_of_openings (h : Openings (k + 1) ts) (taken : s.Takes ts u) (turned : Bool) :
    ∃ b s₁ ts', Rule.signs turned s = .ok b s₁ ∧ s₁.vars = s.vars ∧ s.Keeps s₁ ∧
      Openings (k + 1) ts' ∧ s₁.Takes ts' u := by
  generalize hm : k + 1 = m at h
  induction h generalizing s turned with
  | nothing => cases hm
  | @sign m t ts isMinus more ih =>
    obtain ⟨a, ha, taken⟩ := taken
    rw [signs_minus ha isMinus]
    obtain ⟨b, s₁, ts', hsigns, hvars, keeps, behind⟩ := ih taken (!turned) hm
    have notPrint : t.kind ≠ .print := by rw [isMinus]; exact Kind.noConfusion
    exact ⟨b, s₁, ts', hsigns, hvars, fun I h => keeps I (keeps_taken ha notPrint I h), behind⟩
  | @parenthesis m t ts opens more ih =>
    obtain ⟨a, ha, behind⟩ := id taken
    have place : s.ahead = (⟨a, some t, s.vars⟩ : State σ).ahead := ha
    rw [signs_stop ha (by rw [opens]; exact Kind.noConfusion)]
    exact ⟨_, _, _, rfl, rfl, keeps_held ha, .parenthesis opens more,
      (takes_congr place).mp taken⟩
  | @assignment m t e ts isName isAssign more ih =>
    obtain ⟨a, ha, behind⟩ := id taken
    have place : s.ahead = (⟨a, some t, s.vars⟩ : State σ).ahead := ha
    rw [signs_stop ha (by rw [isName]; exact Kind.noConfusion)]
    exact ⟨_, _, _, rfl, rfl, keeps_held ha, .assignment isName isAssign more,
      (takes_congr place).mp taken⟩

/-- Each opening has three rules active, whatever stands behind the last. On a frail stack two
    more must be, so that an opening is lost and not what follows. -/
theorem tooDeep_of_openings (frail : Bool) (n : Nat) : ∀ (k : Nat) (ts : List Token) (s u : State σ),
    Openings k ts → s.Takes ts u →
      (n + 2 * frail.toNat < 3 * k + 3 → ((Rule.sum ⟨n, frail⟩).run s).Exhausted s) ∧
      (n + 2 * frail.toNat < 3 * k + 2 → ((Rule.product ⟨n, frail⟩).run s).Exhausted s) ∧
      (n + 2 * frail.toNat < 3 * k + 1 → ((Rule.operand ⟨n, frail⟩).run s).Exhausted s) := by
  induction n with
  | zero =>
    intro k ts s u openings taken
    have deep : ((Rule.tooDeep : Rule σ).run s).Exhausted s := Outcome.exhausted_here s
    have brink (h : 2 * frail.toNat < 3 * k + 2) : ((Rule.brink frail).run s).Exhausted s := by
      cases frail with
      | false => exact deep
      | true =>
        rw [Bool.toNat_true] at h
        obtain ⟨j, rfl⟩ := Nat.exists_eq_add_of_lt (show 0 < k by omega)
        rw [Nat.zero_add] at openings
        exact brink_of_openings openings taken
    exact ⟨fun _ => deep, fun h => brink (by omega), fun h => brink (by omega)⟩
  | succ n ih =>
    intro k ts s u openings taken
    obtain ⟨-, ihProduct, ihOperand⟩ := ih k ts s u openings taken
    refine ⟨fun h => ?_, fun h => ?_, fun h => ?_⟩
    · rw [Rule.sum_succ]
      exact (ihProduct (by omega)).andThen _
    · rw [Rule.product_succ]
      exact (ihOperand (by omega)).andThen _
    · show ((Rule.atLevel frail 3 (n + 1)).run s).Exhausted s
      cases openings with
      | nothing => omega
      | @sign _ t ts isMinus more =>
        obtain ⟨j, rfl⟩ := Nat.exists_eq_add_of_lt (show 0 < k by omega)
        obtain ⟨a, ha, taken⟩ := taken
        rw [Nat.zero_add] at more
        obtain ⟨b, s₁, ts', hsigns, hvars, keeps, openings, taken⟩ := signs_of_openings more taken true
        have notPrint : t.kind ≠ .print := by rw [isMinus]; exact Kind.noConfusion
        rw [run_operand ha, Rule.begun, isMinus]
        show ((Rule.signs true (ofSupply a s.vars)).andThen _).Exhausted _
        rw [hsigns, Outcome.andThen_ok]
        have operand := (ih (j + 1) ts' s₁ u openings taken).2.2 (by omega)
        exact ((operand.andThen _).behind keeps hvars).behind (keeps_taken ha notPrint) rfl
      | @parenthesis j t ts opens more =>
        obtain ⟨a, ha, taken⟩ := taken
        have notPrint : t.kind ≠ .print := by rw [opens]; exact Kind.noConfusion
        rw [run_operand ha, Rule.begun, opens]
        have sum := (ih j ts _ u more taken).1 (by omega)
        exact (sum.andThen _).behind (keeps_taken ha notPrint) rfl
      | @assignment j t e ts isName isAssign more =>
        obtain ⟨a, ha, b, hb, taken⟩ := taken
        have notPrint : t.kind ≠ .print := by rw [isName]; exact Kind.noConfusion
        have signNotPrint : e.kind ≠ .print := by rw [isAssign]; exact Kind.noConfusion
        rw [run_operand ha, Rule.begun, isName]
        simp only [Rule.named, token_of_ahead hb, Outcome.andThen_ok, if_pos isAssign]
        have sum := (ih j ts _ u more taken).1 (by omega)
        exact ((sum.andThen _).behind (keeps_taken hb signNotPrint) rfl).behind
          (keeps_taken ha notPrint) rfl

/-- Any `;` in front of a statement are passed. -/
theorem State.takes_behind_prints {prints : List Token} (hprints : ∀ t ∈ prints, t.kind = .print)
    (taken : s.Takes (prints ++ ts) u) :
    ∃ s₁ : State σ, s₁.vars = s.vars ∧ s₁.Takes ts u ∧ s.firstToken = s₁.firstToken := by
  induction prints generalizing s with
  | nil => exact ⟨s, rfl, taken, rfl⟩
  | cons t prints ih =>
    obtain ⟨a, ha, taken⟩ := taken
    obtain ⟨s₁, hvars, taken, hfirst⟩ := ih (fun t ht => hprints t (.tail _ ht)) taken
    exact ⟨s₁, hvars, taken, (firstToken_print ha (hprints t (.head _))).trans hfirst⟩

/-- A statement with so many openings in front meets the limit, whatever follows them, and
    keeps what a run keeps behind its first token. -/
theorem State.exhausted_of_openings {prints : List Token}
    (hprints : ∀ t ∈ prints, t.kind = .print) (taken : s.Takes (prints ++ ts) u)
    (openings : Openings (k + 1) ts) (hlimit : limit.most < 3 * (k + 1) + 3) :
    ∃ s', s.statement limit = .fault .tooDeep s' ∧ s'.vars = s.vars ∧
      ∀ I : Invariant σ, (∀ t s₁, s.firstToken = .ok t s₁ → I.drawn t s₁) → I.holds s' := by
  obtain ⟨s₁, hvars, taken, hfirst⟩ := takes_behind_prints hprints taken
  obtain ⟨t, ts', rfl, notPrint, notQuit⟩ := openings.begins
  obtain ⟨a, ha, -⟩ := id taken
  have place : s₁.ahead = (⟨a, some t, s₁.vars⟩ : State σ).ahead := ha
  have begins : s.firstToken = .ok t (ofSupply a s₁.vars) :=
    hfirst.trans (firstToken_of_ahead ha notPrint)
  obtain ⟨s', hsum, unchanged, keeps⟩ := (tooDeep_of_openings limit.frail limit.depth (k + 1) _ _ u
    openings ((takes_congr place).mp taken)).1 hlimit
  refine ⟨s', ?_, unchanged.trans hvars, fun I drawn => keeps I (I.hold (drawn t _ begins))⟩
  rw [statement, begins, Outcome.andThen_ok, if_neg notQuit]
  change ((Rule.sum limit).run (⟨a, some t, s₁.vars⟩ : State σ)).andThen close = _
  exact Outcome.andThen_of_eq_fault hsum _

end Openings

/-! ## Texts -/

/-- **Only nesting makes a statement too deep.** Let the limit be from 803 to 3002, where rules
    that take a token and lose it count as well. A statement that nests at most 199 deep
    never meets it, however many operators, operands and signs it has. One that begins with
    1000 openings or more, signs among them, meets it whatever follows: no variable changes,
    and a session complains of it and goes on behind the `;` that ends it. -/
theorem tooDeep_by_nesting (limit : Limit) (least : 803 ≤ limit.depth) (greatest : limit.most < 3003)
    (s : State Script) :
    (s.NestsWithin 199 → ∀ s', s.statement limit ≠ .fault .tooDeep s') ∧
      ∀ prints ts u k, (∀ t ∈ prints, t.kind = .print) → s.Takes (prints ++ ts) u →
        Openings k ts → 1000 ≤ k →
        ∃ s', s.statement limit = .fault .tooDeep s' ∧ s'.vars = s.vars ∧
          ∃ first left, s.First first left ∧
            let rest := Script.ofText s.supply.constants (behindFirst left)
            let again := (ofSupply rest s.vars).converse limit
            (s.converse limit).events =
                Event.recovery .tooDeep (s'.giveUp .print).1 ++ again.events ∧
              (s.converse limit).fatal = again.fatal ∧
              (s.converse limit).state.vars = again.state.vars := by
  refine ⟨fun within s' failed => ?_, fun prints ts u k hprints taken openings many => ?_⟩
  · obtain ⟨prints, ts, u, hprints, taken, viable, deep⟩ := opened_of_tooDeep Script.plain failed
    have := within prints ts u hprints taken viable
    omega
  · obtain ⟨j, rfl⟩ := Nat.exists_eq_add_of_lt (show 0 < k by omega)
    rw [Nat.zero_add] at openings many
    obtain ⟨s', failed, hvars, kept⟩ := exhausted_of_openings hprints taken openings
      (show limit.most < 3 * (j + 1) + 3 by omega)
    obtain ⟨first, left, begins⟩ := s.first_exists
    have inside := kept (within s.supply.constants left) (within_firstToken begins).2
    have goesOn := converse_of_recoverable failed rfl (giveUp_of_within inside)
    rw [hvars] at goesOn
    exact ⟨s', failed, hvars, first, left, begins, goesOn⟩

/-- A sign, a parenthesis and an assignment are in front, and are read as such. -/
theorem reads_opening_turn (z : List Char) : Reads .builtin ("-(x=".toList ++ z)
    [.mark (.operator .subtract), .mark .opening, .identifier "x", .mark .assign] z := by
  have x : IsIdentifier "x" := by decide +kernel
  have minus : (Kind.operator .subtract).symbol? = some '-' := rfl
  have opening : Kind.opening.symbol? = some '(' := rfl
  have assign : Kind.assign.symbol? = some '=' := rfl
  have ends : Delimits ('=' :: z) := delimits_symbol isBlank_nil assign Kind.noConfusion z
  exact (reads_symbol isBlank_nil minus).append ((reads_symbol isBlank_nil opening).append
    ((reads_name isBlank_nil x (by decide +kernel) ends).append (reads_symbol isBlank_nil assign)))

/-- They come any number of times. -/
theorem takes_opening_turns (n : Nat) (rest : List Char) : ∃ ts u, Openings (2 * n) ts ∧
    ((Scope.ofConstants .builtin).start
      (String.ofList ((List.replicate n "-(x=".toList).flatten ++ rest))).Takes ts u := by
  have reads : ∃ ts, Openings (2 * n) ts ∧
      Reads .builtin ((List.replicate n "-(x=".toList).flatten ++ rest) ts rest := by
    induction n with
    | zero => exact ⟨[], .nothing, fun s vars hconstants hrest => ⟨s, hconstants, hrest, takes_refl _⟩⟩
    | succ n ih =>
      obtain ⟨ts, openings, more⟩ := ih
      rw [List.replicate_succ, List.flatten_cons, List.append_assoc]
      refine ⟨_, ?_, (reads_opening_turn _).append more⟩
      exact .sign rfl (.parenthesis rfl (.assignment rfl rfl openings))
  obtain ⟨ts, openings, reads⟩ := reads
  obtain ⟨u, -, -, taken⟩ := reads (.ofText .builtin _) .empty rfl String.toList_ofList
  exact ⟨ts, _, openings, taken⟩

/-- Five hundred turns are a thousand openings. -/
theorem tooDeep_of_five_hundred_turns :
    let start := (Scope.ofConstants .builtin).start
    let turns := (List.replicate 500 "-(x=".toList).flatten
    (∀ s', (start "x = 9 - -(y = 7) % 3 / --2 * 4; 1").statement nestingLimit ≠ .fault .tooDeep s') ∧
      ∃ s', (start (String.ofList (turns ++ "1 2; 7".toList))).statement nestingLimit =
        .fault .tooDeep s' ∧ s'.vars = .empty := by
  refine ⟨(tooDeep_by_nesting _ (by decide) (by decide) _).1 fun prints ts u hprints taken viable => ?_,
    ?_⟩
  · exact Nat.le_trans (nestsWithin_size _ prints ts u hprints taken viable) (by decide)
  · obtain ⟨ts, u, openings, taken⟩ := takes_opening_turns 500 "1 2; 7".toList
    obtain ⟨s', failed, hvars, -⟩ := (tooDeep_by_nesting nestingLimit (by decide) (by decide) _).2 []
      ts u _ (List.forall_mem_nil _) taken openings (Nat.le_refl _)
    exact ⟨s', failed, hvars⟩

end Reckoner
