/-
  The rules read what the grammar says.

  If a rule leaves a value, the tokens it took are a derivation of its level, and
  the value and the variables are those of a walk over the tree. `Reading` holds
  what a rule's outcome shows: which tokens, which tree, and that the next token
  could not have gone on. Each part of a rule has a lemma; `sound` puts them
  together by the number of rules that may be active.

  A run of signs is read by counting; `sound_signed` turns it back into one
  negation for each sign, by `neg_neg`.
-/
import Reckoner.Calculator
import Reckoner.Proofs.Completeness
import Reckoner.Proofs.Rendering

namespace Reckoner

open State Reckoner.Derivation

variable {σ : Type} [Supply σ] {p : Nat}

/-- From `s` a rule of level `p` read `d`, with the value `v`, and left `s'`. -/
structure Reading (s : State σ) (d : Derivation p) (v : Float) (s' : State σ) : Prop where
  taken : s.Takes d.word s'
  value : d.tree.eval s.vars = .ok v s'.vars
  tidy : d.Tidy
  settled : ∀ {t supply}, s'.ahead = .ok t supply → d.Settled p t

namespace Rule

/-- With a value there is a reading. -/
def Sound (p : Nat) (r : Rule σ) : Prop :=
  ∀ s s' v, r.run s = .ok v s' → ∃ d : Derivation p, Reading s d v s'

/-- With a value there is a reading, and the token behind it is in the slot. -/
def SoundBefore (p : Nat) (r : Rule σ) : Prop :=
  ∀ s s' v, r.run s = .ok v s' → ∃ d : Derivation p, Reading s d v s' ∧ s'.slot.isSome

theorem SoundBefore.sound {r : Rule σ} (h : r.SoundBefore p) : r.Sound p := by
  intro s s' v hrun
  obtain ⟨d, reading, -⟩ := h s s' v hrun
  exact ⟨d, reading⟩

/-! ## Chains -/

/-- A chain goes on with what was read so far, and ends with a token put back. -/
theorem sound_chainFrom {operand : Rule σ} (hop : operand.Sound (p + 1))
    {s₀ s s' : State σ} {left v : Float} {d : Derivation p}
    (taken : s₀.Takes d.word s) (value : d.tree.eval s₀.vars = .ok left s.vars) (tidy : d.Tidy)
    (settled : ∀ {t supply}, s.ahead = .ok t supply → d.Settled (p + 1) t)
    (h : chainFrom p operand left s = .ok v s') :
    ∃ d : Derivation p, Reading s₀ d v s' ∧ s'.slot.isSome := by
  fun_induction chainFrom p operand left s generalizing d with
  | case1 => cases h
  | case2 left s t s₁ htoken hnone =>
    obtain ⟨ha, -⟩ := token_eq_ok htoken
    obtain ⟨rfl, ha', hslot, hvars⟩ := answer_eq_ok h
    have hsame : s.ahead = s'.ahead := by rw [ha, ha']
    have hv : s'.vars = s.vars := hvars.trans (vars_of_token htoken)
    refine ⟨d, ⟨takes_trans_nil taken hsame, by rw [hv]; exact value, tidy, ?_⟩, by simp [hslot]⟩
    intro t' supply hnext
    have ht : t' = t := by
      rw [ha'] at hnext
      injection hnext with ht
      exact ht.symm
    subst ht
    refine ⟨(settled ha).toStops, fun op hk => ?_⟩
    have hlt := (settled ha).lower op hk
    have hne := operatorAt_eq_none hnone op hk
    omega
  | case3 => cases h
  | case4 => cases h
  | case5 left s t s₁ htoken op hsome right s₂ hrun value' happly ih =>
    obtain ⟨ha, -⟩ := token_eq_ok htoken
    obtain ⟨r, reading⟩ := hop _ _ _ hrun
    have hk := (kind_of_operatorAt hsome).1
    have hvars := vars_of_token htoken
    refine ih (d := .chained d t op hsome r) ?_ ?_ ?_ ?_ h
    · exact takes_append taken (takes_token_cons htoken reading.taken)
    · have hr := reading.value
      rw [hvars] at hr
      simp only [tree, Expr.eval, value, Outcome.andThen_ok, hr, happly]
    · exact ⟨tidy, (settled ha).open_of_operator op hk, reading.tidy⟩
    · intro t' supply hnext
      exact (reading.settled hnext).congr rfl rfl

/-- A chain of sound operands is sound, and ends before a token in the slot. -/
theorem sound_chain (level : p = 1 ∨ p = 2) {operand : Unit → Rule σ}
    (hop : (operand ()).Sound (p + 1)) : (chain p operand).SoundBefore p := by
  intro s s' v h
  obtain ⟨left, s₁, hrun, hchain⟩ := Outcome.andThen_eq_ok.mp h
  obtain ⟨d, reading⟩ := hop _ _ _ hrun
  refine sound_chainFrom (d := .lone level d) hop reading.taken reading.value reading.tidy
    ?_ hchain
  intro t supply hnext
  exact (reading.settled hnext).congr rfl rfl

/-! ## Operands -/

/-- A minus sign in front of a reading negates it. -/
theorem reading_signed {s s₁ s' : State σ} {t : Token} {d : Derivation 3} {v : Float}
    (htoken : s.token = .ok t s₁) (isMinus : t.kind = .operator .subtract)
    (reading : Reading s₁ d v s') : Reading s (.signed t isMinus d) (-v) s' := by
  have hvars := vars_of_token htoken
  refine ⟨takes_token_cons htoken reading.taken, ?_, reading.tidy, fun hnext => ?_⟩
  · have hv := reading.value
    rw [hvars] at hv
    simp only [tree, Expr.eval, hv, Outcome.andThen_ok]
  · exact (reading.settled hnext).congr rfl rfl

/-- Signs that are counted negate once each. -/
theorem reading_signs {turned b : Bool} {s s₁ s' : State σ} {d : Derivation 3} {v : Float}
    (hsigns : signs turned s = .ok b s₁) (reading : Reading s₁ d v s') :
    ∃ d : Derivation 3, Reading s d (if b = turned then v else -v) s' := by
  fun_induction signs turned s with
  | case1 => cases hsigns
  | case2 turned s t s₂ htoken hminus ih =>
    obtain ⟨d', reading'⟩ := ih hsigns
    refine ⟨.signed t hminus d', ?_⟩
    have h := reading_signed htoken hminus reading'
    cases b <;> cases turned <;> simpa [Binary64.neg_neg] using h
  | case3 turned s t s₂ htoken hminus =>
    obtain ⟨rfl, ha, -, hvars⟩ := answer_eq_ok hsigns
    obtain ⟨hs, -⟩ := token_eq_ok htoken
    have hsame : s₁.ahead = s.ahead := by rw [ha, hs]
    have hv : s₁.vars = s.vars := hvars.trans (vars_of_token htoken)
    refine ⟨d, ?_⟩
    rw [if_pos rfl]
    exact ⟨(takes_congr hsame).mp reading.taken, hv ▸ reading.value, reading.tidy, reading.settled⟩

theorem sound_signed {operand : Rule σ} (hop : operand.Sound 3) {s s₁ s' : State σ} {t : Token}
    {v : Float} (htoken : s.token = .ok t s₁) (isMinus : t.kind = .operator .subtract)
    (h : signed operand s₁ = .ok v s') : ∃ d : Derivation 3, Reading s d v s' := by
  obtain ⟨turned, s₂, hsigns, h⟩ := Outcome.andThen_eq_ok.mp h
  obtain ⟨value, s₃, hrun, h⟩ := Outcome.andThen_eq_ok.mp h
  injection h with hv hs
  subst hv hs
  obtain ⟨d, reading⟩ := hop _ _ _ hrun
  obtain ⟨d, reading⟩ := reading_signs hsigns reading
  refine ⟨.signed t isMinus d, ?_⟩
  have h := reading_signed htoken isMinus reading
  cases turned <;> simpa [Binary64.neg_neg] using h

theorem sound_enclosed {sum : Rule σ} (hsum : sum.Sound 1) {s s₁ s' : State σ} {t : Token}
    {v : Float} (htoken : s.token = .ok t s₁) (opens : t.kind = .opening)
    (h : enclosed sum s₁ = .ok v s') : ∃ d : Derivation 3, Reading s d v s' := by
  obtain ⟨value, s₂, hrun, h⟩ := Outcome.andThen_eq_ok.mp h
  obtain ⟨c, s₃, hclosing, h⟩ := Outcome.andThen_eq_ok.mp h
  split at h
  · next closes =>
    injection h with hv hs
    subst hv hs
    obtain ⟨d, reading⟩ := hsum _ _ _ hrun
    have hvars := vars_of_token htoken
    have hvars' := vars_of_token hclosing
    refine ⟨.enclosed t c opens closes d, ?_, ?_, reading.tidy, fun _ => ?_⟩
    · exact takes_token_cons htoken (takes_append reading.taken (takes_token hclosing))
    · rw [hvars', ← hvars]
      exact reading.value
    · exact ⟨⟨fun _ _ => rfl, fun _ => rfl⟩, fun op _ => op.precedence_lt⟩
  · exact absurd h refuse_ne_ok

theorem sound_named {sum : Rule σ} (hsum : sum.Sound 1) {s s₁ s' : State σ} {t : Token}
    {v : Float} (htoken : s.token = .ok t s₁) (isName : t.kind = .name)
    (h : named sum t.name s₁ = .ok v s') : ∃ d : Derivation 3, Reading s d v s' := by
  have hvars := vars_of_token htoken
  obtain ⟨e, s₂, hnext, h⟩ := Outcome.andThen_eq_ok.mp h
  obtain ⟨ha, -⟩ := token_eq_ok hnext
  have hvars' : s₂.vars = s.vars := (vars_of_token hnext).trans hvars
  split at h
  · next isAssign =>
    obtain ⟨value, s₃, hrun, h⟩ := Outcome.andThen_eq_ok.mp h
    injection h with hv hs
    subst hv hs
    obtain ⟨d, reading⟩ := hsum _ _ _ hrun
    have hvalue := reading.value
    rw [hvars'] at hvalue
    refine ⟨.assigned t e isName isAssign d, ?_, ?_, reading.tidy, fun hnext' => ?_⟩
    · exact takes_token_cons htoken (takes_token_cons hnext (takes_trans_nil reading.taken rfl))
    · simp only [tree, Expr.eval, hvalue, Outcome.andThen_ok, State.assign]
    · have settled := reading.settled hnext'
      -- The right side has taken each operator, so none can follow.
      exact ⟨⟨fun op hk => absurd hk (settled.ne_operator op), settled.name_of_assign⟩,
        fun op hk => absurd hk (settled.ne_operator op)⟩
  · next notAssign =>
    obtain ⟨_, s₃, hhold, h⟩ := Outcome.andThen_eq_ok.mp h
    obtain ⟨ha', -, hvars₃⟩ := ahead_hold hhold
    have hsame : s₁.ahead = s₃.ahead := by rw [ha, ha']
    unfold State.lookup at h
    split at h
    · next value hlookup =>
      injection h with hv hs
      subst hv hs
      rw [hvars₃, hvars'] at hlookup
      refine ⟨.named t isName, ?_, ?_, trivial, fun hnext' => ?_⟩
      · exact takes_token_cons htoken (takes_nil hsame)
      · simp only [tree, Expr.eval, hlookup, hvars₃, hvars']
      · rw [ha'] at hnext'
        injection hnext' with ht
        subst ht
        exact ⟨⟨fun _ _ => rfl, fun hk => absurd hk notAssign⟩, fun op _ => op.precedence_lt⟩
    · cases h

/-! ## The rules -/

theorem sound_single {sum operand : Unit → Rule σ} (hsum : (sum ()).Sound 1)
    (hop : (operand ()).Sound 3) : (single sum operand).Sound 3 := by
  intro s s' v h
  obtain ⟨t, s₁, htoken, h⟩ := Outcome.andThen_eq_ok.mp h
  unfold begun at h
  split at h
  · next isNumber =>
    injection h with hv hs
    subst hv hs
    have hvars := vars_of_token htoken
    refine ⟨.number t isNumber, takes_token htoken, ?_, trivial, fun _ => ?_⟩
    · rw [tree, Expr.eval, hvars]
    · exact ⟨⟨fun _ _ => rfl, fun _ => rfl⟩, fun op _ => op.precedence_lt⟩
  · next opens => exact sound_enclosed hsum htoken opens h
  · next isMinus => exact sound_signed hop htoken isMinus h
  · next isName => exact sound_named hsum htoken isName h
  · exact absurd h refuse_ne_ok

theorem soundBefore_tooDeep : (tooDeep : Rule σ).SoundBefore p := fun _ _ _ h => nomatch h

/-- The rule that is one too many has no value, whatever it takes. -/
theorem soundBefore_brink (frail : Bool) : (brink frail : Rule σ).SoundBefore p :=
  fun _ _ _ h => absurd h brink_ne_ok

/-- Whatever the limit, each rule is sound. -/
theorem sound (limit : Limit) :
    (sum limit : Rule σ).SoundBefore 1 ∧ (product limit : Rule σ).SoundBefore 2 ∧
      (operand limit : Rule σ).Sound 3 := by
  obtain ⟨n, frail⟩ := limit
  induction n with
  | zero => exact ⟨soundBefore_tooDeep, soundBefore_brink frail, (soundBefore_brink frail).sound⟩
  | succ n ih =>
    obtain ⟨ihSum, ihProduct, ihOperand⟩ := ih
    rw [sum_succ, product_succ, operand_succ]
    exact ⟨sound_chain (.inl rfl) ihProduct.sound, sound_chain (.inr rfl) ihOperand,
      sound_single ihSum.sound ihOperand⟩

end Rule

/-- A sum with a `;` behind it is read, whatever is behind that. -/
theorem run_of_reads {d : Derivation 1} {limit : Limit} {constants vars vars' : Bindings}
    {text left : List Char} {v : Float} (tidy : d.Tidy) (room : d.calls ≤ limit.depth)
    (reads : Reads constants text d.word (';' :: left)) (walk : d.tree.eval vars = .ok v vars') :
    ∃ s' : State Script,
      (Rule.sum limit).run (.ofSupply (.ofText constants text) vars) = .ok v s' := by
  have tight : IsBlank [] := fun c hc => nomatch hc
  have print : Reads constants (';' :: left) [.mark .print] left := reads_symbol tight rfl
  obtain ⟨s₁, hconstants, hrest, taken⟩ := reads (.ofText constants text) vars rfl rfl
  obtain ⟨-, -, -, supply, ha, -⟩ := print s₁ vars hconstants hrest
  have settled : d.Settled 1 (.mark .print) :=
    settled_of_ne (fun _ => Kind.noConfusion) Kind.noConfusion
  have agrees : Agrees (ofSupply s₁ vars) ((Rule.atLevel limit.frail 1 limit.depth).run _)
      (d.tree.eval vars) :=
    (followed tidy).whole room (s := .ofSupply (.ofText constants text) vars)
      ⟨taken, _, supply, ha, settled⟩
  rw [walk] at agrees
  change ∃ s', (Rule.atLevel limit.frail 1 limit.depth).run _ = _
  generalize (Rule.atLevel limit.frail 1 limit.depth).run
    (.ofSupply (Script.ofText constants text) vars) = o at agrees ⊢
  cases agrees with
  | ok place => exact ⟨_, rfl⟩

/-- **A value has a derivation.** If a sum or a product leaves a value, the tokens
    it took before the one in the slot are a derivation of it in which each
    assignment has the longest right side. The value and the variables are those
    of the walk over its tree. Behind a sum no operator stands, behind a product
    none of its own. -/
theorem derivation_of_value (limit : Limit) (s s' : State σ) (v : Float) :
    ((Rule.sum limit).run s = .ok v s' →
      ∃ (d : Derivation 1) (t : Token), s.Takes d.word s' ∧ s'.slot = some t ∧
        (∀ op, t.kind ≠ .operator op) ∧ (∀ rest, d.Longest (t :: rest)) ∧
        d.tree.eval s.vars = .ok v s'.vars) ∧
    ((Rule.product limit).run s = .ok v s' →
      ∃ (d : Derivation 2) (t : Token), s.Takes d.word s' ∧ s'.slot = some t ∧
        (∀ op, t.kind = .operator op → op.precedence ≠ 2) ∧ (∀ rest, d.Longest (t :: rest)) ∧
        d.tree.eval s.vars = .ok v s'.vars) := by
  refine ⟨fun h => ?_, fun h => ?_⟩
  · obtain ⟨d, reading, hslot⟩ := (Rule.sound limit).1 _ _ _ h
    obtain ⟨t, ht⟩ := Option.isSome_iff_exists.mp hslot
    have settled := reading.settled (ahead_of_slot ht)
    exact ⟨d, t, reading.taken, ht, settled.ne_operator,
      longest_of_tidy reading.tidy settled.toStops, reading.value⟩
  · obtain ⟨d, reading, hslot⟩ := (Rule.sound limit).2.1 _ _ _ h
    obtain ⟨t, ht⟩ := Option.isSome_iff_exists.mp hslot
    have settled := reading.settled (ahead_of_slot ht)
    exact ⟨d, t, reading.taken, ht, fun op hk => Nat.ne_of_lt (settled.lower op hk),
      longest_of_tidy reading.tidy settled.toStops, reading.value⟩

/-- The right side of the assignment takes the sum, and the product is of its value. -/
theorem derivation_of_product_of_assignment :
    ∃ s' : State Script, (Rule.sum nestingLimit).run
        ((Scope.ofConstants .builtin).start "2 * x = 3 + 4;") =
          .ok (Numeral.value ⟨['2'], none, none⟩ *
            (Numeral.value ⟨['3'], none, none⟩ + Numeral.value ⟨['4'], none, none⟩)) s' ∧
      ∃ (d : Derivation 1) (t : Token),
        ((Scope.ofConstants .builtin).start "2 * x = 3 + 4;").Takes d.word s' ∧
        s'.slot = some t ∧ (∀ op, t.kind ≠ .operator op) ∧ (∀ rest, d.Longest (t :: rest)) ∧
        d.tree.eval .empty = .ok (Numeral.value ⟨['2'], none, none⟩ *
          (Numeral.value ⟨['3'], none, none⟩ + Numeral.value ⟨['4'], none, none⟩)) s'.vars := by
  have tight : IsBlank [] := fun c hc => nomatch hc
  have blank : IsBlank [' '] := fun c hc => by rw [List.mem_singleton.mp hc]; rfl
  have x : IsIdentifier "x" := ⟨'x', [], rfl, rfl, by decide, by simp⟩
  have sum : Written.Renders .builtin (.binary .add (.number _) (.number _)) _ :=
    .binary (.number blank (Numeral.wellFormed_digit '3' rfl)) blank
      (.number blank (Numeral.wellFormed_digit '4' rfl))
  have right := Written.Renders.assign blank x (by decide) blank sum
  obtain ⟨e, he⟩ := Written.derived (p := 3)
    (w := .assign "x" (.binary .add (.number (Numeral.value ⟨['3'], none, none⟩))
      (.number (Numeral.value ⟨['4'], none, none⟩))))
    (by simp [Written.Clear, Written.precedence, Operator.precedence]) (by decide) (Nat.le_refl 3)
  let d : Derivation 1 := .lone (.inl rfl) (.chained
    (.lone (.inr rfl) (.number (.number (Numeral.value ⟨['2'], none, none⟩)) (Token.kind_number _)))
    (.mark (.operator .multiply)) .multiply rfl e)
  have reads : Reads .builtin "2 * x = 3 + 4;".toList d.word [';'] := by
    show Reads .builtin ([] ++ ['2'] ++ ([' '] ++ '*' :: " x = 3 + 4;".toList))
      ([.number _] ++ ([.mark _] ++ e.word)) [';']
    have htimes : (Kind.operator .multiply).symbol? = some '*' := rfl
    have hprint : Kind.print.symbol? = some ';' := rfl
    rw [he.word]
    exact (reads_number tight (Numeral.wellFormed_digit '2' rfl)
      (delimits_symbol blank htimes Kind.noConfusion _)).append
        ((reads_symbol blank htimes).append
          (right.reads (delimits_symbol tight hprint Kind.noConfusion [])))
  have walk : d.tree.eval .empty = .ok (Numeral.value ⟨['2'], none, none⟩ *
      (Numeral.value ⟨['3'], none, none⟩ + Numeral.value ⟨['4'], none, none⟩))
      (.ofList [("x", Numeral.value ⟨['3'], none, none⟩ + Numeral.value ⟨['4'], none, none⟩)]) := by
    show (Expr.binary .multiply (.number _) e.tree).eval .empty = _
    rw [he.tree]
    rfl
  have room : d.calls ≤ nestingLimit.depth := by
    show max 2 (e.calls + 1) + 1 ≤ nestingLimit.depth
    rw [he.calls]
    decide
  have tidy : d.Tidy := ⟨trivial, rfl, he.tidy⟩
  obtain ⟨s', hrun⟩ := run_of_reads tidy room reads walk
  exact ⟨s', hrun, (derivation_of_value _ _ _ _).1 hrun⟩

end Reckoner
