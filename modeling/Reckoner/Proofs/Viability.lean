/-
  A wrong token is reported at once.

  Tokens are `Viable` if some sentence begins with them. Where a rule misses an
  operand or a closing parenthesis, the tokens it took are viable, and with the
  token that it met and put back they are not. So the token is the first that
  cannot stand where it stands.

  That the tokens taken are viable is shown by a derivation that goes on from them
  (`Halted.begun`), which each rule extends by what it read before and closes by
  what it still wants. That the token cannot follow is shown by the phase behind
  those tokens (`Halted.barred`), in any number of open parentheses.

  Proved: `prompt`, which also says what faults a rule can end with, and from it
  `fault_at_first_impossible`.
-/
import Reckoner.Proofs.Soundness

namespace Reckoner

open State Reckoner.Derivation

/-- Some sentence begins with the tokens. -/
def Viable (ts : List Token) : Prop := ∃ more, Sentence (ts ++ more)

/-! ## Faults of expressions -/

/-- Whether an expression can end with it. -/
def Fault.ofExpression : Fault → Bool
  | .notAssignable | .slotTaken | .constantsFixed => false
  | _ => true

/-- Whether it tells that another token was wanted. -/
def Fault.ofToken : Fault → Bool
  | .operandExpected | .closingExpected => true
  | _ => false

/-- The supply has no fault but a bad token. -/
def Supply.Plain (σ : Type) [Supply σ] : Prop :=
  ∀ (a b : σ) (f : Fault), Supply.next a = .fault f b → f.category = .badToken

theorem Fault.of_badToken {f : Fault} (h : f.category = .badToken) :
    f.ofExpression = true ∧ f.ofToken = false := by
  cases f <;> first | exact ⟨rfl, rfl⟩ | cases h

theorem Operator.fault_of_apply {op : Operator} {x y : Float} {f : Fault}
    (h : op.apply x y = .error f) : f.ofExpression = true ∧ f.ofToken = false := by
  obtain ⟨-, -, rfl⟩ | ⟨-, -, -, rfl⟩ := apply_eq_error_iff.mp h
  · exact ⟨rfl, rfl⟩
  · exact ⟨rfl, rfl⟩

section Rules

variable {σ : Type} [Supply σ] {p : Nat}

/-- Where no token can be read. -/
theorem State.token_fault (plain : Supply.Plain σ) {s s' : State σ} {f : Fault}
    (h : s.token = .fault f s') : f.ofExpression = true ∧ f.ofToken = false := by
  obtain ⟨-, hnext, -⟩ := token_eq_fault h
  exact Fault.of_badToken (plain _ _ _ hnext)

/-! ## Where a rule stops short -/

/-- From `s` the tokens `ts` were taken, and something of a level begins with them. -/
structure Started (p : Nat) (s : State σ) (ts : List Token) (s' : State σ) : Prop where
  taken : s.Takes ts s'
  begun : ∃ (d : Derivation p) (more : List Token), d.word = ts ++ more

namespace Started

variable {s s₀ s₁ s' : State σ} {ts : List Token} {u : Token}

theorem of_ahead (h : Started p s₁ ts s') (same : s.ahead = s₁.ahead) : Started p s ts s' :=
  ⟨(takes_congr same).mpr h.taken, h.begun⟩

theorem lone (level : p = 1 ∨ p = 2) (h : Started (p + 1) s ts s') : Started p s ts s' := by
  obtain ⟨d, more, hword⟩ := h.begun
  exact ⟨h.taken, .lone level d, more, hword⟩

theorem chained {d : Derivation p} {op : Operator} (taken : s₀.Takes d.word s)
    (htoken : s.token = .ok u s₁) (hop : Rule.operatorAt p u.kind = some op)
    (h : Started (p + 1) s₁ ts s') : Started p s₀ (d.word ++ u :: ts) s' := by
  obtain ⟨r, more, hword⟩ := h.begun
  refine ⟨takes_append taken (takes_token_cons htoken h.taken), .chained d u op hop r, more, ?_⟩
  rw [Derivation.word, hword, List.append_assoc]
  rfl

theorem enclosed (htoken : s.token = .ok u s₁) (opens : u.kind = .opening)
    (h : Started 1 s₁ ts s') : Started 3 s (u :: ts) s' := by
  obtain ⟨d, more, hword⟩ := h.begun
  refine ⟨takes_token_cons htoken h.taken, .enclosed u (.mark .closing) opens rfl d,
    more ++ [.mark .closing], ?_⟩
  show u :: (d.word ++ [_]) = u :: (ts ++ (more ++ [_]))
  rw [hword, List.append_assoc]

theorem signed (htoken : s.token = .ok u s₁) (isMinus : u.kind = .operator .subtract)
    (h : Started 3 s₁ ts s') : Started 3 s (u :: ts) s' := by
  obtain ⟨d, more, hword⟩ := h.begun
  refine ⟨takes_token_cons htoken h.taken, .signed u isMinus d, more, ?_⟩
  rw [Derivation.word, hword]
  rfl

theorem assigned {e : Token} (htoken : s.token = .ok u s₀) (isName : u.kind = .name)
    (hnext : s₀.token = .ok e s₁) (isAssign : e.kind = .assign) (h : Started 1 s₁ ts s') :
    Started 3 s (u :: e :: ts) s' := by
  obtain ⟨d, more, hword⟩ := h.begun
  refine ⟨takes_token_cons htoken (takes_token_cons hnext h.taken),
    .assigned u e isName isAssign d, more, ?_⟩
  rw [Derivation.word, hword]
  rfl

end Started

/-- From `s` the tokens `ts` were taken, with which something of a level begins, and
    the token `t`, which is in the slot, cannot follow them. -/
structure Halted (p : Nat) (s : State σ) (ts : List Token) (t : Token) (s' : State σ) : Prop where
  taken : s.Takes ts s'
  slot : s'.slot = some t
  begun : ∃ (d : Derivation p) (more : List Token), d.word = ts ++ more
  barred : ∀ n, ∃ q, (Phase.wanting n).run ts = some q ∧ q.step t.kind = none

namespace Halted

variable {s s₀ s₁ s' : State σ} {ts : List Token} {t u : Token}

theorem started (h : Halted p s ts t s') : Started p s ts s' := ⟨h.taken, h.begun⟩

theorem of_ahead (h : Halted p s₁ ts t s') (same : s.ahead = s₁.ahead) : Halted p s ts t s' :=
  ⟨(takes_congr same).mpr h.taken, h.slot, h.begun, h.barred⟩

theorem lone (level : p = 1 ∨ p = 2) (h : Halted (p + 1) s ts t s') : Halted p s ts t s' :=
  ⟨h.taken, h.slot, (h.started.lone level).begun, h.barred⟩

theorem chained {d : Derivation p} {op : Operator} (taken : s₀.Takes d.word s)
    (htoken : s.token = .ok u s₁) (hop : Rule.operatorAt p u.kind = some op)
    (h : Halted (p + 1) s₁ ts t s') : Halted p s₀ (d.word ++ u :: ts) t s' := by
  obtain ⟨taken, begun⟩ := h.started.chained taken htoken hop
  refine ⟨taken, h.slot, begun, fun n => ?_⟩
  obtain ⟨q, hrun, hstep⟩ := h.barred n
  refine ⟨q, ?_, hstep⟩
  rw [Phase.run_append, d.run_word, Option.bind_some, Phase.run, (kind_of_operatorAt hop).1]
  exact hrun

theorem enclosed (htoken : s.token = .ok u s₁) (opens : u.kind = .opening)
    (h : Halted 1 s₁ ts t s') : Halted 3 s (u :: ts) t s' := by
  obtain ⟨taken, begun⟩ := h.started.enclosed htoken opens
  refine ⟨taken, h.slot, begun, fun n => ?_⟩
  obtain ⟨q, hrun, hstep⟩ := h.barred (n + 1)
  refine ⟨q, ?_, hstep⟩
  rw [Phase.run, opens]
  exact hrun

theorem signed (htoken : s.token = .ok u s₁) (isMinus : u.kind = .operator .subtract)
    (h : Halted 3 s₁ ts t s') : Halted 3 s (u :: ts) t s' := by
  obtain ⟨taken, begun⟩ := h.started.signed htoken isMinus
  refine ⟨taken, h.slot, begun, fun n => ?_⟩
  obtain ⟨q, hrun, hstep⟩ := h.barred n
  refine ⟨q, ?_, hstep⟩
  rw [Phase.run, isMinus]
  exact hrun

theorem assigned {e : Token} (htoken : s.token = .ok u s₀) (isName : u.kind = .name)
    (hnext : s₀.token = .ok e s₁) (isAssign : e.kind = .assign) (h : Halted 1 s₁ ts t s') :
    Halted 3 s (u :: e :: ts) t s' := by
  obtain ⟨taken, begun⟩ := h.started.assigned htoken isName hnext isAssign
  refine ⟨taken, h.slot, begun, fun n => ?_⟩
  obtain ⟨q, hrun, hstep⟩ := h.barred n
  refine ⟨q, ?_, hstep⟩
  rw [Phase.run, isName]
  show (Phase.holding n true).run (e :: ts) = _
  rw [Phase.run, isAssign]
  exact hrun

/-- No operand begins with the token. -/
theorem atOperand (htoken : s.token = .ok t s₁) (hstep : ∀ n, (Phase.wanting n).step t.kind = none) :
    Halted 3 s [] t ⟨s₁.supply, some t, s₁.vars⟩ :=
  ⟨ahead_of_token htoken, rfl, ⟨.number (.number 0) rfl, [.number 0], rfl⟩,
    fun n => ⟨.wanting n, rfl, hstep n⟩⟩

/-- Behind a sum in parentheses the token does not close them, and does not go on
    with the sum, which would have taken it. -/
theorem atClosing {d : Derivation 1} {v : Float} (htoken : s.token = .ok u s₀)
    (opens : u.kind = .opening) (reading : Reading s₀ d v s') (hnext : s'.token = .ok t s₁)
    (notClosing : t.kind ≠ .closing) :
    Halted 3 s (u :: d.word) t ⟨s₁.supply, some t, s₁.vars⟩ := by
  have settled := reading.settled (token_eq_ok hnext).1
  have taken := takes_trans_nil reading.taken (ahead_of_token hnext)
  refine ⟨takes_token_cons htoken taken, rfl, ?_, fun n => ?_⟩
  · exact ⟨.enclosed u (.mark .closing) opens rfl d, [.mark .closing], rfl⟩
  · refine ⟨.holding (n + 1) d.endsInName, ?_, ?_⟩
    · rw [Phase.run, opens]
      exact d.run_word (n + 1)
    · cases hk : t.kind with
      | closing => exact absurd hk notClosing
      | operator op => exact absurd hk (settled.ne_operator op)
      | assign => rw [settled.name_of_assign hk]; rfl
      | _ => rfl

/-- No sentence begins with the tokens and the one that was met. -/
theorem not_viable (h : Halted p s ts t s') : ¬ Viable (ts ++ [t]) := by
  rintro ⟨more, d, hword⟩
  obtain ⟨q, hrun, hstep⟩ := h.barred 0
  have hwhole := d.run_word 0
  rw [hword, List.append_assoc, Phase.run_append, hrun, Option.bind_some, List.singleton_append,
    Phase.run, hstep] at hwhole
  cases hwhole

end Halted

/-! ## Rules -/

/-- A fault is one of expressions. If it tells of a token, that is the first that
    cannot stand there. -/
structure Reported (p : Nat) (s : State σ) (f : Fault) (s' : State σ) : Prop where
  ofExpression : f.ofExpression = true
  halted : f.ofToken = true → ∃ ts t, Halted p s ts t s'

namespace Reported

variable {s s₀ s' : State σ} {f : Fault}

/-- A fault that tells of no token says nothing about tokens. -/
theorem of_other (h : f.ofExpression = true ∧ f.ofToken = false) : Reported p s f s' :=
  ⟨h.1, fun ht => by rw [h.2] at ht; cases ht⟩

/-- Where a part of a rule stops, the rule does. -/
theorem map {q : Nat} (h : Reported q s f s')
    (extend : ∀ ts t, Halted q s ts t s' → ∃ ts, Halted p s₀ ts t s') : Reported p s₀ f s' := by
  refine ⟨h.ofExpression, fun ht => ?_⟩
  obtain ⟨ts, t, halted⟩ := h.halted ht
  obtain ⟨ts, halted⟩ := extend ts t halted
  exact ⟨ts, t, halted⟩

end Reported

namespace Rule

/-- Each fault of the rule is reported. -/
def Prompt (p : Nat) (r : Rule σ) : Prop := ∀ s s' f, r.run s = .fault f s' → Reported p s f s'

theorem prompt_chainFrom (plain : Supply.Plain σ) {operand : Rule σ} (hsound : operand.Sound (p + 1))
    (hprompt : operand.Prompt (p + 1)) {s₀ s s' : State σ} {left : Float} {f : Fault}
    {d : Derivation p} (taken : s₀.Takes d.word s) (h : chainFrom p operand left s = .fault f s') :
    Reported p s₀ f s' := by
  fun_induction chainFrom p operand left s generalizing d with
  | case1 left s g s₁ htoken =>
    injection h with hf
    subst hf
    exact .of_other (token_fault plain htoken)
  | case2 left s t s₁ htoken hnone =>
    rw [answer_of_token htoken] at h
    cases h
  | case3 left s t s₁ htoken op hsome g s₂ hrun =>
    injection h with hf hs
    subst hf hs
    exact (hprompt _ _ _ hrun).map fun ts u halted => ⟨_, halted.chained taken htoken hsome⟩
  | case4 left s t s₁ htoken op hsome right s₂ hrun g happly =>
    injection h with hf
    subst hf
    exact .of_other (Operator.fault_of_apply happly)
  | case5 left s t s₁ htoken op hsome right s₂ hrun value happly ih =>
    obtain ⟨r, reading⟩ := hsound _ _ _ hrun
    exact ih (d := .chained d t op hsome r)
      (takes_append taken (takes_token_cons htoken reading.taken)) h

theorem prompt_chain (plain : Supply.Plain σ) (level : p = 1 ∨ p = 2) {operand : Unit → Rule σ}
    (hsound : (operand ()).Sound (p + 1)) (hprompt : (operand ()).Prompt (p + 1)) :
    (chain p operand).Prompt p := by
  intro s s' f h
  obtain h | ⟨left, s₁, hrun, h⟩ := Outcome.andThen_eq_fault.mp h
  · exact (hprompt _ _ _ h).map fun ts t halted => ⟨ts, halted.lone level⟩
  · obtain ⟨d, reading⟩ := hsound _ _ _ hrun
    exact prompt_chainFrom plain hsound hprompt (d := .lone level d) reading.taken h

/-- Signs fail only where no token can be read. -/
theorem signs_fault (plain : Supply.Plain σ) {turned : Bool} {s s' : State σ} {f : Fault}
    (h : signs turned s = .fault f s') : f.ofExpression = true ∧ f.ofToken = false := by
  fun_induction signs turned s with
  | case1 turned s g s₁ htoken =>
    injection h with hf
    subst hf
    exact token_fault plain htoken
  | case2 turned s t s₁ htoken hminus ih => exact ih h
  | case3 turned s t s₁ htoken hminus =>
    rw [answer_of_token htoken] at h
    cases h

/-- What stops behind signs stops behind one after the other. -/
theorem halted_signs {turned b : Bool} {s s₁ s' : State σ} {ts : List Token} {t : Token}
    (hsigns : signs turned s = .ok b s₁) (h : Halted 3 s₁ ts t s') : ∃ ts, Halted 3 s ts t s' := by
  fun_induction signs turned s with
  | case1 => cases hsigns
  | case2 turned s u s₂ htoken hminus ih =>
    obtain ⟨ts, halted⟩ := ih hsigns
    exact ⟨_, halted.signed htoken hminus⟩
  | case3 turned s u s₂ htoken hminus =>
    rw [answer_of_token htoken] at hsigns
    injection hsigns with _ hs
    subst hs
    exact ⟨ts, h.of_ahead (ahead_of_token htoken)⟩

theorem prompt_signed (plain : Supply.Plain σ) {operand : Rule σ} (hprompt : operand.Prompt 3)
    {s s₁ s' : State σ} {t : Token} {f : Fault} (htoken : s.token = .ok t s₁)
    (isMinus : t.kind = .operator .subtract) (h : signed operand s₁ = .fault f s') :
    Reported 3 s f s' := by
  obtain h | ⟨turned, s₂, hsigns, h⟩ := Outcome.andThen_eq_fault.mp h
  · exact .of_other (signs_fault plain h)
  · obtain h | ⟨v, s₃, -, h⟩ := Outcome.andThen_eq_fault.mp h
    · refine (hprompt _ _ _ h).map fun ts u halted => ?_
      obtain ⟨ts, halted⟩ := halted_signs hsigns halted
      exact ⟨_, halted.signed htoken isMinus⟩
    · cases h

theorem prompt_enclosed (plain : Supply.Plain σ) {sum : Rule σ} (hsound : sum.Sound 1)
    (hprompt : sum.Prompt 1) {s s₁ s' : State σ} {t : Token} {f : Fault}
    (htoken : s.token = .ok t s₁) (opens : t.kind = .opening) (h : enclosed sum s₁ = .fault f s') :
    Reported 3 s f s' := by
  obtain h | ⟨value, s₂, hrun, h⟩ := Outcome.andThen_eq_fault.mp h
  · exact (hprompt _ _ _ h).map fun ts u halted => ⟨_, halted.enclosed htoken opens⟩
  · obtain ⟨d, reading⟩ := hsound _ _ _ hrun
    obtain h | ⟨c, s₃, hnext, h⟩ := Outcome.andThen_eq_fault.mp h
    · exact .of_other (token_fault plain h)
    · split at h
      · cases h
      · next notClosing =>
        rw [refuse_of_token hnext] at h
        injection h with hf hs
        subst hf hs
        exact ⟨rfl, fun _ => ⟨_, c, .atClosing htoken opens reading hnext notClosing⟩⟩

theorem prompt_named (plain : Supply.Plain σ) {sum : Rule σ} (hprompt : sum.Prompt 1)
    {s s₁ s' : State σ} {t : Token} {f : Fault} (htoken : s.token = .ok t s₁)
    (isName : t.kind = .name) (h : named sum t.name s₁ = .fault f s') :
    Reported 3 s f s' := by
  obtain h | ⟨e, s₂, hnext, h⟩ := Outcome.andThen_eq_fault.mp h
  · exact .of_other (token_fault plain h)
  · split at h
    · next isAssign =>
      obtain h | ⟨value, s₃, -, h⟩ := Outcome.andThen_eq_fault.mp h
      · exact (hprompt _ _ _ h).map fun ts u halted =>
          ⟨_, halted.assigned htoken isName hnext isAssign⟩
      · cases h
    · rw [hold_of_token hnext, Outcome.andThen_ok] at h
      unfold State.lookup at h
      split at h
      · cases h
      · injection h with hf
        subst hf
        exact .of_other ⟨rfl, rfl⟩

theorem prompt_single (plain : Supply.Plain σ) {sum operand : Unit → Rule σ}
    (hsound : (sum ()).Sound 1) (hsum : (sum ()).Prompt 1) (hoperand : (operand ()).Prompt 3) :
    (single sum operand).Prompt 3 := by
  intro s s' f h
  obtain h | ⟨t, s₁, htoken, h⟩ := Outcome.andThen_eq_fault.mp h
  · exact .of_other (token_fault plain h)
  · have refused (hstep : ∀ n, (Phase.wanting n).step t.kind = none)
        (h : (s₁.refuse t .operandExpected : Outcome (State σ) Float) = .fault f s') :
        Reported 3 s f s' := by
      rw [refuse_of_token htoken] at h
      injection h with hf hs
      subst hf hs
      exact ⟨rfl, fun _ => ⟨[], t, .atOperand htoken hstep⟩⟩
    unfold begun at h
    cases hk : t.kind with
    | number =>
      rw [hk] at h
      cases h
    | opening =>
      rw [hk] at h
      exact prompt_enclosed plain hsound hsum htoken hk h
    | name =>
      rw [hk] at h
      exact prompt_named plain hsum htoken hk h
    | operator op =>
      rw [hk] at h
      cases op with
      | subtract => exact prompt_signed plain hoperand htoken hk h
      | _ => exact refused (fun n => by rw [hk]; rfl) h
    | _ =>
      rw [hk] at h
      exact refused (fun n => by rw [hk]; rfl) h

theorem prompt_tooDeep : (tooDeep : Rule σ).Prompt p := by
  intro s s' f h
  injection h with hf
  subst hf
  exact .of_other ⟨rfl, rfl⟩

/-- The rule that is one too many tells of no token that it met. -/
theorem prompt_brink (plain : Supply.Plain σ) (frail : Bool) : (brink frail : Rule σ).Prompt p := by
  intro s s' f h
  obtain ⟨_, _, hrun, -, hf⟩ := brink_fault frail s
  injection hrun.symm.trans h with same hs
  subst same hs
  obtain rfl | htoken | ⟨t, s₁, -, -, htoken⟩ := hf
  · exact .of_other ⟨rfl, rfl⟩
  · exact .of_other (token_fault plain htoken)
  · exact .of_other (token_fault plain htoken)

/-- Whatever the limit, the rules tell of the first token that cannot stand there. -/
theorem prompt (plain : Supply.Plain σ) (limit : Limit) :
    (sum limit : Rule σ).Prompt 1 ∧ (product limit : Rule σ).Prompt 2 ∧
      (operand limit : Rule σ).Prompt 3 := by
  obtain ⟨n, frail⟩ := limit
  induction n with
  | zero => exact ⟨prompt_tooDeep, prompt_brink plain frail, prompt_brink plain frail⟩
  | succ n ih =>
    obtain ⟨ihSum, ihProduct, ihOperand⟩ := ih
    obtain ⟨hsum, hproduct, hoperand⟩ := sound (σ := σ) ⟨n, frail⟩
    rw [sum_succ, product_succ, operand_succ]
    exact ⟨prompt_chain plain (.inl rfl) hproduct.sound ihProduct,
      prompt_chain plain (.inr rfl) hoperand ihOperand,
      prompt_single plain hsum.sound ihSum ihOperand⟩

end Rule

/-! ## Statements -/

/-- A derivation ends with a name, or with a number or a closing parenthesis. -/
theorem Derivation.last_word (d : Derivation p) :
    ∃ last, d.word.getLast? = some last ∧
      if d.endsInName then last.kind = .name else last.kind = .number ∨ last.kind = .closing := by
  have behind (ts : List Token) {us : List Token} {last : Token} (h : us.getLast? = some last) :
      (ts ++ us).getLast? = some last := by rw [List.getLast?_append, h, Option.some_or]
  induction d with
  | lone level only ih => exact ih
  | chained left sign op isOperator right ihl ihr =>
    obtain ⟨last, hlast, hkind⟩ := ihr
    refine ⟨last, ?_, hkind⟩
    rw [word, List.append_cons]
    exact behind _ hlast
  | number t isNumber => exact ⟨t, rfl, .inl isNumber⟩
  | enclosed opening closing opens closes inner ih =>
    exact ⟨closing, behind (opening :: inner.word) rfl, .inr closes⟩
  | signed minus isMinus operand ih =>
    obtain ⟨last, hlast, hkind⟩ := ih
    exact ⟨last, behind [minus] hlast, hkind⟩
  | named t isName => exact ⟨t, rfl, isName⟩
  | assigned target equals isName isAssign value ih =>
    obtain ⟨last, hlast, hkind⟩ := ih
    exact ⟨last, behind [target, equals] hlast, hkind⟩

/-- In front of the first token only `;` was taken. -/
theorem State.takes_firstToken {s s₁ : State σ} {t : Token} (h : s.firstToken = .ok t s₁) :
    ∃ prints, (∀ u ∈ prints, u.kind = .print) ∧ s.Takes prints ⟨s₁.supply, some t, s₁.vars⟩ ∧
      s₁.slot = none := by
  fun_induction firstToken s with
  | case1 => cases h
  | case2 s u s₂ htoken hprint ih =>
    obtain ⟨prints, hprints, taken, hslot⟩ := ih h
    refine ⟨u :: prints, ?_, takes_token_cons htoken taken, hslot⟩
    intro w hw
    rcases List.mem_cons.mp hw with rfl | hw
    · exact hprint
    · exact hprints w hw
  | case3 s u s₂ htoken hprint =>
    injection h with ht hs
    subst ht hs
    refine ⟨[], List.forall_mem_nil _, ahead_of_token htoken, ?_⟩
    rw [(token_eq_ok htoken).2]
    rfl

theorem State.firstToken_fault (plain : Supply.Plain σ) {s s' : State σ} {f : Fault}
    (h : s.firstToken = .fault f s') : f.ofExpression = true := by
  fun_induction firstToken s with
  | case1 s g s₁ htoken =>
    injection h with hf
    subst hf
    exact (token_fault plain htoken).1
  | case2 s u s₂ htoken hprint ih => exact ih h
  | case3 => cases h

/-- Where an assignment sign stands behind a statement, it is a whole sum and does
    not end in a name. -/
theorem State.statement_notAssignable (plain : Supply.Plain σ) {limit : Limit} {s s' : State σ}
    (h : s.statement limit = .fault .notAssignable s') :
    ∃ prints ts t last, s.Takes (prints ++ ts) s' ∧ s'.slot = some t ∧ t.kind = .assign ∧
      (∀ u ∈ prints, u.kind = .print) ∧ Sentence ts ∧ ts.getLast? = some last ∧
      (last.kind = .number ∨ last.kind = .closing) := by
  obtain h | ⟨t, s₁, hfirst, h⟩ := Outcome.andThen_eq_fault.mp h
  · cases firstToken_fault plain h
  · obtain ⟨prints, hprints, taken, hslot⟩ := takes_firstToken hfirst
    split at h
    · cases h
    · rw [statementFrom, State.hold, hslot, Outcome.andThen_ok] at h
      obtain h | ⟨v, s₂, hrun, h⟩ := Outcome.andThen_eq_fault.mp h
      · cases ((Rule.prompt plain limit).1 _ _ _ h).ofExpression
      · rw [close] at h
        obtain ⟨d, reading, hslot₂⟩ := (Rule.sound limit).1 _ _ _ hrun
        obtain ⟨e, he⟩ := Option.isSome_iff_exists.mp hslot₂
        have htoken := token_of_ahead (ahead_of_slot he)
        rw [htoken, Outcome.andThen_ok, hold_of_token htoken, Outcome.andThen_ok] at h
        split at h
        · next isAssign =>
          injection h with _ hs
          subst hs
          obtain ⟨last, hlast, hkind⟩ := d.last_word
          rw [(reading.settled (ahead_of_slot he)).name_of_assign isAssign] at hkind
          exact ⟨prints, d.word, e, last, takes_trans_nil (takes_append taken reading.taken)
            (ahead_of_slot he), rfl, isAssign, hprints, ⟨d, rfl⟩, hlast, hkind⟩
        · cases h

end Rules

theorem Script.plain : Supply.Plain Script := by
  intro a b f h
  obtain ⟨hlexes, -⟩ := Script.lexes_of_next (r := .error f) h
  exact hlexes.category

/-- **A syntax fault names the first impossible token.** Where a sum ends with the
    message that an operand or a closing parenthesis was expected, the tokens taken
    begin a sentence, with the next token none does, and that token is in the slot.
    Where a statement ends with the message that an assignment has no target, the
    tokens in front of the assignment sign, but for any `;` before them, are a
    sentence, and its last is a number or a closing parenthesis. -/
theorem fault_at_first_impossible (limit : Limit) (s s' : State Script) (f : Fault) :
    ((Rule.sum limit).run s = .fault f s' → f.category = .grammar →
      f.message = "primary expected" ∨ f.message = "')' expected" →
      ∃ ts t, s.Takes ts s' ∧ s'.slot = some t ∧ Viable ts ∧ ¬ Viable (ts ++ [t])) ∧
    (s.statement limit = .fault f s' → f.category = .grammar →
      f.message = "invalid assignment target" →
      ∃ prints ts t last, s.Takes (prints ++ ts) s' ∧ s'.slot = some t ∧ t.kind = .assign ∧
        (∀ u ∈ prints, u.kind = .print) ∧ Sentence ts ∧ ts.getLast? = some last ∧
        (last.kind = .number ∨ last.kind = .closing)) := by
  refine ⟨fun h category message => ?_, fun h category message => ?_⟩
  · have ofToken : f.ofToken = true := by
      cases f with
      | operandExpected | closingExpected => rfl
      | notAssignable | tooDeep => rcases message with hm | hm <;> exact absurd hm (by decide)
      | _ => cases category
    obtain ⟨ts, t, halted⟩ := ((Rule.prompt Script.plain limit).1 _ _ _ h).halted ofToken
    obtain ⟨d, more, hword⟩ := halted.begun
    exact ⟨ts, t, halted.taken, halted.slot, ⟨more, d, hword⟩, halted.not_viable⟩
  · have hf : f = .notAssignable := by
      cases f with
      | notAssignable => rfl
      | operandExpected | closingExpected | tooDeep => exact absurd message (by decide)
      | _ => cases category
    subst hf
    exact statement_notAssignable Script.plain h

/-- The second number of two in a row is the token, and `pi` is no target. -/
theorem fault_at_second_number :
    (∃ ts t, ((Scope.ofConstants .builtin).start "2 * (x = 3 4);").Takes ts
        ⟨⟨⟨[')'], [';'], 13⟩, .builtin⟩, some (.number 4), .ofList [("x", 3)]⟩ ∧
      some (Token.number 4) = some t ∧ Viable ts ∧ ¬ Viable (ts ++ [t])) ∧
    ∃ prints ts t last, ((Scope.ofConstants .builtin).start "; 2 - pi = 1;").Takes (prints ++ ts)
        ⟨⟨⟨[], " 1;".toList, 10⟩, .builtin⟩, some (.mark .assign), .empty⟩ ∧
      some (Token.mark .assign) = some t ∧ t.kind = .assign ∧ (∀ u ∈ prints, u.kind = .print) ∧
      Sentence ts ∧ ts.getLast? = some last ∧ (last.kind = .number ∨ last.kind = .closing) :=
  ⟨(fault_at_first_impossible nestingLimit _ _ .closingExpected).1 (by decide +kernel) rfl (.inr rfl),
    (fault_at_first_impossible nestingLimit _ _ .notAssignable).2 (by decide +kernel) rfl rfl⟩

end Reckoner
