/-
  A chain of assignments sets all its names or none.

  A state is `Unassigned` if no assignment sign comes before the next `;`. From such a
  state a sum sets nothing: that is a lockstep of the run with itself (`unset`), in which
  an assignment cannot come up. In front of it stand names, each with its sign. The sum
  behind the last sign is the first to end, and it ends with a token in the slot that is
  no operator. So the rules around it have nothing more to read, and between the first
  name that is set and the last nothing can fail (`run_assigned`).

  Proved: `sets_all_or_none`, for a whole statement.
-/
import Reckoner.Proofs.Evaluation
import Reckoner.Proofs.Provenance
import Reckoner.Proofs.Recovery

namespace Reckoner

open State Reckoner.Derivation
open Outcome (Both)

/-! ## Nothing is set -/

section Unset

variable {σ : Type} [Supply σ] {s s' u : State σ} {t : Token}

/-- Of the tokens ahead none before the next `;` is an assignment sign. -/
def State.Unassigned (s : State σ) : Prop :=
  ∀ ts sign u, s.Takes (ts ++ [sign]) u → (∀ t ∈ ts, t.kind ≠ .print) → sign.kind ≠ .assign

theorem State.Unassigned.congr (h : s.Unassigned) (same : s.ahead = u.ahead) : u.Unassigned :=
  fun ts sign w taken before => h ts sign w ((takes_congr same).mpr taken) before

/-- The next token is no assignment sign, and behind it none comes before a `;`. -/
theorem State.Unassigned.token (h : s.Unassigned) (htoken : s.token = .ok t s') :
    t.kind ≠ .assign ∧ (t.kind ≠ .print → s'.Unassigned) := by
  refine ⟨h [] t s' (takes_token htoken) (List.forall_mem_nil _), fun notPrint ts sign w taken before => ?_⟩
  refine h (t :: ts) sign w (takes_token_cons htoken taken) fun x hx => ?_
  rcases List.mem_cons.mp hx with rfl | hx
  · exact notPrint
  · exact before x hx

/-- So it is again when the token was put back. -/
theorem State.Unassigned.held (notAssign : t.kind ≠ .assign)
    (behind : t.kind ≠ .print → (ofSupply s.supply s.vars).Unassigned) :
    (⟨s.supply, some t, s.vars⟩ : State σ).Unassigned := by
  intro ts sign w taken before
  cases ts with
  | nil =>
    obtain ⟨supply, ha, -⟩ := taken
    injection ha with ht
    exact ht ▸ notAssign
  | cons x ts =>
    obtain ⟨supply, ha, taken⟩ := taken
    injection ha with ht hs
    subst ht hs
    exact behind (before t List.mem_cons_self) ts sign w taken
      fun y hy => before y (List.mem_cons_of_mem t hy)

/-- A run beside itself, with no assignment sign before the next `;`. -/
def unset (vars : Bindings) : Lockstep σ σ where
  joined s u := s = u ∧ s.vars = vars ∧ s.Unassigned
  drawn t s u := s = u ∧ s.vars = vars ∧ s.slot = none ∧ t.kind ≠ .assign ∧
    (t.kind ≠ .print → s.Unassigned)
  failed _ s u := s = u ∧ s.vars = vars
  named _ := True
  slot h := h.1 ▸ rfl
  token := by
    rintro s u ⟨rfl, hvars, h⟩
    cases htoken : s.token with
    | ok t s' =>
      obtain ⟨-, hs⟩ := token_eq_ok htoken
      obtain ⟨notAssign, behind⟩ := h.token htoken
      exact .ok ⟨rfl, (vars_of_token htoken).trans hvars, by rw [hs]; rfl, notAssign, behind⟩
    | fault f s' =>
      obtain ⟨-, -, hs⟩ := token_eq_fault htoken
      exact .fault ⟨rfl, by rw [hs]; exact hvars⟩
  hold := by
    rintro t ⟨supply, slot, vars'⟩ u ⟨rfl, hvars, rfl, notAssign, behind⟩
    exact .ok ⟨rfl, hvars, .held (s := ⟨supply, none, vars'⟩) notAssign behind⟩
  joined_of_drawn := fun ⟨same, hvars, _, _, behind⟩ notPrint _ => ⟨same, hvars, behind notPrint⟩
  named_of_drawn _ _ := trivial
  failed_of_joined h _ := ⟨h.1, h.2.1⟩
  lookup h _ := State.both_lookup (h.1 ▸ rfl) (fun _ => h) ⟨h.1, h.2.1⟩
  assign := by
    rintro limit t sign value s s₁ s₂ u u₂ ⟨-, -, -, -, behind⟩ isName htoken isAssign
    have notPrint : t.kind ≠ .print := by rw [isName]; exact Kind.noConfusion
    exact absurd isAssign ((behind notPrint).token htoken).1

theorem unset_loses (vars : Bindings) : (unset vars : Lockstep σ σ).Loses :=
  fun _ _ _ drawn => ⟨drawn.1, drawn.2.1⟩

/-- How a sum ends that is to set some names: each of them has its value, or it failed
    and the variables are as they were. The token behind it goes on with nothing. -/
inductive SetsAll (names : List String) (vars : Bindings) : Outcome (State σ) Float → Prop where
  | value {v : Float} {s : State σ} {t : Token} (slot : s.slot = some t)
      (notOperator : ∀ op, t.kind ≠ .operator op) (notAssign : t.kind ≠ .assign)
      (stored : s.vars = names.foldr (fun name b => b.assign name v) vars) :
      SetsAll names vars (.ok v s)
  | fault {f : Fault} {s : State σ} (unchanged : s.vars = vars) : SetsAll names vars (.fault f s)

theorem setsAll_nil (h : s.Unassigned) (limit : Limit) :
    SetsAll [] s.vars ((Rule.sum limit).run s) := by
  have both := ((unset s.vars).follows_rules limit fun _ => unset_loses s.vars).1 s s ⟨rfl, rfl, h⟩
  cases hrun : (Rule.sum limit).run s with
  | fault f s' =>
    rw [hrun] at both
    cases both with
    | fault h => exact .fault h.2
  | ok v s' =>
    rw [hrun] at both
    obtain ⟨t, hslot, notOperator⟩ := slot_of_sum hrun
    cases both with
    | ok h => exact .value hslot notOperator (h.2.2.token (token_of_ahead (ahead_of_slot hslot))).1 h.2.1

end Unset

/-! ## Chains of assignments -/

section Chains

variable {σ : Type} [Supply σ] {s s' u : State σ} {t sign : Token} {a b : σ} {n : Nat}
  {frail : Bool}

/-- An assignment is the sum behind its sign, and the value is stored. It leaves nothing
    for the rules around it to read. -/
theorem run_assigned (ha : s.ahead = .ok t a) (isName : t.kind = .name)
    (hb : (ofSupply a s.vars).ahead = .ok sign b) (isAssign : sign.kind = .assign) :
    (Rule.sum ⟨n + 3, frail⟩).run s =
      ((Rule.sum ⟨n, frail⟩).run (ofSupply b s.vars)).andThen fun v s =>
        .ok v (s.assign t.name v) := by
  have operand : (Rule.atLevel frail 3 (n + 1)).run s =
      ((Rule.sum ⟨n, frail⟩).run (ofSupply b s.vars)).andThen fun v s =>
        .ok v (s.assign t.name v) := by
    rw [run_operand ha, Rule.begun, isName]
    simp only [Rule.named, token_of_ahead hb, Outcome.andThen_ok, if_pos isAssign]
    rfl
  have level (p : Nat) (hp : p = 1 ∨ p = 2) (m : Nat) : (Rule.atLevel frail p (m + 1)).run s =
      ((Rule.atLevel frail (p + 1) m).run s).andThen fun left s =>
        Rule.chainFrom p (Rule.atLevel frail (p + 1) m) left s := by
    rw [Rule.atLevel_chain hp]
    rfl
  show (Rule.atLevel frail 1 (n + 2 + 1)).run s = _
  rw [level 1 (.inl rfl), level 2 (.inr rfl), operand]
  cases hrun : (Rule.sum ⟨n, frail⟩).run (ofSupply b s.vars) with
  | fault f s₁ => rfl
  | ok v s₁ =>
    obtain ⟨supply, slot, vars⟩ := s₁
    obtain ⟨u, hslot, notOperator⟩ := slot_of_sum hrun
    have hslot : slot = some u := hslot
    subst hslot
    -- The token behind the sum is no operator of either level.
    have stop (p : Nat) : Rule.operatorAt p u.kind = none := by
      cases hop : Rule.operatorAt p u.kind with
      | none => rfl
      | some op => exact absurd (kind_of_operatorAt hop).1 (notOperator op)
    rw [Outcome.andThen_ok, Outcome.andThen_ok, chainFrom_stop (ahead_of_slot rfl) (stop 2),
      Outcome.andThen_ok, chainFrom_stop (ahead_of_slot rfl) (stop 1)]
    rfl

/-- Names, each with an assignment sign behind it. -/
def targetTokens (names : List String) : List Token :=
  names.flatMap fun name => [.identifier name, .mark .assign]

theorem setsAll_sum {names : List String} (taken : s.Takes (targetTokens names) u)
    (h : u.Unassigned) (limit : Limit) : SetsAll names s.vars ((Rule.sum limit).run s) := by
  obtain ⟨n, frail⟩ := limit
  induction names generalizing s n with
  | nil => exact setsAll_nil (h.congr (show s.ahead = u.ahead from taken).symm) _
  | cons name names ih =>
    obtain ⟨a, ha, b, hb, taken⟩ := taken
    obtain ⟨f, s', hbrink, unchanged, -⟩ := Rule.brink_fault frail s
    match n with
    | 0 => exact .fault rfl
    | 1 =>
      have hsum : (Rule.sum ⟨1, frail⟩).run s = .fault f s' := Outcome.andThen_of_eq_fault hbrink _
      rw [hsum]
      exact .fault unchanged
    | 2 =>
      have hsum : (Rule.sum ⟨2, frail⟩).run s = .fault f s' :=
        Outcome.andThen_of_eq_fault (Outcome.andThen_of_eq_fault hbrink _) _
      rw [hsum]
      exact .fault unchanged
    | n + 3 =>
      rw [run_assigned ha rfl hb rfl]
      have behind : SetsAll names s.vars ((Rule.sum ⟨n, frail⟩).run (ofSupply b s.vars)) :=
        ih taken n
      generalize (Rule.sum ⟨n, frail⟩).run (ofSupply b s.vars) = o at behind ⊢
      cases behind with
      | fault unchanged => exact .fault unchanged
      | @value v s₁ t slot notOperator notAssign stored =>
        refine .value slot notOperator notAssign ?_
        show s₁.vars.assign name v = _
        rw [stored]
        rfl

/-- All the names have the value, and no others have changed. -/
theorem lookup_assignAll (names : List String) (b : Bindings) (v : Float) (key : String) :
    (names.foldr (fun name b => b.assign name v) b).lookup key =
      if key ∈ names then some v else b.lookup key := by
  induction names with
  | nil => rfl
  | cons name names ih =>
    rw [List.foldr_cons, Bindings.lookup_assign, ih]
    by_cases same : key = name
    · rw [if_pos same, if_pos (same ▸ List.mem_cons_self)]
    · rw [if_neg same]
      exact if_congr (by rw [List.mem_cons, or_iff_right same]) rfl rfl

/-- So does a statement that begins with a name to set. -/
theorem statement_of_targets {names : List String} (nonempty : names ≠ [])
    (taken : s.Takes (targetTokens names) u) (h : u.Unassigned) (limit : Limit) :
    (∃ f s', s.statement limit = .fault f s' ∧ s'.vars = s.vars) ∨
      ∃ v s', s.statement limit = .ok (some v) s' ∧
        s'.vars = names.foldr (fun name b => b.assign name v) s.vars := by
  obtain ⟨name, names', rfl⟩ := List.exists_cons_of_ne_nil nonempty
  obtain ⟨a, ha, -⟩ := id taken
  let s₀ : State σ := ⟨a, some (.identifier name), s.vars⟩
  have same : s.ahead = s₀.ahead := ha
  have hstatement : s.statement limit = ((Rule.sum limit).run s₀).andThen close := by
    rw [statement, firstToken_of_ahead ha Kind.noConfusion, Outcome.andThen_ok,
      if_neg Kind.noConfusion]
    rfl
  have sets : SetsAll (name :: names') s.vars ((Rule.sum limit).run s₀) :=
    setsAll_sum ((takes_congr same).mp taken) h limit
  rw [hstatement]
  generalize (Rule.sum limit).run s₀ = o at sets ⊢
  cases sets with
  | fault unchanged => exact .inl ⟨_, _, rfl, unchanged⟩
  | @value v s₁ t slot notOperator notAssign stored =>
    refine .inr ⟨v, ⟨s₁.supply, some t, s₁.vars⟩, ?_, stored⟩
    rw [Outcome.andThen_ok, close, token_of_ahead (ahead_of_slot slot), Outcome.andThen_ok]
    show (if t.kind = .assign then _ else _) = _
    rw [if_neg notAssign]
    rfl

end Chains

/-! ## Texts -/

/-- Names in front of a text, each with ` = ` behind it. -/
def targets (names : List String) (rest : List Char) : List Char :=
  names.foldr (fun name text => name.toList ++ ' ' :: '=' :: ' ' :: text) rest

/-- They are read as names and assignment signs. -/
theorem reads_targets {constants : Bindings} {names : List String} {bl : List Char}
    (free : ∀ x ∈ names, IsIdentifier x ∧ constants.lookup x = none) (blank : IsBlank bl)
    (rest : List Char) : ∃ bl', IsBlank bl' ∧
      Reads constants (bl ++ targets names rest) (targetTokens names) (bl' ++ rest) := by
  induction names generalizing bl with
  | nil =>
    exact ⟨bl, blank, fun s vars hconstants hrest => ⟨s, hconstants, hrest, takes_refl _⟩⟩
  | cons x names ih =>
    obtain ⟨identifier, unbound⟩ := free x List.mem_cons_self
    have space : IsBlank [' '] := isBlank_singleton rfl
    obtain ⟨bl', blank', more⟩ := ih (fun y hy => free y (List.mem_cons_of_mem x hy)) space
    have assign : Kind.assign.symbol? = some '=' := rfl
    refine ⟨bl', blank', ?_⟩
    show Reads constants (bl ++ (x.toList ++ ([' '] ++ '=' :: ([' '] ++ targets names rest))))
      ([.identifier x] ++ ([.mark .assign] ++ targetTokens names)) (bl' ++ rest)
    rw [← List.append_assoc]
    exact (reads_name blank identifier unbound (delimits_symbol space assign Kind.noConfusion _)).append
      ((reads_symbol space assign).append more)

/-- What holds no `;` stands before the first one. -/
theorem takeWhile_append_of_not_mem {passed : List Char} (h : ';' ∉ passed) (rest : List Char) :
    (passed ++ rest).takeWhile (· ≠ ';') = passed ++ rest.takeWhile (· ≠ ';') := by
  refine List.takeWhile_append_of_pos fun c hc => ?_
  rw [decide_eq_true_eq]
  rintro rfl
  exact h hc

/-- Where no `=` stands before the first `;`, no assignment sign is read before it. -/
theorem unassigned_of_text {s : Script} (vars : Bindings)
    (h : '=' ∉ s.rest.takeWhile (· ≠ ';')) : (ofSupply s vars).Unassigned := by
  intro ts sign u taken before
  induction ts generalizing s with
  | nil =>
    obtain ⟨supply, ha, -⟩ := taken
    intro isAssign
    obtain ⟨hlexes, -⟩ := Script.lexes_of_next (r := .ok sign) ha
    have htext : s.rest.dropWhile Text.isBlank = '=' :: supply.rest := (hlexes.eq_assign isAssign).2
    refine h ?_
    rw [← List.takeWhile_append_dropWhile (p := Text.isBlank) (l := s.rest), htext,
      takeWhile_append_of_not_mem (not_mem_blank s.rest)]
    simp
  | cons t ts ih =>
    obtain ⟨supply, ha, taken⟩ := taken
    refine ih ?_ taken fun x hx => before x (List.mem_cons_of_mem t hx)
    obtain ⟨result, passed, reader, hnext, hpassed, ⟨-, hrest⟩ | ⟨rfl, -⟩⟩ := s.next_split
    · obtain ⟨-, rfl⟩ := Outcome.of_eq_ok (hnext.symm.trans ha)
      rw [hrest, takeWhile_append_of_not_mem hpassed] at h
      exact fun hmem => h (List.mem_append_right passed hmem)
    · obtain ⟨ht, -⟩ := Outcome.of_eq_ok (hnext.symm.trans ha)
      injection ht with ht
      exact absurd (ht ▸ rfl) (before t List.mem_cons_self)

/-- **A chain of assignments is atomic.** In a text that begins with names to set, and has
    no other `=` before its first `;`, a statement sets all of them to its value and nothing
    else, or it fails and the variables are as they were. Where no name is to be set, a sum
    leaves the variables as they were, however it ends. -/
theorem sets_all_or_none (limit : Limit) (s : Script) (vars : Bindings) (names : List String)
    (rest : List Char) (free : ∀ x ∈ names, IsIdentifier x ∧ s.constants.lookup x = none)
    (text : s.rest = targets names rest) (unassigned : '=' ∉ rest.takeWhile (· ≠ ';')) :
    (names ≠ [] →
      (∃ f s', (ofSupply s vars).statement limit = .fault f s' ∧ s'.vars = vars) ∨
        ∃ v s', (ofSupply s vars).statement limit = .ok (some v) s' ∧
          ∀ key, s'.vars.lookup key = if key ∈ names then some v else vars.lookup key) ∧
    (names = [] → ((Rule.sum limit).run (ofSupply s vars)).state.vars = vars) := by
  obtain ⟨bl, blank, reads⟩ := reads_targets free isBlank_nil rest
  obtain ⟨s', -, hrest', taken⟩ := reads s vars rfl text
  have behind : (ofSupply s' vars).Unassigned := by
    refine unassigned_of_text vars ?_
    rw [hrest', takeWhile_append_of_not_mem fun hmem => absurd (blank ';' hmem) (by decide),
      List.mem_append, not_or]
    exact ⟨fun hmem => absurd (blank '=' hmem) (by decide), unassigned⟩
  refine ⟨fun nonempty => ?_, fun none => ?_⟩
  · obtain failed | ⟨v, s₁, hstatement, hvars⟩ := statement_of_targets nonempty taken behind limit
    · exact .inl failed
    · refine .inr ⟨v, s₁, hstatement, fun key => ?_⟩
      rw [hvars, lookup_assignAll]
      rfl
  · subst none
    have sets : SetsAll [] vars ((Rule.sum limit).run (ofSupply s vars)) :=
      setsAll_sum (u := ofSupply s' vars) taken behind limit
    generalize (Rule.sum limit).run (ofSupply s vars) = o at sets ⊢
    cases sets with
    | value _ _ _ stored => exact stored
    | fault unchanged => exact unchanged

/-- The divisor is zero when all three names are still to be set, and the one that was set
    before keeps its value. -/
theorem sets_none_of_zero_divisor :
    let s := Script.ofText .builtin "x = y = x = 2 * (1 / 0); z = 1".toList
    let vars := Bindings.ofList [("y", 7)]
    s.rest = targets ["x", "y", "x"] "2 * (1 / 0); z = 1".toList ∧
      ∃ s', (ofSupply s vars).statement nestingLimit = .fault .zeroDivisor s' ∧ s'.vars = vars := by
  intro s vars
  have identifier : ["x", "y", "x"].all (fun x =>
      decide (IsIdentifier x ∧ s.constants.lookup x = none)) = true := by decide +kernel
  have text : s.rest = targets ["x", "y", "x"] "2 * (1 / 0); z = 1".toList := by decide +kernel
  have unassigned : '=' ∉ ("2 * (1 / 0); z = 1".toList).takeWhile (· ≠ ';') := by decide +kernel
  have fails : ((ofSupply s vars).statement nestingLimit).result = .error .zeroDivisor := by
    decide +kernel
  refine ⟨text, ?_⟩
  obtain ⟨f, s', hstatement, hvars⟩ | ⟨v, s', hstatement, -⟩ := (sets_all_or_none nestingLimit s vars _ _
    (fun x hx => of_decide_eq_true (List.all_eq_true.mp identifier x hx)) text unassigned).1 (by simp)
  · rw [hstatement] at fails
    injection fails with hf
    exact ⟨s', hf ▸ hstatement, hvars⟩
  · rw [hstatement] at fails
    cases fails

end Reckoner
