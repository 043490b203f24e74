/-
  A text of statements has the values of the walks.

  `Expr.evalAll` walks one tree after the other and threads the variables. A
  statement is a derivation with a `;` behind it, so `followed` gives its value;
  what an evaluation does depends on the tokens ahead and the variables alone
  (`evaluate_congr`), so the `;` that was put back changes nothing.

  Proved: `evaluate_of_renders`, for every rendering of every list of trees that
  stays within a nesting limit.
-/
import Reckoner.Calculator
import Reckoner.Proofs.Completeness
import Reckoner.Proofs.Rendering

namespace Reckoner

open State Reckoner.Derivation

/-! ## The walk -/

/-- The values of trees, one walk after the other. -/
def Expr.evalAll : List Expr → Bindings → Outcome Bindings (List Float)
  | [], b => .ok [] b
  | e :: es, b =>
    (e.eval b).andThen fun value b =>
    (evalAll es b).andThen fun values b => .ok (value :: values) b

/-- The value or the fault. -/
def Outcome.result {σ α : Type} : Outcome σ α → Except Fault α
  | .ok a _ => .ok a
  | .fault f _ => .error f

/-- The values of an evaluation, or the fault that ended it, and the variables. -/
def Evaluation.outcome {σ : Type} (e : Evaluation σ) : Outcome Bindings (List Float) :=
  match e.fault with
  | none => .ok e.results e.state.vars
  | some f => .fault f e.state.vars

/-! ## One statement -/

section Statement

variable {σ : Type} [Supply σ] {s s' u : State σ} {t : Token} {supply : σ} {limit : Limit}

/-- What is ahead and the variables are all that counts. -/
theorem evaluate_congr (ha : s.ahead = s'.ahead) (hv : s.vars = s'.vars) :
    s.evaluate limit = s'.evaluate limit := by
  rw [evaluate_eq limit s, evaluate_eq limit s', statement, statement, firstToken_congr ha hv]

theorem evaluate_print (ha : s.ahead = .ok t supply) (isPrint : t.kind = .print) :
    s.evaluate limit = (ofSupply supply s.vars).evaluate limit := by
  rw [evaluate_eq limit s, evaluate_eq limit (ofSupply _ _), statement, statement,
    firstToken_print ha isPrint]

theorem evaluate_quit (ha : s.ahead = .ok t supply) (isQuit : t.kind = .quit) :
    s.evaluate limit = ⟨[], none, ofSupply supply s.vars⟩ := by
  rw [evaluate_eq, statement_quit ha isQuit]

/-- No `;` and no `quit` stands at the beginning of a derivation. -/
theorem Derivation.begins {p : Nat} (d : Derivation p) (h : s.Takes d.word u) :
    ∃ t supply, s.ahead = .ok t supply ∧ t.kind ≠ .print ∧ t.kind ≠ .quit := by
  obtain ⟨t, ts, hw⟩ := List.exists_cons_of_ne_nil d.word_ne_nil
  have hrun := d.run_word 0
  rw [hw] at h hrun
  obtain ⟨supply, ha, -⟩ := h
  refine ⟨t, supply, ha, fun hk => ?_, fun hk => ?_⟩ <;>
  · rw [Phase.run, hk] at hrun
    cases hrun

/-- A tidy derivation is a statement with its value, where the token behind it is
    none that could go on with it. -/
theorem statement_of_derivation {d : Derivation 1} (tidy : d.Tidy) (room : d.calls ≤ limit.depth)
    (taken : s.Takes d.word u) (ha : u.ahead = .ok t supply)
    (notOperator : ∀ op, t.kind ≠ .operator op) (notAssign : t.kind ≠ .assign) :
    ∃ o, Agrees u o (d.tree.eval s.vars) ∧
      s.statement limit = o.andThen fun v s => .ok (some v) s := by
  obtain ⟨t₀, supply₀, ha₀, notPrint, notQuit⟩ := d.begins taken
  have settled : d.Settled 1 t := settled_of_ne notOperator notAssign
  let s₀ : State σ := ⟨supply₀, some t₀, s.vars⟩
  have same : s.ahead = s₀.ahead := ha₀
  have agrees : Agrees u ((Rule.sum limit).run s₀) (d.tree.eval s.vars) :=
    (followed tidy).whole room (s := s₀) ⟨(takes_congr same).mp taken, t, supply, ha, settled⟩
  have hstatement : s.statement limit = ((Rule.sum limit).run s₀).andThen close := by
    rw [statement, firstToken_of_ahead ha₀ notPrint, Outcome.andThen_ok, if_neg notQuit]
    rfl
  rw [hstatement]
  generalize (Rule.sum limit).run s₀ = o, d.tree.eval s.vars = walk at agrees ⊢
  cases agrees with
  | fault => exact ⟨_, .fault, rfl⟩
  | @ok v s₁ place =>
    have ha₁ : s₁.ahead = .ok t supply := place.trans ha
    refine ⟨.ok v ⟨supply, some t, s₁.vars⟩, .ok ha.symm, ?_⟩
    rw [Outcome.andThen_ok, Outcome.andThen_ok, close, token_of_ahead ha₁, Outcome.andThen_ok]
    show (if t.kind = .assign then _ else _) = _
    rw [if_neg notAssign]
    rfl

/-- What is written clearly is one, wherever its tokens are ahead. -/
theorem statement_of_written {w : Written} (clear : w.Clear) (room : w.calls 1 ≤ limit.depth)
    (taken : s.Takes w.tokens u) (ha : u.ahead = .ok t supply)
    (notOperator : ∀ op, t.kind ≠ .operator op) (notAssign : t.kind ≠ .assign) :
    ∃ o, Agrees u o (w.tree.eval s.vars) ∧
      s.statement limit = o.andThen fun v s => .ok (some v) s := by
  obtain ⟨d, hd⟩ := Written.derived clear (Nat.le_refl 1) w.level_pos
  rw [← hd.word] at taken
  rw [← hd.tree]
  exact statement_of_derivation hd.tidy (hd.calls ▸ room) taken ha notOperator notAssign

end Statement

/-! ## A text of statements -/

/-- The texts of statements: a `;` behind each, and blanks where tokens end. -/
inductive RendersEach (constants : Bindings) : List Written → List Char → Prop where
  | nil {bl : List Char} (blank : IsBlank bl) : RendersEach constants [] bl
  | cons {w : Written} {ws : List Written} {cs bl ds : List Char} (statement : w.Renders constants cs)
      (blank : IsBlank bl) (more : RendersEach constants ws ds) :
      RendersEach constants (w :: ws) (cs ++ (bl ++ ';' :: ds))

section Statements

variable {constants : Bindings} {limit : Limit} {ws : List Written} {cs : List Char}

/-- A first statement has the value of its walk, and the text behind its `;` is
    evaluated with the variables that are left. -/
theorem evaluate_of_first {w : Written} {bl ds : List Char} (statement : w.Renders constants cs)
    (blank : IsBlank bl) (clear : w.Clear) (room : w.calls 1 ≤ limit.depth) {s : Script}
    (hconstants : s.constants = constants) (hrest : s.rest = cs ++ (bl ++ ';' :: ds))
    (vars : Bindings) : ∃ s' : Script, s'.constants = constants ∧ s'.rest = ds ∧
      ((ofSupply s vars).evaluate limit).outcome =
        (w.tree.eval vars).andThen fun v b =>
        (((ofSupply s' b).evaluate limit).outcome).andThen fun vs b => .ok (v :: vs) b := by
  have hprint : Kind.print.symbol? = some ';' := rfl
  obtain ⟨s₁, hconstants₁, hrest₁, taken⟩ :=
    statement.reads (delimits_symbol blank hprint Kind.noConfusion ds) s vars hconstants hrest
  have reads : Reads constants (bl ++ ';' :: ds) [.mark .print] ds := reads_symbol blank hprint
  obtain ⟨s₂, hconstants₂, hrest₂, supply, ha, place⟩ := reads s₁ vars hconstants₁ hrest₁
  obtain ⟨o, agrees, hstatement⟩ := statement_of_written clear room taken ha
    (fun _ => Kind.noConfusion) Kind.noConfusion
  refine ⟨s₂, hconstants₂, hrest₂, ?_⟩
  rw [evaluate_eq, hstatement]
  change Agrees _ _ (w.tree.eval vars) at agrees
  generalize w.tree.eval vars = walk at agrees ⊢
  cases agrees with
  | fault => rfl
  | @ok v s' place' =>
    have rest : s'.evaluate limit = (ofSupply s₂ s'.vars).evaluate limit := by
      rw [evaluate_print (place'.trans ha) rfl]
      exact evaluate_congr place rfl
    rw [Outcome.andThen_ok, Outcome.andThen_ok]
    dsimp only
    rw [rest, Evaluation.outcome, Evaluation.outcome]
    cases ((ofSupply s₂ s'.vars).evaluate limit).fault <;> rfl

/-- The values of statements are those of the walks, from wherever their text is
    ahead. -/
theorem evaluate_of_rendersEach (h : RendersEach constants ws cs) (clear : ∀ w ∈ ws, w.Clear)
    (room : ∀ w ∈ ws, w.calls 1 ≤ limit.depth) {s : Script} (hconstants : s.constants = constants)
    (hrest : s.rest = cs) (vars : Bindings) :
    ((ofSupply s vars).evaluate limit).outcome = Expr.evalAll (ws.map Written.tree) vars := by
  induction h generalizing s vars with
  | nil blank =>
    obtain ⟨s', ha⟩ := ahead_blank blank hrest vars
    rw [evaluate_quit ha rfl]
    rfl
  | @cons w ws cs bl ds statement blank more ih =>
    obtain ⟨s', hconstants', hrest', first⟩ := evaluate_of_first statement blank
      (clear w List.mem_cons_self) (room w List.mem_cons_self) hconstants hrest vars
    have later := ih (fun w hw => clear w (List.mem_cons_of_mem _ hw))
      (fun w hw => room w (List.mem_cons_of_mem _ hw)) hconstants' hrest'
    rw [first, List.map_cons, Expr.evalAll]
    congr 1
    funext v b
    rw [later b]

end Statements

theorem Scope.evaluate_eq_outcome (scope : Scope) (code : String) (limit : Limit) :
    scope.evaluate code limit =
      (((scope.start code).evaluate limit).outcome.result,
        { scope with vars := ((scope.start code).evaluate limit).outcome.state }) := by
  rw [evaluate, Evaluation.outcome]
  cases ((scope.start code).evaluate limit).fault <;> rfl

/-- **Evaluation is the walk.** A text of clear statements within a nesting limit
    has the values of the walks over their trees, one after the other, or the
    fault that a walk ends in, and leaves the variables as the walks do. -/
theorem evaluate_of_renders (limit : Limit) (scope : Scope) (ws : List Written) (code : String)
    (rendered : RendersEach scope.constants ws code.toList) (clear : ∀ w ∈ ws, w.Clear)
    (room : ∀ w ∈ ws, w.calls 1 ≤ limit.depth) :
    scope.evaluate code limit =
      ((Expr.evalAll (ws.map Written.tree) scope.vars).result,
        { scope with vars := (Expr.evalAll (ws.map Written.tree) scope.vars).state }) := by
  have h : ((scope.start code).evaluate limit).outcome =
      Expr.evalAll (ws.map Written.tree) scope.vars :=
    evaluate_of_rendersEach rendered clear room rfl rfl scope.vars
  rw [Scope.evaluate_eq_outcome, h]

/-- The second statement asks for a name without a value when the first has stored
    one, and the third is not reached. -/
theorem evaluate_unknown_behind_assignment :
    (Scope.ofConstants .builtin).evaluate "x = (1 + 2) * -3; x - y; z;" =
      (.error (.unknownName "y"),
        ⟨.builtin, .ofList [("x", (Numeral.value ⟨['1'], none, none⟩ +
          Numeral.value ⟨['2'], none, none⟩) * -Numeral.value ⟨['3'], none, none⟩)]⟩) := by
  have tight : IsBlank [] := fun c hc => nomatch hc
  have blank : IsBlank [' '] := fun c hc => by rw [List.mem_singleton.mp hc]; rfl
  have one := Numeral.wellFormed_digit '1' rfl
  have two := Numeral.wellFormed_digit '2' rfl
  have three := Numeral.wellFormed_digit '3' rfl
  have x : IsIdentifier "x" := ⟨'x', [], rfl, rfl, by decide, by simp⟩
  have y : IsIdentifier "y" := ⟨'y', [], rfl, rfl, by decide, by simp⟩
  have z : IsIdentifier "z" := ⟨'z', [], rfl, rfl, by decide, by simp⟩
  have hx : Bindings.builtin.lookup "x" = none := by decide
  have hy : Bindings.builtin.lookup "y" = none := by decide
  have hz : Bindings.builtin.lookup "z" = none := by decide
  have first : Written.Renders .builtin (.assign "x" (.binary .multiply
      (.group (.binary .add (.number _) (.number _))) (.negate (.number _)))) _ :=
    .assign tight x hx blank (.binary (.group blank
      (.binary (.number tight one) blank (.number blank two)) tight) blank
      (.negate blank (.number tight three)))
  have second : Written.Renders .builtin (.binary .subtract (.name "x") (.name "y")) _ :=
    .binary (.name blank x hx) blank (.name blank y hy)
  have third := Written.Renders.name blank z hz
  have rendered := RendersEach.cons first tight (.cons second tight (.cons third tight (.nil tight)))
  refine (evaluate_of_renders nestingLimit _ _ _ rendered ?_ ?_).trans rfl
  · simp [Written.Clear, Written.precedence, Operator.precedence]
  · simp [Written.calls, Written.isNegate, Operator.precedence, nestingLimit]

end Reckoner
