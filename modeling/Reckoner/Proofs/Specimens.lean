/-
  The calculator reads a specimen as the tree that was drawn.

  `generate` prints while it draws, and knows of each part only its texts and its
  precedence. That is all that printing the whole tree asks of a part, so both come to the
  same texts (`generate_eq`). What can be drawn is `Drawn`: a tree of bounded height over
  the leaves, which code can say and whose walk sets nothing and can only fail in an
  operation.

  Proved: `specimen_reads_back`, for all depths and draws.
-/
import Reckoner.Specimen
import Reckoner.Proofs.Printing
import Reckoner.Proofs.Readback

namespace Reckoner

open State

/-! ## Statements in front of the last -/

/-- Statements with a `;` behind each, and one without at the end. -/
theorem evaluate_of_statements {constants : Bindings} {limit : Limit} {ws : List Written}
    {w : Written} {cs ds : List Char} (front : RendersEach constants ws cs)
    (clear : ∀ w ∈ ws, w.Clear) (room : ∀ w ∈ ws, w.calls 1 ≤ limit.depth)
    (rendered : w.Renders constants ds) (clear' : w.Clear) (room' : w.calls 1 ≤ limit.depth)
    {s : Script} (hconstants : s.constants = constants) (hrest : s.rest = cs ++ ds)
    (vars : Bindings) :
    ((ofSupply s vars).evaluate limit).outcome =
      (Expr.evalAll (ws.map Written.tree) vars).andThen fun vs b =>
      (w.tree.eval b).andThen fun v b => .ok (vs ++ [v]) b := by
  induction front generalizing s vars with
  | nil blank => exact evaluate_of_last (rendered.behind blank) clear' room' hconstants hrest vars
  | @cons w₀ ws cs bl es statement blank more ih =>
    rw [List.append_assoc, List.append_assoc, List.cons_append] at hrest
    obtain ⟨s', hconstants', hrest', first⟩ := evaluate_of_first statement blank
      (clear w₀ List.mem_cons_self) (room w₀ List.mem_cons_self) hconstants hrest vars
    have later := ih (fun w hw => clear w (List.mem_cons_of_mem _ hw))
      (fun w hw => room w (List.mem_cons_of_mem _ hw)) hconstants' hrest'
    rw [first, List.map_cons, Expr.evalAll]
    cases w₀.tree.eval vars with
    | fault f b => rfl
    | ok v b =>
      rw [Outcome.andThen_ok, Outcome.andThen_ok, later b]
      cases Expr.evalAll (ws.map Written.tree) b with
      | fault f b => rfl
      | ok vs b =>
        rw [Outcome.andThen_ok, Outcome.andThen_ok, Outcome.andThen_ok]
        cases w.tree.eval b <;> rfl

namespace Specimen

/-! ## Printing as it is drawn -/

/-- A whole tree in print. -/
def printed (e : Expr) : Printed := ⟨e.code, e.spelled, e.precedence⟩

theorem printed_negate (e : Expr) : (printed e).negate = printed (.negate e) := rfl

theorem printed_binary (op : Operator) (l r : Expr) :
    Printed.binary op (printed l) (printed r) = printed (.binary op l r) := by
  cases op <;> rfl

theorem choose_map {α β : Type} (f : α → β) (items : List α) (default : α) (d : Draws) :
    d.choose (items.map f) (f default) =
      (f (d.choose items default).1, (d.choose items default).2) := by
  obtain ⟨chances, choices⟩ := d
  cases choices with
  | nil => rfl
  | cons i choices => simp [Draws.choose]

theorem printedLeaf_eq (d : Draws) : printedLeaf d = (printed (leaf d).1, (leaf d).2) := by
  have texts : leafTexts.map Printed.leaf = leaves.map printed := by decide +kernel
  have zero : Printed.leaf "0" = printed (.number 0) := by decide +kernel
  have typed := choose_map Printed.leaf leafTexts "0" d
  rw [texts, zero, choose_map] at typed
  exact typed.symm

/-- What is printed as it is drawn is the tree in print. -/
theorem generate_eq (depth : Nat) (d : Draws) :
    generate depth d = (printed (grow depth d).1, (grow depth d).2) := by
  induction depth generalizing d with
  | zero => exact printedLeaf_eq d
  | succ depth ih =>
    rw [generate, grow]
    dsimp only
    split
    · exact printedLeaf_eq _
    split
    · rw [ih, printed_negate]
    · rw [ih, ih, printed_binary]

/-! ## What can be drawn -/

def numbers : List Float := [0, 1, 2, 7, 10, 0.5, 2.25]

def names : List String := ["pi", "e", "a", "b", "c"]

/-- A leaf is a number or a name. -/
theorem mem_leaves {e : Expr} (h : e ∈ leaves) :
    (∃ v ∈ numbers, e = .number v) ∨ ∃ x ∈ names, e = .name x := by
  have hleaves : leaves = numbers.map .number ++ names.map .name := rfl
  rw [hleaves, List.mem_append, List.mem_map, List.mem_map] at h
  obtain ⟨v, hv, rfl⟩ | ⟨x, hx, rfl⟩ := h
  · exact .inl ⟨v, hv, rfl⟩
  · exact .inr ⟨x, hx, rfl⟩

theorem plain_numbers : numbers.all (fun v =>
    decide (v.isFinite = true ∧ Binary64.negative v = false)) = true := by decide +kernel

theorem identifier_names : names.all (fun x => decide (IsIdentifier x)) = true := by decide +kernel

/-- A name is a constant or a variable that is set. -/
theorem bound_names : names.all (fun x => decide (((Expr.name x).resolve .builtin).eval vars =
    .ok (((Bindings.builtin.lookup x).or (vars.lookup x)).getD 0) vars)) = true := by decide +kernel

/-- What so much depth can draw. -/
inductive Drawn : Nat → Expr → Prop where
  | leaf {depth : Nat} {e : Expr} (isLeaf : e ∈ leaves) : Drawn depth e
  | negate {depth : Nat} {e : Expr} (operand : Drawn depth e) : Drawn (depth + 1) (.negate e)
  | binary {depth : Nat} {l r : Expr} (op : Operator) (left : Drawn depth l)
      (right : Drawn depth r) : Drawn (depth + 1) (.binary op l r)

theorem leaf_mem (d : Draws) : (leaf d).1 ∈ leaves := by
  obtain ⟨chances, choices⟩ := d
  cases choices with
  | nil => exact List.mem_cons_self
  | cons i choices =>
    show leaves.getD i (.number 0) ∈ leaves
    rw [List.getD_eq_getElem?_getD]
    cases hi : leaves[i]? with
    | none => exact List.mem_cons_self
    | some e => exact List.mem_of_getElem? hi

theorem drawn_grow (depth : Nat) (d : Draws) : Drawn depth (grow depth d).1 := by
  induction depth generalizing d with
  | zero => exact .leaf (leaf_mem d)
  | succ depth ih =>
    rw [grow]
    dsimp only
    split
    · exact .leaf (leaf_mem _)
    split
    · exact .negate (ih _)
    · exact .binary _ (ih _) (ih _)

namespace Drawn

variable {depth : Nat} {e : Expr}

theorem height_le (h : Drawn depth e) : e.height ≤ depth := by
  induction h with
  | leaf isLeaf =>
    obtain ⟨v, -, rfl⟩ | ⟨x, -, rfl⟩ := mem_leaves isLeaf <;> exact Nat.zero_le _
  | negate operand ih => exact Nat.succ_le_succ ih
  | binary op left right ihl ihr => exact Nat.succ_le_succ (Nat.max_le.mpr ⟨ihl, ihr⟩)

theorem assigns (h : Drawn depth e) : e.assigns = false := by
  induction h with
  | leaf isLeaf => obtain ⟨v, -, rfl⟩ | ⟨x, -, rfl⟩ := mem_leaves isLeaf <;> rfl
  | negate operand ih => exact ih
  | binary op left right ihl ihr => exact Bool.or_eq_false_iff.mpr ⟨ihl, ihr⟩

theorem legible (h : Drawn depth e) : e.Legible .builtin := by
  induction h with
  | leaf isLeaf =>
    obtain ⟨v, hv, rfl⟩ | ⟨x, hx, rfl⟩ := mem_leaves isLeaf
    · exact (of_decide_eq_true (List.all_eq_true.mp plain_numbers v hv) :)
    · exact (of_decide_eq_true (List.all_eq_true.mp identifier_names x hx) :)
  | negate operand ih => exact ih
  | binary op left right ihl ihr => exact ⟨ihl, ihr⟩

/-- The walk sets nothing, and can only fail in an operation. -/
theorem walk (h : Drawn depth e) : ∃ r : Except Fault Float,
    (e.resolve .builtin).eval vars = .of r vars ∧
      ∀ f, r = .error f → f = .zeroDivisor ∨ f = .noRemainder := by
  have none {v : Float} (f : Fault) (h : (Except.ok v : Except Fault Float) = .error f) :
      f = .zeroDivisor ∨ f = .noRemainder := by cases h
  induction h with
  | leaf isLeaf =>
    obtain ⟨v, hv, rfl⟩ | ⟨x, hx, rfl⟩ := mem_leaves isLeaf
    · exact ⟨.ok v, rfl, none⟩
    · exact ⟨.ok _, (of_decide_eq_true (List.all_eq_true.mp bound_names x hx) :), none⟩
  | negate operand ih =>
    obtain ⟨r, hr, faults⟩ := ih
    rw [Expr.resolve, Expr.eval, hr]
    cases r with
    | error f => exact ⟨.error f, rfl, faults⟩
    | ok v => exact ⟨.ok (-v), rfl, none⟩
  | binary op left right ihl ihr =>
    obtain ⟨rl, hl, faultsl⟩ := ihl
    obtain ⟨rr, hr, faultsr⟩ := ihr
    rw [Expr.resolve, Expr.eval, hl]
    cases rl with
    | error f => exact ⟨.error f, rfl, faultsl⟩
    | ok x =>
      rw [Outcome.of, Outcome.andThen_ok, hr]
      cases rr with
      | error f => exact ⟨.error f, rfl, faultsr⟩
      | ok y =>
        refine ⟨op.apply x y, ?_, fun f hf => ?_⟩
        · rw [Outcome.of, Outcome.andThen_ok]
          cases op.apply x y <;> rfl
        · obtain ⟨-, -, rfl⟩ | ⟨-, -, -, rfl⟩ := Operator.apply_eq_error_iff.mp hf
          · exact .inl rfl
          · exact .inr rfl

end Drawn

/-! ## Values -/

/-- Assignments of finite numbers are read as such. -/
theorem renders_assignments {constants : Bindings} {entries : List (String × Float)} {bl : List Char}
    (free : ∀ p ∈ entries, IsIdentifier p.1 ∧ constants.lookup p.1 = none ∧ p.2.isFinite = true)
    (blank : IsBlank bl) :
    ∃ ws, RendersEach constants ws
        (bl ++ (String.join (entries.map fun p => p.1 ++ " = " ++ text p.2 ++ "; ")).toList) ∧
      (∀ w ∈ ws, w.Clear ∧ w.calls 1 ≤ 7) ∧
      ∀ b, ∃ vs, Expr.evalAll (ws.map Written.tree) b =
        .ok vs (entries.foldl (fun b p => b.assign p.1 p.2) b) := by
  have space : IsBlank [' '] := isBlank_singleton rfl
  induction entries generalizing bl with
  | nil =>
    refine ⟨[], ?_, List.forall_mem_nil _, fun b => ⟨[], rfl⟩⟩
    rw [List.map_nil, String.join_nil, String.toList_empty, List.append_nil]
    exact .nil blank
  | cons p entries ih =>
    obtain ⟨x, v⟩ := p
    obtain ⟨identifier, unbound, finite⟩ := free (x, v) List.mem_cons_self
    obtain ⟨ws, more, clear, values⟩ := ih (fun p hp => free p (List.mem_cons_of_mem _ hp)) space
    obtain ⟨w, rendered, clear', room, hvalue⟩ := exists_written constants Layout.wholeEnd_full finite
    refine ⟨.assign x w :: ws, ?_, List.forall_mem_cons.mpr ⟨⟨clear', ?_⟩, clear⟩, fun b => ?_⟩
    · have first := Written.Renders.assign blank identifier unbound space (rendered.behind space)
      have whole := RendersEach.cons first isBlank_nil more
      rw [List.map_cons, String.join_cons]
      simp only [String.toList_append, text, String.toList_ofList, List.append_assoc] at whole ⊢
      exact whole
    · show 3 + w.calls 1 ≤ 7
      omega
    · obtain ⟨vs, hvs⟩ := values (b.assign x v)
      refine ⟨v :: vs, ?_⟩
      rw [List.map_cons, Expr.evalAll, Written.tree, Expr.eval, hvalue, Outcome.andThen_ok,
        Outcome.andThen_ok, hvs, Outcome.andThen_ok]
      rfl

theorem opening_eq :
    opening = String.join (vars.entries.map fun p => p.1 ++ " = " ++ text p.2 ++ "; ") := rfl

/-- The value of a drawn tree's code is the walk over the tree. -/
theorem value_of_drawn {depth : Nat} {e : Expr} (drawn : Drawn depth e) (shallow : depth ≤ 199)
    {limit : Limit} (ample : 803 ≤ limit.depth) :
    value (String.ofList e.code) limit = ((e.resolve .builtin).eval vars).result := by
  have free : vars.entries.all (fun p => decide (IsIdentifier p.1 ∧
      Bindings.builtin.lookup p.1 = none ∧ p.2.isFinite = true)) = true := by decide +kernel
  have hvars : vars.entries.foldl (fun b p => b.assign p.1 p.2) .empty = vars := by decide +kernel
  obtain ⟨ws, front, clear, values⟩ := renders_assignments
    (fun p hp => of_decide_eq_true (List.all_eq_true.mp free p hp)) isBlank_nil
  obtain ⟨vs, hvs⟩ := values .empty
  rw [List.nil_append, ← opening_eq] at front
  have room : (e.written .builtin).calls 1 ≤ limit.depth := by
    have calls := Expr.calls_written_le .builtin e
    have height := drawn.height_le
    omega
  have hrest : (Script.ofText .builtin (opening ++ String.ofList e.code).toList).rest =
      opening.toList ++ e.code := by
    rw [Script.rest, Script.ofText, Reader.rest_ofText, String.toList_append, String.toList_ofList]
  have outcome := evaluate_of_statements front (fun w hw => (clear w hw).1)
    (fun w hw => Nat.le_trans (clear w hw).2 (by omega)) (Expr.renders_code drawn.legible)
    (Expr.clear_written .builtin e) room rfl hrest .empty
  rw [hvs, Outcome.andThen_ok, hvars, Expr.tree_written] at outcome
  rw [value, Scope.evaluate_eq_outcome, Scope.start, Scope.ofConstants, outcome]
  cases (e.resolve .builtin).eval vars with
  | fault f b => rfl
  | ok v b => simp [Outcome.result, Except.map]

/-- **A specimen is read as it was drawn.** Its precedence is that of the top of the tree,
    and it is spelled as the tree with all its parentheses. Its code is a sum, whose only
    reading is the tree. To a depth of 199 and with any limit from 803 the calculator makes of
    the code what the walk over the tree makes of it: its value or its first fault, a division
    by zero or a remainder that there is not. -/
theorem specimen_reads_back (depth : Nat) (draws : Draws) :
    let e := (grow depth draws).1
    let specimen := (generate depth draws).1
    let code := String.ofList specimen.code
    specimen.precedence = e.precedence ∧ specimen.spelled = e.spelled ∧
      (∃ d : Derivation 1, (Scope.ofConstants .builtin).tokens code = .ok d.word) ∧
      (∀ d : Derivation 1, (Scope.ofConstants .builtin).tokens code = .ok d.word →
        d.tree = e.resolve .builtin) ∧
      (depth ≤ 199 → ∀ limit : Limit, 803 ≤ limit.depth →
        value code limit = ((e.resolve .builtin).eval vars).result ∧
          ∀ f, value code limit = .error f →
            f.message = "divide by zero" ∨ f.message = "math domain error") := by
  have drawn := drawn_grow depth draws
  rw [generate_eq]
  obtain ⟨d, htokens, -⟩ := Expr.tokens_code (.ofConstants .builtin) drawn.legible
  refine ⟨rfl, rfl, ⟨d, htokens⟩, fun d h => Expr.tree_of_tokens_code _ drawn.legible drawn.assigns h,
    fun shallow limit ample => ?_⟩
  have same := value_of_drawn drawn shallow ample
  refine ⟨same, fun f hf => ?_⟩
  obtain ⟨r, hr, faults⟩ := drawn.walk
  change value (String.ofList (grow depth draws).1.code) limit = .error f at hf
  rw [same, hr] at hf
  cases r with
  | ok v => cases hf
  | error f' =>
    injection hf with hf
    subst hf
    obtain rfl | rfl := faults f' rfl
    · exact .inl rfl
    · exact .inr rfl

/-- Two signs in a row are read, and zero is no divisor. -/
theorem specimen_of_signs :
    let draws : Draws := ⟨[0.5, 0.5, 0.125, 0.5, 0.125, 0.5, 0.5], [1, 2, 4, 9, 11]⟩
    (generate 3 draws).1.code = "2 - -(a % c)".toList ∧
      value "2 - -(a % c)" = .error .zeroDivisor := by
  intro draws
  have hcode : (generate 3 draws).1.code = "2 - -(a % c)".toList := by decide +kernel
  have reads := (specimen_reads_back 3 draws).2.2.2.2 (by decide) nestingLimit (by decide)
  refine ⟨hcode, ?_⟩
  rw [hcode, String.ofList_toList] at reads
  exact reads.1.trans (by decide +kernel)

end Specimen

end Reckoner
