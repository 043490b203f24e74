/-
  Code is read as the tree it was printed from.

  `Expr.written` puts a group where `Expr.code` puts parentheses, and both ask for nothing
  but how tightly things bind. What is written so is clear, and the code is one of its
  texts. A level of the tree takes at most four rules: a group around it, and the three
  rules that lead into a group.

  Proved: `Expr.tokens_code`, code has a tidy derivation of its tree, and for a tree that
  assigns nothing it has no derivation of another (`Expr.tree_of_tokens_code`).
-/
import Reckoner.Expr.Code
import Reckoner.Proofs.Spelling
import Reckoner.Proofs.Unambiguous

namespace Reckoner

open Binary64

/-! ## Groups -/

namespace Written

/-- A group, if it is needed. -/
def groupIf (needed : Bool) (w : Written) : Written := if needed then .group w else w

variable {constants : Bindings} {w : Written} {needed : Bool} {cs bl : List Char} {p : Nat}

theorem tree_groupIf : (w.groupIf needed).tree = w.tree := by cases needed <;> rfl

theorem clear_groupIf (h : w.Clear) : (w.groupIf needed).Clear := by cases needed <;> exact h

/-- Where it binds as tightly as it has to it needs none. -/
theorem le_precedence_groupIf (hp : p ≤ 3) (h : needed = false → p ≤ w.precedence) :
    p ≤ (w.groupIf needed).precedence := by
  cases needed with
  | false => exact h rfl
  | true => exact hp

/-- Blanks may stand in front. -/
theorem Renders.behind (h : w.Renders constants cs) (blank : IsBlank bl) :
    w.Renders constants (bl ++ cs) := by
  have front {bl' : List Char} (blank' : IsBlank bl') : IsBlank (bl ++ bl') := fun c hc =>
    (List.mem_append.mp hc).elim (blank c) (blank' c)
  induction h with
  | number blank' form => exact List.append_assoc _ _ _ ▸ .number (front blank') form
  | constant blank' identifier bound =>
    exact List.append_assoc _ _ _ ▸ .constant (front blank') identifier bound
  | name blank' identifier free =>
    exact List.append_assoc _ _ _ ▸ .name (front blank') identifier free
  | negate blank' operand => exact List.append_assoc _ _ _ ▸ .negate (front blank') operand
  | binary left blank' right ih => exact List.append_assoc _ _ _ ▸ .binary ih blank' right
  | assign blank₁ identifier free blank₂ value =>
    rw [← List.append_assoc bl, ← List.append_assoc bl]
    exact .assign (front blank₁) identifier free blank₂ value
  | group blank₁ inner blank₂ => exact List.append_assoc _ _ _ ▸ .group (front blank₁) inner blank₂

theorem Renders.groupIf (h : w.Renders constants cs) :
    (w.groupIf needed).Renders constants (Expr.enclosedIf needed cs) := by
  cases needed with
  | false => exact h
  | true => exact .group isBlank_nil h isBlank_nil

/-- The rules of the lower levels are active for nothing but to call the next. -/
theorem calls_one (h1 : 1 ≤ p) (hp : p ≤ w.level) : w.calls 1 = w.calls p + (p - 1) := by
  induction p, h1 using Nat.le_induction with
  | base => rfl
  | succ p h1 ih =>
    rw [ih (by omega), calls_of_lt (Nat.lt_of_succ_le hp)]
    omega

/-- A group costs three rules more than what is in it. -/
theorem calls_groupIf (w : Written) (needed : Bool) (h1 : 1 ≤ p) (hp : p ≤ 3)
    (h : needed = false → p ≤ w.level) : (w.groupIf needed).calls p + (p - 1) ≤ w.calls 1 + 3 := by
  cases needed with
  | false =>
    show w.calls p + (p - 1) ≤ _
    rw [calls_one h1 (h rfl)]
    omega
  | true =>
    show 4 - p + w.calls 1 + (p - 1) ≤ _
    omega

theorem kind_ne_quit (w : Written) : ∀ t ∈ w.tokens, t.kind ≠ .quit := by
  induction w with
  | number | name =>
    intro t ht
    rw [List.mem_singleton.mp ht]
    exact Kind.noConfusion
  | negate e ih => exact List.forall_mem_cons.mpr ⟨Kind.noConfusion, ih⟩
  | binary op l r ihl ihr =>
    exact List.forall_mem_append.mpr ⟨ihl, List.forall_mem_cons.mpr ⟨Kind.noConfusion, ihr⟩⟩
  | assign x e ih =>
    exact List.forall_mem_cons.mpr ⟨Kind.noConfusion, List.forall_mem_cons.mpr ⟨Kind.noConfusion, ih⟩⟩
  | group e ih =>
    refine List.forall_mem_cons.mpr ⟨Kind.noConfusion, List.forall_mem_append.mpr ⟨ih, ?_⟩⟩
    exact List.forall_mem_cons.mpr ⟨Kind.noConfusion, List.forall_mem_nil _⟩

end Written

/-! ## What code writes -/

namespace Expr

/-- A tree with the parentheses of its code. The name of a constant is a number. -/
def written (constants : Bindings) : Expr → Written
  | number value => .number value
  | name x => (constants.lookup x).elim (.name x) .number
  | negate e => .negate ((e.written constants).groupIf (e.precedence < 3))
  | binary op l r =>
    .binary op ((l.written constants).groupIf (l.precedence < op.precedence))
      ((r.written constants).groupIf (r.precedence ≤ op.precedence))
  | assign x e => .assign x (e.written constants)

/-- Code can say it: its numbers are finite and without a sign, its names are words, and no
    constant is assigned. -/
def Legible (constants : Bindings) : Expr → Prop
  | number value => value.isFinite = true ∧ negative value = false
  | name x => IsIdentifier x
  | negate e => e.Legible constants
  | binary _ l r => l.Legible constants ∧ r.Legible constants
  | assign x e => IsIdentifier x ∧ constants.lookup x = none ∧ e.Legible constants

/-- How many nodes stand over one another, the ends not counted. -/
def height : Expr → Nat
  | number _ | name _ => 0
  | negate e => e.height + 1
  | binary _ l r => max l.height r.height + 1
  | assign _ e => e.height + 1

/-- Whether something is assigned in it. -/
def assigns : Expr → Bool
  | number _ | name _ => false
  | negate e => e.assigns
  | binary _ l r => l.assigns || r.assigns
  | assign _ _ => true

variable {constants : Bindings} {e : Expr}

theorem precedence_resolve (constants : Bindings) (e : Expr) :
    (e.resolve constants).precedence = e.precedence := by
  cases e with
  | name x =>
    rw [resolve]
    cases constants.lookup x <;> rfl
  | _ => rfl

theorem precedence_written (constants : Bindings) (e : Expr) :
    (e.written constants).precedence = e.precedence := by
  cases e with
  | name x =>
    rw [written]
    cases constants.lookup x <;> rfl
  | _ => rfl

theorem precedence_le_level (constants : Bindings) (e : Expr) :
    e.precedence ≤ (e.written constants).level := by
  rw [← precedence_written constants e]
  exact (e.written constants).precedence_le_level

theorem tree_written (constants : Bindings) (e : Expr) :
    (e.written constants).tree = e.resolve constants := by
  induction e with
  | number => rfl
  | name x =>
    rw [written, resolve]
    cases constants.lookup x <;> rfl
  | negate e ih => rw [written, resolve, Written.tree, Written.tree_groupIf, ih]
  | binary op l r ihl ihr =>
    rw [written, resolve, Written.tree, Written.tree_groupIf, Written.tree_groupIf, ihl, ihr]
  | assign x e ih => rw [written, resolve, Written.tree, ih]

/-- An operand without a group binds as tightly as its place needs. -/
theorem le_of_lt_false {p q : Nat} (h : decide (p < q) = false) : q ≤ p :=
  Nat.not_lt.mp (of_decide_eq_false h)

theorem lt_of_le_false {p q : Nat} (h : decide (p ≤ q) = false) : q + 1 ≤ p :=
  Nat.not_le.mp (of_decide_eq_false h)

theorem clear_written (constants : Bindings) (e : Expr) : (e.written constants).Clear := by
  induction e with
  | number => trivial
  | name x =>
    rw [written]
    cases constants.lookup x <;> trivial
  | negate e ih =>
    refine ⟨Written.clear_groupIf ih, Nat.le_antisymm ?_ ?_⟩
    · exact Nat.le_trans (Written.precedence_le_level _) (Written.level_le _)
    · refine Written.le_precedence_groupIf (Nat.le_refl 3) fun h => ?_
      rw [precedence_written]
      exact le_of_lt_false h
  | binary op l r ihl ihr =>
    refine ⟨Written.clear_groupIf ihl, Written.clear_groupIf ihr, ?_, ?_⟩
    · refine Written.le_precedence_groupIf (Nat.le_of_lt op.precedence_lt) fun h => ?_
      rw [precedence_written]
      exact le_of_lt_false h
    · refine Written.le_precedence_groupIf op.precedence_lt fun h => ?_
      rw [precedence_written]
      exact lt_of_le_false h
  | assign x e ih => exact ih

/-- The code is a text of it. -/
theorem renders_code (legible : e.Legible constants) :
    (e.written constants).Renders constants e.code := by
  have space : IsBlank [' '] := isBlank_singleton rfl
  induction e with
  | number value =>
    obtain ⟨finite, unsigned⟩ := legible
    obtain ⟨n, form, hvalue, hchars⟩ := Layout.exists_chars Layout.wholeEnd_short finite
    have hv : n.value = value := by rw [hvalue, ← unsigned, ofRank_rank]
    rw [unsigned] at hchars
    rw [written, code, hchars, ← hv]
    exact .number isBlank_nil form
  | name x =>
    rw [written, code]
    cases hx : constants.lookup x with
    | none => exact .name isBlank_nil legible hx
    | some value => exact .constant isBlank_nil legible hx
  | negate e ih => exact .negate isBlank_nil (ih legible).groupIf
  | binary op l r ihl ihr =>
    rw [code, List.append_assoc]
    exact .binary (ihl legible.1).groupIf space ((ihr legible.2).groupIf.behind space)
  | assign x e ih =>
    rw [code, List.append_assoc]
    exact .assign isBlank_nil legible.1 legible.2.1 space ((ih legible.2.2).behind space)

/-- A level of a tree takes at most four rules. -/
theorem calls_written_le (constants : Bindings) (e : Expr) :
    (e.written constants).calls 1 ≤ 4 * e.height + 3 := by
  induction e with
  | number => exact Nat.le_refl 3
  | name x =>
    rw [written]
    cases constants.lookup x <;> exact Nat.le_refl 3
  | negate e ih =>
    have inner := (e.written constants).calls_groupIf (e.precedence < 3) (by decide) (Nat.le_refl 3)
      fun h => Nat.le_trans (le_of_lt_false h) (precedence_le_level constants e)
    rw [written, Written.calls, height]
    split <;> omega
  | binary op l r ihl ihr =>
    have h1 := op.precedence_pos
    have h3 := op.precedence_lt
    have left := (l.written constants).calls_groupIf (l.precedence < op.precedence) h1 (by omega)
      fun h => Nat.le_trans (le_of_lt_false h) (precedence_le_level constants l)
    have right := (r.written constants).calls_groupIf (r.precedence ≤ op.precedence)
      (p := op.precedence + 1) (by omega) h3
      fun h => Nat.le_trans (lt_of_le_false h) (precedence_le_level constants r)
    rw [written, Written.calls, height]
    omega
  | assign x e ih =>
    rw [written, Written.calls, height]
    omega

/-! ## Parsing -/

/-- The tokens of code are a tidy sum, and its tree is the one that was printed. -/
theorem tokens_code (scope : Scope) (legible : e.Legible scope.constants) :
    ∃ d : Derivation 1, scope.tokens (String.ofList e.code) = .ok d.word ∧
      d.tree = e.resolve scope.constants ∧ d.Tidy := by
  obtain ⟨d, hd⟩ := Written.derived (clear_written scope.constants e) (Nat.le_refl 1)
    (e.written scope.constants).level_pos
  have reads := (renders_code legible).reads delimits_nil
  rw [List.append_nil] at reads
  refine ⟨d, ?_, hd.tree.trans (tree_written _ e), hd.tidy⟩
  rw [hd.word]
  exact scope.tokens_of_reads reads isBlank_nil (Written.kind_ne_quit _)

theorem assigns_resolve (constants : Bindings) (e : Expr) :
    (e.resolve constants).assigns = e.assigns := by
  induction e with
  | name x =>
    rw [resolve]
    cases constants.lookup x <;> rfl
  | negate e ih => exact ih
  | binary op l r ihl ihr => rw [resolve, assigns, assigns, ihl, ihr]
  | _ => rfl

end Expr

/-- Where the tree assigns nothing no assignment sign is read. -/
theorem Derivation.no_assign_of_tree {p : Nat} {d : Derivation p} (h : d.tree.assigns = false) :
    ∀ t ∈ d.word, t.kind ≠ .assign := by
  have ne {t : Token} {k : Kind} (hk : t.kind = k) (hne : k ≠ .assign) : t.kind ≠ .assign :=
    hk ▸ hne
  induction d with
  | lone level only ih => exact ih h
  | chained left sign op isOperator right ihl ihr =>
    obtain ⟨hl, hr⟩ := Bool.or_eq_false_iff.mp h
    refine List.forall_mem_append.mpr ⟨ihl hl, List.forall_mem_cons.mpr ⟨?_, ihr hr⟩⟩
    exact ne (kind_of_operatorAt isOperator).1 Kind.noConfusion
  | number t isNumber =>
    exact List.forall_mem_cons.mpr ⟨ne isNumber Kind.noConfusion, List.forall_mem_nil _⟩
  | enclosed opening closing opens closes inner ih =>
    refine List.forall_mem_cons.mpr ⟨ne opens Kind.noConfusion, List.forall_mem_append.mpr ⟨ih h, ?_⟩⟩
    exact List.forall_mem_cons.mpr ⟨ne closes Kind.noConfusion, List.forall_mem_nil _⟩
  | signed minus isMinus operand ih =>
    exact List.forall_mem_cons.mpr ⟨ne isMinus Kind.noConfusion, ih h⟩
  | named t isName =>
    exact List.forall_mem_cons.mpr ⟨ne isName Kind.noConfusion, List.forall_mem_nil _⟩
  | assigned => cases h

/-- And no other: code that assigns nothing is a sum of its tree only. -/
theorem Expr.tree_of_tokens_code {e : Expr} (scope : Scope) (legible : e.Legible scope.constants)
    (pure : e.assigns = false) {d : Derivation 1}
    (h : scope.tokens (String.ofList e.code) = .ok d.word) : d.tree = e.resolve scope.constants := by
  obtain ⟨d', htokens, htree, -⟩ := e.tokens_code scope legible
  rw [htokens] at h
  injection h with hword
  rw [← htree]
  refine (Derivation.tree_unique hword (Derivation.no_assign_of_tree ?_)).symm
  rw [htree, Expr.assigns_resolve, pure]

end Reckoner
