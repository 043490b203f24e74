/-
  Trees as they are written, with their parentheses.

  A `Written` is a tree in which a pair of parentheses is a node (`group`). It is
  `Clear` if it has the pairs that the precedences need; more may be there.

  Proved: what is clear has a tidy derivation of the same tokens, tree and calls
  (`Written.derived`). The induction is on the written tree: each node has a
  derivation of its own level (`Written.level`), and `lone` lifts it to the lower
  levels.
-/
import Reckoner.Proofs.Derivation

namespace Reckoner

theorem Token.kind_mark (k : Kind) : (Token.mark k).kind = k := rfl

theorem Token.kind_number (value : Float) : (Token.number value).kind = .number := rfl

theorem Token.kind_identifier (x : String) : (Token.identifier x).kind = .name := rfl

/-- A tree with its parentheses. -/
inductive Written where
  | number (value : Float)
  | name (name : String)
  | negate (operand : Written)
  | binary (op : Operator) (left right : Written)
  | assign (name : String) (value : Written)
  | group (inner : Written)

namespace Written

/-- The tree without its parentheses. -/
def tree : Written → Expr
  | number value => .number value
  | name x => .name x
  | negate e => .negate e.tree
  | binary op l r => .binary op l.tree r.tree
  | assign x e => .assign x e.tree
  | group e => e.tree

/-- How tightly it binds. A pair of parentheses stands by itself. -/
def precedence : Written → Nat
  | number _ | name _ | negate _ | group _ => 3
  | binary op _ _ => op.precedence
  | assign _ _ => 0

/-- An operand of a sign, a left or a right operand binds tightly enough, or is in
    parentheses. -/
def Clear : Written → Prop
  | number _ | name _ => True
  | negate e => e.Clear ∧ e.precedence = 3
  | binary op l r =>
    l.Clear ∧ r.Clear ∧ op.precedence ≤ l.precedence ∧ op.precedence < r.precedence
  | assign _ e => e.Clear
  | group e => e.Clear

def tokens : Written → List Token
  | number value => [.number value]
  | name x => [.identifier x]
  | negate e => .mark (.operator .subtract) :: e.tokens
  | binary op l r => l.tokens ++ .mark (.operator op) :: r.tokens
  | assign x e => .identifier x :: .mark .assign :: e.tokens
  | group e => .mark .opening :: (e.tokens ++ [.mark .closing])

def isNegate : Written → Bool
  | negate _ => true
  | _ => false

/-- How many rules are active at once while a rule of level `p` reads it: a sum is
    of level 1, a product of level 2, an operand of level 3. -/
def calls : Written → (p : Nat) → Nat
  | number _, p | name _, p => 4 - p
  | negate e, p => 3 - p + if e.isNegate then e.calls 3 else e.calls 3 + 1
  | binary op l r, p =>
    op.precedence - p + max (l.calls op.precedence) (r.calls (op.precedence + 1) + 1)
  | assign _ e, p => 4 - p + e.calls 1
  | group e, p => 4 - p + e.calls 1

/-- The level of the rule that reads the top of it. -/
def level : Written → Nat
  | binary op _ _ => op.precedence
  | _ => 3

theorem precedence_le_level (w : Written) : w.precedence ≤ w.level := by
  cases w <;> simp [precedence, level]

theorem level_le (w : Written) : w.level ≤ 3 := by
  cases w with
  | binary op l r => exact Nat.le_of_lt op.precedence_lt
  | _ => exact Nat.le_refl 3

theorem level_pos (w : Written) : 1 ≤ w.level := by
  cases w with
  | binary op l r => exact op.precedence_pos
  | _ => exact Nat.succ_pos 2

/-- A rule of a lower level is active for nothing but to call the next. -/
theorem calls_of_lt {w : Written} {p : Nat} (h : p < w.level) :
    w.calls p = w.calls (p + 1) + 1 := by
  cases w <;> simp only [level, calls] at h ⊢ <;> omega

/-! ## Derivations of what is written -/

/-- The derivation reads what is written. -/
structure Derives {p : Nat} (d : Derivation p) (w : Written) : Prop where
  word : d.word = w.tokens
  tree : d.tree = w.tree
  tidy : d.Tidy
  calls : d.calls = w.calls p
  closed : w.precedence ≠ 0 → d.endsOpen = false
  signed : p = 3 → d.isSigned = w.isNegate

variable {w : Written} {p : Nat}

theorem Derives.lone {d : Derivation (p + 1)} (h : Derives d w) (level : p = 1 ∨ p = 2)
    (hp : p < w.level) : Derives (.lone level d) w := by
  refine ⟨h.word, h.tree, h.tidy, ?_, h.closed, fun h3 => by omega⟩
  rw [Derivation.calls, h.calls, calls_of_lt hp]

/-- From the level of the top down to the sum there are derivations. -/
theorem derived_below (h : ∃ d : Derivation w.level, Derives d w) (h1 : 1 ≤ p)
    (hp : p ≤ w.level) : ∃ d : Derivation p, Derives d w := by
  have hlevel := w.level_le
  obtain ⟨k, hk⟩ := Nat.exists_eq_add_of_le hp
  induction k generalizing p with
  | zero =>
    rw [Nat.add_zero] at hk
    rw [hk] at h
    exact h
  | succ k ih =>
    obtain ⟨d, hd⟩ := ih (p := p + 1) (by omega) (by omega) (by omega)
    exact ⟨.lone (by omega) d, hd.lone _ (by omega)⟩

/-- What is clear has a tidy derivation from each level that it may stand at. -/
theorem derived (clear : w.Clear) (h1 : 1 ≤ p) (hp : p ≤ w.level) :
    ∃ d : Derivation p, Derives d w := by
  refine derived_below ?_ h1 hp
  clear h1 hp
  induction w with
  | number value =>
    exact ⟨.number (.number value) (Token.kind_number value), rfl, rfl, trivial, rfl, fun _ => rfl,
      fun _ => rfl⟩
  | name x =>
    exact ⟨.named (.identifier x) (Token.kind_identifier x), rfl, rfl, trivial, rfl, fun _ => rfl,
      fun _ => rfl⟩
  | negate e ih =>
    show ∃ d : Derivation 3, Derives d (negate e)
    obtain ⟨he, hprec⟩ := clear
    have hlevel := e.precedence_le_level
    obtain ⟨d, hd⟩ := derived_below (p := 3) (ih he) (by omega) (by omega)
    refine ⟨.signed (.mark (.operator .subtract)) (Token.kind_mark _) d, ?_, ?_, hd.tidy, ?_,
      fun _ => ?_, fun _ => rfl⟩
    · rw [Derivation.word, hd.word, tokens]
    · rw [Derivation.tree, hd.tree, tree]
    · rw [Derivation.calls, hd.signed rfl, hd.calls, calls, Nat.sub_self, Nat.zero_add]
    · exact hd.closed (by omega)
  | binary op l r ihl ihr =>
    show ∃ d : Derivation op.precedence, Derives d (binary op l r)
    obtain ⟨hl, hr, hlp, hrp⟩ := clear
    have h1 := op.precedence_pos
    have h3 := op.precedence_lt
    have hll := l.precedence_le_level
    have hrl := r.precedence_le_level
    obtain ⟨dl, hdl⟩ := derived_below (ihl hl) h1 (by omega)
    obtain ⟨dr, hdr⟩ := derived_below (p := op.precedence + 1) (ihr hr) (by omega) (by omega)
    have hop : Rule.operatorAt op.precedence (Token.mark (.operator op)).kind = some op :=
      Rule.operatorAt_eq_some_iff.mpr ⟨rfl, rfl⟩
    refine ⟨.chained dl (.mark (.operator op)) op hop dr, ?_, ?_, ?_, ?_, fun _ => ?_, fun h => ?_⟩
    · rw [Derivation.word, hdl.word, hdr.word, tokens]
    · rw [Derivation.tree, hdl.tree, hdr.tree, tree]
    · exact ⟨hdl.tidy, hdl.closed (by omega), hdr.tidy⟩
    · rw [Derivation.calls, hdl.calls, hdr.calls, calls, Nat.sub_self, Nat.zero_add]
    · exact hdr.closed (by omega)
    · omega
  | assign x e ih =>
    show ∃ d : Derivation 3, Derives d (assign x e)
    obtain ⟨d, hd⟩ := derived_below (ih clear) (Nat.le_refl 1) e.level_pos
    refine ⟨.assigned (.identifier x) (.mark .assign) (Token.kind_identifier x) (Token.kind_mark _) d,
      ?_, ?_, hd.tidy, ?_, fun h => absurd rfl h, fun _ => rfl⟩
    · rw [Derivation.word, hd.word, tokens]
    · rw [Derivation.tree, hd.tree, tree]
      rfl
    · rw [Derivation.calls, hd.calls, calls, Nat.add_comm]
  | group e ih =>
    show ∃ d : Derivation 3, Derives d (group e)
    obtain ⟨d, hd⟩ := derived_below (ih clear) (Nat.le_refl 1) e.level_pos
    refine ⟨.enclosed (.mark .opening) (.mark .closing) (Token.kind_mark _) (Token.kind_mark _) d,
      ?_, ?_, hd.tidy, ?_, fun _ => rfl, fun _ => rfl⟩
    · rw [Derivation.word, hd.word, tokens]
    · rw [Derivation.tree, hd.tree, tree]
    · rw [Derivation.calls, hd.calls, calls, Nat.add_comm]

end Written

end Reckoner
