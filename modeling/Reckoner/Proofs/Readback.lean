/-
  A result that was shown can be typed in again.

  A finite double is shown as a sign or none and a numeral of its rank. To the
  reader that is a number, or a number behind one minus sign, and nothing follows
  it; so it is one statement with one value. The number has no sign of its own, and
  negation gives it back bit for bit.

  Proved: `evaluate_amount`, for every finite double in every scope. Two doubles
  that are shown alike are therefore the same.
-/
import Reckoner.Proofs.Evaluation
import Reckoner.Proofs.Layouts

namespace Reckoner

open State Binary64

/-! ## The last statement -/

/-- A statement needs no `;` at the end of the text. -/
theorem evaluate_of_last {constants : Bindings} {limit : Limit} {w : Written} {cs : List Char}
    (rendered : w.Renders constants cs) (clear : w.Clear) (room : w.calls 1 ≤ limit.depth)
    {s : Script} (hconstants : s.constants = constants) (hrest : s.rest = cs) (vars : Bindings) :
    ((ofSupply s vars).evaluate limit).outcome =
      (w.tree.eval vars).andThen fun v b => .ok [v] b := by
  have reads := rendered.reads delimits_nil
  rw [List.append_nil] at reads
  obtain ⟨s₁, -, hrest₁, taken⟩ := reads s vars hconstants hrest
  obtain ⟨supply, ha⟩ := ahead_blank isBlank_nil hrest₁ vars
  obtain ⟨o, agrees, hstatement⟩ := statement_of_written clear room taken ha
    (fun _ => Kind.noConfusion) Kind.noConfusion
  rw [evaluate_eq, hstatement]
  change Agrees _ _ (w.tree.eval vars) at agrees
  generalize w.tree.eval vars = walk at agrees ⊢
  cases agrees with
  | fault => rfl
  | @ok v s' place =>
    rw [Outcome.andThen_ok, Outcome.andThen_ok]
    dsimp only
    rw [evaluate_quit (place.trans ha) rfl]
    rfl

/-! ## What is shown -/

/-- A finite double is written as a number, or as a number behind a minus sign, and
    the walk over that gives it back. -/
theorem exists_written {l : Layout} {places : Option Nat} (constants : Bindings)
    (hend : l.wholeEnd = Numeral.pointed (places.map Layout.zeros)) {v : Float}
    (finite : v.isFinite = true) :
    ∃ w : Written, w.Renders constants (l.chars v) ∧ w.Clear ∧ w.calls 1 ≤ 4 ∧
      ∀ vars, w.tree.eval vars = .ok v vars := by
  obtain ⟨n, form, hvalue, hchars⟩ := Layout.exists_chars hend finite
  have number : Written.Renders constants (.number n.value) n.text := .number isBlank_nil form
  rw [hchars]
  cases hsign : negative v with
  | false =>
    have hv : n.value = v := by rw [hvalue, ← hsign, ofRank_rank]
    refine ⟨.number n.value, number, trivial, Nat.le_succ 3, fun vars => ?_⟩
    rw [Written.tree, Expr.eval, hv]
  | true =>
    have hv : -n.value = v := by
      have hneg := neg_eq_ofRank finite
      rw [hsign, Bool.not_true, ← hvalue] at hneg
      rw [← hneg, neg_neg]
    refine ⟨.negate (.number n.value), .negate isBlank_nil number, ⟨trivial, rfl⟩, Nat.le_refl 4,
      fun vars => ?_⟩
    rw [Written.tree, Written.tree, Expr.eval, Expr.eval, Outcome.andThen_ok, hv]

/-- **What is shown is read.** The text of a finite double is one statement, whose
    value is that double in every bit, the sign of zero among them, and which
    changes no variable. So no two finite doubles have the same text. A sign and a
    number take four active rules, and any limit that has room for them will do. -/
theorem evaluate_amount (limit : Limit) (room : 4 ≤ limit.depth) (scope : Scope) (v : Float)
    (finite : v.isFinite = true) :
    scope.evaluate (amount v) limit = (.ok [v], scope) ∧
      ∀ w : Float, w.isFinite = true → amount w = amount v → w = v := by
  have reads (u : Float) (hu : u.isFinite = true) :
      scope.evaluate (amount u) limit = (.ok [u], scope) := by
    obtain ⟨w, rendered, clear, calls, hvalue⟩ :=
      exists_written scope.constants Layout.wholeEnd_short hu
    have h : ((scope.start (amount u)).evaluate limit).outcome = .ok [u] scope.vars := by
      refine (evaluate_of_last rendered clear (Nat.le_trans calls room) rfl ?_ scope.vars).trans ?_
      · exact String.toList_ofList
      · rw [hvalue, Outcome.andThen_ok]
    rw [Scope.evaluate_eq_outcome, h]
    rfl
  refine ⟨reads v finite, fun w hw same => ?_⟩
  have h := reads w hw
  rw [same, reads v finite] at h
  injection h with h
  injection h with h
  injection h with h
  exact h.symm

/-- The least double below zero. -/
theorem evaluate_least_negative :
    amount (ofRank true 1) = "-5e-324" ∧
      (Scope.ofConstants .builtin).evaluate "-5e-324" =
        (.ok [ofRank true 1], .ofConstants .builtin) ∧
      ∀ w : Float, w.isFinite = true → amount w = "-5e-324" → w = ofRank true 1 := by
  have htext : amount (ofRank true 1) = "-5e-324" := by decide +kernel
  have h := evaluate_amount nestingLimit (by decide) (.ofConstants .builtin) (ofRank true 1)
    (by decide +kernel)
  rw [htext] at h
  exact ⟨htext, h⟩

end Reckoner
