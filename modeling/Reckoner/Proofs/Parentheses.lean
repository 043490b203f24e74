/-
  Code has no pair of parentheses too many.

  `Expr.pairs` counts the pairs that precedence asks for, and code has just so many. A
  derivation of a tree takes at least as many opening tokens, and one more if the tree
  binds less tightly than the level asks for (`pairs_le_openings`): no rule but the one for
  parentheses leads from a level to a lower one. A text gives no more opening tokens than
  it has opening characters, so with any pair left out it has too few for the tree.

  `Thins` leaves out pairs of a text. It is by the nesting of the text, so what is left out
  is always an opening character and the closing one that belongs to it.

  Proved: `fewest_parentheses`, for all depths and draws.
-/
import Reckoner.Proofs.Specimens

namespace Reckoner

/-! ## Leaving out pairs -/

/-- No parenthesis is in the text. -/
def IsPlain (cs : List Char) : Prop := '(' ∉ cs ∧ ')' ∉ cs

instance : DecidablePred IsPlain := fun _ => inferInstanceAs (Decidable (_ ∧ _))

/-- The second text is the first with some pairs of parentheses left out, or none. -/
inductive Thins : List Char → List Char → Prop where
  | nil : Thins [] []
  | char {c : Char} {cs ds : List Char} (noOpening : c ≠ '(') (noClosing : c ≠ ')')
      (more : Thins cs ds) : Thins (c :: cs) (c :: ds)
  | keep {inner inner' cs ds : List Char} (inside : Thins inner inner') (more : Thins cs ds) :
      Thins ('(' :: (inner ++ ')' :: cs)) ('(' :: (inner' ++ ')' :: ds))
  | drop {inner inner' cs ds : List Char} (inside : Thins inner inner') (more : Thins cs ds) :
      Thins ('(' :: (inner ++ ')' :: cs)) (inner' ++ ds)

namespace Thins

variable {cs ds cs' ds' : List Char}

theorem of_plain (plain : IsPlain cs) : Thins cs cs := by
  induction cs with
  | nil => exact .nil
  | cons c cs ih =>
    obtain ⟨noOpening, more⟩ := not_or.mp (mt List.mem_cons.mpr plain.1)
    obtain ⟨noClosing, more'⟩ := not_or.mp (mt List.mem_cons.mpr plain.2)
    exact .char (Ne.symm noOpening) (Ne.symm noClosing) (ih ⟨more, more'⟩)

theorem append (h : Thins cs ds) (h' : Thins cs' ds') : Thins (cs ++ cs') (ds ++ ds') := by
  induction h with
  | nil => exact h'
  | char noOpening noClosing _ ih => exact .char noOpening noClosing ih
  | keep inside _ _ ih =>
    rw [List.cons_append, List.append_assoc, List.cons_append, List.cons_append, List.append_assoc,
      List.cons_append]
    exact .keep inside ih
  | drop inside _ _ ih =>
    rw [List.cons_append, List.append_assoc, List.cons_append, List.append_assoc]
    exact .drop inside ih

/-- Where a pair is left out an opening character is. -/
theorem eq_or_count_lt (h : Thins cs ds) :
    ds = cs ∨ ds.count '(' < cs.count '(' := by
  have le {cs ds : List Char} (h : ds = cs ∨ ds.count '(' < cs.count '(') :
      ds.count '(' ≤ cs.count '(' := by
    rcases h with rfl | h
    · exact Nat.le_refl _
    · exact Nat.le_of_lt h
  induction h with
  | nil => exact .inl rfl
  | @char c cs ds noOpening _ more ih =>
    rcases ih with rfl | ih
    · exact .inl rfl
    · rw [List.count_cons_of_ne noOpening, List.count_cons_of_ne noOpening]
      exact .inr ih
  | @keep inner inner' cs ds inside more ihi ihm =>
    have hi := le ihi
    have hm := le ihm
    rcases ihi with rfl | ihi
    · rcases ihm with rfl | ihm
      · exact .inl rfl
      · simp only [List.count_cons, List.count_append]
        omega
    · simp only [List.count_cons, List.count_append]
      omega
  | drop inside more ihi ihm =>
    have hi := le ihi
    have hm := le ihm
    refine .inr ?_
    rw [List.count_cons_self, List.count_append, List.count_append, List.count_cons_of_ne (by decide)]
    omega

end Thins

/-! ## Opening tokens -/

/-- How many of the tokens open a parenthesis. -/
def openings (ts : List Token) : Nat := ts.countP fun t => t.kind = .opening

theorem openings_append (ts us : List Token) : openings (ts ++ us) = openings ts + openings us :=
  List.countP_append

theorem openings_cons_of_eq {t : Token} (ts : List Token) (h : t.kind = .opening) :
    openings (t :: ts) = openings ts + 1 := List.countP_cons_of_pos (decide_eq_true h)

theorem openings_cons_of_ne {t : Token} (ts : List Token) (h : t.kind ≠ .opening) :
    openings (t :: ts) = openings ts :=
  List.countP_cons_of_neg fun hk => h (of_decide_eq_true hk)

/-- Each opening token is an opening character of the text. -/
theorem Lexes.openings_le {constants : Bindings} {u left : List Char} {t : Token}
    (h : Lexes constants u (.ok t) left) : openings [t] + left.count '(' ≤ u.count '(' := by
  by_cases hk : t.kind = .opening
  · obtain rfl : u = '(' :: left := by
      cases h with
      | @symbol k c left isSymbol =>
        obtain rfl : k = .opening := hk
        injection isSymbol with hc
        rw [hc]
      | _ => cases hk
    rw [openings_cons_of_eq [] hk, List.count_cons_self, openings, List.countP_nil]
    omega
  · obtain ⟨lexeme, rfl⟩ := h.front
    rw [openings_cons_of_ne [] hk, openings, List.countP_nil, List.count_append]
    omega

theorem Script.openings_tokens_le (s : Script) : openings s.tokens.1 ≤ s.rest.count '(' := by
  change openings (Supply.tokens s).1 ≤ _
  fun_induction Supply.tokens s with
  | case1 => exact Nat.zero_le _
  | case2 => exact Nat.zero_le _
  | case3 s t s' hnext hquit ts f? htokens ih =>
    rw [htokens] at ih
    have hcount := (Script.lexes_of_next (r := .ok t) hnext).1.openings_le
    have hblank := ((List.dropWhile_suffix (l := s.rest) Text.isBlank).sublist).count_le '('
    have hcons := openings_append [t] ts
    rw [List.singleton_append] at hcons
    dsimp only at ih ⊢
    omega

theorem Scope.openings_tokens_le {scope : Scope} {code : String} {ts : List Token}
    (h : scope.tokens code = .ok ts) : openings ts ≤ code.toList.count '(' := by
  have hle := (Script.ofText scope.constants code.toList).openings_tokens_le
  rw [Scope.tokens] at h
  generalize (Script.ofText scope.constants code.toList).tokens = found at h hle
  obtain ⟨tokens, _ | f⟩ := found
  · injection h with h
    exact h ▸ hle
  · cases h

/-! ## The pairs that precedence asks for -/

namespace Expr

/-- How many pairs of parentheses the code has. -/
def pairs : Expr → Nat
  | number _ | name _ => 0
  | negate e => e.pairs + if e.precedence < 3 then 1 else 0
  | binary op l r =>
    l.pairs + (if l.precedence < op.precedence then 1 else 0) +
      (r.pairs + if r.precedence ≤ op.precedence then 1 else 0)
  | assign _ e => e.pairs

theorem pairs_resolve (constants : Bindings) (e : Expr) : (e.resolve constants).pairs = e.pairs := by
  induction e with
  | number => rfl
  | name x =>
    rw [resolve]
    cases constants.lookup x <;> rfl
  | negate e ih => rw [resolve, pairs, pairs, ih, precedence_resolve]
  | binary op l r ihl ihr =>
    rw [resolve, pairs, pairs, ihl, ihr, precedence_resolve, precedence_resolve]
  | assign x e ih => rw [resolve, pairs, pairs, ih]

theorem count_enclosedIf (needed : Prop) [Decidable needed] (cs : List Char) :
    (enclosedIf needed cs).count '(' = cs.count '(' + if needed then 1 else 0 := by
  by_cases h : needed <;> simp [enclosedIf, h, List.count_append]

theorem isPlain_identifier {x : String} (h : IsIdentifier x) : IsPlain x.toList := by
  obtain ⟨c, w, hx, letter, -, run⟩ := h
  rw [hx]
  refine ⟨fun hmem => ?_, fun hmem => ?_⟩ <;>
  · rcases List.mem_cons.mp hmem with rfl | hw
    · cases letter
    · cases run _ hw

theorem isPlain_numeral {n : Numeral} (h : n.WellFormed) : IsPlain n.text := by
  refine ⟨fun hmem => ?_, fun hmem => ?_⟩ <;>
  · rcases h.mem_text hmem with digit | mark
    · cases digit
    · exact absurd mark (by decide)

theorem isPlain_number {value : Float} (h : value.isFinite = true ∧ Binary64.negative value = false) :
    IsPlain (Layout.short.chars value) := by
  obtain ⟨n, form, -, hchars⟩ := Layout.exists_chars Layout.wholeEnd_short h.1
  rw [h.2] at hchars
  rw [hchars]
  exact isPlain_numeral form

theorem thins_enclosedIf {cs : List Char} (needed : Bool) (h : Thins cs cs) :
    Thins (enclosedIf needed cs) (enclosedIf needed cs) := by
  cases needed with
  | false => exact h
  | true => exact .keep h .nil

/-- In code all parentheses match. -/
theorem thins_code {constants : Bindings} {e : Expr} (legible : e.Legible constants) :
    Thins e.code e.code := by
  induction e with
  | number value => exact .of_plain (isPlain_number legible)
  | name x => exact .of_plain (isPlain_identifier legible)
  | negate e ih => exact .char (by decide) (by decide) (thins_enclosedIf _ (ih legible))
  | binary op l r ihl ihr =>
    have hop : IsPlain [' ', op.symbol, ' '] := by cases op <;> decide
    exact ((thins_enclosedIf _ (ihl legible.1)).append (.of_plain hop)).append
      (thins_enclosedIf _ (ihr legible.2))
  | assign x e ih =>
    have hassign : IsPlain [' ', '=', ' '] := by decide
    exact ((Thins.of_plain (isPlain_identifier legible.1)).append (.of_plain hassign)).append
      (ih legible.2.2)

/-- Code has just so many. -/
theorem count_code {constants : Bindings} {e : Expr} (legible : e.Legible constants) :
    e.code.count '(' = e.pairs := by
  induction e with
  | number value => exact List.count_eq_zero.mpr (isPlain_number legible).1
  | name x => exact List.count_eq_zero.mpr (isPlain_identifier legible).1
  | negate e ih => rw [code, List.count_cons_of_ne (by decide), count_enclosedIf, ih legible, pairs]
  | binary op l r ihl ihr =>
    have hop : [' ', op.symbol, ' '].count '(' = 0 := by cases op <;> rfl
    rw [code, List.count_append, List.count_append, hop, count_enclosedIf, count_enclosedIf,
      ihl legible.1, ihr legible.2, pairs, Nat.add_zero]
  | assign x e ih =>
    have hassign : [' ', '=', ' '].count '(' = 0 := rfl
    rw [code, List.count_append, List.count_append, hassign, ih legible.2.2, pairs,
      List.count_eq_zero.mpr (isPlain_identifier legible.1).1, Nat.zero_add]

end Expr

/-- A derivation of a tree takes an opening token for each pair, and one more where the
    tree binds less tightly than its level asks for. -/
theorem Derivation.pairs_le_openings {p : Nat} {d : Derivation p} (h : d.tree.assigns = false) :
    d.tree.pairs + (if d.tree.precedence < p then 1 else 0) ≤ openings d.word := by
  induction d with
  | @lone p level only ih =>
    have inner := ih h
    show only.tree.pairs + (if only.tree.precedence < p then 1 else 0) ≤ openings only.word
    split at inner <;> split <;> omega
  | @chained p left sign op isOperator right ihl ihr =>
    obtain ⟨hl, hr⟩ := Bool.or_eq_false_iff.mp h
    obtain ⟨hsign, rfl⟩ := kind_of_operatorAt isOperator
    have inner := ihl hl
    have inner' := ihr hr
    simp only [Nat.lt_succ_iff] at inner'
    rw [word, tree, openings_append, openings_cons_of_ne _ (by rw [hsign]; exact Kind.noConfusion),
      Expr.pairs, Expr.precedence, if_neg (Nat.lt_irrefl _)]
    omega
  | number t isNumber => exact Nat.zero_le _
  | enclosed opening closing opens closes inner ih =>
    have hinner := ih h
    rw [word, tree, openings_cons_of_eq _ opens, openings_append]
    split <;> omega
  | signed minus isMinus operand ih =>
    have inner := ih h
    rw [word, tree, openings_cons_of_ne _ (by rw [isMinus]; exact Kind.noConfusion), Expr.pairs,
      Expr.precedence, if_neg (Nat.lt_irrefl 3)]
    exact inner
  | named t isName => exact Nat.zero_le _
  | assigned => cases h

/-- Code that assigns nothing needs all its parentheses: no sum of its tree can be read where
    one of its pairs is left out. -/
theorem Expr.needs_pairs {e : Expr} (scope : Scope) (legible : e.Legible scope.constants)
    (pure : e.assigns = false) {thinned : List Char} (thins : Thins e.code thinned)
    (fewer : thinned ≠ e.code) {d : Derivation 1}
    (h : scope.tokens (String.ofList thinned) = .ok d.word) :
    d.tree ≠ e.resolve scope.constants := by
  intro htree
  have needed : e.pairs ≤ openings d.word := by
    have least := Derivation.pairs_le_openings (d := d) (by rw [htree, assigns_resolve, pure])
    rw [htree, pairs_resolve] at least
    exact Nat.le_trans (Nat.le_add_right _ _) least
  have available : openings d.word ≤ thinned.count '(' := by
    have := Scope.openings_tokens_le h
    rwa [String.toList_ofList] at this
  have lost : thinned.count '(' < e.code.count '(' := thins.eq_or_count_lt.resolve_left fewer
  rw [count_code legible] at lost
  omega

namespace Specimen

/-- **A specimen has no parentheses to spare.** All parentheses of its code match, and
    whatever pairs are left out, one or more, the rest has no reading as the tree that was
    drawn. -/
theorem fewest_parentheses (depth : Nat) (draws : Draws) :
    let code := (generate depth draws).1.code
    Thins code code ∧
      ∀ thinned, Thins code thinned → thinned ≠ code → ∀ d : Derivation 1,
        (Scope.ofConstants .builtin).tokens (String.ofList thinned) = .ok d.word →
        d.tree ≠ (grow depth draws).1.resolve .builtin := by
  have drawn := drawn_grow depth draws
  rw [generate_eq]
  refine ⟨Expr.thins_code drawn.legible, fun thinned thins fewer d h => ?_⟩
  exact Expr.needs_pairs (.ofConstants .builtin) drawn.legible drawn.assigns thins fewer h

/-- Without its parentheses a sum is no operand of a product. -/
theorem fewest_parentheses_of_product :
    let draws : Draws := ⟨[0.5, 0.5, 0.5, 0.5, 0.125], [2, 0, 1, 2, 3]⟩
    (generate 2 draws).1.code = "(1 + 2) * 7".toList ∧
      Thins "(1 + 2) * 7".toList "1 + 2 * 7".toList ∧
      ∃ d : Derivation 1, (Scope.ofConstants .builtin).tokens "1 + 2 * 7" = .ok d.word ∧
        d.tree ≠ (grow 2 draws).1.resolve .builtin := by
  intro draws
  have hcode : (generate 2 draws).1.code = "(1 + 2) * 7".toList := by decide +kernel
  have sum : Thins "1 + 2".toList "1 + 2".toList := .of_plain (by decide)
  have product : Thins " * 7".toList " * 7".toList := .of_plain (by decide)
  have thins : Thins "(1 + 2) * 7".toList "1 + 2 * 7".toList := .drop sum product
  let e : Expr := .binary .add (.number 1) (.binary .multiply (.number 2) (.number 7))
  have he : e.code = "1 + 2 * 7".toList := by decide +kernel
  have legible : e.Legible .builtin := by
    refine ⟨?_, ?_, ?_⟩ <;> exact ⟨by decide +kernel, by decide +kernel⟩
  obtain ⟨d, htokens, -⟩ := Expr.tokens_code (.ofConstants .builtin) legible
  refine ⟨hcode, thins, d, ?_, (fewest_parentheses 2 draws).2 e.code ?_ ?_ d htokens⟩
  · rw [← htokens, he, String.ofList_toList]
  · rw [hcode, he]
    exact thins
  · rw [hcode, he]
    decide

end Specimen

end Reckoner
