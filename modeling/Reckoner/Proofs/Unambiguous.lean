/-
  Tokens have one tidy reading.

  The rules leave open how far an assignment goes, and nothing else. Two tidy derivations
  of a level, each in front of a token that does not go on with it (`Fits`), therefore read
  the same tokens with the same tree, if what is ahead of them is the same (`unique`).

  The first token of an operand tells its rule. A sum or a product is its first operand and
  the links behind it, each an operator with an operand (`Link`), and two of them are
  compared link by link. The induction is on how many tokens are read.

  Proved: `tree_unique`, for tokens without an assignment sign.
-/
import Reckoner.Proofs.Derivation

namespace Reckoner.Derivation

open Rule (operatorAt)

variable {p n : Nat} {t t' : Token} {rest rest' : List Token}

/-! ## Links -/

/-- An operator of a level, and the operand behind it. -/
structure Link (p : Nat) where
  sign : Token
  op : Operator
  isOperator : operatorAt p sign.kind = some op
  right : Derivation (p + 1)

namespace Link

def word (k : Link p) : List Token := k.sign :: k.right.word

/-- A derivation with a link behind it. -/
def behind (left : Derivation p) (k : Link p) : Derivation p :=
  .chained left k.sign k.op k.isOperator k.right

end Link

/-- A derivation with links behind it. -/
def linked (left : Derivation p) (links : List (Link p)) : Derivation p :=
  links.foldl Link.behind left

theorem linked_cons (left : Derivation p) (k : Link p) (links : List (Link p)) :
    linked left (k :: links) = linked (k.behind left) links := rfl

/-- Each sum and each product is an operand with links behind it. -/
theorem exists_linked (level : p = 1 ∨ p = 2) (d : Derivation p) :
    ∃ first links, d = linked (.lone level first) links := by
  induction d with
  | lone _ only => exact ⟨only, [], rfl⟩
  | chained left sign op isOperator right ihl _ =>
    obtain ⟨first, links, rfl⟩ := ihl level
    refine ⟨first, links ++ [⟨sign, op, isOperator, right⟩], ?_⟩
    rw [linked, linked, List.foldl_append]
    rfl
  | _ => omega

theorem word_linked (left : Derivation p) (links : List (Link p)) :
    (linked left links).word = left.word ++ links.flatMap Link.word := by
  induction links generalizing left with
  | nil => exact (List.append_nil _).symm
  | cons k links ih =>
    rw [linked_cons, ih, Link.behind, word, List.flatMap_cons, Link.word, List.append_assoc]

theorem tidy_of_linked {left : Derivation p} {links : List (Link p)} (h : (linked left links).Tidy) :
    left.Tidy := by
  induction links generalizing left with
  | nil => exact h
  | cons k links ih =>
    rw [linked_cons] at h
    exact (ih h).1

/-! ## Derivations in front of a token -/

/-- A tidy derivation, in front of a token that does not go on with it. -/
structure Fits (level : Nat) (d : Derivation p) (t : Token) : Prop extends Settled level d t where
  tidy : d.Tidy

/-- What stands in front of links fits before the first of them. -/
theorem Fits.front {left : Derivation p} {links : List (Link p)} (h : (linked left links).Fits p t)
    (rest : List Token) :
    ∃ u us, links.flatMap Link.word ++ t :: rest = u :: us ∧ left.Fits (p + 1) u := by
  cases links with
  | nil => exact ⟨t, rest, rfl, h.toSettled.mono (Nat.le_succ p), h.tidy⟩
  | cons k links =>
    rw [linked_cons] at h
    obtain ⟨tidy, closed, -⟩ := tidy_of_linked h.tidy
    obtain ⟨isOperator, hp⟩ := kind_of_operatorAt k.isOperator
    refine ⟨k.sign, _, rfl, ⟨⟨fun _ _ => closed, fun h => ?_⟩, fun op h => ?_⟩, tidy⟩
    · cases isOperator.symm.trans h
    · cases isOperator.symm.trans h
      omega

/-- Two derivations with the same tokens and the same tree. -/
structure Same (d d' : Derivation p) : Prop where
  word : d.word = d'.word
  tree : d.tree = d'.tree

/-- Up to so many tokens, what is ahead leaves one reading of a level. -/
def UniqueAt (p n : Nat) : Prop :=
  ∀ (d d' : Derivation p) (t t' : Token) (rest rest' : List Token), d.word.length ≤ n →
    d.Fits p t → d'.Fits p t' → d.word ++ t :: rest = d'.word ++ t' :: rest' → Same d d'

/-! ## Chains -/

theorem linked_unique (unique : UniqueAt (p + 1) n) {left left' : Derivation p}
    {links links' : List (Link p)} (same : Same left left')
    (short : (links.flatMap Link.word).length ≤ n) (fits : (linked left links).Fits p t)
    (fits' : (linked left' links').Fits p t')
    (h : links.flatMap Link.word ++ t :: rest = links'.flatMap Link.word ++ t' :: rest') :
    Same (linked left links) (linked left' links') := by
  -- No sign of a link stops a chain of the level.
  have stops {q : Derivation p} {u : Token} (k : Link p) (fits : q.Fits p u) : k.sign ≠ u := by
    rintro rfl
    obtain ⟨isOperator, hp⟩ := kind_of_operatorAt k.isOperator
    exact absurd hp (Nat.ne_of_lt (fits.lower k.op isOperator))
  induction links generalizing left left' links' with
  | nil =>
    cases links' with
    | nil => exact same
    | cons k' links' =>
      injection h with ht
      exact absurd ht.symm (stops k' fits)
  | cons k links ih =>
    cases links' with
    | nil =>
      injection h with ht
      exact absurd ht (stops k fits')
    | cons k' links' =>
      rw [linked_cons] at fits fits' ⊢
      rw [linked_cons]
      rw [List.flatMap_cons, List.flatMap_cons, Link.word, Link.word, List.append_assoc,
        List.append_assoc] at h
      injection h with hsign h
      rw [List.flatMap_cons, Link.word, List.length_append, List.length_cons] at short
      have hop : k.op = k'.op := by
        have := k.isOperator
        rw [hsign, k'.isOperator] at this
        injection this with this
        exact this.symm
      obtain ⟨u, us, hu, front⟩ := fits.front rest
      obtain ⟨u', us', hu', front'⟩ := fits'.front rest'
      have hright : Same k.right k'.right := by
        refine unique _ _ u u' us us' (by omega) ⟨front.toSettled.congr rfl rfl, front.tidy.2.2⟩
          ⟨front'.toSettled.congr rfl rfl, front'.tidy.2.2⟩ ?_
        rw [← hu, ← hu']
        exact h
      rw [hright.word] at h
      refine ih ⟨?_, ?_⟩ (by omega) fits fits' (List.append_cancel_left h)
      · rw [Link.behind, Link.behind, word, word, same.word, hsign, hright.word]
      · rw [Link.behind, Link.behind, tree, tree, same.tree, hop, hright.tree]

/-- A chain has one reading, if what it chains has. -/
theorem uniqueAt_chain (level : p = 1 ∨ p = 2) (unique : UniqueAt (p + 1) n) : UniqueAt p n := by
  intro d d' t t' rest rest' short fits fits' h
  obtain ⟨first, links, rfl⟩ := exists_linked level d
  obtain ⟨first', links', rfl⟩ := exists_linked level d'
  rw [word_linked, List.length_append] at short
  rw [word_linked, word_linked, List.append_assoc, List.append_assoc] at h
  obtain ⟨u, us, hu, front⟩ := fits.front rest
  obtain ⟨u', us', hu', front'⟩ := fits'.front rest'
  have hfirst : Same first first' := by
    refine unique _ _ u u' us us' (by simp only [word] at short; omega)
      ⟨front.toSettled.congr rfl rfl, front.tidy⟩ ⟨front'.toSettled.congr rfl rfl, front'.tidy⟩ ?_
    rw [← hu, ← hu']
    exact h
  simp only [word, hfirst.word] at h
  have same : Same (.lone level first) (.lone level first') := ⟨hfirst.word, hfirst.tree⟩
  exact linked_unique unique same (by omega) fits fits' (List.append_cancel_left h)

/-! ## Operands -/

/-- The rules an operand can begin with. -/
theorem operand_cases {d : Derivation 3} {u : Token} {us more : List Token}
    (h : d.word ++ more = u :: us) :
    (∃ isNumber, d = .number u isNumber) ∨
      (∃ closing opens closes inner, d = .enclosed u closing opens closes inner) ∨
      (∃ isMinus operand, d = .signed u isMinus operand) ∨ (∃ isName, d = .named u isName) ∨
      ∃ equals isName isAssign value, d = .assigned u equals isName isAssign value := by
  cases d with
  | lone level => omega
  | chained left sign op isOperator =>
    exact absurd (kind_of_operatorAt isOperator).2 (Nat.ne_of_lt op.precedence_lt)
  | number t isNumber =>
    injection h with ht
    exact .inl (ht ▸ ⟨isNumber, rfl⟩)
  | enclosed opening closing opens closes inner =>
    injection h with ht
    exact .inr (.inl (ht ▸ ⟨closing, opens, closes, inner, rfl⟩))
  | signed minus isMinus operand =>
    injection h with ht
    exact .inr (.inr (.inl (ht ▸ ⟨isMinus, operand, rfl⟩)))
  | named t isName =>
    injection h with ht
    exact .inr (.inr (.inr (.inl (ht ▸ ⟨isName, rfl⟩))))
  | assigned target equals isName isAssign value =>
    injection h with ht
    exact .inr (.inr (.inr (.inr (ht ▸ ⟨equals, isName, isAssign, value, rfl⟩))))

/-- Nothing goes on with the right side of an assignment that does not go on with the
    assignment. -/
theorem Fits.value {target equals : Token} {isName : target.kind = .name}
    {isAssign : equals.kind = .assign} {value : Derivation 1}
    (h : (assigned target equals isName isAssign value).Fits 3 t) : value.Fits 1 t := by
  have notOperator (op : Operator) (hk : t.kind = .operator op) : False :=
    absurd (h.open_of_operator op hk) Bool.noConfusion
  exact ⟨⟨⟨fun op hk => (notOperator op hk).elim, h.name_of_assign⟩,
    fun op hk => (notOperator op hk).elim⟩, h.tidy⟩

theorem Fits.not_assign {t₀ : Token} {isName : t₀.kind = .name} (h : (named t₀ isName).Fits 3 t) :
    t.kind ≠ .assign := fun hk => absurd (h.name_of_assign hk) Bool.noConfusion

theorem Fits.operand {minus : Token} {isMinus : minus.kind = .operator .subtract}
    {operand : Derivation 3} (h : (signed minus isMinus operand).Fits 3 t) : operand.Fits 3 t :=
  ⟨h.toSettled.congr rfl rfl, h.tidy⟩

/-- Nothing goes on at a closing parenthesis. -/
theorem Fits.inner {opening closing : Token} {opens : opening.kind = .opening}
    {closes : closing.kind = .closing} {inner : Derivation 1}
    (h : (enclosed opening closing opens closes inner).Fits 3 t) : inner.Fits 1 closing :=
  ⟨settled_of_ne (fun op => by rw [closes]; exact Kind.noConfusion)
    (by rw [closes]; exact Kind.noConfusion), h.tidy⟩

theorem enclosed_unique (unique : UniqueAt 1 n) {u closing closing' : Token}
    {opens opens' : u.kind = .opening} {closes : closing.kind = .closing}
    {closes' : closing'.kind = .closing} {inner inner' : Derivation 1}
    (short : (enclosed u closing opens closes inner).word.length ≤ n + 1)
    (fits : (enclosed u closing opens closes inner).Fits 3 t)
    (fits' : (enclosed u closing' opens' closes' inner').Fits 3 t')
    (h : (enclosed u closing opens closes inner).word ++ t :: rest =
      (enclosed u closing' opens' closes' inner').word ++ t' :: rest') :
    Same (enclosed u closing opens closes inner) (enclosed u closing' opens' closes' inner') := by
  simp only [word, List.cons_append, List.append_assoc, List.nil_append, List.cons.injEq,
    List.length_cons, List.length_append, true_and] at h short
  have same := unique inner inner' closing closing' _ _ (by omega) fits.inner fits'.inner h
  rw [same.word] at h
  injection List.append_cancel_left h with hclosing
  refine ⟨?_, same.tree⟩
  rw [word, word, same.word, hclosing]

theorem assigned_unique (unique : UniqueAt 1 n) {u equals equals' : Token}
    {isName isName' : u.kind = .name} {isAssign : equals.kind = .assign}
    {isAssign' : equals'.kind = .assign} {value value' : Derivation 1}
    (short : (assigned u equals isName isAssign value).word.length ≤ n + 1)
    (fits : (assigned u equals isName isAssign value).Fits 3 t)
    (fits' : (assigned u equals' isName' isAssign' value').Fits 3 t')
    (h : (assigned u equals isName isAssign value).word ++ t :: rest =
      (assigned u equals' isName' isAssign' value').word ++ t' :: rest') :
    Same (assigned u equals isName isAssign value) (assigned u equals' isName' isAssign' value') := by
  simp only [word, List.cons_append, List.cons.injEq, List.length_cons, true_and] at h short
  obtain ⟨hequals, h⟩ := h
  have same := unique value value' t t' rest rest' (by omega) fits.value fits'.value h
  refine ⟨?_, congrArg (Expr.assign u.name) same.tree⟩
  rw [word, word, hequals, same.word]

theorem uniqueAt_operand (unique : UniqueAt 1 n) (unique' : UniqueAt 3 n) : UniqueAt 3 (n + 1) := by
  intro d d' t t' rest rest' short fits fits' h
  obtain ⟨u, us, hu⟩ := List.exists_cons_of_ne_nil d.word_ne_nil
  have ahead : d.word ++ t :: rest = u :: (us ++ t :: rest) := by rw [hu, List.cons_append]
  -- The first token, which both have, leaves one rule, or two where it is a name.
  have begins' := operand_cases (h.symm.trans ahead)
  obtain ⟨isNumber, rfl⟩ | ⟨closing, opens, closes, inner, rfl⟩ | ⟨isMinus, operand, rfl⟩ |
    ⟨isName, rfl⟩ | ⟨equals, isName, isAssign, value, rfl⟩ := operand_cases ahead
  · obtain ⟨_, rfl⟩ | ⟨_, k, _⟩ | ⟨k, _⟩ | ⟨k, _⟩ | ⟨_, k, _⟩ := begins'
    any_goals exact Kind.noConfusion (isNumber.symm.trans k)
    exact ⟨rfl, rfl⟩
  · obtain ⟨k, _⟩ | ⟨closing', k, closes', inner', rfl⟩ | ⟨k, _⟩ | ⟨k, _⟩ | ⟨_, k, _⟩ := begins'
    any_goals exact Kind.noConfusion (opens.symm.trans k)
    exact enclosed_unique unique short fits fits' h
  · obtain ⟨k, _⟩ | ⟨_, k, _⟩ | ⟨k, operand', rfl⟩ | ⟨k, _⟩ | ⟨_, k, _⟩ := begins'
    any_goals exact Kind.noConfusion (isMinus.symm.trans k)
    injection h with _ h
    have same := unique' operand operand' t t' rest rest' (Nat.le_of_succ_le_succ short)
      fits.operand fits'.operand h
    exact ⟨congrArg (u :: ·) same.word, congrArg Expr.negate same.tree⟩
  · obtain ⟨k, _⟩ | ⟨_, k, _⟩ | ⟨k, _⟩ | ⟨k, rfl⟩ | ⟨equals', k, isAssign', value', rfl⟩ := begins'
    any_goals exact Kind.noConfusion (isName.symm.trans k)
    · exact ⟨rfl, rfl⟩
    · injection h with _ h
      injection h with ht
      exact absurd (ht ▸ isAssign') fits.not_assign
  · obtain ⟨k, _⟩ | ⟨_, k, _⟩ | ⟨k, _⟩ | ⟨k, rfl⟩ | ⟨equals', k, isAssign', value', rfl⟩ := begins'
    any_goals exact Kind.noConfusion (isName.symm.trans k)
    · injection h with _ h
      injection h with ht
      exact absurd (ht ▸ isAssign) fits'.not_assign
    · exact assigned_unique unique short fits fits' h

/-! ## One reading -/

theorem uniqueAt (n : Nat) : UniqueAt 3 n ∧ UniqueAt 2 n ∧ UniqueAt 1 n := by
  have chains {n : Nat} (operands : UniqueAt 3 n) : UniqueAt 3 n ∧ UniqueAt 2 n ∧ UniqueAt 1 n := by
    have products : UniqueAt 2 n := uniqueAt_chain (.inr rfl) operands
    exact ⟨operands, products, uniqueAt_chain (.inl rfl) products⟩
  induction n with
  | zero =>
    refine chains fun d _ _ _ _ _ short => ?_
    exact absurd (List.eq_nil_of_length_eq_zero (Nat.le_zero.mp short)) d.word_ne_nil
  | succ n ih => exact chains (uniqueAt_operand ih.2.2 ih.1)

/-- Where no assignment sign is read no assignment ends anything. -/
theorem tidy_of_no_assign {d : Derivation p} (h : ∀ t ∈ d.word, t.kind ≠ .assign) :
    d.Tidy ∧ d.endsOpen = false := by
  induction d with
  | lone level only ih => exact ih h
  | chained left sign op isOperator right ihl ihr =>
    obtain ⟨tidy, closed⟩ := ihl fun t ht => h t (List.mem_append_left _ ht)
    obtain ⟨tidy', closed'⟩ := ihr fun t ht => h t (List.mem_append_right _ (.tail _ ht))
    exact ⟨⟨tidy, closed, tidy'⟩, closed'⟩
  | enclosed opening closing opens closes inner ih =>
    exact ⟨(ih fun t ht => h t (.tail _ (List.mem_append_left _ ht))).1, rfl⟩
  | signed minus isMinus operand ih => exact ih fun t ht => h t (.tail _ ht)
  | assigned target equals isName isAssign value =>
    exact absurd isAssign (h equals (.tail _ (.head _)))
  | _ => exact ⟨trivial, rfl⟩

/-- Tokens without an assignment sign are a sum in at most one way. -/
theorem tree_unique {d d' : Derivation 1} (h : d.word = d'.word)
    (noAssign : ∀ t ∈ d.word, t.kind ≠ .assign) : d.tree = d'.tree := by
  have fits {d : Derivation 1} (noAssign : ∀ t ∈ d.word, t.kind ≠ .assign) :
      d.Fits 1 (.mark .quit) :=
    ⟨settled_of_ne (fun _ => Kind.noConfusion) Kind.noConfusion, (tidy_of_no_assign noAssign).1⟩
  have fits' : d'.Fits 1 (.mark .quit) := fits (h ▸ noAssign)
  refine ((uniqueAt _).2.2 d d' _ _ [] [] (Nat.le_refl _) (fits noAssign) fits' ?_).tree
  rw [h]

end Reckoner.Derivation
