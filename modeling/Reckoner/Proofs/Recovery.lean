/-
  Where a session goes on behind a fault.

  A statement that fails has read a part of its text, and what it read last may
  be in the slot. Up to the `;` that ends it no other `;` was taken, for a rule
  that meets one puts it back: either none was taken yet, or the first is in the
  slot (`Left`). That is an invariant of the rules (`within`). To give up drops the
  token, or the characters up to the first `;`, and both lead to the text behind
  the first `;`.

  On a frail stack there is a third case: a statement that is too deep may have
  taken its `;` and lost it (`Swallowed`). What is given up then goes on to the
  `;` after that.

  `FirstLexeme` says on the text alone with what a statement begins, behind any
  number of `;`, and what text is behind that.

  Proved: `recovery_resumes`, for every limit, every state and every fault.
-/
import Reckoner.Proofs.Composition

namespace Reckoner

open State

/-! ## What a statement begins with -/

/-- The first lexeme of a text that is no `;`, and what is left behind it. -/
inductive FirstLexeme (constants : Bindings) :
    List Char → Except Fault Token → List Char → Prop where
  | here {u left : List Char} {result : Except Fault Token}
      (lexeme : Lexes constants (u.dropWhile Text.isBlank) result left)
      (notPrint : ∀ t, result = .ok t → t.kind ≠ .print) : FirstLexeme constants u result left
  | behind {u u' left : List Char} {t : Token} {result : Except Fault Token}
      (lexeme : Lexes constants (u.dropWhile Text.isBlank) (.ok t) u') (isPrint : t.kind = .print)
      (first : FirstLexeme constants u' result left) : FirstLexeme constants u result left

/-- The first token of the statement ahead, or the fault in its place, and the text
    behind it. A token in the slot comes before the text. -/
inductive State.First (s : State Script) : Except Fault Token → List Char → Prop where
  | held {t : Token} (slot : s.slot = some t) (notPrint : t.kind ≠ .print) :
      First s (.ok t) s.supply.rest
  | read {result : Except Fault Token} {left : List Char}
      (slot : ∀ t, s.slot = some t → t.kind = .print)
      (first : FirstLexeme s.supply.constants s.supply.rest result left) : First s result left

theorem State.First.ne_print {s : State Script} {t : Token} {left : List Char}
    (h : s.First (.ok t) left) : t.kind ≠ .print := by
  have ne_print {u : List Char} {result : Except Fault Token}
      (first : FirstLexeme s.supply.constants u result left) : ∀ t, result = .ok t → t.kind ≠ .print := by
    clear h
    induction first with
    | here lexeme notPrint => exact notPrint
    | behind lexeme isPrint first ih => exact ih
  cases h with
  | held slot notPrint => exact notPrint
  | read slot first => exact ne_print first t rfl

section Begin

variable {constants : Bindings} {u left : List Char} {result : Except Fault Token}

/-- A lexeme holds no `;`, or is one. -/
theorem Lexes.split (h : Lexes constants u result left) :
    ∃ lexeme, u = lexeme ++ left ∧
      (';' ∉ lexeme ∧ (∀ t, result = .ok t → t.kind ≠ .print) ∨
        lexeme = [';'] ∧ result = .ok (.mark .print)) := by
  cases h with
  | nothing => exact ⟨[], rfl, .inl ⟨List.not_mem_nil, fun t ht => by cases ht; decide⟩⟩
  | @symbol k c left isSymbol =>
    refine ⟨[c], rfl, ?_⟩
    by_cases hk : k = .print
    · subst hk
      injection isSymbol with hc
      exact .inr ⟨by rw [hc], rfl⟩
    · refine .inl ⟨fun hmem => hk (Kind.eq_print ?_), fun t ht => ?_⟩
      · rw [isSymbol, List.mem_singleton.mp hmem]
      · injection ht with ht
        exact ht ▸ hk
  | numeral form longest =>
    exact ⟨_, rfl, .inl ⟨Numeral.not_mem_text form, fun t ht => by cases ht; exact Kind.noConfusion⟩⟩
  | point noDigit => exact ⟨['.'], rfl, .inl ⟨by decide, nofun⟩⟩
  | constant letter notSymbol run longest bound =>
    exact ⟨_, rfl, .inl ⟨not_mem_word letter run, fun t ht => by cases ht; exact Kind.noConfusion⟩⟩
  | name letter notSymbol run longest free =>
    exact ⟨_, rfl, .inl ⟨not_mem_word letter run, fun t ht => by cases ht; exact Kind.noConfusion⟩⟩
  | @other c left notSymbol notNumeral notLetter =>
    refine ⟨[c], rfl, .inl ⟨fun hmem => ?_, nofun⟩⟩
    exact notSymbol .print (congrArg some (List.mem_singleton.mp hmem))

/-- Every text has one. -/
theorem firstLexeme_exists (constants : Bindings) (u : List Char) :
    ∃ result left, FirstLexeme constants u result left := by
  induction hlength : u.length using Nat.strongRecOn generalizing u with
  | ind n ih =>
    obtain ⟨result, left, h⟩ := lexes_exists constants (u.dropWhile Text.isBlank)
    obtain ⟨lexeme, hsplit, ⟨-, notPrint⟩ | ⟨rfl, rfl⟩⟩ := h.split
    · exact ⟨result, left, .here h notPrint⟩
    · have hle := (List.dropWhile_suffix (l := u) Text.isBlank).length_le
      have hlt := congrArg List.length hsplit
      rw [List.length_append, List.length_singleton] at hlt
      obtain ⟨result, left', first⟩ := ih left.length (by omega) left rfl
      exact ⟨result, left', .behind h rfl first⟩

theorem State.first_exists (s : State Script) : ∃ result left, s.First result left := by
  by_cases hslot : ∀ t, s.slot = some t → t.kind = .print
  · obtain ⟨result, left, first⟩ := firstLexeme_exists s.supply.constants s.supply.rest
    exact ⟨result, left, .read hslot first⟩
  · obtain ⟨t, ht⟩ := Classical.not_forall.mp hslot
    obtain ⟨slot, notPrint⟩ := Classical.not_imp.mp ht
    exact ⟨_, _, .held slot notPrint⟩

/-- With nothing put back, that is the first token there is. -/
theorem FirstLexeme.firstToken (h : FirstLexeme constants u result left) {supply : Script}
    (hconstants : supply.constants = constants) (hrest : supply.rest = u) (vars : Bindings) :
    ∃ reader : Reader, reader.rest = left ∧
      (ofSupply supply vars).firstToken = .of result (.ofSupply ⟨reader, constants⟩ vars) := by
  induction h generalizing supply with
  | @here u left result lexeme notPrint =>
    subst hconstants hrest
    obtain ⟨reader, hreader, hnext⟩ := lexeme.next
    refine ⟨reader, hreader, ?_⟩
    cases result with
    | ok t =>
      have ha : (ofSupply supply vars).ahead = .ok t ⟨reader, supply.constants⟩ := hnext
      exact firstToken_of_ahead ha (notPrint t rfl)
    | error f =>
      have htoken : (ofSupply supply vars).token =
          .fault f (.ofSupply ⟨reader, supply.constants⟩ vars) := by
        rw [token_eq, show (ofSupply supply vars).ahead = Script.next supply from rfl, hnext]
        rfl
      rw [firstToken_eq, htoken]
      rfl
  | @behind u u' left t result lexeme isPrint first ih =>
    subst hconstants hrest
    obtain ⟨reader, hreader, hnext⟩ := lexeme.next
    have ha : (ofSupply supply vars).ahead = .ok t ⟨reader, supply.constants⟩ := hnext
    rw [firstToken_print ha isPrint]
    exact ih rfl hreader

theorem State.First.firstToken {s : State Script} (h : s.First result left) :
    ∃ reader : Reader, reader.rest = left ∧
      s.firstToken = .of result (.ofSupply ⟨reader, s.supply.constants⟩ s.vars) := by
  obtain ⟨supply, slot, vars⟩ := s
  cases h with
  | held slot notPrint => exact ⟨supply.reader, rfl, firstToken_of_ahead (ahead_of_slot slot) notPrint⟩
  | read hslot first =>
    obtain ⟨reader, hreader, hfirst⟩ := first.firstToken rfl rfl vars
    refine ⟨reader, hreader, Eq.trans ?_ hfirst⟩
    cases slot with
    | none => rfl
    | some t => exact firstToken_print rfl (hslot t rfl)

end Begin

/-! ## Inside a statement -/

/-- The rest of a text of which no `;` was taken, or the first was and is to be put back. -/
def Left (text : List Char) (print : Bool) (rest : List Char) : Prop :=
  ∃ read, ';' ∉ read ∧ text = read ++ if print then ';' :: rest else rest

/-- Either way the text behind the first `;` is still to come. -/
theorem Left.behindFirst_eq {text rest : List Char} {print : Bool} (h : Left text print rest) :
    behindFirst text = if print then rest else behindFirst rest := by
  obtain ⟨read, hread, rfl⟩ := h
  rw [behindFirst_append hread]
  cases print <;> rfl

theorem not_mem_blank (u : List Char) : ';' ∉ u.takeWhile Text.isBlank := fun hmem => by
  have := List.all_eq_true.mp List.all_takeWhile _ hmem
  cases this

/-- A script passes a stretch without `;`, or one with a `;` at its end. -/
theorem Script.next_split (s : Script) :
    ∃ (result : Except Fault Token) (passed : List Char) (reader : Reader),
      s.next = .of result { s with reader } ∧ ';' ∉ passed ∧
        ((∀ t, result = .ok t → t.kind ≠ .print) ∧ s.rest = passed ++ reader.rest ∨
          result = .ok (.mark .print) ∧ s.rest = passed ++ ';' :: reader.rest) := by
  obtain ⟨result, reader, hlexes, hnext⟩ := s.next_lexes
  obtain ⟨lexeme, hsplit, hlexeme⟩ := hlexes.split
  have hrest : s.rest = s.rest.takeWhile Text.isBlank ++ (lexeme ++ reader.rest) := by
    rw [← hsplit, List.takeWhile_append_dropWhile]
  have hblank := not_mem_blank s.rest
  rcases hlexeme with ⟨hl, notPrint⟩ | ⟨rfl, hprint⟩
  · refine ⟨result, s.rest.takeWhile Text.isBlank ++ lexeme, reader, hnext, ?_, .inl ⟨notPrint, ?_⟩⟩
    · rw [List.mem_append, not_or]
      exact ⟨hblank, hl⟩
    · rw [List.append_assoc]
      exact hrest
  · exact ⟨result, s.rest.takeWhile Text.isBlank, reader, hnext, hblank, .inr ⟨hprint, hrest⟩⟩

/-- What is left is as it was, when more was taken. -/
theorem Left.behind {text passed rest : List Char} (h : Left text false (passed ++ rest))
    (hpassed : ';' ∉ passed) : Left text false rest := by
  obtain ⟨read, hread, rfl⟩ := h
  refine ⟨read ++ passed, ?_, (List.append_assoc read passed rest).symm⟩
  rw [List.mem_append, not_or]
  exact ⟨hread, hpassed⟩

theorem Left.print {text rest : List Char} (h : Left text false (';' :: rest)) :
    Left text true rest := h

/-- Inside a statement: of the text behind its first token no `;` was taken, but the
    one that may be in the slot. -/
def within (constants : Bindings) (text : List Char) : Invariant Script :=
  .ofNext (fun print a => a.constants = constants ∧ Left text print a.rest)
    (by
      rintro a b t ⟨rfl, h⟩ hb
      obtain ⟨result, passed, reader, hnext, hpassed, ⟨notPrint, hrest⟩ | ⟨rfl, hrest⟩⟩ :=
        a.next_split
      all_goals rw [hrest] at h
      · obtain ⟨hresult, rfl⟩ := Outcome.of_eq_ok (hnext.symm.trans hb)
        rw [decide_eq_false (notPrint t hresult)]
        exact ⟨rfl, h.behind hpassed⟩
      · obtain ⟨hresult, rfl⟩ := Outcome.of_eq_ok (hnext.symm.trans hb)
        injection hresult with ht
        subst ht
        exact ⟨rfl, h.behind hpassed⟩)
    (by
      rintro a b f ⟨rfl, h⟩ hb
      obtain ⟨result, passed, reader, hnext, hpassed, ⟨-, hrest⟩ | ⟨rfl, -⟩⟩ := a.next_split
      · obtain ⟨-, rfl⟩ := Outcome.of_eq_fault (hnext.symm.trans hb)
        rw [hrest] at h
        exact ⟨rfl, h.behind hpassed⟩
      · cases hnext.symm.trans hb)

variable {constants : Bindings} {text : List Char} {s s' : State Script} {f : Fault} {limit : Limit}

/-- A statement is inside from its first token on: its text begins behind that. -/
theorem within_firstToken {first : Except Fault Token} (begins : s.First first text) :
    (∀ f s₁, s.firstToken = .fault f s₁ → (within s.supply.constants text).holds s₁) ∧
      ∀ t s₁, s.firstToken = .ok t s₁ → (within s.supply.constants text).drawn t s₁ := by
  obtain ⟨reader, hreader, hfirst⟩ := begins.firstToken
  have start (print : Bool) (hprint : print = false) : Left text print reader.rest :=
    ⟨[], List.not_mem_nil, by rw [hprint, hreader]; rfl⟩
  refine ⟨fun f s₁ failed => ?_, fun t s₁ taken => ?_⟩
  · obtain ⟨-, rfl⟩ := Outcome.of_eq_fault (hfirst.symm.trans failed)
    exact ⟨rfl, start false rfl⟩
  · obtain ⟨rfl, rfl⟩ := Outcome.of_eq_ok (hfirst.symm.trans taken)
    exact ⟨rfl, rfl, start _ (decide_eq_false begins.ne_print)⟩

/-- The first `;` of a text was taken and is not in the slot either. -/
structure Swallowed (text : List Char) (s : State Script) : Prop where
  slot : s.slot = none
  mem : ';' ∈ text
  rest : s.supply.rest = behindFirst text

theorem Swallowed.of_drawn {t : Token} (h : (within constants text).drawn t s)
    (isPrint : t.kind = .print) : Swallowed text s := by
  obtain ⟨empty, -, left⟩ := h
  rw [decide_eq_true isPrint] at left
  have rest := left.behindFirst_eq
  obtain ⟨read, -, rfl⟩ := left
  exact ⟨empty, List.mem_append_right read List.mem_cons_self, rest.symm⟩

/-- To give up inside a statement leads behind the first `;` of its text. -/
theorem giveUp_of_within (h : (within constants text).holds s) :
    (s.giveUp .print).2.supply.constants = constants ∧
      (s.giveUp .print).2.supply.rest = behindFirst text := by
  obtain ⟨hconstants, h⟩ := h
  rw [h.behindFirst_eq]
  by_cases held : s.slot.any fun (t : Token) => t.kind = .print
  · rw [giveUp_held held, if_pos held]
    exact ⟨hconstants, rfl⟩
  · rw [giveUp_dropped held, if_neg held]
    exact ⟨hconstants, rest_skipPast_print s.supply⟩

/-- Where that `;` is lost, it leads behind the second. -/
theorem Swallowed.giveUp (h : Swallowed text s) :
    (s.giveUp .print).2.supply.constants = s.supply.constants ∧
      (s.giveUp .print).2.supply.rest = behindFirst (behindFirst text) := by
  have held : ¬ s.slot.any fun (t : Token) => t.kind = .print := by
    rw [h.slot]
    exact Bool.false_ne_true
  rw [giveUp_dropped held, ← h.rest]
  exact ⟨rfl, rest_skipPast_print s.supply⟩

/-- A session that recovers from a fault shows then what a session over the text shows that
    is left when the statement is given up. -/
theorem converse_of_recoverable {text : List Char} (failed : s.statement limit = .fault f s')
    (recoverable : f.recoverable = true)
    (goesOn : (s'.giveUp .print).2.supply.constants = constants ∧
      (s'.giveUp .print).2.supply.rest = text) :
    let again := (ofSupply (Script.ofText constants text) s'.vars).converse limit
    (s.converse limit).events = Event.recovery f (s'.giveUp .print).1 ++ again.events ∧
      (s.converse limit).fatal = again.fatal ∧
      (s.converse limit).state.vars = again.state.vars := by
  have hresume : (s'.giveUp .print).2 = ofSupply (s'.giveUp .print).2.supply s'.vars := by
    rw [Coupling.eq_ofSupply (slot_giveUp .print s'), vars_giveUp]
    rfl
  have hsession : s.converse limit = ((ofSupply (s'.giveUp .print).2.supply s'.vars).converse
      limit).after (Event.recovery f (s'.giveUp .print).1) := by
    rw [converse_eq, failed, ← hresume]
    exact if_pos recoverable
  obtain ⟨hevents, hfatal, hvars⟩ :=
    converse_of_rest (b := Script.ofText constants text) goesOn.1 goesOn.2 limit s'.vars
  rw [hsession]
  exact ⟨congrArg (Event.recovery f _ ++ ·) hevents, hfatal, hvars⟩

end Reckoner
