/-
  The next token is the longest lexeme.

  `Lexes` says which token or fault a text begins with and what is left of it,
  without a reader: a symbol, a numeral, a lone point, a word of letters and
  digits, or a character that begins nothing. A numeral is the longest prefix of
  its form, a word the longest run.

  Proved:
  * `lexes_exists`: every text begins with something.
  * `token_iff_lexes`: with nothing put back, that is what a state reads behind
    the blanks, and nothing else.
-/
import Reckoner.Script
import Reckoner.Proofs.Intake
import Reckoner.Proofs.Numerals

namespace Reckoner

/-- The outcome of a result and a state. -/
def Outcome.of {σ α : Type} : Except Fault α → σ → Outcome σ α
  | .ok a, s => .ok a s
  | .error f, s => .fault f s

theorem Outcome.of_inj {σ α : Type} {r r' : Except Fault α} {s s' : σ}
    (h : Outcome.of r s = Outcome.of r' s') : r = r' ∧ s = s' := by
  cases r <;> cases r' <;> cases h <;> exact ⟨rfl, rfl⟩

theorem Outcome.of_eq_ok {σ α : Type} {r : Except Fault α} {s s' : σ} {a : α}
    (h : Outcome.of r s = .ok a s') : r = .ok a ∧ s = s' := of_inj (h.trans rfl)

theorem Outcome.of_eq_fault {σ α : Type} {r : Except Fault α} {s s' : σ} {f : Fault}
    (h : (Outcome.of r s : Outcome σ α) = .fault f s') : r = .error f ∧ s = s' := of_inj (h.trans rfl)

/-- A text that does not begin with a blank begins with a token or a fault, and
    is followed by what is left. -/
inductive Lexes (constants : Bindings) : List Char → Except Fault Token → List Char → Prop where
  | nothing : Lexes constants [] (.ok (.mark .quit)) []
  | symbol {k : Kind} {c : Char} {left : List Char} (isSymbol : k.symbol? = some c) :
      Lexes constants (c :: left) (.ok (.mark k)) left
  /-- The numeral is the longest prefix of the form. -/
  | numeral {n : Numeral} {left : List Char} (form : n.WellFormed)
      (longest : ∀ n' : Numeral, n'.WellFormed → n'.text <+: n.text ++ left →
        n'.text.length ≤ n.text.length) :
      Lexes constants (n.text ++ left) (.ok (.number n.value)) left
  | point {left : List Char} (noDigit : Ends Char.isDigit left) :
      Lexes constants ('.' :: left) (.error (.badNumber ['.'])) left
  | constant {c : Char} {w left : List Char} {value : Float} (letter : c.isAlpha = true)
      (notSymbol : c ≠ 'q') (run : ∀ x ∈ w, x.isAlphanum = true) (longest : Ends Char.isAlphanum left)
      (bound : constants.lookup (String.ofList (c :: w)) = some value) :
      Lexes constants (c :: w ++ left) (.ok (.number value)) left
  | name {c : Char} {w left : List Char} (letter : c.isAlpha = true)
      (notSymbol : c ≠ 'q') (run : ∀ x ∈ w, x.isAlphanum = true) (longest : Ends Char.isAlphanum left)
      (free : constants.lookup (String.ofList (c :: w)) = none) :
      Lexes constants (c :: w ++ left) (.ok (.identifier (String.ofList (c :: w)))) left
  | other {c : Char} {left : List Char} (notSymbol : ∀ k : Kind, k.symbol? ≠ some c)
      (notNumeral : c.isDigit = false ∧ c ≠ '.') (notLetter : c.isAlpha = false) :
      Lexes constants (c :: left) (.error (.badToken c)) left

/-! ## Every text begins with something -/

theorem Numeral.longest_of_ends {n n' : Numeral} {z : List Char} (h : n.WellFormed)
    (ends : n.EndsAt z) (h' : n'.WellFormed) (pre : n'.text <+: n.text ++ z) :
    n'.text.length ≤ n.text.length := by
  obtain ⟨z', hz'⟩ := pre
  rcases Numeral.eq_or_lt h h' ends hz'.symm with rfl | hlt
  · exact Nat.le_refl _
  · exact Nat.le_of_lt hlt

/-- A letter other than `q` is no symbol. -/
theorem Kind.symbol?_ne_of_isAlpha {c : Char} (letter : c.isAlpha = true) (hq : c ≠ 'q') (k : Kind) :
    k.symbol? ≠ some c := by
  intro h
  cases k with
  | operator op => cases op <;> cases h <;> cases letter
  | quit => exact hq (Option.some.inj h).symm
  | number => cases h
  | name => cases h
  | _ => cases h; cases letter

/-- Nor is a digit or a point. -/
theorem Kind.symbol?_ne_of_beginsNumeral {c : Char} (h : Script.beginsNumeral c = true) (k : Kind) :
    k.symbol? ≠ some c := by
  intro hk
  cases k with
  | operator op => cases op <;> cases hk <;> cases h
  | number => cases hk
  | name => cases hk
  | _ => cases hk; cases h

theorem Kind.ofSymbol?_eq_none {c : Char} (h : ∀ k : Kind, k.symbol? ≠ some c) :
    Kind.ofSymbol? c = none := by
  cases hk : Kind.ofSymbol? c with
  | none => rfl
  | some k => exact absurd (Kind.symbol?_of_ofSymbol? hk) (h k)

/-- Where a digit or a point stands there is a numeral, or the point is alone. -/
theorem lexes_of_beginsNumeral (constants : Bindings) {c : Char} {z : List Char}
    (h : Script.beginsNumeral c = true) :
    ∃ result left, Lexes constants (c :: z) result left := by
  have happ := (Reader.ofText (c :: z)).numeral_append
  cases hn : (Reader.ofText (c :: z)).numeral with
  | ok n r =>
    rw [hn, Reader.rest_ofText] at happ
    obtain ⟨form, ends⟩ := Reader.numeral_ends hn
    rw [← happ.1]
    exact ⟨_, _, .numeral form fun n' => n.longest_of_ends form ends⟩
  | fault f r =>
    obtain ⟨hends, ⟨-, hsame, hpoint⟩ | ⟨-, hpoint⟩⟩ := Reader.numeral_fault hn
    · rw [Reader.rest_ofText] at hsame
      rw [← hsame] at hends hpoint
      rw [Script.beginsNumeral, hends c rfl, Bool.false_or, decide_eq_true_eq] at h
      exact absurd (congrArg some h) hpoint
    · rw [Reader.rest_ofText] at hpoint
      rw [hpoint]
      exact ⟨_, _, .point hends⟩

theorem lexes_exists (constants : Bindings) (u : List Char) :
    ∃ result left, Lexes constants u result left := by
  cases u with
  | nil => exact ⟨_, _, .nothing⟩
  | cons c z =>
    by_cases hk : ∃ k : Kind, k.symbol? = some c
    · obtain ⟨k, hk⟩ := hk
      exact ⟨_, _, .symbol hk⟩
    have hk : ∀ k : Kind, k.symbol? ≠ some c := fun k h => hk ⟨k, h⟩
    cases hn : Script.beginsNumeral c with
    | true => exact lexes_of_beginsNumeral constants hn
    | false =>
      cases letter : c.isAlpha with
      | false =>
        rw [Script.beginsNumeral, Bool.or_eq_false_iff, decide_eq_false_iff_not] at hn
        exact ⟨_, _, .other hk hn letter⟩
      | true =>
        have hq : c ≠ 'q' := fun h => hk .quit (congrArg some h.symm)
        have run : ∀ x ∈ z.takeWhile Char.isAlphanum, x.isAlphanum = true :=
          List.all_eq_true.mp List.all_takeWhile
        have longest := ends_dropWhile Char.isAlphanum z
        rw [← List.takeWhile_append_dropWhile (p := Char.isAlphanum) (l := z)]
        cases hl : constants.lookup (String.ofList (c :: z.takeWhile Char.isAlphanum)) with
        | none => exact ⟨_, _, .name letter hq run longest hl⟩
        | some value => exact ⟨_, _, .constant letter hq run longest hl⟩

/-! ## What is read -/

namespace Script

theorem next_of_nil {s : Script} (h : s.rest.dropWhile Text.isBlank = []) :
    ∃ reader : Reader, reader.rest = [] ∧ s.next = .ok (.mark .quit) { s with reader } := by
  unfold rest at h
  refine ⟨(s.reader.seek Text.isBlank).reader, ?_, ?_⟩
  · rw [Reader.rest_seek, h]
    rfl
  · unfold next
    dsimp only
    rw [Reader.seek_stop, h]
    rfl

theorem next_of_cons {s : Script} {c : Char} {z : List Char}
    (h : s.rest.dropWhile Text.isBlank = c :: z) :
    ∃ reader : Reader, reader.rest = z ∧ s.next = { s with reader }.tokenFrom c := by
  unfold rest at h
  refine ⟨(s.reader.seek Text.isBlank).reader, ?_, ?_⟩
  · rw [Reader.rest_seek, h]
    rfl
  · unfold next
    dsimp only
    rw [Reader.seek_stop, h]
    rfl

theorem tokenFrom_symbol {s : Script} {k : Kind} {c : Char} (h : k.symbol? = some c) :
    s.tokenFrom c = .ok (.mark k) s := by
  unfold tokenFrom
  rw [Kind.ofSymbol?_symbol h]

theorem tokenFrom_numeral {s : Script} {c : Char} (h : beginsNumeral c = true) :
    s.tokenFrom c = match (s.reader.unread c).numeral with
      | .ok n reader => .ok (.number n.value) { s with reader }
      | .fault f reader => .fault f { s with reader } := by
  unfold tokenFrom
  rw [Kind.ofSymbol?_eq_none (Kind.symbol?_ne_of_beginsNumeral h)]
  exact if_pos h

theorem beginsNumeral_of_isAlpha {c : Char} (letter : c.isAlpha = true) :
    beginsNumeral c = false := by
  cases hb : beginsNumeral c with
  | false => rfl
  | true =>
    rw [beginsNumeral, Bool.or_eq_true, decide_eq_true_eq] at hb
    rcases hb with digit | rfl
    · have letter : (decide (65 ≤ c.val ∧ c.val ≤ 90) ||
          (decide (97 ≤ c.val) && decide (c.val ≤ 122))) = true := letter
      have digit : (decide (48 ≤ c.val) && decide (c.val ≤ 57)) = true := digit
      simp only [Bool.or_eq_true, Bool.and_eq_true, decide_eq_true_eq, UInt32.le_iff_toNat_le,
        UInt32.reduceToNat] at letter digit
      omega
    · cases letter

theorem tokenFrom_word {s : Script} {c : Char} {w left : List Char} (letter : c.isAlpha = true)
    (hq : c ≠ 'q') (run : ∀ x ∈ w, x.isAlphanum = true) (longest : Ends Char.isAlphanum left)
    (hrest : s.rest = w ++ left) :
    ∃ reader : Reader, reader.rest = left ∧
      s.tokenFrom c = .ok (s.wordToken (String.ofList (c :: w))) { s with reader } := by
  unfold rest at hrest
  refine ⟨(s.reader.takeWhile Char.isAlphanum).2, ?_, ?_⟩
  · rw [Reader.rest_takeWhile, hrest, dropWhile_append_of_ends run longest]
  · unfold tokenFrom
    rw [Kind.ofSymbol?_eq_none (Kind.symbol?_ne_of_isAlpha letter hq)]
    dsimp only
    rw [beginsNumeral_of_isAlpha letter, if_pos letter]
    simp only [Reader.word, Reader.takeWhile_fst, hrest, takeWhile_append_of_ends run longest,
      Bool.false_eq_true, if_false, List.singleton_append]

theorem tokenFrom_other {s : Script} {c : Char} (notSymbol : ∀ k : Kind, k.symbol? ≠ some c)
    (notNumeral : c.isDigit = false ∧ c ≠ '.') (notLetter : c.isAlpha = false) :
    s.tokenFrom c = .fault (.badToken c) s := by
  unfold tokenFrom
  rw [Kind.ofSymbol?_eq_none notSymbol]
  simp [beginsNumeral, notNumeral, notLetter]

theorem next_of_numeral {s : Script} {n : Numeral} {left : List Char} (form : n.WellFormed)
    (longest : ∀ n' : Numeral, n'.WellFormed → n'.text <+: n.text ++ left →
      n'.text.length ≤ n.text.length)
    (hu : s.rest.dropWhile Text.isBlank = n.text ++ left) :
    ∃ reader : Reader, reader.rest = left ∧ s.next = .ok (.number n.value) { s with reader } := by
  obtain ⟨c, z, hc, begins⟩ : ∃ c z, n.text ++ left = c :: z ∧ beginsNumeral c = true := by
    obtain ⟨d, z, digit, hb | hb⟩ := n.text_begins form left
    · exact ⟨d, z, hb, by rw [beginsNumeral, digit]; rfl⟩
    · exact ⟨'.', d :: z, hb, rfl⟩
  obtain ⟨reader, hrest, hnext⟩ := next_of_cons (hu.trans hc)
  have hunread : (reader.unread c).rest = n.text ++ left := by
    rw [Reader.rest_unread, hrest, hc]
    rfl
  obtain ⟨reader', hnumeral, hrest'⟩ :=
    Reader.numeral_of_longest form (by rw [hunread]; exact longest) hunread
  refine ⟨reader', hrest', ?_⟩
  rw [hnext, tokenFrom_numeral begins]
  dsimp only
  rw [hnumeral]

theorem next_of_point {s : Script} {left : List Char} (noDigit : Ends Char.isDigit left)
    (hu : s.rest.dropWhile Text.isBlank = '.' :: left) :
    ∃ reader : Reader, reader.rest = left ∧
      s.next = .fault (.badNumber ['.']) { s with reader } := by
  obtain ⟨reader, hrest, hnext⟩ := next_of_cons hu
  have hunread : (reader.unread (some '.')).rest = '.' :: left := by
    rw [Reader.rest_unread, hrest]
    rfl
  rw [hnext, tokenFrom_numeral rfl]
  dsimp only
  cases hn : (reader.unread (some '.')).numeral with
  | ok n r =>
    -- A numeral would need a digit behind the point.
    have happ := (reader.unread (some '.')).numeral_append
    rw [hn, hunread] at happ
    obtain ⟨d, z, digit, hb⟩ := n.text_begins (Reader.numeral_ends hn).1 r.rest
    rw [happ.1] at hb
    rcases hb with hb | hb <;> injection hb with hc hb
    · rw [← hc] at digit
      cases digit
    · rw [noDigit d (by rw [hb]; rfl)] at digit
      cases digit
  | fault f r =>
    obtain ⟨-, ⟨-, hsame, hpoint⟩ | ⟨hf, hsame⟩⟩ := Reader.numeral_fault hn
    · rw [← hsame, hunread] at hpoint
      exact absurd rfl hpoint
    · rw [hunread] at hsame
      injection hsame with _ hsame
      exact ⟨r, hsame.symm, by rw [hf]⟩

end Script

/-- What a text begins with is what is read. -/
theorem Lexes.next {s : Script} {result : Except Fault Token} {left : List Char}
    (h : Lexes s.constants (s.rest.dropWhile Text.isBlank) result left) :
    ∃ reader : Reader, reader.rest = left ∧ s.next = .of result { s with reader } := by
  generalize hu : s.rest.dropWhile Text.isBlank = u at h
  cases h with
  | nothing => exact Script.next_of_nil hu
  | symbol isSymbol =>
    obtain ⟨reader, hrest, hnext⟩ := Script.next_of_cons hu
    exact ⟨reader, hrest, hnext.trans (Script.tokenFrom_symbol isSymbol)⟩
  | numeral form longest => exact Script.next_of_numeral form longest hu
  | point noDigit => exact Script.next_of_point noDigit hu
  | constant letter notSymbol run longest bound =>
    obtain ⟨reader, hrest, hnext⟩ := Script.next_of_cons hu
    obtain ⟨reader', hrest', hword⟩ :=
      Script.tokenFrom_word (s := { s with reader }) letter notSymbol run longest hrest
    refine ⟨reader', hrest', hnext.trans ?_⟩
    rw [hword, Script.wordToken, bound]
    rfl
  | name letter notSymbol run longest free =>
    obtain ⟨reader, hrest, hnext⟩ := Script.next_of_cons hu
    obtain ⟨reader', hrest', hword⟩ :=
      Script.tokenFrom_word (s := { s with reader }) letter notSymbol run longest hrest
    refine ⟨reader', hrest', hnext.trans ?_⟩
    rw [hword, Script.wordToken, free]
    rfl
  | other notSymbol notNumeral notLetter =>
    obtain ⟨reader, hrest, hnext⟩ := Script.next_of_cons hu
    exact ⟨reader, hrest, hnext.trans (Script.tokenFrom_other notSymbol notNumeral notLetter)⟩

theorem rest_skipPast (k : Kind) (s : Script) :
    (s.skipPast k).2.rest = (s.rest.dropWhile fun c => k.symbol? ≠ some c).tail := by
  unfold Script.skipPast Script.rest
  exact Reader.rest_seek _ _

theorem skipPast_fst (k : Kind) (s : Script) :
    (s.skipPast k).1 = (s.rest.takeWhile fun c => k.symbol? ≠ some c).length := by
  unfold Script.skipPast Script.rest
  exact congrArg List.length (Reader.seek_passed _ _)

/-- What is left when something was dropped ends the text that was left. -/
theorem suffix_skipPast (k : Kind) (s : Script) : (s.skipPast k).2.rest <:+ s.rest := by
  rw [rest_skipPast]
  exact (List.tail_suffix _).trans (List.dropWhile_suffix _)

/-- A lexeme is in front of what is left. -/
theorem Lexes.front {constants : Bindings} {u left : List Char} {result : Except Fault Token}
    (h : Lexes constants u result left) : ∃ lexeme, u = lexeme ++ left := by
  cases h with
  | nothing => exact ⟨[], rfl⟩
  | @symbol k c left isSymbol => exact ⟨[c], rfl⟩
  | numeral => exact ⟨_, rfl⟩
  | point => exact ⟨['.'], rfl⟩
  | constant => exact ⟨_, rfl⟩
  | name => exact ⟨_, rfl⟩
  | @other c left => exact ⟨[c], rfl⟩

theorem Lexes.suffix {constants : Bindings} {u left : List Char} {result : Except Fault Token}
    (h : Lexes constants (u.dropWhile Text.isBlank) result left) : left <:+ u := by
  obtain ⟨lexeme, hlexeme⟩ := h.front
  exact List.IsSuffix.trans ⟨lexeme, hlexeme.symm⟩ (List.dropWhile_suffix _)

/-- Only the end of a text is free. -/
theorem Lexes.length_lt {constants : Bindings} {u left : List Char} {result : Except Fault Token}
    (h : Lexes constants u result left) :
    u = [] ∧ result = .ok (.mark .quit) ∨ left.length < u.length := by
  cases h with
  | nothing => exact .inl ⟨rfl, rfl⟩
  | @numeral n left form =>
    right
    rw [List.length_append]
    obtain ⟨d, z, -, hb | hb⟩ := n.text_begins form []
    all_goals
      rw [List.append_nil] at hb
      rw [hb, List.length_cons]
      omega
  | constant | name =>
    right
    rw [List.length_append, List.length_cons]
    omega
  | _ =>
    right
    rw [List.length_cons]
    omega

/-- What a script reads is what its text begins with. -/
theorem Script.next_lexes (s : Script) : ∃ (result : Except Fault Token) (reader : Reader),
    Lexes s.constants (s.rest.dropWhile Text.isBlank) result reader.rest ∧
      s.next = .of result { s with reader } := by
  obtain ⟨result, left, hlexes⟩ := lexes_exists s.constants (s.rest.dropWhile Text.isBlank)
  obtain ⟨reader, rfl, hnext⟩ := hlexes.next
  exact ⟨result, reader, hlexes, hnext⟩

/-- What was read is what the text began with; the constants stay, and the text behind it. -/
theorem Script.lexes_of_next {s s' : Script} {r : Except Fault Token} (h : s.next = .of r s') :
    Lexes s.constants (s.rest.dropWhile Text.isBlank) r s'.rest ∧ s'.constants = s.constants ∧
      s'.rest <:+ s.rest := by
  obtain ⟨r', reader, hlexes, hnext⟩ := s.next_lexes
  obtain ⟨rfl, rfl⟩ := Outcome.of_inj (h.symm.trans hnext)
  exact ⟨hlexes, rfl, hlexes.suffix⟩

/-- A fault is of a bad token. -/
theorem Lexes.category {constants : Bindings} {u left : List Char} {f : Fault}
    (h : Lexes constants u (.error f) left) : f.category = .badToken := by
  cases h <;> rfl

/-- **The next token is the longest.** With nothing put back, what a state reads
    is what its text begins with behind the blanks: that token or fault, with that
    text left, and all else as it was. A fault is of a bad token. -/
theorem token_iff_lexes (supply : Script) (vars : Bindings) :
    (∀ result left, Lexes supply.constants (supply.rest.dropWhile Text.isBlank) result left ↔
      ∃ reader : Reader, reader.rest = left ∧ (State.ofSupply supply vars).token =
        .of result (.ofSupply ⟨reader, supply.constants⟩ vars)) ∧
    ∀ f s, (State.ofSupply supply vars).token = .fault f s → f.category = .badToken := by
  have reads {result : Except Fault Token} {left : List Char}
      (h : Lexes supply.constants (supply.rest.dropWhile Text.isBlank) result left) :
      ∃ reader : Reader, reader.rest = left ∧ (State.ofSupply supply vars).token =
        .of result (.ofSupply ⟨reader, supply.constants⟩ vars) := by
    obtain ⟨reader, hrest, hnext⟩ := h.next
    refine ⟨reader, hrest, ?_⟩
    show (Script.next supply).inside _ = _
    rw [hnext]
    cases result <;> rfl
  obtain ⟨result₀, left₀, h₀⟩ :=
    lexes_exists supply.constants (supply.rest.dropWhile Text.isBlank)
  obtain ⟨reader₀, hrest₀, htoken₀⟩ := reads h₀
  refine ⟨fun result left => ⟨reads, ?_⟩, fun f s h => ?_⟩
  · rintro ⟨reader, hrest, htoken⟩
    obtain ⟨rfl, hs⟩ := Outcome.of_inj (htoken₀.symm.trans htoken)
    injection hs with hsupply
    injection hsupply with hreader
    rw [← hrest, ← hreader, hrest₀]
    exact h₀
  · rw [htoken₀] at h
    cases result₀ with
    | ok t => cases h
    | error f₀ =>
      injection h with hf
      exact hf ▸ h₀.category

/-- Without a digit the exponent is put back, and begins the next token. -/
theorem lexes_behind_bare_exponent :
    let number : Script := .ofText .empty "\t1.5e+;".toList
    let name : Script := ⟨⟨['e', '+', ';'], [], 7⟩, .empty⟩
    let symbol : Script := ⟨⟨['+', ';'], [], 7⟩, .empty⟩
    let last : Script := ⟨⟨[';'], [], 7⟩, .empty⟩
    ((State.ofSupply number .empty).token = .ok (.number 1.5) (.ofSupply name .empty) ∧
      Lexes .empty "1.5e+;".toList (.ok (.number 1.5)) "e+;".toList) ∧
    ((State.ofSupply name .empty).token = .ok (.identifier "e") (.ofSupply symbol .empty) ∧
      Lexes .empty "e+;".toList (.ok (.identifier "e")) "+;".toList) ∧
    (State.ofSupply symbol .empty).token = .ok (.mark (.operator .add)) (.ofSupply last .empty) ∧
      Lexes .empty "+;".toList (.ok (.mark (.operator .add))) ";".toList := by
  intro number name symbol last
  have first : (State.ofSupply number .empty).token = .ok (.number 1.5) (.ofSupply name .empty) := by
    decide +kernel
  have second : (State.ofSupply name .empty).token =
      .ok (.identifier "e") (.ofSupply symbol .empty) := by decide +kernel
  have third : (State.ofSupply symbol .empty).token =
      .ok (.mark (.operator .add)) (.ofSupply last .empty) := by decide +kernel
  exact ⟨⟨first, ((token_iff_lexes number .empty).1 _ _).mpr ⟨_, rfl, first⟩⟩,
    ⟨second, ((token_iff_lexes name .empty).1 _ _).mpr ⟨_, rfl, second⟩⟩,
    third, ((token_iff_lexes symbol .empty).1 _ _).mpr ⟨_, rfl, third⟩⟩

end Reckoner
