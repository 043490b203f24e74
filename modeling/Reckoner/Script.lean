/-
  A text as a supply of tokens.

  A `Script` is a text being read, with the constants in force. `next` passes
  the blanks and takes the longest token that stands there: one of the ten
  characters, a numeral, or a word of ASCII letters and digits. A word that
  names a constant is a number. Reading never goes past the token but for
  characters that it puts back, so what is left is the text behind the token
  (`next_append`).
-/
import Reckoner.Numeral
import Reckoner.Supply
import Reckoner.Scope
import Reckoner.Text.Blank

namespace Reckoner

/-- A text being read, and the names in it that stand for numbers. -/
structure Script where
  reader : Reader
  constants : Bindings
  deriving DecidableEq

namespace Reader

/-- A word: what is there of it, and the letters and digits that follow. -/
def word (start : List Char) (r : Reader) : List Char × Reader :=
  let (cs, r) := r.takeWhile Char.isAlphanum
  (start ++ cs, r)

end Reader

namespace Script

/-- A script at its beginning. -/
def ofText (constants : Bindings) (text : List Char) : Script := ⟨.ofText text, constants⟩

/-- What is still to be read. -/
def rest (s : Script) : List Char := s.reader.rest

/-- The token of a word: a number if it is a constant, else a name. -/
def wordToken (s : Script) (name : String) : Token :=
  match s.constants.lookup name with
  | some value => .number value
  | none => .identifier name

/-- Whether a numeral begins with this character. -/
def beginsNumeral (c : Char) : Bool := c.isDigit || c = '.'

/-- The token whose first character was taken. -/
def tokenFrom (s : Script) (c : Char) : Outcome Script Token :=
  match Kind.ofSymbol? c with
  | some kind => .ok (.mark kind) s
  | none =>
    if beginsNumeral c then
      match (s.reader.unread c).numeral with
      | .ok n reader => .ok (.number n.value) { s with reader }
      | .fault f reader => .fault f { s with reader }
    else if c.isAlpha then
      let (name, reader) := s.reader.word [c]
      .ok (s.wordToken (String.ofList name)) { s with reader }
    else .fault (.badToken c) s

/-- The next token. At the end of the text it is `quit`. -/
def next (s : Script) : Outcome Script Token :=
  let found := s.reader.seek Text.isBlank
  let s := { s with reader := found.reader }
  match found.stop with
  | none => .ok (.mark .quit) s
  | some c => s.tokenFrom c

/-- Drops characters up to and with the one that a kind is written as, or all of
    them, and counts those before it. -/
def skipPast (kind : Kind) (s : Script) : Nat × Script :=
  let found := s.reader.seek fun c => kind.symbol? ≠ some c
  (found.passed.length, { s with reader := found.reader })

/-! ## What a step leaves -/

/-- A token is taken off what was to be read, with its first character. -/
theorem tokenFrom_append (s : Script) (c : Char) :
    ∃ lexeme, lexeme ≠ [] ∧ lexeme ++ (s.tokenFrom c).state.rest = c :: s.rest ∧
      (s.tokenFrom c).state.constants = s.constants := by
  unfold tokenFrom
  split
  · exact ⟨[c], by simp, rfl, rfl⟩
  split
  · next hc =>
    have h := (s.reader.unread c).numeral_append
    simp only [Reader.rest_unread, Option.toList_some, List.singleton_append] at h
    split
    · next n r hn =>
      rw [hn] at h
      refine ⟨n.text, ?_, h.1, rfl⟩
      intro hnil
      refine h.2 ?_
      simp only [Numeral.text, Numeral.mantissa, List.append_eq_nil_iff] at hnil
      cases hf : n.fraction with
      | none => simp [Numeral.digits, hnil.1.1, hf]
      | some ds => simp [hf, Numeral.pointed] at hnil
    · next f r hn =>
      rw [hn] at h
      obtain ⟨literal, rfl, hl⟩ := h
      refine ⟨literal, Reader.literal_ne_nil hn (c := c) (by simp) ?_, hl, rfl⟩
      simpa [beginsNumeral] using hc
  split
  · exact ⟨(s.reader.word [c]).1, by simp [Reader.word], by simp [Reader.word, rest, Outcome.state], rfl⟩
  · exact ⟨[c], by simp, rfl, rfl⟩

/-- A step passes blanks and takes a lexeme, which is empty only at the end of
    the text. The rest is left, and the constants stay. -/
theorem next_append (s : Script) :
    ∃ lexeme, s.rest.takeWhile Text.isBlank ++ lexeme ++ s.next.state.rest = s.rest ∧
      (lexeme = [] → s.next = .ok (.mark .quit) s.next.state) ∧
      s.next.state.constants = s.constants := by
  have h := s.reader.append_seek Text.isBlank
  unfold next
  dsimp only
  split
  · next hstop =>
    rw [hstop] at h
    exact ⟨[], by simpa [rest, Outcome.state] using h, fun _ => rfl, rfl⟩
  · next c hstop =>
    rw [hstop] at h
    obtain ⟨lexeme, hne, ha, hc⟩ :=
      tokenFrom_append { s with reader := (s.reader.seek Text.isBlank).reader } c
    refine ⟨lexeme, ?_, fun hnil => absurd hnil hne, hc⟩
    rw [List.append_assoc, ha]
    simpa [rest] using h

theorem length_rest_next_le (s : Script) : s.next.state.rest.length ≤ s.rest.length := by
  obtain ⟨lexeme, h, -⟩ := s.next_append
  have := congrArg List.length h
  simp only [List.length_append] at this
  omega

/-- Only the end of the text is free. -/
theorem length_rest_next_lt {s : Script} (h : s.next ≠ .ok (.mark .quit) s.next.state) :
    s.next.state.rest.length < s.rest.length := by
  obtain ⟨lexeme, ha, hq, -⟩ := s.next_append
  have hlen := congrArg List.length ha
  have : 0 < lexeme.length := List.length_pos_iff.mpr fun hnil => h (hq hnil)
  simp only [List.length_append] at hlen
  omega

instance : Supply Script where
  next := next
  skipPast := skipPast
  size s := s.rest.length
  size_next_ok {s s' t} h := by
    have hle := s.length_rest_next_le
    have hw := t.weight_le_one
    by_cases hq : t.kind = .quit
    · rw [h] at hle
      simp only [Token.weight, hq, if_true]
      exact hle
    · have hlt := length_rest_next_lt (s := s) (by
        rw [h]
        intro he
        injection he with he
        exact hq (he ▸ rfl))
      rw [h] at hlt
      have : s'.rest.length < s.rest.length := hlt
      omega
  size_next_fault {s s' f} h := by
    have hlt := length_rest_next_lt (s := s) (by rw [h]; simp)
    rw [h] at hlt
    exact hlt
  size_skipPast k s := by
    simp only [skipPast, rest, Reader.rest_seek, List.length_tail]
    exact Nat.le_trans (Nat.sub_le _ _) (List.IsSuffix.length_le (List.dropWhile_suffix _))

/-- The tokens of a text, and the fault that ended them. -/
def tokens (s : Script) : List Token × Option Fault := Supply.tokens s

end Script

end Reckoner
