/-
  How far a statement reads.

  What is put back was taken from the text, and it may be a `;` with others on top
  of it, as behind `1e+;`. But nothing is put back below a `;`: when one is met it
  is put back before anything else is taken. So a `;` that was put back is the
  last character taken from the text (`Reader.Clear`), and one that was taken as a
  token leaves nothing put back (`shallow`). Both are kept by all that reads.

  The text behind the first token of a statement is left but for a part without
  `;`, and the `;` (`within`). So of the text ahead a statement takes nothing behind
  that `;`, not even where it loses the `;` itself.

  Proved:
  * `statement_extend`: a line that holds the `;` and its own end is enough.
  * `turns_read_no_further`, which adds to this that the rest of the text has no effect.
-/
import Reckoner.Proofs.Locality

namespace Reckoner

open State

/-! ## What was put back -/

namespace Reader

/-- Nothing is below a `;` that was put back. -/
def Clear (r : Reader) : Prop := ∀ below, ';' :: below <:+ r.pushed → below = []

variable {r : Reader} {c : Option Char}

theorem clear_of_length_le (h : r.pushed.length ≤ 1) : r.Clear := by
  intro below hsuffix
  have := hsuffix.length_le
  rw [List.length_cons] at this
  exact List.length_eq_zero_iff.mp (by omega)

theorem clear_of_pushed_eq_nil (h : r.pushed = []) : r.Clear :=
  clear_of_length_le (by rw [h]; exact Nat.zero_le 1)

theorem Clear.of_suffix {r' : Reader} (h : r.Clear) (suffix : r'.pushed <:+ r.pushed) : r'.Clear :=
  fun below hsuffix => h below (hsuffix.trans suffix)

theorem Clear.of_unread (h : (r.unread c).Clear) : r.Clear := by
  cases c with
  | none => exact h
  | some c => exact h.of_suffix (List.suffix_cons c r.pushed)

theorem Clear.unread (h : r.Clear) (ne : c ≠ some ';') : (r.unread c).Clear := by
  cases c with
  | none => exact h
  | some c =>
    intro below hsuffix
    rcases List.suffix_cons_iff.mp hsuffix with heq | hsuffix
    · injection heq with hc _
      exact absurd (congrArg some hc.symm) ne
    · exact h below hsuffix

/-- A `;` is put back on nothing. -/
theorem Clear.pushed_eq_nil (h : (r.unread (some ';')).Clear) : r.pushed = [] :=
  h r.pushed (List.suffix_refl _)

/-- A character that was read can be put back. -/
theorem Clear.read {r' : Reader} (h : r.Clear) (hread : r.read = (c, r')) :
    (r'.unread c).Clear := by
  obtain ⟨pushed, ahead, taken⟩ := r
  cases pushed with
  | cons d pushed =>
    cases hread
    exact h
  | nil =>
    cases ahead with
    | nil =>
      cases hread
      exact h
    | cons d ahead =>
      cases hread
      exact clear_of_length_le (Nat.le_refl 1)

/-- So can what ended a stretch. -/
theorem clear_seek (p : Char → Bool) (h : r.Clear) :
    ((r.seek p).reader.unread (r.seek p).stop).Clear := by
  rcases pushed_seek p r with suffix | nothing
  · exact h.of_suffix suffix
  · exact clear_of_length_le (length_pushed_unread_le nothing _)

theorem clear_takeWhile (p : Char → Bool) (h : r.Clear) : (r.takeWhile p).2.Clear := clear_seek p h

theorem clear_digits (h : r.Clear) : r.digits.2.Clear := clear_takeWhile _ h

theorem clear_fraction (h : r.Clear) : r.fraction.2.Clear := by
  unfold fraction
  split
  · next hread => exact clear_digits (h.read hread).of_unread
  · next hread => exact h.read hread

theorem clear_sign (h : r.Clear) : r.sign.2.Clear ∧ r.sign.1 ≠ some ';' := by
  unfold sign
  split
  · next hread => exact ⟨(h.read hread).of_unread, fun h => by cases h⟩
  · next hread => exact ⟨(h.read hread).of_unread, fun h => by cases h⟩
  · next hread => exact ⟨h.read hread, nofun⟩

theorem clear_exponent (h : r.Clear) : r.exponent.2.Clear := by
  unfold exponent
  split
  · next hread => exact h.read hread
  · next mark r' hread =>
    have hread := h.read hread
    split
    · next isMark =>
      obtain ⟨hsign, ne⟩ := clear_sign hread.of_unread
      have hdigits := clear_digits hsign
      have notPrint : some mark ≠ some ';' := by
        rintro ⟨rfl⟩
        cases isMark <;> contradiction
      dsimp only
      split
      -- Without a digit the sign and the mark go back on top of what was put back.
      · exact (hdigits.unread ne).unread notPrint
      · exact hdigits
    · exact hread

theorem clear_numeral (h : r.Clear) : r.numeral.state.Clear := by
  have hfraction := clear_fraction (clear_digits h)
  unfold numeral
  dsimp only
  split
  · exact hfraction
  · exact clear_exponent hfraction

end Reader

namespace Script

variable {s s' : Script} {t : Token} {c : Char}

theorem clear_tokenFrom (h : (s.reader.unread c).Clear) : (s.tokenFrom c).state.reader.Clear := by
  unfold tokenFrom
  split
  · exact h.of_unread
  split
  · have hnumeral := Reader.clear_numeral h
    split
    all_goals
      next hn =>
      rw [hn] at hnumeral
      exact hnumeral
  split
  · exact Reader.clear_takeWhile _ h.of_unread
  · exact h.of_unread

theorem clear_next (h : s.reader.Clear) : s.next.state.reader.Clear := by
  have hseek := Reader.clear_seek Text.isBlank h
  unfold next
  dsimp only
  split
  · exact hseek.of_unread
  · next c hc =>
    rw [hc] at hseek
    exact clear_tokenFrom hseek

theorem wordToken_ne_print (s : Script) (name : String) : (s.wordToken name).kind ≠ .print := by
  unfold wordToken
  split <;> exact Kind.noConfusion

/-- Of the characters only `;` gives the token that ends a statement. -/
theorem eq_semicolon_of_print (h : s.tokenFrom c = .ok t s') (isPrint : t.kind = .print) :
    c = ';' ∧ s' = s := by
  unfold tokenFrom at h
  split at h
  · next kind hk =>
    injection h with ht hs
    subst ht hs
    have hprint : kind = .print := isPrint
    subst hprint
    injection Kind.symbol?_of_ofSymbol? hk with hc
    exact ⟨hc.symm, rfl⟩
  split at h
  · split at h
    · injection h with ht
      rw [← ht] at isPrint
      cases isPrint
    · cases h
  split at h
  · injection h with ht
    exact absurd (ht ▸ isPrint) (wordToken_ne_print s _)
  · cases h

/-- A token that ends a statement leaves nothing put back. -/
theorem pushed_of_print (h : s.reader.Clear) (hnext : s.next = .ok t s')
    (isPrint : t.kind = .print) : s'.reader.pushed = [] := by
  have hseek := Reader.clear_seek Text.isBlank h
  unfold next at hnext
  dsimp only at hnext
  split at hnext
  · injection hnext with ht
    rw [← ht] at isPrint
    cases isPrint
  · next c hc =>
    obtain ⟨rfl, rfl⟩ := eq_semicolon_of_print hnext isPrint
    rw [hc] at hseek
    exact hseek.pushed_eq_nil

/-- What is dropped goes past all that was put back. -/
theorem pushed_skipPast (h : s.reader.Clear) : (s.skipPast .print).2.reader.pushed = [] := by
  unfold skipPast Reader.seek
  dsimp only
  split
  · next c left hpushed =>
    have suffix : c :: left <:+ s.reader.pushed := hpushed ▸ List.dropWhile_suffix _
    have stops := List.head?_dropWhile_not (fun c => Kind.print.symbol? ≠ some c) s.reader.pushed
    rw [hpushed] at stops
    injection not_not.mp (of_decide_eq_false stops) with hc
    subst hc
    exact h left suffix
  · split <;> rfl

end Script

/-! ## Along a session -/

/-- What is left ends the text, and nothing was put back below a `;`, nor when one was
    taken that is to be put back. -/
def shallow (code : List Char) : Invariant Script :=
  .ofNext
    (fun print a => a.rest <:+ code ∧ a.reader.Clear ∧ (print = true → a.reader.pushed = []))
    (by
      rintro a b t ⟨suffix, clear, -⟩ hb
      have next : Script.next a = .of (.ok t) b := hb
      obtain ⟨-, -, rest⟩ := Script.lexes_of_next next
      have hclear := Script.clear_next clear
      rw [next] at hclear
      exact ⟨rest.trans suffix, hclear, fun isPrint =>
        Script.pushed_of_print clear next (of_decide_eq_true isPrint)⟩)
    (by
      rintro a b f ⟨suffix, clear, -⟩ hb
      have next : Script.next a = .of (.error f) b := hb
      obtain ⟨-, -, rest⟩ := Script.lexes_of_next next
      have hclear := Script.clear_next clear
      rw [next] at hclear
      exact ⟨rest.trans suffix, hclear, nofun⟩)

namespace State

variable {code left : List Char} {s : State Script} {first : Except Fault Token} {limit : Limit}

theorem shallow_through (t : Token) (s : State Script) (h : (shallow code).drawn t s)
    (_ : t.kind = .print) : (shallow code).holds s := by
  obtain ⟨supply, slot, vars⟩ := s
  obtain ⟨rfl, suffix, clear, -⟩ := h
  exact ⟨suffix, clear, nofun⟩

theorem shallow_statement (h : (shallow code).holds s) (limit : Limit) :
    (shallow code).holds (s.statement limit).state :=
  (shallow code).state_statement shallow_through h limit

/-- To give up leaves nothing put back. -/
theorem shallow_giveUp (h : (shallow code).holds s) :
    (shallow code).holds (s.giveUp .print).2 ∧ (s.giveUp .print).2.supply.reader.pushed = [] := by
  obtain ⟨suffix, clear, nothing⟩ := h
  by_cases held : s.slot.any fun (t : Token) => t.kind = .print
  · rw [giveUp_held held]
    exact ⟨⟨suffix, clear, nofun⟩, nothing held⟩
  · have pushed := Script.pushed_skipPast clear
    have rest := (suffix_skipPast .print s.supply).trans suffix
    rw [giveUp_dropped held]
    exact ⟨⟨rest, Reader.clear_of_pushed_eq_nil pushed, nofun⟩, pushed⟩

/-- A turn leaves what its statement leaves, or that given up. -/
theorem turn_snd (limit : Limit) (s : State Script) : (s.turn limit).2 = (s.statement limit).state ∨
    (s.turn limit).2 = ((s.statement limit).state.giveUp .print).2 := by
  unfold turn
  rcases s.statement limit with ⟨_ | v, s'⟩ | ⟨f, s'⟩
  · exact .inl rfl
  · exact .inl rfl
  · cases hf : f.recoverable with
    | true => exact .inr (if_pos hf)
    | false => exact .inl (if_neg (by rw [hf]; exact Bool.false_ne_true))

theorem shallow_turn (h : (shallow code).holds s) (limit : Limit) :
    (shallow code).holds (s.turn limit).2 := by
  have hstatement := shallow_statement h limit
  rcases turn_snd limit s with heq | heq
  · rw [heq]
    exact hstatement
  · rw [heq]
    exact (shallow_giveUp hstatement).1

theorem shallow_turns (limit : Limit) (n : Nat) (h : (shallow code).holds s) :
    (shallow code).holds (s.turns limit n).2 := by
  induction n generalizing s with
  | zero => exact h
  | succ n ih => exact ih (shallow_turn h limit)

end State

/-! ## Behind the first `;` -/

section Behind

variable {constants : Bindings} {u left : List Char} {first : Except Fault Token}

theorem FirstLexeme.suffix (h : FirstLexeme constants u first left) : left <:+ u := by
  induction h with
  | here lexeme notPrint => exact lexeme.suffix
  | behind lexeme isPrint first ih => exact ih.trans lexeme.suffix

theorem State.First.suffix {s : State Script} (h : s.First first left) :
    left <:+ s.supply.rest := by
  cases h with
  | held => exact List.suffix_refl _
  | read slot first => exact first.suffix

end Behind

section Session

variable {code left : List Char} {s : State Script} {first : Except Fault Token}

/-- Inside a statement what is behind its `;` is ahead: it is when the statement is given up. -/
theorem behindFirst_suffix_of_within {constants : Bindings}
    (inside : (within constants left).holds s) (h : (shallow code).holds s) :
    behindFirst left <:+ s.supply.reader.ahead := by
  have rest := (giveUp_of_within inside).2
  have pushed := (shallow_giveUp h).2
  rw [Script.rest, Reader.rest, pushed, List.nil_append] at rest
  obtain ⟨read, hread, -⟩ := (local_giveUp .print s).past
  exact ⟨read, by rw [← rest]; exact hread.symm⟩

/-- So it is behind the statement, also where the `;` is lost. -/
theorem behindFirst_suffix (h : (shallow code).holds s) (begins : s.First first left)
    (limit : Limit) :
    behindFirst left <:+ (s.statement limit).state.supply.reader.ahead := by
  obtain ⟨inside, begun⟩ := within_firstToken begins
  obtain ⟨kept, drawn⟩ := (shallow code).firstToken shallow_through h
  have ends := ((within s.supply.constants left).and (shallow code)).ends_statement (s := s)
    (fun f s₁ hfirst => ⟨inside f s₁ hfirst, kept f s₁ hfirst⟩)
    (fun t s₁ hfirst => ⟨begun t s₁ hfirst, drawn t s₁ hfirst⟩) limit
  obtain ⟨inside, kept⟩ | ⟨-, s', t, hstatement, drawn⟩ := ends
  · exact behindFirst_suffix_of_within inside kept
  · rw [hstatement]
    by_cases isPrint : t.kind = .print
    · have rest := (Swallowed.of_drawn drawn.1 isPrint).rest
      obtain ⟨-, -, -, nothing⟩ := drawn.2
      rw [Script.rest, Reader.rest, nothing (decide_eq_true isPrint), List.nil_append] at rest
      exact rest ▸ List.suffix_refl _
    · obtain ⟨inside, kept⟩ := Invariant.holds_of_drawn _ drawn isPrint
      exact behindFirst_suffix_of_within inside kept

/-- With text behind the `;`, if only the end of its line, a statement needs no more. -/
theorem statement_extend (h : (shallow code).holds s) (begins : s.First first left) (limit : Limit)
    (behind : behindFirst left ≠ []) (more : String) :
    (s.extend more).statement limit = (s.statement limit).inside (·.extend more) := by
  refine (local_statement limit).extend ?_ more
  rw [exhausted, List.isEmpty_eq_false_iff]
  intro hnil
  have suffix := behindFirst_suffix h begins limit
  rw [hnil] at suffix
  exact behind (List.suffix_nil.mp suffix)

/-- A reader on its way has taken as many characters as are no longer ahead. -/
theorem Reader.Past.taken_le {r r' : Reader} {before post : List Char} (h : r.Past r')
    (whole : r.ahead = before ++ post) (post : post <:+ r'.ahead) :
    r'.taken ≤ r.taken + before.length := by
  obtain ⟨read, ahead, taken⟩ := h
  have := post.length_le
  have := congrArg List.length (ahead.symm.trans whole)
  simp only [List.length_append] at this
  omega

end Session

/-- **A session reads no further than it must, and nothing else counts.** After any
    number of turns let a statement follow, and let `left` be the text behind its
    first token. If there is a `;` in `left`, then up to the first one at most are
    characters taken from the text by the statement, however it ends. And if
    the turns have not taken the whole text, then on every other text that begins with
    what they took, they have the same answers and leave the same, but for what is
    still ahead. -/
theorem turns_read_no_further (limit : Limit) (n : Nat) (scope : Scope) (code : String) :
    let run := (scope.start code).turns limit n
    let s := run.2
    let p := s.supply.reader.taken
    ((∃ first left, s.First first left) ∧ ∀ first left pre post, s.First first left →
      left = pre ++ ';' :: post → ';' ∉ pre →
        ∃ before, code.toList = before ++ ';' :: post ∧
          (s.statement limit).state.supply.reader.taken ≤ before.length + 1) ∧
    (p < code.length → ∀ code' : String, code'.toList.take p = code.toList.take p →
      (scope.start code').turns limit n =
        (run.1, { s with supply.reader.ahead := code'.toList.drop p })) := by
  intro run s p
  have begun : (shallow code.toList).holds (scope.start code) :=
    ⟨List.suffix_refl _, Reader.clear_of_pushed_eq_nil rfl, nofun⟩
  have kept : (shallow code.toList).holds s := shallow_turns limit n begun
  have onward := (local_turns limit n (scope.start code)).past
  refine ⟨⟨s.first_exists, fun first left pre post begins hleft hpre => ?_⟩,
    fun more code' same => turns_of_take_eq rfl more same⟩
  have printed : ';' :: post <:+ left := ⟨pre, hleft.symm⟩
  obtain ⟨before, hbefore⟩ := (printed.trans begins.suffix).trans kept.1
  have whole : code.toList = (before ++ [';']) ++ post := by
    rw [List.append_assoc]
    exact hbefore.symm
  have behind : behindFirst left = post := by
    rw [hleft, behindFirst_append hpre]
    rfl
  have stated := behindFirst_suffix kept begins limit
  rw [behind] at stated
  have past : (scope.start code).supply.reader.Past (s.statement limit).state.supply.reader :=
    onward.trans (local_statement limit s).past
  have upTo := past.taken_le whole stated
  rw [List.length_append] at upTo
  exact ⟨before, hbefore.symm, upTo.trans (Nat.le_of_eq (Nat.zero_add _))⟩

/-- Behind `1;` the exponent without a digit is read up to the `;` and no further. The
    answer to `1;` is the same with anything else behind it. -/
theorem turns_before_bare_exponent :
    let scope : Scope := .ofConstants .empty
    let s : State Script := ⟨⟨⟨[], "2e+;4".toList, 2⟩, .empty⟩, some (.mark .print), .empty⟩
    (scope.start "1;2e+;4").turns nestingLimit 1 = ([.value 1], s) ∧
      s.First (.ok (.number 2)) "e+;4".toList ∧
      (s.statement nestingLimit).state.supply.reader.taken ≤ 6 ∧
      (scope.start "1;9)").turns nestingLimit 1 =
        ([.value 1], { s with supply.reader.ahead := "9)".toList }) := by
  intro scope s
  have turn : (scope.start "1;2e+;4").turns nestingLimit 1 = ([.value 1], s) := by decide +kernel
  have number : s.supply.next = .of (.ok (.number 2)) ⟨⟨['e', '+', ';'], ['4'], 6⟩, .empty⟩ := by
    decide +kernel
  have begins : s.First (.ok (.number 2)) "e+;4".toList :=
    .read (fun t slot => by injection slot with slot; exact slot ▸ rfl)
      (.here (Script.lexes_of_next number).1 fun t ht => by injection ht with ht; exact ht ▸ nofun)
  obtain ⟨⟨-, reads⟩, same⟩ := turns_read_no_further nestingLimit 1 scope "1;2e+;4"
  rw [turn] at reads same
  obtain ⟨before, whole, upTo⟩ :=
    reads (.ok (.number 2)) "e+;4".toList ['e', '+'] ['4'] begins rfl (by decide)
  have length : 7 = (before ++ [';', '4']).length := congrArg List.length whole
  have length : before.length = 5 := by
    rw [List.length_append, List.length_cons, List.length_singleton] at length
    omega
  rw [length] at upTo
  exact ⟨turn, begins, upTo, same (by decide) "1;9)" rfl⟩

end Reckoner
