/-
  At most three characters are put back.

  A mark of an exponent that has no digit is put back with the sign behind it and the
  character that was no digit: three at once, as behind `1e+;`. They come to no more than
  three, for more are put back only behind a numeral, and a numeral begins with all that was
  put back taken: no digit is ever among it, and a point at most below all others
  (`Reader.PutBack`). What does not read a numeral leaves a part of what was put back, or a
  single character on nothing.

  With that, what is left to be read ends the text that was left before (`modest`). Both are
  kept by each call on a state (`modest_leave`), and so by any number of them.

  Proved: `putBack_of_calls`.
-/
import Reckoner.Proofs.Steady

namespace Reckoner

open State

/-! ## What was put back -/

namespace Reader

/-- At most `k` characters were put back, no digit among them. -/
structure PutBack (k : Nat) (r : Reader) : Prop where
  few : r.pushed.length ≤ k
  noDigit : ∀ c ∈ r.pushed, c.isDigit = false
  /-- A point is below all others. -/
  noPoint : '.' ∉ r.pushed.dropLast

variable {r r' : Reader} {c : Option Char} {k l : Nat}

namespace PutBack

theorem mono (h : r.PutBack k) (hk : k ≤ l) : r.PutBack l :=
  ⟨h.few.trans hk, h.noDigit, h.noPoint⟩

theorem of_suffix (h : r.PutBack k) (suffix : r'.pushed <:+ r.pushed) : r'.PutBack k := by
  refine ⟨suffix.length_le.trans h.few, fun c hc => h.noDigit c (suffix.mem hc), fun hp => ?_⟩
  obtain ⟨front, hfront⟩ := suffix
  have ne : r'.pushed ≠ [] := by
    intro hnil
    rw [hnil] at hp
    cases hp
  have noPoint := h.noPoint
  rw [← hfront, List.dropLast_append_of_ne_nil ne] at noPoint
  exact noPoint (List.mem_append_right front hp)

/-- One more, with which no numeral begins. -/
theorem unread (h : r.PutBack k) (begins : ∀ d, c = some d → Script.beginsNumeral d = false) :
    (r.unread c).PutBack (k + 1) := by
  cases c with
  | none => exact h.mono (Nat.le_succ k)
  | some d =>
    have plain := begins d rfl
    rw [Script.beginsNumeral, Bool.or_eq_false_iff, decide_eq_false_iff_not] at plain
    refine ⟨Nat.succ_le_succ h.few, fun e he => ?_, fun hp => ?_⟩
    · rcases List.mem_cons.mp he with rfl | he
      · exact plain.1
      · exact h.noDigit e he
    · change '.' ∈ (d :: r.pushed).dropLast at hp
      cases hpushed : r.pushed with
      | nil =>
        rw [hpushed] at hp
        cases hp
      | cons e es =>
        rw [hpushed, List.dropLast_cons_cons, ← hpushed] at hp
        rcases List.mem_cons.mp hp with hd | hp
        · exact plain.2 hd.symm
        · exact h.noPoint hp

/-- A character that begins a numeral is put back on nothing. -/
theorem pushed_eq_nil {d : Char} (h : (r.unread (some d)).PutBack k)
    (begins : Script.beginsNumeral d = true) : r.pushed = [] := by
  have digit := h.noDigit d List.mem_cons_self
  rw [Script.beginsNumeral, digit, Bool.false_or, decide_eq_true_eq] at begins
  subst begins
  have noPoint := h.noPoint
  change '.' ∉ ('.' :: r.pushed).dropLast at noPoint
  cases hpushed : r.pushed with
  | nil => rfl
  | cons e es =>
    rw [hpushed, List.dropLast_cons_cons] at noPoint
    exact absurd List.mem_cons_self noPoint

end PutBack

theorem putBack_of_pushed_eq_nil (h : r.pushed = []) : r.PutBack k :=
  ⟨by rw [h]; exact Nat.zero_le k, by rw [h]; nofun, by rw [h]; nofun⟩

/-- A single character, if it is no digit. -/
theorem putBack_of_ends (few : r.pushed.length ≤ 1) (ends : Ends Char.isDigit r.rest) :
    r.PutBack 1 := by
  refine ⟨few, fun c hc => ?_, fun hp => ?_⟩
  · refine ends c ?_
    cases hpushed : r.pushed with
    | nil =>
      rw [hpushed] at hc
      cases hc
    | cons d ds =>
      have single : ds = [] := by
        rw [hpushed] at few
        exact List.length_eq_zero_iff.mp (Nat.le_zero.mp (Nat.le_of_succ_le_succ few))
      rw [hpushed, single] at hc
      rw [rest, hpushed, List.mem_singleton.mp hc]
      rfl
  · have := List.length_pos_of_mem hp
    rw [List.length_dropLast] at this
    omega

/-! ## Numerals -/

theorem length_pushed_takeWhile_le (p : Char → Bool) (few : r.pushed.length ≤ 1) :
    (r.takeWhile p).2.pushed.length ≤ 1 := by
  rcases pushed_seek p r with suffix | nothing
  · exact suffix.length_le.trans few
  · exact length_pushed_unread_le nothing _

theorem pushed_of_read (few : r.pushed.length ≤ 1) (h : r.read = (c, r')) : r'.pushed = [] := by
  obtain ⟨pushed, ahead, taken⟩ := r
  cases pushed with
  | cons d pushed =>
    cases h
    exact List.length_eq_zero_iff.mp (Nat.le_zero.mp (Nat.le_of_succ_le_succ few))
  | nil => cases ahead <;> cases h <;> rfl

theorem length_pushed_fraction_le (few : r.pushed.length ≤ 1) :
    r.fraction.2.pushed.length ≤ 1 := by
  unfold fraction
  split
  · next hread =>
    exact length_pushed_takeWhile_le _ (by rw [pushed_of_read few hread]; exact Nat.zero_le 1)
  · next hread => exact length_pushed_unread_le (pushed_of_read few hread) _

theorem length_pushed_sign_le (few : r.pushed.length ≤ 1) : r.sign.2.pushed.length ≤ 1 := by
  unfold sign
  split
  · next hread => exact (pushed_of_read few hread) ▸ Nat.zero_le 1
  · next hread => exact (pushed_of_read few hread) ▸ Nat.zero_le 1
  · next hread => exact length_pushed_unread_le (pushed_of_read few hread) _

/-- What stands behind a numeral is put back on nothing, three characters at most. -/
theorem putBack_exponent (few : r.pushed.length ≤ 1) (ends : Ends Char.isDigit r.rest) :
    r.exponent.2.PutBack 3 := by
  have append := r.read_append
  unfold exponent
  split
  · next hread => exact putBack_of_pushed_eq_nil (pushed_of_read few hread)
  · next mark r' hread =>
    have nothing := pushed_of_read few hread
    rw [hread] at append
    split
    · next isMark =>
      have few' : r'.pushed.length ≤ 1 := nothing ▸ Nat.zero_le 1
      have digits : r'.sign.2.digits.2.PutBack 1 :=
        putBack_of_ends (length_pushed_takeWhile_le _ (length_pushed_sign_le few'))
          (digits_spec _).2
      have signed : (r'.sign.2.digits.2.unread r'.sign.1).PutBack 2 := digits.unread fun d hd => by
        rcases r'.sign_form with h | h | h <;> rw [hd] at h <;> cases h <;> rfl
      have marked : ((r'.sign.2.digits.2.unread r'.sign.1).unread (some mark)).PutBack 3 :=
        signed.unread fun d hd => by
          injection hd with hd
          rcases isMark with rfl | rfl <;> subst hd <;> rfl
      dsimp only
      split
      · exact marked
      · exact digits.mono (by omega)
    · have unmarked : (r'.unread (some mark)).PutBack 1 := by
        refine putBack_of_ends (length_pushed_unread_le nothing _) ?_
        rw [rest_unread, append]
        exact ends
      exact unmarked.mono (by omega)

theorem putBack_numeral (few : r.pushed.length ≤ 1) : r.numeral.state.PutBack 3 := by
  have few' := length_pushed_fraction_le (length_pushed_takeWhile_le Char.isDigit few)
  have ends := ends_fraction r.digits_spec.2
  unfold numeral
  dsimp only
  split
  · exact (putBack_of_ends few' ends).mono (by omega)
  · exact putBack_exponent few' ends

/-! ## Other lexemes -/

/-- Behind a stretch as much is put back, and nothing where a numeral begins. -/
theorem PutBack.seek (h : r.PutBack k) (p : Char → Bool) :
    (r.seek p).reader.PutBack k ∧ ∀ d, (r.seek p).stop = some d →
      Script.beginsNumeral d = true → (r.seek p).reader.pushed = [] := by
  rcases pushed_seek p r with suffix | nothing
  · have whole := h.of_suffix suffix
    refine ⟨whole.of_suffix ?_, fun d hd begins => ?_⟩
    · cases (r.seek p).stop with
      | none => exact List.suffix_refl _
      | some d => exact List.suffix_cons d _
    · rw [hd] at whole
      exact whole.pushed_eq_nil begins
  · exact ⟨putBack_of_pushed_eq_nil nothing, fun _ _ _ => nothing⟩

/-- A run of characters with all digits among them. -/
theorem PutBack.takeWhile (h : r.PutBack k) (hk : 1 ≤ k) {p : Char → Bool}
    (digits : ∀ c : Char, c.isDigit = true → p c = true) : (r.takeWhile p).2.PutBack k := by
  rcases pushed_seek p r with suffix | nothing
  · exact h.of_suffix suffix
  · refine (putBack_of_ends (length_pushed_unread_le nothing _) fun c hc => ?_).mono hk
    have hrest : ((r.seek p).reader.unread (r.seek p).stop).rest = r.rest.dropWhile p :=
      rest_takeWhile p r
    rw [hrest] at hc
    exact Bool.eq_false_iff.mpr fun digit =>
      Bool.eq_false_iff.mp (ends_dropWhile p r.rest c hc) (digits c digit)

end Reader

namespace Script

variable {s : Script} {c : Char}

theorem putBack_tokenFrom (h : s.reader.PutBack 3)
    (fresh : beginsNumeral c = true → s.reader.pushed = []) :
    (s.tokenFrom c).state.reader.PutBack 3 := by
  unfold tokenFrom
  split
  · exact h
  split
  · next begins =>
    have hnumeral := Reader.putBack_numeral (Reader.length_pushed_unread_le (fresh begins) (some c))
    split
    all_goals
      next hn =>
      rw [hn] at hnumeral
      exact hnumeral
  split
  · exact h.takeWhile (by omega) fun c digit =>
      (congrArg (c.isAlpha || ·) digit).trans (Bool.or_true _)
  · exact h

theorem putBack_next (h : s.reader.PutBack 3) : s.next.state.reader.PutBack 3 := by
  obtain ⟨hseek, fresh⟩ := h.seek Text.isBlank
  unfold next
  dsimp only
  split
  · exact hseek
  · next c hstop => exact putBack_tokenFrom hseek (fresh c hstop)

theorem putBack_skipPast (h : s.reader.PutBack 3) (kind : Kind) :
    (s.skipPast kind).2.reader.PutBack 3 := (h.seek _).1

end Script

/-! ## Calls -/

/-- A request, or a token put into the slot. -/
inductive Call where
  | request (r : Request)
  | hold (t : Token)
  deriving DecidableEq

section Calls

variable {σ : Type} [Supply σ]

/-- What a call leaves, also where it fails. -/
def Call.leave : Call → State σ → State σ
  | .request r, s => (r.answer s).state
  | .hold t, s => (s.hold t).state

/-- What some calls leave, one after the other. -/
def State.behind (s : State σ) (calls : List Call) : State σ :=
  calls.foldl (fun s c => c.leave s) s

end Calls

theorem Script.modest_next {text : List Char} {a b : Script} {r : Except Fault Token}
    (h : a.rest <:+ text ∧ a.reader.PutBack 3) (hb : a.next = .of r b) :
    b.rest <:+ text ∧ b.reader.PutBack 3 := by
  have suffix := (lexes_of_next hb).2.2
  have few := putBack_next h.2
  rw [hb] at few
  cases r <;> exact ⟨suffix.trans h.1, few⟩

/-- What is left ends the text, and few characters were put back. -/
def modest (text : List Char) : Invariant Script :=
  .ofNext (fun _ a => a.rest <:+ text ∧ a.reader.PutBack 3)
    (fun _ _ t h hb => Script.modest_next (r := .ok t) h hb)
    (fun _ _ f h hb => Script.modest_next (r := .error f) h hb)

section Texts

variable {text : List Char} {s : State Script}

theorem modest_giveUp (h : (modest text).holds s) (kind : Kind) :
    (modest text).holds (s.giveUp kind).2 := by
  by_cases held : s.slot.any fun (t : Token) => t.kind = kind
  · rw [giveUp_held held]
    exact h
  · rw [giveUp_dropped held]
    exact ⟨(suffix_skipPast kind s.supply).trans h.1, Script.putBack_skipPast h.2 kind⟩

theorem modest_steady (text : List Char) : ((modest text).lockstep false).Steady where
  of_drawn h := ⟨h.1, h.2.2⟩
  of_failed h := ⟨h.1, h.2.resolve_right fun lost => Bool.false_ne_true lost.1⟩
  giveUp {s u} h kind := by
    obtain ⟨rfl, h⟩ := h
    exact ⟨rfl, rfl, modest_giveUp h kind⟩

/-- Each call keeps it. -/
theorem modest_leave (h : (modest text).holds s) (c : Call) : (modest text).holds (c.leave s) := by
  cases c with
  | request r => exact Invariant.state_answer (modest_steady text) h r
  | hold t =>
    obtain ⟨supply, slot, vars⟩ := s
    cases slot <;> exact h

/-- So do any number of them. -/
theorem modest_behind (h : (modest text).holds s) (calls : List Call) :
    (modest text).holds (s.behind calls) := by
  induction calls generalizing s with
  | nil => exact h
  | cons c calls ih => exact ih (modest_leave h c)

/-- A token that is not in the slot costs some text, but for the `quit` at the end of it. -/
theorem State.length_rest_token_lt (empty : s.slot = none) :
    (∃ s', s.token = .ok (.mark .quit) s' ∧ s.supply.rest.dropWhile Text.isBlank = []) ∨
      s.token.state.supply.rest.length < s.supply.rest.length := by
  obtain ⟨result, reader, lexes, next⟩ := s.supply.next_lexes
  have htoken : s.token = .of result { s with supply := { s.supply with reader } } := by
    rw [State.token, empty]
    change (Script.next s.supply).inside _ = _
    rw [next]
    cases result <;> rfl
  rw [htoken]
  rcases lexes.length_lt with ⟨nothing, rfl⟩ | shorter
  · exact .inl ⟨_, rfl, nothing⟩
  · right
    have blanks := (List.dropWhile_suffix (l := s.supply.rest) Text.isBlank).length_le
    cases result <;> exact Nat.lt_of_lt_of_le shorter blanks

end Texts

/-- **No character is lost, and few are put back.** From the beginning of a text let any calls be
    made, in any order and although some fail: for tokens, to put any token back, to give up, to
    the rules, for statements and for whole sessions. At each point between them what is to
    be read, the characters put back and the text ahead, ends the text; the next call leaves an
    end of that; a token that is not in the slot makes it shorter, but for the `quit` where only
    blanks are left; and at most three characters are put back, none of them a digit. -/
theorem putBack_of_calls (scope : Scope) (code : String) (calls : List Call) :
    let s := (scope.start code).behind calls
    let reader := s.supply.reader
    reader.pushed ++ reader.ahead <:+ code.toList ∧
      (∀ c : Call, (c.leave s).supply.rest <:+ reader.pushed ++ reader.ahead) ∧
      (s.slot = none →
        (∃ s', s.token = .ok (.mark .quit) s' ∧ s.supply.rest.dropWhile Text.isBlank = []) ∨
          s.token.state.supply.rest.length < s.supply.rest.length) ∧
      reader.pushed.length ≤ 3 ∧ ∀ c ∈ reader.pushed, c.isDigit = false := by
  intro s reader
  have begun : (modest code.toList).holds (scope.start code) :=
    ⟨List.suffix_refl _, Reader.putBack_of_pushed_eq_nil rfl⟩
  obtain ⟨suffix, few⟩ := modest_behind begun calls
  have here : (modest s.supply.rest).holds s := ⟨List.suffix_refl _, few⟩
  exact ⟨suffix, fun c => (modest_leave here c).1, State.length_rest_token_lt, few.few, few.noDigit⟩

/-- Behind `1` the mark, the sign and the point are put back: the numeral there begins with the
    point. What was in the slot before is of no account. -/
theorem putBack_behind_bare_exponent :
    let calls : List Call := [.hold (.mark .opening), .request .token, .request .token]
    let s := ((Scope.ofConstants .builtin).start "1e+.5").behind calls
    s.slot = none ∧ s.supply.reader.pushed = ['e', '+', '.'] ∧
      s.token.state.supply.rest.length < s.supply.rest.length := by
  intro calls s
  have empty : s.slot = none := by decide +kernel
  have pushed : s.supply.reader.pushed = ['e', '+', '.'] := by decide +kernel
  have more : s.supply.rest.dropWhile Text.isBlank ≠ [] := by decide +kernel
  obtain ⟨-, -, shorter, -⟩ := putBack_of_calls (.ofConstants .builtin) "1e+.5" calls
  rcases shorter empty with ⟨-, -, nothing⟩ | shorter
  · exact absurd nothing more
  · exact ⟨empty, pushed, shorter⟩

end Reckoner
