/-
  One slot is enough.

  A `Request` is a call on a state: for a token, to give a statement up, to one of
  the rules, for a statement or for a whole session, each with the nesting limit at
  the call. An `exchange` answers one request after the other, each from the state
  that the last one left, whatever became of it.

  Proved: `slot_of_exchange`. Whatever is in the slot at the beginning, no answer
  puts a second token back; and what the slot holds behind an answer is known.
-/
import Reckoner.Proofs.Faults
import Reckoner.Proofs.Soundness

namespace Reckoner

open State

/-! ## Requests -/

/-- A call on a state. -/
inductive Request where
  | token
  | giveUp (kind : Kind)
  | operand (limit : Limit)
  | product (limit : Limit)
  | sum (limit : Limit)
  | divisor (limit : Limit)
  | statement (limit : Limit)
  | session (limit : Limit)
  deriving DecidableEq

/-- What a call returns. -/
inductive Reply where
  | token (t : Token)
  | dropped (count : Option Nat)
  | value (value : Float)
  /-- There are no more statements. -/
  | over
  | shown (events : List Event)
  deriving DecidableEq

section Answers

variable {σ : Type} [Supply σ]

/-- A session returns at its end, or fails with the fault that ended it. -/
def Conversation.reply (c : Conversation σ) : Outcome (State σ) Reply :=
  match c.fatal with
  | none => .ok (.shown c.events) c.state
  | some f => .fault f c.state

def Request.answer : Request → State σ → Outcome (State σ) Reply
  | .token, s => s.token.andThen fun t s => .ok (.token t) s
  | .giveUp kind, s => .ok (.dropped (s.giveUp kind).1) (s.giveUp kind).2
  | .operand limit, s => ((Rule.operand limit).run s).andThen fun v s => .ok (.value v) s
  | .product limit, s => ((Rule.product limit).run s).andThen fun v s => .ok (.value v) s
  | .sum limit, s => ((Rule.sum limit).run s).andThen fun v s => .ok (.value v) s
  | .divisor limit, s => (Rule.divisor limit s).andThen fun v s => .ok (.value v) s
  | .statement limit, s => (s.statement limit).andThen fun v s => .ok (v.elim .over .value) s
  | .session limit, s => (s.converse limit).reply

/-- The answers to some requests, one after the other. A fault does not end them. -/
def exchange : List Request → State σ → List (Request × Outcome (State σ) Reply)
  | [], _ => []
  | r :: rs, s => (r, r.answer s) :: exchange rs (r.answer s).state

/-- What is so of each answer, from whatever state, is so in each exchange. -/
theorem of_mem_exchange {P : Request → Outcome (State σ) Reply → Prop}
    (hanswer : ∀ r s, P r (r.answer s)) {requests : List Request} {s : State σ} {r : Request}
    {o : Outcome (State σ) Reply} (h : (r, o) ∈ exchange requests s) : P r o := by
  induction requests generalizing s with
  | nil => cases h
  | cons q qs ih =>
    rcases List.mem_cons.mp h with h | h
    · injection h with hr ho
      subst hr ho
      exact hanswer r s
    · exact ih h

end Answers

/-! ## Answers -/

/-- What only passes a value on fails as what gave it. -/
theorem Outcome.eq_fault_of_andThen {σ α β : Type} {o : Outcome σ α} {k : α → β} {f : Fault} {s : σ}
    (h : (o.andThen fun a s => .ok (k a) s) = .fault f s) : o = .fault f s := by
  cases o with
  | ok a s₁ => cases h
  | fault g s₁ =>
    injection h with hf hs
    rw [hf, hs]

section Faults

variable {s s' : State Script} {f : Fault}

/-- A call that fails does so with what a text leads to, and with a bad token it
    leaves the slot empty. -/
theorem Request.textual_answer (r : Request) (h : r.answer s = .fault f s') :
    f.Textual .any ∧ (f.category = .badToken → s'.slot = none) := by
  have holds := Vocabulary.holds_any s
  have joined : (alone .any).joined s s := ⟨rfl, holds⟩
  have rules (limit : Limit) := (alone .any).follows_rules limit fun _ => alone_loses
  cases r with
  | token => exact (failed_of_both ((alone .any).token joined) (Outcome.eq_fault_of_andThen h)).2
  | giveUp kind => cases h
  | operand limit =>
    exact (failed_of_both ((rules limit).2.2 s s joined) (Outcome.eq_fault_of_andThen h)).2
  | product limit =>
    exact (failed_of_both ((rules limit).2.1 s s joined) (Outcome.eq_fault_of_andThen h)).2
  | sum limit => exact (failed_of_both ((rules limit).1 s s joined) (Outcome.eq_fault_of_andThen h)).2
  | divisor limit =>
    have both := (alone .any).follows_divisor limit (fun _ => alone_loses) joined
    exact (failed_of_both both (Outcome.eq_fault_of_andThen h)).2
  | statement limit => exact textual_statement holds (Outcome.eq_fault_of_andThen h)
  | session limit =>
    have textual := textual_converse holds limit
    change (s.converse limit).reply = _ at h
    unfold Conversation.reply at h
    split at h
    · cases h
    · next g hfatal =>
      injection h with hf hs
      subst hf hs
      obtain ⟨hg, fatal⟩ := textual.fatal g hfatal
      exact ⟨hg, fun bad => by rw [hg.eq_noRemainder fatal] at bad; cases bad⟩

end Faults

section Values

variable {σ : Type} [Supply σ] {s s' : State σ} {v : Float} {limit : Limit}

/-- Behind a sum the slot holds a token that is no operator. -/
theorem slot_of_sum (h : (Rule.sum limit).run s = .ok v s') :
    ∃ t, s'.slot = some t ∧ ∀ op, t.kind ≠ .operator op := by
  obtain ⟨d, reading, hslot⟩ := (Rule.sound limit).1 _ _ _ h
  obtain ⟨t, ht⟩ := Option.isSome_iff_exists.mp hslot
  exact ⟨t, ht, (reading.settled (ahead_of_slot ht)).ne_operator⟩

/-- Behind a statement it is no assignment sign either. -/
theorem slot_of_statement (h : s.statement limit = .ok (some v) s') :
    ∃ t, s'.slot = some t ∧ (∀ op, t.kind ≠ .operator op) ∧ t.kind ≠ .assign := by
  obtain ⟨first, s₁, -, h⟩ := Outcome.andThen_eq_ok.mp h
  split at h
  · cases h
  · obtain ⟨_, s₂, -, h⟩ := Outcome.andThen_eq_ok.mp h
    obtain ⟨w, s₃, hsum, h⟩ := Outcome.andThen_eq_ok.mp h
    obtain ⟨t, ht, notOperator⟩ := slot_of_sum hsum
    have htoken := token_of_ahead (ahead_of_slot ht)
    rw [close, htoken, Outcome.andThen_ok] at h
    obtain ⟨_, s₄, hhold, h⟩ := Outcome.andThen_eq_ok.mp h
    split at h
    · cases h
    · next notAssign =>
      injection h with _ hs
      subst hs
      exact ⟨t, (ahead_hold hhold).2.1, notOperator, notAssign⟩

end Values

/-- What a call leaves in the slot. -/
structure Request.Kept (r : Request) (o : Outcome (State Script) Reply) : Prop where
  ne_slotTaken : ∀ f s, o = .fault f s → f ≠ .slotTaken
  empty_of_badToken : ∀ f s, o = .fault f s → f.category = .badToken → s.slot = none
  empty_of_giveUp : ∀ kind, r = .giveUp kind → o.state.slot = none
  full : ∀ limit v s, r = .sum limit ∨ r = .product limit → o = .ok (.value v) s → s.slot.isSome
  behind : ∀ limit v s, r = .statement limit → o = .ok (.value v) s →
    ∃ t, s.slot = some t ∧ (∀ op, t.kind ≠ .operator op) ∧ t.kind ≠ .assign

theorem Request.kept_answer (r : Request) (s : State Script) : r.Kept (r.answer s) where
  ne_slotTaken _ _ h := (r.textual_answer h).1.ne_slotTaken
  empty_of_badToken _ _ h := (r.textual_answer h).2
  empty_of_giveUp kind hr := by
    subst hr
    exact slot_giveUp kind s
  full limit v s' hr h := by
    rcases hr with rfl | rfl
    · obtain ⟨w, s₁, hrun, h⟩ := Outcome.andThen_eq_ok.mp h
      injection h with _ hs
      subst hs
      obtain ⟨d, -, hslot⟩ := (Rule.sound limit).1 _ _ _ hrun
      exact hslot
    · obtain ⟨w, s₁, hrun, h⟩ := Outcome.andThen_eq_ok.mp h
      injection h with _ hs
      subst hs
      obtain ⟨d, -, hslot⟩ := (Rule.sound limit).2.1 _ _ _ hrun
      exact hslot
  behind limit v s' hr h := by
    subst hr
    obtain ⟨w, s₁, hstatement, h⟩ := Outcome.andThen_eq_ok.mp h
    cases w with
    | none => cases h
    | some w =>
      injection h with _ hs
      subst hs
      exact slot_of_statement hstatement

/-- **One slot is enough.** From a text being read and with anything in the slot, in
    whatever order calls are made and although some of them fail, no call puts a
    second token back. Behind the value of a sum or a product the slot is full;
    behind a statement with a value it holds a token that is no operator and no
    assignment sign. Behind a bad token it is empty, and when a statement was given
    up. -/
theorem slot_of_exchange (requests : List Request) (s : State Script) (r : Request)
    (o : Outcome (State Script) Reply) (answered : (r, o) ∈ exchange requests s) : r.Kept o :=
  of_mem_exchange (fun r s => r.kept_answer s) answered

/-- The `;` in the slot is taken. A bad token ends the statement, and the product
    behind it is read to the next `;`. -/
theorem slot_behind_bad_token :
    let s : State Script := ⟨.ofText .builtin "2 $ 3 * 4;".toList, some (.mark .print), .empty⟩
    let bad : State Script := ⟨⟨⟨[], " 3 * 4;".toList, 3⟩, .builtin⟩, none, .empty⟩
    let good : State Script := ⟨⟨⟨[], [], 10⟩, .builtin⟩, some (.mark .print), .empty⟩
    let requests : List Request := [.statement nestingLimit, .product nestingLimit]
    (.statement nestingLimit, .fault (.badToken '$') bad) ∈ exchange requests s ∧
      (.product nestingLimit, .ok (.value 12) good) ∈ exchange requests s ∧
      bad.slot = none ∧ good.slot.isSome := by
  intro s bad good requests
  have first : (.statement nestingLimit, .fault (.badToken '$') bad) ∈ exchange requests s := by
    decide +kernel
  have second : (.product nestingLimit, .ok (.value 12) good) ∈ exchange requests s := by
    decide +kernel
  exact ⟨first, second, (slot_of_exchange _ _ _ _ first).empty_of_badToken _ _ rfl rfl,
    (slot_of_exchange _ _ _ _ second).full nestingLimit 12 good (.inr rfl) rfl⟩

end Reckoner
