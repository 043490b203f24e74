/-
  Two sessions on supplies that give the same.

  A `Coupling` relates two supplies: while they are `live` they give the same
  tokens and faults and drop the same; a `;` may take both `past` the point up to
  which they are alike. Two states are `Joined` if their slots and variables are
  the same and their supplies are live, or past with that `;` still in the slot.

  No rule takes a token behind a `;`: one that meets it puts it back. So joined
  states stay joined through every rule (`lockstep`), and two sessions do the same
  until a statement begins behind that `;`, or on a frail stack loses it (`course`).
  The induction is on the size of the first state, as in the session itself.
-/
import Reckoner.Proofs.Concord

namespace Reckoner

open State Outcome

/-- When two supplies give the same, and when that is over. -/
structure Coupling (σ τ : Type) [Supply σ] [Supply τ] where
  live : σ → τ → Prop
  past : σ → τ → Prop
  next {a : σ} {b : τ} : live a b →
    Both (fun t a b => live a b ∨ t.kind = .print ∧ past a b) (fun _ => live)
      (Supply.next a) (Supply.next b)
  skipPast {a : σ} {b : τ} : live a b →
    (Supply.skipPast .print a).1 = (Supply.skipPast .print b).1 ∧
      (live (Supply.skipPast .print a).2 (Supply.skipPast .print b).2 ∨
        past (Supply.skipPast .print a).2 (Supply.skipPast .print b).2)

namespace Coupling

variable {σ τ : Type} [Supply σ] [Supply τ] (C : Coupling σ τ) {s s' : State σ} {u u' : State τ}
  {t : Token}

/-- The supplies are live, or they are past and the `;` that was the last is held. -/
def Stand (held : Option Token) (a : σ) (b : τ) : Prop :=
  C.live a b ∨ C.past a b ∧ ∃ t, held = some t ∧ t.kind = .print

/-- Behind a fault they stand so too, or they are past and the `;` that was the last is lost:
    the statement was too deep. -/
def Fallen (frail : Bool) (f : Fault) (held : Option Token) (a : σ) (b : τ) : Prop :=
  C.Stand held a b ∨ (frail = true ∧ f = .tooDeep) ∧ held = none ∧ C.past a b

/-- A fault in place of a token leaves the supplies live. -/
def concord (frail : Bool) : Concord σ τ where
  stand := C.Stand
  broken := C.Fallen frail
  next {a b} h := by
    have hnext := C.next (h.resolve_right fun ⟨_, _, hn, _⟩ => nomatch hn)
    generalize Supply.next a = o, Supply.next b = o' at hnext ⊢
    cases hnext with
    | ok h => exact .ok (h.imp_right fun ⟨hk, past⟩ => ⟨past, _, rfl, hk⟩)
    | fault h => exact .fault (.inl (.inl h))
  stand_none h notPrint _ := by
    refine .inl (h.resolve_right ?_)
    rintro ⟨-, t, ht, hk⟩
    injection ht with ht
    exact notPrint (ht ▸ hk)
  broken_of_stand h := .inl h

theorem concord_loses {frail : Bool} (h : frail = true) : (C.concord frail).Loses := by
  rintro t a b (live | ⟨past, -⟩)
  · exact .inl (.inl live)
  · exact .inr ⟨⟨h, rfl⟩, rfl, past⟩

/-- The same slot, the same variables, and supplies that stand so. -/
abbrev Joined (s : State σ) (u : State τ) : Prop := Paired C.Stand s u

/-- What joined states are when the token was taken. -/
abbrev Drawn (t : Token) (s : State σ) (u : State τ) : Prop := Parted C.Stand t s u

variable {C}

theorem Drawn.live (h : C.Drawn t s u) (notPrint : t.kind ≠ .print) : C.live s.supply u.supply := by
  rcases h.supply with live | ⟨-, t', ht, hk⟩
  · exact live
  · injection ht with ht
    exact absurd (ht ▸ hk) notPrint

theorem Drawn.joined (h : C.Drawn t s u) (notPrint : t.kind ≠ .print) : C.Joined s u :=
  (C.concord false).paired_of_parted h (.inl (live h notPrint))

variable (C) in
/-- Joined states stay joined through the actions. -/
def lockstep (frail : Bool) : Lockstep σ τ := (C.concord frail).lockstep

/-- Where a fault ended both runs. -/
abbrev Halted (C : Coupling σ τ) (frail : Bool) (f : Fault) (s : State σ) (u : State τ) : Prop :=
  Paired (C.Fallen frail f) s u

/-! ## Statements -/

theorem eq_ofSupply {υ : Type} [Supply υ] {s : State υ} (h : s.slot = none) :
    s = ofSupply s.supply s.vars := by
  obtain ⟨supply, slot, vars⟩ := s
  subst h
  rfl

theorem joined_of_live (hslot : s.slot = u.slot) (hvars : s.vars = u.vars)
    (live : C.live s.supply u.supply) : C.Joined s u := ⟨hslot, hvars, .inl live⟩

/-- Behind the tokens `;` that may stand there both have the same first token, or
    both are past the last that they share. -/
theorem firstToken (frail : Bool) (h : C.Joined s u) :
    Both (fun t s u => C.Drawn t s u ∧ t.kind ≠ .print) (C.Halted frail)
        s.firstToken u.firstToken ∨
      ∃ a b, C.past a b ∧ s.firstToken = (ofSupply a s.vars).firstToken ∧
        u.firstToken = (ofSupply b s.vars).firstToken := by
  induction s using State.tokenInduction generalizing u with
  | turn s ih =>
    have both : Both C.Drawn (C.Halted frail) s.token u.token := (C.concord frail).token h
    generalize htoken : s.token = o, htoken' : u.token = o' at both
    cases both with
    | fault h₁ =>
      left
      rw [firstToken_eq s, firstToken_eq u, htoken, htoken']
      exact .fault h₁
    | @ok t s₁ u₁ drawn =>
      by_cases isPrint : t.kind = .print
      · have hs : s.firstToken = s₁.firstToken := by
          rw [firstToken_eq s, htoken, Outcome.andThen_ok, if_pos isPrint]
        have hu : u.firstToken = u₁.firstToken := by
          rw [firstToken_eq u, htoken', Outcome.andThen_ok, if_pos isPrint]
        rw [hs, hu, ← vars_of_token htoken]
        rcases drawn.supply with live | ⟨past, -⟩
        · exact ih t s₁ htoken (by rw [isPrint]; exact Kind.noConfusion)
            (joined_of_live (drawn.left.trans drawn.right.symm) drawn.vars live)
        · right
          refine ⟨s₁.supply, u₁.supply, past, ?_, ?_⟩
          · rw [← eq_ofSupply drawn.left]
          · rw [drawn.vars, ← eq_ofSupply drawn.right]
      · left
        rw [firstToken_eq s, firstToken_eq u, htoken, htoken', Outcome.andThen_ok, Outcome.andThen_ok,
          if_neg isPrint, if_neg isPrint]
        exact .ok ⟨drawn, isPrint⟩

/-- Both have the same statement, or both are past the last `;` that they share and
    have what begins there. -/
theorem statement (limit : Limit) (h : C.Joined s u) :
    Both (fun v s u => (v = none → C.live s.supply u.supply) ∧ C.Joined s u)
        (C.Halted limit.frail) (s.statement limit) (u.statement limit) ∨
      ∃ a b, C.past a b ∧ s.statement limit = (ofSupply a s.vars).statement limit ∧
        u.statement limit = (ofSupply b s.vars).statement limit := by
  rcases firstToken limit.frail h with both | ⟨a, b, past, hs, hu⟩
  · left
    refine both.andThen ?_
    rintro t s₁ u₁ _ ⟨drawn, notPrint⟩
    by_cases isQuit : t.kind = .quit
    · rw [if_pos isQuit, if_pos isQuit]
      exact .ok ⟨fun _ => drawn.live notPrint, drawn.joined notPrint⟩
    · rw [if_neg isQuit, if_neg isQuit]
      have loses (h : limit.frail = true) := (C.concord_loses h).lockstep
      exact ((C.lockstep limit.frail).statementFrom limit loses drawn).mono
        fun v s u ⟨hv, h⟩ => ⟨fun hn => absurd hn hv, h⟩
  · right
    refine ⟨a, b, past, ?_, ?_⟩
    · unfold State.statement
      rw [hs]
    · unfold State.statement
      rw [hu]

/-- To give up a statement drops the same. -/
theorem giveUp (h : C.Joined s u) :
    (s.giveUp .print).1 = (u.giveUp .print).1 ∧
      (C.Joined (s.giveUp .print).2 (u.giveUp .print).2 ∨
        ∃ a b, C.past a b ∧ (s.giveUp .print).2 = ofSupply a s.vars ∧
          (u.giveUp .print).2 = ofSupply b s.vars) := by
  obtain ⟨supply, slot, vars⟩ := s
  obtain ⟨supply', slot', vars'⟩ := u
  obtain ⟨rfl, rfl, hsupply⟩ := h
  dsimp only at hsupply
  unfold State.giveUp
  by_cases hslot : slot.any (·.kind = .print)
  · rw [if_pos hslot, if_pos hslot]
    refine ⟨rfl, ?_⟩
    rcases hsupply with live | ⟨past, -⟩
    · exact .inl (joined_of_live rfl rfl live)
    · exact .inr ⟨supply, supply', past, rfl, rfl⟩
  · rw [if_neg hslot, if_neg hslot]
    rcases hsupply with live | ⟨-, t, rfl, hk⟩
    · obtain ⟨hcount, hleft⟩ := C.skipPast live
      refine ⟨congrArg some hcount, ?_⟩
      rcases hleft with live | past
      · exact .inl (joined_of_live rfl rfl live)
      · exact .inr ⟨_, _, past, rfl, rfl⟩
    · exact absurd (by simp [hk]) hslot

/-! ## Sessions -/

/-- A session that gives a statement up and goes on. -/
def recover {υ : Type} [Supply υ] (limit : Limit) (f : Fault) (s : State υ) : Conversation υ :=
  ((s.giveUp .print).2.converse limit).after (Event.recovery f (s.giveUp .print).1)

variable (C) in
/-- Two sessions show the same to their end, or both come to a point past the last
    `;` that they share and go on from there. Where that `;` was lost they first give up the
    statement, which is too deep. -/
inductive Course (limit : Limit) (s : State σ) (u : State τ) : Prop where
  | alike {events : List Event} {fatal : Option Fault} {s' : State σ} {u' : State τ}
      (left : s.converse limit = ⟨events, fatal, s'⟩) (right : u.converse limit = ⟨events, fatal, u'⟩)
      (vars : s'.vars = u'.vars) (live : fatal = none → C.live s'.supply u'.supply)
  | parted {events : List Event} {vars : Bindings} {a : σ} {b : τ} (past : C.past a b)
      (left : s.converse limit = ((ofSupply a vars).converse limit).after events)
      (right : u.converse limit = ((ofSupply b vars).converse limit).after events)
  | lost {events : List Event} {vars : Bindings} {a : σ} {b : τ}
      (frail : limit.frail = true) (past : C.past a b)
      (left : s.converse limit = (recover limit .tooDeep (ofSupply a vars)).after events)
      (right : u.converse limit = (recover limit .tooDeep (ofSupply b vars)).after events)

theorem Course.after {limit : Limit} {events : List Event} (h : C.Course limit s' u')
    (left : s.converse limit = (s'.converse limit).after events)
    (right : u.converse limit = (u'.converse limit).after events) : C.Course limit s u := by
  cases h with
  | alike hl hr vars live =>
    rw [hl] at left
    rw [hr] at right
    exact .alike left right vars live
  | parted past hl hr =>
    rw [hl, Conversation.after_after] at left
    rw [hr, Conversation.after_after] at right
    exact .parted past left right
  | lost frail past hl hr =>
    rw [hl, Conversation.after_after] at left
    rw [hr, Conversation.after_after] at right
    exact .lost frail past left right

/-- Joined states begin two sessions that are alike until both are past the last
    `;` that they share. -/
theorem course (limit : Limit) (h : C.Joined s u) : C.Course limit s u := by
  induction s using State.sessionInduction (σ := σ) limit generalizing u with
  | turn s answered recovered =>
    have hs := converse_eq limit s
    have hu := converse_eq limit u
    rcases statement limit h with both | ⟨a, b, past, ha, hb⟩
    · generalize hstatement : s.statement limit = o, hstatement' : u.statement limit = o' at both
      rw [hstatement] at hs
      rw [hstatement'] at hu
      cases both with
      | @ok v s₁ u₁ h₁ =>
        obtain ⟨hlive, h₁⟩ := h₁
        cases v with
        | none => exact .alike hs hu h₁.vars fun _ => hlive rfl
        | some value => exact (answered value s₁ hstatement h₁).after hs hu
      | @fault f s₁ u₁ h₁ =>
        by_cases recoverable : f.recoverable
        · simp only [if_pos recoverable] at hs hu
          rcases h₁.supply with stand | ⟨⟨isFrail, rfl⟩, empty, past⟩
          · obtain ⟨hskipped, hleft⟩ := giveUp ⟨h₁.slot, h₁.vars, stand⟩
            rw [← hskipped] at hu
            refine Course.after ?_ hs hu
            rcases hleft with joined | ⟨a, b, past, ha, hb⟩
            · exact recovered f s₁ hstatement joined
            · rw [ha, hb]
              exact .parted past (Conversation.after_nil _).symm (Conversation.after_nil _).symm
          · have hleft : s₁ = ofSupply s₁.supply s₁.vars := eq_ofSupply empty
            have hright : u₁ = ofSupply u₁.supply s₁.vars := by
              rw [h₁.vars]
              exact eq_ofSupply (h₁.slot.symm.trans empty)
            rw [hleft] at hs
            rw [hright] at hu
            exact .lost isFrail past (hs.trans (Conversation.after_nil _).symm)
              (hu.trans (Conversation.after_nil _).symm)
        · simp only [if_neg recoverable] at hs hu
          exact .alike hs hu h₁.vars fun hf => nomatch hf
    · rw [ha, ← converse_eq] at hs
      rw [hb, ← converse_eq] at hu
      exact .parted past (hs.trans (Conversation.after_nil _).symm)
        (hu.trans (Conversation.after_nil _).symm)

end Coupling

end Reckoner
