/-
  A session ends, and it is no longer than its text.

  A session is `turns`, one after the other: a statement, and where it fails the
  rest of it is given up. Each turn shows a prompt, and each but the last a result
  or a complaint.

  A turn that is not the last takes away from the `bulk` of a state: the characters
  left that are neither blank nor `;`, and one more for a token in the slot. With a
  value it took a token of a sum. A statement that fails has a first token or a bad
  character, and what was behind it is given up, whatever it was.

  On the channels a prompt is a `>` and a result a line of the output; a message is
  a line of the errors, since what a text leads to has printable messages.

  Proved: `turns_of_converse`.
-/
import Reckoner.Proofs.Faults
import Reckoner.Proofs.Layouts
import Reckoner.Proofs.Recovery
import Reckoner.Proofs.Soundness

namespace Reckoner

open State

/-! ## Turns -/

/-- What becomes of a statement. -/
inductive Answer where
  | value (v : Float)
  /-- There are no more statements. -/
  | ended
  | fault (f : Fault)
  deriving DecidableEq

namespace Answer

/-- Whether a session goes on behind it. -/
def onward : Answer → Bool
  | value _ => true
  | ended => false
  | fault f => f.recoverable

def value? : Answer → Option Float
  | value v => some v
  | _ => none

def fault? : Answer → Option Fault
  | fault f => some f
  | _ => none

end Answer

section Turns

variable {σ : Type} [Supply σ]

/-- A statement. If the session recovers from its fault, the rest of it is given up. -/
def State.turn (limit : Limit) (s : State σ) : Answer × State σ :=
  match s.statement limit with
  | .ok none s => (.ended, s)
  | .ok (some v) s => (.value v, s)
  | .fault f s => (.fault f, if f.recoverable then (s.giveUp .print).2 else s)

/-- So many turns, one after the other. -/
def State.turns (limit : Limit) : Nat → State σ → List Answer × State σ
  | 0, s => ([], s)
  | n + 1, s =>
    let (answer, s) := s.turn limit
    let (answers, s) := turns limit n s
    (answer :: answers, s)

end Turns

/-! ## What a session shows of them -/

namespace Event

def result? : Event → Option Float
  | result v => some v
  | _ => none

def complaint? : Event → Option Fault
  | complaint f => some f
  | _ => none

end Event

namespace Transcript

def prompts (events : List Event) : Nat := events.count .prompt

def results (events : List Event) : List Float := events.filterMap Event.result?

def complaints (events : List Event) : List Fault := events.filterMap Event.complaint?

theorem prompts_append (xs ys : List Event) : prompts (xs ++ ys) = prompts xs + prompts ys :=
  List.count_append

theorem results_append (xs ys : List Event) : results (xs ++ ys) = results xs ++ results ys :=
  List.filterMap_append

theorem complaints_append (xs ys : List Event) :
    complaints (xs ++ ys) = complaints xs ++ complaints ys := List.filterMap_append

theorem prompts_recovery (f : Fault) (skipped : Option Nat) :
    prompts (Event.recovery f skipped) = 1 := by
  cases skipped <;> rfl

theorem results_recovery (f : Fault) (skipped : Option Nat) :
    results (Event.recovery f skipped) = [] := by
  cases skipped <;> rfl

theorem complaints_recovery (f : Fault) (skipped : Option Nat) :
    complaints (Event.recovery f skipped) = [f] := by
  cases skipped <;> rfl

end Transcript

open Transcript

/-- The session is these turns and one more, the first that does not go on. -/
structure Conversation.Turns {σ : Type} [Supply σ] (limit : Limit) (s : State σ) (c : Conversation σ)
    (answers : List Answer) (last : Answer) : Prop where
  turns : s.turns limit (answers.length + 1) = (answers ++ [last], c.state)
  onward : ∀ a ∈ answers, a.onward = true
  stops : last.onward = false
  results : results c.events = answers.filterMap Answer.value?
  complaints : complaints c.events = answers.filterMap Answer.fault?
  prompts : prompts c.events = answers.length + 1
  fatal : c.fatal = last.fault?

section Turns

variable {σ : Type} [Supply σ] {limit : Limit} {s s' : State σ} {c : Conversation σ}
  {answers : List Answer} {last : Answer}

theorem Conversation.Turns.cons (h : c.Turns limit s' answers last) {a : Answer} {events : List Event}
    (turn : s.turn limit = (a, s')) (onward : a.onward = true)
    (hresults : Transcript.results events = a.value?.toList)
    (hcomplaints : Transcript.complaints events = a.fault?.toList)
    (hprompts : Transcript.prompts events = 1) :
    (c.after events).Turns limit s (a :: answers) last where
  turns := by
    rw [List.length_cons, State.turns, turn]
    dsimp only
    rw [h.turns]
    rfl
  onward := List.forall_mem_cons.mpr ⟨onward, h.onward⟩
  stops := h.stops
  results := by
    rw [Conversation.after, results_append, h.results, hresults]
    cases a <;> rfl
  complaints := by
    rw [Conversation.after, complaints_append, h.complaints, hcomplaints]
    cases a <;> rfl
  prompts := by
    rw [Conversation.after, prompts_append, h.prompts, hprompts, List.length_cons, Nat.add_comm]
  fatal := h.fatal

/-- A session that ends at its first turn. -/
theorem Conversation.turns_last (turn : s.turn limit = (last, s')) (stops : last.onward = false) :
    (⟨[.prompt], last.fault?, s'⟩ : Conversation σ).Turns limit s [] last where
  turns := by
    rw [List.length_nil, State.turns, turn]
    rfl
  onward := fun _ hmem => nomatch hmem
  stops := stops
  results := rfl
  complaints := rfl
  prompts := rfl
  fatal := rfl

/-- Every session is some turns. -/
theorem exists_turns (limit : Limit) (s : State σ) :
    ∃ answers last, (s.converse limit).Turns limit s answers last := by
  induction s using State.sessionInduction (σ := σ) limit with
  | turn s answered recovered =>
    rw [converse_eq]
    cases hstatement : s.statement limit with
    | ok v s₁ =>
      cases v with
      | none =>
        have turn : s.turn limit = (.ended, s₁) := by rw [State.turn, hstatement]
        exact ⟨_, _, Conversation.turns_last turn rfl⟩
      | some value =>
        have turn : s.turn limit = (.value value, s₁) := by rw [State.turn, hstatement]
        obtain ⟨answers, last, h⟩ := answered value s₁ hstatement
        exact ⟨_, _, h.cons turn rfl rfl rfl rfl⟩
    | fault f s₁ =>
      dsimp only
      by_cases recoverable : f.recoverable
      · have turn : s.turn limit = (.fault f, (s₁.giveUp .print).2) := by
          rw [State.turn, hstatement]
          exact congrArg (Prod.mk _) (if_pos recoverable)
        rw [if_pos recoverable]
        obtain ⟨answers, last, h⟩ := recovered f s₁ hstatement
        exact ⟨_, _, h.cons turn recoverable (results_recovery f _) (complaints_recovery f _)
          (prompts_recovery f _)⟩
      · have turn : s.turn limit = (.fault f, s₁) := by
          rw [State.turn, hstatement]
          exact congrArg (Prod.mk _) (if_neg recoverable)
        rw [if_neg recoverable]
        exact ⟨_, _, Conversation.turns_last turn (eq_false_of_ne_true recoverable)⟩

/-- Each turn that goes on has a value or a fault. -/
theorem length_answers (onward : ∀ a ∈ answers, a.onward = true) :
    answers.length =
      (answers.filterMap Answer.value?).length + (answers.filterMap Answer.fault?).length := by
  induction answers with
  | nil => rfl
  | cons a as ih =>
    obtain ⟨ha, has⟩ := List.forall_mem_cons.mp onward
    have := ih has
    cases a with
    | ended => cases ha
    | value v => simp only [List.filterMap_cons, Answer.value?, Answer.fault?, List.length_cons]; omega
    | fault f => simp only [List.filterMap_cons, Answer.value?, Answer.fault?, List.length_cons]; omega

end Turns

/-! ## How much is left -/

/-- Whether a character is more than space between statements. -/
def Text.isSolid (c : Char) : Bool := !isBlank c && c ≠ ';'

/-- What a token adds to what is left. -/
def Token.bulk (t : Token) : Nat := if t.kind = .print ∨ t.kind = .quit then 0 else 1

/-- What is left of a text. -/
def Script.bulk (s : Script) : Nat := s.rest.countP Text.isSolid

/-- What is left, the token in the slot included. -/
def State.bulk (s : State Script) : Nat := (s.slot.map Token.bulk).getD 0 + s.supply.bulk

theorem Token.bulk_eq_one {t : Token} (notPrint : t.kind ≠ .print) (notQuit : t.kind ≠ .quit) :
    t.bulk = 1 := if_neg (not_or.mpr ⟨notPrint, notQuit⟩)

section Supply

variable {constants : Bindings} {u left : List Char} {result : Except Fault Token}

/-- What a text begins with takes away from what is left: a token its bulk, and a bad
    character itself. -/
theorem Lexes.bulk (h : Lexes constants u result left) (begins : Ends Text.isBlank u) :
    (∀ t, result = .ok t → left.countP Text.isSolid + t.bulk ≤ u.countP Text.isSolid) ∧
      ∀ f, result = .error f → left.countP Text.isSolid < u.countP Text.isSolid := by
  obtain ⟨lexeme, rfl, ⟨noPrint, -⟩ | ⟨rfl, rfl⟩⟩ := h.split
  · rw [List.countP_append]
    cases lexeme with
    | nil =>
      rcases h.length_lt with ⟨-, rfl⟩ | hlt
      · refine ⟨fun t ht => ?_, nofun⟩
        cases ht
        simp [Token.bulk, Token.mark]
      · exact absurd hlt (Nat.lt_irrefl _)
    | cons c w =>
      -- The first character of a lexeme is solid, for blanks were passed.
      have notBlank : Text.isBlank c = false := begins c rfl
      have notPrint : c ≠ ';' := fun hc => noPrint (hc ▸ List.mem_cons_self)
      have solid : Text.isSolid c = true := by simp [Text.isSolid, notBlank, notPrint]
      rw [List.countP_cons_of_pos solid]
      refine ⟨fun t _ => ?_, fun f _ => by omega⟩
      have : t.bulk ≤ 1 := by
        unfold Token.bulk
        split <;> omega
      omega
  · refine ⟨fun t ht => ?_, nofun⟩
    cases ht
    rw [List.countP_append]
    exact Nat.le_add_left _ _

theorem Script.bulk_next {s s' : Script} :
    (∀ t, s.next = .ok t s' → s'.bulk + t.bulk ≤ s.bulk) ∧
      ∀ f, s.next = .fault f s' → s'.bulk < s.bulk := by
  have passed : (s.rest.dropWhile Text.isBlank).countP Text.isSolid ≤ s.bulk :=
    (List.dropWhile_suffix _).sublist.countP_le
  have first := ends_dropWhile Text.isBlank s.rest
  refine ⟨fun t h => ?_, fun f h => ?_⟩
  · have hlexes := (lexes_of_next (r := .ok t) h).1
    exact Nat.le_trans ((hlexes.bulk first).1 t rfl) passed
  · have hlexes := (lexes_of_next (r := .error f) h).1
    exact Nat.lt_of_lt_of_le ((hlexes.bulk first).2 f rfl) passed

theorem Script.bulk_skipPast (k : Kind) (s : Script) : (s.skipPast k).2.bulk ≤ s.bulk :=
  (suffix_skipPast k s).sublist.countP_le

end Supply

section Statements

variable {s s' : State Script} {t : Token} {limit : Limit}

theorem State.bulk_supply_le (s : State Script) : s.supply.bulk ≤ s.bulk := Nat.le_add_left _ _

theorem State.bulk_ahead {supply : Script} (h : s.ahead = .ok t supply) :
    supply.bulk + t.bulk ≤ s.bulk := by
  obtain ⟨supply', slot, vars⟩ := s
  cases slot with
  | some t' =>
    injection h with ht hs
    subst ht hs
    exact Nat.le_of_eq (Nat.add_comm _ _)
  | none => exact Nat.le_trans (Script.bulk_next.1 t h) (bulk_supply_le _)

theorem State.bulk_token (h : s.token = .ok t s') : s'.bulk + t.bulk ≤ s.bulk := by
  obtain ⟨ha, hs⟩ := token_eq_ok h
  rw [hs]
  simpa [State.bulk, ofSupply] using bulk_ahead ha

theorem State.bulk_hold {u : Unit} (h : s.hold t = .ok u s') : s'.bulk = s.bulk + t.bulk := by
  obtain ⟨supply, slot, vars⟩ := s
  cases slot with
  | some t' => cases h
  | none =>
    injection h with _ hs
    subst hs
    simp [State.bulk, Nat.add_comm]

/-- What was taken is gone, if the token behind it is in the slot. -/
theorem State.bulk_takes {ts : List Token} (h : s.Takes ts s') (held : s'.slot.isSome) :
    s'.bulk + (ts.map Token.bulk).sum ≤ s.bulk := by
  induction ts generalizing s with
  | nil =>
    obtain ⟨t, slot⟩ := Option.isSome_iff_exists.mp held
    have ha : s.ahead = .ok t s'.supply := Eq.trans h (ahead_of_slot slot)
    have := bulk_ahead ha
    simp only [State.bulk, slot, Option.map_some, Option.getD_some, List.map_nil, List.sum_nil] at this ⊢
    omega
  | cons t ts ih =>
    obtain ⟨supply, ha, htakes⟩ := h
    have hlater := ih htakes
    have hfirst := bulk_ahead ha
    simp only [State.bulk, ofSupply, Option.map_none, Option.getD_none, Nat.zero_add] at hlater hfirst ⊢
    rw [List.map_cons, List.sum_cons]
    omega

/-- A derivation begins with a token that counts. -/
theorem Derivation.bulk_word {p : Nat} (d : Derivation p) : 1 ≤ (d.word.map Token.bulk).sum := by
  obtain ⟨t, ts, hword⟩ := List.exists_cons_of_ne_nil d.word_ne_nil
  have hrun := d.run_word 0
  rw [hword, Phase.run] at hrun
  have counts : t.bulk = 1 := by
    refine Token.bulk_eq_one (fun hk => ?_) (fun hk => ?_) <;>
    · rw [hk] at hrun
      cases hrun
  rw [hword, List.map_cons, List.sum_cons, counts]
  exact Nat.le_add_right _ _

/-- A sum took a token that counts. -/
theorem State.bulk_sum {v : Float} (h : (Rule.sum limit).run s = .ok v s') : s'.bulk < s.bulk := by
  obtain ⟨d, reading, held⟩ := (Rule.sound limit).1 _ _ _ h
  have := bulk_takes reading.taken held
  have := d.bulk_word
  omega

theorem State.bulk_firstToken :
    (∀ t, s.firstToken = .ok t s' →
      s'.bulk + t.bulk ≤ s.bulk ∧ s'.slot = none ∧ t.kind ≠ .print) ∧
      ∀ f, s.firstToken = .fault f s' → s'.supply.bulk < s.bulk := by
  induction s using State.tokenInduction with
  | turn s ih =>
    rw [firstToken_eq s]
    cases htoken : s.token with
    | fault f s₁ =>
      refine ⟨nofun, fun g h => ?_⟩
      injection h with _ hs
      subst hs
      have := Script.bulk_next.2 _ (token_eq_fault htoken).2.1
      have := s.bulk_supply_le
      omega
    | ok t s₁ =>
      have := bulk_token htoken
      rw [Outcome.andThen_ok]
      by_cases isPrint : t.kind = .print
      · rw [if_pos isPrint]
        obtain ⟨hok, hfault⟩ := ih t s₁ htoken (by rw [isPrint]; exact Kind.noConfusion)
        refine ⟨fun u h => ?_, fun f h => ?_⟩
        · obtain ⟨hle, slot, notPrint⟩ := hok u h
          exact ⟨by omega, slot, notPrint⟩
        · have := hfault f h
          omega
      · rw [if_neg isPrint]
        refine ⟨fun u h => ?_, nofun⟩
        injection h with ht hs
        subst ht hs
        refine ⟨by omega, ?_, isPrint⟩
        rw [(token_eq_ok htoken).2]
        rfl

/-- What is left of the text is no more than so much. -/
def atMost (n : Nat) : Invariant Script :=
  .ofNext (fun _ a => a.bulk ≤ n)
    (fun _ _ t h hnext => by
      have := Script.bulk_next.1 t hnext
      omega)
    (fun _ _ f h hnext => by
      have := Script.bulk_next.2 f hnext
      omega)

theorem State.bulk_close {v : Float} {w : Option Float} (h : s.close v = .ok w s') :
    s'.bulk ≤ s.bulk := by
  obtain ⟨t, s₁, htoken, h⟩ := Outcome.andThen_eq_ok.mp h
  obtain ⟨u, s₂, hhold, h⟩ := Outcome.andThen_eq_ok.mp h
  split at h
  · cases h
  · injection h with _ hs
    subst hs
    have := bulk_token htoken
    have := bulk_hold hhold
    omega

/-- A statement with a value takes away from what is left. -/
theorem State.bulk_statement {v : Float} (h : s.statement limit = .ok (some v) s') :
    s'.bulk < s.bulk := by
  obtain ⟨t, s₁, hfirst, h⟩ := Outcome.andThen_eq_ok.mp h
  have notQuit : ¬ t.kind = .quit := fun isQuit => by
    rw [if_pos isQuit] at h
    cases h
  rw [if_neg notQuit] at h
  obtain ⟨u, s₂, hhold, h⟩ := Outcome.andThen_eq_ok.mp h
  obtain ⟨w, s₃, hsum, hclose⟩ := Outcome.andThen_eq_ok.mp h
  have := bulk_hold hhold
  have := (bulk_firstToken.1 t hfirst).1
  have := bulk_sum hsum
  have := bulk_close hclose
  omega

/-- So does one that failed, when it is given up. -/
theorem State.bulk_giveUp_of_statement {f : Fault} (h : s.statement limit = .fault f s') :
    (s'.giveUp .print).2.bulk < s.bulk := by
  have dropped : (s'.giveUp .print).2.bulk ≤ s'.supply.bulk := by
    rw [State.bulk, slot_giveUp]
    unfold giveUp
    split
    · exact Nat.le_of_eq (Nat.zero_add _)
    · exact Nat.le_trans (Nat.le_of_eq (Nat.zero_add _)) (Script.bulk_skipPast .print s'.supply)
  refine Nat.lt_of_le_of_lt dropped ?_
  unfold State.statement at h
  cases hfirst : s.firstToken with
  | fault g s₁ =>
    rw [hfirst] at h
    injection h with _ hs
    exact hs ▸ bulk_firstToken.2 g hfirst
  | ok t s₁ =>
    obtain ⟨hle, slot, notPrint⟩ := bulk_firstToken.1 t hfirst
    rw [hfirst, Outcome.andThen_ok] at h
    by_cases isQuit : t.kind = .quit
    · rw [if_pos isQuit] at h
      cases h
    · rw [if_neg isQuit] at h
      have := Token.bulk_eq_one notPrint isQuit
      have := s₁.bulk_supply_le
      have ends := (atMost s₁.supply.bulk).ends_statementFrom (t := t) ⟨slot, Nat.le_refl _⟩ limit
      have kept := ends.state fun _ _ drawn _ => drawn.2
      rw [h] at kept
      have kept : s'.supply.bulk ≤ s₁.supply.bulk := kept
      omega

end Statements

/-! ## How long a session is -/

section Sessions

variable {s s' : State Script} {limit : Limit} {answers : List Answer} {last : Answer}

/-- A turn that goes on takes away from what is left. -/
theorem State.bulk_turn {a : Answer} (h : s.turn limit = (a, s')) (onward : a.onward = true) :
    s'.bulk < s.bulk := by
  rw [turn] at h
  cases hstatement : s.statement limit with
  | ok v s₁ =>
    rw [hstatement] at h
    cases v with
    | none =>
      injection h with ha
      rw [← ha] at onward
      cases onward
    | some value =>
      injection h with _ hs
      exact hs ▸ bulk_statement hstatement
  | fault f s₁ =>
    rw [hstatement] at h
    injection h with ha hs
    rw [← ha] at onward
    rw [← hs]
    have recoverable : f.recoverable = true := onward
    rw [if_pos recoverable]
    exact bulk_giveUp_of_statement hstatement

/-- Turns that go on are no more than what is left before them. -/
theorem State.length_turns_le (onward : ∀ a ∈ answers, a.onward = true)
    (h : s.turns limit (answers.length + 1) = (answers ++ [last], s')) : answers.length ≤ s.bulk := by
  induction answers generalizing s with
  | nil => exact Nat.zero_le _
  | cons a as ih =>
    obtain ⟨ha, has⟩ := List.forall_mem_cons.mp onward
    rw [List.length_cons, turns] at h
    cases hturn : s.turn limit with
    | mk b s₁ =>
      rw [hturn] at h
      injection h with hanswers hs
      injection hanswers with hfirst hlater
      have taken := bulk_turn hturn (hfirst ▸ ha)
      have later := ih has (Prod.ext hlater hs)
      rw [List.length_cons]
      omega

/-- At the beginning of a text, all of it is left. -/
theorem Scope.bulk_start (scope : Scope) (code : String) :
    (scope.start code).bulk = code.toList.countP Text.isSolid := Nat.zero_add _

end Sessions

/-! ## What is written -/

section Channels

/-- A result is written with letters, digits and the marks of a numeral. -/
theorem mem_amount {v : Float} {c : Char} (h : c ∈ (amount v).toList) :
    c.isAlphanum = true ∨ c ∈ Numeral.marks := by
  have word (cs : List Char) (letters : cs.all Char.isAlphanum = true) (hc : c ∈ cs) :
      c.isAlphanum = true := List.all_eq_true.mp letters c hc
  rw [amount, String.toList_ofList, Layout.chars] at h
  split at h
  · exact .inl (word ['n', 'a', 'n'] (by decide) h)
  · rcases List.mem_append.mp h with sign | h
    · right
      split at sign
      · exact List.mem_singleton.mp sign ▸ by decide
      · cases sign
    · split at h
      · exact .inl (word ['i', 'n', 'f'] (by decide) h)
      · obtain ⟨n, writes, hmagnitude⟩ := Layout.exists_numeral Layout.wholeEnd_short
          (Decimal.shortest (Binary64.rank v))
        rw [← hmagnitude] at h
        refine (writes.form.mem_text h).imp_left fun digit => ?_
        rw [Char.isAlphanum, digit, Bool.or_true]

/-- A result has neither the mark of a prompt nor the end of a line. -/
theorem not_mem_amount (v : Float) : '>' ∉ (amount v).toList ∧ '\n' ∉ (amount v).toList :=
  ⟨fun h => absurd (mem_amount h) (by decide), fun h => absurd (mem_amount h) (by decide)⟩

/-- Each prompt is a `>` of the output, and each result a line. -/
theorem Transcript.count_output (events : List Event) :
    (output events).toList.count '>' = prompts events ∧
      (output events).toList.count '\n' = (results events).length := by
  induction events with
  | nil => exact ⟨rfl, rfl⟩
  | cons e events ih =>
    -- What the event adds to the counts, and to the views.
    have adds : e.output.toList.count '>' = prompts [e] ∧
        e.output.toList.count '\n' = (results [e]).length := by
      cases e with
      | result v =>
        obtain ⟨noMark, noEnd⟩ := not_mem_amount v
        simp only [Event.output, String.toList_append, List.count_append,
          List.count_eq_zero.mpr noMark, List.count_eq_zero.mpr noEnd]
        exact ⟨rfl, rfl⟩
      | prompt | complaint | skipped => exact ⟨rfl, rfl⟩
    rw [← List.singleton_append, prompts_append, results_append, List.singleton_append, output_cons,
      String.toList_append, List.count_append, List.count_append, List.length_append]
    exact ⟨congrArg₂ _ adds.1 ih.1, congrArg₂ _ adds.2 ih.2⟩

/-- The lines of the errors are the messages, if each is a line. -/
theorem Transcript.lines_errors {events : List Event}
    (line : ∀ f ∈ complaints events, '\n' ∉ f.message.toList) :
    (errors events).toList.splitOn '\n' = (complaints events).map (·.message.toList) ++ [[]] := by
  induction events with
  | nil => rfl
  | cons e events ih =>
    rw [errors_cons, String.toList_append]
    cases e with
    | complaint f =>
      obtain ⟨first, later⟩ := List.forall_mem_cons.mp line
      have hline : (Event.complaint f).errors.toList ++ (errors events).toList =
          f.message.toList ++ '\n' :: (errors events).toList := by
        rw [Event.errors, String.toList_append, List.append_assoc]
        rfl
      rw [hline, List.splitOn_eq_splitOnP, List.splitOnP_append_cons_of_forall_mem _ _ (by decide),
        ← List.splitOn_eq_splitOnP, ih later]
      · rfl
      · exact fun c hc => beq_eq_false_iff_ne.mpr fun same => first (same ▸ hc)
    | prompt | result | skipped => exact ih line

end Channels

/-- Every session over a text ends, at its end or at a remainder that there is none of, after
    some turns. It shows one prompt more than results and complaints, of which there are no
    more than characters of the text that are neither blank nor `;`, and each complaint is a
    line. -/
theorem turns_of_converse (limit : Limit) (scope : Scope) (code : String) :
    let s := scope.start code
    let c := s.converse limit
    (∃ answers last, c.Turns limit s answers last ∧ (last = .ended ∨ last = .fault .noRemainder)) ∧
      prompts c.events = (results c.events).length + (complaints c.events).length + 1 ∧
      (results c.events).length + (complaints c.events).length ≤ code.toList.countP Text.isSolid ∧
      (output c.events).toList.count '>' = prompts c.events ∧
      (output c.events).toList.count '\n' = (results c.events).length ∧
      (errors c.events).toList.splitOn '\n' = (complaints c.events).map (·.message.toList) ++ [[]] ∧
      ∀ f ∈ complaints c.events, ∀ d ∈ f.message.toList, Text.isPrintable d = true := by
  intro s c
  obtain ⟨answers, last, h⟩ := exists_turns limit s
  have textual : c.Textual lettered := textual_converse (.start scope trivial) limit
  have complaint (f : Fault) (hf : f ∈ complaints c.events) : f.Textual lettered := by
    obtain ⟨e, he, hcomplaint⟩ := List.mem_filterMap.mp hf
    cases e with
    | complaint g =>
      injection hcomplaint with same
      exact same ▸ textual.complaint g he
    | prompt | result | skipped => cases hcomplaint
  have counts : answers.length = (results c.events).length + (complaints c.events).length := by
    rw [h.results, h.complaints]
    exact length_answers h.onward
  have bound := length_turns_le h.onward h.turns
  rw [scope.bulk_start] at bound
  refine ⟨⟨answers, last, h, ?_⟩, counts ▸ h.prompts, counts ▸ bound, (count_output _).1,
    (count_output _).2, lines_errors fun f hf => (complaint f hf).not_mem_message,
    fun f hf => (complaint f hf).isPrintable_message⟩
  cases last with
  | value v => cases h.stops
  | ended => exact .inl rfl
  | fault f => exact .inr (congrArg _ ((textual.fatal f h.fatal).1.eq_noRemainder h.stops))

end Reckoner
