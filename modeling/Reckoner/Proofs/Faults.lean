/-
  What faults a text leads to.

  No rule puts a second token back: each puts back only what it took. A text cannot
  set a constant, and the only literal it has without a digit is a lone point. So
  of all faults a text leads to those alone that are `Textual`. Where a bad token
  was met the slot was just looked into, and is empty.

  A run over a text is a lockstep of the run with itself (`alone`). It carries what
  is so of the text and of every token in it, a `Vocabulary`. Names in a text are
  letters and digits, so every message is one line (`not_mem_message`).

  Proved: `textual_statement` for one statement, `textual_converse` for a session.
-/
import Reckoner.Calculator
import Reckoner.Proofs.Lexemes
import Reckoner.Proofs.Lockstep

namespace Reckoner

open State
open Outcome (Both)

/-! ## Vocabularies -/

/-- What is so of a text, however much of it was read, and of its tokens. -/
structure Vocabulary where
  text : List Char → Prop
  token : Token → Prop
  behind {u v : List Char} : text (u ++ v) → text v
  read {constants : Bindings} {u left : List Char} {t : Token} :
    text u → Lexes constants u (.ok t) left → token t

namespace Vocabulary

variable (V : Vocabulary)

/-- A token has the name. -/
def Names (name : String) : Prop := ∃ t, V.token t ∧ t.kind = .name ∧ t.name = name

/-- It is so of the text that is left and of the token in the slot. -/
structure Holds (s : State Script) : Prop where
  text : V.text s.supply.rest
  slot : ∀ t, s.slot = some t → V.token t

variable {V}

theorem next {constants : Bindings} {u left : List Char} {result : Except Fault Token} (h : V.text u)
    (lexeme : Lexes constants (u.dropWhile Text.isBlank) result left) :
    (∀ t, result = .ok t → V.token t) ∧ V.text left := by
  have hdrop : V.text (u.dropWhile Text.isBlank) := by
    rw [← List.takeWhile_append_dropWhile (p := Text.isBlank) (l := u)] at h
    exact V.behind h
  refine ⟨fun t same => V.read hdrop (same ▸ lexeme), ?_⟩
  obtain ⟨word, hword⟩ := lexeme.front
  rw [hword] at hdrop
  exact V.behind hdrop

theorem Holds.of_empty {s : State Script} (text : V.text s.supply.rest) (empty : s.slot = none) :
    V.Holds s := by
  refine ⟨text, fun t same => ?_⟩
  rw [empty] at same
  cases same

theorem Holds.held {supply : Script} {t : Token} (text : V.text supply.rest) (token : V.token t)
    (vars : Bindings) : V.Holds ⟨supply, some t, vars⟩ := by
  refine ⟨text, fun t' same => ?_⟩
  injection same with same
  exact same ▸ token

theorem Holds.start (scope : Scope) {code : String} (text : V.text code.toList) :
    V.Holds (scope.start code) := .of_empty text rfl

/-- Nothing is said. -/
def any : Vocabulary where
  text _ := True
  token _ := True
  behind _ := trivial
  read _ _ := trivial

theorem holds_any (s : State Script) : any.Holds s := ⟨trivial, fun _ _ => trivial⟩

end Vocabulary

/-! ## Faults -/

/-- What a text of the vocabulary can lead to. -/
structure Fault.Textual (V : Vocabulary) (f : Fault) : Prop where
  ne_slotTaken : f ≠ .slotTaken
  ne_constantsFixed : f ≠ .constantsFixed
  literal : ∀ cs, f = .badNumber cs → cs = ['.']
  name : ∀ name, f = .unknownName name → V.Names name

section Faults

variable {V : Vocabulary} {f : Fault}

theorem Fault.textual_of_rule (h : f.ofRule = true) : f.Textual V := by
  cases f with
  | badToken | badNumber | unknownName | slotTaken | constantsFixed => cases h
  | _ => exact ⟨nofun, nofun, nofun, nofun⟩

theorem Fault.textual_unknownName {name : String} (h : V.Names name) :
    (Fault.unknownName name).Textual V :=
  ⟨nofun, nofun, nofun, fun other same => by injection same with same; exact same ▸ h⟩

/-- A rule does not tell of a bad token. -/
theorem Fault.not_badToken_of_rule (h : f.ofRule = true) : f.category ≠ .badToken := by
  cases f with
  | badToken | badNumber | unknownName | slotTaken | constantsFixed => cases h
  | _ => exact nofun

/-- Of what a text leads to, only a missing remainder ends a session. -/
theorem Fault.Textual.eq_noRemainder (h : f.Textual V) (fatal : f.recoverable = false) :
    f = .noRemainder := by
  cases f with
  | noRemainder => rfl
  | slotTaken => exact absurd rfl h.ne_slotTaken
  | constantsFixed => exact absurd rfl h.ne_constantsFixed
  | _ => cases fatal

/-- A text begins with a bad token or a lone point, if not with a token. -/
theorem Lexes.textual {constants : Bindings} {u left : List Char}
    (h : Lexes constants u (.error f) left) : f.Textual V := by
  cases h with
  | point => exact ⟨nofun, nofun, fun cs same => by injection same with same; exact same.symm, nofun⟩
  | other => exact ⟨nofun, nofun, nofun, nofun⟩

end Faults

/-! ## Messages -/

/-- Names are letters and digits. -/
def lettered : Vocabulary where
  text _ := True
  token t := t.kind = .name → ∀ c ∈ t.name.toList, c.isAlphanum = true
  behind _ := trivial
  read {constants u left t} _ h isName := by
    cases h with
    | nothing => cases isName
    | @symbol k c left isSymbol =>
      have isName : k = .name := isName
      subst isName
      cases isSymbol
    | numeral => cases isName
    | constant => cases isName
    | @name c w left letter notSymbol run longest free =>
      intro d hd
      rw [show (Token.identifier (String.ofList (c :: w))).name = String.ofList (c :: w) from rfl,
        String.toList_ofList] at hd
      rcases List.mem_cons.mp hd with rfl | hd
      · rw [Char.isAlphanum, letter, Bool.true_or]
      · exact run d hd

/-- Letters and digits show as themselves. -/
theorem Text.isPrintable_of_isAlphanum {c : Char} (h : c.isAlphanum = true) :
    isPrintable c = true := by
  obtain ⟨least, greatest⟩ := toNat_of_isAlphanum h
  have hascii := isPrintable_ascii ⟨c.toNat, by omega⟩
  rw [Char.ofNat_toNat] at hascii
  rw [hascii, decide_eq_true_eq]
  exact ⟨Nat.le_trans (by decide) least, Nat.le_trans greatest (by decide)⟩

/-- The message of a fault that a text leads to shows as it is. -/
theorem Fault.Textual.isPrintable_message {f : Fault} (h : f.Textual lettered) :
    ∀ c ∈ f.message.toList, Text.isPrintable c = true := by
  have plain (text : String) (printable : text.toList.all Text.isPrintable = true) :
      ∀ c ∈ text.toList, Text.isPrintable c = true := List.all_eq_true.mp printable
  have behind (head rest : String) (hhead : head.toList.all Text.isPrintable = true)
      (hrest : ∀ c ∈ rest.toList, Text.isPrintable c = true) :
      ∀ c ∈ (head ++ rest).toList, Text.isPrintable c = true := by
    rw [String.toList_append]
    exact List.forall_mem_append.mpr ⟨plain head hhead, hrest⟩
  have quoted (cs : List Char) :
      ∀ c ∈ (String.ofList (Text.quoted cs)).toList, Text.isPrintable c = true := by
    rw [String.toList_ofList]
    exact fun c => Text.isPrintable_of_mem_quoted
  cases f with
  | badToken c => exact behind "Bad token " _ (by decide +kernel) (quoted [c])
  | badNumber literal => exact behind "Bad number " _ (by decide +kernel) (quoted literal)
  | unknownName name =>
    obtain ⟨t, letters, isName, rfl⟩ := h.name name rfl
    exact behind "undefined symbol: " _ (by decide +kernel)
      fun c hc => Text.isPrintable_of_isAlphanum (letters isName c hc)
  | _ => exact plain _ (by decide +kernel)

/-- So it is one line. -/
theorem Fault.Textual.not_mem_message {f : Fault} (h : f.Textual lettered) :
    '\n' ∉ f.message.toList := fun hmem =>
  absurd (h.isPrintable_message _ hmem) (by decide +kernel)

/-! ## A run over a text -/

section Alone

/-- A text gives a token of the vocabulary, or tells of a bad token. -/
theorem Script.both_token {V : Vocabulary} {s : State Script} (h : V.Holds s) :
    Both (fun t s u => s = u ∧ s.slot = none ∧ V.text s.supply.rest ∧ V.token t)
      (fun f s u => s = u ∧ s.slot = none ∧ V.text s.supply.rest ∧ f.Textual V ∧
        f.category = .badToken) s.token s.token := by
  obtain ⟨supply, slot, vars⟩ := s
  obtain ⟨text, token⟩ := h
  cases slot with
  | some t => exact .ok ⟨rfl, rfl, text, token t rfl⟩
  | none =>
    obtain ⟨result, reader, hlexes, hnext⟩ := supply.next_lexes
    obtain ⟨htoken, hleft⟩ := V.next text hlexes
    show Both _ _ ((Script.next supply).inside _) ((Script.next supply).inside _)
    rw [hnext]
    cases result with
    | ok t => exact .ok ⟨rfl, rfl, hleft, htoken t rfl⟩
    | error f => exact .fault ⟨rfl, rfl, hleft, hlexes.textual, hlexes.category⟩

/-- A run over a text beside itself. A bad token leaves the slot empty. -/
def alone (V : Vocabulary) : Lockstep Script Script where
  joined s u := s = u ∧ V.Holds s
  drawn t s u := s = u ∧ s.slot = none ∧ V.text s.supply.rest ∧ V.token t
  failed f s u := s = u ∧ V.text s.supply.rest ∧ f.Textual V ∧ (f.category = .badToken → s.slot = none)
  named := V.Names
  slot h := h.1 ▸ rfl
  token := by
    rintro s u ⟨rfl, h⟩
    have both := Script.both_token h
    generalize s.token = o at both
    cases both with
    | ok h => exact .ok h
    | fault h => exact .fault ⟨rfl, h.2.2.1, h.2.2.2.1, fun _ => h.2.1⟩
  hold := by
    rintro t ⟨supply, slot, vars⟩ u ⟨rfl, rfl, text, token⟩
    exact .ok ⟨rfl, .held text token vars⟩
  joined_of_drawn := fun ⟨same, empty, text, _⟩ _ _ => ⟨same, .of_empty text empty⟩
  named_of_drawn h isName := ⟨_, h.2.2.2, isName, rfl⟩
  failed_of_joined h ofRule :=
    ⟨h.1, h.2.text, Fault.textual_of_rule ofRule,
      fun bad => absurd bad (Fault.not_badToken_of_rule ofRule)⟩
  lookup h named := State.both_lookup (h.1 ▸ rfl) (fun _ => h)
    ⟨h.1, h.2.text, Fault.textual_unknownName named, nofun⟩
  assign _ _ _ _ _ h := ⟨h.1 ▸ rfl, h.2.text, h.2.slot⟩

variable {V : Vocabulary}

theorem alone_through : (alone V).Through :=
  fun _ _ _ ⟨same, empty, text, _⟩ _ => ⟨same, .of_empty text empty⟩

theorem alone_loses : (alone V).Loses :=
  fun _ _ _ ⟨same, empty, text, _⟩ => ⟨same, text, Fault.textual_of_rule rfl, fun _ => same ▸ empty⟩

variable {s s' : State Script} {f : Fault} {limit : Limit}

/-- What failed beside itself left what it was to leave. -/
theorem failed_of_both {α : Type} {Q : α → State Script → State Script → Prop}
    {o : Outcome (State Script) α} (both : Both Q (alone V).failed o o) (failed : o = .fault f s') :
    V.text s'.supply.rest ∧ f.Textual V ∧ (f.category = .badToken → s'.slot = none) := by
  subst failed
  cases both with
  | fault h => exact h.2

theorem Vocabulary.Holds.both_statement (h : V.Holds s) (limit : Limit) :
    Both (fun v s _ => v ≠ none → V.Holds s) (alone V).failed (s.statement limit)
      (s.statement limit) :=
  (Lockstep.statement alone_through limit (fun _ => alone_loses) (s := s) (u := s) ⟨rfl, h⟩).mono
    fun _ _ _ h hv => (h.1 hv).2

theorem textual_statement (h : V.Holds s) (failed : s.statement limit = .fault f s') :
    f.Textual V ∧ (f.category = .badToken → s'.slot = none) :=
  (failed_of_both (h.both_statement limit) failed).2

theorem holds_statement {v : Float} (h : V.Holds s) (ok : s.statement limit = .ok (some v) s') :
    V.Holds s' := by
  have both := h.both_statement limit
  rw [ok] at both
  cases both with
  | ok h => exact h (Option.some_ne_none v)

/-- It is so of what is left when a statement was given up. -/
theorem holds_giveUp (h : V.Holds s) (failed : s.statement limit = .fault f s') (kind : Kind) :
    V.Holds (s'.giveUp kind).2 := by
  have text := (failed_of_both (h.both_statement limit) failed).1
  refine .of_empty ?_ (slot_giveUp kind s')
  unfold giveUp
  split
  · exact text
  · have happend := s'.supply.reader.append_seek fun c => kind.symbol? ≠ some c
    have text : V.text s'.supply.reader.rest := text
    rw [← happend] at text
    exact V.behind text

end Alone

/-! ## Sessions -/

/-- All that a session complains of, and what ended it, is what a text leads to. -/
structure Conversation.Textual {σ : Type} (V : Vocabulary) (c : Conversation σ) : Prop where
  complaint : ∀ f, Event.complaint f ∈ c.events → f.Textual V
  fatal : ∀ f, c.fatal = some f → f.Textual V ∧ f.recoverable = false

theorem Conversation.Textual.after {σ : Type} {V : Vocabulary} {c : Conversation σ}
    (h : c.Textual V) {events : List Event} (hevents : ∀ f, .complaint f ∈ events → f.Textual V) :
    (c.after events).Textual V :=
  ⟨fun f hf => (List.mem_append.mp hf).elim (hevents f) (h.complaint f), h.fatal⟩

theorem Event.eq_of_mem_recovery {f g : Fault} {skipped : Option Nat}
    (h : .complaint g ∈ Event.recovery f skipped) : g = f := by
  unfold Event.recovery at h
  cases skipped <;> simpa using h

theorem textual_converse {V : Vocabulary} {s : State Script} (h : V.Holds s) (limit : Limit) :
    (s.converse limit).Textual V := by
  -- What holds of the text holds of what is left of it, also when a statement is given up.
  induction s using State.sessionInduction (σ := Script) limit with
  | turn s answered recovered =>
    have prompt (g : Fault) : .complaint g ∉ [Event.prompt] := by simp
    rw [converse_eq]
    cases hstatement : s.statement limit with
    | ok v s₁ =>
      cases v with
      | none => exact ⟨fun g hg => absurd hg (prompt g), nofun⟩
      | some value =>
        refine (answered value s₁ hstatement (holds_statement h hstatement)).after fun g hg => ?_
        simp at hg
    | fault f s₁ =>
      have textual := (textual_statement h hstatement).1
      dsimp only
      by_cases recoverable : f.recoverable
      · rw [if_pos recoverable]
        refine (recovered f s₁ hstatement (holds_giveUp h hstatement .print)).after fun g hg => ?_
        rw [Event.eq_of_mem_recovery hg]
        exact textual
      · rw [if_neg recoverable]
        refine ⟨fun g hg => absurd hg (prompt g), fun g hg => ?_⟩
        injection hg with hg
        exact hg ▸ ⟨textual, eq_false_of_ne_true recoverable⟩

end Reckoner
