/-
  Tokens read up front.

  A `Listing` is a list of tokens with what comes behind them: a fault, or `quit`
  for ever. It is a supply like a text, so the same statements run over it. The
  listing of a text has the tokens before its first `quit` and the fault among them
  (`Scope.listing`, what `Scope.tokens` answers).

  A text that is read as it is needed stands beside its listing until a `quit` is
  held or a fault was met, and no statement goes on behind either. If a text is
  read to its end (`Lexed`) it stands beside the list of its tokens for good, also
  where a statement is given up: a `;` is in no other lexeme, so the characters up
  to the first `;` are those of the tokens up to the first `;`.

  Proved: `evaluate_of_listing`, for every text, and for texts with one listing.
-/
import Reckoner.Proofs.Concord
import Reckoner.Proofs.Recovery

namespace Reckoner

open State
open Outcome (Both)

/-- A list of tokens, and the fault behind them if there is one. -/
structure Listing where
  tokens : List Token
  fault : Option Fault
  deriving DecidableEq

namespace Listing

/-- The next token. Behind the last it is `quit`, or the fault instead of one. -/
def next (l : Listing) : Outcome Listing Token :=
  match l.tokens with
  | t :: tokens => .ok t { l with tokens }
  | [] =>
    match l.fault with
    | none => .ok (.mark .quit) l
    | some f => .fault f { l with fault := none }

/-- Drops tokens up to and with the first of a kind, and counts those before it. -/
def skipPast (kind : Kind) (l : Listing) : Nat × Listing :=
  ((l.tokens.takeWhile (·.kind ≠ kind)).length,
    { l with tokens := (l.tokens.dropWhile (·.kind ≠ kind)).tail })

instance : Supply Listing where
  next := next
  skipPast := skipPast
  size l := l.tokens.length + l.fault.toList.length
  size_next_ok {l l' t} h := by
    obtain ⟨tokens, fault⟩ := l
    have := t.weight_le_one
    cases tokens with
    | cons u tokens =>
      injection h with _ hl
      subst hl
      simp only [List.length_cons]
      omega
    | nil =>
      cases fault with
      | none =>
        injection h with ht hl
        subst ht hl
        exact Nat.le_refl _
      | some f => cases h
  size_next_fault {l l' f} h := by
    obtain ⟨tokens, fault⟩ := l
    cases tokens with
    | cons u tokens => cases h
    | nil =>
      cases fault with
      | none => cases h
      | some g =>
        injection h with _ hl
        subst hl
        exact Nat.zero_lt_one
  size_skipPast k l := by
    have := (List.dropWhile_suffix (l := l.tokens) (·.kind ≠ k)).length_le
    simp only [skipPast, List.length_tail]
    omega

/-- The tokens that a supply gives before `quit`, and the fault that ends them. -/
def ofSupply {σ : Type} [Supply σ] (s : σ) : Listing := ⟨(Supply.tokens s).1, (Supply.tokens s).2⟩

end Listing

/-- The tokens of a text, read up front. -/
def Scope.listing (scope : Scope) (code : String) : Listing :=
  .ofSupply (Script.ofText scope.constants code.toList)

/-- The tokens of a text are those of its listing, if no fault is among them. -/
theorem Scope.tokens_eq (scope : Scope) (code : String) :
    (∀ ts, scope.tokens code = .ok ts ↔ scope.listing code = ⟨ts, none⟩) ∧
      ∀ f, scope.tokens code = .error f ↔ (scope.listing code).fault = some f := by
  unfold Scope.tokens Scope.listing Listing.ofSupply Script.tokens
  obtain ⟨tokens, fault⟩ := Supply.tokens (Script.ofText scope.constants code.toList)
  cases fault <;> simp

/-! ## A text beside its listing -/

theorem Lexes.eq_quit {constants : Bindings} {u left : List Char} {t : Token}
    (h : Lexes constants u (.ok t) left) (hk : t.kind = .quit) : t = .mark .quit := by
  cases h with
  | nothing => rfl
  | @symbol k c left isSymbol =>
    have hk : k = .quit := hk
    rw [hk]
  | numeral => cases hk
  | constant => cases hk
  | name => cases hk

theorem Script.eq_quit {a b : Script} {t : Token} (h : a.next = .ok t b) (hk : t.kind = .quit) :
    t = .mark .quit := by
  obtain ⟨hlexes, -⟩ := lexes_of_next (r := .ok t) h
  exact hlexes.eq_quit hk

/-- A text and its listing give the same, until a `quit` is held or a fault was met. -/
def listed : Concord Script Listing where
  stand held a b := b = .ofSupply a ∨ ∃ t, held = some t ∧ t.kind = .quit
  broken _ _ _ _ := True
  next {a b} h := by
    obtain rfl | ⟨t, ht, -⟩ := h
    · have htokens := Supply.tokens_eq a
      show Both _ _ (Script.next a) (Listing.next (.ofSupply a))
      have hnext : Supply.next a = Script.next a := rfl
      rw [hnext] at htokens
      unfold Listing.ofSupply
      cases ha : Script.next a with
      | fault f a' =>
        rw [ha] at htokens
        rw [htokens]
        exact .fault trivial
      | ok t a' =>
        rw [ha] at htokens
        by_cases isQuit : t.kind = .quit
        · rw [Script.eq_quit ha isQuit] at htokens ⊢
          rw [htokens]
          exact .ok (.inr ⟨_, rfl, rfl⟩)
        · simp only [if_neg isQuit] at htokens
          rw [htokens]
          exact .ok (.inl rfl)
    · cases ht
  stand_none {t a b} h _ notQuit := by
    obtain h | ⟨u, hu, isQuit⟩ := h
    · exact .inl h
    · injection hu with hu
      exact absurd (hu ▸ isQuit) notQuit
  broken_of_stand _ := trivial

theorem listed_loses : listed.Loses := fun _ _ _ _ => trivial

theorem listed_through : listed.Through := by
  intro t a b h isPrint
  obtain h | ⟨u, hu, isQuit⟩ := h
  · exact .inl h
  · injection hu with hu
    rw [← hu, isPrint] at isQuit
    cases isQuit

/-! ## Texts read to their end -/

/-- The text is read to its end: its tokens are those of the list, and none of them
    is `quit`. -/
inductive Lexed (constants : Bindings) : List Char → List Token → Prop where
  | nil {u : List Char} (blank : u.dropWhile Text.isBlank = []) : Lexed constants u []
  | cons {u left : List Char} {t : Token} {ts : List Token}
      (lexeme : Lexes constants (u.dropWhile Text.isBlank) (.ok t) left) (notQuit : t.kind ≠ .quit)
      (more : Lexed constants left ts) : Lexed constants u (t :: ts)

section Lexed

variable {constants : Bindings} {u : List Char} {ts : List Token}

/-- A text that is read to its end has these tokens and no fault. -/
theorem Lexed.ofSupply (h : Lexed constants u ts) {s : Script} (hconstants : s.constants = constants)
    (hrest : s.rest = u) : Listing.ofSupply s = ⟨ts, none⟩ := by
  have tokens : Supply.tokens s = (ts, none) := by
    induction h generalizing s with
    | nil blank =>
      obtain ⟨reader, -, hnext⟩ := Script.next_of_nil (hrest ▸ blank)
      have hnext : Supply.next s = .ok (.mark .quit) { s with reader } := hnext
      rw [Supply.tokens_eq, hnext]
      rfl
    | @cons u left t ts lexeme notQuit more ih =>
      subst hconstants hrest
      obtain ⟨reader, hreader, hnext⟩ := lexeme.next
      have hnext : Supply.next s = .ok t { s with reader } := hnext
      rw [Supply.tokens_eq, hnext]
      simp only [if_neg notQuit]
      rw [ih (s := { s with reader }) rfl hreader]
  rw [Listing.ofSupply, tokens]

/-- Without a fault, and without any `q`, a text is read to its end. -/
theorem Lexed.of_tokens {s : Script} (htokens : Supply.tokens s = (ts, none)) (hq : 'q' ∉ s.rest) :
    Lexed s.constants s.rest ts := by
  induction hlength : s.rest.length using Nat.strongRecOn generalizing s ts with
  | ind n ih =>
    obtain ⟨result, left, hlexes⟩ := lexes_exists s.constants (s.rest.dropWhile Text.isBlank)
    obtain ⟨reader, hreader, hnext⟩ := hlexes.next
    have hnext : Supply.next s = .of result { s with reader } := hnext
    have hsub := List.dropWhile_subset (l := s.rest) Text.isBlank
    rw [Supply.tokens_eq, hnext] at htokens
    cases result with
    | error f => cases htokens
    | ok t =>
      change (if t.kind = .quit then _ else _) = _ at htokens
      -- A `quit` is the end of the text, for no `q` is in it.
      by_cases isQuit : t.kind = .quit
      · rw [if_pos isQuit] at htokens
        injection htokens with hts
        subst hts
        rw [hlexes.eq_quit isQuit] at hlexes
        generalize hu : s.rest.dropWhile Text.isBlank = u at hlexes hsub
        cases hlexes with
        | nothing => exact .nil hu
        | symbol isSymbol =>
          injection isSymbol with hc
          subst hc
          exact absurd (hsub List.mem_cons_self) hq
      · rw [if_neg isQuit] at htokens
        injection htokens with hts hfault
        obtain ⟨word, hsplit, -⟩ := hlexes.split
        have hq' : 'q' ∉ reader.rest := fun hmem =>
          hq (hsub (by rw [hsplit, ← hreader]; exact List.mem_append_right word hmem))
        have hsize : reader.rest.length + t.weight ≤ s.rest.length := Supply.size_next_ok hnext
        have hweight := Token.weight_eq_one isQuit
        have hlt : reader.rest.length < n := by omega
        rw [← hts]
        refine .cons hlexes isQuit ?_
        rw [← hreader]
        exact ih _ hlt (s := { s with reader }) (Prod.ext rfl hfault) hq' rfl

/-- What stands behind the first `;` of a text are the tokens behind the first `;`. -/
theorem Lexed.behindFirst (h : Lexed constants u ts) :
    Lexed constants (behindFirst u) (ts.dropWhile (·.kind ≠ .print)).tail := by
  have blanks (u : List Char) :
      Reckoner.behindFirst u = Reckoner.behindFirst (u.dropWhile Text.isBlank) := by
    have h := behindFirst_append (not_mem_blank u) (u.dropWhile Text.isBlank)
    rwa [List.takeWhile_append_dropWhile] at h
  induction h with
  | nil blank =>
    rw [blanks, blank]
    exact .nil rfl
  | @cons u left t ts lexeme notQuit more ih =>
    obtain ⟨word, hsplit, ⟨hword, notPrint⟩ | ⟨rfl, isPrint⟩⟩ := lexeme.split
    · have hk : t.kind ≠ .print := notPrint t rfl
      rw [blanks, hsplit, behindFirst_append hword, List.dropWhile_cons_of_pos (by simpa using hk)]
      exact ih
    · injection isPrint with isPrint
      subst isPrint
      rw [blanks, hsplit]
      exact more

end Lexed

/-- A text that is read to its end and the list of its tokens give the same. -/
def whole (constants : Bindings) : Concord Script Listing where
  stand _ a b := a.constants = constants ∧ Lexed constants a.rest b.tokens ∧ b.fault = none
  broken _ _ a b := a.constants = constants ∧ Lexed constants a.rest b.tokens ∧ b.fault = none
  next {a b} h := by
    obtain ⟨tokens, fault⟩ := b
    obtain ⟨rfl, hlexed, rfl⟩ := h
    show Both _ _ (Script.next a) (Listing.next ⟨tokens, none⟩)
    cases hlexed with
    | nil blank =>
      obtain ⟨reader, hreader, hnext⟩ := Script.next_of_nil blank
      rw [hnext]
      have hnil : Lexed a.constants reader.rest [] := .nil (by rw [hreader]; rfl)
      exact .ok ⟨rfl, hnil, rfl⟩
    | cons lexeme notQuit more =>
      obtain ⟨reader, hreader, hnext⟩ := lexeme.next
      rw [hnext]
      subst hreader
      exact .ok ⟨rfl, more, rfl⟩
  stand_none h _ _ := h
  broken_of_stand h := h

theorem whole_through (constants : Bindings) : (whole constants).Through := fun _ _ _ h _ => h

theorem whole_loses (constants : Bindings) : (whole constants).Loses := fun _ _ _ h => h

/-- The characters up to the first `;` are those of the tokens up to the first `;`. -/
theorem whole_recovers (constants : Bindings) : (whole constants).Recovers where
  skipPast {_ _ a b} h _ := by
    obtain ⟨hconstants, hlexed, hfault⟩ := h
    refine ⟨hconstants, ?_, hfault⟩
    show Lexed constants (a.skipPast .print).2.rest _
    rw [rest_skipPast_print]
    exact hlexed.behindFirst
  held h _ := h

/-- A session over a text that is read to its end is one over its tokens. -/
theorem converse_of_lexed {s : Script} {ts : List Token} (h : Lexed s.constants s.rest ts) (limit : Limit)
    (vars : Bindings) : ((ofSupply s vars).converse limit).Alike
      ((ofSupply (⟨ts, none⟩ : Listing) vars).converse limit) :=
  Concord.converse (whole_through s.constants) (whole_loses s.constants)
    (whole_recovers s.constants) limit ⟨rfl, rfl, rfl, h, rfl⟩

/-- **A text may be read as it is needed.** Whatever the limit, an evaluation of a text
    has the values, the fault and the variables of one over its listing, the tokens and
    the fault read up front. So two texts with one listing have the same evaluation. If
    two texts are read to their end and have the same tokens, two sessions also show
    the same and end alike. -/
theorem evaluate_of_listing (limit : Limit) (scope : Scope) (code code' : String) :
    (let onDemand := (scope.start code).evaluate limit
      let upFront := (ofSupply (scope.listing code) scope.vars).evaluate limit
      onDemand.results = upFront.results ∧ onDemand.fault = upFront.fault ∧
        onDemand.state.vars = upFront.state.vars) ∧
    (∀ ts, scope.tokens code = .ok ts ↔ scope.listing code = ⟨ts, none⟩) ∧
    (∀ f, scope.tokens code = .error f ↔ (scope.listing code).fault = some f) ∧
    (scope.listing code = scope.listing code' →
      scope.evaluate code limit = scope.evaluate code' limit) ∧
    ∀ ts, Lexed scope.constants code.toList ts → Lexed scope.constants code'.toList ts →
      let c := (scope.start code).converse limit
      let c' := (scope.start code').converse limit
      scope.tokens code = .ok ts ∧ scope.tokens code' = .ok ts ∧
        Transcript.output c.events = Transcript.output c'.events ∧
        Transcript.errors c.events = Transcript.errors c'.events ∧
        Transcript.merged c.events = Transcript.merged c'.events ∧
        c.fatal = c'.fatal ∧ c.state.vars = c'.state.vars := by
  have upFront (code : String) := Concord.evaluate listed_through listed_loses limit
    (s := scope.start code) (u := ofSupply (scope.listing code) scope.vars) ⟨rfl, rfl, .inl rfl⟩
  refine ⟨upFront code, (scope.tokens_eq code).1, (scope.tokens_eq code).2, fun same => ?_, ?_⟩
  · obtain ⟨results, fault, vars⟩ := upFront code
    obtain ⟨results', fault', vars'⟩ := upFront code'
    rw [← same] at results' fault' vars'
    rw [Scope.evaluate, Scope.evaluate, results, fault, vars, results', fault', vars']
  · intro ts h h'
    have tokens {code : String} (h : Lexed scope.constants code.toList ts) : scope.tokens code = .ok ts :=
      ((scope.tokens_eq code).1 ts).mpr (h.ofSupply rfl rfl)
    have alike {code : String} (h : Lexed scope.constants code.toList ts) :=
      converse_of_lexed (s := Script.ofText scope.constants code.toList) h limit scope.vars
    exact ⟨tokens h, tokens h', (alike h).output.trans (alike h').output.symm,
      (alike h).errors.trans (alike h').errors.symm, (alike h).merged.trans (alike h').merged.symm,
      (alike h).fatal.trans (alike h').fatal.symm, (alike h).vars.trans (alike h').vars.symm⟩

/-- Other blanks and another spelling of the numbers change nothing, although the
    fault comes where two characters are dropped in one text and four in the other. -/
theorem converse_of_respaced :
    let scope := Scope.ofConstants .builtin
    let c := scope.converse "x = 1 + ) 2;x = 3;x"
    let c' := scope.converse "x=1.0+)  2. ;x=3e0;x"
    scope.listing "x = 1 + ) 2;x = 3;x" = scope.listing "x=1.0+)  2. ;x=3e0;x" ∧
      scope.evaluate "x = 1 + ) 2;x = 3;x" = scope.evaluate "x=1.0+)  2. ;x=3e0;x" ∧
      scope.evaluate "x = 1 + ) 2;x = 3;x" = (.error .operandExpected, scope) ∧
      Transcript.output c.events = Transcript.output c'.events ∧
      Transcript.output c.events = "> > = 3\n> = 3\n> " ∧
      Transcript.errors c.events = Transcript.errors c'.events ∧
      Transcript.errors c.events = "primary expected\n" ∧
      c.state.vars = c'.state.vars ∧ c.state.vars = .ofList [("x", 3)] ∧ c.events ≠ c'.events := by
  intro scope c c'
  let ts : List Token :=
    [.identifier "x", .mark .assign, .number 1, .mark (.operator .add), .mark .closing, .number 2,
      .mark .print, .identifier "x", .mark .assign, .number 3, .mark .print, .identifier "x"]
  have tokens : Supply.tokens (Script.ofText .builtin "x = 1 + ) 2;x = 3;x".toList) = (ts, none) := by
    decide +kernel
  have tokens' : Supply.tokens (Script.ofText .builtin "x=1.0+)  2. ;x=3e0;x".toList) = (ts, none) := by
    decide +kernel
  have lexed : Lexed .builtin "x = 1 + ) 2;x = 3;x".toList ts :=
    Lexed.of_tokens tokens (by decide +kernel)
  have lexed' : Lexed .builtin "x=1.0+)  2. ;x=3e0;x".toList ts :=
    Lexed.of_tokens tokens' (by decide +kernel)
  have same : scope.listing "x = 1 + ) 2;x = 3;x" = scope.listing "x=1.0+)  2. ;x=3e0;x" :=
    (lexed.ofSupply rfl rfl).trans (lexed'.ofSupply rfl rfl).symm
  obtain ⟨-, -, -, evaluate, converse⟩ :=
    evaluate_of_listing nestingLimit scope "x = 1 + ) 2;x = 3;x" "x=1.0+)  2. ;x=3e0;x"
  obtain ⟨-, -, output, errors, -, -, vars⟩ := converse ts lexed lexed'
  obtain ⟨fault, kept⟩ : ((scope.start "x = 1 + ) 2;x = 3;x").evaluate nestingLimit).fault =
      some .operandExpected ∧
      ((scope.start "x = 1 + ) 2;x = 3;x").evaluate nestingLimit).state.vars = scope.vars := by
    decide +kernel
  have answer : scope.evaluate "x = 1 + ) 2;x = 3;x" = (.error .operandExpected, scope) := by
    rw [Scope.evaluate, fault, kept]
  exact ⟨same, evaluate same, answer, output, by decide +kernel, errors,
    by decide +kernel, vars, by decide +kernel, by decide +kernel⟩

end Reckoner
