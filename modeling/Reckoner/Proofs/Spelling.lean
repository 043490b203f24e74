/-
  Tokens that are written are read again.

  `Token.spelling` writes a token as its character, its number in full or its name.
  A `Placed` token is one that a text can have, behind a gap of blanks. Where no
  symbol is a neighbour the gap is not empty (`Placed.Apart`), so a word or a number
  ends where its own text ends: behind it stand a blank, a symbol or nothing. An
  exponent needs no more, since its sign is behind its letter.

  Proved: `tokens_of_spelled`, for every list of placed tokens.
-/
import Reckoner.Calculator
import Reckoner.Proofs.Layouts
import Reckoner.Proofs.Loops
import Reckoner.Proofs.Rendering

namespace Reckoner

open State Binary64

/-! ## Spellings -/

namespace Token

/-- A token as it is typed: its character, its number in full, or its name. -/
def spelling (t : Token) : List Char :=
  match t.kind with
  | .number => (text t.value).toList
  | .name => t.name.toList
  | k => k.symbol?.toList

def isSymbol (t : Token) : Bool := t.kind.symbol?.isSome

/-- A token of a text before its end: a symbol other than `q`, a finite number
    without a sign, or a name that no constant has. -/
inductive Lexical (constants : Bindings) : Token → Prop where
  | symbol {k : Kind} (isSymbol : k.symbol?.isSome = true) (notQuit : k ≠ .quit) :
      Lexical constants (.mark k)
  | number {v : Float} (finite : v.isFinite = true) (unsigned : negative v = false) :
      Lexical constants (.number v)
  | name {x : String} (identifier : IsIdentifier x) (free : constants.lookup x = none) :
      Lexical constants (.identifier x)

theorem spelling_symbol {k : Kind} {c : Char} (h : k.symbol? = some c) :
    (mark k).spelling = [c] := by
  cases k with
  | number => cases h
  | name => cases h
  | _ => exact congrArg Option.toList h

theorem spelling_number (v : Float) : (number v).spelling = Layout.full.chars v :=
  String.toList_ofList

theorem Lexical.kind_ne_quit {constants : Bindings} {t : Token} (h : t.Lexical constants) :
    t.kind ≠ .quit := by
  cases h with
  | symbol isSymbol notQuit => exact notQuit
  | number finite unsigned => exact Kind.noConfusion
  | name identifier free => exact Kind.noConfusion

end Token

/-- A token in a text, and the blanks in front of it. -/
structure Placed (constants : Bindings) where
  gap : List Char
  token : Token
  blank : IsBlank gap
  lexical : token.Lexical constants

namespace Placed

variable {constants : Bindings}

def text (w : Placed constants) : List Char := w.gap ++ w.token.spelling

/-- Two neighbours have blanks between them, or one of them is a symbol. -/
def Apart (w w' : Placed constants) : Prop :=
  w'.gap ≠ [] ∨ w.token.isSymbol = true ∨ w'.token.isSymbol = true

/-! ## One token -/

/-- A token is read from its text, where it ends. -/
theorem reads (w : Placed constants) {z : List Char} (ends : w.token.isSymbol = true ∨ Delimits z) :
    Reads constants (w.text ++ z) [w.token] z := by
  obtain ⟨gap, token, blank, lexical⟩ := w
  rw [text]
  cases lexical with
  | @symbol k isSymbol notQuit =>
    obtain ⟨c, hc⟩ := Option.isSome_iff_exists.mp isSymbol
    rw [Token.spelling_symbol hc, List.append_assoc]
    exact reads_symbol blank hc
  | @number v finite unsigned =>
    have delimits : Delimits z := ends.resolve_left Bool.noConfusion
    obtain ⟨n, form, hvalue, hchars⟩ := Layout.exists_chars Layout.wholeEnd_full finite
    rw [unsigned] at hchars
    have hspelling : (Token.number v).spelling = n.text := (Token.spelling_number v).trans hchars
    have hv : n.value = v := by rw [hvalue, ← unsigned, ofRank_rank]
    dsimp only
    rw [hspelling, ← hv]
    exact reads_number blank form delimits
  | name identifier free =>
    exact reads_name blank identifier free (ends.resolve_left Bool.noConfusion)

/-- A symbol ends what is in front of it. -/
theorem delimits_text {w : Placed constants} (h : w.token.isSymbol = true) (z : List Char) :
    Delimits (w.text ++ z) := by
  obtain ⟨gap, token, blank, lexical⟩ := w
  rw [text]
  cases lexical with
  | symbol isSymbol notQuit =>
    obtain ⟨c, hc⟩ := Option.isSome_iff_exists.mp isSymbol
    rw [Token.spelling_symbol hc, List.append_assoc]
    exact delimits_symbol blank hc notQuit z
  | number => cases h
  | name => cases h

/-- Behind the tokens of a text a word or a number has ended. -/
theorem delimits_behind {w : Placed constants} {ws : List (Placed constants)} {bl : List Char}
    (apart : (w :: ws).IsChain Apart) (blank : IsBlank bl) :
    w.token.isSymbol = true ∨ Delimits (ws.flatMap text ++ bl) := by
  cases ws with
  | nil =>
    right
    cases bl with
    | nil => exact delimits_nil
    | cons b bl => exact delimits_blank (blank b List.mem_cons_self) _
  | cons w' ws =>
    rw [List.isChain_cons_cons] at apart
    rw [List.flatMap_cons, List.append_assoc]
    rcases apart.1 with hgap | hsymbol | hsymbol
    · right
      obtain ⟨b, gap, hb⟩ := List.exists_cons_of_ne_nil hgap
      rw [text, hb]
      exact delimits_blank (w'.blank b (by rw [hb]; exact List.mem_cons_self)) _
    · exact .inl hsymbol
    · exact .inr (delimits_text hsymbol _)

/-! ## All tokens -/

theorem reads_all {ws : List (Placed constants)} {bl : List Char} (apart : ws.IsChain Apart)
    (blank : IsBlank bl) : Reads constants (ws.flatMap text ++ bl) (ws.map token) bl := by
  induction ws with
  | nil => exact fun s vars hconstants hrest => ⟨s, hconstants, hrest, takes_refl _⟩
  | cons w ws ih =>
    rw [List.flatMap_cons, List.append_assoc]
    exact (w.reads (delimits_behind apart blank)).append (ih apart.tail)

end Placed

namespace Supply

variable {σ : Type} [Supply σ]

/-- Tokens that can be taken one after the other come first. -/
theorem tokens_of_takes {s s' : σ} {vars : Bindings} {ts : List Token}
    (h : (ofSupply s vars).Takes ts (ofSupply s' vars)) (notQuit : ∀ t ∈ ts, t.kind ≠ .quit) :
    tokens s = (ts ++ (tokens s').1, (tokens s').2) := by
  induction ts generalizing s with
  | nil =>
    have same : next s = next s' := h
    rw [tokens_eq s, same, ← tokens_eq s']
    rfl
  | cons t ts ih =>
    obtain ⟨supply, ha, h⟩ := h
    have hnext : next s = .ok t supply := ha
    rw [tokens_eq, hnext]
    dsimp only
    rw [if_neg (notQuit t List.mem_cons_self),
      ih h fun u hu => notQuit u (List.mem_cons_of_mem t hu)]
    rfl

end Supply

/-- The tokens that a text gives up to blanks at its end are all its tokens. -/
theorem Scope.tokens_of_reads (scope : Scope) {cs bl : List Char} {ts : List Token}
    (reads : Reads scope.constants cs ts bl) (blank : IsBlank bl) (notQuit : ∀ t ∈ ts, t.kind ≠ .quit) :
    scope.tokens (String.ofList cs) = .ok ts := by
  obtain ⟨s, hs⟩ : ∃ s, s = Script.ofText scope.constants (String.ofList cs).toList := ⟨_, rfl⟩
  have hconstants : s.constants = scope.constants := by rw [hs, Script.ofText]
  have hrest : s.rest = cs := by
    rw [hs]
    exact String.toList_ofList
  obtain ⟨s', -, hrest', taken⟩ := reads s scope.vars hconstants hrest
  obtain ⟨supply, ha⟩ := ahead_blank blank hrest' scope.vars
  have hnext : Supply.next s' = .ok (.mark .quit) supply := ha
  have hend : Supply.tokens s' = ([], none) := by
    rw [Supply.tokens_eq, hnext]
    rfl
  have htokens : s.tokens = (ts, none) := by
    rw [Script.tokens, Supply.tokens_of_takes taken notQuit, hend, List.append_nil]
  rw [Scope.tokens, ← hs, htokens]

/-- **Reading undoes writing.** Tokens that a text can have, each behind a gap of
    blanks that may be empty beside a symbol, are the tokens of that text. -/
theorem tokens_of_spelled (scope : Scope) (ws : List (Placed scope.constants)) (bl : List Char)
    (apart : ws.IsChain Placed.Apart) (blank : IsBlank bl) :
    scope.tokens (String.ofList (ws.flatMap Placed.text ++ bl)) = .ok (ws.map Placed.token) := by
  refine scope.tokens_of_reads (Placed.reads_all apart blank) blank fun t ht => ?_
  obtain ⟨w, -, rfl⟩ := List.mem_map.mp ht
  exact w.lexical.kind_ne_quit

/-- An exponent ends at a sign, and a constant's letter may begin a longer name. -/
theorem tokens_of_exponent_before_sign :
    (Scope.ofConstants .builtin).tokens "1e+16+ e2\t2.5e-07;" =
      .ok [.number 1e16, .mark (.operator .add), .identifier "e2", .number 2.5e-7, .mark .print] := by
  let ws : List (Placed .builtin) :=
    [⟨[], .number 1e16, isBlank_nil, .number (by decide +kernel) (by decide +kernel)⟩,
      ⟨[], .mark (.operator .add), isBlank_nil, .symbol rfl Kind.noConfusion⟩,
      ⟨[' '], .identifier "e2", isBlank_singleton rfl,
        .name ⟨'e', ['2'], rfl, rfl, by decide, by simp⟩ (by decide +kernel)⟩,
      ⟨['\t'], .number 2.5e-7, isBlank_singleton rfl, .number (by decide +kernel) (by decide +kernel)⟩,
      ⟨[], .mark .print, isBlank_nil, .symbol rfl Kind.noConfusion⟩]
  have apart : ws.IsChain Placed.Apart := by
    simp [ws, Placed.Apart, Token.isSymbol, Token.mark, Kind.symbol?]
  have htext : String.ofList (ws.flatMap Placed.text ++ []) = "1e+16+ e2\t2.5e-07;" := by
    decide +kernel
  exact htext ▸ tokens_of_spelled (.ofConstants .builtin) ws [] apart isBlank_nil

end Reckoner
