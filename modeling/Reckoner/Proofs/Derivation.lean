/-
  The grammar as derivations.

  A `Derivation p` reads tokens as a sum (`p = 1`), a product (`p = 2`) or an
  operand (`p = 3`) by the rules

    sum     : product (('+' | '-') product)*
    product : operand (('*' | '/' | '%') operand)*
    operand : number | '(' sum ')' | '-' operand | name ('=' sum)?

  `word` are the tokens read, `tree` is what they mean, `calls` how many rules
  are active at once while they are read. The rules leave open how far the right
  side of an assignment goes: `x = 3 + 4` is also a sum of `x = 3` and `4`.
  `Longest` takes the side as far as the grammar lets it go. `Tidy` says the same
  of the shape alone: no assignment ends an operand with an operator behind it.

  Proved:
  * `run_word`: what a reader of tokens knows behind a derivation (`Phase`).
  * `not_sentence_append`: which token cannot go on a sentence.
  * `longest_of_tidy`: a tidy derivation that stops where it must is longest.
-/
import Reckoner.Expr
import Reckoner.Grammar

namespace Reckoner

open Rule (operatorAt)

theorem Operator.precedence_pos (op : Operator) : 0 < op.precedence := by cases op <;> decide

theorem Operator.precedence_lt (op : Operator) : op.precedence < 3 := by cases op <;> decide

/-- A reading of tokens by the grammar: a sum, a product or an operand. -/
inductive Derivation : Nat → Type where
  /-- A sum of one product, a product of one operand. -/
  | lone {p : Nat} (level : p = 1 ∨ p = 2) (only : Derivation (p + 1)) : Derivation p
  | chained {p : Nat} (left : Derivation p) (sign : Token) (op : Operator)
      (isOperator : operatorAt p sign.kind = some op) (right : Derivation (p + 1)) : Derivation p
  | number (t : Token) (isNumber : t.kind = .number) : Derivation 3
  | enclosed (opening closing : Token) (opens : opening.kind = .opening)
      (closes : closing.kind = .closing) (inner : Derivation 1) : Derivation 3
  | signed (minus : Token) (isMinus : minus.kind = .operator .subtract)
      (operand : Derivation 3) : Derivation 3
  | named (t : Token) (isName : t.kind = .name) : Derivation 3
  | assigned (target equals : Token) (isName : target.kind = .name)
      (isAssign : equals.kind = .assign) (value : Derivation 1) : Derivation 3

namespace Derivation

variable {p : Nat}

/-- The tokens that are read. -/
def word {p : Nat} : Derivation p → List Token
  | lone _ d => d.word
  | chained l t _ _ r => l.word ++ t :: r.word
  | number t _ => [t]
  | enclosed o c _ _ d => o :: (d.word ++ [c])
  | signed m _ d => m :: d.word
  | named t _ => [t]
  | assigned t e _ _ d => t :: e :: d.word

/-- What they mean. -/
def tree {p : Nat} : Derivation p → Expr
  | lone _ d => d.tree
  | chained l _ op _ r => .binary op l.tree r.tree
  | number t _ => .number t.value
  | enclosed _ _ _ _ d => d.tree
  | signed _ _ d => .negate d.tree
  | named t _ => .name t.name
  | assigned t _ _ _ d => .assign t.name d.tree

/-- Whether it is an operand behind a minus sign. -/
def isSigned {p : Nat} : Derivation p → Bool
  | signed .. => true
  | _ => false

/-- How many rules are active at once while it is read. A run of signs is read by
    one rule, and the operand behind the run by another. -/
def calls {p : Nat} : Derivation p → Nat
  | lone _ d => d.calls + 1
  | chained l _ _ _ r => max l.calls (r.calls + 1)
  | number .. => 1
  | enclosed _ _ _ _ d => d.calls + 1
  | signed _ _ d => if d.isSigned then d.calls else d.calls + 1
  | named .. => 1
  | assigned _ _ _ _ d => d.calls + 1

/-- Whether an assignment stands at its end. -/
def endsOpen {p : Nat} : Derivation p → Bool
  | lone _ d => d.endsOpen
  | chained _ _ _ _ r => r.endsOpen
  | signed _ _ d => d.endsOpen
  | assigned .. => true
  | _ => false

/-- Whether a name stands at its end. -/
def endsInName {p : Nat} : Derivation p → Bool
  | lone _ d => d.endsInName
  | chained _ _ _ _ r => r.endsInName
  | signed _ _ d => d.endsInName
  | assigned _ _ _ _ d => d.endsInName
  | named .. => true
  | _ => false

end Derivation

/-- The tokens are a sum. -/
def Sentence (ts : List Token) : Prop := ∃ d : Derivation 1, d.word = ts

namespace Derivation

/-- In front of `rest`, each assignment has the longest right side there is: no
    more of what follows could be read as part of it. -/
def Longest {p : Nat} : Derivation p → (rest : List Token) → Prop
  | lone _ d, rest => d.Longest rest
  | chained l t _ _ r, rest => l.Longest (t :: (r.word ++ rest)) ∧ r.Longest rest
  | number .., _ => True
  | enclosed _ c _ _ d, rest => d.Longest (c :: rest)
  | signed _ _ d, rest => d.Longest rest
  | named .., _ => True
  | assigned _ _ _ _ d, rest =>
    d.Longest rest ∧ ∀ more, more ≠ [] → more <+: rest → ¬ Sentence (d.word ++ more)

/-- No assignment stands at the end of an operand with an operator behind it. -/
def Tidy {p : Nat} : Derivation p → Prop
  | lone _ d => d.Tidy
  | chained l _ _ _ r => l.Tidy ∧ l.endsOpen = false ∧ r.Tidy
  | enclosed _ _ _ _ d => d.Tidy
  | signed _ _ d => d.Tidy
  | assigned _ _ _ _ d => d.Tidy
  | _ => True

/-- A token behind a derivation does not go on with it, for all that an assignment
    at its end or a name there could take. -/
structure Stops (d : Derivation p) (t : Token) : Prop where
  open_of_operator : ∀ op, t.kind = .operator op → d.endsOpen = false
  name_of_assign : t.kind = .assign → d.endsInName = false

/-- A token behind a derivation is none that the rules of a level or above take. -/
structure Settled (level : Nat) (d : Derivation p) (t : Token) : Prop extends Stops d t where
  lower : ∀ op, t.kind = .operator op → op.precedence < level

/-- Only the end of a derivation counts. -/
theorem Stops.congr {q : Nat} {d : Derivation p} {d' : Derivation q} {t : Token} (h : d.Stops t)
    (hopen : d'.endsOpen = d.endsOpen) (hname : d'.endsInName = d.endsInName) : d'.Stops t :=
  ⟨fun op hk => hopen.trans (h.open_of_operator op hk),
    fun hk => hname.trans (h.name_of_assign hk)⟩

theorem Settled.congr {q level : Nat} {d : Derivation p} {d' : Derivation q} {t : Token}
    (h : d.Settled level t) (hopen : d'.endsOpen = d.endsOpen)
    (hname : d'.endsInName = d.endsInName) : d'.Settled level t :=
  ⟨h.toStops.congr hopen hname, h.lower⟩

theorem Settled.mono {level level' : Nat} {d : Derivation p} {t : Token} (h : d.Settled level t)
    (hle : level ≤ level') : d.Settled level' t :=
  ⟨h.toStops, fun op hk => Nat.lt_of_lt_of_le (h.lower op hk) hle⟩

/-- What is no operator and no assignment goes on with nothing. -/
theorem settled_of_ne {level : Nat} {d : Derivation p} {t : Token}
    (hop : ∀ op, t.kind ≠ .operator op) (hassign : t.kind ≠ .assign) : d.Settled level t :=
  ⟨⟨fun op hk => absurd hk (hop op), fun hk => absurd hk hassign⟩, fun op hk => absurd hk (hop op)⟩

/-- Behind a sum no operator stands. -/
theorem Settled.ne_operator {d : Derivation p} {t : Token} (h : d.Settled 1 t) (op : Operator) :
    t.kind ≠ .operator op := fun hk =>
  absurd (h.lower op hk) (Nat.not_lt.mpr op.precedence_pos)

end Derivation

/-! ## What a reader knows between two tokens -/

/-- Between two tokens either an operand must come or one has ended. In both
    cases some parentheses are open; behind an operand it counts whether it was
    a name. -/
inductive Phase where
  | wanting (depth : Nat)
  | holding (depth : Nat) (name : Bool)
  deriving DecidableEq

namespace Phase

/-- The phase behind a token of a kind, if one may stand there. -/
def step : Phase → Kind → Option Phase
  | wanting n, .number => some (holding n false)
  | wanting n, .name => some (holding n true)
  | wanting n, .opening => some (wanting (n + 1))
  | wanting n, .operator .subtract => some (wanting n)
  | holding n _, .operator _ => some (wanting n)
  | holding (n + 1) _, .closing => some (holding n false)
  | holding n true, .assign => some (wanting n)
  | _, _ => none

/-- The phase behind some tokens. -/
def run (q : Phase) : List Token → Option Phase
  | [] => some q
  | t :: ts => (q.step t.kind).bind fun q => q.run ts

theorem run_append (q : Phase) (ts us : List Token) :
    q.run (ts ++ us) = (q.run ts).bind fun q => q.run us := by
  induction ts generalizing q with
  | nil => rfl
  | cons t ts ih =>
    rw [List.cons_append, run, run]
    cases q.step t.kind with
    | none => rfl
    | some q => exact ih q

end Phase

namespace Derivation

variable {p : Nat}

theorem kind_of_operatorAt {k : Kind} {op : Operator} (h : operatorAt p k = some op) :
    k = .operator op ∧ op.precedence = p := Rule.operatorAt_eq_some_iff.mp h

theorem operatorAt_eq_none {k : Kind} (h : operatorAt p k = none) (op : Operator)
    (hk : k = .operator op) : op.precedence ≠ p := by
  intro hp
  rw [Rule.operatorAt_eq_some_iff.mpr ⟨hk, hp⟩] at h
  cases h

/-- Behind a derivation an operand has ended, and as many parentheses are open as
    before it. -/
theorem run_word (d : Derivation p) (n : Nat) :
    (Phase.wanting n).run d.word = some (.holding n d.endsInName) := by
  induction d generalizing n with
  | lone level only ih => exact ih n
  | chained left sign op isOperator right ihl ihr =>
    rw [word, Phase.run_append, ihl, Option.bind_some, Phase.run,
      (kind_of_operatorAt isOperator).1]
    exact ihr n
  | number t isNumber =>
    rw [word, Phase.run, isNumber]
    rfl
  | enclosed opening closing opens closes inner ih =>
    rw [word, Phase.run, opens]
    show (Phase.wanting (n + 1)).run (inner.word ++ [closing]) = _
    rw [Phase.run_append, ih, Option.bind_some, Phase.run, closes]
    rfl
  | signed minus isMinus operand ih =>
    rw [word, Phase.run, isMinus]
    exact ih n
  | named t isName =>
    rw [word, Phase.run, isName]
    rfl
  | assigned target equals isName isAssign value ih =>
    rw [word, Phase.run, isName]
    show (Phase.holding n true).run (equals :: value.word) = _
    rw [Phase.run, isAssign]
    exact ih n

/-- Behind a sentence only an operator goes on, or an assignment behind a name. -/
theorem not_sentence_append {d : Derivation 1} {t : Token} {more : List Token}
    (hop : ∀ op, t.kind ≠ .operator op) (hassign : t.kind = .assign → d.endsInName = false) :
    ¬ Sentence (d.word ++ t :: more) := by
  rintro ⟨longer, hword⟩
  have hrun := longer.run_word 0
  rw [hword, Phase.run_append, d.run_word, Option.bind_some, Phase.run] at hrun
  have hstep : (Phase.holding 0 d.endsInName).step t.kind = none := by
    cases hk : t.kind with
    | operator op => exact absurd hk (hop op)
    | assign => rw [hassign hk]; rfl
    | _ => rfl
  rw [hstep] at hrun
  cases hrun

/-- A tidy derivation in front of a token that stops it is longest. -/
theorem longest_of_tidy {d : Derivation p} {t : Token} (tidy : d.Tidy) (stops : d.Stops t)
    (rest : List Token) : d.Longest (t :: rest) := by
  induction d generalizing t rest with
  | lone level only ih => exact ih tidy (stops.congr rfl rfl) rest
  | chained left sign op isOperator right ihl ihr =>
    obtain ⟨hl, hopen, hr⟩ := tidy
    refine ⟨ihl hl ⟨fun _ _ => hopen, fun h => ?_⟩ _, ihr hr (stops.congr rfl rfl) rest⟩
    rw [(kind_of_operatorAt isOperator).1] at h
    cases h
  | number => trivial
  | enclosed opening closing opens closes inner ih =>
    refine ih tidy ⟨fun op h => ?_, fun h => ?_⟩ _ <;>
    · rw [closes] at h
      cases h
  | signed minus isMinus operand ih => exact ih tidy (stops.congr rfl rfl) rest
  | named => trivial
  | assigned target equals isName isAssign value ih =>
    have hop : ∀ op, t.kind ≠ .operator op := fun op h => by cases stops.1 op h
    refine ⟨ih tidy ⟨fun op h => absurd h (hop op), stops.2⟩ rest, ?_⟩
    intro more hmore hprefix
    obtain ⟨u, more, rfl⟩ := List.exists_cons_of_ne_nil hmore
    obtain ⟨rfl, -⟩ := List.cons_prefix_cons.mp hprefix
    exact not_sentence_append hop stops.2

theorem word_ne_nil (d : Derivation p) : d.word ≠ [] := by
  intro h
  have := d.run_word 0
  rw [h] at this
  cases this

end Derivation

end Reckoner
