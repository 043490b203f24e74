/-
  Where tokens come from.

  A supply gives one token after the other and for ever: at its end the token
  is `quit`. A supply can also be told to drop what comes, up to and with the
  first mark of a kind. It has a size, which no step lets grow. A token other
  than `quit` costs at least one, and so does a fault; a loop that asks for
  tokens until `quit` therefore ends.
-/
import Reckoner.Outcome
import Reckoner.Token

namespace Reckoner

namespace Token

/-- What a token is worth in the size of a supply. -/
def weight (t : Token) : Nat := if t.kind = .quit then 0 else 1

theorem weight_eq_one {t : Token} (h : t.kind ≠ .quit) : t.weight = 1 := if_neg h

theorem weight_le_one (t : Token) : t.weight ≤ 1 := by
  unfold weight
  split <;> decide

end Token

/-- A source of tokens. -/
class Supply (σ : Type) where
  /-- The next token. -/
  next : σ → Outcome σ Token
  /-- Drops what comes up to and with the first mark of a kind, and counts what
      was before it. -/
  skipPast : Kind → σ → Nat × σ
  /-- How much is left, at least as much as the tokens that are not `quit`. -/
  size : σ → Nat
  size_next_ok {s s' : σ} {t : Token} : next s = .ok t s' → size s' + t.weight ≤ size s
  size_next_fault {s s' : σ} {f : Fault} : next s = .fault f s' → size s' < size s
  size_skipPast (k : Kind) (s : σ) : size (skipPast k s).2 ≤ size s

namespace Supply

variable {σ : Type} [Supply σ]

/-- All tokens before `quit`, and the fault that came instead of one. -/
def tokens (s : σ) : List Token × Option Fault :=
  match _h : next s with
  | .fault f _ => ([], some f)
  | .ok t s' =>
    if _hq : t.kind = .quit then ([], none)
    else
      let (ts, f?) := tokens s'
      (t :: ts, f?)
termination_by size s
decreasing_by
  have := size_next_ok _h
  have := Token.weight_eq_one _hq
  omega

end Supply

end Reckoner
