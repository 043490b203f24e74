/-
  Texts of what is written, and the tokens in them.

  `Written.Renders` gives a written tree its texts: blanks may stand before each
  lexeme, a number is any numeral of its value or a constant's name, a name is an
  identifier that no constant has. `Reads` says that a script with such a text
  ahead gives certain tokens and comes to a certain rest.

  Proved: a rendering gives the tokens of what is written (`Renders.reads`), in
  front of any text that no word or numeral could run into (`Delimits`).
-/
import Reckoner.Proofs.Lexemes
import Reckoner.Proofs.Written

namespace Reckoner

open State

def IsBlank (bl : List Char) : Prop := ∀ c ∈ bl, Text.isBlank c = true

theorem isBlank_nil : IsBlank [] := fun _ hc => nomatch hc

theorem isBlank_singleton {b : Char} (h : Text.isBlank b = true) : IsBlank [b] := fun _ hc =>
  List.mem_singleton.mp hc ▸ h

/-- A letter of ASCII other than `q`, and letters and digits. -/
def IsIdentifier (x : String) : Prop :=
  ∃ c w, x.toList = c :: w ∧ c.isAlpha = true ∧ c ≠ 'q' ∧ ∀ y ∈ w, y.isAlphanum = true

theorem isIdentifier_iff {x : String} :
    IsIdentifier x ↔ (x.toList.head?.any (fun c => c.isAlpha && c != 'q') &&
      x.toList.tail.all Char.isAlphanum) = true := by
  unfold IsIdentifier
  cases hx : x.toList with
  | nil => simp
  | cons c w =>
    simp only [List.cons.injEq, List.head?_cons, Option.any_some, Bool.and_eq_true, bne_iff_ne,
      List.tail_cons, List.all_eq_true]
    exact ⟨fun ⟨_, _, ⟨rfl, rfl⟩, letter, notQuit, run⟩ => ⟨⟨letter, notQuit⟩, run⟩,
      fun ⟨⟨letter, notQuit⟩, run⟩ => ⟨c, w, ⟨rfl, rfl⟩, letter, notQuit, run⟩⟩

instance : DecidablePred IsIdentifier := fun _ => decidable_of_iff _ isIdentifier_iff.symm

/-- A name that is read is an identifier that no constant has. -/
theorem Lexes.eq_identifier {constants : Bindings} {u left : List Char} {t : Token}
    (h : Lexes constants u (.ok t) left) (isName : t.kind = .name) :
    t = .identifier t.name ∧ u = t.name.toList ++ left ∧ IsIdentifier t.name ∧
      constants.lookup t.name = none := by
  cases h with
  | nothing => cases isName
  | @symbol k c left isSymbol =>
    have isName : k = .name := isName
    subst isName
    cases isSymbol
  | numeral => cases isName
  | constant => cases isName
  | @name c w left letter notSymbol run longest free =>
    have hname : (String.ofList (c :: w)).toList = c :: w := String.toList_ofList
    exact ⟨rfl, congrArg (· ++ left) hname.symm, ⟨c, w, hname, letter, notSymbol, run⟩, free⟩

/-- No word and no numeral in front of the text goes on in it. -/
structure Delimits (z : List Char) : Prop where
  word : Ends Char.isAlphanum z
  point : z.head? ≠ some '.'

/-! ## Tokens of a text -/

/-- Wherever the text `cs` is ahead of a script, with these constants, the tokens
    are taken from it and `left` is left. -/
def Reads (constants : Bindings) (cs : List Char) (ts : List Token) (left : List Char) : Prop :=
  ∀ (s : Script) (vars : Bindings), s.constants = constants → s.rest = cs →
    ∃ s' : Script, s'.constants = constants ∧ s'.rest = left ∧
      (ofSupply s vars).Takes ts (ofSupply s' vars)

section Reads

variable {constants : Bindings} {bl cs left left' : List Char} {ts us : List Token} {t : Token}

theorem Reads.append (h : Reads constants cs ts left) (h' : Reads constants left us left') :
    Reads constants cs (ts ++ us) left' := by
  intro s vars hconstants hrest
  obtain ⟨s₁, hconstants₁, hrest₁, htakes⟩ := h s vars hconstants hrest
  obtain ⟨s₂, hconstants₂, hrest₂, htakes'⟩ := h' s₁ vars hconstants₁ hrest₁
  exact ⟨s₂, hconstants₂, hrest₂, takes_append htakes htakes'⟩

/-- A lexeme behind blanks. -/
theorem reads_lexeme (blank : IsBlank bl) (first : Ends Text.isBlank cs)
    (h : Lexes constants cs (.ok t) left) : Reads constants (bl ++ cs) [t] left := by
  intro s vars hconstants hrest
  have hdrop : s.rest.dropWhile Text.isBlank = cs := by
    rw [hrest, dropWhile_append_of_ends blank first]
  rw [← hconstants, ← hdrop] at h
  obtain ⟨reader, hreader, hnext⟩ := h.next
  refine ⟨{ s with reader }, hconstants, hreader, takes_token ?_⟩
  show (Script.next s).inside _ = _
  rw [hnext]
  rfl

theorem Kind.isBlank_symbol {k : Kind} {c : Char} (h : k.symbol? = some c) :
    Text.isBlank c = false := by
  cases k with
  | operator op => cases op <;> cases h <;> rfl
  | number => cases h
  | name => cases h
  | _ => cases h; rfl

theorem reads_symbol {k : Kind} {c : Char} (blank : IsBlank bl) (h : k.symbol? = some c) :
    Reads constants (bl ++ c :: left) [.mark k] left := by
  refine reads_lexeme blank (fun x hx => ?_) (.symbol h)
  injection hx with hx
  exact hx ▸ Kind.isBlank_symbol h

theorem Numeral.endsAt_of_delimits {n : Numeral} {z : List Char} (h : Delimits z) : n.EndsAt z := by
  refine ⟨fun c hc => ?_, fun _ _ => h.point, fun _ x hx hpre => ?_⟩
  · have hword := h.word c hc
    rw [Char.isAlphanum, Bool.or_eq_false_iff] at hword
    exact hword.2
  · obtain ⟨z', rfl⟩ := hpre
    have hword := h.word x.mark rfl
    rcases hx.mark with hm | hm <;> rw [hm] at hword <;> cases hword

theorem reads_number {n : Numeral} {z : List Char} (blank : IsBlank bl) (form : n.WellFormed)
    (h : Delimits z) : Reads constants (bl ++ n.text ++ z) [.number n.value] z := by
  rw [List.append_assoc]
  refine reads_lexeme blank (fun c hc => ?_)
    (.numeral form fun n' => n.longest_of_ends form (n.endsAt_of_delimits h))
  obtain ⟨d, z', digit, hb | hb⟩ := n.text_begins form z
  · rw [hb] at hc
    injection hc with hc
    subst hc
    refine Text.isBlank_eq_false_of_isAlphanum ?_
    rw [Char.isAlphanum, digit, Bool.or_true]
  · rw [hb] at hc
    injection hc with hc
    subst hc
    rfl

/-- A word is a lexeme, whatever its token. -/
theorem reads_word {x : String} {z : List Char} (blank : IsBlank bl) (identifier : IsIdentifier x)
    (h : Lexes constants (x.toList ++ z) (.ok t) z) : Reads constants (bl ++ x.toList ++ z) [t] z := by
  obtain ⟨c, w, hx, letter, -⟩ := identifier
  rw [List.append_assoc]
  refine reads_lexeme blank (fun y hy => ?_) h
  rw [hx] at hy
  injection hy with hy
  subst hy
  refine Text.isBlank_eq_false_of_isAlphanum ?_
  rw [Char.isAlphanum, letter, Bool.true_or]

theorem reads_constant {x : String} {z : List Char} {value : Float} (blank : IsBlank bl)
    (identifier : IsIdentifier x) (bound : constants.lookup x = some value) (h : Delimits z) :
    Reads constants (bl ++ x.toList ++ z) [.number value] z := by
  refine reads_word blank identifier ?_
  obtain ⟨c, w, hx, letter, hq, run⟩ := identifier
  rw [← String.ofList_toList (s := x), hx] at bound
  rw [hx]
  exact .constant letter hq run h.word bound

theorem reads_name {x : String} {z : List Char} (blank : IsBlank bl)
    (identifier : IsIdentifier x) (free : constants.lookup x = none) (h : Delimits z) :
    Reads constants (bl ++ x.toList ++ z) [.identifier x] z := by
  refine reads_word blank identifier ?_
  obtain ⟨c, w, hx, letter, hq, run⟩ := identifier
  have hname : x = String.ofList (c :: w) := by rw [← hx, String.ofList_toList]
  rw [hname] at free
  rw [hx, hname]
  exact .name letter hq run h.word free

theorem delimits_nil : Delimits [] := ⟨nofun, nofun⟩

theorem delimits_blank {b : Char} (blank : Text.isBlank b = true) (z : List Char) :
    Delimits (b :: z) := by
  refine ⟨fun x hx => ?_, fun hx => ?_⟩
  · injection hx with hx
    subst hx
    cases halnum : b.isAlphanum with
    | false => rfl
    | true =>
      rw [Text.isBlank_eq_false_of_isAlphanum halnum] at blank
      cases blank
  · injection hx with hx
    subst hx
    cases blank

theorem delimits_symbol {k : Kind} {c : Char} (blank : IsBlank bl) (h : k.symbol? = some c)
    (hq : k ≠ .quit) (z : List Char) : Delimits (bl ++ c :: z) := by
  cases bl with
  | nil =>
    refine ⟨fun x hx => ?_, fun hx => ?_⟩
    · injection hx with hx
      subst hx
      cases k with
      | operator op => cases op <;> cases h <;> rfl
      | quit => exact absurd rfl hq
      | number => cases h
      | name => cases h
      | _ => cases h; rfl
    · injection hx with hx
      subst hx
      exact Kind.symbol?_ne_of_beginsNumeral rfl k h
  | cons b bl => exact delimits_blank (blank b List.mem_cons_self) _

/-- What is left when a text has ended is `quit`. -/
theorem ahead_blank {s : Script} {bl : List Char} (blank : IsBlank bl) (hrest : s.rest = bl)
    (vars : Bindings) : ∃ s', (ofSupply s vars).ahead = .ok (.mark .quit) s' := by
  have hdrop : s.rest.dropWhile Text.isBlank = [] := by
    rw [hrest, ← List.append_nil bl]
    exact dropWhile_append_of_ends blank fun c hc => nomatch hc
  obtain ⟨reader, -, hnext⟩ := Script.next_of_nil hdrop
  exact ⟨_, hnext⟩

end Reads

/-! ## Renderings -/

/-- The texts of what is written. -/
inductive Written.Renders (constants : Bindings) : Written → List Char → Prop where
  | number {bl : List Char} {n : Numeral} (blank : IsBlank bl) (form : n.WellFormed) :
      Renders constants (.number n.value) (bl ++ n.text)
  | constant {bl : List Char} {x : String} {value : Float} (blank : IsBlank bl)
      (identifier : IsIdentifier x) (bound : constants.lookup x = some value) :
      Renders constants (.number value) (bl ++ x.toList)
  | name {bl : List Char} {x : String} (blank : IsBlank bl) (identifier : IsIdentifier x)
      (free : constants.lookup x = none) : Renders constants (.name x) (bl ++ x.toList)
  | negate {bl cs : List Char} {e : Written} (blank : IsBlank bl)
      (operand : Renders constants e cs) : Renders constants (.negate e) (bl ++ '-' :: cs)
  | binary {bl cs ds : List Char} {op : Operator} {l r : Written} (left : Renders constants l cs)
      (blank : IsBlank bl) (right : Renders constants r ds) :
      Renders constants (.binary op l r) (cs ++ (bl ++ op.symbol :: ds))
  | assign {bl bl' cs : List Char} {x : String} {e : Written} (blank : IsBlank bl)
      (identifier : IsIdentifier x) (free : constants.lookup x = none) (blank' : IsBlank bl')
      (value : Renders constants e cs) :
      Renders constants (.assign x e) (bl ++ x.toList ++ (bl' ++ '=' :: cs))
  | group {bl bl' cs : List Char} {e : Written} (blank : IsBlank bl)
      (inner : Renders constants e cs) (blank' : IsBlank bl') :
      Renders constants (.group e) (bl ++ '(' :: (cs ++ (bl' ++ [')'])))

/-- A rendering gives the tokens of what is written. -/
theorem Written.Renders.reads {constants : Bindings} {w : Written} {cs z : List Char}
    (h : w.Renders constants cs) (hz : Delimits z) : Reads constants (cs ++ z) w.tokens z := by
  induction h generalizing z with
  | number blank form => exact reads_number blank form hz
  | constant blank identifier bound => exact reads_constant blank identifier bound hz
  | name blank identifier free => exact reads_name blank identifier free hz
  | negate blank operand ih =>
    rw [List.append_assoc]
    exact (reads_symbol blank rfl).append (ih hz)
  | @binary bl cs ds op l r left blank right ihl ihr =>
    have hop : (Kind.operator op).symbol? = some op.symbol := rfl
    have h := ihl (delimits_symbol blank hop Kind.noConfusion (ds ++ z))
    rw [List.append_assoc, List.append_assoc]
    exact h.append ((reads_symbol blank hop).append (ihr hz))
  | assign blank identifier free blank' value ih =>
    have hassign : Kind.assign.symbol? = some '=' := rfl
    rw [List.append_assoc _ _ z, List.append_assoc _ _ z]
    exact (reads_name blank identifier free (delimits_symbol blank' hassign Kind.noConfusion _)).append
      ((reads_symbol blank' hassign).append (ih hz))
  | group blank inner blank' ih =>
    have hclosing : Kind.closing.symbol? = some ')' := rfl
    have h := ih (delimits_symbol blank' hclosing Kind.noConfusion z)
    rw [List.append_assoc, List.cons_append, List.append_assoc, List.append_assoc]
    exact (reads_symbol blank rfl).append (h.append (reads_symbol blank' hclosing))

end Reckoner
