/-
  What a text does not mention is irrelevant to it.

  A name is `Mentioned` if it stands somewhere in the text and no constant has it.
  Of every name that is read this is so. Two runs over the text with variables that
  agree on the names it mentions look up the same values, and set the same names to
  the same values; all others they do not touch (`Sealed`). That is a steady lockstep.

  Proved: `converse_of_agree`, for a session and for an evaluation.
-/
import Reckoner.Proofs.Composition
import Reckoner.Proofs.Steady

namespace Reckoner

open State
open Outcome (Both)

/-- The name stands somewhere in the text, and is no constant's. -/
def Mentioned (constants : Bindings) (text : List Char) (name : String) : Prop :=
  name.toList <:+: text ∧ constants.lookup name = none

/-- Two runs from different variables: what they share is the same on both sides, and
    each has left all else as it was. -/
structure Sealed (shared : String → Prop) (before before' vars vars' : Bindings) : Prop where
  agree : ∀ name, shared name → vars.lookup name = vars'.lookup name
  left : ∀ name, ¬ shared name → vars.lookup name = before.lookup name
  right : ∀ name, ¬ shared name → vars'.lookup name = before'.lookup name

theorem Sealed.assign {shared : String → Prop} {before before' vars vars' : Bindings}
    (h : Sealed shared before before' vars vars') {name : String} (hname : shared name) (value : Float) :
    Sealed shared before before' (vars.assign name value) (vars'.assign name value) := by
  refine ⟨fun key hkey => ?_, fun key hkey => ?_, fun key hkey => ?_⟩
  · rw [Bindings.lookup_assign, Bindings.lookup_assign, h.agree key hkey]
  all_goals
    have other : key ≠ name := fun same => hkey (same ▸ hname)
    rw [Bindings.lookup_assign, if_neg other]
  · exact h.left key hkey
  · exact h.right key hkey

/-- What a text begins with depends on the values of constants alone. -/
theorem Lexes.congr {constants constants' : Bindings} {u left : List Char}
    {result : Except Fault Token} (h : Lexes constants u result left)
    (same : ∀ name, constants.lookup name = constants'.lookup name) :
    Lexes constants' u result left := by
  cases h with
  | nothing => exact .nothing
  | symbol isSymbol => exact .symbol isSymbol
  | numeral form longest => exact .numeral form longest
  | point noDigit => exact .point noDigit
  | constant letter notSymbol run longest bound =>
    exact .constant letter notSymbol run longest ((same _).symm.trans bound)
  | name letter notSymbol run longest free =>
    exact .name letter notSymbol run longest ((same _).symm.trans free)
  | other notSymbol notNumeral notLetter => exact .other notSymbol notNumeral notLetter

/-! ## Two runs over a text -/

section Runs

variable (a b : Scope) (text : List Char)

/-- Two states of runs over the text, from two scopes. -/
structure Abreast (s u : State Script) : Prop where
  slot : s.slot = u.slot
  rest : s.supply.rest = u.supply.rest
  left : s.supply.constants = a.constants
  right : u.supply.constants = b.constants
  suffix : s.supply.rest <:+ text
  held : ∀ t, s.slot = some t → t.kind = .name → Mentioned a.constants text t.name
  vars : Sealed (Mentioned a.constants text) a.vars b.vars s.vars u.vars

variable {a b : Scope} {text : List Char} {s u : State Script}
  (same : ∀ name, a.constants.lookup name = b.constants.lookup name)

/-- A name that is read from the text is mentioned in it. -/
theorem mentioned_of_lexes {constants : Bindings} {rest left : List Char} {t : Token}
    (lexeme : Lexes constants (rest.dropWhile Text.isBlank) (.ok t) left) (suffix : rest <:+ text)
    (isName : t.kind = .name) : Mentioned constants text t.name := by
  obtain ⟨-, htext, -, free⟩ := lexeme.eq_identifier isName
  have inside : t.name.toList <:+: rest.dropWhile Text.isBlank :=
    htext ▸ (List.prefix_append _ _).isInfix
  exact ⟨inside.trans ((List.dropWhile_suffix _).trans suffix).isInfix, free⟩

include same

theorem Abreast.token (h : Abreast a b text s u) :
    Both (fun t s u => Abreast a b text s u ∧ s.slot = none ∧
        (t.kind = .name → Mentioned a.constants text t.name))
      (fun _ => Abreast a b text) s.token u.token := by
  obtain ⟨supply, slot, vars⟩ := s
  obtain ⟨supply', slot', vars'⟩ := u
  obtain ⟨rfl, hrest, hleft, hright, suffix, held, hvars⟩ := h
  cases slot with
  | some t =>
    exact .ok ⟨⟨rfl, hrest, hleft, hright, suffix, (fun t ht => by cases ht), hvars⟩, rfl, held t rfl⟩
  | none =>
    obtain ⟨result, rest, hlexes⟩ :=
      lexes_exists supply.constants (supply.rest.dropWhile Text.isBlank)
    -- Only the values of constants decide what a word is.
    have hlexes' : Lexes supply'.constants (supply'.rest.dropWhile Text.isBlank) result rest := by
      rw [← hrest]
      refine hlexes.congr ?_
      rw [hleft, hright]
      exact same
    have hsuffix : rest <:+ text := hlexes.suffix.trans suffix
    -- Both sides read the same, and are abreast behind it.
    have both : Both
        (fun t a' b' => Abreast a b text ⟨a', none, vars⟩ ⟨b', none, vars'⟩ ∧
          (t.kind = .name → Mentioned a.constants text t.name))
        (fun _ a' b' => Abreast a b text ⟨a', none, vars⟩ ⟨b', none, vars'⟩)
        supply.next supply'.next := by
      have abreast (a' b' : Script) (hc : a'.constants = supply.constants)
          (hc' : b'.constants = supply'.constants) (hl : a'.rest = rest) (hl' : b'.rest = rest) :
          Abreast a b text ⟨a', none, vars⟩ ⟨b', none, vars'⟩ :=
        ⟨rfl, hl.trans hl'.symm, hc.trans hleft, hc'.trans hright, hl ▸ hsuffix,
          (fun t ht => by cases ht), hvars⟩
      refine both_next hlexes hlexes' (fun t a' b' ht hc hc' hl hl' => ?_)
        fun f a' b' _ hc hc' hl hl' => abreast a' b' hc hc' hl hl'
      subst ht
      exact ⟨abreast a' b' hc hc' hl hl', hleft ▸ mentioned_of_lexes hlexes suffix⟩
    show Both _ _ ((Script.next supply).inside _) ((Script.next supply').inside _)
    generalize supply.next = o, supply'.next = o' at both
    cases both with
    | ok h => exact .ok ⟨h.1, rfl, h.2⟩
    | fault h => exact .fault h

variable (text)

/-- Two runs over the text from scopes with the same constants. -/
def abreast : Lockstep Script Script where
  joined := Abreast a b text
  drawn t s u := Abreast a b text s u ∧ s.slot = none ∧
    (t.kind = .name → Mentioned a.constants text t.name)
  failed _ := Abreast a b text
  named := Mentioned a.constants text
  slot h := h.slot
  token h := h.token same
  hold := by
    rintro t ⟨supply, slot, vars⟩ ⟨supply', slot', vars'⟩ ⟨h, rfl, mentioned⟩
    obtain rfl : slot' = none := h.slot.symm
    refine .ok ⟨rfl, h.rest, h.left, h.right, h.suffix, fun t' ht => ?_, h.vars⟩
    injection ht with ht
    exact ht ▸ mentioned
  joined_of_drawn h _ _ := h.1
  named_of_drawn h isName := h.2.2 isName
  failed_of_joined h _ := h
  lookup h mentioned := State.both_lookup (h.vars.agree _ mentioned) (fun _ => h) h
  assign drawn isName _ _ _ h :=
    ⟨h.slot, h.rest, h.left, h.right, h.suffix, h.held, h.vars.assign (drawn.2.2 isName) _⟩

theorem abreast_steady : (abreast text same).Steady where
  of_drawn h := h.1
  of_failed h := h
  giveUp := by
    intro s u h kind
    by_cases held : s.slot.any fun (t : Token) => t.kind = kind
    · rw [giveUp_held held, giveUp_held (h.slot ▸ held)]
      exact ⟨rfl, rfl, h.rest, h.left, h.right, h.suffix, (fun t ht => by cases ht), h.vars⟩
    · have count : (s.supply.skipPast kind).1 = (u.supply.skipPast kind).1 := by
        rw [skipPast_fst, skipPast_fst, h.rest]
      have rest : (s.supply.skipPast kind).2.rest = (u.supply.skipPast kind).2.rest := by
        rw [rest_skipPast, rest_skipPast, h.rest]
      rw [giveUp_dropped held, giveUp_dropped (h.slot ▸ held)]
      exact ⟨congrArg some count, rfl, rest, h.left, h.right,
        (suffix_skipPast kind s.supply).trans h.suffix, (fun t ht => by cases ht), h.vars⟩

end Runs

/-- **What a text does not mention is irrelevant to it.** From two scopes with the same
    constants, and with variables that agree on every name that stands in the text and is
    no constant's, a session shows the same and ends alike, and an evaluation has the same
    values and the same fault. The variables agree on those names afterwards, and on
    either side all others are as they were. -/
theorem converse_of_agree (limit : Limit) (a b : Scope) (code : String)
    (constants : ∀ name, a.constants.lookup name = b.constants.lookup name)
    (vars : ∀ name, Mentioned a.constants code.toList name →
      a.vars.lookup name = b.vars.lookup name) :
    let c := (a.start code).converse limit
    let c' := (b.start code).converse limit
    let e := (a.start code).evaluate limit
    let e' := (b.start code).evaluate limit
    (c.events = c'.events ∧ c.fatal = c'.fatal) ∧ (e.results = e'.results ∧ e.fault = e'.fault) ∧
      Sealed (Mentioned a.constants code.toList) a.vars b.vars c.state.vars c'.state.vars ∧
      Sealed (Mentioned a.constants code.toList) a.vars b.vars e.state.vars e'.state.vars := by
  intro c c' e e'
  have joined : Abreast a b code.toList (a.start code) (b.start code) :=
    ⟨rfl, rfl, rfl, rfl, List.suffix_refl _, nofun, vars, fun _ _ => rfl, fun _ _ => rfl⟩
  have steady := abreast_steady code.toList constants
  obtain ⟨events, fatal, conversed⟩ := steady.converse limit joined
  obtain ⟨results, fault, evaluated⟩ := steady.evaluate limit joined
  exact ⟨⟨events, fatal⟩, ⟨results, fault⟩, conversed.vars, evaluated.vars⟩

/-- A name that does not stand in the text, and a variable that a constant hides. -/
theorem converse_beside_strangers :
    let a : Scope := ⟨.builtin, .ofList [("x", 2)]⟩
    let b : Scope := ⟨.builtin, .ofList [("x", 2), ("y", 5), ("pi", 1)]⟩
    let code := "x = x + pi; z"
    (∀ name, a.constants.lookup name = b.constants.lookup name) ∧
      (∀ name, Mentioned a.constants code.toList name → a.vars.lookup name = b.vars.lookup name) ∧
      (a.converse code).events = (b.converse code).events ∧
      (b.converse code).state.vars.lookup "y" = some 5 ∧
      (b.converse code).state.vars.lookup "pi" = some 1 := by
  intro a b code
  have absent : ¬ Mentioned a.constants code.toList "y" := fun h => absurd h.1 (by decide +kernel)
  have hidden : ¬ Mentioned a.constants code.toList "pi" := fun h => absurd h.2 (by decide +kernel)
  have same (name : String) : a.constants.lookup name = b.constants.lookup name := rfl
  have vars (name : String) (h : Mentioned a.constants code.toList name) :
      a.vars.lookup name = b.vars.lookup name := by
    have hb : b.vars = (a.vars.assign "y" 5).assign "pi" 1 := rfl
    rw [hb, Bindings.lookup_assign, Bindings.lookup_assign,
      if_neg fun (isPi : name = "pi") => hidden (isPi ▸ h),
      if_neg fun (isY : name = "y") => absent (isY ▸ h)]
  obtain ⟨⟨events, -⟩, -, conversed, -⟩ := converse_of_agree nestingLimit a b code same vars
  refine ⟨same, vars, events, ?_, ?_⟩
  · exact (conversed.right "y" absent).trans (by decide +kernel)
  · exact (conversed.right "pi" hidden).trans (by decide +kernel)

end Reckoner
