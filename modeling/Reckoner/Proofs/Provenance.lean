/-
  Who sets a name.

  A `Recorder` is a text being read that notes each token it gives and the text from
  that token on. It gives what the text gives, so a run on it is the run on the text
  (`State.forget`), and its notes say what was read. `Recorder.Sets` is said of a
  name that was read with an assignment sign directly behind it.

  One call leaves what is `Since` the state before it: the notes stay, and a name
  that has another value now is one that they set. A `Desk` has any number of
  sessions over texts, with one scope for all of them, and is given any calls.

  Proved: `changed_of_desk`.
-/
import Reckoner.Proofs.Steady

namespace Reckoner

open State
open Outcome (Both)

/-! ## Recorders -/

/-- A token that was read, and the text from it on. -/
structure Note where
  text : List Char
  token : Token
  deriving DecidableEq

/-- A text being read, and what was read of it. -/
structure Recorder where
  code : List Char
  script : Script
  notes : List Note

namespace Recorder

def ofText (constants : Bindings) (code : List Char) : Recorder :=
  ⟨code, .ofText constants code, []⟩

/-- The next token, noted with the text behind the blanks. -/
def next (r : Recorder) : Outcome Recorder Token :=
  match r.script.next with
  | .ok t script =>
    .ok t { r with script, notes := ⟨r.script.rest.dropWhile Text.isBlank, t⟩ :: r.notes }
  | .fault f script => .fault f { r with script }

/-- What is dropped is not noted. -/
def skipPast (kind : Kind) (r : Recorder) : Nat × Recorder :=
  let (count, script) := r.script.skipPast kind
  (count, { r with script })

theorem next_ok {r r' : Recorder} {t : Token} (h : r.next = .ok t r') :
    r.script.next = .ok t r'.script ∧ r' = { r with
      script := r'.script, notes := ⟨r.script.rest.dropWhile Text.isBlank, t⟩ :: r.notes } := by
  unfold next at h
  cases hnext : r.script.next with
  | ok u script =>
    rw [hnext] at h
    injection h with ht hr
    subst ht hr
    exact ⟨rfl, rfl⟩
  | fault f script =>
    rw [hnext] at h
    cases h

theorem next_fault {r r' : Recorder} {f : Fault} (h : r.next = .fault f r') :
    r.script.next = .fault f r'.script ∧ r' = { r with script := r'.script } := by
  unfold next at h
  cases hnext : r.script.next with
  | ok u script =>
    rw [hnext] at h
    cases h
  | fault g script =>
    rw [hnext] at h
    injection h with hf hr
    subst hf hr
    exact ⟨rfl, rfl⟩

instance : Supply Recorder where
  next := next
  skipPast := skipPast
  size r := Supply.size r.script
  size_next_ok h := Supply.size_next_ok (next_ok h).1
  size_next_fault h := Supply.size_next_fault (next_fault h).1
  size_skipPast k r := Supply.size_skipPast k r.script

/-! ## What the notes say -/

/-- The name was read from the text, and the next token was an assignment sign. -/
structure Sets (r : Recorder) (name : String) : Prop where
  identifier : IsIdentifier name
  free : r.script.constants.lookup name = none
  read : ∃ before gap after, r.code = before ++ (name.toList ++ (gap ++ '=' :: after)) ∧ IsBlank gap ∧
    ⟨name.toList ++ (gap ++ '=' :: after), .identifier name⟩ ∈ r.notes ∧
    ⟨'=' :: after, .mark .assign⟩ ∈ r.notes

/-- The text and the constants are the same, and the notes are still there. -/
structure Extends (r r' : Recorder) : Prop where
  code : r'.code = r.code
  constants : r'.script.constants = r.script.constants
  notes : r.notes ⊆ r'.notes

theorem Extends.rfl {r : Recorder} : r.Extends r := ⟨Eq.refl _, Eq.refl _, fun _ h => h⟩

theorem Extends.trans {r r' r'' : Recorder} (h : r.Extends r') (h' : r'.Extends r'') : r.Extends r'' :=
  ⟨h'.code.trans h.code, h'.constants.trans h.constants, fun _ noted => h'.notes (h.notes noted)⟩

theorem Sets.of_extends {r r' : Recorder} {name : String} (h : r.Sets name) (later : r.Extends r') :
    r'.Sets name := by
  obtain ⟨before, gap, after, hcode, blank, named, signed⟩ := h.read
  exact ⟨h.identifier, later.constants ▸ h.free, before, gap, after, later.code.trans hcode, blank,
    later.notes named, later.notes signed⟩

theorem next_extends {a b : Recorder} {r : Except Fault Token} (h : a.next = .of r b) :
    a.Extends b := by
  cases r with
  | ok t =>
    obtain ⟨hnext, hr⟩ := next_ok h
    have hconstants := (Script.lexes_of_next (r := .ok t) hnext).2.1
    rw [hr]
    exact ⟨Eq.refl _, hconstants, List.subset_cons_self _ _⟩
  | error f =>
    obtain ⟨hnext, hr⟩ := next_fault h
    have hconstants := (Script.lexes_of_next (r := .error f) hnext).2.1
    rw [hr]
    exact ⟨Eq.refl _, hconstants, fun _ h => h⟩

/-- All notes stay as the recorder is read. -/
def extending (r : Recorder) : Invariant Recorder :=
  .ofNext (fun _ r' => r.Extends r')
    (fun _ _ t h hnext => h.trans (next_extends (r := .ok t) hnext))
    (fun _ _ f h hnext => h.trans (next_extends (r := .error f) hnext))

/-- The token is the last that was read: what is noted of a name begins with it, in
    front of what is left. -/
def Latest (r : Recorder) (t : Token) : Prop :=
  t.kind = .name → IsIdentifier t.name ∧ r.script.constants.lookup t.name = none ∧
    ⟨t.name.toList ++ r.script.rest, .identifier t.name⟩ ∈ r.notes ∧
    t.name.toList ++ r.script.rest <:+ r.code

/-- A token that was read is the latest. -/
theorem latest_of_next {r r' : Recorder} {t : Token} (h : r.next = .ok t r')
    (suffix : r.script.rest <:+ r.code) : r'.Latest t := by
  intro isName
  obtain ⟨hnext, hr⟩ := next_ok h
  obtain ⟨hlexes, hconstants, -⟩ := Script.lexes_of_next (r := .ok t) hnext
  obtain ⟨ht, htext, identifier, free⟩ := hlexes.eq_identifier isName
  have hsuffix := (List.dropWhile_suffix Text.isBlank).trans suffix
  rw [htext] at hsuffix
  refine ⟨identifier, hconstants ▸ free, ?_, hr ▸ hsuffix⟩
  rw [hr]
  dsimp only
  rw [htext, ← ht]
  exact List.mem_cons_self

end Recorder

/-- A sign that is read is a `=` of the text. -/
theorem Lexes.eq_assign {constants : Bindings} {u left : List Char} {t : Token}
    (h : Lexes constants u (.ok t) left) (isAssign : t.kind = .assign) :
    t = .mark .assign ∧ u = '=' :: left := by
  cases h with
  | @symbol k c left isSymbol =>
    have isAssign : k = .assign := isAssign
    subst isAssign
    injection isSymbol with hc
    exact ⟨rfl, by rw [hc]⟩
  | _ => cases isAssign

/-- A sign behind a name that was just read: the name is set. -/
theorem Recorder.sets_of_next {r r' : Recorder} {t sign : Token} (latest : r.Latest t)
    (isName : t.kind = .name) (h : r.next = .ok sign r') (isAssign : sign.kind = .assign) :
    r'.Sets t.name := by
  obtain ⟨hnext, hr⟩ := next_ok h
  obtain ⟨hlexes, hconstants, -⟩ := Script.lexes_of_next (r := .ok sign) hnext
  obtain ⟨rfl, htext⟩ := hlexes.eq_assign isAssign
  obtain ⟨identifier, free, noted, before, hcode⟩ := latest isName
  have hrest : r.script.rest = r.script.rest.takeWhile Text.isBlank ++ '=' :: r'.script.rest := by
    rw [← htext, List.takeWhile_append_dropWhile]
  refine ⟨identifier, hconstants ▸ free, before, r.script.rest.takeWhile Text.isBlank,
    r'.script.rest, ?_, fun c hc => List.mem_takeWhile_imp hc, ?_, ?_⟩
  · rw [hr, ← hrest]
    exact hcode.symm
  · rw [hr, ← hrest]
    exact List.mem_cons_of_mem _ noted
  · rw [hr]
    dsimp only
    rw [htext]
    exact List.mem_cons_self

/-! ## What a call leaves -/

/-- What a run on a recorder leads to from a state. -/
structure State.Since (start s : State Recorder) : Prop where
  later : start.supply.Extends s.supply
  suffix : s.supply.script.rest <:+ s.supply.code
  latest : ∀ t, s.slot = some t → s.supply.Latest t
  sets : ∀ name, s.vars.lookup name ≠ start.vars.lookup name → s.supply.Sets name
  bound : ∀ name, start.vars.lookup name ≠ none → s.vars.lookup name ≠ none

/-- The same run on the text alone. -/
def State.forget (s : State Recorder) : State Script := ⟨s.supply.script, s.slot, s.vars⟩

section Since

variable {start s : State Recorder}

/-- What a supply gives is noted. -/
theorem State.Since.next {supply supply' : Recorder} {vars : Bindings} {r : Except Fault Token}
    (h : start.Since ⟨supply, none, vars⟩) (hnext : supply.next = .of r supply') :
    start.Since ⟨supply', none, vars⟩ ∧ supply.script.next = .of r supply'.script ∧
      ∀ t, r = .ok t → supply'.Latest t := by
  have later := Recorder.next_extends hnext
  have hscript : supply.script.next = .of r supply'.script := by
    cases r with
    | ok t => exact (Recorder.next_ok hnext).1
    | error f => exact (Recorder.next_fault hnext).1
  have suffix := (Script.lexes_of_next hscript).2.2
  refine ⟨⟨h.later.trans later, ?_, (fun t ht => by cases ht), fun name hname => ?_, h.bound⟩, hscript,
    fun t ht => ?_⟩
  · rw [later.code]
    exact suffix.trans h.suffix
  · exact (h.sets name hname).of_extends later
  · subst ht
    exact Recorder.latest_of_next hnext h.suffix

/-- A recorder beside its text. -/
def shadow (start : State Recorder) : Lockstep Recorder Script where
  joined s u := u = s.forget ∧ start.Since s
  drawn t s u := u = s.forget ∧ start.Since s ∧ s.slot = none ∧ s.supply.Latest t
  failed _ s u := u = s.forget ∧ start.Since s
  named _ := True
  slot h := h.1 ▸ rfl
  token := by
    rintro ⟨supply, slot, vars⟩ u ⟨rfl, h⟩
    cases slot with
    | some t =>
      exact .ok ⟨rfl, ⟨h.later, h.suffix, (fun t ht => by cases ht), h.sets, h.bound⟩, rfl, h.latest t rfl⟩
    | none =>
      show Both _ _ ((Recorder.next supply).inside _) ((Script.next supply.script).inside _)
      cases hnext : supply.next with
      | ok t supply' =>
        obtain ⟨since, hscript, latest⟩ := h.next (r := .ok t) hnext
        rw [hscript]
        exact .ok ⟨rfl, since, rfl, latest t rfl⟩
      | fault f supply' =>
        obtain ⟨since, hscript, -⟩ := h.next (r := .error f) hnext
        rw [hscript]
        exact .fault ⟨rfl, since⟩
  hold := by
    rintro t ⟨supply, slot, vars⟩ u ⟨rfl, h, rfl, latest⟩
    refine .ok ⟨rfl, h.later, h.suffix, fun t' ht => ?_, h.sets, h.bound⟩
    injection ht with ht
    exact ht ▸ latest
  joined_of_drawn h _ _ := ⟨h.1, h.2.1⟩
  named_of_drawn _ _ := trivial
  failed_of_joined h _ := h
  lookup := by
    rintro name s u ⟨rfl, h⟩ -
    exact State.both_lookup rfl (fun _ => ⟨rfl, h⟩) ⟨rfl, h⟩
  assign := by
    rintro limit t sign value s s₁ s₂ u u₂ ⟨-, -, slot, latest⟩ isName htoken isAssign hsum ⟨rfl, h⟩
    -- The name is set behind its sign, and the notes stay while the sum is read.
    have next : s.supply.next = .ok sign s₁.supply := by
      have ahead := (token_eq_ok htoken).1
      rw [State.ahead, slot] at ahead
      exact ahead
    have sets : s₁.supply.Sets t.name := Recorder.sets_of_next latest isName next isAssign
    have kept := (((Recorder.extending s₁.supply).lockstep limit.frail).follows_rules limit
      (Invariant.loses _)).1 s₁ s₁ ⟨rfl, .rfl⟩
    rw [hsum] at kept
    cases kept with
    | ok kept =>
      refine ⟨rfl, h.later, h.suffix, h.latest, fun name hname => ?_, fun name hname => ?_⟩
      · change (s₂.vars.assign t.name value).lookup name ≠ _ at hname
        rw [Bindings.lookup_assign] at hname
        by_cases same : name = t.name
        · exact same ▸ sets.of_extends kept.2
        · rw [if_neg same] at hname
          exact h.sets name hname
      · change (s₂.vars.assign t.name value).lookup name ≠ none
        rw [Bindings.lookup_assign]
        split
        · exact Option.some_ne_none value
        · exact h.bound name hname

theorem State.giveUp_forget (kind : Kind) (s : State Recorder) :
    s.forget.giveUp kind = ((s.giveUp kind).1, (s.giveUp kind).2.forget) := by
  unfold giveUp
  show (if s.slot.any _ then _ else _) = _
  split <;> rfl

theorem State.Since.giveUp (h : start.Since s) (kind : Kind) : start.Since (s.giveUp kind).2 := by
  unfold State.giveUp
  split
  · exact ⟨h.later, h.suffix, (fun t ht => by cases ht), h.sets, h.bound⟩
  · have suffix := suffix_skipPast kind s.supply.script
    have same : s.supply.Extends (s.supply.skipPast kind).2 := ⟨rfl, rfl, fun _ noted => noted⟩
    exact ⟨h.later.trans same, suffix.trans h.suffix, (fun t ht => by cases ht),
      fun name hname => (h.sets name hname).of_extends same, h.bound⟩

theorem shadow_steady (start : State Recorder) : (shadow start).Steady where
  of_drawn h := ⟨h.1, h.2.1⟩
  of_failed h := h
  giveUp := by
    rintro s u ⟨rfl, h⟩ kind
    rw [giveUp_forget]
    exact ⟨rfl, rfl, h.giveUp kind⟩

end Since

theorem State.Since.refl {s : State Recorder} (suffix : s.supply.script.rest <:+ s.supply.code)
    (latest : ∀ t, s.slot = some t → s.supply.Latest t) : s.Since s :=
  ⟨.rfl, suffix, latest, fun _ changed => absurd rfl changed, fun _ bound => bound⟩

/-! ## Desks -/

/-- A session between two calls: what is read, and the token that was put back. -/
structure Session (σ : Type) where
  supply : σ
  slot : Option Token

/-- Sessions over texts, with one scope for all of them. -/
structure Desk (σ : Type) where
  scope : Scope
  sessions : List (Session σ)

/-- What is asked at a desk. -/
inductive Command where
  /-- Opens a session over a text. -/
  | enter (code : String)
  /-- Evaluates a text, in a session of its own. -/
  | evaluate (limit : Limit) (code : String)
  /-- Calls the session at a place. -/
  | call (place : Nat) (request : Request)

/-- The text of a session that is opened. -/
def Command.code? : Command → Option (List Char)
  | enter code => some code.toList
  | evaluate _ code => some code.toList
  | call _ _ => none

def Session.state {σ : Type} (session : Session σ) (vars : Bindings) : State σ :=
  ⟨session.supply, session.slot, vars⟩

namespace Desk

section Commands

variable {σ : Type} [Supply σ] (make : Bindings → List Char → σ)

def enter (d : Desk σ) (code : String) : Desk σ :=
  { d with sessions := d.sessions ++ [⟨make d.scope.constants code.toList, none⟩] }

/-- Takes a step in the session at a place, with the variables there are. -/
def call (d : Desk σ) (place : Nat) (step : State σ → State σ) : Desk σ :=
  match d.sessions[place]? with
  | none => d
  | some session =>
    let s := step (session.state d.scope.vars)
    ⟨{ d.scope with vars := s.vars }, d.sessions.set place ⟨s.supply, s.slot⟩⟩

def act (d : Desk σ) : Command → Desk σ
  | .enter code => d.enter make code
  | .evaluate limit code =>
    (d.enter make code).call d.sessions.length fun s => (s.evaluate limit).state
  | .call place request => d.call place fun s => (request.answer s).state

/-- All that is asked, one after the other. -/
def run (d : Desk σ) (commands : List Command) : Desk σ := commands.foldl (act make) d

end Commands

/-- The same desk without the notes. -/
def forget (d : Desk Recorder) : Desk Script :=
  ⟨d.scope, d.sessions.map fun session => ⟨session.supply.script, session.slot⟩⟩

/-- The texts of the sessions. -/
def codes (d : Desk Recorder) : List (List Char) := d.sessions.map fun session => session.supply.code

/-- What is done at a desk from a scope on. -/
structure Since (start : Scope) (d : Desk Recorder) : Prop where
  constants : d.scope.constants = start.constants
  sessions : ∀ session ∈ d.sessions, session.supply.script.constants = start.constants ∧
    session.supply.script.rest <:+ session.supply.code ∧
    ∀ t, session.slot = some t → session.supply.Latest t
  sets : ∀ name, d.scope.vars.lookup name ≠ start.vars.lookup name →
    ∃ session ∈ d.sessions, session.supply.Sets name
  bound : ∀ name, start.vars.lookup name ≠ none → d.scope.vars.lookup name ≠ none

section Since

variable {start : Scope} {d : Desk Recorder}

theorem forget_enter (code : String) :
    (d.enter Recorder.ofText code).forget = d.forget.enter Script.ofText code := by
  rw [enter, forget, List.map_append]
  rfl

theorem Since.enter (h : d.Since start) (code : String) : (d.enter Recorder.ofText code).Since start where
  constants := h.constants
  sessions session hmem := by
    rcases List.mem_append.mp hmem with old | new
    · exact h.sessions session old
    · rw [List.mem_singleton.mp new]
      exact ⟨h.constants, List.suffix_refl _, nofun⟩
  sets name changed := by
    obtain ⟨session, hmem, sets⟩ := h.sets name changed
    exact ⟨session, List.mem_append_left _ hmem, sets⟩
  bound := h.bound

/-- Steps that keep a recorder beside its text. -/
def Shadowed (step : State Recorder → State Recorder) (step' : State Script → State Script) : Prop :=
  ∀ start s u, (shadow start).joined s u → (shadow start).joined (step s) (step' u)

theorem Since.call (h : d.Since start) {step : State Recorder → State Recorder}
    {step' : State Script → State Script} (shadowed : Shadowed step step') (place : Nat) :
    (d.call place step).forget = d.forget.call place step' ∧ (d.call place step).codes = d.codes ∧
      (d.call place step).Since start := by
  unfold Desk.call
  have hforget : d.forget.sessions[place]? =
      d.sessions[place]?.map fun session => ⟨session.supply.script, session.slot⟩ := List.getElem?_map
  rw [hforget]
  cases hplace : d.sessions[place]? with
  | none => exact ⟨rfl, rfl, h⟩
  | some session =>
    obtain ⟨hconstants, suffix, latest⟩ := h.sessions session (List.mem_of_getElem? hplace)
    let s := session.state d.scope.vars
    obtain ⟨hstep, since⟩ := shadowed s s s.forget ⟨rfl, .refl suffix latest⟩
    have here : (d.sessions.set place ⟨(step s).supply, (step s).slot⟩)[place]? =
        some ⟨(step s).supply, (step s).slot⟩ :=
      List.getElem?_set_self (List.getElem?_eq_some_iff.mp hplace).1
    dsimp only [Option.map_some]
    refine ⟨?_, ?_, h.constants, fun session' hmem => ?_, fun name changed => ?_, fun name bound => ?_⟩
    · change _ = (⟨{ d.scope with vars := (step' s.forget).vars },
        d.forget.sessions.set place ⟨(step' s.forget).supply, (step' s.forget).slot⟩⟩ : Desk Script)
      rw [hstep, forget, List.map_set]
      rfl
    · have code : d.codes[place]? = some (step s).supply.code := by
        rw [codes, List.getElem?_map, hplace, since.later.code]
        rfl
      obtain ⟨inside, code⟩ := List.getElem?_eq_some_iff.mp code
      rw [codes, List.map_set, ← code]
      exact List.set_getElem_self inside
    · rcases List.mem_or_eq_of_mem_set hmem with old | rfl
      · exact h.sessions session' old
      · exact ⟨since.later.constants.trans hconstants, since.suffix, since.latest⟩
    · by_cases now : (step s).vars.lookup name ≠ s.vars.lookup name
      · exact ⟨_, List.mem_of_getElem? here, since.sets name now⟩
      · -- It was set before, and what says so is in the same place.
        have before : d.scope.vars.lookup name ≠ start.vars.lookup name :=
          (not_not.mp now) ▸ changed
        obtain ⟨old, hmem, sets⟩ := h.sets name before
        obtain ⟨i, hi⟩ := List.mem_iff_getElem?.mp hmem
        by_cases same : i = place
        · subst same
          obtain rfl := Option.some.inj (hi.symm.trans hplace)
          exact ⟨_, List.mem_of_getElem? here, sets.of_extends since.later⟩
        · refine ⟨old, List.mem_of_getElem? (i := i) ?_, sets⟩
          rw [List.getElem?_set_ne (Ne.symm same)]
          exact hi
    · exact since.bound name (h.bound name bound)

theorem shadowed_evaluate (limit : Limit) :
    Shadowed (fun s => (s.evaluate limit).state) (fun s => (s.evaluate limit).state) :=
  fun start _ _ joined => ((shadow_steady start).evaluate limit joined).2.2

theorem shadowed_answer (r : Request) :
    Shadowed (fun s => (r.answer s).state) (fun s => (r.answer s).state) := by
  intro start s u joined
  have both := (shadow_steady start).answer joined r
  dsimp only
  generalize r.answer s = o, r.answer u = o' at both
  cases both with
  | ok h => exact h
  | fault h => exact h

theorem Since.act (h : d.Since start) (command : Command) :
    (d.act Recorder.ofText command).forget = d.forget.act Script.ofText command ∧
      (d.act Recorder.ofText command).codes = d.codes ++ command.code?.toList ∧
      (d.act Recorder.ofText command).Since start := by
  have codes_enter (code : String) : (d.enter Recorder.ofText code).codes = d.codes ++ [code.toList] :=
    List.map_append
  cases command with
  | enter code => exact ⟨forget_enter code, codes_enter code, h.enter code⟩
  | evaluate limit code =>
    obtain ⟨same, codes, since⟩ := (h.enter code).call (shadowed_evaluate limit) d.sessions.length
    refine ⟨same.trans ?_, codes.trans (codes_enter code), since⟩
    rw [forget_enter, Desk.act, forget, List.length_map]
  | call place request =>
    obtain ⟨same, codes, since⟩ := h.call (shadowed_answer request) place
    exact ⟨same, codes.trans (List.append_nil _).symm, since⟩

theorem Since.run (h : d.Since start) (commands : List Command) :
    (d.run Recorder.ofText commands).forget = d.forget.run Script.ofText commands ∧
      (d.run Recorder.ofText commands).codes = d.codes ++ commands.filterMap Command.code? ∧
      (d.run Recorder.ofText commands).Since start := by
  induction commands generalizing d with
  | nil => exact ⟨rfl, (List.append_nil _).symm, h⟩
  | cons command commands ih =>
    obtain ⟨same, codes, since⟩ := h.act command
    obtain ⟨later, allCodes, since⟩ := ih since
    refine ⟨later.trans (congrArg (run Script.ofText · commands) same), allCodes.trans ?_, since⟩
    rw [codes, List.append_assoc]
    cases hcode : command.code? with
    | none => rw [List.filterMap_cons_none hcode]; rfl
    | some code => rw [List.filterMap_cons_some hcode]; rfl

end Since

end Desk

/-- **Only an assignment sets a name.** Whatever is asked at a desk, of whatever texts and
    with whatever faults, the constants stay as they are, no variable is lost, and a name
    that is new or has another value is an identifier that no constant has and that was
    read in one of the texts with a `=` directly behind it. So what was no constant's name
    among the variables is none afterwards. -/
theorem changed_of_desk (scope : Scope) (commands : List Command) :
    let d := Desk.run Script.ofText ⟨scope, []⟩ commands
    let noted := Desk.run Recorder.ofText ⟨scope, []⟩ commands
    noted.forget = d ∧ noted.codes = commands.filterMap Command.code? ∧
      d.scope.constants = scope.constants ∧
      (∀ session ∈ d.sessions, session.supply.constants = scope.constants) ∧
      (∀ name, scope.vars.lookup name ≠ none → d.scope.vars.lookup name ≠ none) ∧
      (∀ name, d.scope.vars.lookup name ≠ scope.vars.lookup name →
        IsIdentifier name ∧ scope.constants.lookup name = none ∧
          ∃ session ∈ noted.sessions, session.supply.Sets name) ∧
      ((∀ name, scope.constants.lookup name = none ∨ scope.vars.lookup name = none) →
        ∀ name, d.scope.constants.lookup name = none ∨ d.scope.vars.lookup name = none) := by
  intro d noted
  have start : (⟨scope, []⟩ : Desk Recorder).Since scope :=
    ⟨rfl, (fun _ hmem => nomatch hmem), fun _ changed => absurd rfl changed, fun _ bound => bound⟩
  obtain ⟨same, codes, since⟩ := start.run commands
  have same : noted.forget = d := same
  have hscope : d.scope = noted.scope := congrArg Desk.scope same.symm
  have constants : d.scope.constants = scope.constants := hscope ▸ since.constants
  have changed (name : String) (hname : d.scope.vars.lookup name ≠ scope.vars.lookup name) :
      IsIdentifier name ∧ scope.constants.lookup name = none ∧
        ∃ session ∈ noted.sessions, session.supply.Sets name := by
    obtain ⟨session, hmem, sets⟩ := since.sets name (hscope ▸ hname)
    exact ⟨sets.identifier, (since.sessions session hmem).1 ▸ sets.free, session, hmem, sets⟩
  refine ⟨same, codes, constants, fun session hmem => ?_, fun name bound => hscope ▸ since.bound name bound,
    changed, fun apart name => ?_⟩
  · rw [← same] at hmem
    obtain ⟨recorded, hrecorded, rfl⟩ := List.mem_map.mp hmem
    exact (since.sessions recorded hrecorded).1
  · rw [constants]
    by_cases hname : d.scope.vars.lookup name = scope.vars.lookup name
    · exact hname ▸ apart name
    · exact .inl (changed name hname).2.1

end Reckoner
