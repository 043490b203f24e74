/-
  What was not read of a text has no effect.

  A step is `Local` if it only goes onward in the text (`Reader.Past`) and depends on no
  more of it than it took: where a part of the text is still ahead behind it, that
  part may be any other and the step does the same. The part may not be empty, for
  at the end of a text a step knows that it is the end.

  Both are kept when steps follow each other, so they are said of what reads single
  characters and carried up: to numerals and words, to tokens, to the rules and
  statements along their loops, and to turns.

  Proved:
  * `turns_of_take_eq`: the turns of a session depend on no more of the text than they
    took.
  * `Local.extend`: a step over the lines that are there is final, unless it came to
    their end.
-/
import Reckoner.Main
import Reckoner.Proofs.Turns

namespace Reckoner

open State

/-! ## Steps that read -/

/-- The reader is another one further on in the text. -/
def Reader.Past (r r' : Reader) : Prop :=
  ∃ read, r.ahead = read ++ r'.ahead ∧ r'.taken = r.taken + read.length

theorem Reader.Past.of_eq {r r' : Reader} (ahead : r'.ahead = r.ahead)
    (taken : r'.taken = r.taken) : r.Past r' := ⟨[], ahead.symm, taken⟩

theorem Reader.Past.trans {r r' r'' : Reader} (h : r.Past r') (h' : r'.Past r'') : r.Past r'' := by
  obtain ⟨read, ahead, taken⟩ := h
  obtain ⟨read', ahead', taken'⟩ := h'
  refine ⟨read ++ read', ?_, ?_⟩
  · rw [ahead, ahead', List.append_assoc]
  · rw [taken', taken, List.length_append, Nat.add_assoc]

/-- What has a text that it reads. -/
class TextReader (σ : Type) where
  reader : σ → Reader
  /-- The same with another text ahead. -/
  onto : List Char → σ → σ

open TextReader

instance : TextReader Reader := ⟨id, fun text r => { r with ahead := text }⟩

instance : TextReader Script :=
  ⟨Script.reader, fun text s => { s with reader := onto text s.reader }⟩

instance : TextReader (State Script) :=
  ⟨fun s => s.supply.reader, fun text s => { s with supply := onto text s.supply }⟩

/-- Goes on with a value and with a fault. -/
def Outcome.either {σ τ α β : Type} (o : Outcome σ α) (k : α → σ → Outcome τ β)
    (l : Fault → σ → Outcome τ β) : Outcome τ β :=
  match o with
  | .ok a s => k a s
  | .fault f s => l f s

/-- A step that never fails. -/
def Outcome.plain {σ α : Type} (p : α × σ) : Outcome σ α := .ok p.1 p.2

/-- From this state the step goes onward and depends on nothing that it leaves ahead. -/
structure LocalAt {σ α : Type} [TextReader σ] (step : σ → Outcome σ α) (s : σ) : Prop where
  past : (reader s).Past (reader (step s).state)
  same {x y a b : List Char} : a ≠ [] → (reader s).ahead = x ++ a →
    (reader (step s).state).ahead = y ++ a →
    step (onto (x ++ b) s) = (step s).inside (onto (y ++ b))

def Local {σ α : Type} [TextReader σ] (step : σ → Outcome σ α) : Prop := ∀ s, LocalAt step s

namespace LocalAt

variable {σ α β : Type} [TextReader σ] {step : σ → Outcome σ α} {s : σ}

/-- A step that takes nothing and does the same whatever is ahead. -/
theorem of_still (ahead : (reader (step s).state).ahead = (reader s).ahead)
    (taken : (reader (step s).state).taken = (reader s).taken)
    (commutes : ∀ text, step (onto text s) = (step s).inside (onto text)) : LocalAt step s where
  past := .of_eq ahead taken
  same {x y a b} _ hx hy := by
    obtain rfl : x = y := List.append_cancel_right (hx.symm.trans (ahead.symm.trans hy))
    exact commutes _

/-- A step that is another one here and on every other text. -/
theorem congr {step' : σ → Outcome σ α} (h : LocalAt step' s) (here : step s = step' s)
    (there : ∀ text, step (onto text s) = step' (onto text s)) : LocalAt step s where
  past := here ▸ h.past
  same nonempty hx hy := by
    rw [here] at hy ⊢
    rw [there]
    exact h.same nonempty hx hy

theorem ok (a : α) (s : σ) : LocalAt (fun s => .ok a s) s := of_still rfl rfl fun _ => rfl

theorem fault (f : Fault) (s : σ) : LocalAt (fun s => (.fault f s : Outcome σ α)) s :=
  of_still rfl rfl fun _ => rfl

/-- Steps one after the other. -/
theorem either {k : α → σ → Outcome σ β} {l : Fault → σ → Outcome σ β} (h : LocalAt step s)
    (hk : ∀ a s', step s = .ok a s' → LocalAt (k a) s')
    (hl : ∀ f s', step s = .fault f s' → LocalAt (l f) s') :
    LocalAt (fun s => (step s).either k l) s := by
  -- The second step, whatever text the first was taken on.
  obtain ⟨second, itself, wrapped, hsecond⟩ : ∃ second : σ → Outcome σ β,
      (step s).either k l = second (step s).state ∧
        (∀ wrap : σ → σ, ((step s).inside wrap).either k l = second (wrap (step s).state)) ∧
        LocalAt second (step s).state := by
    cases hstep : step s with
    | ok a s' => exact ⟨k a, rfl, fun _ => rfl, hk a s' hstep⟩
    | fault f s' => exact ⟨l f, rfl, fun _ => rfl, hl f s' hstep⟩
  refine ⟨?_, fun nonempty hx hy => ?_⟩
  · rw [itself]
    exact h.past.trans hsecond.past
  · rw [itself] at hy ⊢
    -- What is ahead behind both is ahead behind the first.
    obtain ⟨read, hread, -⟩ := hsecond.past
    rw [hy, ← List.append_assoc] at hread
    rw [h.same nonempty hx hread, wrapped]
    exact hsecond.same nonempty hread hy

theorem andThen {k : α → σ → Outcome σ β} (h : LocalAt step s)
    (hk : ∀ a s', step s = .ok a s' → LocalAt (k a) s') :
    LocalAt (fun s => (step s).andThen k) s := h.either hk fun f s' _ => .fault f s'

theorem ite {c : Prop} [Decidable c] {m n : σ → Outcome σ α} (hm : c → LocalAt m s)
    (hn : ¬ c → LocalAt n s) : LocalAt (fun s => if c then m s else n s) s := by
  by_cases h : c
  · simp only [if_pos h]
    exact hm h
  · simp only [if_neg h]
    exact hn h

end LocalAt

/-! ## Readers -/

namespace Reader

theorem local_read : Local fun r : Reader => .plain r.read := by
  rintro ⟨pushed, ahead, taken⟩
  cases pushed with
  | cons c pushed => exact .of_still rfl rfl fun text => rfl
  | nil =>
    cases ahead with
    | nil =>
      refine ⟨.of_eq rfl rfl, fun nonempty hx _ => ?_⟩
      exact absurd (List.append_eq_nil_iff.mp hx.symm).2 nonempty
    | cons c ahead =>
      refine ⟨⟨[c], rfl, rfl⟩, fun {x y a b} _ hx hy => ?_⟩
      have hx : c :: ahead = x ++ a := hx
      have hy : ahead = y ++ a := hy
      obtain rfl : c :: y = x := List.append_cancel_right (hy ▸ hx)
      rw [hy]
      rfl

theorem local_unread {α : Type} (a : α) (c : Option Char) :
    Local fun r : Reader => .ok a (r.unread c) := by
  intro r
  cases c with
  | none => exact .of_still rfl rfl fun text => rfl
  | some c => exact .of_still rfl rfl fun text => rfl

/-- A stretch, with what ended it. -/
def seeking (p : Char → Bool) (r : Reader) : Outcome Reader (List Char × Option Char) :=
  .ok ((r.seek p).passed, (r.seek p).stop) (r.seek p).reader

theorem dropWhile_of_append {p : Char → Bool} {x y a : List Char} {c : Char}
    (h : (x ++ a).dropWhile p = c :: (y ++ a)) : x.dropWhile p = c :: y := by
  cases hx : x.dropWhile p with
  | nil =>
    rw [dropWhile_append_of_dropWhile_eq_nil a hx] at h
    have := (List.dropWhile_suffix (l := a) p).length_le
    have := congrArg List.length h
    simp only [List.length_cons, List.length_append] at this
    omega
  | cons d z =>
    rw [dropWhile_append_of_dropWhile_eq_cons a hx] at h
    injection h with hd hz
    rw [hd, List.append_cancel_right hz]

section Stretches

variable {p : Char → Bool} {pushed text left : List Char} {taken : Nat} {c : Char}

/-- A stretch that ends among what was put back. -/
theorem seek_of_pushed (hpushed : pushed.dropWhile p = c :: left) :
    (⟨pushed, text, taken⟩ : Reader).seek p =
      ⟨pushed.takeWhile p, some c, ⟨left, text, taken⟩⟩ := by
  rw [seek, hpushed]

/-- One that ends in the text. -/
theorem seek_of_ahead (hpushed : pushed.dropWhile p = []) (htext : text.dropWhile p = c :: left) :
    (⟨pushed, text, taken⟩ : Reader).seek p = ⟨pushed ++ text.takeWhile p, some c,
      ⟨[], left, taken + (text.takeWhile p).length + 1⟩⟩ := by
  simp only [seek, hpushed, htext]

/-- One that does not end before the text does. -/
theorem seek_of_end (hpushed : pushed.dropWhile p = []) (htext : text.dropWhile p = []) :
    (⟨pushed, text, taken⟩ : Reader).seek p = ⟨pushed ++ text.takeWhile p, none,
      ⟨[], [], taken + (text.takeWhile p).length⟩⟩ := by
  simp only [seek, hpushed, htext]

end Stretches

theorem local_seeking (p : Char → Bool) : Local (seeking p) := by
  rintro ⟨pushed, ahead, taken⟩
  have parts := List.takeWhile_append_dropWhile (p := p) (l := ahead)
  cases hpushed : pushed.dropWhile p with
  | cons c left =>
    refine .of_still ?_ ?_ fun text => ?_
    all_goals simp only [seeking, seek_of_pushed hpushed, onto]
    all_goals rfl
  | nil =>
    cases hahead : ahead.dropWhile p with
    | nil =>
      rw [hahead] at parts
      refine ⟨?_, fun nonempty _ hy => ?_⟩
      all_goals simp only [seeking, seek_of_end hpushed hahead] at *
      · exact ⟨ahead.takeWhile p, parts.symm, rfl⟩
      · exact absurd (List.append_eq_nil_iff.mp hy.symm).2 nonempty
    | cons c left =>
      rw [hahead] at parts
      refine ⟨?_, fun {x y a b} _ hx hy => ?_⟩
      · simp only [seeking, seek_of_ahead hpushed hahead]
        refine ⟨ahead.takeWhile p ++ [c], ?_, ?_⟩
        · rw [List.append_assoc]
          exact parts.symm
        · rw [List.length_append]
          rfl
      · -- The end is found in `x`: what is behind it was not looked at.
        rw [seeking, seek_of_ahead hpushed hahead] at hy
        obtain rfl : ahead = x ++ a := hx
        obtain rfl : left = y ++ a := hy
        have hx := dropWhile_of_append hahead
        have hb := dropWhile_append_of_dropWhile_eq_cons b hx
        show seeking p ⟨pushed, x ++ b, taken⟩ = _
        rw [seeking, seeking, seek_of_ahead hpushed hb, seek_of_ahead hpushed hahead,
          takeWhile_append_of_dropWhile_eq_cons a hx, takeWhile_append_of_dropWhile_eq_cons b hx]
        rfl

theorem local_takeWhile (p : Char → Bool) : Local fun r : Reader => .plain (r.takeWhile p) :=
  fun r => (local_seeking p r).andThen fun stretch s' _ => local_unread stretch.1 stretch.2 s'

theorem local_digits : Local fun r : Reader => .plain r.digits := local_takeWhile _

theorem sign_eq (r : Reader) : Outcome.plain r.sign = (Outcome.plain r.read).andThen fun c r =>
    if c = some '+' ∨ c = some '-' then .ok c r else .ok none (r.unread c) := by
  unfold sign Outcome.plain
  rw [Outcome.andThen_ok]
  split
  · next h => rw [h]; rfl
  · next h => rw [h]; rfl
  · next plus minus h =>
    rw [h]
    exact (if_neg (not_or.mpr ⟨plus, minus⟩)).symm

theorem local_sign : Local fun r : Reader => .plain r.sign := by
  intro r
  simp only [sign_eq]
  exact (local_read r).andThen fun c r' _ =>
    .ite (fun _ => .ok c r') fun _ => local_unread none c r'

theorem fraction_eq (r : Reader) :
    Outcome.plain r.fraction = (Outcome.plain r.read).andThen fun c r =>
      if c = some '.' then (Outcome.plain r.digits).andThen fun ds r => .ok (some ds) r
      else .ok none (r.unread c) := by
  unfold fraction Outcome.plain
  rw [Outcome.andThen_ok]
  split
  · next h => rw [h]; rfl
  · next point h =>
    rw [h]
    exact (if_neg point).symm

theorem local_fraction : Local fun r : Reader => .plain r.fraction := by
  intro r
  simp only [fraction_eq]
  exact (local_read r).andThen fun c r' _ =>
    .ite (fun _ => (local_digits r').andThen fun ds r'' _ => .ok (some ds) r'')
      fun _ => local_unread none c r'

theorem exponent_eq (r : Reader) :
    Outcome.plain r.exponent = (Outcome.plain r.read).andThen fun c r =>
      match c with
      | none => .ok none r
      | some mark =>
        if mark = 'e' ∨ mark = 'E' then
          (Outcome.plain r.sign).andThen fun sign r =>
            (Outcome.plain r.digits).andThen fun digits r =>
              if digits = [] then .ok none ((r.unread sign).unread mark)
              else .ok (some { mark, sign, digits }) r
        else .ok none (r.unread mark) := by
  unfold exponent Outcome.plain
  rw [Outcome.andThen_ok]
  split
  · next h => rw [h]
  · next mark r' h =>
    rw [h]
    dsimp only [Outcome.andThen_ok]
    split
    · split <;> rfl
    · rfl

theorem local_exponent : Local fun r : Reader => .plain r.exponent := by
  intro r
  simp only [exponent_eq]
  refine (local_read r).andThen fun c r' _ => ?_
  cases c with
  | none => exact .ok none r'
  | some mark =>
    refine .ite (fun _ => ?_) fun _ => local_unread none mark r'
    refine (local_sign r').andThen fun sign r₁ _ => (local_digits r₁).andThen fun digits r₂ _ => ?_
    refine .ite (fun _ => ?_) fun _ => .ok _ r₂
    exact (local_unread () sign r₂).andThen fun _ r₃ _ => local_unread none mark r₃

theorem local_numeral : Local numeral := by
  intro r
  have h : numeral = fun r => (Outcome.plain r.digits).andThen fun whole r =>
      (Outcome.plain r.fraction).andThen fun fraction r =>
        let bare : Numeral := { whole, fraction, exponent := none }
        if bare.digits = [] then .fault (.badNumber bare.mantissa) r
        else (Outcome.plain r.exponent).andThen fun exponent r => .ok { bare with exponent } r := rfl
  rw [h]
  exact (local_digits r).andThen fun whole r₁ _ => (local_fraction r₁).andThen fun fraction r₂ _ =>
    .ite (fun _ => .fault _ r₂) fun _ => (local_exponent r₂).andThen fun x r₃ _ => .ok _ r₃

end Reader

/-! ## Tokens -/

/-- A step of a part that reads. -/
theorem LocalAt.inside {σ τ α : Type} [TextReader σ] [TextReader τ] {step : σ → Outcome σ α}
    {get : τ → σ} {wrap : τ → σ → τ} {t : τ} (h : LocalAt step (get t))
    (reads : reader t = reader (get t)) (wrapped : ∀ s, reader (wrap t s) = reader s)
    (getOnto : ∀ text, get (onto text t) = onto text (get t))
    (wrapOnto : ∀ text text' s, wrap (onto text t) (onto text' s) = onto text' (wrap t s)) :
    LocalAt (fun t => (step (get t)).inside (wrap t)) t := by
  have left : reader ((step (get t)).inside (wrap t)).state = reader (step (get t)).state := by
    rw [Outcome.state_inside]
    exact wrapped _
  refine ⟨?_, fun nonempty hx hy => ?_⟩
  · rw [left, reads]
    exact h.past
  · rw [left] at hy
    rw [reads] at hx
    rw [getOnto, h.same nonempty hx hy]
    cases step (get t) with
    | ok a s => exact congrArg (Outcome.ok a) (wrapOnto _ _ s)
    | fault f s => exact congrArg (Outcome.fault f) (wrapOnto _ _ s)

namespace Script

variable {α : Type}

/-- A step of the reader. -/
def reading (step : Reader → Outcome Reader α) (s : Script) : Outcome Script α :=
  (step s.reader).inside fun reader => { s with reader }

theorem local_reading {step : Reader → Outcome Reader α} (h : Local step) : Local (reading step) :=
  fun s => LocalAt.inside (h s.reader) rfl (fun _ => rfl) (fun _ => rfl) fun _ _ _ => rfl

theorem tokenFrom_begun {c : Char} (hk : Kind.ofSymbol? c = none) (s : Script) : s.tokenFrom c =
    if beginsNumeral c then
      (reading (fun r => (r.unread c).numeral) s).andThen fun n s => .ok (.number n.value) s
    else if c.isAlpha then
      (reading (fun r => .plain (r.takeWhile Char.isAlphanum)) s).andThen fun cs s =>
        .ok (s.wordToken (String.ofList (c :: cs))) s
    else .fault (.badToken c) s := by
  unfold tokenFrom
  rw [hk]
  dsimp only
  split
  · dsimp only [reading]
    cases (s.reader.unread c).numeral <;> rfl
  · rfl

theorem local_wordToken (name : String) : Local fun s : Script => .ok (s.wordToken name) s :=
  fun _ => .of_still rfl rfl fun _ => rfl

theorem local_tokenFrom (c : Char) : Local fun s : Script => s.tokenFrom c := by
  intro s
  cases hk : Kind.ofSymbol? c with
  | some kind =>
    simp only [tokenFrom_symbol (Kind.symbol?_of_ofSymbol? hk)]
    exact .ok (Token.mark kind) s
  | none =>
    have numeral : Local fun r : Reader => (r.unread (some c)).numeral := fun r =>
      (Reader.local_unread () (some c) r).andThen fun _ r' _ => Reader.local_numeral r'
    have word : Local fun r : Reader => .plain (r.takeWhile Char.isAlphanum) :=
      Reader.local_takeWhile _
    simp only [tokenFrom_begun hk]
    refine .ite (fun _ => ?_) fun _ => .ite (fun _ => ?_) fun _ => .fault _ s
    · exact (local_reading numeral s).andThen fun n s' _ => .ok (Token.number n.value) s'
    · exact (local_reading word s).andThen fun cs s' _ => local_wordToken _ s'

theorem next_eq (s : Script) : s.next =
    (reading (Reader.seeking Text.isBlank) s).andThen fun stretch s =>
      match stretch.2 with
      | none => .ok (.mark .quit) s
      | some c => s.tokenFrom c := rfl

theorem local_next : Local fun s : Script => s.next := by
  intro s
  simp only [next_eq]
  refine (local_reading (Reader.local_seeking _) s).andThen fun stretch s' _ => ?_
  cases stretch.2 with
  | none => exact .ok _ s'
  | some c => exact local_tokenFrom c s'

theorem local_skipPast (kind : Kind) : Local fun s : Script => .plain (s.skipPast kind) := fun s =>
  (local_reading (Reader.local_seeking fun c => kind.symbol? ≠ some c) s).andThen fun stretch s' _ =>
    .ok stretch.1.length s'

end Script

/-! ## Actions -/

namespace State

variable {α : Type}

/-- A step of the supply, with nothing in the slot behind it. -/
def supplied (step : Script → Outcome Script α) (s : State Script) : Outcome (State Script) α :=
  (step s.supply).inside fun supply => .ofSupply supply s.vars

theorem local_supplied {step : Script → Outcome Script α} (h : Local step) :
    Local (supplied step) :=
  fun s => LocalAt.inside (h s.supply) rfl (fun _ => rfl) (fun _ => rfl) fun _ _ _ => rfl

theorem local_token : Local (State.token (σ := Script)) := by
  rintro ⟨supply, slot, vars⟩
  cases slot with
  | some t => exact .of_still rfl rfl fun _ => rfl
  | none => exact (local_supplied Script.local_next _).congr rfl fun _ => rfl

theorem local_hold (t : Token) : Local fun s : State Script => s.hold t := by
  rintro ⟨supply, slot, vars⟩
  cases slot <;> exact .of_still rfl rfl fun _ => rfl

theorem local_answer (t : Token) (a : α) : Local fun s : State Script => s.answer t a :=
  fun s => (local_hold t s).andThen fun _ s' _ => .ok a s'

theorem local_refuse (t : Token) (f : Fault) :
    Local fun s : State Script => (s.refuse t f : Outcome (State Script) α) :=
  fun s => (local_hold t s).andThen fun _ s' _ => .fault f s'

theorem local_lookup (name : String) : Local fun s : State Script => s.lookup name := by
  rintro ⟨supply, slot, vars⟩
  cases h : vars.lookup name with
  | some value =>
    have known (supply : Script) :
        State.lookup ⟨supply, slot, vars⟩ name = .ok value ⟨supply, slot, vars⟩ := by
      rw [State.lookup, h]
    exact (LocalAt.ok value _).congr (known supply) fun _ => known _
  | none =>
    have unknown (supply : Script) :
        State.lookup ⟨supply, slot, vars⟩ name = .fault (.unknownName name) ⟨supply, slot, vars⟩ := by
      rw [State.lookup, h]
    exact (LocalAt.fault (.unknownName name) _).congr (unknown supply) fun _ => unknown _

theorem local_assign (name : String) (value : Float) :
    Local fun s : State Script => .ok value (s.assign name value) :=
  fun _ => .of_still rfl rfl fun _ => rfl

theorem local_giveUp (kind : Kind) : Local fun s : State Script => .plain (s.giveUp kind) := by
  rintro ⟨supply, slot, vars⟩
  by_cases held : slot.any fun (t : Token) => t.kind = kind
  · have still : Local (supplied fun supply : Script => .ok (none : Option Nat) supply) :=
      local_supplied (.ok none)
    exact (still _).congr (congrArg Outcome.plain (giveUp_held held)) fun _ =>
      congrArg Outcome.plain (giveUp_held held)
  · have skip : Local (supplied fun supply : Script =>
        (Outcome.plain (supply.skipPast kind)).andThen fun skipped => .ok (some skipped)) :=
      local_supplied fun supply =>
        (Script.local_skipPast kind supply).andThen fun skipped supply _ => .ok (some skipped) supply
    exact (skip _).congr (congrArg Outcome.plain (giveUp_dropped held)) fun _ =>
      congrArg Outcome.plain (giveUp_dropped held)

end State

/-! ## Rules -/

namespace Rule

variable {n : Nat}

theorem local_chainFrom (p : Nat) {operand : Rule Script} (hoperand : Local operand.run)
    (left : Float) : Local (chainFrom p operand left) := by
  intro s
  induction s using Rule.chainInduction operand generalizing left with
  | turn s ih =>
    rw [funext (chainFrom_eq p operand left)]
    refine (State.local_token s).andThen fun t s₁ htoken => ?_
    cases operatorAt p t.kind with
    | none => exact State.local_answer t left s₁
    | some op =>
      refine (hoperand s₁).andThen fun right s₂ hrun => ?_
      cases op.apply left right with
      | error f => exact .fault f s₂
      | ok value => exact ih t s₁ right s₂ htoken hrun value

theorem local_chain (p : Nat) {operand : Unit → Rule Script} (hoperand : Local (operand ()).run) :
    Local (chain p operand).run :=
  fun s => (hoperand s).andThen fun left s' _ => local_chainFrom p hoperand left s'

theorem local_signs (turned : Bool) : Local (signs (σ := Script) turned) := by
  intro s
  induction s using State.tokenInduction generalizing turned with
  | turn s ih =>
    rw [funext (signs_eq turned)]
    refine (State.local_token s).andThen fun t s₁ htoken => ?_
    refine .ite (fun isMinus => ?_) fun _ => State.local_answer t turned s₁
    exact ih t s₁ htoken (by rw [isMinus]; exact Kind.noConfusion) (!turned)

theorem local_enclosed {sum : Rule Script} (hsum : Local sum.run) : Local (enclosed sum) :=
  fun s => (hsum s).andThen fun value s₁ _ => (State.local_token s₁).andThen fun t s₂ _ =>
    .ite (fun _ => .ok value s₂) fun _ => State.local_refuse t _ s₂

theorem local_signed {operand : Rule Script} (hoperand : Local operand.run) :
    Local (signed operand) :=
  fun s => (local_signs true s).andThen fun turned s₁ _ => (hoperand s₁).andThen fun value s₂ _ =>
    .ok (if turned then -value else value) s₂

theorem local_named {sum : Rule Script} (hsum : Local sum.run) (name : String) :
    Local (named sum name) :=
  fun s => (State.local_token s).andThen fun t s₁ _ => .ite
    (fun _ => (hsum s₁).andThen fun value s₂ _ => State.local_assign name value s₂)
    fun _ => (State.local_hold t s₁).andThen fun _ s₂ _ => State.local_lookup name s₂

theorem local_begun {sum operand : Unit → Rule Script} (hsum : Local (sum ()).run)
    (hoperand : Local (operand ()).run) (t : Token) : Local (begun sum operand t) := by
  intro s
  unfold begun
  split
  · exact .ok t.value s
  · exact local_enclosed hsum s
  · exact local_signed hoperand s
  · exact local_named hsum t.name s
  · exact State.local_refuse t _ s

theorem local_single {sum operand : Unit → Rule Script} (hsum : Local (sum ()).run)
    (hoperand : Local (operand ()).run) : Local (single sum operand).run :=
  fun s => (State.local_token s).andThen fun t s₁ _ => local_begun hsum hoperand t s₁

theorem local_lose : Local (lose (σ := Script)) :=
  fun s => (State.local_token s).andThen fun _ s₁ _ => .fault .tooDeep s₁

theorem local_brink (frail : Bool) : Local (brink (σ := Script) frail).run := by
  have deep : Local (tooDeep (σ := Script)).run := .fault .tooDeep
  cases frail with
  | false => exact deep
  | true =>
    rintro ⟨supply, slot, vars⟩
    cases slot with
    | none => exact (local_lose ⟨supply, none, vars⟩).congr rfl fun _ => rfl
    | some t =>
      by_cases isName : t.kind = .name
      · have lost := (State.local_token ⟨supply, some t, vars⟩).andThen fun _ s₁ _ => local_lose s₁
        exact lost.congr (run_brink_name rfl isName) fun _ => run_brink_name rfl isName
      · exact (deep _).congr (run_brink_held rfl isName) fun _ => run_brink_held rfl isName

theorem local_rules (limit : Limit) : Local (sum (σ := Script) limit).run ∧
    Local (product (σ := Script) limit).run ∧ Local (operand (σ := Script) limit).run := by
  obtain ⟨n, frail⟩ := limit
  induction n with
  | zero =>
    have deep : Local (tooDeep (σ := Script)).run := .fault .tooDeep
    exact ⟨deep, local_brink frail, local_brink frail⟩
  | succ n ih =>
    obtain ⟨ihSum, ihProduct, ihOperand⟩ := ih
    rw [sum_succ, product_succ, operand_succ]
    exact ⟨local_chain 1 ihProduct, local_chain 2 ihOperand, local_single ihSum ihOperand⟩

end Rule

/-! ## Statements -/

namespace State

theorem local_firstToken : Local (firstToken (σ := Script)) := by
  intro s
  induction s using State.tokenInduction with
  | turn s ih =>
    rw [funext firstToken_eq]
    refine (local_token s).andThen fun t s₁ htoken => ?_
    refine .ite (fun isPrint => ?_) fun _ => .ok t s₁
    exact ih t s₁ htoken (by rw [isPrint]; exact Kind.noConfusion)

theorem local_close (value : Float) : Local fun s : State Script => s.close value :=
  fun s => (local_token s).andThen fun t s₁ _ => (local_hold t s₁).andThen fun _ s₂ _ =>
    .ite (fun _ => .fault .notAssignable s₂) fun _ => .ok (some value) s₂

theorem local_statementFrom (limit : Limit) (t : Token) :
    Local fun s : State Script => s.statementFrom limit t :=
  fun s => (local_hold t s).andThen fun _ s₁ _ =>
    ((Rule.local_rules limit).1 s₁).andThen fun value s₂ _ => local_close value s₂

theorem local_statement (limit : Limit) : Local fun s : State Script => s.statement limit :=
  fun s => (local_firstToken s).andThen fun t s₁ _ =>
    .ite (fun _ => .ok none s₁) fun _ => local_statementFrom limit t s₁

/-! ## Turns -/

theorem turn_eq (limit : Limit) (s : State Script) : Outcome.plain (s.turn limit) =
    (s.statement limit).either (fun v s => .ok (v.elim .ended .value) s) fun f s =>
      if f.recoverable then (Outcome.plain (s.giveUp .print)).andThen fun _ s => .ok (.fault f) s
      else .ok (.fault f) s := by
  unfold turn
  rcases s.statement limit with ⟨_ | v, s⟩ | ⟨f, s⟩
  · rfl
  · rfl
  · simp only [Outcome.either, Outcome.plain]
    split <;> rfl

theorem local_turn (limit : Limit) : Local fun s : State Script => .plain (s.turn limit) := by
  intro s
  simp only [turn_eq]
  refine (local_statement limit s).either (fun v s₁ _ => .ok _ s₁) fun f s₁ _ => ?_
  refine .ite (fun _ => ?_) fun _ => .ok _ s₁
  exact (local_giveUp .print s₁).andThen fun _ s₂ _ => .ok (Answer.fault f) s₂

theorem local_turns (limit : Limit) (n : Nat) :
    Local fun s : State Script => .plain (s.turns limit n) := by
  induction n with
  | zero => exact .ok []
  | succ n ih =>
    intro s
    exact (local_turn limit s).andThen fun answer s₁ _ =>
      (ih s₁).andThen fun answers s₂ _ => .ok (answer :: answers) s₂

end State

/-- The turns have taken a part of the text, and left the rest ahead. -/
theorem past_turns (limit : Limit) (n : Nat) (scope : Scope) (code : String) :
    let s := ((scope.start code).turns limit n).2
    ∃ read, code.toList = read ++ s.supply.reader.ahead ∧ s.supply.reader.taken = read.length := by
  obtain ⟨read, ahead, taken⟩ := (local_turns limit n (scope.start code)).past
  exact ⟨read, ahead, taken.trans (Nat.zero_add _)⟩

/-- Turns that have not taken the whole text are the same on every text that begins with
    what they took, and leave the same but for what is ahead. -/
theorem turns_of_take_eq {limit : Limit} {n : Nat} {scope : Scope} {code code' : String} {p : Nat}
    (taken : ((scope.start code).turns limit n).2.supply.reader.taken = p) (more : p < code.length)
    (same : code'.toList.take p = code.toList.take p) :
    (scope.start code').turns limit n = (((scope.start code).turns limit n).1,
      onto (code'.toList.drop p) ((scope.start code).turns limit n).2) := by
  obtain ⟨read, hread, hlength⟩ := past_turns limit n scope code
  have hlength : read.length = p := hlength.symm.trans taken
  have nonempty : ((scope.start code).turns limit n).2.supply.reader.ahead ≠ [] := fun hnil => by
    have := congrArg List.length hread
    rw [hnil, List.append_nil, String.length_toList] at this
    omega
  have hcode : read ++ code'.toList.drop p = code'.toList := by
    have htake : code.toList.take p = read := by rw [hread, ← hlength, List.take_left]
    rw [← htake, ← same, List.take_append_drop]
  have hstart : scope.start code' =
      onto (read ++ code'.toList.drop p) (scope.start code) := by
    rw [hcode]
    rfl
  have hturns := (local_turns limit n (scope.start code)).same (b := code'.toList.drop p) nonempty
    hread (List.nil_append _).symm
  rw [hstart]
  injection hturns with hanswers hstate
  exact Prod.ext hanswers hstate

/-- A step that has not come to the end of what is there does the same with more behind
    it: it need not be taken again. -/
theorem Local.extend {α : Type} {step : State Script → Outcome (State Script) α} (h : Local step)
    {s : State Script} (left : (step s).state.exhausted = false) (more : String) :
    step (s.extend more) = (step s).inside (·.extend more) := by
  obtain ⟨read, hread, -⟩ := (h s).past
  have nonempty : (reader (step s).state).ahead ≠ [] := fun hnil => by
    rw [exhausted, List.isEmpty_eq_false_iff] at left
    exact left hnil
  have hextend : s.extend more =
      onto (read ++ ((reader (step s).state).ahead ++ more.toList)) s := by
    rw [← List.append_assoc, ← hread]
    rfl
  rw [hextend, (h s).same nonempty hread (List.nil_append _).symm]
  cases step s <;> rfl

end Reckoner
