/-
  Numerals are read to the longest.

  `Numeral.WellFormed` is the form of a numeral: digits, perhaps a point among or
  before them, perhaps an exponent with a digit in it. `Numeral.EndsAt` says that
  what follows cannot go on with it. The key is `eq_or_lt`: of two numerals at
  the beginning of one text, one that ends there is the other or is longer. So a
  text is a numeral in one way at most, and the longest is the one that ends.

  Proved of `Reader.numeral`:
  * `numeral_ends`: what it reads has the form, and ends where it stops.
  * `numeral_fault`: without a numeral there is at most a point.
  * `numeral_of_longest`: the longest numeral there is the one it reads.
-/
import Reckoner.Numeral

namespace Reckoner

/-! ## Runs of characters -/

/-- The text does not begin with a character where `p` holds. -/
def Ends (p : Char → Bool) (z : List Char) : Prop := ∀ c, z.head? = some c → p c = false

section Ends

variable {p : Char → Bool} {ds ds' z z' : List Char}

theorem ends_dropWhile (p : Char → Bool) (z : List Char) : Ends p (z.dropWhile p) := by
  intro c hc
  have hne : z.dropWhile p ≠ [] := by
    intro hnil
    rw [hnil] at hc
    cases hc
  have h := List.head_dropWhile_not p hne
  rw [List.head?_eq_some_head hne] at hc
  injection hc with hc
  rwa [hc] at h

theorem takeWhile_of_ends (h : Ends p z) : z.takeWhile p = [] := by
  cases z with
  | nil => rfl
  | cons c z => rw [List.takeWhile_cons, h c rfl]; rfl

theorem dropWhile_of_ends (h : Ends p z) : z.dropWhile p = z := by
  cases z with
  | nil => rfl
  | cons c z => rw [List.dropWhile_cons, h c rfl]; rfl

theorem takeWhile_append_of_ends (hds : ∀ c ∈ ds, p c = true) (h : Ends p z) :
    (ds ++ z).takeWhile p = ds := by
  rw [List.takeWhile_append_of_pos hds, takeWhile_of_ends h, List.append_nil]

theorem dropWhile_append_of_ends (hds : ∀ c ∈ ds, p c = true) (h : Ends p z) :
    (ds ++ z).dropWhile p = z := by
  rw [List.dropWhile_append_of_pos hds, dropWhile_of_ends h]

/-- Of two runs at the beginning of one text, one that ends there is the other or
    is longer; then the shorter one goes on. -/
theorem run_eq_or_lt (hds : ∀ c ∈ ds, p c = true) (hds' : ∀ c ∈ ds', p c = true) (h : Ends p z)
    (heq : ds ++ z = ds' ++ z') :
    ds = ds' ∧ z = z' ∨ ds'.length < ds.length ∧ ¬ Ends p z' := by
  by_cases h' : Ends p z'
  · left
    have hd : ds = ds' := by
      rw [← takeWhile_append_of_ends hds h, heq, takeWhile_append_of_ends hds' h']
    subst hd
    exact ⟨rfl, List.append_cancel_left heq⟩
  · right
    have hd : ds = ds' ++ z'.takeWhile p := by
      rw [← takeWhile_append_of_ends hds h, heq, List.takeWhile_append_of_pos hds']
    have hne : z'.takeWhile p ≠ [] := by
      intro hnil
      refine h' ?_
      have hz : z' = z'.dropWhile p := by
        have := List.takeWhile_append_dropWhile (p := p) (l := z')
        rw [hnil] at this
        exact this.symm
      rw [hz]
      exact ends_dropWhile p z'
    have := List.length_pos_iff.mpr hne
    have := congrArg List.length hd
    rw [List.length_append] at this
    exact ⟨by omega, h'⟩

end Ends

/-! ## The form of a numeral -/

/-- A mark, perhaps a sign, and digits. -/
structure Exponent.WellFormed (x : Exponent) : Prop where
  mark : x.mark = 'e' ∨ x.mark = 'E'
  sign : x.sign = none ∨ x.sign = some '+' ∨ x.sign = some '-'
  digits : ∀ c ∈ x.digits, c.isDigit = true
  digits_ne_nil : x.digits ≠ []

/-- Digits with at most one point, and an exponent or none. -/
structure Numeral.WellFormed (n : Numeral) : Prop where
  whole : ∀ c ∈ n.whole, c.isDigit = true
  fraction : ∀ ds, n.fraction = some ds → ∀ c ∈ ds, c.isDigit = true
  digits_ne_nil : n.digits ≠ []
  exponent : ∀ x, n.exponent = some x → x.WellFormed

/-- What follows does not go on with the numeral: no digit, no point if it has
    none, and no exponent if it has none. -/
structure Numeral.EndsAt (n : Numeral) (z : List Char) : Prop where
  digit : Ends Char.isDigit z
  point : n.fraction = none → n.exponent = none → z.head? ≠ some '.'
  exponent : n.exponent = none → ∀ x : Exponent, x.WellFormed → ¬ x.text <+: z

theorem Numeral.wellFormed_digit (c : Char) (digit : c.isDigit = true) :
    WellFormed ⟨[c], none, none⟩ := by
  refine ⟨fun x hx => ?_, fun ds h => ?_, List.cons_ne_nil _ _, fun x h => ?_⟩
  · rw [List.mem_singleton.mp hx]
    exact digit
  · cases h
  · cases h

/-- The characters of a numeral that are no digits. -/
def Numeral.marks : List Char := ['.', 'e', 'E', '+', '-']

theorem Exponent.WellFormed.mem_text {x : Exponent} (h : x.WellFormed) {c : Char} (hc : c ∈ x.text) :
    c.isDigit = true ∨ c ∈ Numeral.marks := by
  rw [text, List.mem_append, List.mem_cons, Option.mem_toList] at hc
  rcases hc with (hm | hs) | hd
  · right
    rcases h.mark with h | h <;> rw [hm, h] <;> decide
  · right
    rcases h.sign with h | h | h <;> rw [h] at hs <;> cases hs <;> decide
  · exact .inl (h.digits c hd)

theorem Numeral.WellFormed.mem_text {n : Numeral} (h : n.WellFormed) {c : Char} (hc : c ∈ n.text) :
    c.isDigit = true ∨ c ∈ marks := by
  rw [text, mantissa, List.mem_append, List.mem_append] at hc
  rcases hc with (hw | hf) | hx
  · exact .inl (h.whole c hw)
  · cases hfraction : n.fraction with
    | none =>
      rw [hfraction] at hf
      cases hf
    | some ds =>
      rw [hfraction, pointed, List.mem_cons] at hf
      rcases hf with hf | hf
      · rw [hf]
        exact .inr (by decide)
      · exact .inl (h.fraction ds hfraction c hf)
  · cases hexponent : n.exponent with
    | none =>
      rw [hexponent] at hx
      cases hx
    | some x =>
      rw [hexponent] at hx
      exact (h.exponent x hexponent).mem_text hx

/-- No digit stands where an exponent begins. -/
theorem Exponent.WellFormed.ends {x : Exponent} (h : x.WellFormed) (z : List Char) :
    Ends Char.isDigit (x.text ++ z) := by
  intro c hc
  injection hc with hc
  subst hc
  rcases h.mark with h | h <;> rw [h] <;> rfl

/-- Nor does a point. -/
theorem Exponent.WellFormed.head_ne_point {x : Exponent} (h : x.WellFormed) (z : List Char) :
    (x.text ++ z).head? ≠ some '.' := by
  intro hc
  injection hc with hc
  rcases h.mark with h | h <;> rw [h] at hc <;> cases hc

/-- A sign is no digit. -/
theorem Exponent.WellFormed.sign_ne_digit {x : Exponent} (h : x.WellFormed) {c : Char}
    (hc : x.sign = some c) : c.isDigit = false := by
  rcases h.sign with hs | hs | hs <;> rw [hs] at hc <;> cases hc <;> rfl

/-- A sign is there or not by what follows the mark. -/
theorem Exponent.sign_eq {x x' : Exponent} {z z' : List Char} (h : x.WellFormed)
    (h' : x'.WellFormed) (heq : x.sign.toList ++ (x.digits ++ z) = x'.sign.toList ++ (x'.digits ++ z')) :
    x.sign = x'.sign ∧ x.digits ++ z = x'.digits ++ z' := by
  obtain ⟨d, ds, hd⟩ := List.exists_cons_of_ne_nil h.digits_ne_nil
  obtain ⟨d', ds', hd'⟩ := List.exists_cons_of_ne_nil h'.digits_ne_nil
  have digit : d.isDigit = true := h.digits d (by rw [hd]; exact List.mem_cons_self)
  have digit' : d'.isDigit = true := h'.digits d' (by rw [hd']; exact List.mem_cons_self)
  cases hs : x.sign with
  | none =>
    cases hs' : x'.sign with
    | none =>
      rw [hs, hs'] at heq
      exact ⟨rfl, heq⟩
    | some c =>
      rw [hs, hs', hd] at heq
      injection heq with hc
      rw [hc, h'.sign_ne_digit hs'] at digit
      cases digit
  | some c =>
    cases hs' : x'.sign with
    | none =>
      rw [hs, hs', hd'] at heq
      injection heq with hc
      rw [← hc, h.sign_ne_digit hs] at digit'
      cases digit'
    | some c' =>
      rw [hs, hs'] at heq
      injection heq with hc heq
      exact ⟨congrArg some hc, heq⟩

/-- An exponent that ends is the longest. -/
theorem Exponent.eq_or_lt {x x' : Exponent} {z z' : List Char} (h : x.WellFormed)
    (h' : x'.WellFormed) (ends : Ends Char.isDigit z) (heq : x.text ++ z = x'.text ++ z') :
    x = x' ∨ x'.text.length < x.text.length := by
  rw [text, text, List.append_assoc, List.append_assoc] at heq
  injection heq with hmark heq
  obtain ⟨hsign, heq⟩ := sign_eq h h' heq
  rcases run_eq_or_lt h.digits h'.digits ends heq with ⟨hdigits, -⟩ | ⟨hlt, -⟩
  · left
    cases x
    cases x'
    subst hmark hsign hdigits
    rfl
  · right
    simp only [text, hsign, List.length_cons, List.length_append]
    omega

namespace Numeral

variable {n n' : Numeral} {z z' : List Char}

/-- The same for an exponent that need not be there. -/
theorem raised_eq_or_lt (h : n.WellFormed) (h' : n'.WellFormed) (ends : n.EndsAt z)
    (heq : raised n.exponent ++ z = raised n'.exponent ++ z') :
    n.exponent = n'.exponent ∨ (raised n'.exponent).length < (raised n.exponent).length := by
  cases hx : n.exponent with
  | none =>
    cases hx' : n'.exponent with
    | none => exact .inl rfl
    | some x' =>
      rw [hx, hx'] at heq
      exact absurd ⟨z', heq.symm⟩ (ends.exponent hx x' (h'.exponent x' hx'))
  | some x =>
    cases hx' : n'.exponent with
    | none => exact .inr (Nat.succ_pos _)
    | some x' =>
      rw [hx, hx'] at heq
      rcases Exponent.eq_or_lt (h.exponent x hx) (h'.exponent x' hx') ends.digit heq with heq | hlt
      · exact .inl (congrArg some heq)
      · exact .inr hlt

/-- No digit stands behind the last digit of a fraction. -/
theorem ends_raised (h : n.WellFormed) (hz : Ends Char.isDigit z) :
    Ends Char.isDigit (raised n.exponent ++ z) := by
  cases hx : n.exponent with
  | none => exact hz
  | some x => exact (h.exponent x hx).ends z

/-- Where a digit goes on behind a fraction, there is no exponent. -/
theorem exponent_eq_none (h : n.WellFormed) (hz : ¬ Ends Char.isDigit (raised n.exponent ++ z)) :
    n.exponent = none := by
  cases hx : n.exponent with
  | none => rfl
  | some x =>
    rw [hx] at hz
    exact absurd ((h.exponent x hx).ends z) hz

/-- Of two fractions the one of the numeral that ends is the other or is longer,
    and then no exponent follows the shorter one. -/
theorem pointed_eq_or_lt (h : n.WellFormed) (h' : n'.WellFormed) (ends : n.EndsAt z)
    (heq : pointed n.fraction ++ (raised n.exponent ++ z) =
      pointed n'.fraction ++ (raised n'.exponent ++ z')) :
    (n.fraction = n'.fraction ∧ raised n.exponent ++ z = raised n'.exponent ++ z') ∨
      n'.exponent = none ∧ (pointed n'.fraction).length < (pointed n.fraction).length := by
  cases hf : n.fraction with
  | none =>
    cases hf' : n'.fraction with
    | none =>
      rw [hf, hf'] at heq
      exact .inl ⟨rfl, heq⟩
    | some ds' =>
      rw [hf, hf'] at heq
      have hhead : (raised n.exponent ++ z).head? = some '.' := congrArg List.head? heq
      cases hx : n.exponent with
      | none =>
        rw [hx] at hhead
        exact absurd hhead (ends.point hf hx)
      | some x =>
        rw [hx] at hhead
        exact absurd hhead ((h.exponent x hx).head_ne_point z)
  | some ds =>
    cases hf' : n'.fraction with
    | none =>
      right
      refine ⟨?_, Nat.succ_pos _⟩
      rw [hf, hf'] at heq
      have hhead : (raised n'.exponent ++ z').head? = some '.' := (congrArg List.head? heq).symm
      cases hx' : n'.exponent with
      | none => rfl
      | some x' =>
        rw [hx'] at hhead
        exact absurd hhead ((h'.exponent x' hx').head_ne_point z')
    | some ds' =>
      rw [hf, hf'] at heq
      injection heq with _ heq
      rcases run_eq_or_lt (h.fraction ds hf) (h'.fraction ds' hf') (ends_raised h ends.digit) heq
        with ⟨hds, hrest⟩ | ⟨hlt, hgoes⟩
      · exact .inl ⟨congrArg some hds, hrest⟩
      · exact .inr ⟨exponent_eq_none h' hgoes, Nat.succ_lt_succ hlt⟩

/-- Of two whole parts the one of the numeral that ends is the other or is longer,
    and then nothing follows the shorter one. -/
theorem whole_eq_or_lt (h : n.WellFormed) (h' : n'.WellFormed) (ends : n.EndsAt z)
    (heq : n.text ++ z = n'.text ++ z') :
    (n.whole = n'.whole ∧ pointed n.fraction ++ (raised n.exponent ++ z) =
        pointed n'.fraction ++ (raised n'.exponent ++ z')) ∨
      n'.fraction = none ∧ n'.exponent = none ∧ n'.whole.length < n.whole.length := by
  simp only [text, mantissa, List.append_assoc] at heq
  have hends : Ends Char.isDigit (pointed n.fraction ++ (raised n.exponent ++ z)) := by
    cases hf : n.fraction with
    | none => exact ends_raised h ends.digit
    | some ds =>
      intro c hc
      injection hc with hc
      subst hc
      rfl
  rcases run_eq_or_lt h.whole h'.whole hends heq with hsame | ⟨hlt, hgoes⟩
  · exact .inl hsame
  · right
    have hf' : n'.fraction = none := by
      cases hf' : n'.fraction with
      | none => rfl
      | some ds' =>
        refine absurd (fun c hc => ?_) hgoes
        rw [hf'] at hc
        injection hc with hc
        subst hc
        rfl
    rw [hf'] at hgoes
    exact ⟨hf', exponent_eq_none h' hgoes, hlt⟩

/-- Of two numerals at the beginning of one text, one that ends there is the other
    or is longer. -/
theorem eq_or_lt (h : n.WellFormed) (h' : n'.WellFormed) (ends : n.EndsAt z)
    (heq : n.text ++ z = n'.text ++ z') : n = n' ∨ n'.text.length < n.text.length := by
  rcases whole_eq_or_lt h h' ends heq with ⟨hwhole, heq⟩ | ⟨hf', hx', hlt⟩
  · rcases pointed_eq_or_lt h h' ends heq with ⟨hfraction, heq⟩ | ⟨hx', hlt⟩
    · rcases raised_eq_or_lt h h' ends heq with hexponent | hlt
      · left
        cases n
        cases n'
        subst hwhole hfraction hexponent
        rfl
      · right
        simp only [text, mantissa, hwhole, hfraction, List.length_append]
        omega
    · right
      simp only [text, mantissa, hwhole, hx', raised, List.length_append, List.length_nil]
      omega
  · right
    simp only [text, mantissa, hf', hx', pointed, raised, List.length_append, List.length_nil]
    omega

/-- A numeral begins with a digit, or with a point and a digit. -/
theorem text_begins (h : n.WellFormed) (z : List Char) :
    ∃ d z', d.isDigit = true ∧ (n.text ++ z = d :: z' ∨ n.text ++ z = '.' :: d :: z') := by
  simp only [text, mantissa, List.append_assoc]
  cases hw : n.whole with
  | cons d ds => exact ⟨d, _, h.whole d (by rw [hw]; exact List.mem_cons_self), .inl rfl⟩
  | nil =>
    have hne := h.digits_ne_nil
    rw [digits, hw] at hne
    cases hf : n.fraction with
    | none =>
      rw [hf] at hne
      exact absurd rfl hne
    | some ds =>
      cases ds with
      | nil =>
        rw [hf] at hne
        exact absurd rfl hne
      | cons d ds => exact ⟨d, _, h.fraction _ hf d List.mem_cons_self, .inr rfl⟩

end Numeral

/-! ## What is read -/

namespace Reader

variable {r r' : Reader}

theorem digits_spec (r : Reader) :
    (∀ c ∈ r.digits.1, c.isDigit = true) ∧ Ends Char.isDigit r.digits.2.rest := by
  rw [digits, takeWhile_fst, rest_takeWhile]
  exact ⟨fun c hc => List.all_eq_true.mp List.all_takeWhile c hc, ends_dropWhile _ _⟩

/-- A fraction is as long as it can be, and none is missed. -/
theorem fraction_spec (r : Reader) :
    (∀ ds, r.fraction.1 = some ds →
      (∀ c ∈ ds, c.isDigit = true) ∧ Ends Char.isDigit r.fraction.2.rest) ∧
    (r.fraction.1 = none → r.fraction.2.rest = r.rest ∧ r.rest.head? ≠ some '.') := by
  refine ⟨fun ds h => ?_, fun h => ⟨?_, head?_ne_point_of_fraction h⟩⟩
  · unfold fraction at h ⊢
    split at h
    · next r₁ heq =>
      injection h with h
      subst h
      exact r₁.digits_spec
    · cases h
  · have happ := r.fraction_append
    rw [h] at happ
    exact happ

/-- Behind digits no digit stands, and none behind the fraction that follows them. -/
theorem ends_fraction (h : Ends Char.isDigit r.rest) : Ends Char.isDigit r.fraction.2.rest := by
  cases hf : r.fraction.1 with
  | none =>
    rw [(r.fraction_spec.2 hf).1]
    exact h
  | some ds => exact (r.fraction_spec.1 ds hf).2

theorem read_of_rest {c : Char} {z : List Char} (hrest : r.rest = c :: z) :
    r.read = (some c, r.read.2) ∧ r.read.2.rest = z := by
  refine ⟨Prod.ext ?_ rfl, ?_⟩
  · rw [read_fst, hrest]
    rfl
  · rw [rest_read, hrest]
    rfl

/-- A sign that stands before a digit is taken, and no digit is. -/
theorem sign_of_rest {sign : Option Char} {d : Char} {z : List Char}
    (hsign : sign = none ∨ sign = some '+' ∨ sign = some '-') (digit : d.isDigit = true)
    (hrest : r.rest = sign.toList ++ d :: z) : r.sign.2.rest = d :: z := by
  have happ := r.sign_append
  have hfst : r.sign.1 = sign := by
    unfold Reader.sign
    rcases hsign with rfl | rfl | rfl
    · rw [(read_of_rest hrest).1]
      split
      · next h => cases h; cases digit
      · next h => cases h; cases digit
      · rfl
    · rw [(read_of_rest hrest).1]
      rfl
    · rw [(read_of_rest hrest).1]
      rfl
  rw [hfst, hrest] at happ
  exact List.append_cancel_left happ

theorem sign_form (r : Reader) :
    r.sign.1 = none ∨ r.sign.1 = some '+' ∨ r.sign.1 = some '-' := by
  unfold sign
  split
  · exact .inr (.inl rfl)
  · exact .inr (.inr rfl)
  · exact .inl rfl

/-- An exponent is as long as it can be, and none is missed. -/
theorem exponent_spec (r : Reader) :
    (∀ x, r.exponent.1 = some x → x.WellFormed ∧ Ends Char.isDigit r.exponent.2.rest) ∧
    (r.exponent.1 = none → r.exponent.2.rest = r.rest ∧
      ∀ x : Exponent, x.WellFormed → ¬ x.text <+: r.rest) := by
  refine ⟨fun x h => ?_, fun h => ⟨?_, ?_⟩⟩
  · unfold exponent at h ⊢
    split at h
    · cases h
    · next mark r₁ heq =>
      split at h
      · next hmark =>
        dsimp only at h ⊢
        split at h
        · cases h
        · next hne =>
          injection h with h
          subst h
          have hd := r₁.sign.2.digits_spec
          rw [if_pos hmark, if_neg hne]
          exact ⟨⟨hmark, r₁.sign_form, hd.1, hne⟩, hd.2⟩
      · cases h
  · have happ := r.exponent_append
    rw [h] at happ
    exact happ
  · rintro x hx ⟨z, hz⟩
    obtain ⟨d, ds, hd⟩ := List.exists_cons_of_ne_nil hx.digits_ne_nil
    have digit : d.isDigit = true := hx.digits d (by rw [hd]; exact List.mem_cons_self)
    rw [Exponent.text, hd, List.append_assoc] at hz
    obtain ⟨hread, hrest⟩ := read_of_rest hz.symm
    have hdigits : r.read.2.sign.2.digits.1 ≠ [] := by
      rw [digits, takeWhile_fst, sign_of_rest hx.sign digit hrest, List.takeWhile_cons,
        digit]
      exact List.cons_ne_nil _ _
    unfold exponent at h
    rw [hread] at h
    dsimp only at h
    rw [if_pos hx.mark, if_neg hdigits] at h
    cases h

/-- What is read has the form of a numeral and ends where it stops. -/
theorem numeral_ends {n : Numeral} (h : r.numeral = .ok n r') :
    n.WellFormed ∧ n.EndsAt r'.rest := by
  have hwhole := r.digits_spec
  have hfraction := r.digits.2.fraction_spec
  have hexponent := r.digits.2.fraction.2.exponent_spec
  unfold numeral at h
  dsimp only at h
  split at h
  · cases h
  · next hne =>
    injection h with hn hr
    subst hn hr
    have hmantissa := ends_fraction hwhole.2
    refine ⟨⟨hwhole.1, fun ds hf => (hfraction.1 ds hf).1, hne, fun x hx => (hexponent.1 x hx).1⟩,
      ?_, fun hf hx => ?_, fun hx => ?_⟩
    · cases hx : r.digits.2.fraction.2.exponent.1 with
      | none =>
        rw [(hexponent.2 hx).1]
        exact hmantissa
      | some x => exact (hexponent.1 x hx).2
    · rw [(hexponent.2 hx).1, (hfraction.2 hf).1]
      exact (hfraction.2 hf).2
    · rw [(hexponent.2 hx).1]
      exact (hexponent.2 hx).2

/-- Without a numeral there is at most a point, and no digit behind it. -/
theorem numeral_fault {f : Fault} (h : r.numeral = .fault f r') :
    Ends Char.isDigit r'.rest ∧
      (f = .badNumber [] ∧ r.rest = r'.rest ∧ r'.rest.head? ≠ some '.' ∨
        f = .badNumber ['.'] ∧ r.rest = '.' :: r'.rest) := by
  have hwhole := r.digits_spec
  have happ := r.digits_append
  have hfraction := r.digits.2.fraction_spec
  have happ' := r.digits.2.fraction_append
  unfold numeral at h
  dsimp only at h
  split at h
  · next hnil =>
    injection h with hf hr
    subst hf hr
    obtain ⟨hnil, hnil'⟩ := List.append_eq_nil_iff.mp hnil
    dsimp only at hnil hnil'
    rw [hnil, List.nil_append] at happ
    refine ⟨ends_fraction hwhole.2, ?_⟩
    cases hf : r.digits.2.fraction.1 with
    | none =>
      rw [hf] at happ'
      refine .inl ⟨?_, ?_, ?_⟩
      · simp [Numeral.mantissa, Numeral.pointed, hnil]
      · rw [← happ, ← happ']
        rfl
      · rw [(hfraction.2 hf).1]
        exact (hfraction.2 hf).2
    | some ds =>
      rw [hf] at happ' hnil'
      change ds = [] at hnil'
      subst hnil'
      refine .inr ⟨?_, ?_⟩
      · simp [Numeral.mantissa, Numeral.pointed, hnil]
      · rw [← happ, ← happ']
        rfl
  · cases h

/-- The longest numeral that stands there is the one that is read. -/
theorem numeral_of_longest {n : Numeral} {z : List Char} (h : n.WellFormed)
    (longest : ∀ n' : Numeral, n'.WellFormed → n'.text <+: r.rest → n'.text.length ≤ n.text.length)
    (hrest : r.rest = n.text ++ z) : ∃ r', r.numeral = .ok n r' ∧ r'.rest = z := by
  cases hn : r.numeral with
  | ok n₀ r₀ =>
    have happ := r.numeral_append
    rw [hn] at happ
    obtain ⟨h₀, ends₀⟩ := numeral_ends hn
    rcases Numeral.eq_or_lt h₀ h ends₀ (happ.1.trans hrest) with rfl | hlt
    · rw [hrest] at happ
      exact ⟨r₀, rfl, List.append_cancel_left happ.1⟩
    · have := longest n₀ h₀ ⟨r₀.rest, happ.1⟩
      omega
  | fault f r₀ =>
    obtain ⟨d, z', digit, hbegins⟩ := n.text_begins h z
    obtain ⟨hends, ⟨-, hsame, hpoint⟩ | ⟨-, hpoint⟩⟩ := numeral_fault hn
    · rw [← hsame, hrest] at hends hpoint
      rcases hbegins with hb | hb
      · rw [hends d (by rw [hb]; rfl)] at digit
        cases digit
      · exact absurd (by rw [hb]; rfl) hpoint
    · rw [hrest] at hpoint
      rcases hbegins with hb | hb
      · rw [hb] at hpoint
        injection hpoint with hd
        rw [hd] at digit
        cases digit
      · rw [hb] at hpoint
        injection hpoint with _ hd
        rw [hends d (by rw [← hd]; rfl)] at digit
        cases digit

end Reader

end Reckoner
