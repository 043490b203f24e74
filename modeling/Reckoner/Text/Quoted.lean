/-
  Text in quotes, for a message that shows what was found.

  Single quotes stand around the text, or double quotes when it holds a single
  one and no double one. Inside, the quote in use and the backslash have a
  backslash before them, tab, line feed and carriage return go by letter, and
  every other unprintable character by number. So a quoted text is printable
  throughout (`isPrintable_of_mem_quoted`) and takes one line.
-/
import Reckoner.Text.Printable

namespace Reckoner.Text

/-- The last `width` digits of a number in base sixteen. -/
def hexadecimal : Nat → Nat → List Char
  | 0, _ => []
  | width + 1, n => hexadecimal width (n / 16) ++ [Nat.digitChar (n % 16)]

/-- A character by its number: two, four or eight digits, as few as hold it. -/
def numbered (c : Char) : List Char :=
  if c.toNat < 0x100 then '\\' :: 'x' :: hexadecimal 2 c.toNat
  else if c.toNat < 0x10000 then '\\' :: 'u' :: hexadecimal 4 c.toNat
  else '\\' :: 'U' :: hexadecimal 8 c.toNat

/-- A character as it stands between two `quote`s. -/
def escaped (quote c : Char) : List Char :=
  if c = quote ∨ c = '\\' then ['\\', c]
  else if c = '\t' then ['\\', 't']
  else if c = '\n' then ['\\', 'n']
  else if c = '\r' then ['\\', 'r']
  else if isPrintable c then [c]
  else numbered c

/-- The quote to put around a text: double if it holds a single one and no double one. -/
def quoteFor (cs : List Char) : Char :=
  if '\'' ∈ cs ∧ '"' ∉ cs then '"' else '\''

/-- A text in quotes. -/
def quoted (cs : List Char) : List Char :=
  let quote := quoteFor cs
  quote :: cs.flatMap (escaped quote) ++ [quote]

/-! ## A quoted text is printable -/

theorem isPrintable_digitChar : ∀ n : Fin 16, isPrintable (Nat.digitChar n) = true := by
  decide +kernel

theorem isPrintable_of_mem_hexadecimal {width n : Nat} {c : Char} (h : c ∈ hexadecimal width n) :
    isPrintable c = true := by
  induction width generalizing n with
  | zero => simp [hexadecimal] at h
  | succ width ih =>
    rcases List.mem_append.mp h with h | h
    · exact ih h
    · rw [List.mem_singleton.mp h]
      exact isPrintable_digitChar ⟨n % 16, Nat.mod_lt n (by decide)⟩

/-- The characters that follow a backslash are printable, as it is itself. -/
theorem isPrintable_mark : ∀ m ∈ ['\\', 't', 'n', 'r', 'x', 'u', 'U'], isPrintable m = true :=
  List.all_eq_true.mp (by decide +kernel)

theorem numbered_eq (c : Char) :
    ∃ m ∈ ['x', 'u', 'U'], ∃ width, numbered c = '\\' :: m :: hexadecimal width c.toNat := by
  unfold numbered
  split
  · exact ⟨'x', by simp, 2, rfl⟩
  · split
    · exact ⟨'u', by simp, 4, rfl⟩
    · exact ⟨'U', by simp, 8, rfl⟩

theorem isPrintable_of_mem_numbered {c d : Char} (h : d ∈ numbered c) : isPrintable d = true := by
  obtain ⟨m, hm, width, he⟩ := numbered_eq c
  rw [he, List.mem_cons, List.mem_cons] at h
  rcases h with rfl | rfl | h
  · exact isPrintable_mark _ (by simp)
  · exact isPrintable_mark _ (by simp_all)
  · exact isPrintable_of_mem_hexadecimal h

theorem isPrintable_of_mem_escaped {quote c d : Char} (hq : isPrintable quote = true)
    (h : d ∈ escaped quote c) : isPrintable d = true := by
  have pair : ∀ m, isPrintable m = true → d ∈ ['\\', m] → isPrintable d = true := by
    intro m hm hd
    rcases List.mem_cons.mp hd with rfl | hd
    · exact isPrintable_mark _ (by simp)
    · exact List.mem_singleton.mp hd ▸ hm
  unfold escaped at h
  split at h
  · next hc =>
    refine pair c ?_ h
    rcases hc with rfl | rfl
    · exact hq
    · exact isPrintable_mark _ (by simp)
  split at h
  · exact pair 't' (isPrintable_mark _ (by simp)) h
  split at h
  · exact pair 'n' (isPrintable_mark _ (by simp)) h
  split at h
  · exact pair 'r' (isPrintable_mark _ (by simp)) h
  split at h
  · next hc => exact List.mem_singleton.mp h ▸ hc
  · exact isPrintable_of_mem_numbered h

/-- A quoted text has printable characters only. -/
theorem isPrintable_of_mem_quoted {cs : List Char} {c : Char} (h : c ∈ quoted cs) :
    isPrintable c = true := by
  have hq : isPrintable (quoteFor cs) = true := by
    unfold quoteFor
    split <;> decide +kernel
  simp only [quoted, List.cons_append, List.mem_cons, List.mem_append, List.mem_flatMap,
    List.not_mem_nil, or_false] at h
  rcases h with rfl | ⟨d, -, hd⟩ | rfl
  · exact hq
  · exact isPrintable_of_mem_escaped hq hd
  · exact hq

end Reckoner.Text
