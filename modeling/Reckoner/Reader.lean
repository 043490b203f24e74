/-
  Reading a text one character at a time, with characters put back.

  A `Reader` holds the characters put back, the next one first, and the text
  still ahead; it counts those taken from the text. What will be read is `rest`,
  and each operation is known by what it does to it: `read` takes its head,
  `unread` puts one on, `seek` passes a stretch of it and takes the character
  that ends the stretch, `takeWhile` leaves that one. Nothing else changes
  `rest`, so no character is lost, repeated or moved.
-/
namespace Reckoner

structure Reader where
  /-- The characters put back, the next one first. -/
  pushed : List Char
  /-- The text not yet taken. -/
  ahead : List Char
  /-- How many characters were taken from the text. -/
  taken : Nat
  deriving DecidableEq, Repr

namespace Reader

def ofText (text : List Char) : Reader := ⟨[], text, 0⟩

/-- All that is still to be read. -/
def rest (r : Reader) : List Char := r.pushed ++ r.ahead

/-- The next character, or none at the end. -/
def read (r : Reader) : Option Char × Reader :=
  match r.pushed, r.ahead with
  | c :: pushed, _ => (some c, { r with pushed })
  | [], c :: ahead => (some c, { r with ahead, taken := r.taken + 1 })
  | [], [] => (none, r)

/-- Puts a character back. To put back the end changes nothing. -/
def unread (r : Reader) : Option Char → Reader
  | none => r
  | some c => { r with pushed := c :: r.pushed }

/-- A stretch of text and the character that ended it. -/
structure Stretch where
  passed : List Char
  stop : Option Char
  reader : Reader
  deriving DecidableEq, Repr

/-- Reads on while `p` holds, and takes the first character where it fails. -/
def seek (p : Char → Bool) (r : Reader) : Stretch :=
  match r.pushed.dropWhile p with
  | c :: pushed => ⟨r.pushed.takeWhile p, some c, { r with pushed }⟩
  | [] =>
    let passed := r.ahead.takeWhile p
    match r.ahead.dropWhile p with
    | c :: ahead => ⟨r.pushed ++ passed, some c, ⟨[], ahead, r.taken + passed.length + 1⟩⟩
    | [] => ⟨r.pushed ++ passed, none, ⟨[], [], r.taken + passed.length⟩⟩

/-- The characters up to the first where `p` fails, which stays to be read. -/
def takeWhile (p : Char → Bool) (r : Reader) : List Char × Reader :=
  let found := r.seek p
  (found.passed, found.reader.unread found.stop)

/-! ## Effect on what is to be read -/

@[simp] theorem rest_ofText (text : List Char) : (ofText text).rest = text := rfl

@[simp] theorem rest_unread (r : Reader) (c : Option Char) :
    (r.unread c).rest = c.toList ++ r.rest := by
  cases c <;> rfl

theorem read_fst (r : Reader) : r.read.1 = r.rest.head? := by
  obtain ⟨pushed, ahead, taken⟩ := r
  cases pushed <;> cases ahead <;> rfl

theorem rest_read (r : Reader) : r.read.2.rest = r.rest.tail := by
  obtain ⟨pushed, ahead, taken⟩ := r
  cases pushed <;> cases ahead <;> rfl

theorem takeWhile_append_of_dropWhile_eq_nil {p : Char → Bool} {xs : List Char} (ys : List Char)
    (h : xs.dropWhile p = []) : (xs ++ ys).takeWhile p = xs ++ ys.takeWhile p := by
  induction xs with
  | nil => rfl
  | cons x xs ih =>
    rw [List.dropWhile_cons] at h
    split at h
    · next hx => simp [hx, ih h]
    · simp at h

theorem dropWhile_append_of_dropWhile_eq_nil {p : Char → Bool} {xs : List Char} (ys : List Char)
    (h : xs.dropWhile p = []) : (xs ++ ys).dropWhile p = ys.dropWhile p := by
  induction xs with
  | nil => rfl
  | cons x xs ih =>
    rw [List.dropWhile_cons] at h
    split at h
    · next hx => simp [hx, ih h]
    · simp at h

theorem takeWhile_append_of_dropWhile_eq_cons {p : Char → Bool} {xs zs : List Char} {c : Char}
    (ys : List Char) (h : xs.dropWhile p = c :: zs) :
    (xs ++ ys).takeWhile p = xs.takeWhile p := by
  induction xs with
  | nil => simp at h
  | cons x xs ih =>
    rw [List.dropWhile_cons] at h
    split at h
    · next hx => simp [hx, ih h]
    · next hx => simp [hx]

theorem dropWhile_append_of_dropWhile_eq_cons {p : Char → Bool} {xs zs : List Char} {c : Char}
    (ys : List Char) (h : xs.dropWhile p = c :: zs) :
    (xs ++ ys).dropWhile p = c :: zs ++ ys := by
  induction xs with
  | nil => simp at h
  | cons x xs ih =>
    rw [List.dropWhile_cons] at h
    split at h
    · next hx => simp [hx, ih h]
    · next hx => simp [hx, ← h]

/-- `seek` on what is to be read: it passes the characters where `p` holds, and
    takes one more. -/
theorem seek_spec (p : Char → Bool) (r : Reader) :
    (r.seek p).passed = r.rest.takeWhile p ∧
      (r.seek p).stop = (r.rest.dropWhile p).head? ∧
      (r.seek p).reader.rest = (r.rest.dropWhile p).tail := by
  unfold seek rest
  split
  · next c pushed h =>
    rw [takeWhile_append_of_dropWhile_eq_cons _ h, dropWhile_append_of_dropWhile_eq_cons _ h]
    exact ⟨rfl, rfl, rfl⟩
  · next h =>
    rw [takeWhile_append_of_dropWhile_eq_nil _ h, dropWhile_append_of_dropWhile_eq_nil _ h]
    dsimp only
    split <;> next h' => simp [h']

@[simp] theorem seek_passed (p : Char → Bool) (r : Reader) :
    (r.seek p).passed = r.rest.takeWhile p := (seek_spec p r).1

@[simp] theorem seek_stop (p : Char → Bool) (r : Reader) :
    (r.seek p).stop = (r.rest.dropWhile p).head? := (seek_spec p r).2.1

@[simp] theorem rest_seek (p : Char → Bool) (r : Reader) :
    (r.seek p).reader.rest = (r.rest.dropWhile p).tail := (seek_spec p r).2.2

@[simp] theorem takeWhile_fst (p : Char → Bool) (r : Reader) :
    (r.takeWhile p).1 = r.rest.takeWhile p := seek_passed p r

@[simp] theorem rest_takeWhile (p : Char → Bool) (r : Reader) :
    (r.takeWhile p).2.rest = r.rest.dropWhile p := by
  simp only [takeWhile, rest_unread, seek_stop, rest_seek]
  cases r.rest.dropWhile p <;> rfl

theorem length_pushed_unread_le {r : Reader} (h : r.pushed = []) (c : Option Char) :
    (r.unread c).pushed.length ≤ 1 := by
  cases c with
  | none => exact h ▸ Nat.zero_le 1
  | some c => exact Nat.le_of_eq (congrArg (·.length + 1) h)

/-- A stretch ends among the characters put back, and those below are left; or none is. -/
theorem pushed_seek (p : Char → Bool) (r : Reader) :
    ((r.seek p).reader.unread (r.seek p).stop).pushed <:+ r.pushed ∨
      (r.seek p).reader.pushed = [] := by
  unfold seek
  split
  · next c left hpushed =>
    have suffix : c :: left <:+ r.pushed := hpushed ▸ List.dropWhile_suffix p
    exact .inl suffix
  · right
    dsimp only
    split <;> rfl

/-- The stretch, its end and what follows are what was to be read. -/
theorem append_seek (p : Char → Bool) (r : Reader) :
    (r.seek p).passed ++ (r.seek p).stop.toList ++ (r.seek p).reader.rest = r.rest := by
  rw [seek_passed, seek_stop, rest_seek, List.append_assoc]
  conv => rhs; rw [← List.takeWhile_append_dropWhile (p := p) (l := r.rest)]
  cases r.rest.dropWhile p <;> rfl

end Reader

end Reckoner
