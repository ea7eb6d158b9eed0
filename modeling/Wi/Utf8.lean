import Mathlib

/-! Text as a list of Unicode scalars, addressed by UTF-8 byte offsets. Offsets that
fall inside a scalar round down to the scalar's first byte. Nothing here depends on
what the text is stored for. -/
namespace Wi

abbrev Text := List Char

variable {text a b : Text}

namespace Utf8

/-- Number of bytes of the UTF-8 encoding. -/
def bytes : Text → Nat
  | [] => 0
  | c :: cs => c.utf8Size + bytes cs

/-- The longest prefix of at most `n` bytes. -/
def take : Nat → Text → Text
  | _, [] => []
  | n, c :: cs => if c.utf8Size ≤ n then c :: take (n - c.utf8Size) cs else []

/-- What `take n` leaves. -/
def drop : Nat → Text → Text
  | _, [] => []
  | n, c :: cs => if c.utf8Size ≤ n then drop (n - c.utf8Size) cs else c :: cs

/-- `n` is the offset of a scalar of the text, or its length. -/
def isBoundary (n : Nat) (text : Text) : Bool := bytes (take n text) == n

/-- The source's `while !text.is_char_boundary(end) { end -= 1; }`. -/
def floorBoundary (text : Text) : Nat → Nat
  | 0 => 0
  | n + 1 => if isBoundary (n + 1) text then n + 1 else floorBoundary text n

@[simp] theorem bytes_nil : bytes [] = 0 := rfl
@[simp] theorem bytes_cons : bytes (c :: cs) = c.utf8Size + bytes cs := rfl
@[simp] theorem take_nil : take n [] = [] := by cases n <;> rfl
@[simp] theorem drop_nil : drop n [] = [] := by cases n <;> rfl

@[simp] theorem bytes_append (a b : Text) : bytes (a ++ b) = bytes a + bytes b := by
  induction a with
  | nil => simp
  | cons c cs ih => simp [ih, Nat.add_assoc]

@[simp] theorem bytes_eq_zero : bytes text = 0 ↔ text = [] := by
  cases text with
  | nil => simp
  | cons c cs => have := c.utf8Size_pos; simp; omega

theorem bytes_pos : 0 < bytes text ↔ text ≠ [] := by
  rw [Nat.pos_iff_ne_zero, Ne, bytes_eq_zero]

@[simp] theorem take_append_drop (n : Nat) (text : Text) : take n text ++ drop n text = text := by
  induction text generalizing n with
  | nil => simp
  | cons c cs ih => by_cases h : c.utf8Size ≤ n <;> simp [take, drop, h, ih]

theorem bytes_take_add_drop (n : Nat) (text : Text) :
    bytes (take n text) + bytes (drop n text) = bytes text := by
  rw [← bytes_append, take_append_drop]

theorem bytes_take_le (n : Nat) (text : Text) : bytes (take n text) ≤ n := by
  induction text generalizing n with
  | nil => simp
  | cons c cs ih =>
    by_cases h : c.utf8Size ≤ n
    · have := ih (n - c.utf8Size)
      simp [take, h]; omega
    · simp [take, h]

theorem take_of_le (fits : bytes text ≤ n) : take n text = text := by
  induction text generalizing n with
  | nil => simp
  | cons c cs ih =>
    simp only [bytes_cons] at fits
    rw [take, if_pos (by omega), ih (by omega)]

theorem drop_of_le (fits : bytes text ≤ n) : drop n text = [] := by
  have := bytes_take_add_drop n text
  rw [take_of_le fits] at this
  exact bytes_eq_zero.1 (by omega)

@[simp] theorem take_zero (text : Text) : take 0 text = [] :=
  bytes_eq_zero.1 (Nat.le_zero.1 (bytes_take_le 0 text))

@[simp] theorem drop_zero (text : Text) : drop 0 text = text := by
  have := take_append_drop 0 text
  simpa using this

/-- The prefix is as long as possible: one more scalar would not fit. -/
theorem take_maximal {c : Char} {cs : Text} (rest : drop n text = c :: cs) :
    n < bytes (take n text) + c.utf8Size := by
  induction text generalizing n with
  | nil => simp at rest
  | cons d ds ih =>
    by_cases h : d.utf8Size ≤ n
    · simp only [drop, h, if_true] at rest
      have := ih rest
      simp [take, h]; omega
    · simp only [drop, h, if_false, List.cons.injEq] at rest
      obtain ⟨rfl, rfl⟩ := rest
      simp [take, h]; omega

theorem take_append_of_lt (past : n < bytes a) : take n (a ++ b) = take n a := by
  induction a generalizing n with
  | nil => simp at past
  | cons c cs ih =>
    simp only [bytes_cons] at past
    by_cases h : c.utf8Size ≤ n
    · simp [take, h, ih (n := n - c.utf8Size) (by omega)]
    · simp [take, h]

theorem drop_append_of_lt (past : n < bytes a) : drop n (a ++ b) = drop n a ++ b := by
  induction a generalizing n with
  | nil => simp at past
  | cons c cs ih =>
    simp only [bytes_cons] at past
    by_cases h : c.utf8Size ≤ n
    · simp [drop, h, ih (n := n - c.utf8Size) (by omega)]
    · simp [drop, h]

theorem take_append_of_le (fits : bytes a ≤ n) : take n (a ++ b) = a ++ take (n - bytes a) b := by
  induction a generalizing n with
  | nil => simp
  | cons c cs ih =>
    simp only [bytes_cons] at fits
    have h : c.utf8Size ≤ n := by omega
    simp [take, h, ih (n := n - c.utf8Size) (by omega), Nat.sub_sub]

theorem drop_append_of_le (fits : bytes a ≤ n) : drop n (a ++ b) = drop (n - bytes a) b := by
  induction a generalizing n with
  | nil => simp
  | cons c cs ih =>
    simp only [bytes_cons] at fits
    have h : c.utf8Size ≤ n := by omega
    simp [drop, h, ih (n := n - c.utf8Size) (by omega), Nat.sub_sub]

@[simp] theorem take_append_bytes (a b : Text) : take (bytes a) (a ++ b) = a := by
  simp [take_append_of_le (Nat.le_refl _)]

@[simp] theorem drop_append_bytes (a b : Text) : drop (bytes a) (a ++ b) = b := by
  simp [drop_append_of_le (Nat.le_refl _)]

theorem take_bytes_take (n : Nat) (text : Text) : take (bytes (take n text)) text = take n text := by
  have split := take_append_bytes (take n text) (drop n text)
  rwa [take_append_drop] at split

theorem drop_bytes_take (n : Nat) (text : Text) : drop (bytes (take n text)) text = drop n text := by
  have split := drop_append_bytes (take n text) (drop n text)
  rwa [take_append_drop] at split

theorem take_min_bytes (n : Nat) (text : Text) : take (min n (bytes text)) text = take n text := by
  rcases Nat.le_total n (bytes text) with below | above
  · rw [Nat.min_eq_left below]
  · rw [Nat.min_eq_right above, take_of_le (Nat.le_refl _), take_of_le above]

theorem isBoundary_iff : isBoundary n text = true ↔ ∃ a b, text = a ++ b ∧ bytes a = n := by
  constructor
  · intro h
    exact ⟨take n text, drop n text, by simp, by simpa [isBoundary] using h⟩
  · rintro ⟨a, b, rfl, rfl⟩
    simp [isBoundary]

/-- `take` is determined by what it keeps and the scalar that no longer fits. -/
theorem take_eq (fits : bytes a ≤ n) (next : ∀ c cs, b = c :: cs → n < bytes a + c.utf8Size) :
    take n (a ++ b) = a := by
  rw [take_append_of_le fits]
  cases b with
  | nil => simp
  | cons c cs =>
    have := next c cs rfl
    simp [take, show ¬ c.utf8Size ≤ n - bytes a by omega]

theorem floorBoundary_eq (text : Text) (n : Nat) : floorBoundary text n = bytes (take n text) := by
  induction n with
  | zero => simp [floorBoundary]
  | succ n ih =>
    have le := bytes_take_le (n + 1) text
    by_cases h : bytes (take (n + 1) text) = n + 1
    · simp [floorBoundary, isBoundary, h]
    · -- No boundary at `n + 1`, so the longest prefix already fits into `n` bytes.
      have same : take n text = take (n + 1) text := by
        conv_lhs => rw [← take_append_drop (n + 1) text]
        refine take_eq (by omega) fun c cs rest => ?_
        have := take_maximal rest
        omega
      simp [floorBoundary, isBoundary, h, ih, same]

end Utf8
end Wi
