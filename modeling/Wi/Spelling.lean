import Wi.Utf8

/-! Spellings of numbers whose text order is the order of what they spell: fixed-width
hexadecimal, and concatenations of words none of which is a proper start of another. -/
namespace Wi.Spelling
open Utf8

section Lexicographic
variable {α : Type}

/-- Two words that differ at a common position; what follows no longer matters. -/
inductive Apart : List α → List α → Prop where
  | head (h : x ≠ y) : Apart (x :: a) (y :: b)
  | tail (h : Apart a b) : Apart (x :: a) (x :: b)

theorem Apart.append {a b : List α} (h : Apart a b) (c d : List α) : Apart (a ++ c) (b ++ d) := by
  induction h with
  | head h => exact .head h
  | tail _ ih => exact .tail ih

theorem Apart.ne {a b : List α} (h : Apart a b) : a ≠ b := by
  induction h with
  | head h => simp [h]
  | tail _ ih => simp [ih]

theorem apart_of_length {a b : List α} (length : a.length = b.length) (h : a ≠ b) : Apart a b := by
  induction a generalizing b with
  | nil => cases b <;> simp_all
  | cons x a ih =>
    cases b with
    | nil => simp at length
    | cons y b =>
      by_cases head : x = y
      · subst head
        exact .tail (ih (by simpa using length) (by simpa using h))
      · exact .head head

variable [LinearOrder α]

theorem append_lt_append_left (a b c : List α) : a ++ b < a ++ c ↔ b < c := by
  induction a with
  | nil => simp
  | cons x a ih => simp [ih]

theorem Apart.append_lt {a b : List α} (h : Apart a b) (c d : List α) :
    a ++ c < b ++ d ↔ a < b := by
  induction h with
  | head h => simp [List.cons_lt_cons_iff, h]
  | tail _ ih => simp [ih]

/-- Order of two concatenations whose first words are equal or apart. -/
theorem append_lt_append_iff {a b : List α} (code : a ≠ b → Apart a b) (c d : List α) :
    a ++ c < b ++ d ↔ a < b ∨ a = b ∧ c < d := by
  by_cases h : a = b
  · subst h; simp [append_lt_append_left]
  · simp [h, (code h).append_lt]

theorem append_eq_append_iff_of_apart {a b : List α} (code : a ≠ b → Apart a b) (c d : List α) :
    a ++ c = b ++ d ↔ a = b ∧ c = d := by
  constructor
  · intro same
    by_cases h : a = b
    · subst h; simpa using same
    · exact absurd same ((code h).append c d).ne
  · rintro ⟨rfl, rfl⟩; rfl

end Lexicographic

def digit (value : Nat) : Char := Nat.digitChar value

/-- Lowercase hexadecimal of a given width, most significant digit first. -/
def hexadecimal : Nat → Nat → Text
  | 0, _ => []
  | width + 1, value => hexadecimal width (value / 16) ++ [digit (value % 16)]

@[simp] theorem length_hexadecimal (width value : Nat) : (hexadecimal width value).length = width := by
  induction width generalizing value with
  | zero => rfl
  | succ width ih => simp [hexadecimal, ih]

theorem digit_lt_iff : ∀ a < 16, ∀ b < 16, (digit a < digit b ↔ a < b) := by decide

theorem digit_injective (ha : a < 16) (hb : b < 16) (same : digit a = digit b) : a = b := by
  have left := digit_lt_iff a ha b hb
  have right := digit_lt_iff b hb a ha
  rw [same] at left right
  simp only [lt_irrefl, false_iff] at left right
  omega

theorem hexadecimal_injective {a b : Nat} (ha : a < 16 ^ width) (hb : b < 16 ^ width)
    (same : hexadecimal width a = hexadecimal width b) : a = b := by
  induction width generalizing a b with
  | zero => simp at ha hb; omega
  | succ width ih =>
    simp only [hexadecimal] at same
    have split := List.append_inj same (by simp)
    have high := ih (a := a / 16) (b := b / 16) (by rw [pow_succ] at ha; omega)
      (by rw [pow_succ] at hb; omega) split.1
    have low := digit_injective (Nat.mod_lt a (by decide)) (Nat.mod_lt b (by decide))
      (by simpa using split.2)
    omega

theorem hexadecimal_apart (a b width : Nat) (h : hexadecimal width a ≠ hexadecimal width b) :
    Apart (hexadecimal width a) (hexadecimal width b) :=
  apart_of_length (by simp) h

/-- Fixed-width hexadecimal preserves and reflects the order. -/
theorem hexadecimal_lt_iff {a b : Nat} (ha : a < 16 ^ width) (hb : b < 16 ^ width) :
    hexadecimal width a < hexadecimal width b ↔ a < b := by
  induction width generalizing a b with
  | zero => simp at ha hb; simp [hexadecimal, ha, hb]
  | succ width ih =>
    have ha' : a / 16 < 16 ^ width := by rw [pow_succ] at ha; omega
    have hb' : b / 16 < 16 ^ width := by rw [pow_succ] at hb; omega
    rw [hexadecimal, hexadecimal,
      append_lt_append_iff (hexadecimal_apart (a / 16) (b / 16) width), ih ha' hb']
    have low : [digit (a % 16)] < [digit (b % 16)] ↔ a % 16 < b % 16 := by
      rw [List.cons_lt_cons_iff]
      simp [digit_lt_iff (a % 16) (Nat.mod_lt _ (by decide)) (b % 16) (Nat.mod_lt _ (by decide))]
    have high : hexadecimal width (a / 16) = hexadecimal width (b / 16) ↔ a / 16 = b / 16 :=
      ⟨hexadecimal_injective ha' hb', fun h => by rw [h]⟩
    rw [low, high]
    omega

/-- Decimal without leading zeros. -/
def decimal (value : Nat) : Text := Nat.toDigits 10 value

theorem decimal_injective (same : decimal a = decimal b) : a = b := by
  have := congrArg (Nat.ofDigitChars 10 · 0) same
  simpa [decimal] using this

theorem bytes_of_ascii {text : Text} (ascii : ∀ c ∈ text, c.utf8Size = 1) :
    bytes text = text.length := by
  induction text with
  | nil => rfl
  | cons c cs ih =>
    have head := ascii c (by simp)
    have tail := ih fun d h => ascii d (by simp [h])
    simp [head, tail, Nat.add_comm]

theorem utf8Size_digitChar : ∀ value < 16, (Nat.digitChar value).utf8Size = 1 := by decide

theorem bytes_hexadecimal (width value : Nat) : bytes (hexadecimal width value) = width := by
  induction width generalizing value with
  | zero => rfl
  | succ width ih =>
    simp [hexadecimal, ih, digit, utf8Size_digitChar (value % 16) (Nat.mod_lt _ (by decide))]

theorem utf8Size_of_isDigit {c : Char} (h : c.isDigit = true) : c.utf8Size = 1 := by
  simp only [Char.isDigit, Bool.and_eq_true, decide_eq_true_eq] at h
  unfold Char.utf8Size
  rw [if_pos]
  exact UInt32.le_iff_toNat_le.2 (Nat.le_trans (UInt32.le_iff_toNat_le.1 h.2) (by decide))

theorem bytes_decimal (value : Nat) : bytes (decimal value) = (decimal value).length := by
  refine bytes_of_ascii fun c member => utf8Size_of_isDigit ?_
  exact Nat.isDigit_of_mem_toDigits (by decide) (by decide) member

theorem decimal_ne_nil (value : Nat) : decimal value ≠ [] := Nat.toDigits_ne_nil

theorem bytes_decimal_le_iff (positive : 0 < width) :
    bytes (decimal value) ≤ width ↔ value < 10 ^ width := by
  rw [bytes_decimal]
  exact Nat.length_toDigits_le_iff (by decide) positive

theorem bytes_decimal_pos (value : Nat) : 0 < bytes (decimal value) :=
  bytes_pos.2 (decimal_ne_nil value)

/-- UTF-8 bytes of a text. -/
def utf8 (text : Text) : List UInt8 := text.flatMap String.utf8EncodeChar

theorem length_utf8 (text : Text) : (utf8 text).length = bytes text := by
  induction text with
  | nil => rfl
  | cons c cs ih =>
    rw [utf8, List.flatMap_cons, List.length_append, String.length_utf8EncodeChar, bytes_cons, ← ih, utf8]

/-- The URL-safe alphabet: `A`-`Z`, `a`-`z`, `0`-`9`, `-` and `_`. -/
def alphabet (value : Nat) : Char :=
  if value < 26 then Char.ofNat (0x41 + value)
  else if value < 52 then Char.ofNat (0x61 + (value - 26))
  else if value < 62 then Char.ofNat (0x30 + (value - 52))
  else if value = 62 then '-'
  else '_'

/-- The engine of the `base64` crate for the URL-safe alphabet without padding. -/
class Base64 where
  encode : List UInt8 → Text
  length_encode : ∀ input, (encode input).length = (4 * input.length + 2) / 3
  letters : ∀ input, ∀ c ∈ encode input, ∃ value < 64, c = alphabet value

def sextet (value : Nat) : Char := alphabet (value % 64)

/-- Four characters for every three bytes. -/
def base64 : List UInt8 → Text
  | [] => []
  | [a] => [sextet (a.toNat / 4), sextet (a.toNat * 16)]
  | [a, b] => [sextet (a.toNat / 4), sextet (a.toNat * 16 + b.toNat / 16), sextet (b.toNat * 4)]
  | a :: b :: c :: rest =>
    sextet (a.toNat / 4) :: sextet (a.toNat * 16 + b.toNat / 16) ::
      sextet (b.toNat * 4 + c.toNat / 64) :: sextet c.toNat :: base64 rest

@[reducible] def Base64.written : Base64 where
  encode := base64
  length_encode input := by
    induction input using base64.induct with
    | case1 | case2 | case3 => simp [base64]
    | case4 a b c rest ih =>
      simp only [base64, List.length_cons, ih]
      omega
  letters input := by
    have letter (value : Nat) : ∃ index < 64, sextet value = alphabet index :=
      ⟨_, Nat.mod_lt _ (by decide), rfl⟩
    induction input using base64.induct with
    | case1 => simp [base64]
    | case2 | case3 => simp [base64, letter]
    | case4 a b c rest ih =>
      simp only [base64, List.mem_cons, forall_eq_or_imp, letter, true_and]
      exact ih

end Wi.Spelling
