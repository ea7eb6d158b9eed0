import Wi.OrderKey

/-! Printed order keys: what the parser accepts is exactly what is printed, and the keys sort as
the bytes of their printed forms. -/
namespace Wi
open Spelling Utf8

def isHexDigit (c : Char) : Bool := c.isDigit || (decide ('a' ≤ c) && decide (c ≤ 'f'))

def hexDigit (c : Char) : Nat := if c.isDigit then c.toNat - '0'.toNat else c.toNat - 'a'.toNat + 10

/-- `u64::from_str_radix(value, 16)` of lowercase digits. -/
def hexValue (value : Text) : Nat := value.foldl (fun sum c => sum * 16 + hexDigit c) 0

def parseHex (value : Text) : Option UInt64 :=
  if bytes value = 16 ∧ value.all isHexDigit then some (UInt64.ofNat (hexValue value)) else none

def parseComponent (value : Text) : Option (Option UInt64) :=
  if value = ['0'] then some none
  else match value with
    | '1' :: digits => (parseHex digits).map some
    | _ => none

def FieldRank.ofCode (code : UInt64) : Option FieldRank :=
  match code.toNat with
  | 0 => some .summary
  | 1 => some .fallback
  | 2 => some .content
  | 3 => some .functionName
  | 4 => some .functionArguments
  | 5 => some .toolName
  | 6 => some .toolOutput
  | 7 => some .unsupported
  | 8 => some .notice
  | _ => none

/-- `OrderKey::from_str`: five parts, the second of which is the group of the last. -/
def OrderKey.parse (value : Text) : Option OrderKey :=
  match value.splitOn ':' with
  | [output, group, summary, content, rank] => do
    let output ← parseComponent output
    let group ← parseHex group
    let summary ← parseComponent summary
    let content ← parseComponent content
    let rank ← FieldRank.ofCode (← parseHex rank)
    if group.toNat ≠ rank.group then none else some ⟨output, rank, summary, content⟩
  | _ => none

/-! ### The parts -/

theorem isHexDigit_digit : ∀ value < 16, isHexDigit (digit value) = true := by decide

theorem hexDigit_digit : ∀ value < 16, hexDigit (digit value) = value := by decide

theorem ascii_forall {P : Char → Prop} (each : ∀ code < 128, P (Char.ofNat code)) {c : Char} (ascii : c.toNat < 128) : P c := by
  have holds := each c.toNat ascii
  rwa [Char.ofNat_toNat] at holds

theorem ascii_of_isHexDigit {c : Char} (hex : isHexDigit c = true) : c.toNat < 128 := by
  simp only [isHexDigit, Char.isDigit, Bool.or_eq_true, Bool.and_eq_true, decide_eq_true_eq] at hex
  rcases hex with ⟨_, high⟩ | ⟨_, high⟩
  · exact Nat.lt_of_le_of_lt (UInt32.le_iff_toNat_le.1 high) (by decide)
  · exact Nat.lt_of_le_of_lt (UInt32.le_iff_toNat_le.1 high) (by decide)

theorem digit_of_isHexDigit {c : Char} (hex : isHexDigit c = true) : hexDigit c < 16 ∧ digit (hexDigit c) = c := by
  refine ascii_forall (P := fun c => isHexDigit c = true → hexDigit c < 16 ∧ digit (hexDigit c) = c) ?_ (ascii_of_isHexDigit hex) hex
  decide

theorem hexValue_append (value : Text) (c : Char) : hexValue (value ++ [c]) = hexValue value * 16 + hexDigit c := by
  simp [hexValue]

theorem hexValue_hexadecimal (fits : value < 16 ^ width) : hexValue (hexadecimal width value) = value := by
  induction width generalizing value with
  | zero =>
    rw [pow_zero] at fits
    obtain rfl : value = 0 := by omega
    rfl
  | succ width ih =>
    rw [hexadecimal, hexValue_append, ih (by rw [pow_succ] at fits; omega), hexDigit_digit _ (Nat.mod_lt _ (by decide))]
    omega

theorem hexadecimal_hexValue (value : Text) (digits : value.all isHexDigit = true) :
    hexValue value < 16 ^ value.length ∧ hexadecimal value.length (hexValue value) = value := by
  induction value using List.reverseRecOn with
  | nil => exact ⟨by decide, rfl⟩
  | append_singleton value c ih =>
    rw [List.all_append, Bool.and_eq_true] at digits
    obtain ⟨fits, same⟩ := ih digits.1
    obtain ⟨small, spelled⟩ := digit_of_isHexDigit (c := c) (by simpa using digits.2)
    rw [hexValue_append, List.length_append, List.length_singleton, pow_succ, hexadecimal]
    have high : (hexValue value * 16 + hexDigit c) / 16 = hexValue value := by omega
    have low : (hexValue value * 16 + hexDigit c) % 16 = hexDigit c := by omega
    rw [high, low, same, spelled]
    exact ⟨by omega, rfl⟩

theorem all_hexadecimal (width value : Nat) : (hexadecimal width value).all isHexDigit = true := by
  induction width generalizing value with
  | zero => rfl
  | succ width ih => simp [hexadecimal, ih, isHexDigit_digit (value % 16) (Nat.mod_lt _ (by decide))]

theorem bytes_of_hexDigits {value : Text} (digits : value.all isHexDigit = true) : bytes value = value.length := by
  have same := (hexadecimal_hexValue value digits).2
  rw [← same, bytes_hexadecimal, same]

theorem parseHex_eq_some {text : Text} {value : UInt64} : parseHex text = some value ↔ text = hex value.toNat := by
  unfold parseHex
  constructor
  · intro parsed
    split at parsed
    · rename_i accepted
      obtain ⟨fits, same⟩ := hexadecimal_hexValue text accepted.2
      rw [← bytes_of_hexDigits accepted.2, accepted.1] at fits same
      cases parsed
      rw [UInt64.toNat_ofNat_of_lt' (Nat.lt_of_lt_of_eq fits (by decide))]
      exact same.symm
    · cases parsed
  · rintro rfl
    rw [if_pos ⟨bytes_hexadecimal 16 _, all_hexadecimal 16 _⟩, hex, hexValue_hexadecimal (UInt64.toNat_lt_hex value)]
    simp

theorem parseComponent_eq_some {text : Text} {index : Option UInt64} :
    parseComponent text = some index ↔ text = component index := by
  unfold parseComponent
  constructor
  · intro parsed
    split at parsed
    · cases parsed
      assumption
    · split at parsed
      · obtain ⟨value, found, rfl⟩ := Option.map_eq_some_iff.1 parsed
        rw [parseHex_eq_some.1 found]
        rfl
      · cases parsed
  · rintro rfl
    cases index with
    | none => rfl
    | some value =>
      have found : parseHex (hexadecimal 16 value.toNat) = some value := parseHex_eq_some.2 rfl
      simp [component, found]

theorem FieldRank.ofCode_eq_some {code : UInt64} {rank : FieldRank} : ofCode code = some rank ↔ code.toNat = rank.code := by
  unfold ofCode
  constructor
  · intro found
    split at found <;> cases found <;> assumption
  · intro same
    rw [same]
    cases rank <;> rfl

theorem isHexDigit_ne_colon {c : Char} (digit : isHexDigit c = true) : c ≠ ':' := by
  rintro rfl
  exact absurd digit (by decide)

theorem colon_notMem_hex (value : Nat) : ':' ∉ hex value := fun member =>
  isHexDigit_ne_colon (List.all_eq_true.1 (all_hexadecimal 16 value) _ member) rfl

theorem colon_notMem_component (index : Option UInt64) : ':' ∉ component index := by
  cases index with
  | none => decide
  | some value =>
    rw [component, List.mem_cons, not_or]
    exact ⟨by decide, colon_notMem_hex value.toNat⟩

namespace OrderKey

/-- The printed parts of a key. -/
def parts (key : OrderKey) : List Text :=
  [component key.output, hex key.rank.group, component key.summary, component key.content, hex key.rank.code]

theorem spelling_eq (key : OrderKey) : key.spelling = [':'].intercalate key.parts := by
  simp [spelling, parts, List.intercalate]

theorem splitOn_spelling (key : OrderKey) : key.spelling.splitOn ':' = key.parts := by
  rw [spelling_eq]
  refine List.splitOn_intercalate _ ?_ (List.cons_ne_nil _ _)
  simp only [parts, List.mem_cons, List.not_mem_nil, or_false, forall_eq_or_imp, forall_eq]
  exact ⟨colon_notMem_component _, colon_notMem_hex _, colon_notMem_component _, colon_notMem_component _, colon_notMem_hex _⟩

theorem parse_eq_some {text : Text} {key : OrderKey} : parse text = some key ↔ text = key.spelling := by
  constructor
  · intro parsed
    unfold parse at parsed
    split at parsed
    · rename_i output group summary content rank split
      simp only [Option.bind_eq_bind, Option.bind_eq_some_iff] at parsed
      obtain ⟨output', outputParsed, group', groupParsed, summary', summaryParsed, content', contentParsed, code, codeParsed, rank',
        ranked, kept⟩ := parsed
      split at kept
      · cases kept
      · rename_i grouped
        cases kept
        have joined : [':'].intercalate (text.splitOn ':') = text := List.intercalate_splitOn ':'
        rw [spelling_eq, ← joined, split, parts, parseComponent_eq_some.1 outputParsed,
          parseHex_eq_some.1 groupParsed, parseComponent_eq_some.1 summaryParsed, parseComponent_eq_some.1 contentParsed,
          parseHex_eq_some.1 codeParsed, FieldRank.ofCode_eq_some.1 ranked, not_not.1 grouped]
    · cases parsed
  · rintro rfl
    have small {n : Nat} (fits : n < 16 ^ 16) : (UInt64.ofNat n).toNat = n :=
      UInt64.toNat_ofNat_of_lt' (Nat.lt_of_lt_of_eq fits (by decide))
    have group : parseHex (hex key.rank.group) = some (UInt64.ofNat key.rank.group) := by
      rw [parseHex_eq_some, small key.rank.group_lt]
    have code : parseHex (hex key.rank.code) = some (UInt64.ofNat key.rank.code) := by
      rw [parseHex_eq_some, small key.rank.code_lt]
    have ranked : FieldRank.ofCode (UInt64.ofNat key.rank.code) = some key.rank := by
      rw [FieldRank.ofCode_eq_some, small key.rank.code_lt]
    rw [parse, splitOn_spelling, parts]
    simp only [parseComponent_eq_some.2 rfl, group, code, ranked, Option.bind_eq_bind, Option.bind_some]
    rw [if_neg (not_not.2 (small key.rank.group_lt))]

end OrderKey

/-! ### Byte order -/

theorem utf8EncodeChar_ascii {c : Char} (ascii : c.toNat < 128) : String.utf8EncodeChar c = [c.toNat.toUInt8] :=
  ascii_forall (P := fun c => String.utf8EncodeChar c = [c.toNat.toUInt8]) (by decide +kernel) ascii

theorem utf8_lt_iff {a b : Text} (left : ∀ c ∈ a, c.toNat < 128) (right : ∀ c ∈ b, c.toNat < 128) :
    utf8 a < utf8 b ↔ a < b := by
  induction a generalizing b with
  | nil =>
    cases b with
    | nil => simp [utf8]
    | cons d b => simp [utf8, utf8EncodeChar_ascii (right d List.mem_cons_self)]
  | cons c a ih =>
    obtain ⟨small, rest⟩ := List.forall_mem_cons.1 left
    cases b with
    | nil => simp [utf8]
    | cons d b =>
      obtain ⟨small', rest'⟩ := List.forall_mem_cons.1 right
      have tail := ih rest rest'
      have byte {e : Char} (ascii : e.toNat < 128) : e.toNat.toUInt8.toNat = e.toNat := Nat.mod_eq_of_lt (by omega)
      have below : c.toNat.toUInt8 < d.toNat.toUInt8 ↔ c < d := by
        rw [UInt8.lt_iff_toNat_lt, byte small, byte small']
        rfl
      have same : c.toNat.toUInt8 = d.toNat.toUInt8 ↔ c = d := by
        rw [← UInt8.toNat_inj, byte small, byte small', Char.toNat_inj]
      unfold utf8 at tail
      rw [utf8, List.flatMap_cons, utf8, List.flatMap_cons, utf8EncodeChar_ascii small, utf8EncodeChar_ascii small',
        List.singleton_append, List.singleton_append, List.cons_lt_cons_iff, List.cons_lt_cons_iff, tail, below, same]

theorem ascii_hex (value : Nat) : ∀ c ∈ hex value, c.toNat < 128 := fun c member =>
  ascii_of_isHexDigit (List.all_eq_true.1 (all_hexadecimal 16 value) c member)

theorem ascii_component (index : Option UInt64) : ∀ c ∈ component index, c.toNat < 128 := by
  cases index with
  | none => simp [component]
  | some value => exact List.forall_mem_cons.2 ⟨by decide, ascii_hex value.toNat⟩

theorem ascii_append {a b : Text} (left : ∀ c ∈ a, c.toNat < 128) (right : ∀ c ∈ b, c.toNat < 128) :
    ∀ c ∈ a ++ b, c.toNat < 128 := List.forall_mem_append.2 ⟨left, right⟩

namespace OrderKey

theorem ascii_spelling (key : OrderKey) : ∀ c ∈ key.spelling, c.toNat < 128 := by
  have colon {rest : Text} (ascii : ∀ c ∈ rest, c.toNat < 128) : ∀ c ∈ ':' :: rest, c.toNat < 128 :=
    List.forall_mem_cons.2 ⟨by decide, ascii⟩
  refine ascii_append (ascii_component _) (colon ?_)
  refine ascii_append (ascii_hex _) (colon ?_)
  refine ascii_append (ascii_component _) (colon ?_)
  exact ascii_append (ascii_component _) (colon (ascii_hex _))

theorem ascii_outputRange (output : UInt64) :
    (∀ c ∈ (outputRange output).1, c.toNat < 128) ∧ ∀ c ∈ (outputRange output).2, c.toNat < 128 :=
  ⟨ascii_append (ascii_component _) (by simp), ascii_append (ascii_component _) (by simp)⟩

theorem utf8_spelling_lt_iff (a b : OrderKey) : utf8 a.spelling < utf8 b.spelling ↔ a < b :=
  (utf8_lt_iff a.ascii_spelling b.ascii_spelling).trans (spelling_lt_iff a b)

theorem utf8_outputRange_iff (key : OrderKey) (output : UInt64) :
    utf8 (outputRange output).1 ≤ utf8 key.spelling ∧ utf8 key.spelling < utf8 (outputRange output).2 ↔
      key.output = some output := by
  obtain ⟨lower, upper⟩ := ascii_outputRange output
  rw [← List.not_lt, utf8_lt_iff key.ascii_spelling lower, utf8_lt_iff key.ascii_spelling upper]
  have selected := outputRange_iff key output
  rwa [← not_lt] at selected

theorem sourceSpelling_eq_iff {a b : OrderKey} : a.sourceSpelling = b.sourceSpelling ↔
    a = b ∨ a.rank = .fallback ∧ b.rank = .fallback ∧ a.output = b.output ∧ a.summary = b.summary := by
  constructor
  · intro same
    by_cases direct : a.rank = .fallback
    · right
      have rank := rank_of_sourceSpelling same
      simp only [sourceSpelling] at same
      obtain ⟨output, same⟩ := (append_eq_append_iff_of_apart (component_apart _ _) _ _).1 same
      obtain ⟨_, same⟩ := (append_eq_append_iff_of_apart (decimal_code_apart _ _) _ _).1 (List.cons.inj same).2
      obtain ⟨summary, _⟩ := (append_eq_append_iff_of_apart (component_apart _ _) _ _).1 (List.cons.inj same).2
      exact ⟨direct, rank ▸ direct, component_injective output, component_injective summary⟩
    · exact .inl (sourceSpelling_injective same direct)
  · rintro (rfl | ⟨left, right, output, summary⟩)
    · rfl
    · simp [sourceSpelling, left, right, output, summary]

/-- Printing is an isomorphism of order keys onto the accepted texts in their byte order. -/
theorem spelling_isomorphism (key other : OrderKey) (text : Text) (output : UInt64) :
    (parse text = some key ↔ text = key.spelling) ∧
      (utf8 key.spelling < utf8 other.spelling ↔ key < other) ∧
      utf8 key.spelling < utf8 ['~'] ∧
      (utf8 (outputRange output).1 ≤ utf8 key.spelling ∧ utf8 key.spelling < utf8 (outputRange output).2 ↔
        key.output = some output) ∧
      (key.sourceSpelling = other.sourceSpelling ↔
        key = other ∨ key.rank = .fallback ∧ other.rank = .fallback ∧ key.output = other.output ∧ key.summary = other.summary) := by
  refine ⟨parse_eq_some, utf8_spelling_lt_iff key other, ?_, utf8_outputRange_iff key output, sourceSpelling_eq_iff⟩
  exact (utf8_lt_iff key.ascii_spelling (by simp)).2 key.spelling_lt_tilde

end OrderKey
end Wi
