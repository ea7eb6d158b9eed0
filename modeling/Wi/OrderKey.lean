import Wi.Provider

/-! Order keys of display fields: their text encoding, the order it induces and the
ranges of it that address all fields of one output item. -/
namespace Wi
open Spelling

inductive FieldKind where
  | text | refusal | reasoningSummary | reasoningText | functionName | functionArguments
  | toolName | toolResult | authoritativeText | unsupported | notice
  deriving DecidableEq, Repr

inductive FieldRank where
  | summary | fallback | content | functionName | functionArguments | toolName | toolOutput
  | unsupported | notice
  deriving DecidableEq, Repr

namespace FieldRank

def code : FieldRank → Nat
  | .summary => 0
  | .fallback => 1
  | .content => 2
  | .functionName => 3
  | .functionArguments => 4
  | .toolName => 5
  | .toolOutput => 6
  | .unsupported => 7
  | .notice => 8

def group : FieldRank → Nat
  | .summary => 0
  | .fallback | .content => 1
  | .functionName => 2
  | .functionArguments => 3
  | .toolName => 4
  | .toolOutput => 5
  | .unsupported => 6
  | .notice => 7

theorem code_injective {a b : FieldRank} (same : a.code = b.code) : a = b := by
  cases a <;> cases b <;> first | rfl | simp [code] at same

theorem code_lt (rank : FieldRank) : rank.code < 16 ^ 16 := by cases rank <;> decide
theorem group_lt (rank : FieldRank) : rank.group < 16 ^ 16 := by cases rank <;> decide

end FieldRank

structure OrderKey where
  output : Option UInt64
  rank : FieldRank
  summary : Option UInt64
  content : Option UInt64
  deriving DecidableEq, Repr

/-- `0` for an absent index, `1` and 16 hexadecimal digits for a present one. -/
def component : Option UInt64 → Text
  | none => ['0']
  | some value => '1' :: hexadecimal 16 value.toNat

/-- What the component sorts as: an absent index comes before zero. -/
def componentValue : Option UInt64 → Nat
  | none => 0
  | some value => value.toNat + 1

def hex (value : Nat) : Text := hexadecimal 16 value

namespace OrderKey

def sortableTuple (key : OrderKey) : List Nat :=
  [componentValue key.output, key.rank.group, componentValue key.summary,
    componentValue key.content, key.rank.code]

instance : LT OrderKey := ⟨fun a b => a.sortableTuple < b.sortableTuple⟩

instance (a b : OrderKey) : Decidable (a < b) :=
  inferInstanceAs (Decidable (a.sortableTuple < b.sortableTuple))

def spelling (key : OrderKey) : Text :=
  component key.output ++ ':' :: (hex key.rank.group ++ ':' :: (component key.summary ++
    ':' :: (component key.content ++ ':' :: hex key.rank.code)))

/-- Identity of the field: a fallback's placement is not part of it. -/
def sourceSpelling (key : OrderKey) : Text :=
  let content := if key.rank = .fallback then none else key.content
  component key.output ++ ':' :: (decimal key.rank.code ++ ':' :: (component key.summary ++
    ':' :: component content))

/-- Every field of one output item, and no other, sorts between these two texts. -/
def outputRange (output : UInt64) : Text × Text :=
  (component (some output) ++ [':'], component (some output) ++ [';'])

end OrderKey

theorem component_apart (a b : Option UInt64) (h : component a ≠ component b) :
    Apart (component a) (component b) := by
  cases a <;> cases b <;> simp only [component] at h ⊢
  · exact absurd rfl h
  · exact .head (by decide)
  · exact .head (by decide)
  · exact .tail (hexadecimal_apart _ _ _ (by simpa using h))

theorem UInt64.toNat_lt_hex (value : UInt64) : value.toNat < 16 ^ 16 :=
  Nat.lt_of_lt_of_eq value.toNat_lt (by decide)

theorem component_injective {a b : Option UInt64} (same : component a = component b) : a = b := by
  cases a <;> cases b <;> simp only [component, List.cons.injEq] at same
  · rfl
  · simp at same
  · simp at same
  · rw [UInt64.toNat_inj.1 (hexadecimal_injective (UInt64.toNat_lt_hex _) (UInt64.toNat_lt_hex _) same.2)]

theorem component_lt_iff (a b : Option UInt64) :
    component a < component b ↔ componentValue a < componentValue b := by
  cases a <;> cases b <;> simp [component, componentValue, List.cons_lt_cons_iff]
  exact hexadecimal_lt_iff (UInt64.toNat_lt_hex _) (UInt64.toNat_lt_hex _)

theorem componentValue_injective {a b : Option UInt64} (same : componentValue a = componentValue b) :
    a = b := by
  cases a <;> cases b <;> simp [componentValue, UInt64.toNat_inj] at same ⊢
  exact same

theorem component_eq_iff (a b : Option UInt64) :
    component a = component b ↔ componentValue a = componentValue b :=
  ⟨fun h => by rw [component_injective h], fun h => by rw [componentValue_injective h]⟩

theorem hex_apart (a b : Nat) (h : hex a ≠ hex b) : Apart (hex a) (hex b) := hexadecimal_apart _ _ _ h

theorem hex_lt_iff (ha : a < 16 ^ 16) (hb : b < 16 ^ 16) : hex a < hex b ↔ a < b :=
  hexadecimal_lt_iff ha hb

theorem hex_eq_iff (ha : a < 16 ^ 16) (hb : b < 16 ^ 16) : hex a = hex b ↔ a = b :=
  ⟨hexadecimal_injective ha hb, fun h => by rw [h]⟩

theorem delimited_lt_iff {a b c d : Text} {va vb : Nat} {ta tb : List Nat} (code : a ≠ b → Apart a b)
    (value : a < b ↔ va < vb) (same : a = b ↔ va = vb) (rest : c < d ↔ ta < tb) :
    a ++ ':' :: c < b ++ ':' :: d ↔ va :: ta < vb :: tb := by
  rw [append_lt_append_iff code, List.cons_lt_cons_iff, List.cons_lt_cons_iff, value, same, rest]
  simp

namespace OrderKey

theorem spelling_lt_iff (a b : OrderKey) : a.spelling < b.spelling ↔ a < b := by
  show _ ↔ a.sortableTuple < b.sortableTuple
  refine delimited_lt_iff (component_apart _ _) (component_lt_iff _ _) (component_eq_iff _ _) ?_
  refine delimited_lt_iff (hex_apart _ _) (hex_lt_iff a.rank.group_lt b.rank.group_lt)
    (hex_eq_iff a.rank.group_lt b.rank.group_lt) ?_
  refine delimited_lt_iff (component_apart _ _) (component_lt_iff _ _) (component_eq_iff _ _) ?_
  refine delimited_lt_iff (component_apart _ _) (component_lt_iff _ _) (component_eq_iff _ _) ?_
  rw [hex_lt_iff a.rank.code_lt b.rank.code_lt, List.cons_lt_cons_iff]
  simp

theorem spelling_injective {a b : OrderKey} (same : a.spelling = b.spelling) : a = b := by
  unfold spelling at same
  obtain ⟨output, same⟩ := (append_eq_append_iff_of_apart (component_apart _ _) _ _).1 same
  obtain ⟨group, same⟩ :=
    (append_eq_append_iff_of_apart (hex_apart _ _) _ _).1 (List.cons.inj same).2
  obtain ⟨summary, same⟩ :=
    (append_eq_append_iff_of_apart (component_apart _ _) _ _).1 (List.cons.inj same).2
  obtain ⟨content, same⟩ :=
    (append_eq_append_iff_of_apart (component_apart _ _) _ _).1 (List.cons.inj same).2
  have rank := hexadecimal_injective a.rank.code_lt b.rank.code_lt (List.cons.inj same).2
  cases a; cases b
  simp only [OrderKey.mk.injEq]
  exact ⟨component_injective output, FieldRank.code_injective rank, component_injective summary,
    component_injective content⟩

theorem decimal_code_apart (a b : FieldRank) (h : decimal a.code ≠ decimal b.code) :
    Apart (decimal a.code) (decimal b.code) := by
  refine apart_of_length ?_ h
  cases a <;> cases b <;> decide

theorem sourceSpelling_injective {a b : OrderKey} (same : a.sourceSpelling = b.sourceSpelling)
    (direct : a.rank ≠ .fallback) : a = b := by
  simp only [sourceSpelling] at same
  obtain ⟨output, same⟩ := (append_eq_append_iff_of_apart (component_apart _ _) _ _).1 same
  obtain ⟨rank, same⟩ :=
    (append_eq_append_iff_of_apart (decimal_code_apart _ _) _ _).1 (List.cons.inj same).2
  obtain ⟨summary, same⟩ :=
    (append_eq_append_iff_of_apart (component_apart _ _) _ _).1 (List.cons.inj same).2
  have rank := FieldRank.code_injective (decimal_injective rank)
  have content := component_injective (List.cons.inj same).2
  rw [if_neg direct, if_neg (rank ▸ direct)] at content
  have output := component_injective output
  have summary := component_injective summary
  cases a; cases b
  simp_all

theorem rank_of_sourceSpelling {a b : OrderKey} (same : a.sourceSpelling = b.sourceSpelling) :
    a.rank = b.rank := by
  simp only [sourceSpelling] at same
  obtain ⟨-, same⟩ := (append_eq_append_iff_of_apart (component_apart _ _) _ _).1 same
  obtain ⟨rank, -⟩ :=
    (append_eq_append_iff_of_apart (decimal_code_apart _ _) _ _).1 (List.cons.inj same).2
  exact FieldRank.code_injective (decimal_injective rank)

theorem outputRange_iff (key : OrderKey) (output : UInt64) :
    (outputRange output).1 ≤ key.spelling ∧ key.spelling < (outputRange output).2 ↔
      key.output = some output := by
  have lower : (outputRange output).1 ≤ key.spelling ↔
      ¬ (component key.output < component (some output)) := by
    unfold outputRange spelling
    rw [← not_lt, append_lt_append_iff (component_apart _ _)]
    simp
  have upper : key.spelling < (outputRange output).2 ↔
      component key.output < component (some output) ∨ component key.output = component (some output) := by
    unfold outputRange spelling
    rw [append_lt_append_iff (component_apart _ _)]
    simp [List.cons_lt_cons_iff]
  rw [lower, upper]
  constructor
  · rintro ⟨notBelow, below | same⟩
    · exact absurd below notBelow
    · exact component_injective same
  · rintro h
    simp [h]

theorem spelling_lt_tilde (key : OrderKey) : key.spelling < ['~'] := by
  cases key with
  | mk output rank summary content =>
    cases output <;> simp [spelling, component, List.cons_lt_cons_iff]

end OrderKey
end Wi
