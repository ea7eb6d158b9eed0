import Wi.Compact
import Wi.Except

/-! The contiguous newest parts of an entry view: which fields and bytes they show, that
the constructors accept them, and how their encoded size depends on the cut. -/
namespace Wi

namespace Utf8

theorem drop_add (first more : Nat) (text : Text) (boundary : isBoundary first text = true) :
    drop (first + more) text = drop more (drop first text) := by
  obtain ⟨before, after, rfl, rfl⟩ := isBoundary_iff.1 boundary
  rw [drop_append_bytes, drop_append_of_le (Nat.le_add_right _ _), Nat.add_sub_cancel_left]

theorem bytes_drop {text : Text} (boundary : isBoundary cut text = true) :
    bytes (drop cut text) = bytes text - cut := by
  have whole := bytes_take_add_drop cut text
  have taken : bytes (take cut text) = cut := by simpa [isBoundary] using boundary
  omega

theorem isBoundary_zero (text : Text) : isBoundary 0 text = true := by simp [isBoundary]

end Utf8

open Utf8

theorem require_ok {condition : Bool} (holds : condition = true) (kind : StorageErrorKind) :
    require condition kind = .ok () := require_eq_ok.2 holds

theorem Json.plain_of_isDigit {c : Char} (digit : c.isDigit = true) : plain c = true := by
  simp only [Char.isDigit, Bool.and_eq_true, decide_eq_true_eq] at digit
  have low : 48 ≤ c.toNat := UInt32.le_iff_toNat_le.1 digit.1
  have high : c.toNat ≤ 57 := UInt32.le_iff_toNat_le.1 digit.2
  have usual : shortEscape c = none := by
    unfold shortEscape
    split <;> first | omega | rfl
  simp only [plain, usual, Option.isNone_none, Bool.true_and, decide_eq_true_eq]
  omega

theorem Json.escapedBytes_decimal (value : Nat) :
    escapedBytes (Spelling.decimal value) = bytes (Spelling.decimal value) := by
  refine escapedBytes_of_plain fun c member => plain_of_isDigit ?_
  exact Nat.isDigit_of_mem_toDigits (by decide) (by decide) member

theorem Json.escapedBytes_hex {text : Text} (lower : text.all lowerHex = true) :
    escapedBytes text = text.length := by
  have ordinary : (hexDigits.all fun c => plain c && decide (c.utf8Size = 1)) = true := by decide
  have letters : ∀ c ∈ text, plain c = true ∧ c.utf8Size = 1 := by
    intro c member
    have digit : c ∈ hexDigits := of_decide_eq_true (List.all_eq_true.1 lower c member)
    simpa using List.all_eq_true.1 ordinary c digit
  rw [escapedBytes_of_plain fun c member => (letters c member).1,
    Spelling.bytes_of_ascii fun c member => (letters c member).2]

theorem Json.escapedBytes_base64 [Spelling.Base64] (input : List UInt8) :
    escapedBytes (Spelling.Base64.encode input) = (4 * input.length + 2) / 3 := by
  have ordinary : ∀ value < 64, plain (Spelling.alphabet value) = true ∧ (Spelling.alphabet value).utf8Size = 1 := by
    decide
  have letters : ∀ c ∈ Spelling.Base64.encode input, plain c = true ∧ c.utf8Size = 1 := by
    intro c member
    obtain ⟨value, small, rfl⟩ := Spelling.Base64.letters input c member
    exact ordinary value small
  rw [escapedBytes_of_plain fun c member => (letters c member).1,
    Spelling.bytes_of_ascii fun c member => (letters c member).2, Spelling.Base64.length_encode]

theorem Spelling.bytes_decimal_le {value : Nat} (narrow : value < 2 ^ 64) : bytes (decimal value) ≤ 20 :=
  (bytes_decimal_le_iff (by decide)).2 (narrow.trans (by decide))

namespace Compact

/-- A position of a text that leaves at least one scalar, or no cut at all. -/
def CutPoint (text : Text) (cut : Nat) : Prop := cut = 0 ∨ isBoundary cut text = true ∧ cut < bytes text

theorem CutPoint.isBoundary {text : Text} (point : CutPoint text cut) : isBoundary cut text = true := by
  obtain rfl | ⟨boundary, _⟩ := point
  · exact isBoundary_zero text
  · exact boundary

theorem CutPoint.le {text : Text} (point : CutPoint text cut) : cut ≤ bytes text := by
  obtain rfl | ⟨_, inside⟩ := point <;> omega

theorem ascending_tail {less : α → α → Bool} {first : α} {rest : List α}
    (sorted : ascending less (first :: rest) = true) : ascending less rest = true := by
  cases rest with
  | nil => rfl
  | cons next rest =>
    rw [ascending, Bool.and_eq_true] at sorted
    exact sorted.2

theorem ascending_drop {less : α → α → Bool} {items : List α} (sorted : ascending less items = true) (skip : Nat) :
    ascending less (items.drop skip) = true := by
  induction skip generalizing items with
  | zero => exact sorted
  | succ skip ih =>
    cases items with
    | nil => rfl
    | cons first rest => exact ih (ascending_tail sorted)

end Compact

variable [JsonHash]

theorem FieldId.escapedBytes_spelling (id : FieldId) :
    4 ≤ Json.escapedBytes id.spelling ∧ Json.escapedBytes id.spelling ≤ 64 := by
  cases id with
  | text =>
    have word : Json.escapedBytes "text".toList = 4 := by decide
    simp only [spelling, word]
    omega
  | hash value =>
    have length := Json.escapedBytes_hex (JsonHash.hex_lower value)
    rw [JsonHash.hex_length] at length
    simp only [spelling, length]
    omega

namespace ContentCursor

/-- What the token spells about the entry it belongs to. -/
def ownerBytes (cursor : ContentCursor) : Nat :=
  Json.escapedBytes cursor.sessionId.text + Json.escapedBytes cursor.runId.text +
    Json.escapedBytes cursor.entryId.spelling + bytes (Spelling.decimal cursor.contentEpoch)

/-- What the token spells about the byte it stops before. -/
def boundaryBytes (cursor : ContentCursor) : Nat :=
  Json.escapedBytes cursor.upperFieldId.spelling + bytes (Spelling.decimal cursor.upperGeneration) +
    bytes (Spelling.decimal cursor.exclusiveUpperByte)

theorem size_contentToken (cursor : ContentCursor) :
    (Wire.contentToken cursor).size = 7 + (4 * (cursor.ownerBytes + cursor.boundaryBytes + 24) + 2) / 3 := by
  have word : Json.escapedBytes "g11c.".toList = 5 := by decide
  have version : (Json.number ['1']).size = 1 := Json.size_number _
  have inner : bytes (render (.array (.number ['1'] :: [cursor.sessionId.text, cursor.runId.text,
      cursor.entryId.spelling, Spelling.decimal cursor.contentEpoch, cursor.upperFieldId.spelling,
      Spelling.decimal cursor.upperGeneration, Spelling.decimal cursor.exclusiveUpperByte].map Json.string))) =
      cursor.ownerBytes + cursor.boundaryBytes + 24 := by
    change Json.size _ = _
    simp only [Json.size_array, List.map_cons, List.map_nil, List.sum_cons, List.sum_nil, List.length_cons,
      List.length_nil, Json.size_string, Json.escapedBytes_decimal, version, ownerBytes, boundaryBytes]
    omega
  rw [Wire.contentToken, Json.size_string, spelling, token, Json.escapedBytes_append, word,
    Json.escapedBytes_base64, Spelling.length_utf8, inner]
  omega

end ContentCursor

namespace FieldFragment

/-- Size of a field's descriptor, with nothing cut off and no text. -/
def outline (field : FieldFragment) : Nat := (Wire.field { field with fromByte := 0, text := [] }).size

theorem size_field (field : FieldFragment) :
    (Wire.field field).size + 6 = field.outline + bytes (Spelling.decimal field.fromByte) +
      Json.escapedBytes field.text + (Json.bool field.hasEarlier).size := by
  have zero : bytes (Spelling.decimal 0) = 1 := by decide
  have absent : (Json.bool false).size = 5 := Json.size_bool false
  have none_earlier : ({ field with fromByte := 0, text := [] } : FieldFragment).hasEarlier = false := rfl
  have later : ({ field with fromByte := 0, text := [] } : FieldFragment).hasLater = field.hasLater := rfl
  simp only [outline, Wire.field, Json.size_object, List.map_cons, List.map_nil, List.sum_cons, List.sum_nil,
    List.length_cons, List.length_nil, Json.memberSize, Wire.named, Wire.decimals, Json.size_string,
    Json.escapedBytes_decimal, Json.escapedBytes_nil, none_earlier, later, zero, absent]
  omega

theorem le_outline (field : FieldFragment) : 150 ≤ field.outline := by
  have keys : (["field_id", "order_key", "kind", "generation", "total_bytes", "from_byte", "to_byte", "text",
      "has_earlier", "has_later"].map fun key => bytes (Json.quote key.toList)).sum = 102 := by decide
  have flag (value : Bool) : 4 ≤ (Json.bool value).size := by rw [Json.size_bool]; split <;> decide
  have word (kind : FieldKind) : 4 ≤ Json.escapedBytes (Wire.fieldKind kind).toList := by
    cases kind <;> decide
  have id := field.fieldId.escapedBytes_spelling
  have generation := Spelling.bytes_decimal_pos field.generation
  simp only [List.map_cons, List.map_nil, List.sum_cons, List.sum_nil] at keys
  simp only [outline, Wire.field, Json.size_object, List.map_cons, List.map_nil, List.sum_cons, List.sum_nil,
    List.length_cons, List.length_nil, Json.memberSize, Wire.named, Wire.decimals, Json.size_string,
    Json.escapedBytes_decimal, Json.escapedBytes_nil, Wire.literal]
  have kind := word field.kind
  have earlier := flag ({ field with fromByte := 0, text := [] } : FieldFragment).hasEarlier
  have later := flag ({ field with fromByte := 0, text := [] } : FieldFragment).hasLater
  omega

end FieldFragment
namespace FieldFragment

/-- The field without the first `cut` bytes shown. -/
def after (field : FieldFragment) (cut : Nat) : FieldFragment :=
  { field with fromByte := field.fromByte + cut, text := drop cut field.text }

@[simp] theorem after_zero (field : FieldFragment) : field.after 0 = field := by
  simp [after]

theorem size_after_le {field : FieldFragment} {cut more : Nat} (boundary : isBoundary cut field.text = true)
    (further : cut ≤ more)
    (width : bytes (Spelling.decimal (field.fromByte + more)) ≤ bytes (Spelling.decimal (field.fromByte + cut))) :
    (Wire.field (field.after more)).size ≤ (Wire.field (field.after cut)).size := by
  have shown := size_field (field.after cut)
  have left := size_field (field.after more)
  have same : (field.after more).outline = (field.after cut).outline := rfl
  have text : Json.escapedBytes (drop more field.text) ≤ Json.escapedBytes (drop cut field.text) := by
    have again := drop_add cut (more - cut) field.text boundary
    rw [Nat.add_sub_cancel' further] at again
    rw [again]
    conv_rhs => rw [← take_append_drop (more - cut) (drop cut field.text), Json.escapedBytes_append]
    exact Nat.le_add_left _ _
  have flag : (Json.bool (field.after more).hasEarlier).size ≤ (Json.bool (field.after cut).hasEarlier).size := by
    have yes : (Json.bool true).size = 4 := Json.size_bool true
    have no : (Json.bool false).size = 5 := Json.size_bool false
    cases before : (field.after cut).hasEarlier with
    | false => cases (field.after more).hasEarlier <;> simp only [yes, no] <;> omega
    | true =>
      have still : (field.after more).hasEarlier = true :=
        decide_eq_true (Nat.lt_of_lt_of_le (of_decide_eq_true before) (Nat.add_le_add_left further _))
      rw [still]
  rw [same] at left
  simp only [after] at shown left text flag ⊢
  omega

end FieldFragment

namespace Compact
open Wire

/-- Size of an entry with no fields and nothing earlier. -/
def outline (entry : EntryView) : Nat :=
  (Wire.entry { entry with fields := [], earlierContent := none, contentComplete := true }).size

theorem size_entry (view : EntryView) :
    (Wire.entry view).size + 10 = outline view + (Json.array (view.fields.map field)).size +
      (Wire.optional contentToken view.earlierContent).size + (Json.bool view.contentComplete).size := by
  have empty : (Json.array []).size = 2 := Json.size_array []
  have absent : Json.null.size = 4 := Json.size_null
  have yes : (Json.bool true).size = 4 := Json.size_bool true
  simp only [outline, Wire.entry, Json.size_object, List.map_cons, List.map_nil, List.sum_cons, List.sum_nil,
    List.length_cons, List.length_nil, Json.memberSize, Wire.named, Wire.optional, empty, absent, yes]
  omega

/-- The cursor that continues before a byte of one of the entry's fields. -/
def cursorAt (session : ApplicationSessionId) (entry : EntryView) (field : FieldFragment) (start : Nat) :
    ContentCursor :=
  ⟨session, entry.runId, entry.entryId, entry.contentEpoch, field.fieldId, field.generation, start⟩

/-- The entry from `cut` bytes into the field `first` on. -/
def suffixAt (session : ApplicationSessionId) (entry : EntryView) (first : FieldFragment)
    (rest : List FieldFragment) (cut : Nat) : EntryView :=
  { entry with
    fields := first.after cut :: rest
    earlierContent := some (cursorAt session entry first (first.fromByte + cut))
    contentComplete := false }

/-- Sizes of the fields after the first, each with its comma. -/
def restBytes (rest : List FieldFragment) : Nat := (rest.map fun other => (field other).size).sum + rest.length

theorem size_suffixAt (session : ApplicationSessionId) (entry : EntryView) (first : FieldFragment)
    (rest : List FieldFragment) (cut : Nat) :
    (Wire.entry (suffixAt session entry first rest cut)).size + 3 = outline entry + (field (first.after cut)).size +
      restBytes rest + (contentToken (cursorAt session entry first (first.fromByte + cut))).size := by
  have whole := size_entry (suffixAt session entry first rest cut)
  have no : (Json.bool false).size = 5 := Json.size_bool false
  have same : outline (suffixAt session entry first rest cut) = outline entry := rfl
  rw [same] at whole
  simp only [suffixAt, Json.size_array, List.map_cons, List.map_map, List.sum_cons, List.length_cons,
    List.length_map, Wire.optional, no] at whole ⊢
  simp only [restBytes, Function.comp_def] at whole ⊢
  omega

/-- Cutting more of the first field never costs more, as long as the offset is not spelled longer. -/
theorem size_suffixAt_le {session : ApplicationSessionId} {entry : EntryView} {first : FieldFragment}
    {rest : List FieldFragment} {cut more : Nat} (boundary : isBoundary cut first.text = true) (further : cut ≤ more)
    (width : bytes (Spelling.decimal (first.fromByte + more)) ≤ bytes (Spelling.decimal (first.fromByte + cut))) :
    (Wire.entry (suffixAt session entry first rest more)).size ≤
      (Wire.entry (suffixAt session entry first rest cut)).size := by
  have shown := size_suffixAt session entry first rest cut
  have left := size_suffixAt session entry first rest more
  have text := FieldFragment.size_after_le boundary further width
  have owner : (cursorAt session entry first (first.fromByte + more)).ownerBytes =
      (cursorAt session entry first (first.fromByte + cut)).ownerBytes := rfl
  have place : (cursorAt session entry first (first.fromByte + more)).boundaryBytes ≤
      (cursorAt session entry first (first.fromByte + cut)).boundaryBytes := by
    simp only [ContentCursor.boundaryBytes, cursorAt]
    omega
  rw [ContentCursor.size_contentToken] at shown left
  rw [owner] at left
  omega

/-- Any field costs more than what a longer cursor can save: the last field alone is shorter than
a view that starts before it. -/
theorem size_last_le {session : ApplicationSessionId} {entry : EntryView} {first last : FieldFragment}
    {middle : List FieldFragment} {cut : Nat} (generation : last.generation < 2 ^ 64) (start : last.fromByte < 2 ^ 64) :
    (Wire.entry (suffixAt session entry last [] 0)).size ≤
      (Wire.entry (suffixAt session entry first (middle ++ [last]) cut)).size := by
  have alone := size_suffixAt session entry last [] 0
  have longer := size_suffixAt session entry first (middle ++ [last]) cut
  have field := FieldFragment.size_field (first.after cut)
  have outline := (first.after cut).le_outline
  have owner : (cursorAt session entry last last.fromByte).ownerBytes =
      (cursorAt session entry first (first.fromByte + cut)).ownerBytes := rfl
  have place : (cursorAt session entry last last.fromByte).boundaryBytes ≤
      (cursorAt session entry first (first.fromByte + cut)).boundaryBytes + 98 := by
    have id := last.fieldId.escapedBytes_spelling
    have other := first.fieldId.escapedBytes_spelling
    have width := Spelling.bytes_decimal_le generation
    have offset := Spelling.bytes_decimal_le start
    have some_width := Spelling.bytes_decimal_pos first.generation
    have some_offset := Spelling.bytes_decimal_pos (first.fromByte + cut)
    simp only [ContentCursor.boundaryBytes, cursorAt]
    omega
  simp only [FieldFragment.after_zero, Nat.add_zero, restBytes, List.map_nil, List.sum_nil, List.length_nil,
    List.map_append, List.sum_append, List.map_cons, List.sum_cons, List.length_append, List.length_cons,
    ContentCursor.size_contentToken] at alone longer
  rw [owner] at alone
  omega

/-- What the constructors checked of a view, with the source's 64-bit numbers. -/
structure Checked (entry : EntryView) : Prop where
  built : EntryView.new entry = .ok entry
  fragments : ∀ field ∈ entry.fields, FieldFragment.new field = .ok field
  revision : entry.revision < 2 ^ 64
  slot : entry.entryId.slot < 2 ^ 64
  totals : ∀ field ∈ entry.fields, field.totalBytes < 2 ^ 64

namespace Checked
variable {session : ApplicationSessionId} {entry : EntryView} {first : FieldFragment} {rest : List FieldFragment}
  {skip cut : Nat}

theorem fragment (checked : Checked entry) {field : FieldFragment} (member : field ∈ entry.fields) :
    field.generation ≠ 0 ∧ field.fromByte ≤ field.toByte ∧ field.toByte ≤ field.totalBytes ∧
      bytes field.text = field.toByte - field.fromByte := by
  have made := checked.fragments field member
  simp only [FieldFragment.new, bind_eq_ok, require_eq_ok, Bool.and_eq_true, decide_eq_true_eq] at made
  obtain ⟨_, ⟨⟨⟨⟨_, generation⟩, ordered⟩, inside⟩, length⟩, _⟩ := made
  exact ⟨generation, ordered, inside, length⟩

theorem parts (checked : Checked entry) : entry.humanValid = true ∧ entry.entryId.sequence ≤ entry.contentEpoch ∧
    entry.contentEpoch ≤ entry.revision ∧ entry.referenceValid = true ∧ entry.toolFactsValid = true ∧
    entry.fieldsValid = true := by
  have made := checked.built
  simp only [EntryView.new, bind_eq_ok, require_eq_ok, Bool.and_eq_true, decide_eq_true_eq] at made
  obtain ⟨_, human, _, ⟨⟨⟨⟨⟨⟨sequence, epoch⟩, reference⟩, tool⟩, fields⟩, _⟩, _⟩, _⟩ := made
  exact ⟨human, sequence, epoch, reference, tool, fields⟩

theorem field (checked : Checked entry) {field : FieldFragment} (member : field ∈ entry.fields) :
    entry.entryId.sequence ≤ field.generation ∧ field.generation ≤ entry.revision := by
  obtain ⟨_, _, _, _, _, fields⟩ := checked.parts
  simp only [EntryView.fieldsValid, Bool.and_eq_true, List.all_eq_true] at fields
  have valid := fields.1.1 field member
  simp only [EntryView.fieldValid, Bool.and_eq_true, decide_eq_true_eq] at valid
  exact valid.1.1

theorem field_after (checked : Checked entry) (member : first ∈ entry.fields) (point : CutPoint first.text cut) :
    FieldFragment.new (first.after cut) = .ok (first.after cut) := by
  obtain ⟨generation, ordered, inside, length⟩ := checked.fragment member
  have short := point.le
  have text := bytes_drop point.isBoundary
  have facts : (validFieldId first.fieldId.spelling && first.generation ≠ 0 && first.fromByte + cut ≤ first.toByte &&
      first.toByte ≤ first.totalBytes && bytes (drop cut first.text) = first.toByte - (first.fromByte + cut)) = true := by
    simp only [validFieldId_spelling, Bool.true_and, Bool.and_eq_true, decide_eq_true_eq]
    omega
  exact bind_eq_ok.2 ⟨(), require_ok facts _, rfl⟩

theorem cursor (checked : Checked entry) (session : ApplicationSessionId) {field : FieldFragment} (member : field ∈ entry.fields)
    (start : Nat) (inside : start ≤ field.totalBytes) :
    ContentCursor.new (cursorAt session entry field start) = .ok (cursorAt session entry field start) := by
  obtain ⟨_, sequence, epoch, _⟩ := checked.parts
  obtain ⟨born, current⟩ := checked.field member
  have revision := checked.revision
  have short : bytes (cursorAt session entry field start).spelling ≤ maxCursorBytes := by
    have size := ContentCursor.size_contentToken (cursorAt session entry field start)
    have escaped := Json.bytes_le_escapedBytes (cursorAt session entry field start).spelling
    have owner : (cursorAt session entry field start).ownerBytes ≤ 495 := by
      have uuid (id : Uuid) : Json.escapedBytes id.text ≤ 216 := by
        have shape := id.canonical
        simp only [isCanonicalUuid, uuidShape, Bool.and_eq_true, beq_iff_eq] at shape
        have bound := Json.escapedBytes_le id.text
        omega
      have place : Json.escapedBytes entry.entryId.spelling ≤ 43 := by
        have opening : Json.escapedBytes "e:".toList = 2 := by decide
        have colon : bytes (Json.escape ':') = 1 := by decide
        have width := Spelling.bytes_decimal_le (show entry.entryId.sequence < 2 ^ 64 by omega)
        have slot := Spelling.bytes_decimal_le checked.slot
        simp only [EntryId.spelling, Json.escapedBytes_append, Json.escapedBytes_cons, Json.escapedBytes_decimal,
          opening, colon]
        omega
      have width := Spelling.bytes_decimal_le (show entry.contentEpoch < 2 ^ 64 by omega)
      have sessionBytes := uuid session
      have runBytes := uuid entry.runId
      simp only [ContentCursor.ownerBytes, cursorAt]
      omega
    have place : (cursorAt session entry field start).boundaryBytes ≤ 104 := by
      have id := field.fieldId.escapedBytes_spelling
      have width := Spelling.bytes_decimal_le (show field.generation < 2 ^ 64 by omega)
      have total := checked.totals field member
      have offset := Spelling.bytes_decimal_le (show start < 2 ^ 64 by omega)
      simp only [ContentCursor.boundaryBytes, cursorAt]
      omega
    rw [contentToken, Json.size_string] at size
    unfold maxCursorBytes
    omega
  have facts : (entry.entryId.sequence ≤ entry.contentEpoch && entry.entryId.sequence ≤ field.generation &&
      validFieldId field.fieldId.spelling) = true := by
    simp only [validFieldId_spelling, Bool.and_true, Bool.and_eq_true, decide_eq_true_eq]
    exact ⟨sequence, born⟩
  exact bind_eq_ok.2 ⟨(), require_ok facts _, bind_eq_ok.2 ⟨(), require_ok (decide_eq_true short) _, rfl⟩⟩

theorem suffix (checked : Checked entry) (session : ApplicationSessionId) (left : entry.fields.drop skip = first :: rest)
    (point : CutPoint first.text cut) : Checked (suffixAt session entry first rest cut) := by
  have kept {field : FieldFragment} (member : field ∈ first :: rest) : field ∈ entry.fields :=
    List.mem_of_mem_drop (left ▸ member)
  have held := kept List.mem_cons_self
  obtain ⟨human, sequence, epoch, reference, tool, fields⟩ := checked.parts
  obtain ⟨_, ordered, inside, length⟩ := checked.fragment held
  have short := point.le
  simp only [EntryView.fieldsValid, Bool.and_eq_true, List.all_eq_true, decide_eq_true_eq] at fields
  obtain ⟨⟨each, distinct⟩, sorted⟩ := fields
  have distinct_rest : ((first :: rest).map (·.fieldId)).Nodup := by
    rw [← left, List.map_drop]
    exact distinct.sublist (List.drop_sublist _ _)
  have sorted_rest := ascending_drop sorted skip
  rw [left] at sorted_rest
  have fieldValid (field : FieldFragment) (member : field ∈ first :: rest) :
      (suffixAt session entry first rest cut).fieldValid field = true := by
    have valid := each field (kept member)
    simp only [EntryView.fieldValid, Bool.and_eq_true] at valid ⊢
    exact ⟨valid.1, rfl⟩
  have humanValid : (suffixAt session entry first rest cut).humanValid = true := by
    simp only [EntryView.humanValid, Bool.or_eq_true, decide_eq_true_eq] at human ⊢
    rcases human with other | one
    · exact .inl other
    · right
      split at one
      · rename_i only fields_eq
        rw [fields_eq] at left
        cases skip with
        | zero =>
          cases left
          exact one
        | succ skip => cases skip <;> cases left
      · cases one
  have cursorValid : (suffixAt session entry first rest cut).cursorValid
      (cursorAt session entry first (first.fromByte + cut)) = true := by
    have others : ∀ field ∈ rest, field.fieldId ≠ first.fieldId := by
      intro field member same
      exact (List.nodup_cons.1 distinct_rest).1 (List.mem_map.2 ⟨field, member, same⟩)
    simp only [EntryView.cursorValid, Bool.and_eq_true, List.all_eq_true, Bool.or_eq_true]
    refine ⟨⟨⟨⟨decide_eq_true rfl, decide_eq_true rfl⟩, decide_eq_true rfl⟩, decide_eq_true (checked.field held).2⟩, ?_⟩
    refine List.forall_mem_cons.2 ⟨.inr ⟨decide_eq_true rfl, decide_eq_true ?_⟩, fun field member => ?_⟩
    · change first.fromByte + cut ≤ first.totalBytes
      omega
    · exact .inl (decide_eq_true (others field member))
  constructor
  · rw [EntryView.new, require_ok humanValid, ok_bind, require_ok]
    · rfl
    · have tail : (suffixAt session entry first rest cut).fieldsValid = true := by
        simp only [EntryView.fieldsValid, Bool.and_eq_true, List.all_eq_true, decide_eq_true_eq]
        refine ⟨⟨?_, distinct_rest⟩, ?_⟩
        · have shortened : (suffixAt session entry first rest cut).fieldValid (first.after cut) = true :=
            fieldValid first List.mem_cons_self
          exact List.forall_mem_cons.2 ⟨shortened, fun field member => fieldValid field (List.mem_cons_of_mem _ member)⟩
        · cases rest with
          | nil => rfl
          | cons next rest => exact sorted_rest
      simp only [Bool.and_eq_true, decide_eq_true_eq, Option.all_eq_true]
      refine ⟨⟨⟨⟨⟨⟨sequence, epoch⟩, reference⟩, tool⟩, tail⟩, rfl⟩, ?_⟩
      intro cursor given
      cases given
      exact cursorValid
  · refine List.forall_mem_cons.2 ⟨checked.field_after held point, fun field member => ?_⟩
    exact checked.fragments field (kept (List.mem_cons_of_mem _ member))
  · exact checked.revision
  · exact checked.slot
  · refine List.forall_mem_cons.2 ⟨checked.totals first held, fun field member => ?_⟩
    exact checked.totals field (kept (List.mem_cons_of_mem _ member))

theorem rebuild_eq (checked : Checked (suffixAt session entry first rest cut)) :
    rebuild entry (first.after cut :: rest) (some (cursorAt session entry first (first.fromByte + cut))) =
      .ok (suffixAt session entry first rest cut) :=
  mapError_eq_ok.2 checked.built

theorem textSuffix_eq (checked : Checked entry) (shown : entry.fields = first :: rest)
    (point : CutPoint first.text cut) :
    textSuffix session entry cut = .ok (suffixAt session entry first rest cut) := by
  have held : first ∈ entry.fields := shown ▸ List.mem_cons_self
  obtain ⟨_, ordered, inside, length⟩ := checked.fragment held
  have short := point.le
  have made := checked.field_after held point
  have cursor := checked.cursor session held (first.fromByte + cut) (by omega)
  have built := (checked.suffix session (show entry.fields.drop 0 = first :: rest from shown) point).rebuild_eq
  rw [textSuffix, shown]
  refine bind_eq_ok.2 ⟨first.after cut, mapError_eq_ok.2 made, bind_eq_ok.2 ⟨_, mapError_eq_ok.2 cursor, built⟩⟩

theorem suffixView_eq (checked : Checked entry) (left : entry.fields.drop skip = first :: rest) :
    suffixView session entry skip = .ok (suffixAt session entry first rest 0) := by
  have held : first ∈ entry.fields := List.mem_of_mem_drop (left ▸ List.mem_cons_self)
  obtain ⟨_, ordered, inside, _⟩ := checked.fragment held
  have cursor := checked.cursor session held first.fromByte (by omega)
  have built := (checked.suffix session left (.inl rfl)).rebuild_eq
  rw [FieldFragment.after_zero] at built
  rw [suffixView, left]
  exact bind_eq_ok.2 ⟨_, mapError_eq_ok.2 cursor, built⟩

end Checked

end Compact
end Wi
