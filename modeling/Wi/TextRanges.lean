import Wi.BrowserSse
import Wi.Intervals
import Wi.Values

/-! The loaded parts of a field's text in the browser. Fragments arrive in any order and may
overlap; ranges that touch are joined by their bytes. -/
namespace Wi.Browser
open Utf8 Spelling Intervals

structure TextRange where
  fromByte : Nat
  toByte : Nat
  text : Text
  deriving DecidableEq

def conflict : Except ProtocolErrorCategory α := .error .identityMismatch

def localIndex (offset : Int) (length : Nat) : Except ProtocolErrorCategory Nat :=
  if offset < 0 ∨ length < offset then conflict else .ok offset.toNat

/-- `new TextDecoder('utf-8', { fatal: true, ignoreBOM: true }).decode(bytes)`. -/
def decodeUtf8 (bytes : List UInt8) : Except ProtocolErrorCategory Text :=
  match bytes.toByteArray.utf8Decode? with
  | some text => .ok text.toList
  | none => .error .invalidUtf8

/-- The loop's body for a range that touches the one before it. -/
def joinRange (previous next : TextRange) : Except ProtocolErrorCategory TextRange := do
  let left := utf8 previous.text
  let right := utf8 next.text
  let offset ← localIndex (next.fromByte - previous.fromByte) left.length
  let overlap := min (left.length - offset) right.length
  if (left.drop offset).take overlap ≠ right.take overlap then conflict
  else if overlap < right.length then
    return ⟨previous.fromByte, next.toByte, ← decodeUtf8 (left ++ right.drop overlap)⟩
  else return previous

def mergeNext (merged : List TextRange) (next : TextRange) : Except ProtocolErrorCategory (List TextRange) :=
  match merged.getLast? with
  | none => .ok (merged ++ [next])
  | some previous =>
    if previous.toByte < next.fromByte then .ok (merged ++ [next])
    else do return merged.dropLast ++ [← joinRange previous next]

/-- The ranges with one more; the sort is stable. -/
def addRange (ranges : List TextRange) (range : TextRange) : Except ProtocolErrorCategory (List TextRange) :=
  ((ranges ++ [range]).mergeSort fun a b => a.fromByte ≤ b.fromByte).foldlM mergeNext []

section Fields
variable [JsonHash]

def rangeOf (fragment : FieldFragment) : TextRange := ⟨fragment.fromByte, fragment.toByte, fragment.text⟩

def mergeRanges (ranges : List TextRange) (fragment : FieldFragment) : Except ProtocolErrorCategory (List TextRange) :=
  addRange ranges (rangeOf fragment)

structure LoadedField where
  fieldId : FieldId
  orderKey : FieldOrder
  kind : FieldKind
  generation : Nat
  revision : Nat
  totalBytes : Nat
  ranges : List TextRange
  deriving DecidableEq

def mergeField (previous : Option LoadedField) (f : FieldFragment) (revision : Nat) :
    Except ProtocolErrorCategory LoadedField :=
  match previous with
  | none => do
    return ⟨f.fieldId, f.orderKey, f.kind, f.generation, revision, f.totalBytes, ← mergeRanges [] f⟩
  | some previous =>
    if revision = previous.revision ∧ f.generation ≠ previous.generation then conflict
    -- An older descriptor cannot replace bytes from a newer observation with a higher generation.
    else if revision < previous.revision ∧ previous.generation < f.generation then conflict
    -- A newer observation cannot roll the field's generation back within the same layout.
    else if previous.revision < revision ∧ f.generation < previous.generation then conflict
    else if f.generation < previous.generation then .ok previous
    else do
      let revised := if revision < previous.revision then previous.revision else revision
      if previous.generation = f.generation then
        if previous.orderKey ≠ f.orderKey ∨ previous.kind ≠ f.kind then conflict
        else if (revision = previous.revision ∧ f.totalBytes ≠ previous.totalBytes) ∨
            (previous.revision < revision ∧ f.totalBytes < previous.totalBytes) ∨
            (revision < previous.revision ∧ previous.totalBytes < f.totalBytes) then conflict
        else
          return ⟨f.fieldId, f.orderKey, f.kind, f.generation, revised, max previous.totalBytes f.totalBytes,
            ← mergeRanges previous.ranges f⟩
      else return ⟨f.fieldId, f.orderKey, f.kind, f.generation, revised, f.totalBytes, ← mergeRanges [] f⟩

end Fields

/-! ### Bytes of a text -/

theorem utf8_append (a b : Text) : utf8 (a ++ b) = utf8 a ++ utf8 b := List.flatMap_append

theorem decodeUtf8_utf8 (text : Text) : decodeUtf8 (utf8 text) = .ok text := by
  have decoded : (utf8 text).toByteArray.utf8Decode? = some text.toArray := List.utf8Decode?_utf8Encode
  rw [decodeUtf8, decoded]

variable {byte : UInt8}

theorem first_of_utf8 (text : Text) (first : (utf8 text)[0]? = some byte) : byte.IsUTF8FirstByte := by
  cases text with
  | nil => cases first
  | cons c cs =>
    have size : 0 < (String.utf8EncodeChar c).length := by
      rw [String.length_utf8EncodeChar]
      exact c.utf8Size_pos
    rw [utf8, List.flatMap_cons, List.getElem?_append_left size, List.getElem?_eq_getElem size] at first
    rw [← Option.some.inj first]
    exact UInt8.isUTF8FirstByte_getElem_utf8EncodeChar.2 rfl

variable {offset : Nat}

theorem cut_of_first {text : Text} (found : (utf8 text)[offset]? = some byte) (first : byte.IsUTF8FirstByte) :
    ∃ before after, text = before ++ after ∧ bytes before = offset := by
  induction text generalizing offset with
  | nil => cases found
  | cons c cs ih =>
    rw [utf8, List.flatMap_cons] at found
    rcases Nat.lt_or_ge offset (String.utf8EncodeChar c).length with inside | past
    · rw [List.getElem?_append_left inside, List.getElem?_eq_getElem inside] at found
      rw [← Option.some.inj found] at first
      exact ⟨[], c :: cs, rfl, (UInt8.isUTF8FirstByte_getElem_utf8EncodeChar.1 first).symm⟩
    · rw [List.getElem?_append_right past] at found
      obtain ⟨before, after, rfl, size⟩ := ih found
      refine ⟨c :: before, after, rfl, ?_⟩
      rw [String.length_utf8EncodeChar] at past size
      rw [bytes_cons, size]
      omega

theorem getElem?_of_prefix {a b : List α} (start : a <+: b) {index : Nat} {value : α} (found : a[index]? = some value) :
    b[index]? = some value := by
  obtain ⟨rest, rfl⟩ := start
  rw [List.getElem?_append_left (List.getElem?_eq_some_iff.1 found).1, found]

theorem prefix_of_bytes_le {a b text : Text} (ha : a <+: text) (hb : b <+: text) (le : bytes a ≤ bytes b) : a <+: b := by
  rcases List.prefix_or_prefix_of_prefix ha hb with shorter | ⟨rest, rfl⟩
  · exact shorter
  · rw [bytes_append] at le
    have empty : rest = [] := bytes_eq_zero.1 (by omega)
    rw [empty, List.append_nil]

/-! ### Joining two ranges -/

variable {a b range : TextRange} {string : Text}

namespace TextRange

/-- The bounds are those of the text. -/
def Valid (range : TextRange) : Prop := range.toByte = range.fromByte + bytes range.text

/-- The range is the part of the text between its bounds. -/
def Of (string : Text) (range : TextRange) : Prop :=
  ∃ before after, string = before ++ range.text ++ after ∧ range.fromByte = bytes before ∧
    range.toByte = bytes before + bytes range.text

/-- The byte the range has at an offset of the whole text. -/
def byteAt (range : TextRange) (offset : Nat) : Option UInt8 :=
  if range.fromByte ≤ offset then (utf8 range.text)[offset - range.fromByte]? else none

/-- Both ranges have a byte at some offset, and not the same. -/
def Disagree (a b : TextRange) : Prop := ∃ offset x y, a.byteAt offset = some x ∧ b.byteAt offset = some y ∧ x ≠ y

/-- A range that keeps the place and the bytes of another. -/
structure Within (inner outer : TextRange) : Prop where
  start : outer.fromByte ≤ inner.fromByte
  stop : inner.toByte ≤ outer.toByte
  bytes : ∀ offset byte, inner.byteAt offset = some byte → outer.byteAt offset = some byte

theorem Within.refl (range : TextRange) : Within range range := ⟨le_rfl, le_rfl, fun _ _ found => found⟩

theorem Within.trans {c : TextRange} (ab : Within a b) (bc : Within b c) : Within a c :=
  ⟨bc.start.trans ab.start, ab.stop.trans bc.stop, fun offset byte found => bc.bytes _ _ (ab.bytes offset byte found)⟩

theorem Of.valid (part : range.Of string) : range.Valid := by
  obtain ⟨before, after, -, start, stop⟩ := part
  rw [Valid, stop, start]

theorem Of.byteAt (part : range.Of string) (found : range.byteAt offset = some byte) :
    (utf8 string)[offset]? = some byte := by
  obtain ⟨before, after, rfl, start, -⟩ := part
  rw [TextRange.byteAt] at found
  split at found
  next past =>
    have size := length_utf8 before
    have inside := (List.getElem?_eq_some_iff.1 found).1
    rw [utf8_append, utf8_append, List.append_assoc, List.getElem?_append_right (by omega),
      List.getElem?_append_left (by omega), size, ← start]
    exact found
  · cases found

theorem Of.agree (ha : a.Of string) (hb : b.Of string) : ¬ a.Disagree b := by
  rintro ⟨offset, x, y, hx, hy, differ⟩
  exact differ (Option.some.inj ((ha.byteAt hx).symm.trans (hb.byteAt hy)))

end TextRange

/-- What joining two touching ranges gives. -/
structure Joined (previous next joined : TextRange) : Prop where
  valid : joined.Valid
  start : joined.fromByte = previous.fromByte
  stop : joined.toByte = max previous.toByte next.toByte
  left : previous.Within joined
  right : next.Within joined
  exact : ∀ string, previous.Of string → next.Of string → joined.Of string

section Joining
variable {previous next : TextRange} {before after : Text}

theorem localIndex_ok {length : Nat} (fits : offset ≤ length) : localIndex (offset : Int) length = .ok offset := by
  rw [localIndex, if_neg (by omega)]
  rfl

theorem joined_past (left : previous.Valid) (right : next.Valid) (cut : previous.text = before ++ after)
    (offset : next.fromByte = previous.fromByte + bytes before) (agree : utf8 after <+: utf8 next.text) :
    Joined previous next ⟨previous.fromByte, next.toByte, before ++ next.text⟩ := by
  have size := agree.length_le
  rw [length_utf8, length_utf8] at size
  rw [TextRange.Valid] at left right
  have text : bytes previous.text = bytes before + bytes after := by rw [cut, bytes_append]
  refine ⟨?_, rfl, ?_, ⟨le_rfl, ?_, fun at_byte byte found => ?_⟩, ⟨?_, le_rfl, fun at_byte byte found => ?_⟩, ?_⟩
  · rw [TextRange.Valid, right, bytes_append]
    simp only
    omega
  · rw [max_eq_right (by omega)]
  · simp only
    omega
  · -- The joined bytes begin with the previous ones.
    have start : utf8 previous.text <+: utf8 (before ++ next.text) := by
      rw [cut, utf8_append, utf8_append]
      exact List.prefix_append_right_inj _ |>.2 agree
    rw [TextRange.byteAt] at found ⊢
    split at found
    next past =>
      rw [if_pos past]
      exact getElem?_of_prefix start found
    · cases found
  · simp only
    omega
  · rw [TextRange.byteAt] at found ⊢
    split at found
    next past =>
      have index : at_byte - previous.fromByte - (utf8 before).length = at_byte - next.fromByte := by
        rw [length_utf8]
        omega
      rw [if_pos (by simp only; omega), utf8_append, List.getElem?_append_right (by rw [length_utf8]; simp only; omega)]
      rw [index]
      exact found
    · cases found
  · rintro string ⟨start, rest, whole, start_size, -⟩ ⟨start', rest', whole', start_size', stop'⟩
    have same : start' = start ++ before := by
      have first : start ++ before <+: string := by
        rw [whole, cut, List.append_assoc, List.append_assoc]
        exact List.prefix_append_right_inj _ |>.2 (List.prefix_append _ _)
      have second : start' <+: string := by
        rw [whole', List.append_assoc]
        exact List.prefix_append _ _
      have sizes : bytes start' = bytes (start ++ before) := by
        rw [bytes_append]
        omega
      exact (prefix_of_bytes_le second first sizes.le).eq_of_length_le
        (prefix_of_bytes_le first second sizes.ge).length_le
    refine ⟨start, rest', ?_, start_size, ?_⟩
    · rw [whole', same]
      simp only [List.append_assoc]
    · simp only
      rw [stop', same, bytes_append, bytes_append]
      omega

theorem joined_inside (left : previous.Valid) (start : previous.fromByte ≤ next.fromByte)
    (stop : next.toByte ≤ previous.toByte)
    (agree : utf8 next.text <+: (utf8 previous.text).drop (next.fromByte - previous.fromByte)) :
    Joined previous next previous := by
  refine ⟨left, rfl, (max_eq_left stop).symm, .refl previous, ⟨start, stop, fun offset byte found => ?_⟩, fun _ part _ => part⟩
  rw [TextRange.byteAt] at found ⊢
  split at found
  next past =>
    have held := getElem?_of_prefix agree found
    rw [List.getElem?_drop] at held
    rw [if_pos (start.trans past), ← held]
    congr 1
    omega
  · cases found

theorem exists_difference {a b : List α} {count : Nat} (differ : a.take count ≠ b.take count) (ha : count ≤ a.length)
    (hb : count ≤ b.length) : ∃ (index : Nat) (x y : α), a[index]? = some x ∧ b[index]? = some y ∧ x ≠ y := by
  by_contra agree
  refine differ (List.ext_getElem (by simp [ha, hb]) fun index in_a in_b => ?_)
  have la : index < a.length := by
    rw [List.length_take] at in_a
    omega
  have lb : index < b.length := by
    rw [List.length_take] at in_b
    omega
  rw [List.getElem_take, List.getElem_take]
  by_contra unequal
  exact agree ⟨index, a[index], b[index], List.getElem?_eq_getElem la, List.getElem?_eq_getElem lb, unequal⟩

theorem joinRange_spec (left : previous.Valid) (right : next.Valid) (start : previous.fromByte ≤ next.fromByte)
    (touch : next.fromByte ≤ previous.toByte) :
    previous.Disagree next ∧ joinRange previous next = conflict ∨
      ∃ joined, joinRange previous next = .ok joined ∧ Joined previous next joined := by
  have left_size := length_utf8 previous.text
  have right_size := length_utf8 next.text
  rw [TextRange.Valid] at left right
  obtain ⟨offset, offset_is⟩ : ∃ offset, next.fromByte = previous.fromByte + offset := ⟨_, (Nat.add_sub_cancel' start).symm⟩
  have index : localIndex (next.fromByte - previous.fromByte) (utf8 previous.text).length = .ok offset := by
    have cast : (next.fromByte : Int) - previous.fromByte = (offset : Nat) := by omega
    rw [cast]
    exact localIndex_ok (by omega)
  rw [joinRange]
  simp only [index, ok_bind]
  generalize count : min ((utf8 previous.text).length - offset) (utf8 next.text).length = overlap
  split
  next differ =>
    obtain ⟨place, x, y, hx, hy, unequal⟩ := exists_difference differ (by rw [List.length_drop]; omega) (by omega)
    rw [List.getElem?_drop] at hx
    refine .inl ⟨⟨next.fromByte + place, x, y, ?_, ?_, unequal⟩, rfl⟩
    · rw [TextRange.byteAt, if_pos (by omega), ← hx]
      congr 1
      omega
    · rw [TextRange.byteAt, if_pos (by omega), ← hy]
      congr 1
      omega
  next same =>
    have same := not_not.1 same
    refine .inr ?_
    split
    next past =>
      have full : overlap = (utf8 previous.text).length - offset := by omega
      -- The next text begins at the end of the previous one or with a byte of it.
      obtain ⟨before, after, cut, size⟩ : ∃ before after, previous.text = before ++ after ∧ bytes before = offset := by
        rcases Nat.lt_or_ge offset (utf8 previous.text).length with inside | ended
        · have byte := List.getElem?_eq_getElem inside
          refine cut_of_first byte (first_of_utf8 next.text ?_)
          have first : ((utf8 next.text).take overlap)[0]? = (((utf8 previous.text).drop offset).take overlap)[0]? := by
            rw [same]
          rw [List.getElem?_take_of_lt (by omega), List.getElem?_take_of_lt (by omega), List.getElem?_drop] at first
          exact first.trans byte
        · exact ⟨previous.text, [], (List.append_nil _).symm, by omega⟩
      have tail : (utf8 previous.text).drop offset = utf8 after := by
        rw [cut, utf8_append, ← size, ← length_utf8, List.drop_left]
      have agree : utf8 after = (utf8 next.text).take overlap := by
        rw [← same, tail, List.take_of_length_le]
        rw [← tail, List.length_drop]
        omega
      have whole : utf8 previous.text ++ (utf8 next.text).drop overlap = utf8 (before ++ next.text) := by
        rw [cut, utf8_append, utf8_append, agree, List.append_assoc, List.take_append_drop]
      rw [whole, decodeUtf8_utf8]
      exact ⟨_, rfl, joined_past left right cut (by omega) (agree ▸ List.take_prefix _ _)⟩
    next nested =>
      refine ⟨previous, rfl, joined_inside left start (by omega) ?_⟩
      have full : overlap = (utf8 next.text).length := by omega
      rw [full, List.take_length] at same
      have place : next.fromByte - previous.fromByte = offset := by omega
      rw [place, ← same]
      exact List.take_prefix _ _

end Joining

/-! ### Merging ranges -/

/-- The bounds as points of the line, so that ranges are closed intervals. -/
def TextRange.bounds (range : TextRange) : ℝ × ℝ := (range.fromByte, range.toByte)

/-- Some ranges hold what was merged into them: they are apart, keep every byte, cover the same
points, and are parts of any text that the merged ones are parts of. -/
structure Merged (done ranges : List TextRange) : Prop where
  valid : ∀ range ∈ ranges, range.Valid
  apart : ranges.Pairwise fun a b => a.toByte < b.fromByte
  holds : ∀ range ∈ done, ∃ outer ∈ ranges, range.Within outer
  starts : ∀ outer ∈ ranges, ∃ range ∈ done, range.fromByte = outer.fromByte
  covers : cover (ranges.map TextRange.bounds) = cover (done.map TextRange.bounds)
  exact : ∀ string, (∀ range ∈ done, range.Of string) → ∀ range ∈ ranges, range.Of string

variable {next : TextRange}

namespace Merged
variable {done ranges more : List TextRange}

theorem nil : Merged [] [] :=
  ⟨by simp, .nil, by simp, by simp, rfl, by simp⟩

theorem perm (merged : Merged done ranges) (order : more.Perm done) : Merged more ranges where
  valid := merged.valid
  apart := merged.apart
  holds range member := merged.holds range (order.mem_iff.1 member)
  starts outer member := by
    obtain ⟨range, found, same⟩ := merged.starts outer member
    exact ⟨range, order.mem_iff.2 found, same⟩
  covers := by
    rw [merged.covers]
    ext x
    simp [cover, order.mem_iff]
  exact string parts := merged.exact string fun range member => parts range (order.mem_iff.2 member)

theorem cover_append (a b : List TextRange) : cover ((a ++ b).map TextRange.bounds) =
    cover (a.map TextRange.bounds) ∪ cover (b.map TextRange.bounds) := by
  ext x
  simp [cover, or_and_right, exists_or]

theorem trans {results : List TextRange} (first : Merged done ranges) (second : Merged (ranges ++ more) results) :
    Merged (done ++ more) results where
  valid := second.valid
  apart := second.apart
  holds range member := by
    rcases List.mem_append.1 member with old | new
    · obtain ⟨middle, found, inside⟩ := first.holds range old
      obtain ⟨outer, kept, outside⟩ := second.holds middle (List.mem_append_left _ found)
      exact ⟨outer, kept, inside.trans outside⟩
    · exact second.holds range (List.mem_append_right _ new)
  starts outer member := by
    obtain ⟨middle, found, same⟩ := second.starts outer member
    rcases List.mem_append.1 found with old | new
    · obtain ⟨range, held, first_same⟩ := first.starts middle old
      exact ⟨range, List.mem_append_left _ held, first_same.trans same⟩
    · exact ⟨middle, List.mem_append_right _ new, same⟩
  covers := by rw [second.covers, cover_append, cover_append, first.covers]
  exact string parts := second.exact string <| List.forall_mem_append.2
    ⟨first.exact string (List.forall_mem_append.1 parts).1, (List.forall_mem_append.1 parts).2⟩

theorem push (merged : Merged done ranges) (valid : next.Valid)
    (later : ∀ range ∈ ranges, range.toByte < next.fromByte) : Merged (done ++ [next]) (ranges ++ [next]) where
  valid := List.forall_mem_append.2 ⟨merged.valid, by simpa using valid⟩
  apart := List.pairwise_append.2 ⟨merged.apart, List.pairwise_singleton _ _, by simpa using later⟩
  holds := by
    refine List.forall_mem_append.2 ⟨fun range member => ?_, ?_⟩
    · obtain ⟨outer, found, inside⟩ := merged.holds range member
      exact ⟨outer, List.mem_append_left _ found, inside⟩
    · simpa using Or.inr (TextRange.Within.refl next)
  starts := by
    refine List.forall_mem_append.2 ⟨fun outer member => ?_, ?_⟩
    · obtain ⟨range, found, same⟩ := merged.starts outer member
      exact ⟨range, List.mem_append_left _ found, same⟩
    · simp
  covers := by rw [cover_append, cover_append, merged.covers]
  exact string parts := by
    obtain ⟨old, new⟩ := List.forall_mem_append.1 parts
    exact List.forall_mem_append.2 ⟨merged.exact string old, new⟩

theorem join {before : List TextRange} {previous joined : TextRange}
    (merged : Merged done (before ++ [previous])) (valid : next.Valid)
    (start : previous.fromByte ≤ next.fromByte) (touch : next.fromByte ≤ previous.toByte)
    (made : Joined previous next joined) : Merged (done ++ [next]) (before ++ [joined]) := by
  have replaced : ∀ range, range ∈ before ++ [previous] → ∃ outer ∈ before ++ [joined], range.Within outer := by
    refine List.forall_mem_append.2 ⟨fun range member => ⟨range, List.mem_append_left _ member, .refl range⟩, ?_⟩
    simpa using Or.inr made.left
  obtain ⟨old, -, last⟩ := List.pairwise_append.1 merged.apart
  refine ⟨?_, ?_, ?_, ?_, ?_, ?_⟩
  · exact List.forall_mem_append.2 ⟨(List.forall_mem_append.1 merged.valid).1, by simpa using made.valid⟩
  · refine List.pairwise_append.2 ⟨old, List.pairwise_singleton _ _, ?_⟩
    intro range member other is_joined
    rw [List.mem_singleton.1 is_joined, made.start]
    exact last range member previous List.mem_cons_self
  · refine List.forall_mem_append.2 ⟨fun range member => ?_, ?_⟩
    · obtain ⟨middle, found, inside⟩ := merged.holds range member
      obtain ⟨outer, kept, outside⟩ := replaced middle found
      exact ⟨outer, kept, inside.trans outside⟩
    · simpa using Or.inr made.right
  · obtain ⟨early, final⟩ := List.forall_mem_append.1 merged.starts
    refine List.forall_mem_append.2 ⟨fun outer member => ?_, ?_⟩
    · obtain ⟨range, found, same⟩ := early outer member
      exact ⟨range, List.mem_append_left _ found, same⟩
    · intro outer is_joined
      obtain ⟨range, found, same⟩ := final previous List.mem_cons_self
      rw [List.mem_singleton.1 is_joined, made.start]
      exact ⟨range, List.mem_append_left _ found, same⟩
  · have union : Set.Icc previous.bounds.1 previous.bounds.2 ∪ Set.Icc next.bounds.1 next.bounds.2 =
        Set.Icc joined.bounds.1 joined.bounds.2 := by
      have ends : next.fromByte ≤ next.toByte := by
        rw [TextRange.Valid] at valid
        omega
      simp only [TextRange.bounds, made.start, made.stop]
      rw [Set.Icc_union_Icc' (by exact_mod_cast touch) (by exact_mod_cast start.trans ends),
        min_eq_left (by exact_mod_cast start), Nat.cast_max]
    have single (range : TextRange) :
        cover ([range].map TextRange.bounds) = Set.Icc range.bounds.1 range.bounds.2 := by
      ext x
      simp [cover]
    rw [cover_append, cover_append, ← merged.covers, cover_append, single, single, single, ← union, Set.union_assoc]
  · intro string parts
    obtain ⟨earlier, new⟩ := List.forall_mem_append.1 parts
    obtain ⟨kept, changed⟩ := List.forall_mem_append.1 (merged.exact string earlier)
    refine List.forall_mem_append.2 ⟨kept, ?_⟩
    simpa using made.exact string (changed previous List.mem_cons_self) (new next List.mem_cons_self)

end Merged

/-- Ranges that are parts of one text, all of them. -/
def Parts (string : Text) (ranges : List TextRange) : Prop := ∀ range ∈ ranges, range.Of string

/-- Merging either succeeds or finds a conflict, and then the ranges are not parts of one text. -/
def Settles (done : List TextRange) (result : Except ProtocolErrorCategory (List TextRange)) : Prop :=
  (∃ ranges, result = .ok ranges ∧ Merged done ranges) ∨ (result = conflict ∧ ∀ string, ¬ Parts string done)

variable {done ranges : List TextRange}

theorem mergeNext_settles (merged : Merged done ranges) (valid : next.Valid)
    (sorted : ∀ range ∈ done, range.fromByte ≤ next.fromByte) :
    Settles (done ++ [next]) (mergeNext ranges next) := by
  rcases List.eq_nil_or_concat ranges with rfl | ⟨before, previous, rfl⟩
  · exact .inl ⟨_, rfl, merged.push valid (by simp)⟩
  rw [List.concat_eq_append] at merged ⊢
  simp only [mergeNext, List.getLast?_concat, List.dropLast_concat]
  obtain ⟨-, -, last⟩ := List.pairwise_append.1 merged.apart
  have previous_valid := merged.valid previous (by simp)
  split
  next past =>
    refine .inl ⟨_, rfl, merged.push valid (List.forall_mem_append.2 ⟨fun range member => ?_, by simpa using past⟩)⟩
    have before_previous := last range member previous List.mem_cons_self
    rw [TextRange.Valid] at previous_valid
    omega
  next touch =>
    obtain ⟨range, found, same⟩ := merged.starts previous (by simp)
    have start : previous.fromByte ≤ next.fromByte := same ▸ sorted range found
    rcases joinRange_spec previous_valid valid start (not_lt.1 touch) with ⟨differ, failed⟩ | ⟨joined, made, facts⟩
    · refine .inr ⟨by rw [failed]; rfl, fun string parts => ?_⟩
      obtain ⟨old, new⟩ := List.forall_mem_append.1 parts
      exact (merged.exact string old previous (by simp)).agree (new next List.mem_cons_self) differ
    · exact .inl ⟨_, by rw [made]; rfl, merged.join valid start (not_lt.1 touch) facts⟩

theorem Settles.fold {step : List TextRange → TextRange → Except ProtocolErrorCategory (List TextRange)}
    {items : List TextRange} (each : ∀ done next after ranges, items = done ++ next :: after → Merged done ranges →
      Settles (done ++ [next]) (step ranges next)) : Settles items (items.foldlM step []) := by
  have from_any (after : List TextRange) : ∀ done ranges, items = done ++ after → Merged done ranges →
      Settles items (after.foldlM step ranges) := by
    induction after with
    | nil =>
      intro done ranges split merged
      exact .inl ⟨ranges, rfl, by rwa [split, List.append_nil]⟩
    | cons next rest ih =>
      intro done ranges split merged
      rw [List.foldlM_cons]
      rcases each done next rest ranges split merged with ⟨results, made, facts⟩ | ⟨failed, none_of⟩
      · rw [made, ok_bind]
        exact ih (done ++ [next]) results (by simp [split]) facts
      · refine .inr ⟨by rw [failed]; rfl, fun string parts => none_of string fun range member => parts range ?_⟩
        rw [split]
        simp only [List.mem_append, List.mem_cons, List.not_mem_nil, or_false] at member ⊢
        tauto
  exact from_any items [] [] rfl .nil

theorem addRange_settles (merged : Merged done ranges) (valid : range.Valid) :
    Settles (done ++ [range]) (addRange ranges range) := by
  rw [addRange]
  have order := List.mergeSort_perm (ranges ++ [range]) fun a b => decide (a.fromByte ≤ b.fromByte)
  have sorted : ((ranges ++ [range]).mergeSort fun a b => decide (a.fromByte ≤ b.fromByte)).Pairwise
      fun a b => decide (a.fromByte ≤ b.fromByte) = true :=
    List.pairwise_mergeSort (by simp; omega) (by simp; omega) (ranges ++ [range])
  generalize (ranges ++ [range]).mergeSort (fun a b => decide (a.fromByte ≤ b.fromByte)) = ordered at order sorted ⊢
  have all_valid : ∀ member ∈ ordered, member.Valid := fun member found =>
    (List.forall_mem_append.2 ⟨merged.valid, by simpa using valid⟩) member (order.mem_iff.1 found)
  have settled : Settles ordered (ordered.foldlM mergeNext []) := by
    refine .fold fun before next after results split earlier => ?_
    rw [split] at all_valid sorted
    refine mergeNext_settles earlier (all_valid next (by simp)) fun member found => ?_
    exact of_decide_eq_true ((List.pairwise_append.1 sorted).2.2 member found next List.mem_cons_self)
  rcases settled with ⟨results, made, facts⟩ | ⟨failed, none_of⟩
  · exact .inl ⟨results, made, merged.trans (facts.perm order.symm)⟩
  · refine .inr ⟨failed, fun string parts => none_of string fun member found => ?_⟩
    obtain ⟨old, new⟩ := List.forall_mem_append.1 parts
    exact (List.forall_mem_append.2 ⟨merged.exact string old, new⟩) member (order.mem_iff.1 found)

theorem addRanges_settles {fragments : List TextRange} (valid : ∀ range ∈ fragments, range.Valid) :
    Settles fragments (fragments.foldlM addRange []) :=
  .fold fun _ next _ _ split merged => addRange_settles merged (valid next (by simp [split]))

theorem Merged.separated (merged : Merged done ranges) :
    Separated (ranges.map TextRange.bounds) where
  nonempty := by
    refine List.forall_mem_map.2 fun range member => ?_
    have valid := merged.valid range member
    rw [TextRange.Valid] at valid
    simp only [TextRange.bounds]
    exact_mod_cast (by omega : range.fromByte ≤ range.toByte)
  apart := List.pairwise_map.2 (merged.apart.imp fun {a b} less => by
    simp only [TextRange.bounds]
    exact_mod_cast less)

theorem TextRange.Valid.bounds_of_byteAt (valid : range.Valid) (found : range.byteAt offset = some byte) :
    range.fromByte ≤ offset ∧ offset < range.toByte := by
  rw [TextRange.byteAt] at found
  split at found
  next past =>
    have inside := (List.getElem?_eq_some_iff.1 found).1
    rw [length_utf8] at inside
    rw [TextRange.Valid] at valid
    omega
  · cases found

theorem Merged.byte_unique (merged : Merged done ranges) {x y : UInt8} (ha : a ∈ ranges) (hb : b ∈ ranges)
    (at_x : a.byteAt offset = some x) (at_y : b.byteAt offset = some y) : x = y := by
  have x_place := (merged.valid a ha).bounds_of_byteAt at_x
  have y_place := (merged.valid b hb).bounds_of_byteAt at_y
  rcases eq_or_related merged.apart ha hb with rfl | apart
  · exact Option.some.inj (at_x.symm.trans at_y)
  · omega

theorem TextRange.Of.eq (ha : a.Of string) (hb : b.Of string) (same : a.bounds = b.bounds) : a = b := by
  obtain ⟨start, rest, whole, a_start, a_stop⟩ := ha
  obtain ⟨start', rest', whole', b_start, b_stop⟩ := hb
  have starts : a.fromByte = b.fromByte := by exact_mod_cast (Prod.mk.inj same).1
  have stops : a.toByte = b.toByte := by exact_mod_cast (Prod.mk.inj same).2
  have before : start = start' := by
    have first : start <+: string := ⟨a.text ++ rest, by rw [whole, List.append_assoc]⟩
    have second : start' <+: string := ⟨b.text ++ rest', by rw [whole', List.append_assoc]⟩
    exact (prefix_of_bytes_le first second (by omega)).eq_of_length_le
      (prefix_of_bytes_le second first (by omega)).length_le
  have text : a.text = b.text := by
    subst before
    rw [whole, List.append_assoc, List.append_assoc, List.append_cancel_left_eq] at whole'
    have first : a.text <+: a.text ++ rest := List.prefix_append _ _
    have second : b.text <+: a.text ++ rest := ⟨rest', whole'.symm⟩
    exact (prefix_of_bytes_le first second (by omega)).eq_of_length_le
      (prefix_of_bytes_le second first (by omega)).length_le
  cases a
  cases b
  simp_all

theorem Merged.unique {more results : List TextRange} (order : more.Perm done) (parts : Parts string done)
    (first : Merged done ranges) (second : Merged more results) : results = ranges := by
  have again := second.perm order.symm
  have bounds := again.separated.unique first.separated (by rw [again.covers, first.covers])
  have first_parts := first.exact string parts
  have second_parts := again.exact string parts
  clear again second first
  induction results generalizing ranges with
  | nil => exact (List.map_eq_nil_iff.1 bounds.symm).symm
  | cons result results ih =>
    obtain ⟨range, others, rfl, same, rest⟩ := List.map_eq_cons_iff.1 bounds.symm
    obtain ⟨result_part, results_parts⟩ := List.forall_mem_cons.1 second_parts
    obtain ⟨range_part, others_parts⟩ := List.forall_mem_cons.1 first_parts
    rw [result_part.eq range_part same.symm, ih rest.symm others_parts results_parts]

/-! ### Fields -/

section Fields
variable [JsonHash]

/-- Fragments merged one by one into nothing. -/
def mergeAll (fragments : List FieldFragment) : Except ProtocolErrorCategory (List TextRange) :=
  fragments.foldlM mergeRanges []

theorem mergeAll_eq (fragments : List FieldFragment) :
    mergeAll fragments = (fragments.map rangeOf).foldlM addRange [] := by
  rw [mergeAll, List.foldlM_map]
  rfl

/-- The descriptor the fragments of one field at one revision share. -/
structure Describes (field : LoadedField) (fragment : FieldFragment) : Prop where
  id : fragment.fieldId = field.fieldId
  order : fragment.orderKey = field.orderKey
  kind : fragment.kind = field.kind
  generation : fragment.generation = field.generation
  total : fragment.totalBytes = field.totalBytes

theorem mergeField_same {field : LoadedField} {fragment : FieldFragment} (described : Describes field fragment) :
    mergeField (some field) fragment field.revision =
      (mergeRanges field.ranges fragment).map fun ranges => { field with ranges := ranges } := by
  obtain ⟨id, order, kind, generation, total⟩ := described
  simp [mergeField, id, order, kind, generation, total]
  rfl

/-- The fragments of one field, read at one revision, merged one by one. -/
def mergeFragments (fragments : List FieldFragment) (revision : Nat) : Except ProtocolErrorCategory (Option LoadedField) :=
  fragments.foldlM (fun previous fragment => some <$> mergeField previous fragment revision) none

theorem mergeFragments_eq {field : LoadedField} {fragments : List FieldFragment} (some_loaded : fragments ≠ [])
    (described : ∀ fragment ∈ fragments, Describes field fragment) :
    mergeFragments fragments field.revision =
      (mergeAll fragments).map fun ranges => some { field with ranges := ranges } := by
  have rest (fragments : List FieldFragment) : ∀ ranges, (∀ fragment ∈ fragments, Describes field fragment) →
      fragments.foldlM (fun previous fragment => some <$> mergeField previous fragment field.revision)
        (some { field with ranges := ranges }) =
      (fragments.foldlM mergeRanges ranges).map fun ranges => some { field with ranges := ranges } := by
    induction fragments with
    | nil => exact fun ranges _ => rfl
    | cons fragment others ih =>
      intro ranges described
      obtain ⟨first, later⟩ := List.forall_mem_cons.1 described
      have same := mergeField_same (show Describes { field with ranges := ranges } fragment from
        ⟨first.id, first.order, first.kind, first.generation, first.total⟩)
      rw [List.foldlM_cons, List.foldlM_cons, same]
      cases mergeRanges ranges fragment with
      | error => rfl
      | ok results => exact ih results later
  obtain ⟨fragment, others, rfl⟩ := List.exists_cons_of_ne_nil some_loaded
  obtain ⟨⟨id, order, kind, generation, total⟩, later⟩ := List.forall_mem_cons.1 described
  rw [mergeFragments, mergeAll, List.foldlM_cons, List.foldlM_cons, mergeField, id, order, kind, generation, total]
  cases mergeRanges [] fragment with
  | error => rfl
  | ok results => exact rest others results later

/-- Merging is confluent and exact: fragments of one text give, in whatever order they come, the
connected components of what they cover, each with the text's bytes; fragments that
disagree conflict in every order. A field's fragments are merged in this way. -/
theorem mergeAll_confluent (fragments : List FieldFragment) :
    (∀ string, (∀ fragment ∈ fragments, (rangeOf fragment).Of string) →
      ∃ ranges, (∀ order, order.Perm fragments → mergeAll order = .ok ranges) ∧
        ranges.Pairwise (fun a b => a.toByte < b.fromByte) ∧
        components (cover (fragments.map fun fragment => (rangeOf fragment).bounds)) =
          {component | ∃ range ∈ ranges, component = Set.Icc (range.fromByte : ℝ) range.toByte} ∧
        ∀ range ∈ ranges, range.Of string) ∧
      ((∀ fragment ∈ fragments, (rangeOf fragment).Valid) →
        (∃ a ∈ fragments, ∃ b ∈ fragments, (rangeOf a).Disagree (rangeOf b)) →
        ∀ order, order.Perm fragments → mergeAll order = conflict) ∧
      ∀ field, fragments ≠ [] → (∀ fragment ∈ fragments, Describes field fragment) →
        mergeFragments fragments field.revision =
          (mergeAll fragments).map fun ranges => some { field with ranges := ranges } := by
  refine ⟨fun string parts => ?_, fun valid ⟨a, in_a, b, in_b, differ⟩ order same => ?_,
    fun field some_loaded => mergeFragments_eq some_loaded⟩
  · have all_parts : Parts string (fragments.map rangeOf) := List.forall_mem_map.2 parts
    have settles (order : List FieldFragment) (same : order.Perm fragments) :
        ∃ ranges, mergeAll order = .ok ranges ∧ Merged (order.map rangeOf) ranges := by
      have order_parts : Parts string (order.map rangeOf) := fun range member =>
        all_parts range ((same.map rangeOf).mem_iff.1 member)
      rw [mergeAll_eq]
      rcases addRanges_settles fun range member => (order_parts range member).valid with made | ⟨-, none_of⟩
      · exact made
      · exact absurd order_parts (none_of string)
    obtain ⟨ranges, -, merged⟩ := settles fragments (.refl _)
    refine ⟨ranges, fun order same => ?_, merged.apart, ?_, merged.exact string all_parts⟩
    · obtain ⟨results, made, facts⟩ := settles order same
      rw [made, Merged.unique (same.map rangeOf) all_parts merged facts]
    · have bounds : (fragments.map fun fragment => (rangeOf fragment).bounds) =
          (fragments.map rangeOf).map TextRange.bounds := by
        rw [List.map_map]
        rfl
      have components := merged.separated.components_cover
      rw [bounds, ← merged.covers]
      simpa [TextRange.bounds] using components
  · have all_valid : ∀ range ∈ order.map rangeOf, range.Valid :=
      List.forall_mem_map.2 fun fragment member => valid fragment (same.mem_iff.1 member)
    rw [mergeAll_eq]
    rcases addRanges_settles all_valid with ⟨ranges, -, merged⟩ | ⟨failed, -⟩
    · obtain ⟨offset, x, y, at_x, at_y, unequal⟩ := differ
      have shown (fragment : FieldFragment) (member : fragment ∈ fragments) :=
        merged.holds (rangeOf fragment) (List.mem_map_of_mem (same.mem_iff.2 member))
      obtain ⟨outer, in_outer, a_within⟩ := shown a in_a
      obtain ⟨other, in_other, b_within⟩ := shown b in_b
      exact absurd (merged.byte_unique in_outer in_other (a_within.bytes _ _ at_x) (b_within.bytes _ _ at_y)) unequal
    · exact failed

/-- A fragment of one text field. -/
def fragmentAt (fromByte : Nat) (text : Text) : FieldFragment :=
  ⟨.text, .human, .text, 1, 6, fromByte, fromByte + bytes text, text⟩

end Fields

theorem mergeAll_confluent_overlapping : letI := JsonHash.ideal
    (∃ ranges, mergeAll [fragmentAt 0 "né".toList, fragmentAt 1 "éa".toList] = .ok ranges ∧
      mergeAll [fragmentAt 1 "éa".toList, fragmentAt 0 "né".toList] = .ok ranges) ∧
      mergeAll [fragmentAt 0 "né".toList, fragmentAt 1 "ça".toList] = conflict := by
  let _ := JsonHash.ideal
  constructor
  · obtain ⟨ranges, any_order, -⟩ := (mergeAll_confluent [fragmentAt 0 "né".toList, fragmentAt 1 "éa".toList]).1
      "néa".toList (by
        simp only [List.forall_mem_cons, List.not_mem_nil, false_implies, implies_true, and_true]
        exact ⟨⟨[], "a".toList, rfl, rfl, rfl⟩, ⟨"n".toList, [], rfl, rfl, rfl⟩⟩)
    exact ⟨ranges, any_order _ (.refl _), any_order _ (.swap _ _ _)⟩
  · refine (mergeAll_confluent [fragmentAt 0 "né".toList, fragmentAt 1 "ça".toList]).2.1 ?_ ?_ _ (.refl _)
    · simp only [List.forall_mem_cons, List.not_mem_nil, false_implies, implies_true, and_true]
      exact ⟨rfl, rfl⟩
    · refine ⟨_, List.mem_cons_self, _, List.mem_cons_of_mem _ List.mem_cons_self, 2, ?_⟩
      exact ⟨0xa9, 0xa7, by decide +kernel, by decide +kernel, by decide⟩

end Wi.Browser
