import Wi.Content
import Wi.Stored

/-! What a delta and a snapshot mean for the logical fields of an entry. -/
namespace Wi.Layout
open Utf8 Content

abbrev Fields := List LogicalField

/-- A field that a part starts at a sequence. -/
def created (part : Part) (sequence : Nat) : LogicalField :=
  ⟨.indexed part.order, part.kind, sequence, part.text⟩

def add (field : LogicalField) (fields : Fields) : Fields := Keyed.place LogicalField.key field fields

def findField (order : FieldOrder) (fields : Fields) : Option LogicalField :=
  fields.find? fun field => field.order = order

/-- What a delta adds to a field of its kind; an unsupported field keeps its one marker. -/
def deltaText (part : Part) : Text := if part.kind = .unsupported then [] else part.text

def delta (sequence : Nat) (part : Part) (fields : Fields) : Fields :=
  match findField (.indexed part.order) fields with
  | some old =>
    if old.kind ≠ part.kind then
      add (created part sequence) (removeField old.order fields)
    else rewriteField { old with text := old.text ++ deltaText part } fields
  | none => add (created part sequence) fields

/-- Whether a delta changes what lies before an existing field. -/
def deltaMoves (part : Part) (fields : Fields) : Bool :=
  match findField (.indexed part.order) fields with
  | some old => old.kind ≠ part.kind
  | none => fields.any fun field => part.order.spelling < field.key

/-- The fields a snapshot of one output, or of the whole response, speaks for. -/
def inRange (output : Option UInt64) (field : LogicalField) : Bool :=
  match output, field.order with
  | none, _ => true
  | some _, .human => false
  | some index, .indexed order => order.output = some index

/-- The part of a snapshot that a field of the same order and kind becomes. -/
def partFor (parts : List Part) (field : LogicalField) : Option Part :=
  parts.find? fun part => FieldOrder.indexed part.order = field.order && part.kind = field.kind

theorem partFor_eq_some {parts : List Part} {field : LogicalField} {part : Part}
    (found : partFor parts field = some part) :
    part ∈ parts ∧ field.order = .indexed part.order ∧ part.kind = field.kind := by
  have matched := List.find?_some found
  simp only [Bool.and_eq_true, decide_eq_true_eq] at matched
  exact ⟨List.mem_of_find?_eq_some found, matched.1.symm, matched.2⟩

/-- What a snapshot leaves of a field: an unchanged text keeps its generation. -/
def settle (sequence : Nat) (output : Option UInt64) (parts : List Part) (field : LogicalField) :
    Option LogicalField :=
  if inRange output field then
    (partFor parts field).map fun part =>
      if field.text = part.text then field else { field with generation := sequence, text := part.text }
  else some field

/-- A part that an existing field already shows. -/
def retains (output : Option UInt64) (fields : Fields) (part : Part) : Bool :=
  fields.any fun field =>
    inRange output field && FieldOrder.indexed part.order = field.order && part.kind = field.kind

def settled (sequence : Nat) (output : Option UInt64) (parts : List Part) (fields : Fields) : Fields :=
  fields.filterMap (settle sequence output parts)

def fresh (output : Option UInt64) (parts : List Part) (fields : Fields) : List Part :=
  parts.filter fun part => !retains output fields part

def snapshot (sequence : Nat) (output : Option UInt64) (parts : List Part) (fields : Fields) : Fields :=
  (fresh output parts fields).foldl (fun fields part => add (created part sequence) fields)
    (settled sequence output parts fields)

/-- Whether a snapshot removes or inserts a field. -/
def snapshotMoves (sequence : Nat) (output : Option UInt64) (parts : List Part) (fields : Fields) : Bool :=
  (fields.any fun field => (settle sequence output parts field).isNone) || !(fresh output parts fields).isEmpty

/-- Bytes of all texts. -/
def textBytes (fields : Fields) : Nat := (fields.map fun field => bytes field.text).sum

variable {fields : Fields} {field : LogicalField}

theorem textBytes_le (member : field ∈ fields) : bytes field.text ≤ textBytes fields :=
  List.single_le_sum (by simp) _ (List.mem_map.2 ⟨field, member, rfl⟩)

theorem findField_eq_some {order : FieldOrder} (found : findField order fields = some field) :
    field ∈ fields ∧ field.order = order :=
  ⟨List.mem_of_find?_eq_some found, by simpa using List.find?_some found⟩

theorem findField_eq_none {order : FieldOrder} (missing : findField order fields = none) :
    ∀ field ∈ fields, field.order ≠ order := by
  intro field member same
  have absent := List.find?_eq_none.1 missing field member
  simp [same] at absent

theorem absent_key {part : Part} {sequence : Nat} (absent : ∀ field ∈ fields, field.order ≠ .indexed part.order) :
    (created part sequence).key ∉ fields.map LogicalField.key := by
  intro present
  obtain ⟨other, member, same⟩ := List.mem_map.1 present
  exact absent other member (FieldOrder.encode_injective same)

theorem range_iff {output : Option UInt64} (indexed : field.order ≠ .human) :
    ((range output).1 ≤ field.order.encode ∧ field.order.encode < (range output).2) ↔
      inRange output field = true := by
  cases order : field.order with
  | human => exact absurd order indexed
  | indexed key =>
    cases output with
    | none =>
      have lowest : ([] : Text) ≤ key.spelling := not_lt.1 (List.not_lt_nil _)
      simp [range, inRange, FieldOrder.encode, OrderKey.spelling_lt_tilde, lowest]
    | some index =>
      simp only [range, inRange, order, FieldOrder.encode, decide_eq_true_eq]
      exact OrderKey.outputRange_iff key index

variable {next : LogicalField} {done : Fields}

section Stages
variable {sequence : Nat} {output : Option UInt64} {parts : List Part} {fields : Fields}

theorem order_of_settle (h : settle sequence output parts field = some next) : next.order = field.order := by
  unfold settle at h
  split at h
  · obtain ⟨part, -, rfl⟩ := Option.map_eq_some_iff.1 h
    split <;> rfl
  · rw [Option.some.inj h]

/-- The fields after a snapshot has settled some of them. -/
def stage (sequence : Nat) (output : Option UInt64) (parts : List Part) (done : Fields) (field : LogicalField) :
    Option LogicalField :=
  if field ∈ done then settle sequence output parts field else some field

theorem order_of_stage (h : stage sequence output parts done field = some next) : next.order = field.order := by
  unfold stage at h
  split at h
  · exact order_of_settle h
  · rw [Option.some.inj h]

/-- Orders name the fields of a layout. -/
def Distinct (fields : Fields) : Prop := (fields.map LogicalField.order).Nodup

theorem Distinct.eq (h : Distinct fields) {a b : LogicalField} (ha : a ∈ fields) (hb : b ∈ fields)
    (same : a.order = b.order) : a = b := List.inj_on_of_nodup_map h ha hb same

theorem stage_other {other : LogicalField} (apart : other ≠ field) :
    stage sequence output parts (done ++ [field]) other = stage sequence output parts done other := by
  simp [stage, apart]

theorem stage_rewrite (distinct : Distinct fields) (member : field ∈ fields) (undone : field ∉ done)
    (becomes : settle sequence output parts field = some next) :
    fields.filterMap (stage sequence output parts (done ++ [field])) =
      rewriteField next (fields.filterMap (stage sequence output parts done)) := by
  have order := order_of_settle becomes
  rw [rewriteField, List.map_filterMap]
  refine List.filterMap_congr fun other other_member => ?_
  by_cases same : other = field
  · subst same
    simp [stage, undone, becomes, order]
  · rw [stage_other same]
    cases staged : stage sequence output parts done other with
    | none => rfl
    | some kept =>
      have apart : kept.order ≠ next.order := by
        rw [order_of_stage staged, order]
        exact fun equal => same (distinct.eq other_member member equal)
      simp [apart]

theorem stage_remove (distinct : Distinct fields) (member : field ∈ fields) (undone : field ∉ done)
    (vanishes : settle sequence output parts field = none) :
    fields.filterMap (stage sequence output parts (done ++ [field])) =
      removeField field.order (fields.filterMap (stage sequence output parts done)) := by
  rw [removeField, List.filter_filterMap]
  refine List.filterMap_congr fun other other_member => ?_
  by_cases same : other = field
  · subst same
    simp [stage, undone, vanishes, Option.filter]
  · rw [stage_other same]
    cases staged : stage sequence output parts done other with
    | none => rfl
    | some kept =>
      have apart : kept.order ≠ field.order := by
        rw [order_of_stage staged]
        exact fun equal => same (distinct.eq other_member member equal)
      simp [apart, Option.filter]

theorem stage_all : fields.filterMap (stage sequence output parts (fields.filter (inRange output))) =
    settled sequence output parts fields := by
  refine List.filterMap_congr fun field member => ?_
  by_cases ranged : inRange output field = true
  · simp [stage, member, ranged]
  · simp [stage, settle, ranged]

theorem stage_none : fields.filterMap (stage sequence output parts []) = fields := by
  conv_rhs => rw [← List.filterMap_some (l := fields)]
  exact List.filterMap_congr fun field _ => by simp [stage]

end Stages
end Wi.Layout
