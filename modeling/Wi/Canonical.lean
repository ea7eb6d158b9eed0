import Wi.Ids
import Wi.Json
import Wi.Keyed

/-! Canonical JSON: every object is written with its members in key order. A canonical text identifies a
value up to the order of its members, and the hash of a run command identifies its request. -/
namespace Wi

namespace Json

/-- No object repeats a key, at any depth. -/
inductive Distinct : Json → Prop where
  | null : Distinct .null
  | bool (value : Bool) : Distinct (.bool value)
  | number (spelling : Text) : Distinct (.number spelling)
  | string (value : Text) : Distinct (.string value)
  | array {values : List Json} (each : ∀ value ∈ values, Distinct value) : Distinct (.array values)
  | object {members : List (Text × Json)} (keys : (members.map Prod.fst).Nodup) (each : ∀ member ∈ members, Distinct member.2) :
      Distinct (.object members)

/-- Collecting members into a map that keeps its keys in order. -/
def gather (members : List (Text × Json)) : List (Text × Json) :=
  members.foldl (fun built member => insertMember member.1 member.2 built) []

def sorted : Json → Json
  | .object members => .object (gather (members.map fun member => (member.1, sorted member.2)))
  | .array values => .array (values.map fun value => sorted value)
  | other => other
decreasing_by
  · obtain ⟨key, value⟩ := member
    have := List.sizeOf_lt_of_mem ‹_›
    simp at this ⊢
    omega
  · have := List.sizeOf_lt_of_mem ‹_›
    simp
    omega

/-- One object, at some depth, has its members in another order. -/
inductive Reordered : Json → Json → Prop where
  | here {members others : List (Text × Json)} (perm : members.Perm others) : Reordered (.object members) (.object others)
  | element {value other : Json} (front back : List Json) (inside : Reordered value other) :
      Reordered (.array (front ++ value :: back)) (.array (front ++ other :: back))
  | member {value other : Json} (front back : List (Text × Json)) (key : Text) (inside : Reordered value other) :
      Reordered (.object (front ++ (key, value) :: back)) (.object (front ++ (key, other) :: back))

/-- Equal, but for the order of the members of objects. -/
def Same : Json → Json → Prop := Relation.ReflTransGen Reordered

/-! ### The order of a map -/

theorem insertMember_eq_place {key : Text} {members : List (Text × Json)} (value : Json) (fresh : key ∉ members.map Prod.fst) :
    insertMember key value members = Keyed.place Prod.fst (key, value) members := by
  induction members with
  | nil => rfl
  | cons member members ih =>
    obtain ⟨first, rest⟩ := not_or.1 (List.mem_cons.not.1 fresh)
    rw [insertMember, if_neg (Ne.symm first), Keyed.place, List.orderedInsert_cons, ih rest, Keyed.place]
    simp only [Ne.le_iff_lt first]

theorem gather_facts {members : List (Text × Json)} (distinct : (members.map Prod.fst).Nodup) :
    Keyed.Ascending Prod.fst (gather members) ∧ (gather members).Perm members := by
  induction members using List.reverseRecOn with
  | nil => exact ⟨.nil, .refl _⟩
  | append_singleton members member ih =>
    rw [List.map_append, List.nodup_append] at distinct
    obtain ⟨ascending, perm⟩ := ih distinct.1
    have fresh : member.1 ∉ (gather members).map Prod.fst := by
      rw [(perm.map Prod.fst).mem_iff]
      exact fun earlier => distinct.2.2 _ earlier _ (by simp) rfl
    have grown : gather (members ++ [member]) = Keyed.place Prod.fst member (gather members) := by
      rw [gather, List.foldl_append]
      exact insertMember_eq_place _ fresh
    rw [grown]
    exact ⟨ascending.place fresh, (Keyed.place_perm member _).trans
      ((perm.cons member).trans (List.perm_append_singleton member members).symm)⟩

theorem gather_congr {members others : List (Text × Json)} (distinct : (members.map Prod.fst).Nodup)
    (perm : members.Perm others) : gather members = gather others := by
  have one := gather_facts distinct
  have two := gather_facts ((perm.map Prod.fst).nodup_iff.1 distinct)
  exact one.1.eq_of_perm two.1 (one.2.trans (perm.trans two.2.symm))

theorem keys_sorted (members : List (Text × Json)) :
    (members.map fun member => (member.1, member.2.sorted)).map Prod.fst = members.map Prod.fst := by
  simp

/-! ### A sorted value is the same value -/

theorem Same.symm {a b : Json} (same : Same a b) : Same b a := by
  have flipped {one two : Json} (step : Reordered one two) : Reordered two one := by
    induction step with
    | here perm => exact .here perm.symm
    | element front back _ ih => exact .element front back ih
    | member front back key _ ih => exact .member front back key ih
  induction same with
  | refl => exact .refl
  | tail _ step ih => exact .head (flipped step) ih

theorem Same.inside {place : Json → Json} (lifts : ∀ one two, Reordered one two → Reordered (place one) (place two)) {a b : Json}
    (same : Same a b) : Same (place a) (place b) := by
  induction same with
  | refl => exact .refl
  | tail _ step ih => exact .tail ih (lifts _ _ step)

theorem Same.elements (front : List Json) {values : List Json} (each : ∀ value ∈ values, Same value value.sorted) :
    Same (.array (front ++ values)) (.array (front ++ values.map sorted)) := by
  induction values generalizing front with
  | nil => exact .refl
  | cons value values ih =>
    obtain ⟨first, others⟩ := List.forall_mem_cons.1 each
    have rest := ih (front ++ [value.sorted]) others
    simp only [List.append_assoc, List.singleton_append] at rest
    exact (first.inside fun _ _ => .element front values).trans rest

theorem Same.members (front : List (Text × Json)) {members : List (Text × Json)} (each : ∀ member ∈ members, Same member.2 member.2.sorted) :
    Same (.object (front ++ members)) (.object (front ++ members.map fun member => (member.1, member.2.sorted))) := by
  induction members generalizing front with
  | nil => exact .refl
  | cons member members ih =>
    obtain ⟨first, others⟩ := List.forall_mem_cons.1 each
    have rest := ih (front ++ [(member.1, member.2.sorted)]) others
    simp only [List.append_assoc, List.singleton_append] at rest
    exact (first.inside fun _ _ => .member front members member.1).trans rest

theorem Distinct.same_sorted {value : Json} (distinct : value.Distinct) : Same value value.sorted := by
  induction distinct with
  | null | bool | number | string => rw [sorted] <;> first | exact .refl | simp
  | array _ ih =>
    rw [sorted]
    exact Same.elements [] ih
  | @object members keys _ ih =>
    rw [sorted]
    exact (Same.members [] ih).tail (.here (gather_facts ((keys_sorted members).symm ▸ keys)).2.symm)

theorem Reordered.sorted_eq {a b : Json} (step : Reordered a b) (distinct : a.Distinct) :
    a.sorted = b.sorted ∧ b.Distinct := by
  induction step with
  | @here members others perm =>
    obtain _ | _ | _ | _ | _ | ⟨keys, each⟩ := distinct
    refine ⟨?_, .object ((perm.map Prod.fst).nodup_iff.1 keys) fun member inside => each _ (perm.mem_iff.2 inside)⟩
    rw [sorted, sorted, gather_congr ((keys_sorted members).symm ▸ keys) (perm.map _)]
  | @element value other front back _ ih =>
    obtain _ | _ | _ | _ | each := distinct
    obtain ⟨same, kept⟩ := ih (each value (by simp))
    refine ⟨by simp [sorted, same], .array fun one inside => ?_⟩
    grind
  | @member value other front back key _ ih =>
    obtain _ | _ | _ | _ | _ | ⟨keys, each⟩ := distinct
    obtain ⟨same, kept⟩ := ih (each (key, value) (by simp))
    refine ⟨by simp [sorted, same], .object (by simpa using keys) fun one inside => ?_⟩
    grind

theorem Same.sorted_eq {a b : Json} (same : Same a b) (distinct : a.Distinct) : a.sorted = b.sorted ∧ b.Distinct := by
  induction same with
  | refl => exact ⟨rfl, distinct⟩
  | tail _ step ih => exact ⟨ih.1.trans (step.sorted_eq ih.2).1, (step.sorted_eq ih.2).2⟩

theorem sorted_eq_iff {a b : Json} (one : a.Distinct) (two : b.Distinct) : a.sorted = b.sorted ↔ Same a b :=
  ⟨fun equal => one.same_sorted.trans (equal ▸ two.same_sorted.symm), fun same => (same.sorted_eq one).1⟩

theorem Same.member {members others : List (Text × Json)} (same : Same (.object members) (.object others))
    (distinct : (Json.object members).Distinct) {key : Text} {a b : Json} (one : (key, a) ∈ members) (two : (key, b) ∈ others) :
    Same a b := by
  obtain ⟨equal, other⟩ := same.sorted_eq distinct
  rw [sorted, sorted, Json.object.injEq] at equal
  obtain _ | _ | _ | _ | _ | ⟨keys, each⟩ := distinct
  obtain _ | _ | _ | _ | _ | ⟨keys', each'⟩ := other
  have unique := (keys_sorted others).symm ▸ keys'
  have perm := (gather_facts ((keys_sorted members).symm ▸ keys)).2.symm.trans (equal ▸ (gather_facts unique).2)
  have there := perm.mem_iff.1 (List.mem_map_of_mem one)
  have equal := List.inj_on_of_nodup_map unique there (List.mem_map_of_mem two) rfl
  exact (sorted_eq_iff (each _ one) (each' _ two)).1 (Prod.mk.inj equal).2

theorem Same.string {a b : Text} (same : Same (.string a) (.string b)) : a = b := by
  simpa [sorted] using (same.sorted_eq (.string a)).1

/-- A value of the serializer, whose objects are maps. -/
abbrev Value := { value : Json // value.Distinct }

end Json

namespace Canonical
open Json

/-- The printer and the parser of the serializer and the digest. Printing and reading a value back gives the
same value; no two texts share a digest. -/
structure Encoding (τ δ : Type) where
  toString : Value → τ
  fromStr : τ → Option Value
  digest : τ → δ
  round : ∀ value, ∃ read, fromStr (toString value) = some read ∧ Same value read
  injective : Function.Injective digest

namespace Encoding

variable {τ δ : Type} (encoding : Encoding τ δ)

/-- `canonical_json` of a serialized value. -/
def canonicalJson (value : Value) : τ :=
  encoding.toString ⟨value.1.sorted, (value.2.same_sorted.sorted_eq value.2).2⟩

theorem canonicalJson_eq_iff (a b : Value) : encoding.canonicalJson a = encoding.canonicalJson b ↔ Same a b := by
  rw [← sorted_eq_iff a.2 b.2]
  constructor
  · intro equal
    obtain ⟨one, first, same⟩ := encoding.round ⟨a.1.sorted, (a.2.same_sorted.sorted_eq a.2).2⟩
    obtain ⟨two, second, other⟩ := encoding.round ⟨b.1.sorted, (b.2.same_sorted.sorted_eq b.2).2⟩
    obtain rfl : one = two := Option.some.inj (first.symm.trans ((congrArg encoding.fromStr equal).trans second))
    exact (sorted_eq_iff a.2 b.2).2 ((a.2.same_sorted.trans same).trans (other.symm.trans b.2.same_sorted.symm))
  · intro equal
    simp only [canonicalJson, equal]

end Encoding

/-! ### Requests of runs -/

/-- What a command asks of a run, serialized. -/
inductive Mutation where
  | accept (input : Value)
  | acceptHistory (input selection : Value)
  | append (records : List Value)

namespace Mutation

def method : Mutation → Text
  | .accept .. => "accept_run".toList
  | .acceptHistory .. => "accept_history_run".toList
  | .append .. => "append_run_records".toList

def payload : Mutation → List (Text × Json)
  | .accept input => [("input".toList, input)]
  | .acceptHistory input selection => [("input".toList, input), ("selection".toList, selection)]
  | .append records => [("records".toList, .array (records.map Subtype.val))]

/-- The members of a request: its mutation is flattened into it. -/
def request (id : ApplicationSessionId) (runId : RunId) (mutation : Mutation) : List (Text × Json) :=
  ("session_id".toList, .string id.text) :: ("run_id".toList, .string runId.text) ::
    ("method".toList, .string mutation.method) :: mutation.payload

theorem records_distinct (records : List Value) : (Json.array (records.map Subtype.val)).Distinct := by
  refine .array fun value inside => ?_
  obtain ⟨record, _, rfl⟩ := List.mem_map.1 inside
  exact record.2

theorem request_distinct (id : ApplicationSessionId) (runId : RunId) (mutation : Mutation) :
    (Json.object (mutation.request id runId)).Distinct := by
  have each : ∀ member ∈ mutation.payload, member.2.Distinct := by
    cases mutation with
    | accept input => simpa [payload] using input.2
    | acceptHistory input selection => simpa [payload] using ⟨input.2, selection.2⟩
    | append records => simpa [payload] using records_distinct records
  refine .object ?_ (by simpa [request, Distinct.string] using each)
  cases mutation <;> simp [request, payload]

/-- The same method, with payloads that are the same values. -/
inductive Same : Mutation → Mutation → Prop where
  | accept {input other : Value} (same : Json.Same input other) : Same (.accept input) (.accept other)
  | acceptHistory {input other selection selected : Value} (same : Json.Same input other) (choice : Json.Same selection selected) :
      Same (.acceptHistory input selection) (.acceptHistory other selected)
  | append {records others : List Value} (same : Json.Same (.array (records.map Subtype.val)) (.array (others.map Subtype.val))) :
      Same (.append records) (.append others)

end Mutation

namespace Encoding

variable {τ δ : Type} (encoding : Encoding τ δ)

def commandHash (id : ApplicationSessionId) (runId : RunId) (mutation : Mutation) : δ :=
  encoding.digest (encoding.canonicalJson ⟨.object (mutation.request id runId), mutation.request_distinct id runId⟩)

theorem commandHash_inj {id id' : ApplicationSessionId} {runId runId' : RunId} {mutation mutation' : Mutation}
    (equal : encoding.commandHash id runId mutation = encoding.commandHash id' runId' mutation') :
    id = id' ∧ runId = runId' ∧ mutation.Same mutation' := by
  have same := (encoding.canonicalJson_eq_iff _ _).1 (encoding.injective equal)
  have named {key : Text} {a b : Json} (one : (key, a) ∈ mutation.request id runId) (two : (key, b) ∈ mutation'.request id' runId') :=
    same.member (mutation.request_distinct id runId) one two
  have session := (named (.head _) (.head _)).string
  have run := (named (.tail _ (.head _)) (.tail _ (.head _))).string
  have method := (named (.tail _ (.tail _ (.head _))) (.tail _ (.tail _ (.head _)))).string
  have payload {key : Text} {a b : Json} (one : (key, a) ∈ mutation.payload) (two : (key, b) ∈ mutation'.payload) :=
    named (.tail _ (.tail _ (.tail _ one))) (.tail _ (.tail _ (.tail _ two)))
  refine ⟨(Uuid.mk.injEq ..).mpr session, (Uuid.mk.injEq ..).mpr run, ?_⟩
  cases mutation <;> cases mutation'
  case accept.accept => exact .accept (payload (.head _) (.head _))
  case acceptHistory.acceptHistory => exact .acceptHistory (payload (.head _) (.head _)) (payload (.tail _ (.head _)) (.tail _ (.head _)))
  case append.append => exact .append (payload (.head _) (.head _))
  all_goals exact absurd (String.toList_inj.1 method) (by decide)

/-- A canonical text identifies a value up to the order of members, at every depth; it is its own canonical text;
and the hash of a command identifies its session, its run, its method and its payload. -/
theorem canonical_identifies : (∀ a b : Value, encoding.canonicalJson a = encoding.canonicalJson b ↔ Json.Same a b) ∧
    (∀ value : Value, ∃ read, encoding.fromStr (encoding.canonicalJson value) = some read ∧
      encoding.canonicalJson read = encoding.canonicalJson value) ∧
    ∀ (id id' : ApplicationSessionId) (runId runId' : RunId) (mutation mutation' : Mutation),
      encoding.commandHash id runId mutation = encoding.commandHash id' runId' mutation' →
      id = id' ∧ runId = runId' ∧ mutation.Same mutation' := by
  refine ⟨encoding.canonicalJson_eq_iff, fun value => ?_, fun _ _ _ _ _ _ => encoding.commandHash_inj⟩
  obtain ⟨read, printed, same⟩ := encoding.round ⟨value.1.sorted, (value.2.same_sorted.sorted_eq value.2).2⟩
  exact ⟨read, printed, (encoding.canonicalJson_eq_iff read value).2 (Same.symm (value.2.same_sorted.trans same))⟩

def pair (first second : String) (differ : first.toList ≠ second.toList) : Value :=
  ⟨.object [(first.toList, .null), (second.toList, .null)], .object (by simpa using differ) (by simp [Distinct.null])⟩

/-- A request that accepts a run, with its members and those of its input in key order. -/
def ordered : Value :=
  ⟨.object [("input".toList, (pair "a" "b" (by decide)).1), ("method".toList, .string "accept_run".toList),
      ("run_id".toList, .string Uuid.one.text), ("session_id".toList, .string Uuid.one.text)],
    .object (by decide) (by simp [Distinct.string, (pair "a" "b" (by decide)).2])⟩

/-- The values that `serde_json` prints here; every other value stands for its own text. -/
def table : List Value := [pair "a" "b" (by decide), ordered]

/-- The texts and the digest that the serializer and SHA-256 give for the values of the table. -/
def tabled : Encoding (Text ⊕ Value) (Text ⊕ (Text ⊕ Value)) where
  toString value := if value ∈ table then .inl (compact value.1) else .inr value
  fromStr
    | .inl text => table.find? fun value => compact value.1 = text
    | .inr value => some value
  digest text :=
    if text = .inl (compact ordered.1) then .inl "7ce5cd5ac41ad8b808eb401de7eb2b44ab6949bcfc172efc563ca4e6a2ed0469".toList
    else .inr text
  round value := by
    by_cases inside : value ∈ table
    · rw [if_pos inside]
      obtain rfl | rfl : value = pair "a" "b" (by decide) ∨ value = ordered := by simpa [table] using inside
      · exact ⟨_, by decide +kernel, .refl⟩
      · exact ⟨_, by decide +kernel, .refl⟩
    · exact ⟨value, by rw [if_neg inside], .refl⟩
  injective a b equal := by
    by_cases one : a = .inl (compact ordered.1) <;> by_cases two : b = .inl (compact ordered.1) <;> simp_all

theorem sorted_pair : (pair "b" "a" (by decide)).1.sorted = (pair "a" "b" (by decide)).1 := by
  simp only [pair, sorted, List.map_cons, List.map_nil]
  decide +kernel

theorem sorted_request : (Json.object (Mutation.request Uuid.one Uuid.one (.accept (pair "b" "a" (by decide))))).sorted = ordered.1 := by
  simp only [Mutation.request, Mutation.payload, sorted, List.map_cons, List.map_nil, sorted_pair]
  decide +kernel

/-- Two inputs that differ in the order of their members have one text and one request hash. -/
theorem canonical_identifies_ordered :
    tabled.canonicalJson (pair "b" "a" (by decide)) = .inl "\x7b\"a\":null,\"b\":null\x7d".toList ∧
      tabled.canonicalJson (pair "b" "a" (by decide)) = tabled.canonicalJson (pair "a" "b" (by decide)) ∧
      tabled.commandHash Uuid.one Uuid.one (.accept (pair "b" "a" (by decide))) =
        .inl "7ce5cd5ac41ad8b808eb401de7eb2b44ab6949bcfc172efc563ca4e6a2ed0469".toList ∧
      Mutation.Same (.accept (pair "b" "a" (by decide))) (.accept (pair "a" "b" (by decide))) := by
  have same : Json.Same (pair "b" "a" (by decide)) (pair "a" "b" (by decide)) := .single (.here (.swap ..))
  have hashed : tabled.commandHash Uuid.one Uuid.one (.accept (pair "b" "a" (by decide))) =
      tabled.commandHash Uuid.one Uuid.one (.accept (pair "a" "b" (by decide))) :=
    congrArg tabled.digest (((canonical_identifies tabled).1 _ _).2 (.single (.member [_, _, _] [] _ (.here (.swap ..)))))
  refine ⟨?_, ((canonical_identifies tabled).1 _ _).2 same, ?_, ((canonical_identifies tabled).2.2 _ _ _ _ _ _ hashed).2.2⟩
  · simp only [canonicalJson, sorted_pair]
    decide +kernel
  · simp only [commandHash, canonicalJson, sorted_request]
    decide +kernel

end Encoding
end Canonical
end Wi
