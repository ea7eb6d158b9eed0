import Wi.Spelling

/-! JSON values, what a serializer writes for them, and its length in bytes. -/
namespace Wi
open Utf8

/-- A JSON value. A number keeps its spelling. -/
inductive Json where
  | null
  | bool (value : Bool)
  | number (spelling : Text)
  | string (value : Text)
  | array (values : List Json)
  | object (members : List (Text × Json))

namespace Json

mutual
def decEq : (a b : Json) → Decidable (a = b)
  | .null, .null => isTrue rfl
  | .bool a, .bool b => if h : a = b then isTrue (h ▸ rfl) else isFalse (fun e => h (Json.bool.inj e))
  | .number a, .number b =>
    if h : a = b then isTrue (h ▸ rfl) else isFalse (fun e => h (Json.number.inj e))
  | .string a, .string b =>
    if h : a = b then isTrue (h ▸ rfl) else isFalse (fun e => h (Json.string.inj e))
  | .array a, .array b =>
    match decEqList a b with
    | isTrue h => isTrue (h ▸ rfl)
    | isFalse h => isFalse (fun e => h (Json.array.inj e))
  | .object a, .object b =>
    match decEqMembers a b with
    | isTrue h => isTrue (h ▸ rfl)
    | isFalse h => isFalse (fun e => h (Json.object.inj e))
  | .null, .bool _ | .null, .number _ | .null, .string _ | .null, .array _ | .null, .object _
  | .bool _, .null | .bool _, .number _ | .bool _, .string _ | .bool _, .array _ | .bool _, .object _
  | .number _, .null | .number _, .bool _ | .number _, .string _ | .number _, .array _
  | .number _, .object _ | .string _, .null | .string _, .bool _ | .string _, .number _
  | .string _, .array _ | .string _, .object _ | .array _, .null | .array _, .bool _
  | .array _, .number _ | .array _, .string _ | .array _, .object _ | .object _, .null
  | .object _, .bool _ | .object _, .number _ | .object _, .string _ | .object _, .array _ =>
    isFalse (fun e => by cases e)

def decEqList : (a b : List Json) → Decidable (a = b)
  | [], [] => isTrue rfl
  | [], _ :: _ | _ :: _, [] => isFalse (fun e => by cases e)
  | a :: as, b :: bs =>
    match decEq a b with
    | isFalse h => isFalse (fun e => h (List.cons.inj e).1)
    | isTrue h =>
      match decEqList as bs with
      | isTrue t => isTrue (h ▸ t ▸ rfl)
      | isFalse t => isFalse (fun e => t (List.cons.inj e).2)

def decEqMembers : (a b : List (Text × Json)) → Decidable (a = b)
  | [], [] => isTrue rfl
  | [], _ :: _ | _ :: _, [] => isFalse (fun e => by cases e)
  | (k, a) :: as, (l, b) :: bs =>
    if key : k = l then
      match decEq a b with
      | isFalse h => isFalse (fun e => h (Prod.mk.inj (List.cons.inj e).1).2)
      | isTrue h =>
        match decEqMembers as bs with
        | isTrue t => isTrue (key ▸ h ▸ t ▸ rfl)
        | isFalse t => isFalse (fun e => t (List.cons.inj e).2)
    else isFalse (fun e => key (Prod.mk.inj (List.cons.inj e).1).1)
end

instance : DecidableEq Json := decEq

/-- `value.get(key)`: only objects have members. -/
def get (value : Json) (key : Text) : Option Json :=
  match value with
  | .object members => (members.find? fun member => member.1 == key).map (·.2)
  | _ => none

def asStr : Json → Option Text
  | .string value => some value
  | _ => none

def asArray : Json → Option (List Json)
  | .array values => some values
  | _ => none

def isNull (value : Json) : Bool := value = .null

def isObject : Json → Bool
  | .object _ => true
  | _ => false

/-- `value.as_u64()`: a number written as a plain decimal below `2 ^ 64`. -/
def asU64 : Json → Option UInt64
  | .number spelling =>
    let value := Nat.ofDigitChars 10 spelling 0
    if Spelling.decimal value = spelling && decide (value < 2 ^ 64) then some (UInt64.ofNat value) else none
  | _ => none

/-- `value[key]`: null where there is no such member. -/
def index (value : Json) (key : Text) : Json := (value.get key).getD .null

/-- Insertion into a map that keeps its keys in order. -/
def insertMember (key : Text) (value : Json) : List (Text × Json) → List (Text × Json)
  | [] => [(key, value)]
  | (other, old) :: members =>
    if other = key then (key, value) :: members
    else if key < other then (key, value) :: (other, old) :: members
    else (other, old) :: insertMember key value members

/-- `value[key] = member` for an object. -/
def set (value : Json) (key : Text) (member : Json) : Json :=
  match value with
  | .object members => .object (insertMember key member members)
  | other => other

/-- `json!` of an object literal. -/
def build (members : List (String × Json)) : Json :=
  .object (members.foldl (fun built member => insertMember member.1.toList member.2 built) [])

theorem find_insertMember (key other : Text) (value : Json) (members : List (Text × Json)) :
    (insertMember key value members).find? (fun member => member.1 == other) =
      if key = other then some (key, value) else members.find? (fun member => member.1 == other) := by
  induction members with
  | nil => by_cases found : key = other <;> simp [insertMember, found]
  | cons member members ih =>
    obtain ⟨name, old⟩ := member
    unfold insertMember
    split
    · rename_i same
      subst same
      by_cases found : name = other <;> simp [found]
    · split
      · by_cases found : key = other <;> simp [found]
      · rename_i different _
        by_cases found : name = other
        · subst found
          simp [Ne.symm different]
        · simp [found, ih]

theorem get_set (members : List (Text × Json)) (key other : Text) (value : Json) :
    (set (.object members) key value).get other =
      if key = other then some value else get (.object members) other := by
  simp only [set, get, find_insertMember]
  split <;> rfl

theorem find_build (members : List (String × Json)) (start : List (Text × Json)) (key : String) :
    ((members.foldl (fun built member => insertMember member.1.toList member.2 built) start).find?
        (fun member => member.1 == key.toList)).map (·.2) =
      ((members.reverse.find? (·.1 == key)).map (·.2)).or
        ((start.find? (fun member => member.1 == key.toList)).map (·.2)) := by
  induction members generalizing start with
  | nil => simp
  | cons member members ih =>
    rw [List.foldl_cons, ih, find_insertMember, List.reverse_cons, List.find?_append]
    by_cases found : member.1 = key
    · subst found
      cases members.reverse.find? (·.1 == member.1) <;> simp
    · have apart : member.1.toList ≠ key.toList := fun same => found (String.toList_inj.1 same)
      rw [if_neg apart]
      cases members.reverse.find? (·.1 == key) <;> simp [found]

theorem get_build (members : List (String × Json)) (key : String) :
    (build members).get key.toList = (members.reverse.find? (·.1 == key)).map (·.2) := by
  have found := find_build members [] key
  rw [List.find?_nil, Option.map_none, Option.or_none] at found
  exact found
theorem get_set_of_object {value : Json} (object : value.isObject = true) (key other : Text) (member : Json) :
    (value.set key member).get other = if key = other then some member else value.get other := by
  cases value with
  | object members => exact get_set members key other member
  | _ => cases object

theorem isObject_set (value : Json) (key : Text) (member : Json) : (value.set key member).isObject = value.isObject := by
  cases value <;> rfl

theorem isObject_of_get {value found : Json} {key : Text} (member : value.get key = some found) :
    value.isObject = true := by
  cases value with
  | object members => rfl
  | _ => cases member

mutual
/-- A lower bound for the length of the value's JSON text. -/
def weight : Json → Nat
  | .null | .bool _ => 1
  | .number spelling => Utf8.bytes spelling
  | .string value => Utf8.bytes value + 2
  | .array values => weightList values + 2
  | .object members => weightMembers members + 2

def weightList : List Json → Nat
  | [] => 0
  | value :: values => weight value + 1 + weightList values

def weightMembers : List (Text × Json) → Nat
  | [] => 0
  | (key, value) :: members => Utf8.bytes key + weight value + 1 + weightMembers members
end

/-- The value with its numbers left open. -/
def shape : Json → Json
  | .number _ => .number []
  | .array values => .array (values.map fun value => shape value)
  | .object members => .object (members.map fun member => (member.1, shape member.2))
  | other => other
decreasing_by
  · have := List.sizeOf_lt_of_mem ‹_›
    simp
    omega
  · obtain ⟨key, value⟩ := member
    have := List.sizeOf_lt_of_mem ‹_›
    simp at this ⊢
    omega

theorem get_shape (value : Json) (key : Text) : value.shape.get key = (value.get key).map shape := by
  cases value with
  | object members => simp [shape, get, List.find?_map, Function.comp_def]
  | _ => simp [shape, get]

theorem asStr_shape (value : Json) : value.shape.asStr = value.asStr := by
  cases value <;> simp [shape, asStr]

theorem asArray_shape (value : Json) : value.shape.asArray = value.asArray.map (List.map shape) := by
  cases value <;> simp [shape, asArray]

def backslash : Char := Char.ofNat 0x5c
def quotation : Char := Char.ofNat 0x22

/-- The letter of a two-character escape. -/
def shortEscape (c : Char) : Option Char :=
  match c.toNat with
  | 0x08 => some 'b'
  | 0x09 => some 't'
  | 0x0a => some 'n'
  | 0x0c => some 'f'
  | 0x0d => some 'r'
  | 0x22 | 0x5c => some c
  | _ => none

def escape (c : Char) : Text :=
  match shortEscape c with
  | some letter => [backslash, letter]
  | none => if c.toNat < 0x20 then backslash :: "u00".toList ++ Spelling.hexadecimal 2 c.toNat else [c]

def quote (text : Text) : Text := quotation :: text.flatMap escape ++ [quotation]

def separate : List Text → Text
  | [] => []
  | [part] => part
  | part :: parts => part ++ ',' :: separate parts

theorem bytes_separate (parts : List Text) :
    bytes (separate parts) = (parts.map bytes).sum + (parts.length - 1) := by
  induction parts with
  | nil => rfl
  | cons part parts ih =>
    cases parts with
    | nil => simp [separate]
    | cons next parts =>
      rw [separate, bytes_append, bytes_cons, ih]
      · simp only [List.map_cons, List.sum_cons, List.length_cons]
        have comma : ','.utf8Size = 1 := rfl
        omega
      · simp

theorem utf8Size_of_lt {c : Char} (h : c.toNat < 0x80) : c.utf8Size = 1 := by
  rw [Char.utf8Size]
  have small : c.val ≤ 0x7f := by
    rw [UInt32.le_iff_toNat_le]
    exact Nat.le_of_lt_succ h
  simp [small]

theorem shortEscape_eq_some {c letter : Char} (h : shortEscape c = some letter) :
    c.toNat < 0x80 ∧ letter.utf8Size = 1 := by
  unfold shortEscape at h
  split at h
  all_goals first | (cases h; done) | skip
  all_goals
    rename_i code
    cases h
    first
    | exact ⟨by omega, rfl⟩
    | exact ⟨by omega, utf8Size_of_lt (by omega)⟩

theorem bytes_escape (c : Char) : c.utf8Size ≤ bytes (escape c) ∧ bytes (escape c) ≤ 6 := by
  have slash : backslash.utf8Size = 1 := by decide
  unfold escape
  split
  · rename_i letter found
    have facts := shortEscape_eq_some found
    simp [slash, facts.2, utf8Size_of_lt facts.1]
  · split
    · rename_i control
      have letters : bytes "u00".toList = 3 := by decide
      simp only [List.cons_append, bytes_cons, bytes_append, slash, letters, Spelling.bytes_hexadecimal,
        utf8Size_of_lt (show c.toNat < 0x80 by omega)]
      omega
    · have four := c.utf8Size_le_four
      simp only [bytes_cons, bytes_nil]
      omega

/-- Length of the text between the quotation marks. -/
def escapedBytes (text : Text) : Nat := bytes (text.flatMap escape)

@[simp] theorem escapedBytes_nil : escapedBytes [] = 0 := rfl

@[simp] theorem escapedBytes_append (a b : Text) :
    escapedBytes (a ++ b) = escapedBytes a + escapedBytes b := by
  simp [escapedBytes]

theorem escapedBytes_cons (c : Char) (cs : Text) :
    escapedBytes (c :: cs) = bytes (escape c) + escapedBytes cs := by
  simp [escapedBytes]

theorem bytes_le_escapedBytes (text : Text) : bytes text ≤ escapedBytes text := by
  induction text with
  | nil => simp
  | cons c cs ih =>
    have scalar := (bytes_escape c).1
    rw [escapedBytes_cons, bytes_cons]
    omega

theorem escapedBytes_le (text : Text) : escapedBytes text ≤ 6 * text.length := by
  induction text with
  | nil => simp
  | cons c cs ih =>
    have scalar := (bytes_escape c).2
    rw [escapedBytes_cons, List.length_cons]
    omega

theorem bytes_quote (text : Text) : bytes (quote text) = escapedBytes text + 2 := by
  have mark : quotation.utf8Size = 1 := by decide
  simp only [quote, List.cons_append, bytes_cons, bytes_append, bytes_nil, mark, escapedBytes]
  omega

/-- A scalar the serializer writes as it is. -/
def plain (c : Char) : Bool := (shortEscape c).isNone && 0x20 ≤ c.toNat

theorem escapedBytes_of_plain {text : Text} (h : ∀ c ∈ text, plain c = true) :
    escapedBytes text = bytes text := by
  induction text with
  | nil => rfl
  | cons c cs ih =>
    have this : escape c = [c] := by
      have first := h c (by simp)
      simp only [plain, Bool.and_eq_true, Option.isNone_iff_eq_none, decide_eq_true_eq] at first
      rw [escape, first.1]
      exact if_neg (by omega)
    rw [escapedBytes_cons, this, ih fun d member => h d (by simp [member])]
    simp

end Json

/-- `serde_json::to_string`. A number's text is its spelling. -/
class JsonPrint where
  render : Json → Text
  render_null : render .null = "null".toList
  render_bool : ∀ value, render (.bool value) = if value then "true".toList else "false".toList
  render_number : ∀ spelling, render (.number spelling) = spelling
  render_string : ∀ text, render (.string text) = Json.quote text
  render_array : ∀ values, render (.array values) = '[' :: Json.separate (values.map render) ++ [']']
  render_object : ∀ members, render (.object members) = "\x7b".toList ++
    Json.separate (members.map fun member => Json.quote member.1 ++ ':' :: render member.2) ++ "\x7d".toList

export JsonPrint (render)

namespace Json

mutual
def compact : Json → Text
  | .null => "null".toList
  | .bool value => if value then "true".toList else "false".toList
  | .number spelling => spelling
  | .string value => quote value
  | .array values => '[' :: separate (compactList values) ++ [']']
  | .object members => "\x7b".toList ++ separate (compactMembers members) ++ "\x7d".toList

def compactList : List Json → List Text
  | [] => []
  | value :: values => compact value :: compactList values

def compactMembers : List (Text × Json) → List Text
  | [] => []
  | (key, value) :: members => (quote key ++ ':' :: compact value) :: compactMembers members
end

theorem compactList_eq (values : List Json) : compactList values = values.map compact := by
  induction values with
  | nil => rfl
  | cons value values ih => rw [compactList, ih, List.map_cons]

theorem compactMembers_eq (members : List (Text × Json)) :
    compactMembers members = members.map fun member => quote member.1 ++ ':' :: compact member.2 := by
  induction members with
  | nil => rfl
  | cons member members ih => rw [compactMembers, ih, List.map_cons]

@[reducible] def written : JsonPrint where
  render := compact
  render_null := rfl
  render_bool _ := rfl
  render_number _ := rfl
  render_string _ := rfl
  render_array values := by rw [compact, compactList_eq]
  render_object members := by rw [compact, compactMembers_eq]

variable [JsonPrint]

/-- Length of the serialized value. -/
def size (value : Json) : Nat := bytes (render value)

theorem size_null : size .null = 4 := by
  rw [size, JsonPrint.render_null]
  decide

theorem size_bool (value : Bool) : size (.bool value) = if value then 4 else 5 := by
  rw [size, JsonPrint.render_bool]
  cases value <;> decide

theorem size_number (spelling : Text) : size (.number spelling) = bytes spelling := by
  rw [size, JsonPrint.render_number]

theorem size_array (values : List Json) :
    size (.array values) = (values.map size).sum + (values.length - 1) + 2 := by
  have brackets : '['.utf8Size = 1 ∧ ']'.utf8Size = 1 := ⟨rfl, rfl⟩
  have same : (bytes ∘ render) = size := rfl
  simp only [size, JsonPrint.render_array, bytes_append, bytes_cons, bytes_nil, bytes_separate,
    List.map_map, List.length_map, brackets, same]
  omega

/-- Length of one member with its colon. -/
def memberSize (member : Text × Json) : Nat := bytes (quote member.1) + 1 + size member.2

theorem size_object (members : List (Text × Json)) :
    size (.object members) = (members.map memberSize).sum + (members.length - 1) + 2 := by
  have marks : bytes "\x7b".toList = 1 ∧ bytes "\x7d".toList = 1 ∧ ':'.utf8Size = 1 := by decide
  have same : bytes ∘ (fun member : Text × Json => quote member.1 ++ ':' :: render member.2) = memberSize := by
    funext member
    simp only [Function.comp_apply, bytes_append, bytes_cons, memberSize, size, marks]
    omega
  rw [size, JsonPrint.render_object]
  simp only [bytes_append, bytes_separate, List.map_map, List.length_map, same, marks]
  omega

theorem size_string (text : Text) : size (.string text) = escapedBytes text + 2 := by
  rw [size, JsonPrint.render_string, bytes_quote]

end Json
end Wi
