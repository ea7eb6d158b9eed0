import Wi.Consistency

/-! The consistency check accepts exactly the streams that agree with the terminal output, whatever
the order of their events. -/
namespace Wi.Codex.Lifecycle
open Codec

/-! ### What one event says -/

/-- A nonempty piece of streamed text or refusal. -/
structure Piece where
  index : UInt64
  id : Text
  content : Option Nat
  kind : DeltaKind
  text : Text
  deriving DecidableEq

def piece : ProviderEvent → Option Piece
  | .outputItemUpdated _ id index content _ kind delta =>
    if tracked kind && !delta.isEmpty then some ⟨index, id, content.map (·.toNat), kind, delta⟩ else none
  | _ => none

/-- The output index and the item of an event about a whole item. -/
def wholeItem : ProviderEvent → Option (UInt64 × OutputItem)
  | .outputItemStarted _ index item | .outputItemFinished _ index item => some (index, item)
  | _ => none

def usedKind (event : ProviderEvent) : Option (UInt64 × ItemKind) :=
  ((wholeItem event).map fun (index, item) => (index, item.kind)).or ((piece event).map fun piece => (piece.index, .message))

/-- A message or function call, with the native type it must have. -/
def namedItem (event : ProviderEvent) : Option (UInt64 × OutputItem × Text) := do
  let (index, item) ← wholeItem event
  return (index, item, ← expectedType item.kind)

def usedId (event : ProviderEvent) : Option (UInt64 × Text) :=
  ((namedItem event).bind fun (index, item, _) => item.id.map (index, ·)).or
    ((piece event).map fun piece => (piece.index, piece.id))

/-- The native form of a finished message or function call. -/
def finishedNative : ProviderEvent → Option (UInt64 × Json)
  | .outputItemFinished _ index item => (expectedType item.kind).map fun _ => (index, item.native)
  | _ => none

/-- What an event is charged: its own text, and the rendered copy of a piece. -/
def weight [JsonPrint] (event : ProviderEvent) : Nat :=
  ((Serialized.event event).map Json.size).getD 0 + ((piece event).map fun piece => Utf8.bytes piece.text).getD 0

/-- An event that is in order by itself. -/
structure InOrder (event : ProviderEvent) : Prop where
  index : ∀ index kind, usedKind event = some (index, kind) → index.toNat < maxItems
  item : ∀ index item type, namedItem event = some (index, item, type) → item.nativeType = type ∧
    stringMember item.native "type" = some type ∧ item.id.isSome = true ∧ stringMember item.native "id" = item.id
  id : ∀ index id, usedId event = some (index, id) → id ≠ []
  content : ∀ found, piece event = some found → ∃ content, found.content = some content ∧ content < maxItems

/-- Two events that do not contradict one another. -/
structure Agree (one two : ProviderEvent) : Prop where
  kind : ∀ index kind kind', usedKind one = some (index, kind) → usedKind two = some (index, kind') → kind = kind'
  id : ∀ index id index' id', usedId one = some (index, id) → usedId two = some (index', id') → (index = index' ↔ id = id')
  finished : ∀ index native native', finishedNative one = some (index, native) →
    finishedNative two = some (index, native') → native = native'
  part : ∀ found found', piece one = some found → piece two = some found' → found.index = found'.index →
    found.content = found'.content → found.kind = found'.kind

/-- The text streamed for a part, in order of arrival. -/
def streamed (events : List ProviderEvent) (index : UInt64) (content : Nat) : Text :=
  ((events.filterMap piece).filter fun piece => piece.index == index && piece.content == some content).flatMap (·.text)

/-- The terminal message with this id has, at this place, a part of this kind that starts with the
given text. -/
def PartShown (response : ModelResponse) (found : Piece) (content : Nat) (text : Text) : Prop :=
  ∃ item part final, response.output[found.index.toNat]? = some item ∧ item.kind = .message ∧
    item.nativeType = "message".toList ∧ stringMember item.native "type" = some "message".toList ∧
    item.id = some found.id ∧ stringMember item.native "id" = some found.id ∧
    ((item.native.get "content".toList).bind Json.asArray).bind (·[content]?) = some part ∧
    stringMember part "type" = some (partField found.kind).1.toList ∧
    stringMember part (partField found.kind).2 = some final ∧ text <+: final

/-- The events keep within the limits, and none contradicts itself or another. -/
structure Orderly [JsonPrint] (events : List ProviderEvent) : Prop where
  count : events.length ≤ maxEvents
  bytes : (events.map weight).sum ≤ maxBytes
  finishes : (events.filterMap finishedNative).length ≤ maxItems
  each : ∀ event ∈ events, InOrder event
  pairs : ∀ one ∈ events, ∀ two ∈ events, Agree one two

/-- The events also agree with the terminal response. -/
structure Consistent [JsonPrint] (events : List ProviderEvent) (response : ModelResponse) : Prop where
  count : events.length ≤ maxEvents
  bytes : (events.map weight).sum ≤ maxBytes
  finishes : (events.filterMap finishedNative).length ≤ maxItems
  each : ∀ event ∈ events, InOrder event
  kinds : ∀ one ∈ events, ∀ two ∈ events, ∀ index kind kind', usedKind one = some (index, kind) →
    usedKind two = some (index, kind') → kind = kind'
  ids : ∀ one ∈ events, ∀ two ∈ events, ∀ index id index' id', usedId one = some (index, id) →
    usedId two = some (index', id') → (index = index' ↔ id = id')
  finished : ∀ event ∈ events, ∀ index native, finishedNative event = some (index, native) →
    (response.output[index.toNat]?).map (·.native) = some native
  parts : ∀ one ∈ events, ∀ two ∈ events, ∀ found found', piece one = some found → piece two = some found' →
    found.index = found'.index → found.content = found'.content → found.kind = found'.kind
  texts : ∀ event ∈ events, ∀ found content, piece event = some found → found.content = some content →
    PartShown response found content (streamed events found.index content)

/-! ### The next state -/

def remember [DecidableEq α] (list : List α) (entry : Option α) : List α :=
  match entry with
  | none => list
  | some entry => if entry ∈ list then list else list ++ [entry]

theorem mem_remember [DecidableEq α] {list : List α} {entry : Option α} {other : α} :
    other ∈ remember list entry ↔ other ∈ list ∨ entry = some other := by
  cases entry with
  | none => simp [remember]
  | some entry =>
    simp only [remember]
    split <;> grind

/-- The state after an event that is accepted. -/
def track [JsonPrint] (state : Lifecycle) (event : ProviderEvent) : Lifecycle where
  bytes := state.bytes + weight event
  events := state.events + 1
  identities := remember state.identities (usedId event)
  kinds := remember state.kinds (usedKind event)
  parts := match piece event with
    | none => state.parts
    | some found => pushText state.parts found.index (found.content.getD 0) found.kind found.text
  finalized := state.finalized ++ (finishedNative event).toList
  rendered := state.rendered ++ ((piece event).map (·.text)).getD []

/-- A state in which no two entries contradict one another. -/
structure Regular (state : Lifecycle) : Prop where
  bytes : state.bytes ≤ maxBytes
  ids : ∀ one ∈ state.identities, ∀ two ∈ state.identities, (one.1 = two.1 ↔ one.2 = two.2)
  kinds : ∀ one ∈ state.kinds, ∀ two ∈ state.kinds, one.1 = two.1 → one.2 = two.2
  parts : ∀ one ∈ state.parts, ∀ two ∈ state.parts, one.index = two.index → one.content = two.content → one = two

/-- An event that is in order and contradicts nothing seen. -/
structure Allowed [JsonPrint] (state : Lifecycle) (event : ProviderEvent) : Prop where
  count : state.events + 1 ≤ maxEvents
  bytes : state.bytes + weight event ≤ maxBytes
  finishes : (state.finalized ++ (finishedNative event).toList).length ≤ maxItems
  self : InOrder event
  kind : ∀ index kind, usedKind event = some (index, kind) → ∀ old ∈ state.kinds, old.1 = index → old.2 = kind
  id : ∀ index id, usedId event = some (index, id) → ∀ old ∈ state.identities, (old.1 = index ↔ old.2 = id)
  finished : ∀ index native, finishedNative event = some (index, native) → ∀ old ∈ state.finalized,
    old.1 = index → old.2 = native
  part : ∀ found, piece event = some found → ∀ old ∈ state.parts, old.index = found.index →
    some old.content = found.content → old.kind = found.kind

variable {state next : Lifecycle}

theorem charge_eq_ok {size : Nat} (within : state.bytes ≤ maxBytes) :
    state.charge size = .ok next ↔ state.bytes + size ≤ maxBytes ∧ next = { state with bytes := state.bytes + size } := by
  simp only [charge, bind_eq_ok, demand_eq_ok, decide_eq_true_eq, pure_eq_ok, Except.ok.injEq]
  constructor
  · rintro ⟨_, fits, rfl⟩
    exact ⟨by omega, rfl⟩
  · rintro ⟨fits, rfl⟩
    exact ⟨(), by omega, rfl⟩

variable {index : UInt64} {id : Text}

theorem identity_eq_ok
    (ids : ∀ one ∈ state.identities, ∀ two ∈ state.identities, (one.1 = two.1 ↔ one.2 = two.2)) :
    state.identity index id = .ok next ↔
      (id ≠ [] ∧ index.toNat < maxItems ∧ ∀ old ∈ state.identities, (old.1 = index ↔ old.2 = id)) ∧
        next = { state with identities := remember state.identities (some (index, id)) } := by
  simp only [identity, bind_eq_ok, demand_eq_ok, Bool.not_eq_true', Bool.or_eq_false_iff, List.isEmpty_eq_false_iff,
    decide_eq_false_iff_not, not_le]
  cases found : state.identities.find? fun old => old.1 == index || old.2 == id with
  | none =>
    -- neither the index nor the id was seen
    have unseen : ∀ old ∈ state.identities, ¬old.1 = index ∧ ¬old.2 = id := by
      simpa [List.find?_eq_none] using found
    have new : (index, id) ∉ state.identities := fun inside => (unseen _ inside).1 rfl
    simp only [remember, if_neg new, pure_eq_ok, Except.ok.injEq]
    grind
  | some old =>
    have inside := List.mem_of_find?_eq_some found
    have touches := List.find?_some found
    simp only [Bool.or_eq_true, beq_iff_eq] at touches
    simp only [bind_eq_ok, demand_eq_ok, Bool.and_eq_true, beq_iff_eq, pure_eq_ok, Except.ok.injEq]
    have same := ids old inside
    by_cases known : (index, id) ∈ state.identities
    · simp only [remember, if_pos known]
      change _ ↔ _ ∧ next = state
      grind
    · grind

theorem kind_eq_ok {used : ItemKind}
    (kinds : ∀ one ∈ state.kinds, ∀ two ∈ state.kinds, one.1 = two.1 → one.2 = two.2) :
    state.kind index used = .ok next ↔
      (index.toNat < maxItems ∧ ∀ old ∈ state.kinds, old.1 = index → old.2 = used) ∧
        next = { state with kinds := remember state.kinds (some (index, used)) } := by
  simp only [kind, bind_eq_ok, demand_eq_ok, decide_eq_true_eq]
  cases found : state.kinds.find? fun old => old.1 == index with
  | none =>
    have unseen : ∀ old ∈ state.kinds, ¬old.1 = index := by simpa [List.find?_eq_none] using found
    have new : (index, used) ∉ state.kinds := fun inside => unseen _ inside rfl
    simp only [remember, if_neg new, pure_eq_ok, Except.ok.injEq]
    grind
  | some old =>
    have inside := List.mem_of_find?_eq_some found
    have same : old.1 = index := by simpa using List.find?_some found
    simp only [bind_eq_ok, demand_eq_ok, beq_iff_eq, pure_eq_ok, Except.ok.injEq]
    have alike := kinds old inside
    by_cases known : (index, used) ∈ state.kinds
    · simp only [remember, if_pos known]
      change _ ↔ _ ∧ next = state
      grind
    · grind

theorem finalize_eq_ok {native : Json} :
    state.finalize index native = .ok next ↔
      (state.finalized.length < maxItems ∧ ∀ old ∈ state.finalized, old.1 = index → old.2 = native) ∧
        next = { state with finalized := state.finalized ++ [(index, native)] } := by
  simp only [finalize, bind_eq_ok, demand_eq_ok, decide_eq_true_eq, pure_eq_ok, Except.ok.injEq, Bool.not_eq_true',
    List.any_eq_false, Bool.and_eq_true, beq_iff_eq, bne_iff_ne, not_and, not_not]
  constructor
  · rintro ⟨_, room, _, agrees, rfl⟩
    exact ⟨⟨room, agrees⟩, rfl⟩
  · rintro ⟨⟨room, agrees⟩, rfl⟩
    exact ⟨(), room, (), agrees, rfl⟩

/-- A whole item is in order and contradicts nothing seen. -/
def Suits (state : Lifecycle) (index : UInt64) (found : OutputItem) (finished : Bool) : Prop :=
  index.toNat < maxItems ∧ (∀ old ∈ state.kinds, old.1 = index → old.2 = found.kind) ∧
    ∀ type, expectedType found.kind = some type → found.nativeType = type ∧
      stringMember found.native "type" = some type ∧ ∃ id, found.id = some id ∧
      stringMember found.native "id" = some id ∧ id ≠ [] ∧
      (∀ old ∈ state.identities, (old.1 = index ↔ old.2 = id)) ∧
      (finished = true → state.finalized.length < maxItems ∧ ∀ old ∈ state.finalized, old.1 = index → old.2 = found.native)

/-- The state that has taken note of a whole item. -/
def noted (state : Lifecycle) (index : UInt64) (found : OutputItem) (finished : Bool) : Lifecycle :=
  { state with
    kinds := remember state.kinds (some (index, found.kind))
    identities := remember state.identities ((expectedType found.kind).bind fun _ => found.id.map (index, ·))
    finalized := state.finalized ++ (if finished then (expectedType found.kind).map fun _ => (index, found.native) else none).toList }

theorem item_eq_ok {found : OutputItem} {finished : Bool} (regular : Regular state) :
    state.item index found finished = .ok next ↔ state.Suits index found finished ∧ next = state.noted index found finished := by
  simp only [item, bind_eq_ok, kind_eq_ok regular.kinds, Suits, noted]
  cases tracked : expectedType found.kind with
  | none =>
    simp only [pure_eq_ok, Except.ok.injEq, Option.bind_none, Option.map_none, ite_self, Option.toList_none,
      List.append_nil, remember]
    grind
  | some type =>
    simp only [bind_eq_ok, demand_eq_ok, obtained_eq_ok, Bool.and_eq_true, beq_iff_eq, Option.bind_some, Option.map_some]
    constructor
    · rintro ⟨_, ⟨⟨small, agrees⟩, rfl⟩, _, ⟨native, typed⟩, id, named, _, identified, _, sameId, rest⟩
      obtain ⟨⟨nonempty, _, unique⟩, rfl⟩ := (identity_eq_ok (by exact regular.ids)).1 identified
      rw [named, Option.map_some]
      cases finished with
      | false =>
        cases rest
        exact ⟨by grind, by simp⟩
      | true =>
        obtain ⟨⟨room, equal⟩, rfl⟩ := finalize_eq_ok.1 rest
        exact ⟨by grind, rfl⟩
    · rintro ⟨⟨small, agrees, typed⟩, rfl⟩
      obtain ⟨native, typed, id, named, sameId, nonempty, unique, room⟩ := typed type rfl
      refine ⟨_, ⟨⟨small, agrees⟩, rfl⟩, (), ⟨native, typed⟩, id, named, _,
        (identity_eq_ok (by exact regular.ids)).2 ⟨⟨nonempty, small, unique⟩, rfl⟩, (), sameId.trans named.symm, ?_⟩
      rw [named, Option.map_some]
      cases finished with
      | false => simp
      | true => exact finalize_eq_ok.2 ⟨room rfl, rfl⟩

variable {used : DeltaKind}

theorem update_eq_ok {contentIndex : Option UInt64} {delta : Text} (regular : Regular state)
    (nonempty : delta ≠ []) :
    state.update index id contentIndex used delta = .ok next ↔
      (id ≠ [] ∧ index.toNat < maxItems ∧ (∀ old ∈ state.identities, (old.1 = index ↔ old.2 = id)) ∧
        (∀ old ∈ state.kinds, old.1 = index → old.2 = .message) ∧ state.bytes + Utf8.bytes delta ≤ maxBytes ∧
        ∃ content, contentIndex = some content ∧ content.toNat < maxItems ∧
          ∀ old ∈ state.parts, old.index = index → old.content = content.toNat → old.kind = used) ∧
      next = { state with
        kinds := remember state.kinds (some (index, .message))
        identities := remember state.identities (some (index, id))
        bytes := state.bytes + Utf8.bytes delta
        parts := pushText state.parts index ((contentIndex.map (·.toNat)).getD 0) used delta
        rendered := state.rendered ++ delta } := by
  unfold update
  rw [if_neg (by simpa using nonempty)]
  simp only [bind_eq_ok, demand_eq_ok, obtained_eq_ok, decide_eq_true_eq, pure_eq_ok, Except.ok.injEq]
  constructor
  · rintro ⟨_, identified, _, kinded, _, charged, content, named, _, small, _, same, rfl⟩
    obtain ⟨⟨present, bound, unique⟩, rfl⟩ := (identity_eq_ok (by exact regular.ids)).1 identified
    obtain ⟨⟨_, agrees⟩, rfl⟩ := (kind_eq_ok (by exact regular.kinds)).1 kinded
    obtain ⟨fits, rfl⟩ := (charge_eq_ok (by exact regular.bytes)).1 charged
    subst named
    refine ⟨⟨present, bound, unique, agrees, fits, content, rfl, small, ?_⟩, rfl⟩
    have alone := regular.parts
    intro old inside here place
    cases found : state.parts.find? (fun part => part.index == index && part.content == content.toNat) <;> grind
  · rintro ⟨⟨present, bound, unique, agrees, fits, content, rfl, small, same⟩, rfl⟩
    refine ⟨_, (identity_eq_ok (by exact regular.ids)).2 ⟨⟨present, bound, unique⟩, rfl⟩, _,
      (kind_eq_ok (by exact regular.kinds)).2 ⟨⟨bound, agrees⟩, rfl⟩, _, (charge_eq_ok (by exact regular.bytes)).2 ⟨fits, rfl⟩,
      content, rfl, (), small, (), ?_, rfl⟩
    cases found : state.parts.find? (fun part => part.index == index && part.content == content.toNat) <;> grind

section Item
variable {event : ProviderEvent} {index : UInt64} {found : OutputItem} {finished : Bool} {state next : Lifecycle}

/-- An event about a whole item, started or finished. -/
structure WholeItem (event : ProviderEvent) (index : UInt64) (found : OutputItem) (finished : Bool) : Prop where
  whole : wholeItem event = some (index, found)
  pieceless : piece event = none
  finishes : finishedNative event = if finished then (expectedType found.kind).map fun _ => (index, found.native) else none

theorem WholeItem.usedKind (about : WholeItem event index found finished) :
    Lifecycle.usedKind event = some (index, found.kind) := by
  simp [Lifecycle.usedKind, about.whole]

theorem WholeItem.namedItem (about : WholeItem event index found finished) :
    Lifecycle.namedItem event = (expectedType found.kind).map fun type => (index, found, type) := by
  cases type : expectedType found.kind <;> simp [Lifecycle.namedItem, about.whole, type]

theorem WholeItem.usedId (about : WholeItem event index found finished) :
    Lifecycle.usedId event = (expectedType found.kind).bind fun _ => found.id.map (index, ·) := by
  rw [Lifecycle.usedId, about.namedItem, about.pieceless]
  cases type : expectedType found.kind <;> simp

theorem WholeItem.weight [JsonPrint] (about : WholeItem event index found finished) :
    Lifecycle.weight event = ((Serialized.event event).map Json.size).getD 0 := by
  simp [Lifecycle.weight, about.pieceless]

theorem WholeItem.allowed_iff [JsonPrint] (about : WholeItem event index found finished) :
    Allowed state event ↔ state.events + 1 ≤ maxEvents ∧ state.bytes + Lifecycle.weight event ≤ maxBytes ∧
      state.finalized.length ≤ maxItems ∧ state.Suits index found finished := by
  constructor
  · intro allowed
    have room := allowed.finishes
    rw [List.length_append] at room
    refine ⟨allowed.count, allowed.bytes, by omega, allowed.self.index index found.kind about.usedKind,
      allowed.kind index found.kind about.usedKind, fun type expected => ?_⟩
    obtain ⟨native, typed, present, same⟩ := allowed.self.item index found type (by simp [about.namedItem, expected])
    obtain ⟨id, named⟩ := Option.isSome_iff_exists.1 present
    have used : Lifecycle.usedId event = some (index, id) := by simp [about.usedId, expected, named]
    refine ⟨native, typed, id, named, same.trans named, allowed.self.id index id used, allowed.id index id used, fun done => ?_⟩
    have final : finishedNative event = some (index, found.native) := by simp [about.finishes, done, expected]
    rw [final, Option.toList_some, List.length_singleton] at room
    exact ⟨room, allowed.finished index found.native final⟩
  · rintro ⟨count, bytes, room, small, kinds, typed⟩
    have kind := about.usedKind
    have id := about.usedId
    have item := about.namedItem
    have finishes := about.finishes
    have pieceless := about.pieceless
    -- only a message or function call is identified
    cases expected : expectedType found.kind with
    | none =>
      simp only [expected, Option.bind_none, Option.map_none, ite_self] at id item finishes
      constructor
      case self => constructor <;> grind
      all_goals grind
    | some type =>
      obtain ⟨native, typed, named, present, same, nonempty, unique, finish⟩ := typed type expected
      simp only [expected, present, Option.bind_some, Option.map_some] at id item finishes
      constructor
      case self => constructor <;> grind
      all_goals grind

theorem WholeItem.observe_eq_ok [JsonPrint] (about : WholeItem event index found finished) (regular : Regular state)
    (room : state.finalized.length ≤ maxItems)
    (runs : state.observe event = do
      demand (decide (state.events + 1 ≤ maxEvents)) invalid
      let state ← charge { state with events := state.events + 1 } (((Serialized.event event).map Json.size).getD 0)
      state.item index found finished) :
    state.observe event = .ok next ↔ Allowed state event ∧ next = track state event := by
  rw [runs, about.allowed_iff, ← about.weight]
  simp only [bind_eq_ok, demand_eq_ok, decide_eq_true_eq]
  have tracks : track state event =
      noted { state with events := state.events + 1, bytes := state.bytes + Lifecycle.weight event } index found finished := by
    simp [track, noted, about.usedKind, about.usedId, about.finishes, about.pieceless]
  rw [tracks]
  constructor
  · rintro ⟨_, count, _, charged, done⟩
    obtain ⟨fits, rfl⟩ := (charge_eq_ok (by exact regular.bytes)).1 charged
    obtain ⟨suits, rfl⟩ := (item_eq_ok ⟨fits, by exact regular.ids, by exact regular.kinds, by exact regular.parts⟩).1 done
    exact ⟨⟨count, fits, room, suits⟩, rfl⟩
  · rintro ⟨⟨count, fits, _, suits⟩, rfl⟩
    refine ⟨(), count, _, (charge_eq_ok (by exact regular.bytes)).2 ⟨fits, rfl⟩, ?_⟩
    exact (item_eq_ok ⟨fits, by exact regular.ids, by exact regular.kinds, by exact regular.parts⟩).2 ⟨suits, rfl⟩

end Item

section Piece
variable {event : ProviderEvent} {found : Piece} {state next : Lifecycle}

theorem piece_alone (has : piece event = some found) :
    wholeItem event = none ∧ finishedNative event = none ∧ usedKind event = some (found.index, .message) ∧
      usedId event = some (found.index, found.id) ∧ namedItem event = none := by
  have alone : wholeItem event = none ∧ finishedNative event = none := by
    cases event <;> first | exact ⟨rfl, rfl⟩ | cases has
  simp [usedKind, usedId, namedItem, alone, has]

theorem piece_runs [JsonPrint] (state : Lifecycle) (has : piece event = some found) :
    found.text ≠ [] ∧ ∃ contentIndex : Option UInt64, found.content = contentIndex.map (·.toNat) ∧
      state.observe event = (do
        demand (decide (state.events + 1 ≤ maxEvents)) invalid
        let state ← charge { state with events := state.events + 1 } (((Serialized.event event).map Json.size).getD 0)
        state.update found.index found.id contentIndex found.kind found.text) := by
  unfold piece at has
  split at has
  · rename_i response id index contentIndex summary used delta
    split at has
    · rename_i shown
      cases has
      simp only [Bool.and_eq_true, Bool.not_eq_true', List.isEmpty_eq_false_iff] at shown
      refine ⟨shown.2, contentIndex, rfl, ?_⟩
      simp only [observe, shown.1, if_true]
    · cases has
  · cases has

theorem piece_allowed_iff [JsonPrint] (has : piece event = some found) :
    Allowed state event ↔ state.events + 1 ≤ maxEvents ∧ state.bytes + weight event ≤ maxBytes ∧
      state.finalized.length ≤ maxItems ∧ found.id ≠ [] ∧ found.index.toNat < maxItems ∧
        (∀ old ∈ state.identities, (old.1 = found.index ↔ old.2 = found.id)) ∧
        (∀ old ∈ state.kinds, old.1 = found.index → old.2 = .message) ∧
        ∃ content, found.content = some content ∧ content < maxItems ∧
          ∀ old ∈ state.parts, old.index = found.index → old.content = content → old.kind = found.kind := by
  obtain ⟨whole, unfinished, kind, id, unnamed⟩ := piece_alone has
  constructor
  · intro allowed
    obtain ⟨content, named, small⟩ := allowed.self.content found has
    refine ⟨allowed.count, allowed.bytes, by simpa [unfinished] using allowed.finishes,
      allowed.self.id _ _ id, allowed.self.index _ _ kind, allowed.id _ _ id, allowed.kind _ _ kind, content, named, small, ?_⟩
    intro old inside here place
    exact allowed.part found has old inside here (place ▸ named.symm)
  · rintro ⟨count, bytes, room, nonempty, small, ids, kinds, content, named, inside, same⟩
    constructor
    case self => constructor <;> grind
    all_goals grind

theorem piece_observe_eq_ok [JsonPrint] (has : piece event = some found) (regular : Regular state)
    (room : state.finalized.length ≤ maxItems) :
    state.observe event = .ok next ↔ Allowed state event ∧ next = track state event := by
  obtain ⟨whole, unfinished, kind, id, unnamed⟩ := piece_alone has
  rw [piece_allowed_iff has]
  have tracks : track state event = { state with
      events := state.events + 1
      bytes := state.bytes + weight event
      kinds := remember state.kinds (some (found.index, .message))
      identities := remember state.identities (some (found.index, found.id))
      parts := pushText state.parts found.index (found.content.getD 0) found.kind found.text
      rendered := state.rendered ++ found.text } := by
    simp [track, kind, id, unfinished, has]
  have heavy : state.bytes + weight event =
      state.bytes + ((Serialized.event event).map Json.size).getD 0 + Utf8.bytes found.text := by
    simp [weight, has, Nat.add_assoc]
  obtain ⟨shown, contentIndex, place, runs⟩ := piece_runs state has
  rw [tracks, runs, heavy, place]
  generalize ((Serialized.event event).map Json.size).getD 0 = size
  simp only [bind_eq_ok, demand_eq_ok, decide_eq_true_eq]
  constructor
  · rintro ⟨_, count, _, charged, done⟩
    obtain ⟨fits, rfl⟩ := (charge_eq_ok (by exact regular.bytes)).1 charged
    obtain ⟨⟨nonempty, small, ids, kinds, total, content, rfl, inside, same⟩, rfl⟩ :=
      (update_eq_ok ⟨fits, by exact regular.ids, by exact regular.kinds, by exact regular.parts⟩ shown).1 done
    exact ⟨⟨count, total, room, nonempty, small, ids, kinds, content.toNat, rfl, inside, same⟩, rfl⟩
  · rintro ⟨⟨count, total, _, nonempty, small, ids, kinds, content, named, inside, same⟩, rfl⟩
    obtain ⟨number, rfl, rfl⟩ := Option.map_eq_some_iff.1 named
    have fits := (Nat.le_add_right _ _).trans total
    refine ⟨(), count, _, (charge_eq_ok (by exact regular.bytes)).2 ⟨fits, rfl⟩, ?_⟩
    exact (update_eq_ok ⟨fits, by exact regular.ids, by exact regular.kinds, by exact regular.parts⟩ shown).2
      ⟨⟨nonempty, small, ids, kinds, total, number, rfl, inside, same⟩, rfl⟩

end Piece

variable {event : ProviderEvent}

theorem plain_observe_eq_ok [JsonPrint] (whole : wholeItem event = none) (pieceless : piece event = none)
    (regular : Regular state) (room : state.finalized.length ≤ maxItems) :
    state.observe event = .ok next ↔ Allowed state event ∧ next = track state event := by
  have unnamed : namedItem event = none := by simp [namedItem, whole]
  have kindless : usedKind event = none := by simp [usedKind, whole, pieceless]
  have idless : usedId event = none := by simp [usedId, unnamed, pieceless]
  have unfinished : finishedNative event = none := by
    cases event <;> first | rfl | cases whole
  have light : weight event = ((Serialized.event event).map Json.size).getD 0 := by simp [weight, pieceless]
  have runs : state.observe event = (do
      demand (decide (state.events + 1 ≤ maxEvents)) invalid
      charge { state with events := state.events + 1 } (weight event)) := by
    rw [light]
    unfold observe
    refine congrArg _ (funext fun _ => ?_)
    cases event with
    | outputItemStarted => cases whole
    | outputItemFinished => cases whole
    | outputItemUpdated response id index content summary used delta =>
      refine (congrArg _ (funext fun state => ?_)).trans (bind_pure _)
      dsimp only [piece] at pieceless
      split at pieceless
      · cases pieceless
      · rename_i silent
        dsimp only
        split
        · rename_i shown
          rw [shown, Bool.true_and, Bool.not_eq_true', Bool.not_eq_false] at silent
          rw [update, if_pos silent]
        · rfl
    | _ => exact bind_pure _
  have tracks : track state event = { state with
      events := state.events + 1
      bytes := state.bytes + weight event } := by
    simp [track, kindless, idless, unfinished, pieceless, remember]
  rw [runs, tracks]
  simp only [bind_eq_ok, demand_eq_ok, decide_eq_true_eq]
  constructor
  · rintro ⟨_, count, charged⟩
    obtain ⟨fits, rfl⟩ := (charge_eq_ok (by exact regular.bytes)).1 charged
    refine ⟨⟨count, fits, by simpa [unfinished] using room, ⟨?_, ?_, ?_, ?_⟩, ?_, ?_, ?_, ?_⟩, rfl⟩
    all_goals simp [kindless, idless, unfinished, pieceless, unnamed]
  · rintro ⟨allowed, rfl⟩
    exact ⟨(), allowed.count, (charge_eq_ok (by exact regular.bytes)).2 ⟨allowed.bytes, rfl⟩⟩

theorem observe_eq_ok [JsonPrint] (regular : Regular state) (room : state.finalized.length ≤ maxItems) :
    state.observe event = .ok next ↔ Allowed state event ∧ next = track state event := by
  cases said : piece event with
  | some found => exact piece_observe_eq_ok said regular room
  | none =>
    cases event with
    | outputItemStarted response index found =>
      have about : WholeItem (.outputItemStarted response index found) index found false := ⟨rfl, rfl, rfl⟩
      exact about.observe_eq_ok regular room rfl
    | outputItemFinished response index found =>
      have about : WholeItem (.outputItemFinished response index found) index found true := ⟨rfl, rfl, rfl⟩
      exact about.observe_eq_ok regular room rfl
    | _ => exact plain_observe_eq_ok rfl said regular room

/-! ### The state after a stream -/

def after [JsonPrint] (events : List ProviderEvent) : Lifecycle := events.foldl track empty

theorem after_snoc [JsonPrint] (events : List ProviderEvent) (event : ProviderEvent) :
    after (events ++ [event]) = track (after events) event := by
  rw [after, List.foldl_append]
  rfl

theorem after_counts [JsonPrint] (events : List ProviderEvent) :
    (after events).events = events.length ∧ (after events).bytes = (events.map weight).sum ∧
      (after events).finalized = events.filterMap finishedNative ∧
      (after events).rendered = (events.filterMap piece).flatMap (·.text) := by
  induction events using List.reverseRecOn with
  | nil => exact ⟨rfl, rfl, rfl, rfl⟩
  | append_singleton events event ih =>
    obtain ⟨count, bytes, finalized, rendered⟩ := ih
    rw [after_snoc]
    refine ⟨by simp [track, count], by simp [track, bytes], ?_, ?_⟩
    · cases has : finishedNative event <;> simp [track, finalized, has]
    · cases has : piece event <;> simp [track, rendered, has]

variable {events : List ProviderEvent}

theorem mem_identities [JsonPrint] {entry : UInt64 × Text} :
    entry ∈ (after events).identities ↔ ∃ event ∈ events, usedId event = some entry := by
  induction events using List.reverseRecOn with
  | nil => simp [after, empty]
  | append_singleton events event ih => simp [after_snoc, track, mem_remember, ih, or_and_right, exists_or]

theorem mem_kinds [JsonPrint] {entry : UInt64 × ItemKind} :
    entry ∈ (after events).kinds ↔ ∃ event ∈ events, usedKind event = some entry := by
  induction events using List.reverseRecOn with
  | nil => simp [after, empty]
  | append_singleton events event ih => simp [after_snoc, track, mem_remember, ih, or_and_right, exists_or]

def place (part : StreamedPart) : UInt64 × Nat := (part.index, part.content)

variable {content : Nat}

theorem place_eq {part : StreamedPart} :
    place part = (index, content) ↔ part.index = index ∧ part.content = content := by
  simp [place]

theorem pushText_places (parts : List StreamedPart) (index : UInt64) (content : Nat) (used : DeltaKind) (delta : Text) :
    (pushText parts index content used delta).map place =
      if (index, content) ∈ parts.map place then parts.map place else parts.map place ++ [(index, content)] := by
  induction parts with
  | nil => rfl
  | cons part parts ih =>
    unfold pushText
    split
    · simp_all [place]
    · have other : place part ≠ (index, content) := by rwa [ne_eq, place_eq]
      by_cases later : (index, content) ∈ parts.map place <;> simp_all [eq_comm]

variable {parts : List StreamedPart}

theorem mem_pushText {delta : Text} (places : (parts.map place).Nodup) {part : StreamedPart} :
    part ∈ pushText parts index content used delta ↔
      (part ∈ parts ∧ place part ≠ (index, content)) ∨
      (∃ old ∈ parts, place old = (index, content) ∧ part = { old with text := old.text ++ delta }) ∨
      ((index, content) ∉ parts.map place ∧ part = ⟨index, content, used, delta⟩) := by
  induction parts with
  | nil => simp [pushText]
  | cons first parts ih =>
    obtain ⟨alone, rest⟩ := List.nodup_cons.1 places
    unfold pushText
    split
    · rename_i here
      have spot : place first = (index, content) := place_eq.2 here
      have others : ∀ part ∈ parts, place part ≠ (index, content) := by
        intro part inside same
        exact alone (spot ▸ same ▸ List.mem_map_of_mem inside)
      simp only [List.mem_cons, List.map_cons, spot, true_or, not_true, false_and, or_false]
      grind
    · rename_i elsewhere
      have other : place first ≠ (index, content) := fun same => elsewhere (place_eq.1 same)
      rw [List.mem_cons, ih rest]
      simp only [List.mem_cons, List.map_cons, Ne.symm other, false_or]
      grind

theorem streamed_snoc (events : List ProviderEvent) (event : ProviderEvent) (index : UInt64) (content : Nat) :
    streamed (events ++ [event]) index content = streamed events index content ++
      ((piece event).filter fun found => found.index == index && found.content == some content).toList.flatMap (·.text) := by
  cases has : piece event with
  | none => simp [streamed, has]
  | some found =>
    cases here : (found.index == index && found.content == some content) <;> simp [streamed, has, here, Option.filter]

/-- A piece of the stream for a place and of a kind. -/
def Streams (events : List ProviderEvent) (index : UInt64) (content : Nat) (used : DeltaKind) : Prop :=
  ∃ event ∈ events, ∃ found, piece event = some found ∧ found.index = index ∧ found.content = some content ∧ found.kind = used

theorem streams_snoc :
    Streams (events ++ [event]) index content used ↔ Streams events index content used ∨
      ∃ found, piece event = some found ∧ found.index = index ∧ found.content = some content ∧ found.kind = used := by
  simp [Streams, or_and_right, exists_or]

/-- The listed parts are those that received pieces, each with its text so far. -/
structure PartsTracked (events : List ProviderEvent) (parts : List StreamedPart) : Prop where
  places : (parts.map place).Nodup
  listed : ∀ part, part ∈ parts ↔
    Streams events part.index part.content part.kind ∧ part.text = streamed events part.index part.content

theorem PartsTracked.streamed_eq_nil (tracks : PartsTracked events parts)
    (new : (index, content) ∉ parts.map place) : streamed events index content = [] := by
  rw [streamed, List.flatMap_eq_nil_iff]
  intro found inside
  obtain ⟨said, here⟩ := List.mem_filter.1 inside
  obtain ⟨event, member, has⟩ := List.mem_filterMap.1 said
  simp only [Bool.and_eq_true, beq_iff_eq] at here
  refine absurd ?_ new
  have known := (tracks.listed ⟨index, content, found.kind, streamed events index content⟩).2
    ⟨⟨event, member, found, has, here.1, here.2, rfl⟩, rfl⟩
  exact List.mem_map.2 ⟨_, known, rfl⟩

theorem PartsTracked.push {found : Piece} (tracks : PartsTracked events parts) (has : piece event = some found)
    (named : found.content = some content)
    (alike : ∀ used, Streams events found.index content used → used = found.kind) :
    PartsTracked (events ++ [event]) (pushText parts found.index content found.kind found.text) := by
  constructor
  case places =>
    rw [pushText_places]
    split
    · exact tracks.places
    · rename_i new
      rw [List.nodup_append]
      exact ⟨tracks.places, by simp, fun spot inside other last => by
        rw [List.mem_singleton.1 last]
        exact fun same => new (same ▸ inside)⟩
  case listed =>
    intro part
    rw [mem_pushText tracks.places, streams_snoc, streamed_snoc, has]
    by_cases here : place part = (found.index, content)
    · obtain ⟨index, spot⟩ := place_eq.1 here
      have kept : (some found).filter (fun found => found.index == part.index && found.content == some part.content) = some found := by
        simp [Option.filter, index, spot, named]
      simp only [here, ne_eq, not_true, and_false, false_or, kept, Option.toList_some, List.flatMap_singleton]
      constructor
      · rintro (⟨old, inside, _, rfl⟩ | ⟨new, rfl⟩)
        · obtain ⟨streams, text⟩ := (tracks.listed old).1 inside
          exact ⟨.inl streams, by simp [text]⟩
        · exact ⟨.inr ⟨found, rfl, rfl, named, rfl⟩, by simp [tracks.streamed_eq_nil new]⟩
      · rintro ⟨streams, text⟩
        have sameKind : part.kind = found.kind := by grind
        by_cases known : (found.index, content) ∈ parts.map place
        · obtain ⟨old, inside, same⟩ := List.mem_map.1 known
          refine .inl ⟨old, inside, same, ?_⟩
          obtain ⟨oldIndex, oldSpot⟩ := place_eq.1 same
          obtain ⟨oldStreams, oldText⟩ := (tracks.listed old).1 inside
          have oldKind : old.kind = found.kind := alike old.kind (oldIndex ▸ oldSpot ▸ oldStreams)
          cases part
          cases old
          simp_all
        · have nothing := tracks.streamed_eq_nil known
          cases part
          simp_all
    · have apart : (some found).filter (fun found => found.index == part.index && found.content == some part.content) = none := by
        have differs : ¬(found.index = part.index ∧ found.content = some part.content) := by grind [place_eq]
        simpa [Option.filter] using differs
      simp only [apart, Option.toList_none, List.flatMap_nil, List.append_nil, ne_eq, here, not_false_eq_true, and_true]
      rw [tracks.listed part]
      grind [place, place_eq]

theorem parts_after [JsonPrint] (each : ∀ event ∈ events, InOrder event)
    (pairs : ∀ one ∈ events, ∀ two ∈ events, Agree one two) : PartsTracked events (after events).parts := by
  induction events using List.reverseRecOn with
  | nil => exact ⟨.nil, fun part => by simp [after, empty, Streams]⟩
  | append_singleton events event ih =>
    have tracks := ih (fun other inside => each other (List.mem_append_left _ inside))
      (fun one first two second => pairs one (List.mem_append_left _ first) two (List.mem_append_left _ second))
    rw [after_snoc]
    dsimp only [track]
    cases has : piece event with
    | none => exact ⟨tracks.places, fun part => by rw [tracks.listed, streams_snoc, streamed_snoc, has]; simp⟩
    | some found =>
      obtain ⟨content, named, _⟩ := (each event (by simp)).content found has
      dsimp only
      rw [named]
      refine tracks.push has named ?_
      rintro used ⟨other, inside, earlier, said, index, spot, rfl⟩
      exact (pairs other (List.mem_append_left _ inside) event (by simp)).part earlier found said has index (spot.trans named.symm)

theorem Orderly.regular [JsonPrint] (orderly : Orderly events) : Regular (after events) := by
  obtain ⟨_, bytes, _, _⟩ := after_counts events
  have tracks := parts_after orderly.each orderly.pairs
  constructor
  case bytes => exact bytes ▸ orderly.bytes
  case ids =>
    intro one first two second
    obtain ⟨event, inside, used⟩ := mem_identities.1 first
    obtain ⟨event', inside', used'⟩ := mem_identities.1 second
    exact (orderly.pairs event inside event' inside').id _ _ _ _ used used'
  case kinds =>
    rintro ⟨index, one⟩ first ⟨_, two⟩ second rfl
    obtain ⟨event, inside, used⟩ := mem_kinds.1 first
    obtain ⟨event', inside', used'⟩ := mem_kinds.1 second
    exact (orderly.pairs event inside event' inside').kind _ _ _ used used'
  case parts =>
    intro one first two second index content
    exact List.inj_on_of_nodup_map tracks.places first second (by simp [place, index, content])

theorem Agree.refl (event : ProviderEvent) : Agree event event := by
  constructor <;> grind

theorem Agree.symm {one two : ProviderEvent} (agree : Agree one two) : Agree two one := by
  obtain ⟨kind, id, finished, part⟩ := agree
  constructor <;> grind

theorem orderly_snoc [JsonPrint] : Orderly (events ++ [event]) ↔ Orderly events ∧ Allowed (after events) event := by
  obtain ⟨count, bytes, finalized, _⟩ := after_counts events
  have all : (events ++ [event]).filterMap finishedNative =
      events.filterMap finishedNative ++ (finishedNative event).toList := by
    cases has : finishedNative event <;> simp [has]
  constructor
  · intro orderly
    have old {other : ProviderEvent} (inside : other ∈ events) : other ∈ events ++ [event] := List.mem_append_left _ inside
    have new : event ∈ events ++ [event] := by simp
    have before : Orderly events := by
      have length := orderly.count
      have total := orderly.bytes
      have finishes := orderly.finishes
      rw [List.length_append] at length
      rw [List.map_append, List.sum_append] at total
      rw [all, List.length_append] at finishes
      exact ⟨by omega, by omega, by omega, fun other inside => orderly.each other (old inside),
        fun one first two second => orderly.pairs one (old first) two (old second)⟩
    have tracks := parts_after before.each before.pairs
    refine ⟨before, ?_⟩
    constructor
    case count => simpa [count] using orderly.count
    case bytes => simpa [bytes] using orderly.bytes
    case finishes => rw [finalized, ← all]; exact orderly.finishes
    case self => exact orderly.each event new
    case kind =>
      rintro index kind used ⟨_, old'⟩ inside rfl
      obtain ⟨other, member, said⟩ := mem_kinds.1 inside
      exact (orderly.pairs other (old member) event new).kind _ _ _ said used
    case id =>
      intro index id used entry inside
      obtain ⟨other, member, said⟩ := mem_identities.1 inside
      exact (orderly.pairs other (old member) event new).id _ _ _ _ said used
    case finished =>
      rintro index native final ⟨_, old'⟩ inside rfl
      rw [finalized] at inside
      obtain ⟨other, member, said⟩ := List.mem_filterMap.1 inside
      exact (orderly.pairs other (old member) event new).finished _ _ _ said final
    case part =>
      intro found has part inside index content
      obtain ⟨⟨other, member, earlier, said, sameIndex, sameContent, kind⟩, _⟩ := (tracks.listed part).1 inside
      exact kind ▸ (orderly.pairs other (old member) event new).part earlier found said has (sameIndex.trans index)
        (sameContent.trans content)
  · rintro ⟨before, allowed⟩
    have tracks := parts_after before.each before.pairs
    have agrees : ∀ other ∈ events, Agree other event := by
      intro other inside
      constructor
      case kind =>
        intro index kind kind' said used
        exact allowed.kind index kind' used (index, kind) (mem_kinds.2 ⟨other, inside, said⟩) rfl
      case id =>
        intro index id index' id' said used
        exact allowed.id index' id' used (index, id) (mem_identities.2 ⟨other, inside, said⟩)
      case finished =>
        intro index native native' said final
        refine allowed.finished index native' final (index, native) ?_ rfl
        rw [finalized]
        exact List.mem_filterMap.2 ⟨other, inside, said⟩
      case part =>
        intro earlier found said has index content
        obtain ⟨spot, named, _⟩ := (before.each other inside).content earlier said
        have listed := (tracks.listed ⟨earlier.index, spot, earlier.kind, streamed events earlier.index spot⟩).2
          ⟨⟨other, inside, earlier, said, rfl, named, rfl⟩, rfl⟩
        exact allowed.part found has _ listed index (named.symm.trans content)
    constructor
    case count => simpa [count] using allowed.count
    case bytes => simpa [bytes] using allowed.bytes
    case finishes => rw [all, ← finalized]; exact allowed.finishes
    case each => exact List.forall_mem_append.2 ⟨before.each, List.forall_mem_singleton.2 allowed.self⟩
    case pairs =>
      have pairs := before.pairs
      grind [Agree.refl, Agree.symm]

theorem Orderly.nil [JsonPrint] : Orderly [] :=
  ⟨Nat.zero_le _, Nat.zero_le _, Nat.zero_le _, fun _ inside => absurd inside List.not_mem_nil,
    fun _ inside => absurd inside List.not_mem_nil⟩

theorem observed_eq_ok [JsonPrint] : events.foldlM observe empty = .ok state ↔ Orderly events ∧ state = after events := by
  induction events using List.reverseRecOn generalizing state with
  | nil =>
    rw [List.foldlM_nil, pure_eq_ok, Except.ok.injEq]
    exact ⟨fun same => ⟨.nil, same.symm⟩, fun facts => facts.2.symm⟩
  | append_singleton events event ih =>
    have room (orderly : Orderly events) : (after events).finalized.length ≤ maxItems := by
      rw [(after_counts events).2.2.1]
      exact orderly.finishes
    rw [List.foldlM_append, bind_eq_ok, orderly_snoc, after_snoc]
    constructor
    · rintro ⟨middle, done, last⟩
      obtain ⟨orderly, rfl⟩ := ih.1 done
      simp only [List.foldlM_cons, List.foldlM_nil, bind_pure] at last
      obtain ⟨allowed, rfl⟩ := (observe_eq_ok orderly.regular (room orderly)).1 last
      exact ⟨⟨orderly, allowed⟩, rfl⟩
    · rintro ⟨⟨orderly, allowed⟩, rfl⟩
      refine ⟨after events, ih.2 ⟨orderly, rfl⟩, ?_⟩
      simp only [List.foldlM_cons, List.foldlM_nil, bind_pure]
      exact (observe_eq_ok orderly.regular (room orderly)).2 ⟨allowed, rfl⟩

/-! ### The verdict -/

/-- All events are observed, then the terminal response is validated. -/
def verdict [JsonPrint] (events : List ProviderEvent) (response : ModelResponse) : GatewayResult Unit := do
  let state ← events.foldlM observe empty
  state.validate response

theorem Orderly.find_identity [JsonPrint] (orderly : Orderly events) (inside : event ∈ events)
    (used : usedId event = some (index, id)) :
    ((after events).identities.find? fun old => old.1 == index).map (·.2) = some id := by
  have known := mem_identities.2 ⟨event, inside, used⟩
  cases found : (after events).identities.find? fun old => old.1 == index with
  | none => exact absurd (List.find?_eq_none.1 found _ known) (by simp)
  | some old =>
    have same : old.1 = index := by simpa using List.find?_some found
    have ids := (orderly.regular.ids old (List.mem_of_find?_eq_some found) _ known).1 same
    rw [Option.map_some, ids]

theorem partAgrees_iff [JsonPrint] (orderly : Orderly events) (inside : event ∈ events) {found : Piece}
    (has : piece event = some found) (content : Nat) (text : Text) (response : ModelResponse) :
    (after events).partAgrees response ⟨found.index, content, found.kind, text⟩ = true ↔
      PartShown response found content text := by
  have known := orderly.find_identity inside (piece_alone has).2.2.2.1
  unfold partAgrees PartShown
  dsimp only
  rw [known]
  simp only [Option.any_eq_true, Bool.and_eq_true, beq_iff_eq, List.isPrefixOf_iff_prefix]
  constructor
  · rintro ⟨item, output, ⟨⟨⟨⟨kind, native⟩, type⟩, id⟩, nativeId⟩, part, placed, typed, final, shown, starts⟩
    exact ⟨item, part, final, output, kind, native, type, id, nativeId, placed, typed, shown, starts⟩
  · rintro ⟨item, part, final, output, kind, native, type, id, nativeId, placed, typed, shown, starts⟩
    exact ⟨item, output, ⟨⟨⟨⟨kind, native⟩, type⟩, id⟩, nativeId⟩, part, placed, typed, final, shown, starts⟩

theorem validate_eq_ok [JsonPrint] (orderly : Orderly events) {response : ModelResponse}
    (completed : response.outcome = .completed) :
    (after events).validate response = .ok () ↔
      (∀ event ∈ events, ∀ index native, finishedNative event = some (index, native) →
        (response.output[index.toNat]?).map (·.native) = some native) ∧
      ∀ event ∈ events, ∀ found content, piece event = some found → found.content = some content →
        PartShown response found content (streamed events found.index content) := by
  have tracks := parts_after orderly.each orderly.pairs
  unfold validate
  rw [if_neg (by simp [completed]), (after_counts events).2.2.1]
  simp only [bind_eq_ok, demand_eq_ok, List.all_eq_true, beq_iff_eq, exists_and_right, exists_const]
  refine and_congr ⟨fun all event inside index native final => ?_, fun all entry inside => ?_⟩
    ⟨fun all event inside found content has named => ?_, fun all part inside => ?_⟩
  · exact all (index, native) (List.mem_filterMap.2 ⟨event, inside, final⟩)
  · obtain ⟨event, member, final⟩ := List.mem_filterMap.1 inside
    exact all event member entry.1 entry.2 final
  · rw [← partAgrees_iff orderly inside has]
    exact all _ ((tracks.listed _).2 ⟨⟨event, inside, found, has, rfl, named, rfl⟩, rfl⟩)
  · obtain ⟨⟨event, member, found, has, index, named, kind⟩, text⟩ := (tracks.listed part).1 inside
    have shown := (partAgrees_iff orderly member has part.content part.text response).2
    rw [index, kind] at shown
    refine shown ?_
    rw [text, ← index]
    exact all event member found part.content has named

theorem verdict_eq_ok [JsonPrint] {response : ModelResponse} (completed : response.outcome = .completed) :
    verdict events response = .ok () ↔ Consistent events response := by
  simp only [verdict, bind_eq_ok, observed_eq_ok]
  constructor
  · rintro ⟨_, ⟨orderly, rfl⟩, valid⟩
    obtain ⟨finished, texts⟩ := (validate_eq_ok orderly completed).1 valid
    exact ⟨orderly.count, orderly.bytes, orderly.finishes, orderly.each,
      fun one first two second => (orderly.pairs one first two second).kind,
      fun one first two second => (orderly.pairs one first two second).id, finished,
      fun one first two second => (orderly.pairs one first two second).part, texts⟩
  · intro consistent
    have orderly : Orderly events := by
      refine ⟨consistent.count, consistent.bytes, consistent.finishes, consistent.each, fun one first two second => ?_⟩
      refine ⟨consistent.kinds one first two second, consistent.ids one first two second, ?_,
        consistent.parts one first two second⟩
      -- both finished items are the terminal one
      intro index native native' final final'
      have same := (consistent.finished one first _ _ final).symm.trans (consistent.finished two second _ _ final')
      exact Option.some.inj same
    exact ⟨after events, ⟨orderly, rfl⟩, (validate_eq_ok orderly completed).2 ⟨consistent.finished, consistent.texts⟩⟩

/-- The same events, with the pieces of each part in the same order. -/
structure Reordered (events others : List ProviderEvent) : Prop where
  same : events.Perm others
  parts : ∀ index content,
    ((events.filterMap piece).filter fun piece => piece.index == index && piece.content == some content) =
      ((others.filterMap piece).filter fun piece => piece.index == index && piece.content == some content)

theorem Consistent.reordered [JsonPrint] {others : List ProviderEvent} {response : ModelResponse}
    (consistent : Consistent events response) (moved : Reordered events others) : Consistent others response := by
  have old {event : ProviderEvent} (inside : event ∈ others) : event ∈ events := moved.same.mem_iff.2 inside
  constructor
  case count => exact moved.same.length_eq ▸ consistent.count
  case bytes => exact (moved.same.map weight).sum_eq ▸ consistent.bytes
  case finishes => exact (moved.same.filterMap finishedNative).length_eq ▸ consistent.finishes
  case each => exact fun event inside => consistent.each event (old inside)
  case kinds => exact fun one first two second => consistent.kinds one (old first) two (old second)
  case ids => exact fun one first two second => consistent.ids one (old first) two (old second)
  case finished => exact fun event inside => consistent.finished event (old inside)
  case parts => exact fun one first two second => consistent.parts one (old first) two (old second)
  case texts =>
    intro event inside found content has named
    have same : streamed others found.index content = streamed events found.index content := by
      rw [streamed, streamed, moved.parts]
    rw [same]
    exact consistent.texts event (old inside) found content has named

theorem Reordered.symm {others : List ProviderEvent} (moved : Reordered events others) : Reordered others events :=
  ⟨moved.same.symm, fun index content => (moved.parts index content).symm⟩

/-- For a completed response the check accepts exactly the consistent streams, in whatever order
their events came, and has rendered the streamed pieces in order of arrival. -/
theorem verdict_exact [JsonPrint] (events : List ProviderEvent) (response : ModelResponse) (completed : response.outcome = .completed) :
    (verdict events response = .ok () ↔ Consistent events response) ∧
    (∀ others, Reordered events others → (verdict others response = .ok () ↔ verdict events response = .ok ())) ∧
    ∀ state, events.foldlM observe empty = .ok state → state.rendered = (events.filterMap piece).flatMap (·.text) := by
  refine ⟨verdict_eq_ok completed, fun others moved => ?_, fun state done => ?_⟩
  · rw [verdict_eq_ok completed, verdict_eq_ok completed]
    exact ⟨fun consistent => consistent.reordered moved.symm, fun consistent => consistent.reordered moved⟩
  · obtain ⟨_, rfl⟩ := observed_eq_ok.1 done
    exact (after_counts events).2.2.2

namespace Greeting

def message : OutputItem where
  id := some "m1".toList
  kind := .message
  nativeType := "message".toList
  functionCall := none
  native := .build [("id", .string "m1".toList), ("type", .string "message".toList),
    ("content", .array [.build [("type", .string "output_text".toList), ("text", .string "hello".toList)]])]

def piece (text : String) : ProviderEvent :=
  .outputItemUpdated "r1".toList "m1".toList 0 (some 0) none .text text.toList

def stream : List ProviderEvent :=
  [piece "he", piece "ll", .outputItemFinished "r1".toList 0 message]

def response : ModelResponse :=
  ⟨.nativeTerminal, "r1".toList, none, .completed, [message], "hello".toList, none, .null⟩

end Greeting

theorem verdict_exact_message : letI := Json.written
    Greeting.response.outcome = .completed ∧ verdict Greeting.stream Greeting.response = .ok () ∧
      Consistent Greeting.stream Greeting.response := by
  let _ := Json.written
  have accepted : verdict Greeting.stream Greeting.response = .ok () := by decide +kernel
  exact ⟨rfl, accepted, (verdict_exact Greeting.stream Greeting.response rfl).1.1 accepted⟩

end Wi.Codex.Lifecycle
