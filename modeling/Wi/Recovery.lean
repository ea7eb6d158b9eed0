import Wi.Decoder

/-! Items recovered from a stream are those its events finished, and every event of the stream
about an item agrees with the finished item. -/
namespace Wi.Codec

/-! ### What an event says about the output -/

/-- The output index that an event names. -/
def outputIndex (value : Json) : Option Nat := (member value "output_index").asU64.map (·.toNat)

def isDone (value : Json) : Bool := isKind value "response.output_item.done"

/-- The index and the completed item of an event that finishes an item. -/
def finishedItem (value : Json) : Option (Nat × Json) := do
  return (← outputIndex value, ← value.get "item".toList)

def partKinds : List String := argumentKinds ++ contentKinds ++ summaryKinds

def deltaKinds : List String := [
  "response.output_text.delta", "response.refusal.delta", "response.reasoning_text.delta",
  "response.reasoning_summary_text.delta", "response.function_call_arguments.delta"]

def partDoneKinds : List String := [
  "response.content_part.done", "response.reasoning_text_part.done", "response.reasoning_summary_part.done"]

def textDoneKinds : List String := [
  "response.output_text.done", "response.refusal.done", "response.reasoning_text.done",
  "response.reasoning_summary_text.done", "response.function_call_arguments.done"]

/-- The part of its item that an event is about. -/
def namedPart (value : Json) : Option (Family × Nat) :=
  if isAnyKind value argumentKinds then some (.arguments, 0)
  else if isAnyKind value contentKinds then
    (member value "content_index").asU64.map fun index => (.content, index.toNat)
  else if isAnyKind value summaryKinds then
    (member value "summary_index").asU64.map fun index => (.summary, index.toNat)
  else none

def partKey (value : Json) : Option PartKey := do return (← outputIndex value, ← namedPart value)

/-- A part of a finished item, and its string member. -/
def itemPart (item : Json) : Family × Nat → Option (String × Json)
  | (.arguments, _) => some ("arguments", item)
  | (.content, index) => do
    let target ← (← (member item "content").asArray)[index]?
    let (_, field) ← contentTarget (← stringMember target "type")
    return (field, target)
  | (.summary, index) => do
    let target ← (← (member item "summary").asArray)[index]?
    return ("text", target)

def deltaOf (key : PartKey) (value : Json) : Bool := isAnyKind value deltaKinds && partKey value == some key

/-- An event about a part of one of the items, which has the given string member and final text. -/
structure About (items : List Json) (value : Json) (key : PartKey) (field : String) (target : Json) (final : Text) :
    Prop where
  named : partKey value = some key
  within : ∃ item, items[key.1]? = some item ∧ itemPart item key.2 = some (field, target)
  text : stringMember target field = some final

variable {value item : Json} {events items : List Json} {done : List (Nat × Json)} {kind final : Text}
   {field : String} {state next : Agreement} {key : PartKey} {index : Nat}

section
variable [JsonText]

/-- The items that the events of a stream finished, with which all its events agree. -/
structure Recovered (values items : List Json) : Prop where
  finished : ((values.filter isDone).map finishedItem).Perm (items.zipIdx.map fun (item, index) => some (index, item))
  complete : ∀ item ∈ items, complete item = true
  ids : ∃ ids : List Text, items.map (stringMember · "id") = ids.map some ∧ ids.Nodup
  calls : ∃ calls : List Text,
    (items.filter (isKind · "function_call")).map (stringMember · "call_id") = calls.map some ∧ calls.Nodup
  parts : ∀ value ∈ values, isAnyKind value partKinds = true → ∃ key field target final,
    About items value key field target final ∧
      (isAnyKind value partDoneKinds = true → member value "part" = target) ∧
      (isAnyKind value textDoneKinds = true → stringMember value field = some final)
  deltas : ∀ value ∈ values, isAnyKind value deltaKinds = true → ∃ key field target final,
    About items value key field target final ∧ ∃ texts : List Text,
      (values.filter (deltaOf key)).map (stringMember · "delta") = texts.map some ∧ texts.flatten <+: final
  closed : values.Pairwise fun earlier later =>
    isDone earlier = true → associated later = true → outputIndex later ≠ outputIndex earlier
  own : ∀ value ∈ values, associated value = true → ∃ index item, outputIndex value = some index ∧
    items[index]? = some item ∧ (value.get "item_id".toList).all (· == member item "id") = true

/-! ### The kept events -/

namespace FinalizedItems

theorem observe_kept {items : FinalizedItems} (valid : (items.observe value).invalid = false) :
    items.invalid = false ∧
      (items.observe value).events = items.events ++ (if associated value then [value] else []) ∧
      (associated value = true → items.duplicate value = false) := by
  have uncleared (items : FinalizedItems) (valid : items.cleared.invalid = false) :
      items.invalid = false ∧ items.cleared = items := by
    unfold cleared at valid ⊢
    split at valid
    · rename_i invalid
      exact absurd valid (by simp [invalid])
    · rename_i untouched
      exact ⟨valid, if_neg untouched⟩
  unfold observe at valid ⊢
  obtain ⟨valid, same⟩ := uncleared _ valid
  rw [same]
  cases about : associated value with
  | false =>
    simp only [about, Bool.and_false, Bool.false_eq_true, if_false] at valid ⊢
    simp only [counted, Bool.or_eq_false_iff] at valid ⊢
    exact ⟨valid.1, (List.append_nil _).symm, nofun⟩
  | true =>
    cases counting : (items.counted value).invalid with
    | true =>
      simp only [about, counting, Bool.not_true, Bool.false_and, Bool.false_eq_true, if_false] at valid
      cases valid
    | false =>
      simp only [about, counting, Bool.not_false, Bool.and_self, if_true] at valid ⊢
      have before : items.invalid = false := by
        simp only [counted, Bool.or_eq_false_iff] at counting
        exact counting.1
      unfold record at valid ⊢
      split at valid
      · cases valid
      · rename_i fits
        rw [if_neg fits]
        dsimp only at valid ⊢
        split at valid
        · rename_i accepted
          rw [if_pos accepted]
          refine ⟨before, rfl, fun _ => ?_⟩
          unfold acceptable at accepted
          simp only [Bool.and_eq_true, Bool.not_eq_true'] at accepted
          exact accepted.1.2
        · cases valid

theorem observe_evidence (items : FinalizedItems) (value : Json) :
    (items.observe value).evidence = (items.evidence || associated value) := by
  unfold observe cleared record
  dsimp only
  split_ifs <;> rfl

end FinalizedItems

theorem observed_evidence (values : List Json) : (observed values).evidence = values.any associated := by
  induction values using List.reverseRecOn with
  | nil => rfl
  | append_singleton values value ih =>
    rw [← ResponseDecoder.observed_snoc, FinalizedItems.observe_evidence, ih]
    simp

/-- A valid stream keeps its associated events, none of which follows the finish of its item. -/
theorem observed_kept {values : List Json} (valid : (observed values).invalid = false) :
    (observed values).events = values.filter associated ∧
      (observed values).events.Pairwise fun earlier later =>
        isDone earlier = true → member earlier "output_index" ≠ member later "output_index" := by
  induction values using List.reverseRecOn with
  | nil => exact ⟨rfl, .nil⟩
  | append_singleton values value ih =>
    rw [← ResponseDecoder.observed_snoc] at valid ⊢
    obtain ⟨before, kept, alone⟩ := FinalizedItems.observe_kept valid
    obtain ⟨same, apart⟩ := ih before
    rw [kept]
    cases about : associated value with
    | false => simpa [List.filter_append, about, same] using apart
    | true =>
      refine ⟨by simp [List.filter_append, about, same], List.pairwise_append.2 ⟨apart, by simp, ?_⟩⟩
      intro earlier inside later last done equal
      rw [if_pos rfl, List.mem_singleton] at last
      subst last
      have none := List.any_eq_false.1 (alone about) earlier inside
      exact none (by simp [equal, show isKind earlier _ = true from done])

/-! ### The finished items -/

omit [JsonText] in
theorem insertDone_perm (done : List (Nat × Json)) (index : Nat) (item : Json) :
    (insertDone done index item).Perm ((index, item) :: done) := by
  unfold insertDone
  refine List.perm_middle.trans ?_
  rw [List.takeWhile_append_dropWhile]

/-- What has been collected from the events so far. -/
structure Gathered (events : List Json) (state : Collected) : Prop where
  done : ((events.filter isDone).map finishedItem).Perm (state.done.map some)
  complete : ∀ entry ∈ state.done, complete entry.2 = true
  ids : (state.done.map fun entry => stringMember entry.2 "id").Perm (state.ids.map some)
  unrepeated : state.ids.Nodup
  calls : ((state.done.filter fun entry => isKind entry.2 "function_call").map
    fun entry => stringMember entry.2 "call_id").Perm (state.calls.map some)
  uncalled : state.calls.Nodup

omit [JsonText] in
theorem collectCall_spec {calls next : List Text} (found : collectCall calls item = some next) :
    (isKind item "function_call" = true ∧ ∃ call, stringMember item "call_id" = some call ∧ call ∉ calls ∧
      next = call :: calls) ∨ isKind item "function_call" = false ∧ next = calls := by
  unfold collectCall at found
  split at found
  · rename_i kind
    simp only [Option.bind_eq_bind, Option.bind_eq_some_iff, Option.guard_eq_some'] at found
    obtain ⟨call, named, _, new, same⟩ := found
    cases same
    exact .inl ⟨kind, call, named, by simpa using new, rfl⟩
  · rename_i kind
    cases found
    exact .inr ⟨by simpa using kind, rfl⟩

theorem Gathered.insert {state next : Collected} (before : Gathered events state) (kind : isDone value = true)
    (stepped : collectDone state value = some next) : Gathered (events ++ [value]) next := by
  unfold collectDone at stepped
  simp only [Option.bind_eq_bind, Option.bind_eq_some_iff, Option.guard_eq_some', Bool.and_eq_true,
    Bool.not_eq_true'] at stepped
  obtain ⟨index, named, _, _, item, found, _, valid, id, known, _, ⟨new, _⟩, calls, called, same⟩ := stepped
  cases same
  have entries := insertDone_perm state.done index.toNat item
  have newId : id ∉ state.ids := by simpa using new
  constructor
  case done =>
    have finished : finishedItem value = some (index.toNat, item) := by
      rw [finishedItem, outputIndex, named, found]
      rfl
    rw [List.filter_append, List.map_append, List.filter_cons_of_pos kind, List.filter_nil, List.map_singleton, finished]
    refine List.perm_append_comm.trans ?_
    exact (before.done.cons _).trans (entries.symm.map some)
  case complete =>
    intro entry member
    rcases mem_insertDone member with old | rfl
    · exact before.complete entry old
    · exact valid
  case ids =>
    refine (entries.map _).trans ?_
    rw [List.map_cons, List.map_cons, known]
    exact before.ids.cons _
  case unrepeated => exact List.nodup_cons.2 ⟨newId, before.unrepeated⟩
  case calls =>
    refine ((entries.filter _).map _).trans ?_
    rcases collectCall_spec called with ⟨call, text, present, _, rfl⟩ | ⟨other, rfl⟩
    · rw [List.filter_cons, if_pos call, List.map_cons, List.map_cons, present]
      exact before.calls.cons _
    · rw [List.filter_cons, if_neg (by simpa using other)]
      exact before.calls
  case uncalled =>
    rcases collectCall_spec called with ⟨_, text, _, fresh, rfl⟩ | ⟨_, rfl⟩
    · exact List.nodup_cons.2 ⟨fresh, before.uncalled⟩
    · exact before.uncalled

theorem Gathered.step {state next : Collected} (before : Gathered events state)
    (stepped : collect responseId state value = some next) : Gathered (events ++ [value]) next := by
  unfold collect at stepped
  split at stepped
  · cases stepped
  · split at stepped
    · rename_i kind
      exact before.insert kind stepped
    · rename_i kind
      cases stepped
      have other : isDone value = false := Bool.eq_false_iff.2 kind
      have same : (events ++ [value]).filter isDone = events.filter isDone := by simp [List.filter_append, other]
      exact { before with done := same ▸ before.done }

omit [JsonText] in
theorem foldlM_reads {σ β : Type} {step : σ → β → Option σ} {start final : σ} {items : List β}
    (invariant : List β → σ → Prop) (base : invariant [] start)
    (keeps : ∀ before state item next, invariant before state → step state item = some next →
      invariant (before ++ [item]) next)
    (done : items.foldlM step start = some final) : invariant items final := by
  suffices general : ∀ before state, invariant before state → items.foldlM step state = some final →
      invariant (before ++ items) final by
    simpa using general [] start base done
  clear done base
  induction items with
  | nil =>
    intro before state held done
    cases done
    simpa using held
  | cons item items ih =>
    intro before state held done
    rw [List.foldlM_cons, Option.bind_eq_bind, Option.bind_eq_some_iff] at done
    obtain ⟨next, first, rest⟩ := done
    simpa using ih (before ++ [item]) next (keeps before state item next held first) rest

theorem collect_gathered {final : Collected}
    (done : events.foldlM (collect responseId) ⟨[], [], []⟩ = some final) : Gathered events final := by
  have base : Gathered [] ⟨[], [], []⟩ :=
    ⟨.nil, fun _ member => absurd member List.not_mem_nil, .nil, .nil, .nil, .nil⟩
  refine foldlM_reads Gathered base ?_ done
  intro before state value next held stepped
  exact held.step stepped

omit [JsonText] in
theorem find_counted {start : Nat} (counted : done.map (·.1) = List.range' start done.length) (index : Nat) :
    ((done.find? fun entry => entry.1 == start + index).map (·.2)) = (done.map (·.2))[index]? := by
  induction done generalizing start index with
  | nil => rfl
  | cons entry done ih =>
    rw [List.map_cons, List.length_cons, List.range'_succ, List.cons.injEq] at counted
    obtain ⟨first, rest⟩ := counted
    cases index with
    | zero => simp [first]
    | succ index =>
      have later := ih rest index
      rw [List.find?_cons_of_neg (by simp [first])]
      simpa [Nat.add_assoc, Nat.add_comm 1] using later

omit [JsonText] in
theorem counted_zipIdx {start : Nat} (counted : done.map (·.1) = List.range' start done.length) :
    ((done.map (·.2)).zipIdx start).map (fun (item, index) => some (index, item)) = done.map some := by
  induction done generalizing start with
  | nil => rfl
  | cons entry done ih =>
    rw [List.map_cons, List.length_cons, List.range'_succ, List.cons.injEq] at counted
    obtain ⟨first, rest⟩ := counted
    simp [← first, ih (first ▸ rest)]

/-! ### Agreement of the events -/

omit [JsonText] in
theorem isKind_iff {name : String} : isKind value name = true ↔ stringMember value "type" = some name.toList := by
  simp [isKind]

omit [JsonText] in
theorem isAnyKind_eq {name : String} (kind : stringMember value "type" = some name.toList) (names : List String) :
    isAnyKind value names = names.contains name := by
  rw [isAnyKind, List.contains_eq_any_beq]
  congr 1
  funext other
  rw [isKind, kind]
  by_cases same : name = other
  · simp [same]
  · have texts : name.toList ≠ other.toList := fun equal => same (String.toList_inj.1 equal)
    simp [same, texts]

omit [JsonText] in
theorem isAnyKind_iff {names : List String} :
    isAnyKind value names = true ↔ ∃ name ∈ names, stringMember value "type" = some name.toList := by
  simp [isAnyKind, isKind_iff]

omit [JsonText] in
theorem isAnyKind_partKinds {names : List String} (some : isAnyKind value names = true)
    (within : ∀ name ∈ names, name ∈ partKinds) : isAnyKind value partKinds = true := by
  obtain ⟨name, member, kind⟩ := isAnyKind_iff.1 some
  exact isAnyKind_iff.2 ⟨name, within name member, kind⟩

omit [JsonText] in
theorem partKinds_delta : ∀ name ∈ partKinds, endsWith name.toList ".delta" = deltaKinds.contains name := by decide

omit [JsonText] in
theorem partKinds_part : ∀ name ∈ partKinds, partDoneKinds.contains name = true →
    deltaKinds.contains name = false ∧ Text.contains name.toList "part.".toList = true ∧ endsWith name.toList ".done" = true := by decide

omit [JsonText] in
theorem partKinds_text : ∀ name ∈ partKinds, textDoneKinds.contains name = true →
    deltaKinds.contains name = false ∧ Text.contains name.toList "part.".toList = false := by decide

omit [JsonText] in
theorem finalPart_spec {target : Json} {family : Family} {part : Nat}
    (found : finalPart value item kind = some (family, field, part, target)) :
    isAnyKind value partKinds = true ∧ namedPart value = some (family, part) ∧
      itemPart item (family, part) = some (field, target) := by
  unfold finalPart at found
  unfold namedPart
  split at found
  · rename_i arguments
    simp only [Option.bind_eq_bind, Option.bind_eq_some_iff, Option.guard_eq_some'] at found
    obtain ⟨_, _, same⟩ := found
    cases same
    exact ⟨isAnyKind_partKinds arguments (by decide), if_pos arguments, rfl⟩
  · rename_i arguments
    rw [if_neg arguments]
    split at found
    · rename_i content
      rw [if_pos content]
      simp only [Option.bind_eq_bind, Option.bind_eq_some_iff, Option.guard_eq_some'] at found
      obtain ⟨index, named, parts, listed, final, present, type, typed, ⟨expected, name⟩, shown, _, _, same⟩ := found
      cases same
      refine ⟨isAnyKind_partKinds content (by decide), by simp [named], ?_⟩
      simp [itemPart, listed, present, typed, shown]
    · rename_i content
      rw [if_neg content]
      split at found
      · rename_i summary
        rw [if_pos summary]
        simp only [Option.bind_eq_bind, Option.bind_eq_some_iff, Option.guard_eq_some'] at found
        obtain ⟨_, _, index, named, parts, listed, final, present, same⟩ := found
        cases same
        refine ⟨isAnyKind_partKinds summary (by decide), by simp [named], ?_⟩
        simp [itemPart, listed, present]
      · cases found

/-- The deltas of a part read so far, joined. -/
def fragment (state : Agreement) (key : PartKey) : Text :=
  ((state.fragments.find? fun entry => entry.1 == key).map (·.2)).getD []

omit [JsonText] in
theorem agreeDelta_spec (done : agreeDelta state value key final = some next) :
    ∃ delta, stringMember value "delta" = some delta ∧ fragment state key ++ delta <+: final ∧
      ∀ other, fragment next other = if other = key then fragment state key ++ delta else fragment state other := by
  unfold agreeDelta at done
  simp only [Option.bind_eq_bind, Option.bind_eq_some_iff, Option.guard_eq_some'] at done
  obtain ⟨_, _, delta, present, _, fits, same⟩ := done
  cases same
  refine ⟨delta, present, List.isPrefixOf_iff_prefix.1 fits, fun other => ?_⟩
  by_cases equal : other = key
  · rw [if_pos equal, equal]
    simp [fragment]
  · rw [if_neg equal]
    unfold fragment
    rw [List.find?_cons_of_neg (by simpa using Ne.symm equal), List.find?_filter]
    congr 3
    funext entry
    by_cases here : entry.1 = other
    · simp [here, equal]
    · simp [here]

/-- What an event about a part has been checked for. -/
structure PartAgrees (state next : Agreement) (value item : Json) (index : Nat) (part : Family × Nat) (field : String)
    (target : Json) (final : Text) : Prop where
  named : namedPart value = some part
  within : itemPart item part = some (field, target)
  text : stringMember target field = some final
  delta : isAnyKind value deltaKinds = true → ∃ delta, stringMember value "delta" = some delta ∧
    fragment state (index, part) ++ delta <+: final ∧
      ∀ key, fragment next key = if key = (index, part) then fragment state (index, part) ++ delta else fragment state key
  other : isAnyKind value deltaKinds = false → next.fragments = state.fragments
  part : isAnyKind value partDoneKinds = true → member value "part" = target
  field : isAnyKind value textDoneKinds = true → stringMember value field = some final

omit [JsonText] in
theorem agreePart_spec {target : Json} (done : agreePart state value kind key field final target = some next) :
    next.fragments = state.fragments ∧ (endsWith kind ".done" = true → member value "part" = target) := by
  unfold agreePart at done
  simp only [Option.bind_eq_bind, Option.bind_eq_some_iff, Option.guard_eq_some'] at done
  obtain ⟨_, _, text, _, done⟩ := done
  split at done
  · simp only [Option.bind_eq_some_iff, Option.guard_eq_some', Bool.and_eq_true, beq_iff_eq] at done
    obtain ⟨_, ⟨_, equal⟩, same⟩ := done
    cases same
    exact ⟨rfl, fun _ => equal⟩
  · rename_i unfinished
    simp only [Option.bind_eq_some_iff, Option.guard_eq_some'] at done
    obtain ⟨_, _, same⟩ := done
    cases same
    exact ⟨rfl, fun finished => absurd finished unfinished⟩

omit [JsonText] in
theorem agreeField_spec (done : agreeField state value key field final = some next) :
    next.fragments = state.fragments ∧ stringMember value field = some final := by
  unfold agreeField at done
  simp only [Option.bind_eq_bind, Option.bind_eq_some_iff, Option.guard_eq_some', beq_iff_eq] at done
  obtain ⟨_, _, text, present, _, equal, same⟩ := done
  cases same
  exact ⟨rfl, equal ▸ present⟩

omit [JsonText] in
theorem agreeContent_spec (typed : stringMember value "type" = some kind)
    (done : agreeContent state value item kind index = some next) :
    ∃ part field target final, PartAgrees state next value item index part field target final := by
  unfold agreeContent at done
  simp only [Option.bind_eq_bind, Option.bind_eq_some_iff, Option.guard_eq_some'] at done
  obtain ⟨_, _, ⟨family, field, part, target⟩, found, _, _, final, text, done⟩ := done
  obtain ⟨known, named, within⟩ := finalPart_spec found
  obtain ⟨name, listed, same⟩ := isAnyKind_iff.1 known
  rw [same, Option.some.injEq] at typed
  subst typed
  rw [partKinds_delta name listed] at done
  refine ⟨(family, part), field, target, final, named, within, text, ?_, ?_, ?_, ?_⟩
  all_goals rw [isAnyKind_eq same]
  · intro delta
    rw [if_pos delta] at done
    exact agreeDelta_spec done
  · intro settled
    rw [if_neg (Bool.eq_false_iff.1 settled)] at done
    split at done
    · exact (agreePart_spec done).1
    · exact (agreeField_spec done).1
  · intro finished
    obtain ⟨settled, inside, ending⟩ := partKinds_part name listed finished
    rw [if_neg (Bool.eq_false_iff.1 settled), if_pos inside] at done
    exact (agreePart_spec done).2 ending
  · intro finished
    obtain ⟨settled, outside⟩ := partKinds_text name listed finished
    rw [if_neg (Bool.eq_false_iff.1 settled), if_neg (Bool.eq_false_iff.1 outside)] at done
    exact (agreeField_spec done).2

omit [JsonText] in
theorem agree_spec (agreed : agree done state value = some next) :
    ∃ index item, outputIndex value = some index ∧
      (done.find? fun entry => entry.1 == index).map (·.2) = some item ∧
      (value.get "item_id".toList).all (· == member item "id") = true ∧
      ((isAnyKind value itemKinds = true ∧ next.fragments = state.fragments) ∨
        ∃ part field target final, PartAgrees state next value item index part field target final) := by
  unfold agree at agreed
  simp only [Option.bind_eq_bind, Option.bind_eq_some_iff, Option.guard_eq_some'] at agreed
  obtain ⟨index, named, item, found, kind, typed, _, matched, agreed⟩ := agreed
  refine ⟨index.toNat, item, by simp [outputIndex, named], found, ?_, ?_⟩
  · unfold agreeItem at matched
    simp only [Bool.and_eq_true] at matched
    exact matched.1.1
  · split at agreed
    · rename_i finished
      cases agreed
      exact .inl ⟨by simp [isAnyKind, itemKinds, finished], rfl⟩
    · simp only [Option.bind_eq_some_iff, Option.guard_eq_some'] at agreed
      obtain ⟨_, _, agreed⟩ := agreed
      split at agreed
      · rename_i added
        simp only [Option.bind_eq_some_iff, Option.guard_eq_some'] at agreed
        obtain ⟨_, _, same⟩ := agreed
        cases same
        exact .inl ⟨by simp [isAnyKind, itemKinds, added], rfl⟩
      · exact .inr (agreeContent_spec typed agreed)

/-- The final text of a part of one of the items. -/
def FinalText (items : List Json) (key : PartKey) (final : Text) : Prop :=
  ∃ item field target, items[key.1]? = some item ∧ itemPart item key.2 = some (field, target) ∧
    stringMember target field = some final

omit [JsonText] in
theorem FinalText.unique {one two : Text} (first : FinalText items key one) (second : FinalText items key two) :
    one = two := by
  obtain ⟨item, field, target, found, within, text⟩ := first
  obtain ⟨item', field', target', found', within', text'⟩ := second
  rw [found, Option.some.injEq] at found'
  subst found'
  rw [within, Option.some.injEq, Prod.mk.injEq] at within'
  obtain ⟨rfl, rfl⟩ := within'
  rw [text, Option.some.injEq] at text'
  exact text'

/-- What the events read so far have been checked for, where the items are those finished. -/
structure Checked (items : List Json) (events : List Json) (state : Agreement) : Prop where
  own : ∀ value ∈ events, ∃ index item, outputIndex value = some index ∧ items[index]? = some item ∧
    (value.get "item_id".toList).all (· == member item "id") = true
  parts : ∀ value ∈ events, isAnyKind value partKinds = true → ∃ key field target final,
    About items value key field target final ∧
      (isAnyKind value partDoneKinds = true → member value "part" = target) ∧
      (isAnyKind value textDoneKinds = true → stringMember value field = some final)
  joined : ∀ key, ∃ texts : List Text, (events.filter (deltaOf key)).map (stringMember · "delta") = texts.map some ∧
    texts.flatten = fragment state key
  started : ∀ key final, FinalText items key final → fragment state key <+: final

namespace Checked
variable {items events : List Json} {done : List (Nat × Json)} {state next : Agreement} {value : Json}

omit [JsonText] in
theorem joined_snoc (before : Checked items events state) (settled : isAnyKind value deltaKinds = false)
    (same : next.fragments = state.fragments) (key : PartKey) :
    ∃ texts : List Text, ((events ++ [value]).filter (deltaOf key)).map (stringMember · "delta") = texts.map some ∧
      texts.flatten = fragment next key := by
  have other : deltaOf key value = false := by simp [deltaOf, settled]
  have kept : fragment next key = fragment state key := by rw [fragment, fragment, same]
  rw [List.filter_append, List.filter_cons_of_neg (by simp [other]), List.filter_nil, List.append_nil, kept]
  exact before.joined key

omit [JsonText] in
theorem joined_delta (before : Checked items events state) {part : Family × Nat} {delta : Text}
    (kind : isAnyKind value deltaKinds = true) (named : partKey value = some (index, part))
    (present : stringMember value "delta" = some delta) (joins : ∀ key, fragment next key =
      if key = (index, part) then fragment state (index, part) ++ delta else fragment state key)
    (key : PartKey) :
    ∃ texts : List Text, ((events ++ [value]).filter (deltaOf key)).map (stringMember · "delta") = texts.map some ∧
      texts.flatten = fragment next key := by
  obtain ⟨texts, read, flat⟩ := before.joined key
  rw [joins key]
  by_cases here : key = (index, part)
  · have mine : deltaOf key value = true := by simp [deltaOf, kind, named, here]
    refine ⟨texts ++ [delta], ?_, ?_⟩
    · rw [List.filter_append, List.filter_cons_of_pos mine, List.filter_nil, List.map_append, read, List.map_singleton,
        present, List.map_append, List.map_singleton]
    · rw [if_pos here, List.flatten_append, flat, ← here]
      simp
  · have other : deltaOf key value = false := by simp [deltaOf, named, Ne.symm here]
    refine ⟨texts, ?_, by rw [if_neg here, flat]⟩
    rw [List.filter_append, List.filter_cons_of_neg (by simp [other]), List.filter_nil, List.append_nil, read]

omit [JsonText] in
theorem step (before : Checked items events state)
    (finds : ∀ index, (done.find? fun entry => entry.1 == index).map (·.2) = items[index]?)
    (agreed : agree done state value = some next) : Checked items (events ++ [value]) next := by
  obtain ⟨index, item, named, found, same, kind⟩ := agree_spec agreed
  rw [finds] at found
  have each {P : Json → Prop} (old : ∀ other ∈ events, P other) (new : P value) : ∀ other ∈ events ++ [value], P other :=
    List.forall_mem_append.2 ⟨old, List.forall_mem_singleton.2 new⟩
  have own := each before.own ⟨index, item, named, found, same⟩
  rcases kind with ⟨about, fragments⟩ | ⟨part, field, target, final, checked⟩
  · -- an event about the item itself is about no part of it
    obtain ⟨name, listed, type⟩ := isAnyKind_iff.1 about
    have apart : ∀ name ∈ itemKinds, partKinds.contains name = false ∧ deltaKinds.contains name = false := by decide
    obtain ⟨whole, settled⟩ := apart name listed
    rw [← isAnyKind_eq type] at whole settled
    refine ⟨own, each before.parts ?_, before.joined_snoc settled fragments, ?_⟩
    · intro part
      rw [whole] at part
      cases part
    · intro key final text
      rw [fragment, fragments]
      exact before.started key final text
  · have key : partKey value = some (index, part) := by simp [partKey, named, checked.named]
    have text : FinalText items (index, part) final := ⟨item, field, target, found, checked.within, checked.text⟩
    refine ⟨own, each before.parts fun _ => ?_, ?_, ?_⟩
    · exact ⟨(index, part), field, target, final, ⟨key, ⟨item, found, checked.within⟩, checked.text⟩,
        checked.part, checked.field⟩
    · cases delta : isAnyKind value deltaKinds with
      | false => exact before.joined_snoc delta (checked.other delta)
      | true =>
        obtain ⟨read, present, _, joins⟩ := checked.delta delta
        exact before.joined_delta delta key present joins
    · intro other whole final'
      cases delta : isAnyKind value deltaKinds with
      | false =>
        rw [fragment, checked.other delta]
        exact before.started other whole final'
      | true =>
        obtain ⟨read, present, fits, joins⟩ := checked.delta delta
        rw [joins other]
        split
        · rename_i here
          subst here
          rw [final'.unique text]
          exact fits
        · exact before.started other whole final'

end Checked

omit [JsonText] in
theorem agree_checked {final : Agreement}
    (finds : ∀ index, (done.find? fun entry => entry.1 == index).map (·.2) = items[index]?)
    (agreed : events.foldlM (agree done) ⟨[], [], [], []⟩ = some final) : Checked items events final := by
  refine foldlM_reads (Checked items) ?_ (fun before state value next held => held.step finds) agreed
  exact ⟨fun _ member => absurd member List.not_mem_nil, fun _ member => absurd member List.not_mem_nil,
    fun _ => ⟨[], rfl, rfl⟩, fun _ _ _ => List.nil_prefix⟩

/-! ### Recovered output -/

omit [JsonText] in
theorem outputIndex_member {one two : Json} (first : outputIndex one = some index)
    (second : outputIndex two = some index) : member one "output_index" = member two "output_index" := by
  have number {value : Json} {found : UInt64} (read : value.asU64 = some found) :
      value = .number (Spelling.decimal found.toNat) := by
    unfold Json.asU64 at read
    split at read
    · rename_i spelling
      dsimp only at read
      split at read
      · rename_i plain
        cases read
        simp only [Bool.and_eq_true, decide_eq_true_eq] at plain
        rw [UInt64.toNat_ofNat_of_lt' plain.2, plain.1]
      · cases read
    · cases read
  obtain ⟨a, readA, sameA⟩ := Option.map_eq_some_iff.1 first
  obtain ⟨b, readB, sameB⟩ := Option.map_eq_some_iff.1 second
  rw [number readA, number readB, sameA, sameB]

omit [JsonText] in
theorem doneKind_associated (finished : isDone value = true) : associated value = true := by
  unfold associated
  rw [isKind_iff.1 finished]
  exact Bool.or_eq_true_iff.2 (.inr (by decide))

omit [JsonText] in
theorem partKinds_associated (part : isAnyKind value partKinds = true) : associated value = true := by
  obtain ⟨name, listed, kind⟩ := isAnyKind_iff.1 part
  have starts : ∀ name ∈ partKinds, ["response.output_item.", "response.output_text.", "response.refusal.",
      "response.content_part.", "response.function_call_arguments.", "response.reasoning_",
      "response.custom_tool_call_input."].any (startsWith name.toList) = true := by decide
  unfold associated
  rw [kind]
  exact Bool.or_eq_true_iff.2 (.inr (starts name listed))

theorem validate_checked (valid : validate events responseId = some items) :
    items ≠ [] ∧ ∃ collected final, collected.done.map (·.2) = items ∧
      collected.done.map (·.1) = List.range' 0 collected.done.length ∧ Gathered events collected ∧
      Checked items events final := by
  unfold validate at valid
  simp only [Option.bind_eq_bind, Option.bind_eq_some_iff, Option.guard_eq_some', Bool.and_eq_true, beq_iff_eq] at valid
  obtain ⟨collected, folded, _, ⟨nonempty, counted⟩, _, agreed, same⟩ := valid
  cases same
  rw [List.range_eq_range'] at counted
  cases checked : events.foldlM (agree collected.done) ⟨[], [], [], []⟩ with
  | none =>
    rw [checked] at agreed
    cases agreed
  | some final =>
    refine ⟨by simpa using nonempty, collected, final, rfl, counted, collect_gathered folded, ?_⟩
    refine agree_checked (fun index => ?_) checked
    simpa using find_counted counted index

omit [JsonText] in
/-- A list with the entries of distinct present ones has all of its entries present and distinct. -/
theorem present_distinct {found : List (Option Text)} {texts : List Text} (same : found.Perm (texts.map some))
    (distinct : texts.Nodup) : ∃ listed : List Text, found = listed.map some ∧ listed.Nodup := by
  have present : ∀ entry ∈ found, ∃ text, entry = some text := by
    intro entry member
    obtain ⟨text, _, rfl⟩ := List.mem_map.1 (same.subset member)
    exact ⟨text, rfl⟩
  obtain ⟨listed, rfl⟩ : ∃ listed : List Text, found = listed.map some := by
    clear same
    induction found with
    | nil => exact ⟨[], rfl⟩
    | cons entry found ih =>
      obtain ⟨text, rfl⟩ := present entry (by simp)
      obtain ⟨listed, rfl⟩ := ih fun other member => present other (by simp [member])
      exact ⟨text :: listed, rfl⟩
  refine ⟨listed, rfl, ?_⟩
  have nodup := same.nodup_iff.2 (distinct.map (Option.some_injective _))
  exact nodup.of_map

theorem Recovered.of_validated {values : List Json} (valid : (observed values).invalid = false)
    (found : validate (observed values).events responseId = some items) : Recovered values items := by
  obtain ⟨kept, apart⟩ := observed_kept valid
  obtain ⟨_, ⟨done, ids, calls⟩, final, same, counted, gathered, checked⟩ := validate_checked found
  rw [kept] at gathered checked apart
  have associatedPart {value : Json} (inside : value ∈ values) (part : isAnyKind value partKinds = true) :
      value ∈ values.filter associated := List.mem_filter.2 ⟨inside, partKinds_associated part⟩
  constructor
  case finished =>
    have all : values.filter isDone = (values.filter associated).filter isDone := by
      rw [List.filter_filter]
      refine List.filter_congr fun value _ => ?_
      cases finished : isDone value with
      | false => rfl
      | true => rw [doneKind_associated finished, Bool.and_self]
    rw [all, ← same, counted_zipIdx counted]
    exact gathered.done
  case complete =>
    intro item member
    rw [← same] at member
    obtain ⟨entry, inside, rfl⟩ := List.mem_map.1 member
    exact gathered.complete entry inside
  case ids =>
    rw [← same, List.map_map]
    exact present_distinct gathered.ids gathered.unrepeated
  case calls =>
    rw [← same, List.filter_map, List.map_map]
    exact present_distinct gathered.calls gathered.uncalled
  case parts => exact fun value inside part => checked.parts value (associatedPart inside part) part
  case deltas =>
    intro value inside delta
    have part : isAnyKind value partKinds = true := isAnyKind_partKinds delta (by decide)
    obtain ⟨key, field, target, text, about, _⟩ := checked.parts value (associatedPart inside part) part
    obtain ⟨texts, read, flat⟩ := checked.joined key
    obtain ⟨item, present, within⟩ := about.within
    refine ⟨key, field, target, text, about, texts, ?_, ?_⟩
    · rw [← read, List.filter_filter]
      refine congrArg _ (List.filter_congr fun other _ => ?_)
      cases mine : deltaOf key other with
      | false => rfl
      | true =>
        have part : isAnyKind other deltaKinds = true := (Bool.and_eq_true_iff.1 mine).1
        rw [partKinds_associated (isAnyKind_partKinds part (by decide)), Bool.and_self]
    · rw [flat]
      exact checked.started key text ⟨item, field, target, present, within, about.text⟩
  case closed =>
    rw [List.pairwise_filter] at apart
    refine apart.imp_of_mem ?_
    intro earlier later inside _ apart finished about equal
    have early := doneKind_associated finished
    obtain ⟨index, _, named, _⟩ := checked.own earlier (List.mem_filter.2 ⟨inside, early⟩)
    exact apart early about finished (outputIndex_member named (equal.trans named))
  case own => exact fun value inside about => checked.own value (List.mem_filter.2 ⟨inside, about⟩)

/-- Recovery of any stream returns no items, where no event was about one, or else exactly the items
that its events finished, all of whose events agree with them; every other stream is refused. -/
theorem recover_sound (values : List Json) (responseId : Text) (items : List Json)
    (recovered : ((observed values).recover responseId).2 = .ok items) :
    (items = [] → ∀ value ∈ values, associated value = false) ∧ (items ≠ [] → Recovered values items) := by
  have found : (observed values).recovered responseId = some items := obtained_eq_ok.1 recovered
  unfold FinalizedItems.recovered at found
  split at found
  · cases found
  · rename_i valid
    split at found
    · rename_i unseen
      cases found
      refine ⟨fun _ => ?_, fun nonempty => absurd rfl nonempty⟩
      rw [observed_evidence] at unseen
      simpa using unseen
    · have nonempty := (validate_checked found).1
      exact ⟨fun empty => absurd empty nonempty, fun _ => .of_validated (Bool.eq_false_iff.2 valid) found⟩

end

namespace ShortDeltas

/-- A finished message with one part. -/
def message : Json := .build [("id", .string "m1".toList), ("type", .string "message".toList),
  ("content", .array [.build [("type", .string "output_text".toList), ("text", .string "hello".toList)]])]

def about (kind : String) (members : List (String × Json)) : Json :=
  .build (("type", .string kind.toList) :: ("output_index", .number "0".toList) :: members)

def textDelta (text : String) : Json := about "response.output_text.delta"
  [("item_id", .string "m1".toList), ("content_index", .number "0".toList), ("delta", .string text.toList)]

def stream : List Json := [textDelta "he", textDelta "ll", about "response.output_item.done" [("item", message)]]

end ShortDeltas

/-- A message whose deltas stop short of its final text is recovered. -/
theorem recover_sound_message :
    letI := Codex.emptyObjectText
    ((observed ShortDeltas.stream).recover "r1".toList).2 = .ok [ShortDeltas.message] ∧ Recovered ShortDeltas.stream [ShortDeltas.message] := by
  let _ := Codex.emptyObjectText
  have found : ((observed ShortDeltas.stream).recover "r1".toList).2 = .ok [ShortDeltas.message] := by decide +kernel
  exact ⟨found, (recover_sound ShortDeltas.stream _ _ found).2 (by simp)⟩

end Wi.Codec
