import Wi.Evolution
import Wi.Reaching

/-! A snapshot changes as little as it can: it rewrites, removes and inserts only what its parts
require, and the content epoch moves exactly when it changes which fields there are. -/
namespace Wi
open Utf8 Fields Content

variable {field : LogicalField} {part : Part}

/-! ### What the logical snapshot does -/

namespace Layout
variable {sequence : Nat} {output : Option UInt64} {parts : List Part} {fields : Fields}

/-- The fields of the range, in order. -/
def places (output : Option UInt64) (fields : Fields) : List (FieldOrder × FieldKind) :=
  (fields.filter (inRange output)).map place

/-- A part shows what a field at the same place could show. -/
def Fits (part : Part) (field : LogicalField) : Prop := field.order = .indexed part.order ∧ field.kind = part.kind

theorem inRange_congr {a b : LogicalField} (same : a.order = b.order) : inRange output a = inRange output b := by
  simp only [inRange, same]

theorem place_of_settle {next : LogicalField} (settled : settle sequence output parts field = some next) :
    place next = place field := by
  unfold settle at settled
  split at settled
  · obtain ⟨part, -, rfl⟩ := Option.map_eq_some_iff.1 settled
    split <;> rfl
  · rw [Option.some.inj settled]

theorem partFor_of_fits (distinct : (parts.map Part.order).Nodup) (member : part ∈ parts)
    (fits : Fits part field) : partFor parts field = some part := by
  have exists_part : (partFor parts field).isSome = true := by
    rw [partFor, List.find?_isSome]
    exact ⟨part, member, by simp [fits.1, fits.2]⟩
  obtain ⟨other, found⟩ := Option.isSome_iff_exists.1 exists_part
  obtain ⟨present, order, -⟩ := partFor_eq_some found
  have same : other = part := List.inj_on_of_nodup_map distinct present member
    (FieldOrder.indexed.inj (order.symm.trans fits.1))
  rw [found, same]

theorem partFor_eq_none (missing : ∀ part ∈ parts, ¬Fits part field) : partFor parts field = none := by
  cases found : partFor parts field with
  | none => rfl
  | some part =>
    obtain ⟨member, order, kind⟩ := partFor_eq_some found
    exact absurd ⟨order, kind.symm⟩ (missing part member)

theorem mem_snapshot : field ∈ snapshot sequence output parts fields ↔
    (∃ old ∈ fields, settle sequence output parts old = some field) ∨
      ∃ part ∈ fresh output parts fields, field = created part sequence := by
  rw [snapshot, mem_inserted, settled, List.mem_filterMap]

theorem mem_fresh : part ∈ fresh output parts fields ↔
    part ∈ parts ∧ ∀ field ∈ fields, inRange output field = true → ¬Fits part field := by
  rw [fresh, List.mem_filter, Bool.not_eq_true', retains, List.any_eq_false]
  refine and_congr_right fun _ => forall₂_congr fun field _ => ?_
  simp only [Bool.and_eq_true, decide_eq_true_eq, Fits, not_and]
  constructor
  · intro apart ranged order kind
    exact apart ⟨ranged, order.symm⟩ kind.symm
  · rintro apart ⟨ranged, order⟩ kind
    exact apart ranged order.symm kind.symm

theorem place_removed (distinct : Distinct fields) {other : LogicalField} (member : field ∈ fields)
    (ranged : inRange output field = true) (missing : ∀ part ∈ parts, ¬Fits part field)
    (left : other ∈ snapshot sequence output parts fields) : place other ≠ place field := by
  intro same
  obtain ⟨order, kind⟩ := Prod.mk.inj same
  rcases mem_snapshot.1 left with ⟨old, present, settled⟩ | ⟨part, new, rfl⟩
  · have equal : old = field := distinct.eq present member ((order_of_settle settled).symm.trans order)
    subst equal
    rw [settle, if_pos ranged, partFor_eq_none missing] at settled
    cases settled
  · exact missing part (mem_fresh.1 new).1 ⟨order.symm, kind.symm⟩

theorem places_settled (stays : ∀ field ∈ fields, (settle sequence output parts field).isSome = true) :
    places output (settled sequence output parts fields) = places output fields := by
  induction fields with
  | nil => rfl
  | cons field fields ih =>
    obtain ⟨first, rest⟩ := List.forall_mem_cons.1 stays
    obtain ⟨next, becomes⟩ := Option.isSome_iff_exists.1 first
    have same := ih rest
    have range : inRange output next = inRange output field := inRange_congr (order_of_settle becomes)
    rw [settled, List.filterMap_cons, becomes]
    unfold places settled at same
    unfold places
    by_cases inside : inRange output field = true
    · rw [List.filter_cons_of_pos (range.trans inside), List.filter_cons_of_pos inside, List.map_cons, List.map_cons, same,
        place_of_settle becomes]
    · rw [List.filter_cons_of_neg (by rwa [range]), List.filter_cons_of_neg inside, same]

/-- A snapshot moves content exactly if the places in its range change, or a part lies outside. -/
theorem snapshotMoves_iff (distinct : Distinct fields) : snapshotMoves sequence output parts fields = true ↔
    places output (snapshot sequence output parts fields) ≠ places output fields ∨
      ∃ part ∈ parts, inRange output (created part sequence) = false := by
  constructor
  · intro moves
    rcases Bool.or_eq_true_iff.1 moves with vanishes | grows
    · left
      obtain ⟨field, member, gone⟩ := List.any_eq_true.1 vanishes
      have ranged : inRange output field = true := by
        by_contra outside
        simp [settle, outside] at gone
      have missing : ∀ part ∈ parts, ¬Fits part field := by
        intro part present fits
        have found : (partFor parts field).isSome = true := by
          rw [partFor, List.find?_isSome]
          exact ⟨part, present, by simp [fits.1, fits.2]⟩
        rw [settle, if_pos ranged, Option.isNone_map, Option.isNone_iff_eq_none] at gone
        rw [gone] at found
        cases found
      intro same
      have listed : place field ∈ places output fields := List.mem_map.2 ⟨field, List.mem_filter.2 ⟨member, ranged⟩, rfl⟩
      rw [← same] at listed
      obtain ⟨other, left, equal⟩ := List.mem_map.1 listed
      exact place_removed distinct member ranged missing (List.mem_filter.1 left).1 equal
    · have nonempty : fresh output parts fields ≠ [] := by simpa using grows
      obtain ⟨part, new⟩ := List.exists_mem_of_ne_nil _ nonempty
      obtain ⟨member, missing⟩ := mem_fresh.1 new
      by_cases inside : inRange output (created part sequence) = true
      · left
        intro same
        have placed : created part sequence ∈ snapshot sequence output parts fields := mem_snapshot.2 (.inr ⟨part, new, rfl⟩)
        have listed : place (created part sequence) ∈ places output (snapshot sequence output parts fields) :=
          List.mem_map.2 ⟨_, List.mem_filter.2 ⟨placed, inside⟩, rfl⟩
        rw [same] at listed
        obtain ⟨field, old, equal⟩ := List.mem_map.1 listed
        obtain ⟨present, ranged⟩ := List.mem_filter.1 old
        exact missing field present ranged (Prod.mk.inj equal)
      · exact .inr ⟨part, member, Bool.eq_false_iff.2 inside⟩
  · intro changed
    by_contra still
    rw [snapshotMoves, Bool.or_eq_true, not_or, List.any_eq_true, Bool.not_eq_true'] at still
    obtain ⟨stays, grown⟩ := still
    have empty : fresh output parts fields = [] := by simpa using grown
    have kept : ∀ field ∈ fields, (settle sequence output parts field).isSome = true := by
      intro field member
      by_contra gone
      exact stays ⟨field, member, by simpa using gone⟩
    rcases changed with different | ⟨part, member, outside⟩
    · refine different ?_
      rw [snapshot, empty]
      exact places_settled kept
    · have shown : part ∉ fresh output parts fields := by simp [empty]
      rw [mem_fresh, not_and] at shown
      have some_field := shown member
      push Not at some_field
      obtain ⟨field, _, ranged, fits⟩ := some_field
      rw [inRange_congr (show (created part sequence).order = field.order from fits.1.symm), ranged] at outside
      cases outside

end Layout

/-! ### The least change -/

/-- What a snapshot may change of the fields of an entry: outside its range nothing; inside it a
field that a part fits keeps its row if the text is the same and is rewritten otherwise, every
other field goes, and every other part is inserted. -/
structure Minimal [JsonHash] (sql next : Conversation) (run : RunId) (entry after : Entry) (sequence : Nat) (output : Option UInt64)
    (parts : List Part) (fields final : Layout.Fields) : Prop where
  stored : Stores next run entry.id final
  others : SameBut run entry.id sql next
  outside : ∀ field ∈ fields, Layout.inRange output field = false → field ∈ final
  kept : ∀ field ∈ fields, Layout.inRange output field = true → ∀ part ∈ parts, Layout.Fits part field →
    field.text = part.text → field ∈ final
  rewritten : ∀ field ∈ fields, Layout.inRange output field = true → ∀ part ∈ parts, Layout.Fits part field →
    field.text ≠ part.text → { field with generation := sequence, text := part.text } ∈ final
  removed : ∀ field ∈ fields, Layout.inRange output field = true → (∀ part ∈ parts, ¬Layout.Fits part field) →
    ∀ other ∈ final, Layout.place other ≠ Layout.place field
  inserted : ∀ part ∈ parts, (∀ field ∈ fields, Layout.inRange output field = true → ¬Layout.Fits part field) →
    Layout.created part sequence ∈ final
  shown : ∀ field ∈ final, (field ∈ fields ∧ Layout.inRange output field = false) ∨
    ∃ part ∈ parts, Layout.Fits part field ∧ field.text = part.text
  rows : ∀ field ∈ fields, field ∈ final → field.row run entry.id ∈ fieldsAt next run entry.id ∧
    chunksAt next run entry.id (field.fieldId run entry.id) = chunksAt sql run entry.id (field.fieldId run entry.id)
  epoch : after = if Layout.places output final ≠ Layout.places output fields ∨
      (∃ part ∈ parts, Layout.inRange output (Layout.created part sequence) = false)
    then { entry with epoch := sequence } else entry

section Reached
variable [JsonHash] {sql : Conversation} {run : RunId} {entry : Entry} {sequence : Nat} {fields : Layout.Fields}
  {output : Option UInt64} {parts : List Part}

theorem Stores.snapshot_minimal (stores : Stores sql run entry.id fields) (distinct : (parts.map Part.order).Nodup)
    {next : Conversation} {after : Entry} (done : Content.snapshot sql run entry sequence output parts = .ok (next, after)) :
    Minimal sql next run entry after sequence output parts fields (Layout.snapshot sequence output parts fields) := by
  obtain ⟨stored, others, entered⟩ := snapshot_eq_ok stores distinct done
  have settles {field result : LogicalField} (member : field ∈ fields)
      (becomes : Layout.settle sequence output parts field = some result) : result ∈ Layout.snapshot sequence output parts fields :=
    Layout.mem_snapshot.2 (.inl ⟨field, member, becomes⟩)
  refine ⟨stored, others, fun field member outside => settles member ?_, fun field member ranged part present fits same => settles member ?_,
    fun field member ranged part present fits different => settles member ?_,
    fun field member ranged missing other left => Layout.place_removed stores.orders_distinct member ranged missing left,
    fun part present missing => Layout.mem_snapshot.2 (.inr ⟨part, Layout.mem_fresh.2 ⟨present, missing⟩, rfl⟩),
    fun field left => ?_, fun field member left => ?_, ?_⟩
  · simp [Layout.settle, outside]
  · rw [Layout.settle, if_pos ranged, Layout.partFor_of_fits distinct present fits, Option.map_some, if_pos same]
  · rw [Layout.settle, if_pos ranged, Layout.partFor_of_fits distinct present fits, Option.map_some, if_neg different]
  · rcases Layout.mem_snapshot.1 left with ⟨old, member, becomes⟩ | ⟨part, new, rfl⟩
    · by_cases ranged : Layout.inRange output old = true
      · rw [Layout.settle, if_pos ranged] at becomes
        obtain ⟨part, found, rfl⟩ := Option.map_eq_some_iff.1 becomes
        obtain ⟨present, order, kind⟩ := Layout.partFor_eq_some found
        refine .inr ⟨part, present, ?_⟩
        split
        · rename_i same
          exact ⟨⟨order, kind.symm⟩, same⟩
        · exact ⟨⟨order, kind.symm⟩, rfl⟩
      · rw [Layout.settle, if_neg ranged] at becomes
        cases becomes
        exact .inl ⟨member, Bool.eq_false_iff.2 ranged⟩
    · exact .inr ⟨part, (Layout.mem_fresh.1 new).1, ⟨rfl, rfl⟩, rfl⟩
  · refine ⟨stored.rows.mem_iff.2 (List.mem_map.2 ⟨field, left, rfl⟩), ?_⟩
    rw [stored.chunks field left, stores.chunks field member]
  · rw [entered]
    split
    · rename_i moves
      rw [if_pos ((Layout.snapshotMoves_iff stores.orders_distinct).1 moves)]
    · rename_i still
      rw [if_neg (fun moves => still ((Layout.snapshotMoves_iff stores.orders_distinct).2 moves))]

variable {provenance : CreationProvenance} {db : Db}

/-- Of every entry in every state of a session a snapshot changes the least, and a coherent
snapshot of an entry other than a human one succeeds. -/
theorem snapshot_changes_least (collision : CollisionFree) (reachable : Reachable provenance db) (run : RunId) (entry : Entry)
    (sequence : Nat) (output : Option UInt64) (parts : List Part) (distinct : (parts.map Part.order).Nodup) :
    ∃ fields, Stores db.conversation run entry.id fields ∧
      (∀ next after, Content.snapshot db.conversation run entry sequence output parts = .ok (next, after) →
        ∃ final, Minimal db.conversation next run entry after sequence output parts fields final) ∧
      (∀ source, Rows.lookup db.conversation run sequence source = .ok (some entry) → source ≠ .human →
        sequence = db.events.length + 1 → sequence ≤ maxInteger → Layout.Coherent output parts →
        (∀ part ∈ parts, bytes part.text ≤ maxInteger) →
        ∃ result, Content.snapshot db.conversation run entry sequence output parts = .ok result) := by
  have committed := reachable.committed collision
  have represents := committed.recorded.represents collision
  have lawful := committed.recorded.lawful
  have shown := lawful.shown
  refine ⟨_, represents.content run entry.id, fun next after done =>
    ⟨_, (represents.content run entry.id).snapshot_minimal distinct done⟩, ?_⟩
  intro source found other next fits coherent small
  have ongoing : Ongoing db.conversation (Display.ofLog db.events) (eventsWeight db.events) sequence :=
    ⟨represents, shown.sound, collision, by rw [next, shown.applied], fits⟩
  rw [ongoing.lookup run source] at found
  obtain ⟨item, present, rfl⟩ := Option.map_eq_some_iff.1 (Except.ok.inj found)
  obtain ⟨member, sameRun, sameSource⟩ := Display.find_eq_some present
  subst sameRun sameSource
  have room : Layout.textBytes item.fields ≤ maxInteger := by
    have size := (shown.sound.items item member).size
    have limit := lawful.room
    simp only [databaseLimit] at limit
    simp only [maxInteger]
    omega
  obtain ⟨next, done, _⟩ := represents.snapshot collision shown.sound.ordered member (ongoing.writable member other) coherent room
    small item.metadata
  exact ⟨_, done⟩

end Reached
theorem toOption_eq_some {ε α : Type} {result : Except ε α} {value : α} : result.toOption = some value ↔ result = .ok value := by
  cases result <;> simp [Except.toOption]

/-- The places of the rows in a range, as the tables have them. -/
def rowPlaces [JsonHash] (sql : Conversation) (run : RunId) (id : EntryId) (output : Option UInt64) : List (FieldOrder × FieldKind) :=
  ((fieldsAt sql run id).filter fun row =>
    decide ((range output).1 ≤ row.orderKey.encode) && decide (row.orderKey.encode < (range output).2)).map
      fun row => (row.orderKey, row.kind)

/-- The response with three texts of its first output. -/
def writing : @Db JsonHash.ideal :=
  letI := JsonHash.ideal
  let request := some (Uuid.ending 'b').text
  let text (letter : Char) : Json := .object [("type".toList, .string "output_text".toList), ("text".toList, .string [letter])]
  (Session.execute firstProcess .ideal responding (.record (Uuid.ending '4') Uuid.one (.append
    [.runtime ⟨2, 4, (Uuid.ending '5').text, Uuid.one.text, some (Uuid.ending 'a').text, some "session".toList, request,
      .providerEvent ⟨1, 2, "item".toList, "session".toList, request, "provider".toList, none, .outputItemFinished "response".toList 0
        ⟨none, .message, "message".toList, none, .object [("content".toList, .array [text 'a', text 'b', text 'c'])]⟩⟩⟩]))).1

theorem writing_reachable : @Reachable JsonHash.ideal .ideal writing :=
  letI := JsonHash.ideal
  responding_reachable.step (.request _ _ _)

/-- A snapshot that keeps the first text, rewrites the second and removes the third. -/
theorem snapshot_changes_least_first : letI := JsonHash.ideal
    let part (index : UInt64) (letter : Char) : Part := ⟨⟨some 0, .content, none, some index⟩, .text, [letter]⟩
    let parts := [part 0 'a', part 1 'x']
    Reachable .ideal writing ∧ ∃ entry fields next after final,
      Rows.lookup writing.conversation Uuid.one 7 (.assistant (Uuid.ending 'a').text) = .ok (some entry) ∧
      (rowPlaces writing.conversation Uuid.one entry.id (some 0)).length = 3 ∧
      Stores writing.conversation Uuid.one entry.id fields ∧
      Content.snapshot writing.conversation Uuid.one entry 7 (some 0) parts = .ok (next, after) ∧
      (rowPlaces next Uuid.one entry.id (some 0)).length = 2 ∧
      Minimal writing.conversation next Uuid.one entry after 7 (some 0) parts fields final := by
  let _ := JsonHash.ideal
  intro part parts
  have evaluated : (Rows.lookup writing.conversation Uuid.one 7 (.assistant (Uuid.ending 'a').text)).toOption.join.bind
      (fun entry => (Content.snapshot writing.conversation Uuid.one entry 7 (some 0) parts).toOption.map fun result =>
        ((rowPlaces writing.conversation Uuid.one entry.id (some 0)).length,
          (rowPlaces result.1 Uuid.one entry.id (some 0)).length)) = some (3, 2) := by decide +kernel
  obtain ⟨entry, found, rest⟩ := Option.bind_eq_some_iff.1 evaluated
  obtain ⟨⟨next, after⟩, done, facts⟩ := Option.map_eq_some_iff.1 rest
  obtain ⟨before, left⟩ := Prod.mk.inj facts
  obtain ⟨fields, stores, minimal, -⟩ := snapshot_changes_least JsonHash.ideal_collisionFree writing_reachable Uuid.one entry 7
    (some 0) parts (by decide)
  obtain ⟨final, least⟩ := minimal next after (toOption_eq_some.1 done)
  exact ⟨writing_reachable, entry, fields, next, after, final, toOption_eq_some.1 (Option.join_eq_some_iff.1 found), before, stores,
    toOption_eq_some.1 done, left, least⟩

/-- A part of another output moves the epoch and changes nothing in the range. -/
theorem snapshot_outside_range : letI := JsonHash.ideal
    ∃ entry next after, Reachable .ideal responding ∧
      Rows.lookup responding.conversation Uuid.one 6 (.assistant (Uuid.ending 'a').text) = .ok (some entry) ∧
      Content.snapshot responding.conversation Uuid.one entry 6 (some 0) [⟨⟨some 1, .content, none, some 0⟩, .text, ['a']⟩] =
        .ok (next, after) ∧
      rowPlaces next Uuid.one entry.id (some 0) = rowPlaces responding.conversation Uuid.one entry.id (some 0) ∧
      entry.epoch = 5 ∧ after.epoch = 6 := by
  let _ := JsonHash.ideal
  have evaluated : (Rows.lookup responding.conversation Uuid.one 6 (.assistant (Uuid.ending 'a').text)).toOption.join.bind
      (fun entry => (Content.snapshot responding.conversation Uuid.one entry 6 (some 0)
        [⟨⟨some 1, .content, none, some 0⟩, .text, ['a']⟩]).toOption.map fun result =>
          (decide (rowPlaces result.1 Uuid.one entry.id (some 0) = rowPlaces responding.conversation Uuid.one entry.id (some 0)),
            entry.epoch, result.2.epoch)) = some (true, 5, 6) := by decide +kernel
  obtain ⟨entry, found, rest⟩ := Option.bind_eq_some_iff.1 evaluated
  obtain ⟨⟨next, after⟩, done, facts⟩ := Option.map_eq_some_iff.1 rest
  simp only [Prod.mk.injEq, decide_eq_true_eq] at facts
  exact ⟨entry, next, after, responding_reachable, toOption_eq_some.1 (Option.join_eq_some_iff.1 found), toOption_eq_some.1 done, facts⟩

end Wi
