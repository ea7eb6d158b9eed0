import Wi.Durability
import Wi.ExactlyOnce

/-! Reading the history page by page, and the event stream that follows it while commands go on. -/
namespace Wi
variable [JsonHash]

structure HistoryPage where
  throughSequence : Nat
  nextAfter : Nat
  hasMore : Bool
  records : List StoredEvent

/-- One row more than a page is selected, to see whether there is more. -/
def pageLimit (pageSize : Nat) : Result Nat :=
  if pageSize = 0 ∨ maxInteger < pageSize + 1 then invalid else .ok (pageSize + 1)

namespace History

/-- The next row of a page must continue the last one. -/
def readRecord (id : ApplicationSessionId) (read : List StoredEvent × Nat) (row : StoredEvent) : Result (List StoredEvent × Nat) := do
  let record ← decode id row
  require (record.sequence = read.2 + 1) .integrity
  return (read.1 ++ [record], record.sequence)

def page (db : Db) (id : ApplicationSessionId) (after : Nat) (through : Option Nat) (limit : Nat) : Result HistoryPage := do
  let head := db.manifest.headSequence
  let through := through.getD head
  require (1 ≤ head && through ≤ head && after ≤ through) .invalidInput
  let rows := Migration.replayPage db.events after through limit
  let hasMore := decide (rows.length = limit)
  let read ← (rows.take (limit - 1)).foldlM (readRecord id) ([], after)
  require (hasMore || read.2 = through) .integrity
  return ⟨through, read.2, hasMore, read.1⟩

end History

/-- `SessionHandle::history_page` -/
def Session.historyPage (db : Db) (provenance : CreationProvenance) (after : Nat) (through : Option Nat) (pageSize : Nat) :
    Result HistoryPage := do
  let limit ← pageLimit pageSize
  require (after ≤ maxInteger && through.all (· ≤ maxInteger)) .invalidInput
  discard (Session.validate db provenance.sessionId provenance)
  History.page db provenance.sessionId after through limit

def HistoryPage.sentThrough (page : HistoryPage) (after : Nat) : Nat := (page.records.getLast?.map (·.sequence)).getD after

/-- The loop of `stream_response`: a page is sent and the next one read from the state of its time, first up to the
head that the first page saw and then without a limit. An error ends the stream. -/
def streamResponse (provenance : CreationProvenance) : HistoryPage → Nat → Option Nat → List Db → List (Except StorageErrorKind StoredEvent)
  | page, _, _, [] => page.records.map .ok
  | page, after, through, db :: dbs =>
    let through := if page.hasMore then through else none
    page.records.map .ok ++ match Session.historyPage db provenance (page.sentThrough after) through 32 with
      | .error kind => [.error kind]
      | .ok next => streamResponse provenance next (page.sentThrough after) through dbs

/-- `events::open` -/
def eventStream (provenance : CreationProvenance) (first : Db) (after : Nat) (dbs : List Db) :
    Result (List (Except StorageErrorKind StoredEvent)) := do
  let page ← Session.historyPage first provenance after none 32
  return streamResponse provenance page after (some page.throughSequence) dbs

variable {provenance : CreationProvenance} {log seen : List StoredEvent} {after size : Nat} {db : Db} {fixed : Option Nat}

/-- What the parser makes of a row that it accepts. -/
def StoredEvent.parsed (event : StoredEvent) : StoredEvent := event.read.getD event

theorem StoredEvent.parsed_sequence (event : StoredEvent) : event.parsed.sequence = event.sequence := by
  rw [parsed, read]
  cases event.payload.read <;> rfl

/-- The page that a history has after a position. -/
def pageOf (seen : List StoredEvent) (after size : Nat) : HistoryPage :=
  ⟨seen.length, min (after + size) seen.length, decide (after + size < seen.length),
    ((seen.drop after).take size).map StoredEvent.parsed⟩

theorem Lawful.page_rows (lawful : Lawful provenance log) (early : seen <+: log) (started : seen ≠ []) (limit : Nat) :
    Migration.replayPage log after seen.length limit = (seen.drop after).take limit := by
  have reads := (lawful.of_prefix early started).replayPage_eq after limit
  obtain ⟨rest, rfl⟩ := early
  have past : rest.filter (fun event => after < event.sequence && event.sequence ≤ seen.length) = [] := by
    refine List.filter_eq_nil_iff.2 fun event member => ?_
    have := lawful.mem_drop (show event ∈ (seen ++ rest).drop seen.length by simpa using member)
    simp
    omega
  rw [← reads, Migration.replayPage, List.filter_append, past, List.append_nil, Migration.replayPage]

theorem Lawful.readRecords (lawful : Lawful provenance log) {rows read : List StoredEvent} (next : rows <+: log.drop after)
    (readable : ∀ event ∈ log, ∃ parsed, event.read = some parsed) :
    rows.foldlM (History.readRecord provenance.sessionId) (read, after) =
      .ok (read ++ rows.map StoredEvent.parsed, after + rows.length) := by
  induction rows generalizing read after with
  | nil => simp [pure_eq_ok]
  | cons event rows ih =>
    obtain ⟨rest, is_drop⟩ := next
    have bound : after < log.length := by
      by_contra past
      simp [List.drop_eq_nil_of_le (not_lt.1 past)] at is_drop
    rw [List.drop_eq_getElem_cons bound, List.cons_append] at is_drop
    obtain ⟨rfl, tail⟩ := List.cons.inj is_drop
    have member := List.getElem_mem bound
    obtain ⟨parsed, is_parsed⟩ := readable _ member
    have same : log[after].parsed = parsed := by rw [StoredEvent.parsed, is_parsed, Option.getD_some]
    have numbered : parsed.sequence = after + 1 := by rw [← same, StoredEvent.parsed_sequence, lawful.sequence_get bound]
    have read_one : History.readRecord provenance.sessionId (read, after) log[after] = .ok (read ++ [parsed], after + 1) := by
      simp [History.readRecord, lawful.decode_eq member, is_parsed, numbered]
    rw [List.foldlM_cons, read_one, ok_bind, ih ⟨rest, tail⟩]
    simp [same, Nat.add_assoc, Nat.add_comm 1]

/-- A read within the history returns the page that the history has there. -/
theorem Committed.historyPage (committed : Committed provenance db) (collision : CollisionFree) (positive : 1 ≤ size)
    (fits : size < maxInteger) (early : seen <+: db.events) (started : seen ≠ [])
    (limited : fixed.getD db.events.length = seen.length) (order : after ≤ seen.length)
    (readable : ∀ event ∈ db.events, ∃ parsed, event.read = some parsed) :
    Session.historyPage db provenance after fixed size = .ok (pageOf seen after size) := by
  have lawful := committed.recorded.lawful
  have length := early.length_le
  have head : 1 ≤ db.events.length := List.length_pos_iff.2 lawful.ne_nil
  have most : db.events.length ≤ maxInteger := by
    obtain ⟨last, -, member, numbered⟩ := lawful.last
    exact numbered ▸ (valid_eq_ok.1 (lawful.valid member)).2.1
  have limit : pageLimit size = .ok (size + 1) := if_neg (by omega)
  have within : (decide (after ≤ maxInteger) && fixed.all fun through => decide (through ≤ maxInteger)) = true := by
    cases fixed <;> simp_all <;> omega
  have rows : Migration.replayPage db.events after seen.length (size + 1) = _ := lawful.page_rows early started _
  have read : List.foldlM (History.readRecord provenance.sessionId) ([], after) _ = _ :=
    lawful.readRecords ((List.take_prefix size _).trans (early.drop after)) readable
  simp only [Session.historyPage, limit, ok_bind, within, require_true, committed.validate collision, discard_ok, History.page,
    committed.manifest.head, limited, rows, Nat.add_sub_cancel, List.take_take, min_eq_left (Nat.le_succ size), read]
  by_cases more : after + size < seen.length
  · have count : min size (seen.length - after) = size ∧ min (size + 1) (seen.length - after) = size + 1 := by omega
    simp [pageOf, more, more.le, count, head, order, length]
  · have count : min size (seen.length - after) = seen.length - after ∧ min (size + 1) (seen.length - after) ≠ size + 1 := by omega
    simp [pageOf, more, not_lt.1 more, count, head, order, length]

theorem Lawful.sentThrough (lawful : Lawful provenance seen) (order : after ≤ seen.length) :
    (pageOf seen after size).sentThrough after = min (after + size) seen.length := by
  rw [HistoryPage.sentThrough, pageOf, List.getLast?_eq_getElem?]
  cases count : min size (seen.length - after) with
  | zero =>
    simp [count]
    omega
  | succ last =>
    have inside : after + last < seen.length := by omega
    simp [count, StoredEvent.parsed_sequence, lawful.sequence_get inside]
    omega

theorem drop_eq_page (early : seen <+: log) (order : after ≤ seen.length) :
    (log.drop after).map StoredEvent.parsed =
      (pageOf seen after size).records ++ (log.drop (min (after + size) seen.length)).map StoredEvent.parsed := by
  obtain ⟨tail, rfl⟩ := early
  have rest : seen.drop (min (after + size) seen.length) = (seen.drop after).drop size := by
    rcases le_total (after + size) seen.length with more | less
    · simp [more]
    · simp [less]
  rw [List.drop_append_of_le_length order, List.drop_append_of_le_length (min_le_right _ _), rest, pageOf, ← List.map_append,
    ← List.append_assoc, List.take_append_drop]

/-- The loop from a page on. The page may see less of the history than there is only while it has more. -/
theorem streamResponse_gapless (collision : CollisionFree) {now last : Db} (committed : Committed provenance now) {dbs : List Db}
    (later : (now :: (dbs ++ [last])).Pairwise (Later provenance)) (early : seen <+: now.events) (started : seen ≠ [])
    (order : after ≤ seen.length) (ahead : after = seen.length → seen = now.events) (limited : ∀ through ∈ fixed, through = seen.length)
    (readable : ∀ event ∈ last.events, ∃ parsed, event.read = some parsed) :
    ∃ sent, streamResponse provenance (pageOf seen after 32) after fixed dbs = sent.map .ok ∧
      sent <+: (last.events.drop after).map StoredEvent.parsed ∧
      ∀ i db, (now :: dbs)[i]? = some db → min (dbs.length + 1 - i) (db.events.length - after) ≤ sent.length := by
  induction dbs generalizing now after seen fixed with
  | nil =>
    have whole := (Later.committed collision ((List.pairwise_cons.1 later).1 last (by simp)) committed).2.events
    refine ⟨_, rfl, drop_eq_page (early.trans whole) order ▸ List.prefix_append _ _, fun i db found => ?_⟩
    cases i with
    | zero =>
      cases found
      by_cases done : after = seen.length
      · simp [← ahead done, done]
      · simp [pageOf]
        omega
    | succ i => cases found
  | cons db dbs ih =>
    obtain ⟨before, rest⟩ := List.pairwise_cons.1 later
    obtain ⟨held, grown⟩ := Later.committed collision (before db (by simp)) committed
    have rest_read := (Later.committed collision ((List.pairwise_cons.1 rest).1 last (by simp)) held).2.events.subset
    have whole := (Later.committed collision (before last (by simp)) committed).2.events
    have sent_through : (pageOf seen after 32).sentThrough after = _ := (committed.recorded.lawful.of_prefix early started).sentThrough order
    have split : _ = (pageOf seen after 32).records ++ _ := drop_eq_page (early.trans whole) order
    generalize is_next : min (after + 32) seen.length = next at sent_through split
    generalize is_through : (if (pageOf seen after 32).hasMore then fixed else none) = through
    -- the limit stays while there is more below it, and what is seen then stays the same
    obtain ⟨seen', early', same, limited', ahead', grows⟩ : ∃ seen', seen' <+: db.events ∧
        through.getD db.events.length = seen'.length ∧ (∀ limit ∈ through, limit = seen'.length) ∧
        (next = seen'.length → seen' = db.events) ∧ seen <+: seen' := by
      cases through with
      | none => exact ⟨db.events, List.prefix_rfl, rfl, by simp, fun _ => rfl, early.trans grown.events⟩
      | some limit =>
        split at is_through
        · rename_i further
          have is_limit := limited limit is_through
          simp only [pageOf, decide_eq_true_eq] at further
          exact ⟨seen, early.trans grown.events, is_limit, by simp [is_limit], by omega, List.prefix_rfl⟩
        · cases is_through
    have started' : seen' ≠ [] := fun empty => started (List.prefix_nil.1 (empty ▸ grows))
    have order' : next ≤ seen'.length := (is_next ▸ min_le_right _ _).trans grows.length_le
    have page := held.historyPage collision (by decide : 1 ≤ 32) (by decide) early' started' same order' fun event member => readable event (rest_read member)
    obtain ⟨sent, streamed, follows, progress⟩ := ih held rest early' started' order' ahead' limited'
    refine ⟨(pageOf seen after 32).records ++ sent, ?_, ?_, fun i other found => ?_⟩
    · simp only [streamResponse, sent_through, is_through, page, streamed, List.map_append]
    · rw [split, List.prefix_append_right_inj]
      exact follows
    · have length : ((pageOf seen after 32).records ++ sent).length = next - after + sent.length := by
        simp [pageOf]
        omega
      rw [length, List.length_cons]
      cases i with
      | zero =>
        cases found
        have := progress 0 db rfl
        have : after = seen.length → seen.length = now.events.length := fun done => by rw [← ahead done]
        have := early.length_le
        have := grown.events.length_le
        omega
      | succ i =>
        have := progress i other found
        omega

theorem eventStream_eq (collision : CollisionFree) {first last : Db} (committed : Committed provenance first) {dbs : List Db}
    (later : (first :: (dbs ++ [last])).Pairwise (Later provenance)) (start : after ≤ first.events.length)
    (readable : ∀ event ∈ last.events, ∃ parsed, event.read = some parsed) :
    ∃ sent : List StoredEvent, eventStream provenance first after dbs = .ok (sent.map .ok) ∧
      sent <+: (last.events.drop after).map StoredEvent.parsed ∧
      ∀ i db, (first :: dbs)[i]? = some db → min (dbs.length + 1 - i) (db.events.length - after) ≤ sent.length := by
  have started := committed.recorded.lawful.ne_nil
  have early := (Later.committed collision ((List.pairwise_cons.1 later).1 last (by simp)) committed).2.events.subset
  have page : Session.historyPage first provenance after none 32 = _ :=
    committed.historyPage collision (by decide) (by decide) List.prefix_rfl started rfl start
      fun event member => readable event (early member)
  have limited : ∀ through ∈ some first.events.length, through = first.events.length := by simp
  rw [eventStream, page]
  obtain ⟨sent, streamed, sends⟩ :=
    streamResponse_gapless collision committed later List.prefix_rfl started start (fun _ => rfl) limited readable
  exact ⟨sent, congrArg Except.ok streamed, sends⟩

/-- The stream sends the events after its start as the parser reads them, one after the other and without an error, a gap
or a repetition, whatever is committed meanwhile, where the parser accepts what is stored. Each read sends at least one
event that it can see and that was not sent before. -/
theorem event_stream_gapless (collision : CollisionFree) {first last : Db} (reachable : Reachable provenance first) {dbs : List Db}
    (later : (first :: (dbs ++ [last])).Pairwise (Later provenance)) (start : after ≤ first.manifest.headSequence)
    (readable : ∀ event ∈ last.events, ∃ parsed, event.read = some parsed) :
    ∃ sent : List StoredEvent, eventStream provenance first after dbs = .ok (sent.map .ok) ∧
      sent.map some <+: (last.events.drop after).map StoredEvent.read ∧
      ∀ i db, (first :: dbs)[i]? = some db → min (dbs.length + 1 - i) (db.events.length - after) ≤ sent.length := by
  have committed := reachable.committed collision
  rw [committed.manifest.head] at start
  obtain ⟨sent, streamed, follows, progress⟩ := eventStream_eq collision committed later start readable
  have as_read : (last.events.drop after).map StoredEvent.read = ((last.events.drop after).map StoredEvent.parsed).map some := by
    rw [List.map_map]
    refine List.map_congr_left fun event member => ?_
    obtain ⟨parsed, is_parsed⟩ := readable event (List.mem_of_mem_drop member)
    simp [StoredEvent.parsed, is_parsed]
  exact ⟨sent, streamed, as_read ▸ follows.map some, progress⟩

omit [JsonHash] in
theorem event_stream_gapless_responding : letI := JsonHash.ideal
    ∃ sent : List StoredEvent, eventStream .ideal responding 1 [responding] = .ok (sent.map .ok) ∧
      sent.map some <+: (responding.events.drop 1).map StoredEvent.read := by
  let _ := JsonHash.ideal
  have later : (responding :: ([responding] ++ [responding])).Pairwise (Later .ideal) := by simp [Later, Relation.ReflTransGen.refl]
  obtain ⟨sent, streamed, follows, -⟩ :=
    event_stream_gapless JsonHash.ideal_collisionFree responding_reachable later (by decide +kernel : 1 ≤ _)
      fun event _ => ⟨event, event.read_ideal⟩
  exact ⟨sent, streamed, follows⟩

end Wi
