import Wi.Logs

/-! Where events stand in a lawful log: its first and last ones, the latest that names the
session, and the acceptance and history selection of a run. -/
namespace Wi
variable [JsonHash]

section Positions
variable {provenance : CreationProvenance} {log added : List StoredEvent} {event : StoredEvent}

theorem Lawful.first (lawful : Lawful provenance log) :
    ∃ request rest, provenance.checkedRequest = .ok request ∧ log = provenance.event request :: rest := by
  induction lawful with
  | created checked => exact ⟨_, [], checked, rfl⟩
  | follows _ _ ih =>
    obtain ⟨request, rest, checked, rfl⟩ := ih
    exact ⟨request, rest ++ [_], checked, rfl⟩

theorem Lawful.max_sequence (lawful : Lawful provenance log) : (log.map (·.sequence)).max? = some log.length := by
  have numbered : log.map (·.sequence) = List.range' 1 log.length := lawful.numbered
  have positive := List.length_pos_iff.2 lawful.ne_nil
  rw [numbered, List.max?_eq_some_iff]
  refine ⟨by rw [List.mem_range'_1]; omega, fun other member => ?_⟩
  rw [List.mem_range'_1] at member
  omega

theorem Lawful.last (lawful : Lawful provenance log) :
    ∃ event, log.getLast? = some event ∧ event ∈ log ∧ event.sequence = log.length := by
  cases lawful with
  | created => exact ⟨_, rfl, by simp, rfl⟩
  | @follows log event _ follows =>
    refine ⟨event, by simp, by simp, ?_⟩
    rw [follows.next, List.length_append, List.length_singleton]

theorem Lawful.sequence_get (lawful : Lawful provenance log) {index : Nat} (bound : index < log.length) :
    log[index].sequence = index + 1 := by
  have numbered : (log.map StoredEvent.sequence)[index]? = (List.range' 1 log.length)[index]? := by rw [lawful.numbered]
  rw [List.getElem?_map, List.getElem?_eq_getElem bound, List.getElem?_range' bound, Option.map_some, Option.some.injEq] at numbered
  omega

theorem Lawful.mem_take (lawful : Lawful provenance log) {event : StoredEvent} {count : Nat} (member : event ∈ log.take count) :
    event.sequence ≤ count := by
  obtain ⟨index, bound, rfl⟩ := List.mem_take_iff_getElem.1 member
  rw [lawful.sequence_get]
  omega

theorem Lawful.mem_drop (lawful : Lawful provenance log) {event : StoredEvent} {count : Nat} (member : event ∈ log.drop count) :
    count < event.sequence := by
  obtain ⟨index, bound, rfl⟩ := List.mem_drop_iff_getElem.1 member
  rw [lawful.sequence_get]
  omega

theorem Lawful.above (lawful : Lawful provenance log) (grown : Lawful provenance (log ++ added)) (member : event ∈ added) :
    log.length < event.sequence := by
  obtain ⟨last, -, last_member, numbered⟩ := lawful.last
  rw [← numbered]
  exact (List.pairwise_append.1 grown.ascending).2.2 last last_member event member

end Positions

section Titles
variable {provenance : CreationProvenance} {log : List StoredEvent}

omit [JsonHash] in
theorem Display.titled_provider (display : Display) (run : RunId) (sequence : Nat) (turn : Text) (provided : ProviderEvent) :
    (display.provider run sequence turn provided).titled = display.titled := by
  have observed (failure : Option (Text × UpstreamOutcome)) (closed : Bool) :
      (display.observe run sequence turn failure closed).titled = display.titled := by
    rw [Display.observe]
    split <;> rfl
  have responded (response : Text) : (display.withResponse run sequence turn response).titled = display.titled := by
    rw [Display.withResponse]
    split <;> rfl
  cases provided with
  | requestFailed | sessionClosed => exact observed _ _
  | providerExtension => rfl
  | responseStarted | responseStatus | outputItemStarted | outputItemUpdated | outputItemFinished | responseFinished =>
    exact responded _

omit [JsonHash] in
theorem Display.titled_applyRun (display : Display) (run : RunId) (sequence : Nat) (input : Input) :
    (display.applyRun run sequence input).titled = display.titled := by
  cases input with
  | runtime envelope =>
    change (display.runtime run sequence envelope).titled = display.titled
    rw [Display.runtime.eq_def]
    split
    case h_5 provided turn _ _ => exact Display.titled_provider display run sequence turn provided.event
    case h_6 tool _ _ _ =>
      cases tool with
      | toolResultReused callId toolName =>
        rw [Display.tool_reused]
        cases display.find run (.tool callId) <;> rfl
      | _ => rfl
    all_goals rfl
  | _ => rfl

theorem Lawful.titled (lawful : Lawful provenance log) : ∃ event ∈ log, event.runId = none ∧
    event.sequence = (Display.ofLog log).titled ∧ (∀ other ∈ log, other.runId = none → other.sequence ≤ event.sequence) ∧
    (match event.payload with
      | .sessionCreated .. => event.sequence = 1
      | .sessionRenamed _ => 1 < event.sequence
      | _ => False) := by
  induction lawful with
  | created => exact ⟨_, List.mem_singleton.2 rfl, rfl, rfl, fun other member _ => by rw [List.mem_singleton.1 member], rfl⟩
  | @follows log event lawful follows ih =>
    rw [Display.ofLog_append lawful.ne_nil, Display.apply]
    have later (other : StoredEvent) (member : other ∈ log) : other.sequence < event.sequence := lawful.before follows member
    cases of_run : event.shown.run with
    | none =>
      have outside : event.runId = none := of_run
      have allowed := follows.allowed
      rw [outside] at allowed
      obtain ⟨title, is_payload⟩ := allowed
      refine ⟨event, by simp, outside, rfl, fun other member _ => ?_, ?_⟩
      · rcases List.mem_append.1 member with old | last
        · exact (later other old).le
        · rw [List.mem_singleton.1 last]
      · rw [is_payload]
        have := follows.next
        have := List.length_pos_iff.2 lawful.ne_nil
        change 1 < event.sequence
        omega
    | some run =>
      obtain ⟨named, member, outside, numbered, latest, kind⟩ := ih
      have inside : event.runId = some run := of_run
      refine ⟨named, List.mem_append_left _ member, outside, ?_, fun other other_member other_outside => ?_, kind⟩
      · rw [numbered]
        exact (Display.titled_applyRun _ _ _ _).symm
      · rcases List.mem_append.1 other_member with old | last
        · exact latest other old other_outside
        · rw [List.mem_singleton.1 last, inside] at other_outside
          cases other_outside

theorem Lawful.select_titled (lawful : Lawful provenance log) : ∃ event,
    (Table.orderByDesc (·.sequence) (log.filter fun event => event.runId.isNone && event.sequence ≤ log.length)).head? =
      some event ∧ event.sequence = (Display.ofLog log).titled ∧
      (match event.payload with
        | .sessionCreated .. => event.sequence = 1
        | .sessionRenamed _ => 1 < event.sequence
        | _ => False) := by
  obtain ⟨named, member, outside, numbered, latest, kind⟩ := lawful.titled
  refine ⟨named, ?_, numbered, kind⟩
  rw [Table.orderByDesc_eq (List.Perm.refl _) (lawful.ascending.filter _), List.head?_reverse]
  have selected : named ∈ log.filter fun event => event.runId.isNone && event.sequence ≤ log.length := by
    have := (lawful.mem_sequence member).2
    simp [member, outside, this]
  refine (lawful.ascending.sublist List.filter_sublist).getLast_of_greatest selected fun other chosen => ?_
  rw [List.mem_filter, Bool.and_eq_true, Option.isNone_iff_eq_none] at chosen
  exact latest other chosen.1 chosen.2.1

end Titles

section Acceptances
variable {provenance : CreationProvenance} {log : List StoredEvent} {event : StoredEvent} {run : RunId}
variable {input : RecordedRunInput} {owner : StoredEventId}

theorem Lawful.accepted_run (lawful : Lawful provenance log) (member : event ∈ log)
    (is_acceptance : event.payload = .runAccepted run input owner) : event.runId = some run := by
  have valid := (valid_eq_ok.1 (lawful.valid member)).2.2.2.1
  rw [History.payloadValid.eq_def, is_acceptance, require_eq_ok] at valid
  exact of_decide_eq_true valid

theorem Lawful.selected_run (lawful : Lawful provenance log) (member : event ∈ log) {selection : StoredHistorySelection}
    (is_selection : event.payload = .runHistorySelected run selection) :
    event.runId = some run ∧ selection.throughSequence + 2 = event.sequence := by
  have valid := (valid_eq_ok.1 (lawful.valid member)).2.2.2.1
  rw [History.payloadValid.eq_def, is_selection, require_eq_ok] at valid
  simpa using valid

theorem Lawful.known (lawful : Lawful provenance log) (member : event ∈ log)
    (is_acceptance : event.payload = .runAccepted run input owner) : ∃ row, (Ledger.ofLog log).run run = some row := by
  induction lawful with
  | created =>
    rw [List.mem_singleton.1 member] at is_acceptance
    cases is_acceptance
  | @follows log new lawful follows ih =>
    rw [Ledger.ofLog_append]
    rcases List.mem_append.1 member with old | last
    · obtain ⟨row, found⟩ := ih old
      obtain ⟨next, is_next, -⟩ := follows.moves found
      exact ⟨next, is_next⟩
    · have own := (lawful.follows follows).accepted_run member is_acceptance
      cases List.mem_singleton.1 last
      rw [Ledger.apply, own, is_acceptance]
      cases found : (Ledger.ofLog log).run run with
      | some row => exact ⟨row, Ledger.run_addRun found⟩
      | none =>
        refine ⟨RunRow.opened run event.sequence owner, ?_⟩
        rw [Ledger.run] at found
        change List.find? _ (_ ++ [_]) = _
        rw [List.find?_append, found]
        simp [RunRow.opened]

theorem Lawful.accepted_once (lawful : Lawful provenance log) {other : StoredEvent} (member : event ∈ log)
    (is_acceptance : event.payload = .runAccepted run input owner) (other_member : other ∈ log)
    {otherInput : RecordedRunInput} {otherOwner : StoredEventId}
    (also : other.payload = .runAccepted run otherInput otherOwner) : event = other := by
  induction lawful with
  | created =>
    rw [List.mem_singleton.1 member] at is_acceptance
    cases is_acceptance
  | @follows log new lawful follows ih =>
    have fresh {old : StoredEvent} {oldInput newInput : RecordedRunInput} {oldOwner newOwner : StoredEventId} (before : old ∈ log)
        (was : old.payload = .runAccepted run oldInput oldOwner)
        (again : new.payload = .runAccepted run newInput newOwner) : False := by
      have own := (lawful.follows follows).accepted_run (by simp) again
      have allowed := follows.allowed
      rw [own, again] at allowed
      obtain ⟨row, found⟩ := lawful.known before was
      cases allowed.1.symm.trans found
    rcases List.mem_append.1 member with old | last <;> rcases List.mem_append.1 other_member with other_old | other_last
    · exact ih old other_old
    · cases List.mem_singleton.1 other_last
      exact (fresh old is_acceptance also).elim
    · cases List.mem_singleton.1 last
      exact (fresh other_old also is_acceptance).elim
    · exact (List.mem_singleton.1 last).trans (List.mem_singleton.1 other_last).symm

theorem Lawful.selected_after (lawful : Lawful provenance log) (member : event ∈ log) {selection : StoredHistorySelection}
    (is_selection : event.payload = .runHistorySelected run selection) :
    ∃ accepted ∈ log, accepted.sequence + 1 = event.sequence ∧ ∃ input owner,
      accepted.payload = .runAccepted run input owner ∧ selection.matchesInput input = true := by
  induction lawful with
  | created =>
    rw [List.mem_singleton.1 member] at is_selection
    cases is_selection
  | @follows log new lawful follows ih =>
    rcases List.mem_append.1 member with old | last
    · obtain ⟨accepted, accepted_member, rest⟩ := ih old
      exact ⟨accepted, List.mem_append_left _ accepted_member, rest⟩
    · have own := ((lawful.follows follows).selected_run member is_selection).1
      cases List.mem_singleton.1 last
      have allowed := follows.allowed
      rw [own, is_selection] at allowed
      obtain ⟨-, accepted, input, owner, is_last, is_acceptance, matching⟩ := allowed
      obtain ⟨latest, is_latest, latest_member, numbered⟩ := lawful.last
      cases Option.some.inj (is_last.symm.trans is_latest)
      exact ⟨accepted, List.mem_append_left _ latest_member, by rw [numbered, follows.next], input, owner, is_acceptance,
        matching⟩

theorem Lawful.selected_once (lawful : Lawful provenance log) {other : StoredEvent} (member : event ∈ log)
    {selection otherSelection : StoredHistorySelection} (is_selection : event.payload = .runHistorySelected run selection)
    (other_member : other ∈ log) (also : other.payload = .runHistorySelected run otherSelection) : event = other := by
  obtain ⟨accepted, accepted_member, next, input, owner, is_acceptance, -⟩ := lawful.selected_after member is_selection
  obtain ⟨before, before_member, follows, otherInput, otherOwner, also_accepted, -⟩ := lawful.selected_after other_member also
  cases lawful.accepted_once accepted_member is_acceptance before_member also_accepted
  exact Table.eq_of_key lawful.ascending member other_member (next.symm.trans follows)

end Acceptances

end Wi
