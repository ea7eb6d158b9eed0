import Wi.Linked
import Wi.Refinement

/-! Every lawful log has a sound display, and the projector builds its tables. -/
namespace Wi
variable [JsonHash]
section Logs
variable {provenance : CreationProvenance} {log : List StoredEvent} {event : StoredEvent}

theorem StoredEvent.shown_weight (event : StoredEvent) : event.shown.input.weight = event.payload.weight := by
  cases is_payload : event.payload <;> simp [StoredEvent.shown, is_payload, StoredEventPayload.input, Input.weight,
    StoredEventPayload.weight]

theorem eventsWeight_append (log : List StoredEvent) (event : StoredEvent) :
    eventsWeight (log ++ [event]) = eventsWeight log + event.payload.weight := by
  simp [eventsWeight]

omit [JsonHash] in
theorem Display.created_sound (weight : Nat) : Display.created.Sound weight where
  titled := ⟨le_rfl, le_rfl⟩
  ordered := List.Pairwise.nil
  sourced := List.nodup_nil
  items := by simp [Display.created]
  references := by simp [Display.created]
  blocks := by simp [Display.created]
  accepted := List.Pairwise.nil
  runs := List.nodup_nil
  owned := by simp [Display.created]
  human := by simp [Display.created]
  current := by simp [Display.created]

theorem EntriesShown.empty (log : List StoredEvent) : EntriesShown log [] [] :=
  ⟨by simp, by simp, by simp⟩

/-- What the display of a lawful log is like. -/
structure Shown (log : List StoredEvent) (display : Display) : Prop where
  sound : display.Sound (eventsWeight log)
  applied : display.applied = log.length
  linked : Linked log (Ledger.ofLog log) display

theorem Shown.admits (lawful : Lawful provenance log) {display : Display} (shown : Shown log display)
    (follows : Follows log provenance.sessionId event) : display.Admits event.shown :=
  shown.linked.admits shown.sound lawful.ledger lawful.ascending follows shown.applied

theorem Lawful.shown (lawful : Lawful provenance log) : Shown log (Display.ofLog log) := by
  induction lawful with
  | created => exact ⟨Display.created_sound _, rfl, .nil, EntriesShown.empty _⟩
  | @follows log event lawful follows ih =>
    have admits := ih.admits lawful follows
    have small : 2 * event.shown.input.weight < 2 ^ 64 := by
      have room := follows.room
      rw [eventsWeight_append] at room
      rw [StoredEvent.shown_weight]
      simp only [databaseLimit] at room
      omega
    rw [Display.ofLog_append lawful.ne_nil]
    refine ⟨?_, ?_, ?_⟩
    · have next := ih.sound.apply admits small
      rwa [StoredEvent.shown_weight, ← eventsWeight_append] at next
    · rw [List.length_append, List.length_singleton, ← follows.next, Display.apply]
      cases is_run : event.shown.run <;> rfl
    · rw [Ledger.ofLog_append]
      exact ih.linked.next lawful follows ih.sound ih.applied

/-- The tables that the projector makes of a whole log. -/
def Projector.replay (log : List StoredEvent) : Result Conversation :=
  log.foldlM (fun sql event => Projector.apply sql event.shown) .empty

theorem Projector.replay_append (log : List StoredEvent) (event : StoredEvent) :
    Projector.replay (log ++ [event]) = Projector.replay log >>= fun sql => Projector.apply sql event.shown := by
  rw [Projector.replay, List.foldlM_append]
  simp only [List.foldlM_cons, List.foldlM_nil, bind_pure]
  rfl

theorem Represents.created : Represents { Conversation.empty with projection := some ⟨1, 1, 1⟩ } .created where
  projection := rfl
  blocks := rfl
  entries := rfl
  content run id := ⟨List.Perm.refl _, List.Pairwise.nil, List.nodup_nil, by simp [Display.content, Display.created],
    fun _ _ => rfl⟩

theorem Lawful.project (lawful : Lawful provenance log) (collision : CollisionFree) {sql : Conversation}
    (represents : Represents sql (Display.ofLog log)) (follows : Follows log provenance.sessionId event) :
    ∃ next, Projector.apply sql event.shown = .ok next ∧ Represents next (Display.ofLog (log ++ [event])) := by
  have shown := lawful.shown
  have fits := (valid_eq_ok.1 follows.valid).2.1
  have room := follows.room
  rw [Display.ofLog_append lawful.ne_nil]
  refine represents.apply shown.sound collision (shown.admits lawful follows) fits ?_
  rw [StoredEvent.shown_weight, ← eventsWeight_append]
  simp only [databaseLimit] at room
  simp only [maxInteger]
  omega

theorem Lawful.replay (lawful : Lawful provenance log) (collision : CollisionFree) :
    ∃ sql, Projector.replay log = .ok sql ∧ Represents sql (Display.ofLog log) := by
  induction lawful with
  | created => exact ⟨_, rfl, Represents.created⟩
  | @follows log event lawful follows ih =>
    obtain ⟨sql, done, represents⟩ := ih
    obtain ⟨next, applied, holds⟩ := lawful.project collision represents follows
    exact ⟨next, by rw [Projector.replay_append, done, ok_bind, applied], holds⟩

end Logs
end Wi
