import Wi.Parts

/-! What a finished response shows: its fields stand in the order of their keys, every
string of it meant for display is one of them, and its effective text can be read off. -/
namespace Wi

/-! ### Order -/

/-- What an optional index sorts as: an absent one comes first. -/
def PartSource.rankOf (index : Option Nat) : Nat := index.elim 0 (· + 1)

/-- What the places within one output item sort as. -/
def PartSource.position : PartSource → List Nat
  | .summary index => [FieldRank.summary.group, rankOf index, 0, FieldRank.summary.code]
  | .fallback index => [FieldRank.fallback.group, 0, rankOf index, FieldRank.fallback.code]
  | .content index => [FieldRank.content.group, 0, rankOf index, FieldRank.content.code]
  | .functionName => [FieldRank.functionName.group, 0, 0, FieldRank.functionName.code]
  | .functionArguments => [FieldRank.functionArguments.group, 0, 0, FieldRank.functionArguments.code]
  | .unsupported => [FieldRank.unsupported.group, 0, 0, FieldRank.unsupported.code]

def ResponseField.position (field : ResponseField) : List Nat :=
  (field.outputIndex + 1) :: field.part.source.position

variable {index : Nat}

theorem index64_eq_ok {value : UInt64} (fits : index64 index = .ok value) : value.toNat = index := by
  rw [index64] at fits
  split at fits
  next small =>
    cases fits
    exact UInt64.toNat_ofNat_of_lt' small
  · cases fits

theorem optionalIndex_eq_ok {index : Option Nat} {value : Option UInt64} (fits : optionalIndex index = .ok value) :
    componentValue value = PartSource.rankOf index := by
  cases index with
  | none =>
    cases fits
    rfl
  | some index =>
    obtain ⟨small, held, made⟩ := bind_eq_ok.1 fits
    cases made
    rw [componentValue, index64_eq_ok held]
    rfl

variable {source : PartSource}

theorem sortableTuple_of_partOrder {output : UInt64} {key : OrderKey}
    (placed : partOrder output source = .ok key) :
    key.sortableTuple = (output.toNat + 1) :: source.position := by
  cases source with
  | summary index | content index | fallback index =>
    obtain ⟨value, fits, made⟩ := bind_eq_ok.1 placed
    cases made
    simp only [OrderKey.sortableTuple, optionalIndex_eq_ok fits]
    rfl
  | functionName | functionArguments | unsupported =>
    cases placed
    rfl

theorem parts_ordered (value : Option Json) (reasoning summary : Bool) :
    (parts value reasoning summary).Pairwise fun a b => a.source.position < b.source.position := by
  rw [parts]
  cases value.bind Json.asArray with
  | none => exact List.pairwise_singleton _ _
  | some values =>
    have indices : (values.zipIdx.map Prod.snd).Pairwise (· < ·) := by
      rw [List.zipIdx_map_snd]
      exact List.pairwise_lt_range'
    rw [List.pairwise_map] at indices ⊢
    refine indices.imp fun {a b} before => ?_
    simp only [source_displayPart]
    cases summary <;> simpa [PartSource.position, PartSource.rankOf, List.cons_lt_cons_iff] using before

variable {reasoning : Bool} {part : DisplayPart}

theorem source_parts {value : Option Json} {summary : Bool} (member : part ∈ parts value reasoning summary) :
    ∃ index, part.source = if summary then PartSource.summary index else .content index := by
  have bound : ∀ json, value = some json → json.weight ≤ (value.map Json.weight).getD 0 := by
    rintro json rfl
    exact le_rfl
  exact ⟨_, (parts_placed value reasoning summary bound).2 part member⟩

theorem projectItem_ordered (item : OutputItem) :
    (projectItem item).Pairwise fun a b => a.source.position < b.source.position := by
  rw [projectItem]
  cases item.kind with
  | message => exact parts_ordered _ _ _
  | reasoning =>
    dsimp only
    generalize item.native.get "summary".toList = summary
    generalize item.native.get "content".toList = content
    cases summary with
    | none =>
      cases content with
      | none => exact List.pairwise_singleton _ _
      | some value => exact parts_ordered _ _ _
    | some value =>
      cases content with
      | none => simpa using parts_ordered (some value) true true
      | some other =>
        -- Every summary comes before every content part.
        change (parts (some value) true true ++ parts (some other) true false).Pairwise _
        refine List.pairwise_append.2 ⟨parts_ordered _ _ _, parts_ordered _ _ _, fun a ha b hb => ?_⟩
        obtain ⟨i, a_source⟩ := source_parts ha
        obtain ⟨j, b_source⟩ := source_parts hb
        rw [a_source, b_source]
        exact List.cons_lt_cons_iff.2 (.inl (by decide))
  | functionCall =>
    cases item.functionCall with
    | none => exact List.pairwise_singleton _ _
    | some call =>
      simp [PartSource.position, FieldRank.group, List.cons_lt_cons_iff]
  | _ => exact List.pairwise_singleton _ _

theorem responseFields_ordered (output : List OutputItem) :
    (responseFields output).Pairwise fun a b => a.position < b.position := by
  rw [responseFields, List.pairwise_flatMap]
  constructor
  · intro pair _
    rw [List.pairwise_map]
    exact (projectItem_ordered pair.1).imp fun before => List.cons_lt_cons_iff.2 (.inr ⟨rfl, before⟩)
  · have indices : (output.zipIdx.map Prod.snd).Pairwise (· < ·) := by
      rw [List.zipIdx_map_snd]
      exact List.pairwise_lt_range'
    rw [List.pairwise_map] at indices
    refine indices.imp fun {a b} before x in_a y in_b => ?_
    obtain ⟨first, -, rfl⟩ := List.mem_map.1 in_a
    obtain ⟨second, -, rfl⟩ := List.mem_map.1 in_b
    exact List.cons_lt_cons_iff.2 (.inl (Nat.succ_lt_succ before))

/-! ### Answers and the fallback -/

theorem displayPart_induction {P : DisplayPart → Prop} {part : Json} (unsupported : P (.unsupported source))
    (named : ∀ type kind field text, scalar reasoning type = some (kind, field) → P ⟨kind, text, source⟩) :
    P (displayPart reasoning source part) := by
  rcases displayPart_cases reasoning source part with is_part | ⟨_, kind, field, _, text, is_named, -, -, is_part⟩
  · exact is_part ▸ unsupported
  · exact is_part ▸ named _ kind field text is_named

theorem parts_induction {P : DisplayPart → Prop} {value : Option Json} {summary : Bool}
    (unsupported : ∀ source, P (.unsupported source))
    (each : ∀ index part, P (displayPart reasoning (if summary then .summary (some index) else .content (some index)) part)) :
    ∀ part ∈ parts value reasoning summary, P part := by
  intro part member
  rw [parts] at member
  cases array : value.bind Json.asArray with
  | none =>
    rw [array] at member
    cases List.mem_singleton.1 member
    exact unsupported _
  | some values =>
    rw [array] at member
    obtain ⟨pair, -, rfl⟩ := List.mem_map.1 member
    exact each pair.2 pair.1

variable {item : OutputItem}

/-- Every part of an item is a marker, a string of a message or of a reasoning item, or
the name or the arguments of a call. -/
theorem projectItem_induction {P : DisplayPart → Prop} (unsupported : ∀ source, P (.unsupported source))
    (message : ∀ index part, P (displayPart false (.content (some index)) part))
    (reasoning : ∀ source part, P (displayPart true source part))
    (name : ∀ text, P ⟨.functionName, text, .functionName⟩)
    (arguments : ∀ text, P ⟨.functionArguments, text, .functionArguments⟩) :
    ∀ part ∈ projectItem item, P part := by
  have marker : ∀ part ∈ [DisplayPart.unsupported .unsupported], P part := by simpa using unsupported _
  rw [projectItem]
  cases item.kind with
  | message => exact parts_induction unsupported message
  | reasoning =>
    have listed (value : Option Json) (summary : Bool) : ∀ part ∈ parts value true summary, P part :=
      parts_induction unsupported fun index => reasoning _
    simp only [List.forall_mem_append]
    refine ⟨⟨?_, ?_⟩, ?_⟩
    · split
      · exact marker
      · exact fun _ member => absurd member List.not_mem_nil
    · split
      · exact listed _ _
      · exact fun _ member => absurd member List.not_mem_nil
    · split
      · exact listed _ _
      · exact fun _ member => absurd member List.not_mem_nil
  | functionCall =>
    cases item.functionCall with
    | none => exact marker
    | some call => simpa using ⟨name call.name, arguments call.arguments⟩
  | _ => exact marker

variable {kind : FieldKind}

theorem scalar_true {type : Option Text} {field : Text} (named : scalar true type = some (kind, field)) :
    kind = .reasoningSummary ∨ kind = .reasoningText := by
  simp only [scalar, ↓reduceIte] at named
  split at named
  · cases named
    exact .inl rfl
  · split at named
    · cases named
      exact .inr rfl
    · cases named

theorem scalar_false {type : Option Text} {field : Text} (named : scalar false type = some (kind, field)) :
    kind = .text ∨ kind = .refusal := by
  simp only [scalar, Bool.false_eq_true, ↓reduceIte] at named
  split at named
  · cases named
    exact .inl rfl
  · split at named
    · cases named
      exact .inr rfl
    · cases named

theorem answer_projectItem (member : part ∈ projectItem item) :
    part.answer = true → ∃ index, part.source = .content (some index) := by
  let P (part : DisplayPart) : Prop := part.answer = true → ∃ index, part.source = .content (some index)
  refine projectItem_induction (P := P) nofun ?_ ?_ nofun nofun part member
  · exact fun index part _ => ⟨index, source_displayPart _ _ _⟩
  · intro source part
    refine displayPart_induction (P := P) nofun fun type kind field text named answer => ?_
    rcases scalar_true named with rfl | rfl <;> cases answer

theorem kind_projectItem (member : part ∈ projectItem item) : part.kind ≠ .authoritativeText := by
  let P (part : DisplayPart) : Prop := part.kind ≠ .authoritativeText
  refine projectItem_induction (P := P) nofun ?_ ?_ nofun nofun part member
  · intro index part
    refine displayPart_induction (P := P) nofun fun type kind field text named => ?_
    rcases scalar_false named with rfl | rfl <;> exact nofun
  · intro source part
    refine displayPart_induction (P := P) nofun fun type kind field text named => ?_
    rcases scalar_true named with rfl | rfl <;> exact nofun

/-- What the response shows when its answers do not: the first answer is where the
effective text goes, or the end when there is none. -/
theorem projectResponse_cases (response : ModelResponse) :
    represented response.text (responseFields response.output) = true ∧
        projectResponse response = responseFields response.output ∨
      represented response.text (responseFields response.output) = false ∧
        ∃ before after, responseFields response.output = before ++ after ∧
          (∀ field ∈ before, field.part.answer = false) ∧
          projectResponse response = before ++ fallbackField response (responseFields response.output) ::
            after.filter (fun field => !covered response.text field) ∧
          (after = [] ∧ fallbackField response (responseFields response.output) =
              ⟨response.output.length, .authoritativeText, response.text, .fallback none⟩ ∨
            ∃ answer rest index, after = answer :: rest ∧ answer.part.source = .content (some index) ∧
              fallbackField response (responseFields response.output) =
                ⟨answer.outputIndex, .authoritativeText, response.text, .fallback (some index)⟩) := by
  have kept {before : List ResponseField} (unanswered : ∀ field ∈ before, field.part.answer = false) :
      before.filter (fun field => !covered response.text field) = before := by
    refine List.filter_eq_self.2 fun field member => ?_
    simp [covered, unanswered field member]
  rw [projectResponse]
  cases shown : represented response.text (responseFields response.output) with
  | true => exact .inl ⟨rfl, rfl⟩
  | false =>
    refine .inr ⟨rfl, ?_⟩
    simp only [Bool.false_eq_true, ↓reduceIte]
    cases found : (responseFields response.output).find? (·.part.answer) with
    | none =>
      have unanswered : ∀ field ∈ responseFields response.output, field.part.answer = false := by
        simpa using found
      have absent : (responseFields response.output).findIdx? (·.part.answer) = none := by
        simpa using found
      refine ⟨responseFields response.output, [], (List.append_nil _).symm, unanswered, ?_, .inl ⟨rfl, ?_⟩⟩
      · rw [absent, Option.getD_none, List.take_length, List.drop_length, kept unanswered]
      · rw [fallbackField, found]
    | some answer =>
      obtain ⟨is_answer, before, rest, split, unanswered⟩ := List.find?_eq_some_iff_append.1 found
      have unanswered : ∀ field ∈ before, field.part.answer = false := by simpa using unanswered
      have first : (responseFields response.output).findIdx? (·.part.answer) = some before.length := by
        rw [split, List.findIdx?_append, List.findIdx?_eq_none_iff.2 unanswered]
        simp [List.findIdx?_cons, is_answer]
      obtain ⟨index, source⟩ : ∃ index, answer.part.source = .content (some index) := by
        obtain ⟨item, _, _, _, member⟩ := mem_responseFields.1 (List.mem_of_find?_eq_some found)
        exact answer_projectItem member is_answer
      refine ⟨before, answer :: rest, split, unanswered, ?_, .inr ⟨answer, rest, index, rfl, source, ?_⟩⟩
      · rw [first, Option.getD_some]
        conv_lhs => rw [split, List.take_left, List.drop_left, kept unanswered]
        rw [split]
      · rw [fallbackField, found]
        simp only [source]

theorem position_lt_fallback {index : Option Nat} (direct : ∀ other, source ≠ .fallback other)
    (before : source.position < (PartSource.content index).position) :
    source.position < (PartSource.fallback index).position := by
  cases source with
  | fallback other => exact absurd rfl (direct other)
  | _ =>
    simp only [PartSource.position, FieldRank.group, FieldRank.code, List.cons_lt_cons_iff] at before ⊢
    simp at before ⊢ <;> omega

theorem fallback_lt_content (index : Option Nat) :
    (PartSource.fallback index).position < (PartSource.content index).position := by
  simp [PartSource.position, FieldRank.group, FieldRank.code, List.cons_lt_cons_iff]

theorem projectResponse_ordered (response : ModelResponse) :
    (projectResponse response).Pairwise fun a b => a.position < b.position := by
  have ordered := responseFields_ordered response.output
  have facts (field : ResponseField) (member : field ∈ responseFields response.output) :=
    responseFields_indices member
  obtain ⟨-, same⟩ | ⟨-, before, after, split, -, shown, place⟩ := projectResponse_cases response
  · rwa [same]
  rw [shown]
  rw [split] at ordered facts
  obtain ⟨ordered_before, ordered_after, apart⟩ := List.pairwise_append.1 ordered
  have behind : ∀ field ∈ before, field.position < (fallbackField response (responseFields response.output)).position := by
    intro field member
    obtain ⟨output, -, direct⟩ := facts field (List.mem_append_left _ member)
    obtain ⟨-, made⟩ | ⟨answer, rest, index, rfl, source, made⟩ := place
    · rw [made]
      exact List.cons_lt_cons_iff.2 (.inl (Nat.succ_lt_succ output))
    · have first := apart field member answer List.mem_cons_self
      rw [made]
      rw [ResponseField.position, ResponseField.position, source] at first
      rcases List.cons_lt_cons_iff.1 first with less | ⟨same, less⟩
      · exact List.cons_lt_cons_iff.2 (.inl less)
      · exact List.cons_lt_cons_iff.2 (.inr ⟨same, position_lt_fallback direct less⟩)
  have ahead : ∀ field ∈ after, (fallbackField response (responseFields response.output)).position < field.position := by
    intro field member
    obtain ⟨rfl, -⟩ | ⟨answer, rest, index, rfl, source, made⟩ := place
    · cases member
    have first : (fallbackField response (responseFields response.output)).position < answer.position := by
      rw [made, ResponseField.position, ResponseField.position, source]
      exact List.cons_lt_cons_iff.2 (.inr ⟨rfl, fallback_lt_content _⟩)
    rcases List.mem_cons.1 member with rfl | later
    · exact first
    · exact first.trans ((List.pairwise_cons.1 ordered_after).1 field later)
  refine List.pairwise_append.2 ⟨ordered_before, List.pairwise_cons.2 ⟨?_, ordered_after.filter _⟩, ?_⟩
  · exact fun field member => ahead field (List.mem_of_mem_filter member)
  · intro field member other other_member
    rcases List.mem_cons.1 other_member with rfl | kept
    · exact behind field member
    · exact apart field member other (List.mem_of_mem_filter kept)

variable {response : ModelResponse}

theorem responseParts_positions {parts : List Content.Part}
    (projected : Projector.responseParts response = .ok parts) :
    parts.map (fun part => part.order.sortableTuple) = (projectResponse response).map ResponseField.position := by
  have each := (mapM_eq_ok.1 projected).imp fun {field part} made => show
      part.order.sortableTuple = field.position by
    obtain ⟨output, fits, made⟩ := bind_eq_ok.1 made
    obtain ⟨order, placed, made⟩ := bind_eq_ok.1 made
    cases made
    rw [sortableTuple_of_partOrder placed, index64_eq_ok fits]
    rfl
  clear projected
  generalize projectResponse response = fields at each ⊢
  induction each with
  | nil => rfl
  | cons first rest ih => rw [List.map_cons, List.map_cons, first, ih]

theorem responseParts_ordered {parts : List Content.Part}
    (projected : Projector.responseParts response = .ok parts) :
    (parts.map Content.Part.order).Pairwise (· < ·) := by
  have ordered := List.pairwise_map.2 (projectResponse_ordered response)
  rw [← responseParts_positions projected, List.pairwise_map] at ordered
  exact List.pairwise_map.2 ordered

/-! ### What is shown -/

/-- Member `name` of the item is a list that holds `part` at `index`. -/
def OutputItem.Lists (item : OutputItem) (name : String) (index : Nat) (part : Json) : Prop :=
  ∃ values, item.native.get name.toList = some (.array values) ∧ values[index]? = some part

/-- A part of the given type with a string under the member of that type. -/
def Json.Spells (part : Json) (type field : String) (text : Text) : Prop :=
  part.get "type".toList = some (.string type.toList) ∧ part.get field.toList = some (.string text)

/-- The strings of an output item that are for display, each with what it is and where
it stands. -/
inductive Displayable (item : OutputItem) : DisplayPart → Prop
  | text {index : Nat} {part : Json} {text : Text} (kind : item.kind = .message)
      (listed : item.Lists "content" index part) (spells : part.Spells "output_text" "text" text) :
      Displayable item ⟨.text, text, .content (some index)⟩
  | refusal {index : Nat} {part : Json} {text : Text} (kind : item.kind = .message)
      (listed : item.Lists "content" index part) (spells : part.Spells "refusal" "refusal" text) :
      Displayable item ⟨.refusal, text, .content (some index)⟩
  | reasoningSummary {index : Nat} {part : Json} {text : Text} (kind : item.kind = .reasoning)
      (spells : part.Spells "summary_text" "text" text) {source : PartSource}
      (listed : item.Lists "summary" index part ∧ source = .summary (some index) ∨
        item.Lists "content" index part ∧ source = .content (some index)) :
      Displayable item ⟨.reasoningSummary, text, source⟩
  | reasoningText {index : Nat} {part : Json} {text : Text} (kind : item.kind = .reasoning)
      (spells : part.Spells "reasoning_text" "text" text) {source : PartSource}
      (listed : item.Lists "summary" index part ∧ source = .summary (some index) ∨
        item.Lists "content" index part ∧ source = .content (some index)) :
      Displayable item ⟨.reasoningText, text, source⟩
  | functionName {call : FunctionCall} (kind : item.kind = .functionCall)
      (called : item.functionCall = some call) : Displayable item ⟨.functionName, call.name, .functionName⟩
  | functionArguments {call : FunctionCall} (kind : item.kind = .functionCall)
      (called : item.functionCall = some call) :
      Displayable item ⟨.functionArguments, call.arguments, .functionArguments⟩

theorem displayPart_of_spells {part : Json} {type field : String} {text : Text}
    (spells : part.Spells type field text)
    (named : scalar reasoning (some type.toList) = some (kind, field.toList)) :
    displayPart reasoning source part = ⟨kind, text, source⟩ := by
  obtain ⟨is_type, is_text⟩ := spells
  simp only [displayPart, is_type, Option.bind_some, Json.asStr, named, is_text, Option.bind_eq_bind,
    Option.getD_some]

theorem mem_parts {name : String} {part : Json} (reasoning summary : Bool) (listed : item.Lists name index part) :
    displayPart reasoning (if summary then .summary (some index) else .content (some index)) part ∈
      parts (item.native.get name.toList) reasoning summary := by
  obtain ⟨values, found, held⟩ := listed
  rw [found]
  exact List.mem_map.2 ⟨(part, index), List.mk_mem_zipIdx_iff_getElem?.2 held, rfl⟩

theorem mem_reasoning {part : Json} (kind : item.kind = .reasoning)
    (listed : item.Lists "summary" index part ∧ source = .summary (some index) ∨
      item.Lists "content" index part ∧ source = .content (some index)) :
    displayPart true source part ∈ projectItem item := by
  simp only [projectItem, kind, List.mem_append]
  rcases listed with ⟨listed, rfl⟩ | ⟨listed, rfl⟩
  · have inside := mem_parts true true listed
    obtain ⟨values, found, -⟩ := listed
    exact .inl (.inr (by rwa [found, Option.isSome_some, if_pos rfl, ← found]))
  · have inside := mem_parts true false listed
    obtain ⟨values, found, -⟩ := listed
    exact .inr (by rwa [found, Option.isSome_some, if_pos rfl, ← found])

theorem Displayable.shown (displayable : Displayable item part) : part ∈ projectItem item := by
  cases displayable with
  | text kind listed spells =>
    rw [projectItem, kind, ← displayPart_of_spells spells (by decide : scalar false _ = _)]
    exact mem_parts false false listed
  | refusal kind listed spells =>
    rw [projectItem, kind, ← displayPart_of_spells spells (by decide : scalar false _ = _)]
    exact mem_parts false false listed
  | reasoningSummary kind spells listed =>
    rw [← displayPart_of_spells spells (by decide : scalar true _ = _)]
    exact mem_reasoning kind listed
  | reasoningText kind spells listed =>
    rw [← displayPart_of_spells spells (by decide : scalar true _ = _)]
    exact mem_reasoning kind listed
  | functionName kind called => simp [projectItem, kind, called]
  | functionArguments kind called => simp [projectItem, kind, called]

/-- The one field that shows the response's effective text as a whole. -/
def ResponseField.Fallback (response : ModelResponse) (field : ResponseField) : Prop :=
  field ∈ projectResponse response ∧ field.part.kind = .authoritativeText ∧ field.part.text = response.text

/-- The answers among the fields, read alone, one after the other or line by line, show the text. -/
def AnswersShow (text : Text) (fields : List ResponseField) : Prop :=
  let answers := (fields.filter (·.part.answer)).map (·.part.text)
  (∃ answer ∈ answers, text <:+: answer) ∨ text <:+: answers.flatten ∨
    text <:+: List.intercalate "\n".toList answers

theorem represented_iff {text : Text} {fields : List ResponseField} (nonempty : text ≠ []) :
    represented text fields = true ↔ AnswersShow text fields := by
  simp [represented, AnswersShow, Text.contains, nonempty, or_assoc, and_assoc]

theorem mem_projectResponse {field : ResponseField} (member : field ∈ responseFields response.output) :
    field ∈ projectResponse response ∨ field.part.answer = true ∧ field.part.text <:+: response.text ∧
      ∃ fallback, ResponseField.Fallback response fallback := by
  obtain ⟨-, same⟩ | ⟨-, before, after, split, -, shown, place⟩ := projectResponse_cases response
  · exact .inl (by rwa [same])
  rw [split] at member
  rcases List.mem_append.1 member with early | late
  · exact .inl (by rw [shown]; exact List.mem_append_left _ early)
  cases removed : covered response.text field with
  | false =>
    refine .inl ?_
    rw [shown]
    exact List.mem_append_right _ (List.mem_cons_of_mem _ (List.mem_filter.2 ⟨late, by rw [removed]; rfl⟩))
  | true =>
    obtain ⟨⟨answer, -⟩, inside⟩ : (field.part.answer = true ∧ _) ∧ _ := by
      simpa only [covered, Bool.and_eq_true] using removed
    obtain ⟨⟨index, part, -⟩, -⟩ := fallbackField_facts response (responseFields response.output)
    refine .inr ⟨answer, of_decide_eq_true inside, _, ?_, congrArg DisplayPart.kind part, congrArg DisplayPart.text part⟩
    rw [shown]
    exact List.mem_append_right _ List.mem_cons_self

theorem fallback_unique {a b : ResponseField} (ha : ResponseField.Fallback response a)
    (hb : ResponseField.Fallback response b) : a = b := by
  have none_direct (field : ResponseField) (member : field ∈ responseFields response.output) :
      field.part.kind ≠ .authoritativeText := by
    obtain ⟨item, _, _, _, inside⟩ := mem_responseFields.1 member
    exact kind_projectItem inside
  have lone (field : ResponseField) (shown : ResponseField.Fallback response field) :
      field = fallbackField response (responseFields response.output) := by
    obtain ⟨member, kind, -⟩ := shown
    obtain ⟨-, same⟩ | ⟨-, before, after, split, -, shown, -⟩ := projectResponse_cases response
    · exact absurd kind (none_direct field (same ▸ member))
    · rw [shown] at member
      rcases List.mem_append.1 member with early | late
      · exact absurd kind (none_direct field (split ▸ List.mem_append_left _ early))
      · rcases List.mem_cons.1 late with same | kept
        · exact same
        · exact absurd kind (none_direct field (split ▸ List.mem_append_right _ (List.mem_of_mem_filter kept)))
  rw [lone a ha, lone b hb]

theorem text_shown (nonempty : response.text ≠ []) :
    AnswersShow response.text (projectResponse response) ∨ ∃! field, ResponseField.Fallback response field := by
  obtain ⟨all, same⟩ | ⟨-, before, after, -, -, shown, -⟩ := projectResponse_cases response
  · exact .inl (same ▸ (represented_iff nonempty).1 all)
  · obtain ⟨⟨index, part, -⟩, -⟩ := fallbackField_facts response (responseFields response.output)
    have emitted : ResponseField.Fallback response (fallbackField response (responseFields response.output)) := by
      refine ⟨?_, congrArg DisplayPart.kind part, congrArg DisplayPart.text part⟩
      rw [shown]
      exact List.mem_append_right _ List.mem_cons_self
    exact .inr ⟨_, emitted, fun other also => fallback_unique also emitted⟩

/-- A finished response keeps every string that is for display, in strict order. The keys
exist whenever its indices are 64-bit numbers, as those of a response held in memory are. -/
theorem projectResponse_keeps_text (response : ModelResponse) :
    (2 * response.weight < 2 ^ 64 → ∃ parts, Projector.responseParts response = .ok parts) ∧
      (∀ parts, Projector.responseParts response = .ok parts →
        (parts.map Content.Part.order).Pairwise (· < ·) ∧
        List.Forall₂ (fun (field : ResponseField) (part : Content.Part) =>
          part.kind = field.part.kind ∧ part.text = field.part.text) (projectResponse response) parts) ∧
      (∀ index item part, response.output[index]? = some item → Displayable item part →
        ⟨index, part⟩ ∈ projectResponse response ∨
          part.answer = true ∧ part.text <:+: response.text ∧ ∃ field, ResponseField.Fallback response field) ∧
      (response.text ≠ [] →
        AnswersShow response.text (projectResponse response) ∨ ∃! field, ResponseField.Fallback response field) := by
  refine ⟨fun fits => ⟨_, Layout.responseParts_ok fits⟩, fun parts projected => ⟨responseParts_ordered projected, ?_⟩,
    fun index item part held displayable => ?_, text_shown⟩
  · refine (mapM_eq_ok.1 projected).imp fun {field part} made => ?_
    obtain ⟨output, -, made⟩ := bind_eq_ok.1 made
    obtain ⟨order, -, made⟩ := bind_eq_ok.1 made
    cases made
    exact ⟨rfl, rfl⟩
  · exact mem_projectResponse (mem_responseFields.2
      ⟨item, index, List.mk_mem_zipIdx_iff_getElem?.2 held, rfl, displayable.shown⟩)

/-- Two messages and a reasoning between them. The answers are less than the effective text. -/
def greeting : ModelResponse where
  outputProvenance := .nativeTerminal
  id := "r".toList
  model := none
  outcome := .completed
  output :=
    let text (type text : String) : Json := .object [("type".toList, .string type.toList), ("text".toList, .string text.toList)]
    [⟨none, .message, "message".toList, none,
        .object [("content".toList, .array [text "output_text" "Hello", text "output_text" "there"])]⟩,
      ⟨none, .reasoning, "reasoning".toList, none, .object [("summary".toList, .array [text "summary_text" "Greet"])]⟩,
      ⟨none, .message, "message".toList, none, .object [("content".toList, .array [text "output_text" "Bye"])]⟩]
  text := "Hello there and bye".toList
  usage := none
  native := .null

theorem projectResponse_keeps_text_greeting : (responseFields greeting.output).map (·.outputIndex) = [0, 0, 1, 2] ∧
    (∃ parts, Projector.responseParts greeting = .ok parts ∧ (parts.map Content.Part.order).Pairwise (· < ·)) ∧
      (AnswersShow greeting.text (projectResponse greeting) ∨ ∃! field, ResponseField.Fallback greeting field) := by
  obtain ⟨total, ordered, -, shown⟩ := projectResponse_keeps_text greeting
  obtain ⟨parts, projected⟩ := total (by decide)
  exact ⟨by decide +kernel, ⟨parts, projected, (ordered parts projected).1⟩, shown (by decide)⟩

end Wi
