import Wi.ContentOps
import Wi.History

/-! The parts of an output item and of a finished response: how large they are, and that
each has a place of its own. -/
namespace Wi
open Utf8 Content

section Weight

theorem Json.weight_of_member {members : List (Text × Json)} {key : Text} {value : Json}
    (member : (key, value) ∈ members) : value.weight + 1 ≤ weightMembers members := by
  induction members with
  | nil => cases member
  | cons first rest ih =>
    obtain ⟨name, held⟩ := first
    rw [Json.weightMembers]
    rcases List.mem_cons.1 member with same | later
    · cases same
      omega
    · have := ih later
      omega

theorem Json.weight_get {json value : Json} {key : Text} (found : json.get key = some value) :
    value.weight ≤ json.weight := by
  cases json with
  | object members =>
    rw [Json.get] at found
    obtain ⟨pair, selected, rfl⟩ := Option.map_eq_some_iff.1 found
    have member : (pair.1, pair.2) ∈ members := List.mem_of_find?_eq_some selected
    have := Json.weight_of_member member
    rw [Json.weight]
    omega
  | _ => simp [Json.get] at found

theorem Json.weight_asStr {json : Json} {text : Text} (found : json.asStr = some text) :
    bytes text ≤ json.weight := by
  cases json with
  | string value =>
    cases found
    rw [Json.weight]
    omega
  | _ => simp [Json.asStr] at found

theorem Json.weightList_eq (values : List Json) :
    weightList values = (values.map fun value => value.weight + 1).sum := by
  induction values with
  | nil => rfl
  | cons value rest ih => rw [Json.weightList, ih, List.map_cons, List.sum_cons]

theorem Json.weight_asArray {json : Json} {values : List Json} (found : json.asArray = some values) :
    (values.map fun value => value.weight + 1).sum ≤ json.weight := by
  cases json with
  | array held =>
    cases found
    rw [Json.weight, Json.weightList_eq]
    omega
  | _ => simp [Json.asArray] at found

end Weight

/-- Bytes of the texts of some parts. -/
def DisplayPart.total (parts : List DisplayPart) : Nat := (parts.map fun part => bytes part.text).sum

@[simp] theorem DisplayPart.total_nil : total [] = 0 := rfl
@[simp] theorem DisplayPart.total_cons (part : DisplayPart) (parts : List DisplayPart) :
    total (part :: parts) = bytes part.text + total parts := rfl
@[simp] theorem DisplayPart.total_append (a b : List DisplayPart) : total (a ++ b) = total a + total b := by
  simp [total]

theorem bytes_unsupportedContent : bytes unsupportedContent = 19 := by decide

/-- The index a source was found at. -/
def PartSource.index : PartSource → Option Nat
  | .summary index | .content index | .fallback index => index
  | .functionName | .functionArguments | .unsupported => none

theorem displayPart_cases (reasoning : Bool) (source : PartSource) (part : Json) :
    displayPart reasoning source part = .unsupported source ∨ ∃ type kind field value text,
      scalar reasoning type = some (kind, field) ∧ part.get field = some value ∧ value.asStr = some text ∧
        displayPart reasoning source part = ⟨kind, text, source⟩ := by
  have unfolds : displayPart reasoning source part =
      ((scalar reasoning ((part.get "type".toList).bind Json.asStr)).bind fun named =>
        ((part.get named.2).bind Json.asStr).bind fun text =>
          some (DisplayPart.mk named.1 text source)).getD (.unsupported source) := rfl
  rw [unfolds]
  cases named : scalar reasoning ((part.get "type".toList).bind Json.asStr) with
  | none => exact .inl rfl
  | some pair =>
    cases found : part.get pair.2 with
    | none => exact .inl (by simp [found])
    | some value =>
      cases is_text : value.asStr with
      | none => exact .inl (by simp [found, is_text])
      | some text => exact .inr ⟨_, pair.1, pair.2, value, text, named, found, is_text, by simp [found, is_text]⟩

theorem displayPart_facts (reasoning : Bool) (source : PartSource) (part : Json) :
    (displayPart reasoning source part).source = source ∧
      bytes (displayPart reasoning source part).text ≤ 19 * (part.weight + 1) := by
  rcases displayPart_cases reasoning source part with is_part | ⟨_, kind, field, value, text, -, found, is_text, is_part⟩
  · rw [is_part, DisplayPart.unsupported, bytes_unsupportedContent]
    exact ⟨rfl, by omega⟩
  · rw [is_part]
    have := Json.weight_get found
    have := Json.weight_asStr is_text
    exact ⟨rfl, by simp only; omega⟩

theorem source_displayPart (reasoning : Bool) (source : PartSource) (part : Json) :
    (displayPart reasoning source part).source = source := (displayPart_facts reasoning source part).1

/-- What is known of the parts of one item: their size, and that their sources differ. -/
structure DisplayPart.Placed (weight : Nat) (parts : List DisplayPart) : Prop where
  size : total parts ≤ 19 * weight
  sources : (parts.map DisplayPart.source).Nodup
  indices : ∀ part ∈ parts, ∀ index, part.source.index = some index → index < weight
  direct : ∀ part ∈ parts, ∀ index, part.source ≠ .fallback index

theorem DisplayPart.Placed.single {part : DisplayPart} {weight : Nat} (size : bytes part.text ≤ 19 * weight)
    (index : part.source.index = none) (direct : ∀ index, part.source ≠ .fallback index) :
    Placed weight [part] where
  size := by simpa using size
  sources := by simp
  indices := by simp [index]
  direct := by simpa using direct

theorem parts_placed (value : Option Json) (reasoning summary : Bool) {weight : Nat}
    (bound : ∀ json, value = some json → json.weight ≤ weight) :
    DisplayPart.Placed (weight + 1) (parts value reasoning summary) ∧
      ∀ part ∈ parts value reasoning summary,
        part.source = (if summary then PartSource.summary part.source.index else .content part.source.index) := by
  have numbered (index : Option Nat) :
      (if summary then PartSource.summary index else .content index).index = index := by
    cases summary <;> rfl
  have direct (index other : Option Nat) :
      (if summary then PartSource.summary index else .content index) ≠ .fallback other := by
    cases summary <;> simp
  have distinct {a b : Option Nat} (same : (if summary then PartSource.summary a else .content a) =
      (if summary then PartSource.summary b else .content b)) : a = b := by
    have := congrArg PartSource.index same
    rwa [numbered, numbered] at this
  rw [parts]
  cases array : value.bind Json.asArray with
  | none =>
    refine ⟨.single ?_ (numbered none) (direct none), ?_⟩
    · rw [DisplayPart.unsupported, bytes_unsupportedContent]
      omega
    · simp [DisplayPart.unsupported, numbered]
  | some values =>
    obtain ⟨json, rfl, is_array⟩ := Option.bind_eq_some_iff.1 array
    have total := Json.weight_asArray is_array
    have fits := bound json rfl
    refine ⟨⟨?_, ?_, ?_, ?_⟩, ?_⟩
    · have pointwise : DisplayPart.total (values.zipIdx.map fun pair =>
          displayPart reasoning (if summary then .summary (some pair.2) else .content (some pair.2)) pair.1) ≤
          (values.zipIdx.map fun pair => 19 * (pair.1.weight + 1)).sum := by
        rw [DisplayPart.total, List.map_map]
        exact List.sum_le_sum fun pair _ => (displayPart_facts _ _ _).2
      have sum : (values.zipIdx.map fun pair => 19 * (pair.1.weight + 1)).sum =
          19 * (values.map fun value => value.weight + 1).sum := by
        have split : (fun pair : Json × Nat => 19 * (pair.1.weight + 1)) =
            (fun value : Json => 19 * (value.weight + 1)) ∘ Prod.fst := rfl
        rw [split, ← List.map_map, List.zipIdx_map_fst, List.sum_map_mul_left]
      exact pointwise.trans (by omega)
    · rw [List.map_map]
      refine List.Nodup.map_on ?_ (List.Nodup.of_map _ (List.nodup_zipIdx_map_snd values))
      intro a ha b hb same
      simp only [Function.comp_apply, source_displayPart] at same
      have index : a.2 = b.2 := Option.some.inj (distinct same)
      rw [List.mem_zipIdx_iff_getElem?] at ha hb
      rw [index, hb] at ha
      exact Prod.ext (Option.some.inj ha).symm index
    · intro part member index is_index
      obtain ⟨pair, found, rfl⟩ := List.mem_map.1 member
      rw [source_displayPart, numbered] at is_index
      cases is_index
      have := (List.mem_zipIdx found).2.1
      have count : values.length ≤ (values.map fun value => value.weight + 1).sum := by
        rw [← List.length_map (fun value : Json => value.weight + 1)]
        exact List.length_le_sum_of_one_le _ (by simp)
      omega
    · intro part member other
      obtain ⟨pair, -, rfl⟩ := List.mem_map.1 member
      rw [source_displayPart]
      exact direct _ _
    · intro part member
      obtain ⟨pair, -, rfl⟩ := List.mem_map.1 member
      rw [source_displayPart, numbered]

theorem DisplayPart.Placed.mono {a b : Nat} {parts : List DisplayPart} (h : Placed a parts) (le : a ≤ b) :
    Placed b parts where
  size := h.size.trans (by omega)
  sources := h.sources
  indices part member index found := (h.indices part member index found).trans_le le
  direct := h.direct

theorem DisplayPart.Placed.append {a b : Nat} {xs ys : List DisplayPart} (hx : Placed a xs) (hy : Placed b ys)
    (apart : ∀ x ∈ xs, ∀ y ∈ ys, x.source ≠ y.source) : Placed (a + b) (xs ++ ys) where
  size := by
    have := hx.size
    have := hy.size
    rw [total_append]
    omega
  sources := by
    rw [List.map_append, List.nodup_append]
    refine ⟨hx.sources, hy.sources, ?_⟩
    rintro _ x_source _ y_source rfl
    obtain ⟨x, x_member, x_is⟩ := List.mem_map.1 x_source
    obtain ⟨y, y_member, y_is⟩ := List.mem_map.1 y_source
    exact apart x x_member y y_member (x_is.trans y_is.symm)
  indices part member index found := by
    rcases List.mem_append.1 member with left | right
    · have := hx.indices part left index found
      omega
    · have := hy.indices part right index found
      omega
  direct part member := by
    rcases List.mem_append.1 member with left | right
    · exact hx.direct part left
    · exact hy.direct part right

theorem unsupported_placed {weight : Nat} (positive : 0 < weight) :
    DisplayPart.Placed weight [DisplayPart.unsupported .unsupported] := by
  refine .single ?_ rfl (by simp [DisplayPart.unsupported])
  rw [DisplayPart.unsupported, bytes_unsupportedContent]
  omega

theorem projectItem_placed (item : OutputItem) :
    DisplayPart.Placed (2 * item.weight) (projectItem item) := by
  have native : item.native.weight + 1 ≤ item.weight := by
    rw [OutputItem.weight]
    omega
  rw [projectItem]
  cases item.kind with
  | message => exact (parts_placed _ false false fun json => Json.weight_get).1.mono (by omega)
  | reasoning =>
    have summary_bound (json : Json) (found : item.native.get "summary".toList = some json) :
        json.weight ≤ item.native.weight := Json.weight_get found
    have content_bound (json : Json) (found : item.native.get "content".toList = some json) :
        json.weight ≤ item.native.weight := Json.weight_get found
    generalize item.native.get "summary".toList = summary at summary_bound ⊢
    generalize item.native.get "content".toList = content at content_bound ⊢
    obtain ⟨summary_placed, summary_sources⟩ := parts_placed summary true true summary_bound
    obtain ⟨content_placed, content_sources⟩ := parts_placed content true false content_bound
    cases summary with
    | none =>
      cases content with
      | none => exact unsupported_placed (by omega)
      | some value => exact content_placed.mono (by omega)
    | some value =>
      cases content with
      | none => simpa using summary_placed.mono (b := 2 * item.weight) (by omega)
      | some other =>
        have both := summary_placed.append content_placed fun x x_member y y_member same => by
          rw [summary_sources x x_member, content_sources y y_member] at same
          simp at same
        exact both.mono (by omega)
  | functionCall =>
    cases called : item.functionCall with
    | none => exact unsupported_placed (by omega)
    | some call =>
      have size : bytes call.name + bytes call.arguments ≤ item.weight := by
        simp only [OutputItem.weight, called]
        omega
      refine ⟨?_, by simp, by simp [PartSource.index], by simp⟩
      simp only [DisplayPart.total_cons, DisplayPart.total_nil]
      omega
  | _ => exact unsupported_placed (by omega)

/-- The place of a field within a response: its output item and its source in it. -/
def ResponseField.place (field : ResponseField) : Nat × PartSource := (field.outputIndex, field.part.source)

theorem mem_responseFields {output : List OutputItem} {field : ResponseField} :
    field ∈ responseFields output ↔ ∃ item index, (item, index) ∈ output.zipIdx ∧
      field.outputIndex = index ∧ field.part ∈ projectItem item := by
  rw [responseFields, List.mem_flatMap]
  constructor
  · rintro ⟨⟨item, index⟩, found, member⟩
    obtain ⟨part, part_member, rfl⟩ := List.mem_map.1 member
    exact ⟨item, index, found, rfl, part_member⟩
  · rintro ⟨item, index, found, rfl, part_member⟩
    exact ⟨(item, field.outputIndex), found, List.mem_map.2 ⟨field.part, part_member, rfl⟩⟩

theorem total_responseFields (output : List OutputItem) :
    DisplayPart.total ((responseFields output).map ResponseField.part) ≤
      38 * (output.map OutputItem.weight).sum := by
  have steps (items : List (OutputItem × Nat)) :
      DisplayPart.total ((items.flatMap fun pair =>
        (projectItem pair.1).map fun part => ResponseField.mk pair.2 part).map ResponseField.part) ≤
        38 * (items.map fun pair => pair.1.weight).sum := by
    induction items with
    | nil => simp
    | cons first rest ih =>
      have size := (projectItem_placed first.1).size
      simp only [List.flatMap_cons, List.map_append, List.map_map, Function.comp_def, List.map_id_fun', id_eq,
        DisplayPart.total_append, List.map_cons, List.sum_cons] at ih ⊢
      omega
  have counted : DisplayPart.total ((responseFields output).map ResponseField.part) ≤ _ := steps output.zipIdx
  have weights : (output.zipIdx.map fun pair => pair.1.weight) = output.map OutputItem.weight := by
    have split : (fun pair : OutputItem × Nat => pair.1.weight) = OutputItem.weight ∘ Prod.fst := rfl
    rw [split, ← List.map_map, List.zipIdx_map_fst]
  rwa [weights] at counted

theorem places_responseFields (output : List OutputItem) :
    ((responseFields output).map ResponseField.place).Nodup := by
  have places : (responseFields output).map ResponseField.place = output.zipIdx.flatMap fun pair =>
      (projectItem pair.1).map fun part => (pair.2, part.source) := by
    rw [responseFields, List.map_flatMap]
    simp only [List.map_map]
    rfl
  rw [places, List.nodup_flatMap]
  constructor
  · intro pair _
    have sources := (projectItem_placed pair.1).sources
    have split : (projectItem pair.1).map (fun part => (pair.2, part.source)) =
        ((projectItem pair.1).map DisplayPart.source).map fun source => (pair.2, source) := by
      rw [List.map_map]
      rfl
    rw [split]
    exact sources.map fun a b same => (Prod.mk.inj same).2
  · have indices := List.nodup_zipIdx_map_snd output
    rw [List.Nodup, List.pairwise_map] at indices
    refine indices.imp fun {a b} apart => ?_
    intro place in_a in_b
    obtain ⟨x, -, rfl⟩ := List.mem_map.1 in_a
    obtain ⟨y, -, same⟩ := List.mem_map.1 in_b
    exact apart (Prod.mk.inj same).1.symm

theorem OutputItem.weight_pos (item : OutputItem) : 0 < item.weight := by
  rw [OutputItem.weight]
  omega

theorem length_le_weight (output : List OutputItem) : output.length ≤ (output.map OutputItem.weight).sum := by
  rw [← List.length_map OutputItem.weight]
  refine List.length_le_sum_of_one_le _ fun weight member => ?_
  obtain ⟨item, -, rfl⟩ := List.mem_map.1 member
  exact item.weight_pos

theorem responseFields_indices {output : List OutputItem} {field : ResponseField} (member : field ∈ responseFields output) :
    field.outputIndex < output.length ∧
      (∀ index, field.part.source.index = some index → index < 2 * (output.map OutputItem.weight).sum) ∧
      ∀ index, field.part.source ≠ .fallback index := by
  obtain ⟨item, index, found, rfl, part_member⟩ := mem_responseFields.1 member
  have placed := projectItem_placed item
  have bounds := (List.mem_zipIdx found).2.1
  refine ⟨by omega, fun index is_index => ?_, placed.direct _ part_member⟩
  have below := placed.indices _ part_member index is_index
  have in_output : item ∈ output := by
    have := List.mem_map_of_mem (f := Prod.fst) found
    rwa [List.zipIdx_map_fst] at this
  have := List.single_le_sum (l := output.map OutputItem.weight) (by simp) _ (List.mem_map_of_mem in_output)
  omega

theorem fallbackField_facts (response : ModelResponse) (fields : List ResponseField) :
    (∃ index, (fallbackField response fields).part = ⟨.authoritativeText, response.text, .fallback index⟩ ∧
      ∀ i, index = some i → ∃ field ∈ fields, field.part.source.index = some i) ∧
      ((fallbackField response fields).outputIndex = response.output.length ∨
        ∃ field ∈ fields, (fallbackField response fields).outputIndex = field.outputIndex) := by
  rw [fallbackField]
  cases found : fields.find? (·.part.answer) with
  | none => exact ⟨⟨none, rfl, by simp⟩, .inl rfl⟩
  | some field =>
    have member := List.mem_of_find?_eq_some found
    refine ⟨⟨_, rfl, fun i is_index => ⟨field, member, ?_⟩⟩, .inr ⟨field, member, rfl⟩⟩
    cases source : field.part.source with
    | content index =>
      rw [source] at is_index
      exact is_index
    | _ =>
      rw [source] at is_index
      cases is_index

/-- What is known of the fields of one response. -/
structure ResponseField.Placed (weight : Nat) (fields : List ResponseField) : Prop where
  size : DisplayPart.total (fields.map ResponseField.part) ≤ 64 * weight
  places : (fields.map ResponseField.place).Nodup
  outputs : ∀ field ∈ fields, field.outputIndex ≤ weight
  indices : ∀ field ∈ fields, ∀ index, field.part.source.index = some index → index < 2 * weight
  lone : ∀ a ∈ fields, ∀ b ∈ fields, ∀ i j, a.part.source = .fallback i → b.part.source = .fallback j → a = b

theorem total_sublist {xs ys : List DisplayPart} (sub : xs.Sublist ys) :
    DisplayPart.total xs ≤ DisplayPart.total ys :=
  List.Sublist.sum_le_sum (sub.map fun part : DisplayPart => bytes part.text) (by simp)

theorem projectResponse_placed (response : ModelResponse) :
    ResponseField.Placed response.weight (projectResponse response) := by
  have weight : (response.output.map OutputItem.weight).sum + bytes response.text + 1 = response.weight := rfl
  have size := total_responseFields response.output
  have count := length_le_weight response.output
  have places := places_responseFields response.output
  have facts (field : ResponseField) (member : field ∈ responseFields response.output) :=
    responseFields_indices member
  rw [projectResponse]
  split
  · refine ⟨by omega, places, fun field member => ?_, fun field member index found => ?_, ?_⟩
    · have := (facts field member).1
      omega
    · have := (facts field member).2.1 index found
      omega
    · intro a ha b hb i j fallback
      exact absurd fallback ((facts a ha).2.2 i)
  · dsimp only
    generalize (List.findIdx? (·.part.answer) (responseFields response.output)).getD
      (responseFields response.output).length = first
    -- The kept fields are a sublist of all of them, with the fallback between its halves.
    obtain ⟨⟨index, part, from_field⟩, output⟩ := fallbackField_facts response (responseFields response.output)
    generalize fallbackField response (responseFields response.output) = fallback at part output
    generalize kept_before : ((responseFields response.output).take first).filter
      (fun field => !covered response.text field) = before
    generalize kept_after : ((responseFields response.output).drop first).filter
      (fun field => !covered response.text field) = after
    have sub : (before ++ after).Sublist (responseFields response.output) := by
      rw [← kept_before, ← kept_after, ← List.filter_append, List.take_append_drop]
      exact List.filter_sublist
    have order : (before ++ fallback :: after).Perm (fallback :: (before ++ after)) := List.perm_middle
    have old (field : ResponseField) (member : field ∈ before ++ fallback :: after) :
        field = fallback ∨ field ∈ responseFields response.output := by
      rcases List.mem_cons.1 (order.mem_iff.1 member) with rfl | kept
      · exact .inl rfl
      · exact .inr (sub.subset kept)
    refine ⟨?_, ?_, ?_, ?_, ?_⟩
    · have kept := total_sublist (sub.map ResponseField.part)
      have split : DisplayPart.total ((before ++ fallback :: after).map ResponseField.part) =
          bytes response.text + DisplayPart.total ((before ++ after).map ResponseField.part) := by
        simp only [List.map_append, List.map_cons, DisplayPart.total_append, DisplayPart.total_cons, part]
        omega
      omega
    · rw [(order.map ResponseField.place).nodup_iff, List.map_cons, List.nodup_cons]
      refine ⟨?_, (sub.map ResponseField.place).nodup places⟩
      intro same
      obtain ⟨field, member, equal⟩ := List.mem_map.1 same
      refine (facts field (sub.subset member)).2.2 index ?_
      have sources := (Prod.mk.inj equal).2
      rw [sources, part]
    · intro field member
      rcases old field member with rfl | kept
      · rcases output with last | ⟨field, member, same⟩
        · omega
        · have := (facts field member).1
          omega
      · have := (facts field kept).1
        omega
    · intro field member i found
      rcases old field member with rfl | kept
      · rw [part] at found
        obtain ⟨field, member, same⟩ := from_field i found
        have := (facts field member).2.1 i same
        omega
      · have := (facts field kept).2.1 i found
        omega
    · intro a ha b hb i j fallback_a fallback_b
      rcases old a ha with rfl | kept
      · rcases old b hb with rfl | kept
        · rfl
        · exact absurd fallback_b ((facts b kept).2.2 j)
      · exact absurd fallback_a ((facts a kept).2.2 i)

namespace Layout

/-- The order key of a part of one output item. -/
def sourceOrder (output : UInt64) : PartSource → OrderKey
  | .summary value => ⟨some output, .summary, value.map UInt64.ofNat, none⟩
  | .content value => ⟨some output, .content, none, value.map UInt64.ofNat⟩
  | .functionName => ⟨some output, .functionName, none, none⟩
  | .functionArguments => ⟨some output, .functionArguments, none, none⟩
  | .fallback value => ⟨some output, .fallback, none, value.map UInt64.ofNat⟩
  | .unsupported => ⟨some output, .unsupported, none, none⟩

def itemParts (output : UInt64) (item : OutputItem) : List Part :=
  (projectItem item).map fun part => ⟨sourceOrder output part.source, part.kind, part.text⟩

def responseParts (response : ModelResponse) : List Part :=
  (projectResponse response).map fun field =>
    ⟨sourceOrder (UInt64.ofNat field.outputIndex) field.part.source, field.part.kind, field.part.text⟩

theorem output_sourceOrder (output : UInt64) (source : PartSource) :
    (sourceOrder output source).output = some output := by
  cases source <;> rfl

theorem fallback_of_rank {output : UInt64} {source : PartSource}
    (fallback : (sourceOrder output source).rank = .fallback) : ∃ index, source = .fallback index := by
  cases source with
  | fallback index => exact ⟨index, rfl⟩
  | _ => cases fallback

theorem ofNat_injective {a b : Nat} (ha : a < 2 ^ 64) (hb : b < 2 ^ 64) (same : UInt64.ofNat a = UInt64.ofNat b) :
    a = b := by
  have values := congrArg UInt64.toNat same
  rwa [UInt64.toNat_ofNat_of_lt' ha, UInt64.toNat_ofNat_of_lt' hb] at values

theorem map_ofNat_injective {a b : Option Nat} (ha : ∀ i, a = some i → i < 2 ^ 64) (hb : ∀ i, b = some i → i < 2 ^ 64)
    (same : a.map UInt64.ofNat = b.map UInt64.ofNat) : a = b := by
  cases a with
  | none =>
    cases b with
    | none => rfl
    | some j => cases same
  | some i =>
    cases b with
    | none => cases same
    | some j => rw [ofNat_injective (ha i rfl) (hb j rfl) (Option.some.inj same)]

theorem sourceOrder_injective {output other : UInt64} {a b : PartSource}
    (ha : ∀ i, a.index = some i → i < 2 ^ 64) (hb : ∀ i, b.index = some i → i < 2 ^ 64)
    (same : sourceOrder output a = sourceOrder other b) : output = other ∧ a = b := by
  have outputs := congrArg OrderKey.output same
  rw [output_sourceOrder, output_sourceOrder] at outputs
  refine ⟨Option.some.inj outputs, ?_⟩
  cases a <;> cases b <;> simp only [sourceOrder, OrderKey.mk.injEq, reduceCtorEq, false_and, and_false] at same
  case summary.summary => exact congrArg _ (map_ofNat_injective ha hb same.2.2.1)
  case content.content => exact congrArg _ (map_ofNat_injective ha hb same.2.2.2)
  case fallback.fallback => exact congrArg _ (map_ofNat_injective ha hb same.2.2.2)
  all_goals rfl

theorem optionalIndex_ok {value : Option Nat} (fits : ∀ i, value = some i → i < 2 ^ 64) :
    optionalIndex value = .ok (value.map UInt64.ofNat) := by
  cases value with
  | none => rfl
  | some i =>
    rw [optionalIndex, index64, if_pos (fits i rfl)]
    rfl

theorem partOrder_ok (output : UInt64) {source : PartSource} (fits : ∀ i, source.index = some i → i < 2 ^ 64) :
    partOrder output source = .ok (sourceOrder output source) := by
  cases source with
  | summary value | content value | fallback value =>
    have index : optionalIndex value = .ok (value.map UInt64.ofNat) := optionalIndex_ok fits
    rw [partOrder, index]
    rfl
  | _ => rfl

theorem itemParts_ok {item : OutputItem} (fits : 2 * item.weight ≤ 2 ^ 64) (output : UInt64) :
    Projector.itemParts output item = .ok (itemParts output item) := by
  rw [Projector.itemParts]
  refine mapM_ok fun part member => ?_
  rw [partOrder_ok output fun i found => ((projectItem_placed item).indices part member i found).trans_le fits]
  rfl

theorem responseParts_ok {response : ModelResponse} (fits : 2 * response.weight < 2 ^ 64) :
    Projector.responseParts response = .ok (responseParts response) := by
  have placed := projectResponse_placed response
  rw [Projector.responseParts]
  refine mapM_ok fun field member => ?_
  have output := placed.outputs field member
  have index : field.outputIndex < 2 ^ 64 := by omega
  rw [index64, if_pos index, ok_bind,
    partOrder_ok _ fun i found => (placed.indices field member i found).trans fits]
  rfl

theorem itemParts_coherent {item : OutputItem} (fits : 2 * item.weight ≤ 2 ^ 64) (output : UInt64) :
    Coherent (some output) (itemParts output item) := by
  have placed := projectItem_placed item
  have direct : ∀ part ∈ itemParts output item, part.order.rank ≠ .fallback := by
    intro part member fallback
    obtain ⟨display, display_member, rfl⟩ := List.mem_map.1 member
    obtain ⟨index, is_fallback⟩ := fallback_of_rank fallback
    exact placed.direct display display_member index is_fallback
  refine ⟨?_, ?_, fun a ha _ _ fallback => absurd fallback (direct a ha), fun _ => direct⟩
  · rw [itemParts, List.map_map]
    refine List.Nodup.map_on ?_ placed.sources.of_map
    intro a ha b hb same
    have sources := (sourceOrder_injective (fun i found => (placed.indices a ha i found).trans_le fits)
      (fun i found => (placed.indices b hb i found).trans_le fits) same).2
    exact List.inj_on_of_nodup_map placed.sources ha hb sources
  · intro part member
    obtain ⟨display, -, rfl⟩ := List.mem_map.1 member
    exact .inr (output_sourceOrder output display.source)

theorem responseParts_coherent {response : ModelResponse} (fits : 2 * response.weight < 2 ^ 64) :
    Coherent none (responseParts response) := by
  have placed := projectResponse_placed response
  have same_field {a b : ResponseField} (ha : a ∈ projectResponse response) (hb : b ∈ projectResponse response)
      (same : sourceOrder (UInt64.ofNat a.outputIndex) a.part.source =
        sourceOrder (UInt64.ofNat b.outputIndex) b.part.source) : a = b := by
    have outputs_a := placed.outputs a ha
    have outputs_b := placed.outputs b hb
    obtain ⟨outputs, sources⟩ := sourceOrder_injective (fun i found => (placed.indices a ha i found).trans fits)
      (fun i found => (placed.indices b hb i found).trans fits) same
    have indices := ofNat_injective (by omega) (by omega) outputs
    exact List.inj_on_of_nodup_map placed.places ha hb (Prod.ext indices sources)
  refine ⟨?_, fun _ _ => .inl rfl, ?_, fun single => absurd rfl single⟩
  · rw [responseParts, List.map_map]
    exact List.Nodup.map_on (fun a ha b hb same => same_field ha hb same) placed.places.of_map
  · intro a ha b hb fallback_a fallback_b
    obtain ⟨x, x_member, rfl⟩ := List.mem_map.1 ha
    obtain ⟨y, y_member, rfl⟩ := List.mem_map.1 hb
    obtain ⟨i, x_is⟩ := fallback_of_rank fallback_a
    obtain ⟨j, y_is⟩ := fallback_of_rank fallback_b
    rw [placed.lone x x_member y y_member i j x_is y_is]

/-- Bytes of the texts of some parts. -/
def partBytes (parts : List Part) : Nat := (parts.map fun part => bytes part.text).sum

theorem itemParts_size (output : UInt64) (item : OutputItem) : partBytes (itemParts output item) ≤ 64 * item.weight := by
  have size := (projectItem_placed item).size
  have same : partBytes (itemParts output item) = DisplayPart.total (projectItem item) := by
    rw [partBytes, itemParts, List.map_map, DisplayPart.total]
    rfl
  omega

theorem responseParts_size (response : ModelResponse) : partBytes (responseParts response) ≤ 64 * response.weight := by
  have size := (projectResponse_placed response).size
  have same : partBytes (responseParts response) =
      DisplayPart.total ((projectResponse response).map ResponseField.part) := by
    rw [partBytes, responseParts, List.map_map, DisplayPart.total, List.map_map]
    rfl
  omega

end Layout

end Wi
