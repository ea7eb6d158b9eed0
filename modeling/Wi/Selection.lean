import Wi.Gateway

/-! The choice of a stored credential profile for a session. It reads metadata only. Without an
explicit name one of the eligible profiles is drawn, and words that would favour some of them are
rejected. -/
namespace Wi.Codex.Selection
open Utf8

structure ProfileMetadata where
  name : Text
  enabled : Bool
  loggedIn : Bool
  requiresReauthentication : Bool
  expiresAtUnix : UInt64
  deriving DecidableEq

/-- A slice of profiles; no slice has more than `isize::MAX` elements. -/
structure Profiles where
  items : List ProfileMetadata
  room : items.length < 2 ^ 63

def invalidName : GatewayError := .invalidAuth "invalid local profile name"

def validateName (name : Text) : GatewayResult Unit :=
  demand (!(name.isEmpty || 64 < bytes name || !name.all fun c => c.isAlphanum || c = '-' || c = '_')) invalidName

def ProfileMetadata.eligible (profile : ProfileMetadata) : Bool :=
  profile.enabled && profile.loggedIn && !profile.requiresReauthentication

def Profiles.candidates (profiles : Profiles) : List ProfileMetadata := profiles.items.filter (·.eligible)

def threshold (count : UInt64) : UInt64 := -count % count

theorem toNat_count {count : Nat} (room : count < 2 ^ 64) : (UInt64.ofNat count).toNat = count :=
  UInt64.toNat_ofNat_of_lt' room

theorem index_lt {count : Nat} (some : 0 < count) (room : count < 2 ^ 64) (value : UInt64) :
    (value % UInt64.ofNat count).toNat < count := by
  rw [UInt64.toNat_mod, toNat_count room]
  exact Nat.mod_lt _ some

/-- The loop over the words that the caller supplies; nothing is returned while it asks for more. -/
def draw (candidates : List ProfileMetadata) (someone : 0 < candidates.length) (room : candidates.length < 2 ^ 64) :
    List (GatewayResult UInt64) → Option (GatewayResult Text)
  | [] => none
  | .error error :: _ => some (.error error)
  | .ok value :: words =>
    let count := UInt64.ofNat candidates.length
    if threshold count ≤ value then
      some (.ok (candidates.get ⟨(value % count).toNat, index_lt someone room value⟩).name)
    else draw candidates someone room words

theorem Profiles.candidates_room (profiles : Profiles) : profiles.candidates.length < 2 ^ 64 := by
  have := List.length_filter_le (·.eligible) profiles.items
  have := profiles.room
  rw [candidates]
  omega

def selectProfile (profiles : Profiles) (explicit : Option Text) (random : List (GatewayResult UInt64)) :
    Option (GatewayResult Text) :=
  match profiles.items.forM fun profile => validateName profile.name with
  | .error error => some (.error error)
  | .ok () =>
    match explicit with
    | some name => some do
      validateName name
      obtained ((profiles.candidates.find? (·.name = name)).map (·.name))
        (.invalidAuth "selected profile is unavailable; login or select another profile")
    | none =>
      if someone : 0 < profiles.candidates.length then draw profiles.candidates someone profiles.candidates_room random
      else some (.error (.invalidAuth "no eligible Wi profiles; login first"))

/-! ### What a word stands for -/

/-- The position that a word selects, unless it is one of the words left over by the division. -/
def choice (count : Nat) (someone : 0 < count) (word : UInt64) : Option (Fin count) :=
  if word.toNat < 2 ^ 64 % count then none else some ⟨word.toNat % count, Nat.mod_lt _ someone⟩

/-- What one answer of the random source makes of a choice. -/
def reply (candidates : List ProfileMetadata) (someone : 0 < candidates.length) :
    GatewayResult UInt64 → Option (GatewayResult Text)
  | .error error => some (.error error)
  | .ok word => (choice candidates.length someone word).map fun index => .ok (candidates.get index).name

theorem toNat_threshold {count : Nat} (some : 0 < count) (room : count < 2 ^ 64) :
    (threshold (UInt64.ofNat count)).toNat = 2 ^ 64 % count := by
  have wrapped : (UInt64.size - count) % UInt64.size = 2 ^ 64 - count := Nat.mod_eq_of_lt (by rw [UInt64.size]; omega)
  rw [threshold, UInt64.toNat_mod, UInt64.toNat_neg, toNat_count room, wrapped]
  exact (Nat.mod_eq_sub_mod room.le).symm

theorem draw_eq (candidates : List ProfileMetadata) (someone : 0 < candidates.length)
    (room : candidates.length < 2 ^ 64) (words : List (GatewayResult UInt64)) :
    draw candidates someone room words = words.findSome? (reply candidates someone) := by
  induction words with
  | nil => rfl
  | cons first words ih =>
    cases first with
    | error error => rfl
    | ok word =>
      rw [draw, List.findSome?_cons, reply, choice, ih]
      simp only [UInt64.le_iff_toNat_le, toNat_threshold someone room, UInt64.toNat_mod, toNat_count room]
      by_cases low : word.toNat < 2 ^ 64 % candidates.length
      · rw [if_neg (Nat.not_le.2 low), if_pos low]
        rfl
      · rw [if_pos (Nat.le_of_not_lt low), if_neg low]
        rfl

theorem choice_eq_some {count : Nat} {someone : 0 < count} {word : UInt64} {index : Fin count} :
    choice count someone word = some index ↔ ¬word.toNat < 2 ^ 64 % count ∧ word.toNat % count = index := by
  rw [choice]
  split
  case isTrue low => simp only [reduceCtorEq, low, not_true_eq_false, false_and]
  case isFalse high => simp only [Option.some.injEq, Fin.ext_iff, high, not_false_eq_true, true_and]

theorem card_choice (count : Nat) (someone : 0 < count) (index : Fin count) :
    ((Finset.range (2 ^ 64)).filter fun word => choice count someone (UInt64.ofNat word) = some index).card =
      (2 ^ 64 - 2 ^ 64 % count) / count := by
  have rounds (bound : Nat) : ((Finset.range bound).filter fun word => word % count = index).card =
      bound / count + if (index : Nat) < bound % count then 1 else 0 := by
    have counted := Nat.count_modEq_card bound someone index
    rw [Nat.count_eq_card_filter_range, Nat.mod_eq_of_lt index.2] at counted
    simpa only [Nat.ModEq, Nat.mod_eq_of_lt index.2] using counted
  have short : 2 ^ 64 % count < count := Nat.mod_lt _ someone
  have below : 2 ^ 64 % count ≤ 2 ^ 64 := Nat.mod_le _ _
  have split : (Finset.range (2 ^ 64)).filter (fun word => word % count = index) =
      ((Finset.range (2 ^ 64)).filter fun word => choice count someone (UInt64.ofNat word) = some index) ∪
        (Finset.range (2 ^ 64 % count)).filter fun word => word % count = index := by
    ext word
    simp only [Finset.mem_union, Finset.mem_filter, Finset.mem_range, choice_eq_some]
    constructor
    · rintro ⟨inside, same⟩
      rw [toNat_count inside]
      by_cases low : word < 2 ^ 64 % count
      · exact .inr ⟨low, same⟩
      · exact .inl ⟨inside, low, same⟩
    · rintro (⟨inside, -, same⟩ | ⟨low, same⟩)
      · exact ⟨inside, by rwa [toNat_count inside] at same⟩
      · exact ⟨by omega, same⟩
  have apart : Disjoint ((Finset.range (2 ^ 64)).filter fun word => choice count someone (UInt64.ofNat word) = some index)
      ((Finset.range (2 ^ 64 % count)).filter fun word => word % count = index) := by
    rw [Finset.disjoint_left]
    intro word chosen low
    simp only [Finset.mem_filter, Finset.mem_range, choice_eq_some] at chosen low
    rw [toNat_count chosen.1] at chosen
    exact chosen.2.1 low.1
  have total := rounds (2 ^ 64)
  rw [split, Finset.card_union_of_disjoint apart, rounds, Nat.mod_mod, Nat.div_eq_of_lt short, Nat.zero_add] at total
  rw [Nat.add_right_cancel total]
  exact Nat.div_eq_sub_mod_div

theorem forM_validateName (items : List ProfileMetadata) :
    (items.forM fun profile => validateName profile.name) =
      if ∀ profile ∈ items, validateName profile.name = .ok () then .ok () else .error invalidName := by
  induction items with
  | nil => rfl
  | cons first items ih =>
    change (validateName first.name >>= fun _ => items.forM fun profile => validateName profile.name) = _
    rw [ih]
    simp only [List.forall_mem_cons]
    have either : validateName first.name = .ok () ∨ validateName first.name = .error invalidName := by
      rw [validateName]
      cases !(first.name.isEmpty || 64 < bytes first.name || !first.name.all fun c => c.isAlphanum || c = '-' || c = '_')
      · exact .inr rfl
      · exact .inl rfl
    rcases either with valid | invalid
    · simp [valid]
    · simp [invalid]

/-- With no explicit choice and valid names, what is returned is decided by the first answer of the
random source that is not a rejected word; each eligible profile is the choice of equally many words,
and no other profile is ever returned. A list that holds an invalid name is refused. -/
theorem selectProfile_unbiased (profiles : Profiles) (someone : 0 < profiles.candidates.length) :
    ((∀ profile ∈ profiles.items, validateName profile.name = .ok ()) → ∀ random,
      selectProfile profiles none random = random.findSome? (reply profiles.candidates someone)) ∧
    (∀ word, choice profiles.candidates.length someone word = none ↔ word.toNat < 2 ^ 64 % profiles.candidates.length) ∧
    (∀ index, ((Finset.range (2 ^ 64)).filter fun word =>
        choice profiles.candidates.length someone (UInt64.ofNat word) = some index).card =
      (2 ^ 64 - 2 ^ 64 % profiles.candidates.length) / profiles.candidates.length) ∧
    (∀ random name, selectProfile profiles none random = some (.ok name) →
      ∃ profile ∈ profiles.items, profile.eligible = true ∧ profile.name = name) ∧
    ((∃ profile ∈ profiles.items, validateName profile.name ≠ .ok ()) → ∀ random,
      selectProfile profiles none random = some (.error invalidName)) := by
  have unfolds (random : List (GatewayResult UInt64)) : selectProfile profiles none random =
      if ∀ profile ∈ profiles.items, validateName profile.name = .ok () then
        random.findSome? (reply profiles.candidates someone) else some (.error invalidName) := by
    rw [selectProfile, forM_validateName]
    by_cases valid : ∀ profile ∈ profiles.items, validateName profile.name = .ok ()
    · simp only [if_pos valid, dif_pos someone, draw_eq]
    · simp only [if_neg valid]
  refine ⟨fun valid random => by rw [unfolds, if_pos valid], fun word => ?_, card_choice _ someone, ?_, ?_⟩
  · rw [choice]
    split <;> simp only [reduceCtorEq, *]
  · intro random name done
    rw [unfolds] at done
    split at done
    · obtain ⟨answer, -, replied⟩ := List.exists_of_findSome?_eq_some done
      cases answer with
      | error error => cases replied
      | ok word =>
        obtain ⟨index, -, same⟩ := Option.map_eq_some_iff.1 replied
        cases same
        have member := List.mem_filter.1 (List.get_mem profiles.candidates index)
        exact ⟨_, member.1, member.2, rfl⟩
    · cases done
  · rintro ⟨profile, member, invalid⟩ random
    rw [unfolds, if_neg fun valid => invalid (valid profile member)]

def sampleProfile (name : String) : ProfileMetadata := ⟨name.toList, true, true, false, 1⟩

def threeProfiles : Profiles := ⟨[sampleProfile "a", sampleProfile "b", sampleProfile "c"], by decide⟩

theorem selectProfile_unbiased_three : selectProfile threeProfiles none [.ok 0, .ok 2] = some (.ok ['c']) ∧
    ∀ index : Fin 3, ((Finset.range (2 ^ 64)).filter fun word => choice 3 (by decide) (UInt64.ofNat word) = some index).card =
      6148914691236517205 := by
  have facts := selectProfile_unbiased threeProfiles (by decide)
  refine ⟨?_, fun index => (facts.2.2.1 index).trans (by decide)⟩
  rw [facts.1 (by decide)]
  decide

/-- A profile without a name is eligible, and no word selects it. -/
theorem unnamed_profile_refused : (Profiles.candidates ⟨[sampleProfile ""], by decide⟩).length = 1 ∧
    ∀ word, selectProfile ⟨[sampleProfile ""], by decide⟩ none [.ok word] = some (.error invalidName) :=
  ⟨rfl, fun _ => rfl⟩

end Wi.Codex.Selection
