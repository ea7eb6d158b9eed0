import Wi.Utf8

/-! Splitting a text greedily into pieces of at most `limit` bytes and giving every
piece its byte offset. Appending to a text only changes its last piece. -/
namespace Wi.Chunks
open Utf8

/-- One pass of the greedy split; the fuel bounds the number of pieces. -/
def piecesWith (limit : Nat) : Nat → Text → List Text
  | 0, _ => []
  | fuel + 1, text =>
    if text = [] then [] else take limit text :: piecesWith limit fuel (drop limit text)

def pieces (limit : Nat) (text : Text) : List Text := piecesWith limit text.length text

/-- Consecutive pieces with the byte offset each one starts at. -/
def locate : Nat → List Text → List (Nat × Text)
  | _, [] => []
  | start, piece :: rest => (start, piece) :: locate (start + bytes piece) rest

@[simp] theorem locate_nil : locate start [] = [] := rfl
@[simp] theorem locate_cons :
    locate start (piece :: rest) = (start, piece) :: locate (start + bytes piece) rest := rfl

@[simp] theorem locate_append (start : Nat) (a b : List Text) :
    locate start (a ++ b) = locate start a ++ locate (start + bytes a.flatten) b := by
  induction a generalizing start with
  | nil => simp
  | cons piece rest ih => simp [ih, Nat.add_assoc]

@[simp] theorem map_snd_locate (start : Nat) (ps : List Text) : (locate start ps).map Prod.snd = ps := by
  induction ps generalizing start with
  | nil => rfl
  | cons piece rest ih => simp [ih]

@[simp] theorem length_locate (start : Nat) (ps : List Text) : (locate start ps).length = ps.length := by
  rw [← List.length_map (f := Prod.snd), map_snd_locate]

/-- A located piece lies between the start and the end of the text. -/
theorem locate_bounds {ps : List Text} (member : chunk ∈ locate start ps) :
    start ≤ chunk.1 ∧ chunk.1 + bytes chunk.2 ≤ start + bytes ps.flatten := by
  induction ps generalizing start with
  | nil => simp at member
  | cons piece rest ih =>
    simp only [locate_cons, List.mem_cons] at member
    rcases member with rfl | member
    · simp
    · have := ih member
      simp; omega

theorem locate_pairwise {ps : List Text} (nonempty : ∀ p ∈ ps, p ≠ []) :
    (locate start ps).Pairwise (fun a b => a.1 + bytes a.2 ≤ b.1 ∧ a.1 < b.1) := by
  induction ps generalizing start with
  | nil => simp
  | cons piece rest ih =>
    rw [locate_cons, List.pairwise_cons]
    refine ⟨fun chunk member => ?_, ih fun p h => nonempty p (by simp [h])⟩
    have := locate_bounds member
    have := bytes_pos.2 (nonempty piece (by simp))
    simp only
    omega

section Greedy
variable {limit : Nat} (room : 4 ≤ limit)
include room

theorem take_ne_nil {text : Text} (h : text ≠ []) : take limit text ≠ [] := by
  cases text with
  | nil => contradiction
  | cons c cs =>
    have := c.utf8Size_le_four
    simp [take, show c.utf8Size ≤ limit by omega]

theorem length_drop_lt {text : Text} (h : text ≠ []) : (drop limit text).length < text.length := by
  have split := congrArg List.length (take_append_drop limit text)
  have := List.length_pos_iff.2 (take_ne_nil room h)
  simp only [List.length_append] at split
  omega

theorem piecesWith_enough (fuel : Nat) (text : Text) (enough : text.length ≤ fuel) :
    piecesWith limit fuel text = pieces limit text := by
  induction fuel using Nat.strong_induction_on generalizing text with
  | _ fuel ih =>
    by_cases h : text = []
    · subst h; cases fuel <;> simp [pieces, piecesWith]
    · obtain ⟨k, hk⟩ : ∃ k, text.length = k + 1 :=
        Nat.exists_eq_succ_of_ne_zero (by simpa using h)
      obtain ⟨f, rfl⟩ : ∃ f, fuel = f + 1 := Nat.exists_eq_succ_of_ne_zero (by omega)
      have shorter := length_drop_lt room h
      rw [pieces, hk, piecesWith, piecesWith, if_neg h, if_neg h,
        ih f (by omega) _ (by omega), ih k (by omega) _ (by omega)]

theorem pieces_ne_nil {text : Text} (h : text ≠ []) :
    pieces limit text = take limit text :: pieces limit (drop limit text) := by
  obtain ⟨k, hk⟩ : ∃ k, text.length = k + 1 := Nat.exists_eq_succ_of_ne_zero (by simpa using h)
  have shorter := length_drop_lt room h
  rw [pieces, hk, piecesWith, if_neg h, piecesWith_enough room k _ (by omega)]

omit room in
@[simp] theorem pieces_nil : pieces limit [] = [] := rfl

/-- Induction along the greedy split. -/
theorem pieces_induction {motive : Text → Prop} (nil : motive [])
    (step : ∀ text, text ≠ [] → motive (drop limit text) → motive text) (text : Text) :
    motive text := by
  induction h : text.length using Nat.strong_induction_on generalizing text with
  | _ n ih =>
    by_cases empty : text = []
    · subst empty; exact nil
    · exact step text empty (ih _ (h ▸ length_drop_lt room empty) _ rfl)

theorem pieces_flatten (text : Text) : (pieces limit text).flatten = text := by
  induction text using pieces_induction room with
  | nil => rfl
  | step text h ih => rw [pieces_ne_nil room h, List.flatten_cons, ih, take_append_drop]

theorem pieces_bounds {text piece : Text} (member : piece ∈ pieces limit text) :
    piece ≠ [] ∧ bytes piece ≤ limit := by
  induction text using pieces_induction room with
  | nil => simp at member
  | step text h ih =>
    rw [pieces_ne_nil room h, List.mem_cons] at member
    rcases member with rfl | member
    · exact ⟨take_ne_nil room h, bytes_take_le _ _⟩
    · exact ih member

theorem pieces_eq_nil {text : Text} : pieces limit text = [] ↔ text = [] := by
  constructor
  · intro h
    by_contra ne
    simp [pieces_ne_nil room ne] at h
  · rintro rfl; rfl

/-- Appending keeps every piece but the last, fills the last one up and splits the rest. -/
theorem pieces_append {text tail : Text} {init : List Text}
    (last : pieces limit text = init ++ [tail]) (more : Text) :
    pieces limit (text ++ more) =
      init ++ (tail ++ take (limit - bytes tail) more) ::
        pieces limit (drop (limit - bytes tail) more) := by
  induction init generalizing text with
  | nil =>
    have whole : text = tail := by
      have := pieces_flatten room text
      rw [last] at this
      simpa using this.symm
    subst whole
    have member : text ∈ pieces limit text := by simp [last]
    have bound := pieces_bounds room member
    have ne : text ++ more ≠ [] := by simp [bound.1]
    rw [pieces_ne_nil room ne, take_append_of_le bound.2, drop_append_of_le bound.2, List.nil_append]
  | cons piece init ih =>
    have ne : text ≠ [] := by rintro rfl; simp at last
    rw [pieces_ne_nil room ne, List.cons_append, List.cons.injEq] at last
    obtain ⟨rfl, last⟩ := last
    -- The first piece is full: something is left after it, so the text is longer than it.
    have past : limit < bytes text := by
      have rest : drop limit text ≠ [] := by intro h; rw [h] at last; simp at last
      by_contra le
      exact rest (drop_of_le (Nat.le_of_not_lt le))
    rw [pieces_ne_nil room (by simp [ne]), take_append_of_lt past, drop_append_of_lt past, ih last,
      List.cons_append]

end Greedy
end Wi.Chunks
