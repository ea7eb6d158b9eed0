import Wi.Rows
import Wi.Wire

/-! Compact entry views: the newest contiguous part of an entry's content, cut to a size. -/
namespace Wi.Compact
open Utf8 Wire
variable [JsonHash]

/-- Nothing of the fields shown is missing and there is nothing earlier. -/
def complete (fields : List FieldFragment) (earlier : Option ContentCursor) : Bool :=
  earlier.isNone && fields.all (·.whole)

/-- The cursor that continues before `start` of a field. -/
def boundary (session : ApplicationSessionId) (entry : EntryView) (field : FieldFragment) (start : Nat) :
    Read ContentCursor :=
  storage (ContentCursor.new ⟨session, entry.runId, entry.entryId, entry.contentEpoch, field.fieldId,
    field.generation, start⟩)

def rebuild (entry : EntryView) (fields : List FieldFragment) (earlier : Option ContentCursor) :
    Read EntryView :=
  storage (EntryView.new { entry with
    fields
    earlierContent := earlier
    contentComplete := complete fields earlier })

/-- `suffix_view`: leave out the first `skip` fields. The source indexes `fields[0]`, which
exists for every `skip` it passes. -/
def suffixView (session : ApplicationSessionId) (entry : EntryView) (skip : Nat) : Read EntryView :=
  match entry.fields.drop skip with
  | [] => .error corrupt
  | first :: rest => do
    let earlier ← boundary session entry first first.fromByte
    rebuild entry (first :: rest) (some earlier)

/-- `text_suffix`: leave out the first `cut` bytes of the first field shown. -/
def textSuffix (session : ApplicationSessionId) (entry : EntryView) (cut : Nat) : Read EntryView :=
  match entry.fields with
  | [] => .error corrupt
  | first :: rest => do
    let start := first.fromByte + cut
    let shortened ← storage (FieldFragment.new { first with
      fromByte := start
      text := drop cut first.text })
    let earlier ← boundary session entry shortened start
    rebuild entry (shortened :: rest) (some earlier)

/-- `text.char_indices()`: the byte offset of each scalar. -/
def offsetsFrom (start : Nat) : Text → List Nat
  | [] => []
  | c :: cs => start :: offsetsFrom (start + c.utf8Size) cs

def offsets (text : Text) : List Nat := offsetsFrom 0 text

/-- 10, 100, and so on, up to the first one above `upper`. The source stops before
the multiplication overflows 64 bits. -/
def powers (upper : Nat) : Nat → Nat → List Nat
  | 0, _ => []
  | fuel + 1, power => power :: if upper < power then [] else powers upper fuel (power * 10)

def maxPowers : Nat := 19

/-- The last scalar, and the last one before each decimal width of the offset. -/
def cuts (field : FieldFragment) (offsets : List Nat) (last : Nat) : List Nat :=
  let widths := (powers field.toByte maxPowers 10).filterMap fun power =>
    offsets.reverse.find? fun cut => field.fromByte + cut < power
  (Table.orderBy id (last :: widths)).dedup

/-- A view with its size; an oversized one counts as unbounded. -/
structure Best where
  entry : EntryView
  size : Option Nat

/-- `if size < best { best = .. }` -/
def Best.improve (best : Best) (entry : EntryView) : Best :=
  match entrySize entry, best.size with
  | some size, some old => if size < old then ⟨entry, some size⟩ else best
  | some size, none => ⟨entry, some size⟩
  | none, _ => best

def tryCut (session : ApplicationSessionId) (tail : EntryView) (best : Best) (cut : Nat) : Read Best :=
  if cut = 0 then .ok best else do return best.improve (← textSuffix session tail cut)

def trySkip (session : ApplicationSessionId) (entry : EntryView) (best : Best) (skip : Nat) : Read Best := do
  let tail ← if skip = 0 then pure entry else suffixView session entry skip
  let best := best.improve tail
  match tail.fields with
  | [] => .error corrupt
  | field :: _ =>
    let offsets := offsets field.text
    match offsets.getLast? with
    | none => return best
    | some last => (cuts field offsets last).foldlM (tryCut session tail) best

/-- The smallest view that still makes progress. -/
def minimum (session : ApplicationSessionId) (entry : EntryView) : Read EntryView := do
  let best ← (List.range entry.fields.length).foldlM (trySkip session entry) ⟨entry, entrySize entry⟩
  expect best.size.isSome .displayUnavailable
  return best.entry

/-- Drop older descriptors until the view is accepted or one field is left. -/
def dropOlder (session : ApplicationSessionId) (accepts : EntryView → Bool) :
    Nat → EntryView → Read (EntryView × Bool)
  | 0, candidate => .ok (candidate, false)
  | fuel + 1, candidate =>
    if 1 < candidate.fields.length then do
      let candidate ← suffixView session candidate 1
      if accepts candidate then return (candidate, true)
      dropOlder session accepts fuel candidate
    else .ok (candidate, false)

/-- The binary search over scalar offsets. The fuel bounds the number of halvings. -/
def search (session : ApplicationSessionId) (accepts : EntryView → Bool) (candidate : EntryView)
    (offsets : List Nat) : Nat → Nat → Nat → Read Nat
  | 0, low, _ => .ok low
  | fuel + 1, low, high =>
    if low < high then do
      let mid := (low + high) / 2
      if accepts (← textSuffix session candidate (offsets.getD mid 0)) then
        search session accepts candidate offsets fuel low mid
      else search session accepts candidate offsets fuel (mid + 1) high
    else .ok low

/-- Shrink the one field that is left. -/
def shrinkText (session : ApplicationSessionId) (accepts : EntryView → Bool) (candidate : EntryView) :
    Read EntryView := do
  let field ← storage (present candidate.fields.head? .integrity)
  expect (!field.text.isEmpty) .displayUnavailable
  let offsets := offsets field.text
  let smallest ← minimum session candidate
  expect (accepts smallest) .displayUnavailable
  let start ← storage (present (smallest.fields.head?.map (·.fromByte)) .integrity)
  let high ← storage (present (offsets.findIdx? fun cut => field.fromByte + cut = start) .integrity)
  let low ← search session accepts candidate offsets offsets.length 0 high
  textSuffix session candidate (offsets.getD low 0)

/-- Keep the newest contiguous suffix that is accepted. -/
def fit (session : ApplicationSessionId) (entry : EntryView) (accepts : EntryView → Bool) : Read EntryView := do
  if accepts entry then return entry
  expect (!entry.fields.isEmpty) .displayUnavailable
  let (candidate, done) ← dropOlder session accepts entry.fields.length entry
  if done then return candidate
  shrinkText session accepts candidate

end Wi.Compact
