import Mathlib

/-! A decoder of UTF-8 that takes one byte at a time and fails at the first byte that no text
can have there. A byte order mark at the start of the stream is dropped. -/
namespace Wi.Utf8Stream

/-- Where the decoder stands in a scalar: the continuation bytes it needs, the range of the next
one, and the bits so far. `started` after the first scalar. -/
structure Decoder where
  needed : Nat
  lower : Nat
  upper : Nat
  code : Nat
  started : Bool
  deriving DecidableEq

variable {decoder next : Decoder} {text : List Char}

namespace Decoder

def new : Decoder := ⟨0, 0x80, 0xbf, 0, false⟩

/-- A whole scalar, without the byte order mark at the start. -/
def emit (decoder : Decoder) (code : Nat) : Decoder × List Char :=
  (⟨0, 0x80, 0xbf, 0, true⟩, if !decoder.started && code == 0xfeff then [] else [Char.ofNat code])

/-- The first byte of a scalar. -/
def lead (decoder : Decoder) (byte : Nat) : Option (Decoder × List Char) :=
  if byte ≤ 0x7f then some (decoder.emit byte)
  else if 0xc2 ≤ byte ∧ byte ≤ 0xdf then some ({ decoder with
    needed := 1, code := byte - 0xc0, lower := 0x80, upper := 0xbf }, [])
  else if 0xe0 ≤ byte ∧ byte ≤ 0xef then some ({ decoder with
    needed := 2, code := byte - 0xe0, lower := if byte = 0xe0 then 0xa0 else 0x80
    upper := if byte = 0xed then 0x9f else 0xbf }, [])
  else if 0xf0 ≤ byte ∧ byte ≤ 0xf4 then some ({ decoder with
    needed := 3, code := byte - 0xf0, lower := if byte = 0xf0 then 0x90 else 0x80
    upper := if byte = 0xf4 then 0x8f else 0xbf }, [])
  else none

def step (decoder : Decoder) (byte : UInt8) : Option (Decoder × List Char) :=
  if decoder.needed = 0 then decoder.lead byte.toNat
  else if byte.toNat < decoder.lower ∨ decoder.upper < byte.toNat then none
  else
    let code := decoder.code * 64 + (byte.toNat - 0x80)
    if decoder.needed = 1 then some (decoder.emit code)
    else some ({ decoder with needed := decoder.needed - 1, lower := 0x80, upper := 0xbf, code := code }, [])

/-- `decode(bytes, { stream: true })` -/
def decode (decoder : Decoder) : List UInt8 → Option (Decoder × List Char)
  | [] => some (decoder, [])
  | byte :: bytes => do
    let (decoder, first) ← decoder.step byte
    let (decoder, text) ← decoder.decode bytes
    return (decoder, first ++ text)

/-- `decode()`: no scalar may be open at the end. -/
def flush (decoder : Decoder) : Option (List Char) := if decoder.needed = 0 then some [] else none

/-- An open scalar is not an ASCII one. -/
structure Sound (decoder : Decoder) : Prop where
  one : decoder.needed = 1 → 2 ≤ decoder.code
  two : decoder.needed = 2 → 1 ≤ decoder.code ∨ 0xa0 ≤ decoder.lower
  three : decoder.needed = 3 → 1 ≤ decoder.code ∨ 0x90 ≤ decoder.lower
  most : decoder.needed ≤ 3
  tail : decoder.needed ≠ 0 → 0x80 ≤ decoder.lower

theorem closed_sound (closed : decoder.needed = 0) : decoder.Sound := by
  constructor <;> omega

theorem lead_sound {byte : Nat} (taken : decoder.lead byte = some (next, text)) : next.Sound := by
  unfold lead at taken
  split at taken
  · cases taken
    exact closed_sound rfl
  · split at taken
    · cases taken
      constructor <;> dsimp only <;> omega
    · split at taken
      · cases taken
        constructor <;> grind
      · split at taken
        · cases taken
          constructor <;> grind
        · exact nomatch taken

theorem step_sound {byte : UInt8} (sound : decoder.Sound) (taken : decoder.step byte = some (next, text)) :
    next.Sound := by
  obtain ⟨one, two, three, most, tail⟩ := sound
  unfold step at taken
  split at taken
  · exact lead_sound taken
  · split at taken
    · exact nomatch taken
    · dsimp only at taken
      split at taken
      · cases taken
        exact closed_sound rfl
      · cases taken
        constructor <;> dsimp only <;> omega

theorem toNat_ofNat_ascii {code : Nat} (some : 0 < (Char.ofNat code).toNat) : (Char.ofNat code).toNat = code := by
  rw [Char.toNat_ofNat] at some ⊢
  split at some
  · rename_i valid
    exact if_pos valid
  · cases some

theorem emit_ascii {code : Nat} {c : Char} (member : c ∈ (decoder.emit code).2) (some : 0 < c.toNat) :
    c.toNat = code := by
  unfold emit at member
  dsimp only at member
  split at member
  · exact absurd member List.not_mem_nil
  · cases List.mem_singleton.mp member
    exact toNat_ofNat_ascii some

/-- An ASCII character stands where its byte stands. -/
theorem step_ascii {byte : UInt8} (sound : decoder.Sound) (taken : decoder.step byte = some (next, text))
    {c : Char} (member : c ∈ text) (some : 0 < c.toNat) (ascii : c.toNat < 0x80) : c.toNat = byte.toNat := by
  obtain ⟨one, two, three, most, tail⟩ := sound
  unfold step at taken
  split at taken
  · unfold lead at taken
    split at taken
    · obtain ⟨rfl, rfl⟩ := Prod.mk.inj (Option.some.inj taken)
      exact emit_ascii member some
    · -- The other first bytes put nothing out.
      exfalso
      split at taken
      · cases taken
        exact List.not_mem_nil member
      · split at taken
        · cases taken
          exact List.not_mem_nil member
        · split at taken
          · cases taken
            exact List.not_mem_nil member
          · exact nomatch taken
  · split at taken
    · exact nomatch taken
    · dsimp only at taken
      split at taken
      · -- The scalar is complete, and not an ASCII one.
        rename_i last
        obtain ⟨rfl, rfl⟩ := Prod.mk.inj (Option.some.inj taken)
        have same := emit_ascii member some
        have high := one last
        omega
      · cases taken
        exact absurd member List.not_mem_nil

end Decoder
end Wi.Utf8Stream
