/-!
# Reading bytes as text

`Utf8.decode` reads a whole byte sequence as UTF-8. When it is not well formed, the failure says how
many bytes before it are, and how long the sequence is that cannot be continued.
-/

namespace ScriptFront.Text.Utf8

/-- Where a byte sequence stops being UTF-8: `index` bytes before the place are well formed. The bad
sequence has `length` bytes; there is no length when the bytes end inside a character. -/
structure Failure where
  index : Nat
  length : Option Nat
deriving DecidableEq, Repr

namespace Failure

def message (f : Failure) : String :=
  match f.length with
  | some n => "invalid utf-8 sequence of " ++ toString n ++ " bytes from index " ++ toString f.index
  | none => "incomplete utf-8 byte sequence from index " ++ toString f.index

end Failure

/-- The ranges that the bytes after a first byte must lie in, or nothing for a byte that starts no
character. -/
def tails (b : UInt8) : Option (List (UInt8 × UInt8)) :=
  let tail : UInt8 × UInt8 := (0x80, 0xBF)
  if b ≤ 0x7F then some []
  else if b < 0xC2 then none
  else if b ≤ 0xDF then some [tail]
  else if b = 0xE0 then some [(0xA0, 0xBF), tail]
  else if b = 0xED then some [(0x80, 0x9F), tail]
  else if b ≤ 0xEF then some [tail, tail]
  else if b = 0xF0 then some [(0x90, 0xBF), tail, tail]
  else if b ≤ 0xF3 then some [tail, tail, tail]
  else if b = 0xF4 then some [(0x80, 0x8F), tail, tail]
  else none

/-- Matches the bytes after a first byte against their ranges. An error gives the number of bytes
that belong together up to the bad one, `n` of them counted before. -/
def skipTails : List (UInt8 × UInt8) → List UInt8 → Nat → Except (Option Nat) (List UInt8)
  | [], bs, _ => .ok bs
  | _ :: _, [], _ => .error none
  | r :: rs, b :: bs, n => if r.1 ≤ b && b ≤ r.2 then skipTails rs bs (n + 1) else .error (some n)

/-- The first failure in `bs`, which start at byte `i`; `fuel` bounds the number of characters. -/
def failureFrom : Nat → List UInt8 → Nat → Failure
  | 0, _, i => ⟨i, none⟩
  | _, [], i => ⟨i, none⟩
  | fuel + 1, b :: bs, i =>
    match tails b with
    | none => ⟨i, some 1⟩
    | some rs =>
      match skipTails rs bs 1 with
      | .error n => ⟨i, n⟩
      | .ok rest => failureFrom fuel rest (i + 1 + rs.length)

/-- The text that the bytes encode. -/
def decode (bytes : ByteArray) : Except Failure String :=
  match String.fromUTF8? bytes with
  | some s => .ok s
  | none => .error (failureFrom bytes.size bytes.toList 0)

end ScriptFront.Text.Utf8
