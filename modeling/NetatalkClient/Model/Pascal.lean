import NetatalkClient.Model.Protocol

/-!
# Pascal strings

`copy_from_pascal` and `copy_from_pascal_two` (`utils.c`) copy a string with a length of one or two
bytes in front of it into a buffer. Both return the length that the string announces, and neither
knows where the frame around the string ends.
-/

namespace NC

/-- A text in a buffer of `maxLen` bytes: at most one byte less of it, and zeros behind. -/
def textBuffer (maxLen : Nat) (text : Bytes) : Bytes :=
  let copied := text.take (maxLen - 1)
  copied ++ List.replicate (maxLen - copied.length) 0

/-- How much of an announced length is copied. -/
def copyLen (len maxLen : Nat) : Nat := if maxLen ≤ len then maxLen - 1 else len

/-- `copy_from_pascal`: the announced length, and the buffer. -/
def copyFromPascal (maxLen pascal : Nat) (dest : Bytes) : Reads (Nat × Bytes) := do
  if maxLen = 0 then return (0, dest)
  let len := (← Reads.byte pascal).toNat
  let text ← Reads.bytes (pascal + 1) (copyLen len maxLen)
  return (len, textBuffer maxLen text)

def copyFromPascalTwo (maxLen pascal : Nat) (dest : Bytes) : Reads (Nat × Bytes) := do
  if maxLen = 0 then return (0, dest)
  let len ← Reads.nat pascal 2
  -- The buffer keeps what it holds.
  if len = 0 then return (0, dest)
  let text ← Reads.bytes (pascal + 2) (copyLen len maxLen)
  return (len, textBuffer maxLen text)

theorem copyLen_eq {len maxLen : Nat} (h : 0 < maxLen) : copyLen len maxLen = min len (maxLen - 1) := by
  unfold copyLen
  split <;> omega

end NC
