import NetatalkClient.Model.Names.Unicode
import NetatalkClient.Model.Volume

/-!
# Names in the volume's encoding

The functions of `codepage.c` with the tables of `mac_roman.h`. A buffer that a
function fills is the result it returns, up to its terminator; `none` is the
return value -1, which leaves an empty string. `heap` says for how many bytes
`malloc` finds memory.
-/

namespace NC

/-- The bytes before the terminator. -/
def cString (b : Bytes) : Bytes := b.takeWhile (· ≠ 0)

abbrev intMax : Nat := 2147483647

/-! ## Strings that convert to themselves -/

/-- `contains_supplementary_utf8`: a four-byte sequence somewhere in the string. -/
def containsSupplementaryUtf8 : Bytes → Bool
  | [] => false
  | c :: src =>
    (0xf0 ≤ c.toNat && c.toNat ≤ 0xf4 && 3 ≤ src.length && isContinuation (byteAt src 0)
        && isContinuation (byteAt src 1) && isContinuation (byteAt src 2))
      || containsSupplementaryUtf8 src

def utf8IsAscii (src : Bytes) : Bool := src.all (·.toNat < 0x80)

def copyIdentity (src : Bytes) (destLen : Nat) : Option Bytes :=
  if destLen ≤ src.length then none else some (cString src)

/-- `copy_if_supplementary_utf8`: `some none` is its 0, a string that was not copied. -/
def copyIfSupplementaryUtf8 (src : Bytes) (destLen : Nat) : Option (Option Bytes) :=
  if !containsSupplementaryUtf8 src then some none else (copyIdentity src destLen).map some

/-! ## Decoding -/

abbrev ucs2StackChars : Nat := (255 + 1) * 4 + 1

/-- `ucs2_buffer_get`: whether there is a buffer for so many characters. -/
def ucs2BufferGet (heap : Nat → Bool) (chars : Nat) : Bool :=
  chars ≤ ucs2StackChars || heap (chars * 2)

def utf8DecodesWhole (heap : Nat → Bool) (src : Bytes) : Bool :=
  ucs2BufferGet heap (src.length + 1) &&
    match utf8toUcs2 src (src.length + 1) with
    | none => false
    | some d => d.substituted = 0 && d.bytesConsumed = src.length

/-! ## Mac Roman -/

/-- `mac_roman_2uni[]`: the characters of the bytes from 0x80. -/
def macRoman2uni : List Nat :=
  [0x00C4, 0x00C5, 0x00C7, 0x00C9, 0x00D1, 0x00D6, 0x00DC, 0x00E1,
   0x00E0, 0x00E2, 0x00E4, 0x00E3, 0x00E5, 0x00E7, 0x00E9, 0x00E8,
   0x00EA, 0x00EB, 0x00ED, 0x00EC, 0x00EE, 0x00EF, 0x00F1, 0x00F3,
   0x00F2, 0x00F4, 0x00F6, 0x00F5, 0x00FA, 0x00F9, 0x00FB, 0x00FC,
   0x2020, 0x00B0, 0x00A2, 0x00A3, 0x00A7, 0x2022, 0x00B6, 0x00DF,
   0x00AE, 0x00A9, 0x2122, 0x00B4, 0x00A8, 0x2260, 0x00C6, 0x00D8,
   0x221E, 0x00B1, 0x2264, 0x2265, 0x00A5, 0x00B5, 0x2202, 0x2211,
   0x220F, 0x03C0, 0x222B, 0x00AA, 0x00BA, 0x2126, 0x00E6, 0x00F8,
   0x00BF, 0x00A1, 0x00AC, 0x221A, 0x0192, 0x2248, 0x2206, 0x00AB,
   0x00BB, 0x2026, 0x00A0, 0x00C0, 0x00C3, 0x00D5, 0x0152, 0x0153,
   0x2013, 0x2014, 0x201C, 0x201D, 0x2018, 0x2019, 0x00F7, 0x25CA,
   0x00FF, 0x0178, 0x2044, 0x20AC, 0x2039, 0x203A, 0xFB01, 0xFB02,
   0x2021, 0x00B7, 0x201A, 0x201E, 0x2030, 0x00C2, 0x00CA, 0x00C1,
   0x00CB, 0x00C8, 0x00CD, 0x00CE, 0x00CF, 0x00CC, 0x00D3, 0x00D4,
   0xF8FF, 0x00D2, 0x00DA, 0x00DB, 0x00D9, 0x0131, 0x02C6, 0x02DC,
   0x00AF, 0x02D8, 0x02D9, 0x02DA, 0x00B8, 0x02DD, 0x02DB, 0x02C7]

/-- U+00A0 to U+00FF. -/
def macRomanPage00 : List Nat :=
  [0xCA, 0xC1, 0xA2, 0xA3, 0, 0xB4, 0, 0xA4,
   0xAC, 0xA9, 0xBB, 0xC7, 0xC2, 0, 0xA8, 0xF8,
   0xA1, 0xB1, 0, 0, 0xAB, 0xB5, 0xA6, 0xE1,
   0xFC, 0, 0xBC, 0xC8, 0, 0, 0, 0xC0,
   0xCB, 0xE7, 0xE5, 0xCC, 0x80, 0x81, 0xAE, 0x82,
   0xE9, 0x83, 0xE6, 0xE8, 0xED, 0xEA, 0xEB, 0xEC,
   0, 0x84, 0xF1, 0xEE, 0xEF, 0xCD, 0x85, 0,
   0xAF, 0xF4, 0xF2, 0xF3, 0x86, 0, 0, 0xA7,
   0x88, 0x87, 0x89, 0x8B, 0x8A, 0x8C, 0xBE, 0x8D,
   0x8F, 0x8E, 0x90, 0x91, 0x93, 0x92, 0x94, 0x95,
   0, 0x96, 0x98, 0x97, 0x99, 0x9B, 0x9A, 0xD6,
   0xBF, 0x9D, 0x9C, 0x9E, 0x9F, 0, 0, 0xD8]

/-- U+0131 to U+0192. -/
def macRomanPage01 : List Nat :=
  [0xF5, 0, 0, 0, 0, 0, 0, 0,
   0, 0, 0, 0, 0, 0, 0, 0,
   0, 0, 0, 0, 0, 0, 0, 0,
   0, 0, 0, 0, 0, 0, 0, 0,
   0, 0xCE, 0xCF, 0, 0, 0, 0, 0,
   0, 0, 0, 0, 0, 0, 0, 0,
   0, 0, 0, 0, 0, 0, 0, 0,
   0, 0, 0, 0, 0, 0, 0, 0,
   0, 0, 0, 0, 0, 0, 0, 0xD9,
   0, 0, 0, 0, 0, 0, 0, 0,
   0, 0, 0, 0, 0, 0, 0, 0,
   0, 0, 0, 0, 0, 0, 0, 0,
   0, 0xC4]

/-- U+02C6 to U+02DD. -/
def macRomanPage02 : List Nat :=
  [0xF6, 0xFF, 0, 0, 0, 0, 0, 0,
   0, 0, 0, 0, 0, 0, 0, 0,
   0, 0, 0xF9, 0xFA, 0xFB, 0xFE, 0xF7, 0xFD]

/-- U+2013 to U+2044. -/
def macRomanPage20 : List Nat :=
  [0xD0, 0xD1, 0, 0, 0, 0xD4, 0xD5, 0xE2,
   0, 0xD2, 0xD3, 0xE3, 0, 0xA0, 0xE0, 0xA5,
   0, 0, 0, 0xC9, 0, 0, 0, 0,
   0, 0, 0, 0xE4, 0, 0, 0, 0,
   0, 0, 0, 0, 0, 0, 0xDC, 0xDD,
   0, 0, 0, 0, 0, 0, 0, 0,
   0, 0xDA]

/-- U+2122 to U+2126. -/
def macRomanPage21 : List Nat := [0xAA, 0, 0, 0, 0xBD]

/-- U+2202 to U+2265. -/
def macRomanPage22 : List Nat :=
  [0xB6, 0, 0, 0, 0xC6, 0, 0, 0,
   0, 0, 0, 0, 0, 0xB8, 0, 0xB7,
   0, 0, 0, 0, 0, 0, 0, 0,
   0xC3, 0, 0, 0, 0xB0, 0, 0, 0,
   0, 0, 0, 0, 0, 0, 0, 0xBA,
   0, 0, 0, 0, 0, 0, 0, 0,
   0, 0, 0, 0, 0, 0, 0, 0,
   0, 0, 0, 0, 0, 0, 0, 0,
   0, 0, 0, 0, 0xC5, 0, 0, 0,
   0, 0, 0, 0, 0, 0, 0, 0,
   0, 0, 0, 0, 0, 0, 0, 0,
   0, 0, 0, 0, 0, 0, 0xAD, 0,
   0, 0, 0xB2, 0xB3]

/-- U+FB01 to U+FB02. -/
def macRomanPagefb : List Nat := [0xDE, 0xDF]

/-- `unicode_to_mac_roman`: 0 for a character Mac Roman lacks. -/
def unicodeToMacRoman (uc : Nat) : Nat :=
  if 0x00A0 ≤ uc && uc ≤ 0x00FF then macRomanPage00.getD (uc - 0x00A0) 0
  else if 0x0131 ≤ uc && uc ≤ 0x0192 then macRomanPage01.getD (uc - 0x0131) 0
  else if 0x02C6 ≤ uc && uc ≤ 0x02DD then macRomanPage02.getD (uc - 0x02C6) 0
  else if uc = 0x03C0 then 0xB9
  else if 0x2013 ≤ uc && uc ≤ 0x2044 then macRomanPage20.getD (uc - 0x2013) 0
  else if uc = 0x20AC then 0xDB
  else if 0x2122 ≤ uc && uc ≤ 0x2126 then macRomanPage21.getD (uc - 0x2122) 0
  else if 0x2202 ≤ uc && uc ≤ 0x2265 then macRomanPage22.getD (uc - 0x2202) 0
  else if uc = 0x25CA then 0xD7
  else if uc = 0xF8FF then 0xF0
  else if 0xFB01 ≤ uc && uc ≤ 0xFB02 then macRomanPagefb.getD (uc - 0xFB01) 0
  else 0

/-- The character of a Mac Roman byte. -/
def macRomanChar (c : UInt8) : Nat :=
  if c.toNat < 0x80 then c.toNat else macRoman2uni.getD (c.toNat - 0x80) 0

def convertMacRomanToUtf8 (src : Bytes) (destLen : Nat) : Option Bytes :=
  if src.length = 0 || destLen = 0 then none
  else ucs2toUtf8 (((cString src).take 255).map macRomanChar) destLen

/-- The Mac Roman byte of a character, `none` where there is none. -/
def macRomanByte (c : Nat) : Option UInt8 :=
  if c < 0x80 then some (UInt8.ofNat c)
  else if unicodeToMacRoman c = 0 then none
  else some (UInt8.ofNat (unicodeToMacRoman c))

def convertUtf8ToMacRoman (heap : Nat → Bool) (src : Bytes) (destLen : Nat) : Option Bytes :=
  if src.length = 0 || destLen = 0 || !ucs2BufferGet heap (src.length + 1) then none
  else
    match utf8toUcs2 src (src.length + 1) with
    | none => none
    | some d =>
      if d.substituted ≠ 0 || d.bytesConsumed ≠ src.length then none
      else d.chars.mapM macRomanByte

/-! ## Composing and decomposing -/

/-- The loop of `convert_utf8dec_to_utf8pre` after its first character: `prev` is what
the characters before compose to so far. -/
def precomposeFrom (prev : Nat) : List Nat → List Nat
  | [] => [prev]
  | c :: chars =>
    match ucs2precompose prev c with
    | some comp => precomposeFrom comp chars
    | none => prev :: precomposeFrom c chars

def precomposeAll : List Nat → List Nat
  | [] => []
  | c :: chars => precomposeFrom c chars

/-- `convert_utf8dec_to_utf8pre`: the string, and whether a sequence of the source was
replaced or cut, its return value 1. -/
def convertUtf8decToUtf8pre (heap : Nat → Bool) (src : Bytes) (destLen : Nat) :
    Option (Bytes × Bool) :=
  if src.length = 0 || destLen = 0 || !ucs2BufferGet heap (src.length + 1) then none
  else
    match utf8toUcs2 src (src.length + 1) with
    | none => none
    | some d =>
      if !ucs2BufferGet heap (d.chars.length + 1) then none
      else (ucs2toUtf8 (precomposeAll d.chars) destLen).map
        (·, d.substituted ≠ 0 || d.bytesConsumed ≠ src.length)

/-- `decompose_char`, to a depth. -/
def decomposeTo : Nat → Nat → List Nat
  | 0, c => [c]
  | depth + 1, c =>
    match ucs2decompose c with
    | some (first, second) => decomposeTo depth first ++ decomposeTo depth second
    | none => [c]

/-- `decompose_char`. No decomposition goes through an entry of the table twice, so
their number bounds its depth. -/
def decomposeChar (c : Nat) : List Nat := decomposeTo table.length c

def convertUtf8preToUtf8dec (heap : Nat → Bool) (src : Bytes) (destLen : Nat) : Option Bytes :=
  if src.length = 0 || destLen = 0 || !ucs2BufferGet heap (src.length + 1) then none
  else
    match utf8toUcs2 src (src.length + 1) with
    | none => none
    | some d =>
      if d.substituted ≠ 0 || d.bytesConsumed ≠ src.length
          || !ucs2BufferGet heap (d.chars.length * 4 + 1) then none
      else ucs2toUtf8 (d.chars.flatMap decomposeChar) destLen

/-! ## Names and paths -/

/-- The reverse of `unixpath_to_afppath` on a name: an AFP slash is a Unix colon. -/
def slashToColon (name : Name) : Name := name.map fun c => if c = slash then colon else c

def convertNameToUnix (heap : Nat → Bool) (encoding : PathEncoding) (src : Name) (destLen : Nat) :
    Option Name :=
  if destLen = 0 || intMax < src.length || intMax < destLen then none
  else
    let converted :=
      match encoding with
      | .utf8Name =>
        if utf8IsAscii src then copyIdentity src destLen
        else
          match copyIfSupplementaryUtf8 src destLen with
          | none => none
          | some copied =>
            let dest := copied.getD []
            if dest.isEmpty && 0 < src.length then
              (convertUtf8decToUtf8pre heap src destLen).map Prod.fst
            else some dest
      | .longName => some ((convertMacRomanToUtf8 src destLen).getD [])
    converted.map slashToColon

/-- `convert_path_to_unix`: what it leaves in the buffer. -/
def convertPathToUnix (heap : Nat → Bool) (encoding : PathEncoding) (src : Path) (destLen : Nat) :
    Path :=
  (convertNameToUnix heap encoding (src.take destLen) destLen).getD []

def convertPathToAfp (heap : Nat → Bool) (encoding : PathEncoding) (src : Path) (destLen : Nat) :
    Option Path :=
  if destLen = 0 || destLen ≤ src.length then none
  else
    match encoding with
    | .utf8Name =>
      if utf8IsAscii src then copyIdentity src destLen
      else
        match copyIfSupplementaryUtf8 src destLen with
        | none => none
        | some (some dest) => if utf8DecodesWhole heap src then some dest else none
        | some none => if 0 < src.length then convertUtf8preToUtf8dec heap src destLen else some []
    | .longName =>
      let converted :=
        if utf8IsAscii src then copyIdentity src destLen
        else if containsSupplementaryUtf8 src then none
        else convertUtf8ToMacRoman heap src destLen
      -- the length field of a long name has 8 bits
      converted.filter (·.length ≤ 255)

def convertPathToAfpAlloc (heap : Nat → Bool) (encoding : PathEncoding) (path : Path) :
    Except Int Path :=
  if maxUtf8PathBytes < path.length then .error (-ENAMETOOLONG)
  else
    let convertedLen := path.length * 4 + 1
    if !heap convertedLen then .error (-ENOMEM)
    else
      match convertPathToAfp heap encoding path convertedLen with
      | none => .error (-EINVAL)
      | some converted =>
        if maxUtf8PathBytes < converted.length then .error (-ENAMETOOLONG) else .ok converted

theorem convertPathToAfpAlloc_neg {heap : Nat → Bool} {encoding : PathEncoding} {path : Path} {e : Int}
    (h : convertPathToAfpAlloc heap encoding path = .error e) : e < 0 := by
  unfold convertPathToAfpAlloc at h
  split at h
  · cases h
    decide
  dsimp only at h
  split at h
  · cases h
    decide
  split at h
  · cases h
    decide
  split at h
  · cases h
    decide
  · cases h

/-- A volume with the conversions of its encoding, which have the memory `heap` gives. -/
def codepageVolume (heap : Nat → Bool) (encoding : PathEncoding) (attributes extraFlags : Nat) :
    Volume where
  attributes := attributes
  extraFlags := extraFlags
  pathEncoding := encoding
  convertPath := convertPathToAfpAlloc heap encoding
  nameToUnix name := convertNameToUnix heap encoding name maxNameBytes
  convertPath_neg _ _ := convertPathToAfpAlloc_neg

end NC
