import NetatalkClient.Model.Midlevel.Requests
import NetatalkClient.Model.Names.Codepage

/-!
# Parameter blocks

`parse_reply_block` (`proto_replyblock.c`) reads the parameters that a bitmap announces from a block
of a reply into a record, and the object's name into a buffer of the caller. Every parameter is
checked against the end of the block before it is read; a block that is too short ends the parse,
with the record as far as it was filled.

`Parse` is such code: it reads the receive buffer, keeps a `Block`, and may give up.
-/

namespace NC

/-! ## Dates -/

/-- What a server's dates are read with: the number of the version in use, which a session has from
its login on, and the two times that a reply to FPGetSrvrParms sets. -/
structure ServerClock where
  avNumber : Nat
  timeOffset : Int
  connectTime : Int
  deriving DecidableEq, Repr

def ServerClock.usesLocalTime (server : ServerClock) : Bool := server.avNumber < 30

abbrev adDateDelta : Int := 946684800

/-- `afp_date_to_unix`, of a date in the host's byte order. -/
def afpDateToUnix (server : Option ServerClock) (date : Nat) : Int :=
  let seconds : Int := if date &&& 0x80000000 ≠ 0 then date - 0x100000000 else date
  let seconds := seconds + adDateDelta
  match server with
  | some server => if server.usesLocalTime then seconds - server.timeOffset else seconds
  | none => seconds

/-- `afp_date_from_unix`, a date in the host's byte order. -/
def afpDateFromUnix (server : Option ServerClock) (date : Int) : Nat :=
  let seconds : Int := if date > 2 ^ 32 then 2 ^ 32 else if date < -2 ^ 32 then -2 ^ 32 else date
  let seconds := seconds - adDateDelta
  let seconds := match server with
    | some server => if server.usesLocalTime then seconds + server.timeOffset else seconds
    | none => seconds
  let seconds : Int := if seconds > 2 ^ 31 - 1 then 2 ^ 31 - 1
    else if seconds ≤ -2 ^ 31 then -2 ^ 31 + 1 else seconds
  (seconds % 2 ^ 32).toNat

/-! ## Steps of the parse -/

abbrev kFPBackupDateBit : Nat := 0x10
abbrev kFPAccessRightsBit : Nat := 0x1000
abbrev kFPLaunchLimitBit : Nat := 0x1000

/-- A block while it is parsed: the position of the next parameter, the record, and the string in
the caller's buffer if there is one. -/
structure Block where
  p2 : Nat
  e : Params
  name : Option Name
  deriving DecidableEq, Repr

abbrev Parse := ExceptT Unit (StateT Block Reads)

def Parse.read {α : Type} (r : Reads α) : Parse α := fun s => return (.ok (← r), s)

def Parse.store (f : Params → Params) : Parse Unit := modify fun s => { s with e := f s.e }

/-- What is done for a parameter that the bitmap announces. -/
def Parse.whenBit (bitmap bit : Nat) (x : Parse Unit) : Parse Unit :=
  if bitmap &&& bit ≠ 0 then x else pure ()

def needBytes (p stop len : Nat) : Bool := decide (p ≤ stop) && decide (len ≤ stop - p)

/-- The bytes of the next parameter, checked against the end of the block. -/
def parseBytes (stop len : Nat) : Parse Bytes := do
  let s ← get
  if needBytes s.p2 stop len then
    let b ← Parse.read (Reads.bytes s.p2 len)
    set { s with p2 := s.p2 + len }
    return b
  else throw ()

/-- A parameter of `width` bytes that is a number. -/
def parseUint (width stop bit : Nat) : Parse Nat := do
  let v := beNat (← parseBytes stop width)
  Parse.store fun e => { e with valid := e.valid ||| bit }
  return v

def parseU16 : Nat → Nat → Parse Nat := parseUint 2

def parseU32 : Nat → Nat → Parse Nat := parseUint 4

def parseU64 : Nat → Nat → Parse Nat := parseUint 8

/-- `parse_date`, with what becomes of a date that is set. -/
def parseDate (server : ServerClock) (stop bit : Nat) (ns : Int → Params → Params) : Parse Unit := do
  let date := beNat (← parseBytes stop 4)
  if date ≠ 0x80000000 then
    Parse.store fun e =>
      { ns (afpNsFromSec (afpDateToUnix (some server) date)) e with valid := e.valid ||| bit }
  else pure ()

def skipBytes (stop len : Nat) : Parse Unit := do
  let s ← get
  if needBytes s.p2 stop len then set { s with p2 := s.p2 + len } else throw ()

/-- `locate_pascal`: where a string of the block starts, and its length. -/
def locatePascal (base size offset : Nat) : Parse (Nat × Nat) := do
  if size ≤ offset then throw ()
  else
    let len := (← Parse.read (Reads.byte (base + offset))).toNat
    if needBytes (base + offset + 1) (base + size) len then return (base + offset + 1, len)
    else throw ()

def locateAfpname (base size offset : Nat) : Parse (Nat × Nat) := do
  if size < offset ∨ size - offset < 6 then throw ()
  else
    let len ← Parse.read (Reads.nat (base + offset + 4) 2)
    if needBytes (base + offset + 6) (base + size) len then return (base + offset + 6, len)
    else throw ()

def storeName (heap : Nat → Bool) (encoding : PathEncoding) (nameLen : Nat) (src : Nat × Nat) :
    Parse Unit := do
  let s ← get
  match s.name with
  | none => pure ()
  | some _ =>
    match convertNameToUnix heap encoding (← Parse.read (Reads.bytes src.1 src.2)) nameLen with
    | some name => set { s with name := some name }
    | none => throw ()

/-! ## The parse -/

def commonFields (heap : Nat → Bool) (server : ServerClock) (base size bitmap nameLen : Nat) :
    Parse Unit := do
  let stop := base + size
  .whenBit bitmap kFPAttributeBit do
    let v ← parseU16 stop kFPAttributeBit
    .store fun e => { e with attributes := v }
  .whenBit bitmap kFPParentDirIDBit do
    let v ← parseU32 stop kFPParentDirIDBit
    .store fun e => { e with parentDid := v }
  .whenBit bitmap kFPCreateDateBit
    (parseDate server stop kFPCreateDateBit fun ns e => { e with createNs := ns })
  .whenBit bitmap kFPModDateBit
    (parseDate server stop kFPModDateBit fun ns e => { e with modNs := ns })
  .whenBit bitmap kFPBackupDateBit (skipBytes stop 4)
  .whenBit bitmap kFPFinderInfoBit do
    let b ← parseBytes stop 32
    .store fun e => { e with finderinfo := b, valid := e.valid ||| kFPFinderInfoBit }
  .whenBit bitmap kFPLongNameBit do
    let offset ← parseU16 stop kFPLongNameBit
    let src ← locatePascal base size offset
    storeName heap .longName nameLen src
  .whenBit bitmap kFPShortNameBit (skipBytes stop 2)
  .whenBit bitmap kFPNodeIDBit do
    let v ← parseU32 stop kFPNodeIDBit
    .store fun e => { e with cnid := v }

def dirFields (stop bitmap : Nat) : Parse Unit := do
  .whenBit bitmap kFPOffspringCountBit do
    let v ← parseU16 stop kFPOffspringCountBit
    .store fun e => { e with offspring := v }
  .whenBit bitmap kFPOwnerIDBit do
    let v ← parseU32 stop kFPOwnerIDBit
    .store fun e => { e with uid := v }
  .whenBit bitmap kFPGroupIDBit do
    let v ← parseU32 stop kFPGroupIDBit
    .store fun e => { e with gid := v }
  .whenBit bitmap kFPAccessRightsBit (skipBytes stop 4)

def fileFields (stop bitmap : Nat) : Parse Unit := do
  .whenBit bitmap kFPDataForkLenBit do
    let v ← parseU32 stop kFPDataForkLenBit
    .store fun e => { e with size := v }
  .whenBit bitmap kFPRsrcForkLenBit do
    let v ← parseU32 stop kFPRsrcForkLenBit
    .store fun e => { e with resourcesize := v }
  .whenBit bitmap kFPExtDataForkLenBit do
    let v ← parseU64 stop kFPExtDataForkLenBit
    .store fun e => { e with size := v }
  .whenBit bitmap kFPLaunchLimitBit (skipBytes stop 2)

def lastFields (heap : Nat → Bool) (base size bitmap nameLen : Nat) : Parse Unit := do
  let stop := base + size
  .whenBit bitmap kFPUTF8NameBit do
    let offset ← parseU16 stop kFPUTF8NameBit
    -- the text encoding hint
    skipBytes stop 4
    let src ← locateAfpname base size offset
    storeName heap .utf8Name nameLen src
  .whenBit bitmap kFPExtRsrcForkLenBit do
    let v ← parseU64 stop kFPExtRsrcForkLenBit
    .store fun e => { e with resourcesize := v }
  .whenBit bitmap kFPUnixPrivsBit do
    let b ← parseBytes stop 16
    .store fun e => { e with
      uid := beNat (b.take 4)
      gid := beNat ((b.drop 4).take 4)
      permissions := beNat ((b.drop 8).take 4)
      uaPermissions := beNat ((b.drop 12).take 4)
      valid := e.valid ||| kFPUnixPrivsBit }

def clearedParams (isdir : Bool) : Params := { isdir := isdir, finderinfo := List.replicate 32 0 }

/-- `parse_reply_block`: the result, the record, and the string in the caller's buffer. -/
def parseReplyBlock (heap : Nat → Bool) (server : ServerClock) (base size : Nat) (isdir : Bool)
    (filebitmap dirbitmap : Nat) (name : Option Name) (nameLen : Nat) :
    Reads (Int × Params × Option Name) := do
  let bitmap := if isdir then dirbitmap else filebitmap
  let fields : Parse Unit := do
    commonFields heap server base size bitmap nameLen
    (if isdir then dirFields (base + size) bitmap else fileFields (base + size) bitmap)
    lastFields heap base size bitmap nameLen
  let (r, s) ← fields
    ⟨base, clearedParams isdir, name.map fun name => if 0 < nameLen then [] else name⟩
  return (match r with | .ok _ => 0 | .error _ => -1, s.e, s.name)

end NC
