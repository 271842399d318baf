import NetatalkClient.Model.Dsi.Receive
import NetatalkClient.Model.Names.Codepage
import NetatalkClient.Model.Pascal
import NetatalkClient.Model.ReplyBlock

/-!
# Handlers of replies

The functions that read the server's parameters and the pages of a listing from the receive buffer
into their structures. Each is given the buffer and the size of the frame at its
start. What the frame does not fill of the buffer holds bytes of earlier, longer frames.
-/

namespace NC

/-- What a handler finds outside the buffer and its structures: the allocator, and the clock. -/
structure ReplyEnv where
  heap : Nat → Bool
  calloc : Bool
  now : Int

/-- The result code of the header in the byte order it has there. -/
def rawErrorCode (header : Bytes) : Int :=
  let code := leNat ((header.drop 4).take 4)
  if code < 2 ^ 31 then code else code - 2 ^ 32

/-! ## Volumes -/

abbrev volumeNameUtf8Len : Nat := 255

/-- What the reply to FPGetSrvrParms fills of `struct afp_volume`. -/
structure VolumeRecord where
  flags : UInt8 := 0
  volumeName : Bytes := List.replicate volumeNameUtf8Len 0
  volumeNamePrintable : Bytes := []
  deriving DecidableEq, Repr

/-- The printable form of a volume's name. Only the conversion from Mac Roman leaves the buffer as it
is for an empty name. -/
def printableName (heap : Nat → Bool) (isUtf8 : Bool) (name old : Bytes) : Bytes :=
  if isUtf8 then ((convertUtf8decToUtf8pre heap name volumeNameUtf8Len).map Prod.fst).getD []
  else if name = [] then old
  else (convertMacRomanToUtf8 name volumeNameUtf8Len).getD []

/-! ## The server's parameters -/

/-- What a reply to FPGetSrvrParms fills of `struct afp_server`. -/
structure ServerParms where
  clock : ServerClock
  volumes : List VolumeRecord
  deriving DecidableEq, Repr

/-- The loop of `afp_getsrvrparms_reply` over `n` volumes; `none` is a reply that ends before. -/
def readVolumes (env : ReplyEnv) (avNumber msgEnd : Nat) : Nat → Nat → Reads (Option (List VolumeRecord))
  | 0, _ => return some []
  | n + 1, p => do
    if msgEnd ≤ p then return none
    let flags ← Reads.byte p
    let (len, name) ← copyFromPascal volumeNameUtf8Len (p + 1) []
    let vol : VolumeRecord := { flags := flags, volumeName := name }
    let printable := printableName env.heap (30 ≤ avNumber) (cString name) vol.volumeNamePrintable
    let rest ← readVolumes env avNumber msgEnd n (p + 1 + (len + 1))
    return rest.map ({ vol with volumeNamePrintable := printable } :: ·)

abbrev getsrvrparmsHeaderSize : Nat := 21

def getsrvrparmsReply (env : ReplyEnv) (size : Nat) (server : ServerParms) :
    Reads (Int × ServerParms) := do
  if size < getsrvrparmsHeaderSize then return (-1, server)
  let connectTime := afpDateToUnix none (← Reads.nat 16 4)
  let clock : ServerClock :=
    if server.clock.usesLocalTime then
      let offset := connectTime - env.now
      { server.clock with timeOffset := offset, connectTime := connectTime - offset }
    else { server.clock with connectTime := connectTime }
  let server := { server with clock := clock }
  let numvolumes := (← Reads.byte 20).toNat
  if !env.calloc ∧ 0 < numvolumes then return (-1, server)
  match ← readVolumes env clock.avNumber size numvolumes getsrvrparmsHeaderSize with
  | some volumes => return (0, { server with volumes := volumes })
  | none => return (-1, server)

/-! ## Listings -/

structure ListedParams extends Params where
  nameOff : Nat
  kind : MetaKind
  deriving DecidableEq, Repr

/-- `struct afp_listing`: the records up to `count` and the bytes of the pool up to `pool_used`. -/
structure DirListing where
  entries : List ListedParams
  capacity : Nat
  pool : Bytes
  poolCap : Nat
  deriving DecidableEq, Repr

abbrev listingMinEntries : Nat := 64

abbrev direntSize : Nat := 104

/-- `grown_array`: the new capacity. -/
def grownArray (heap : Nat → Bool) (cap need elem least : Nat) : Option Nat :=
  let capacity := min (max (max need (cap * 2)) least) ((2 ^ 32 - 1) / elem)
  if capacity < need then none
  else if heap (capacity * elem) then some capacity else none

/-- `afp_listing_reserve`: whether there is room, and the listing. -/
def DirListing.reserve (heap : Nat → Bool) (l : DirListing) (entries bytes : Nat) :
    Bool × DirListing :=
  let need := l.entries.length + entries
  let grown := if l.capacity < need
    then grownArray heap l.capacity need direntSize listingMinEntries else some l.capacity
  match grown with
  | none => (false, l)
  | some capacity =>
    let l := { l with capacity := capacity }
    let need := l.pool.length + bytes
    let grown := if l.poolCap < need then grownArray heap l.poolCap need 1 0 else some l.poolCap
    match grown with
    | none => (false, l)
    | some poolCap => (true, { l with poolCap := poolCap })

/-- `afp_listing_commit` of a record and its name. -/
def DirListing.commit (l : DirListing) (e : Params) (name : Name) : DirListing :=
  { l with
    entries := l.entries ++ [{ e with nameOff := l.pool.length, kind := .none }]
    pool := l.pool ++ name ++ [0] }

/-- The size of an entry's header, `reply_entry` or `ext2_reply_entry`. -/
def entryHeaderSize (ext : Bool) : Nat := if ext then 4 else 2

/-- The size of an entry, and whether it is a directory's. -/
def entryHeader (ext : Bool) (p : Nat) : Reads (Nat × Bool) := do
  if ext then
    let size ← Reads.nat p 2
    return (size, (← Reads.byte (p + 2)) ≠ 0)
  else
    let size ← Reads.byte p
    return (size.toNat, (← Reads.byte (p + 1)) ≠ 0)

/-- The loop of `enumerate_reply` over `n` entries: whether all are read, and the listing. -/
def enumerateEntries (env : ReplyEnv) (server : ServerClock) (ext : Bool)
    (filebitmap dirbitmap stop : Nat) : Nat → Nat → DirListing → Reads (Bool × DirListing)
  | 0, _, l => return (true, l)
  | n + 1, p, l => do
    let header := entryHeaderSize ext
    if stop - p < header then return (false, l)
    let (entrySize, isdir) ← entryHeader ext p
    if entrySize < header ∨ stop - p < entrySize then return (false, l)
    let (room, l) := l.reserve env.heap 1 maxNameBytes
    if !room then return (false, l)
    let (rc, e, name) ← parseReplyBlock env.heap server (p + header) (entrySize - header) isdir
      filebitmap dirbitmap (some []) maxNameBytes
    if rc < 0 then return (false, l)
    enumerateEntries env server ext filebitmap dirbitmap stop n (p + entrySize)
      (l.commit e (name.getD []))

abbrev enumerateReplySize : Nat := 22

def enumerateReply (env : ReplyEnv) (server : ServerClock) (ext : Bool) (size : Nat)
    (l : DirListing) : Reads (Int × DirListing) := do
  if size < dsiHeaderSize then return (-1, l)
  let code := rawErrorCode (← Reads.bytes 0 dsiHeaderSize)
  if code ≠ 0 then return (code, l)
  if size < enumerateReplySize then return (-1, l)
  let filebitmap ← Reads.nat 16 2
  let dirbitmap ← Reads.nat 18 2
  let reqcount ← Reads.nat 20 2
  let (done, l') ← enumerateEntries env server ext filebitmap dirbitmap size reqcount
    enumerateReplySize l
  if done then return (0, l')
  return (-1, { l' with
    entries := l'.entries.take l.entries.length
    pool := l'.pool.take l.pool.length })

end NC
