import NetatalkClient.Model.Midlevel.Requests

/-!
# Open forks

The functions of `forklist.c` and those of `lowlevel.c` that open, read, write
and size a fork, with `ml_fsync` and `ml_close_flush` of `midlevel.c`. A loop
over a transfer has its remaining bytes as its bound, as each turn moves one or
more.
-/

namespace NC

/-! ## Flags and limits -/

abbrev O_ACCMODE : Nat := 3
abbrev O_RDONLY : Nat := 0
abbrev O_WRONLY : Nat := 1
abbrev O_RDWR : Nat := 2
abbrev O_CREAT : Nat := 0x40
abbrev O_EXCL : Nat := 0x80
abbrev O_TRUNC : Nat := 0x200
abbrev O_APPEND : Nat := 0x400
abbrev O_SYNC : Nat := 0x101000

abbrev AFP_OPENFORK_ALLOWREAD : Nat := 1
abbrev AFP_OPENFORK_ALLOWWRITE : Nat := 2

abbrev maxAfp2Filesize : Nat := 2147483647

abbrev intMax31 : Nat := 2147483647

def uint64 (offset : Int) : Nat := (offset % 2 ^ 64).toNat

/-- A place or a length as the requests of the protocol's version carry it: AFP 2 has 32 bits for it. -/
def ServedVolume.wireCount (vol : ServedVolume) (n : Nat) : Nat :=
  if vol.avNumber < 30 then n % 2 ^ 32 else n

def forkLengthBit (vol : ServedVolume) (resource : Bool) : Nat :=
  if vol.avNumber < 30 then if resource then kFPRsrcForkLenBit else kFPDataForkLenBit
  else if resource then kFPExtRsrcForkLenBit else kFPExtDataForkLenBit

/-! ## The list of open forks -/

def addOpenedFork (fp : Nat) : MlCall Unit :=
  .modify fun s => { s with openForks := fp :: s.openForks }

def removeOpenedFork (fp : Nat) : MlCall Unit :=
  .modify fun s => { s with openForks := s.openForks.erase fp }

def namesFile (p : FileInfo) (did : Nat) (basename : Name) : Bool :=
  p.did == did && p.basename == basename

/-- The first walk of `flush_dirty_forks_for_file`: the dirty forks of the file's
kind other than `fp`, as far as `reallocs` finds room for their records, each
clean from here on. `capacity` and `k` are the room so far and the reallocations
made. -/
def collectDirty (reallocs : Nat → Bool) (fp : Nat) :
    List Nat → List FileInfo → Nat → Nat → (Nat → FileInfo) → List FileInfo × (Nat → FileInfo)
  | [], records, _, _, file => (records, file)
  | p :: ps, records, capacity, k, file =>
    let f := file fp
    if p = fp || !(file p).writable || !(file p).dirty || (file p).resource != f.resource
        || !namesFile (file p) f.did f.basename then
      collectDirty reallocs fp ps records capacity k file
    else if records.length < capacity then
      collectDirty reallocs fp ps (records ++ [file p]) capacity k
        (Function.update file p { file p with dirty := false })
    else if reallocs k then
      collectDirty reallocs fp ps (records ++ [file p]) (if capacity = 0 then 4 else capacity * 2)
        (k + 1) (Function.update file p { file p with dirty := false })
    else collectDirty reallocs fp ps records capacity (k + 1) file

/-- A fork whose flush failed is dirty again, if it is still open. -/
def markDirty (r : FileInfo) (s : MlState) : MlState :=
  match s.openForks.find? fun p => (s.file p).forkid == r.forkid
      && (s.file p).resource == r.resource && namesFile (s.file p) r.did r.basename with
  | some p => { s with file := Function.update s.file p { s.file p with dirty := true } }
  | none => s

/-- The second walk of `flush_dirty_forks_for_file`. -/
def flushRecords : List FileInfo → MlCall Unit
  | [] => return
  | r :: rs => do
    let rc ← Ml.afpFlushfork r.forkid
    if rc ≠ kFPNoErr then .modify (markDirty r)
    flushRecords rs

def flushDirtyForksForFile (fp : Nat) : MlCall Unit := do
  let reallocs ← Ml.sys .reallocs
  let records ← .modifyGet fun s =>
    let (records, file) := collectDirty reallocs fp s.openForks [] 0 0 s.file
    (records, { s with file := file })
  flushRecords records

/-! ## Locks, lengths and results -/

def llHandleUnlocking (vol : ServedVolume) (forkid offset size : Nat) : MlCall Int := do
  if vol.hasFlag VOLUME_EXTRA_FLAGS_NO_LOCKING then return 0
  let rc ← Ml.afpByterangelock true forkid (vol.wireCount offset) (vol.wireCount size)
  return if rc = kFPNoErr then 0 else -1

def lockTries (forkid offset size : Nat) : Nat → MlCall Int
  | 0 => return 0
  | tries + 1 => do
    let rc ← Ml.afpByterangelock false forkid offset size
    if rc = kFPNoErr then return 0
    if rc = kFPNoMoreLocks ∨ rc = kFPLockErr then lockTries forkid offset size tries
    else return -1

def llHandleLocking (vol : ServedVolume) (forkid offset size : Nat) : MlCall Int :=
  if vol.hasFlag VOLUME_EXTRA_FLAGS_NO_LOCKING then return 0
  else lockTries forkid (vol.wireCount offset) (vol.wireCount size) 10

/-- `ll_setfork_size`: 0, or a positive errno. -/
def llSetforkSize (vol : ServedVolume) (forkid : Nat) (resource : Bool) (size : Nat) :
    MlCall Int := do
  if vol.avNumber < 30 ∧ maxAfp2Filesize < size then return EFBIG
  let rc ← Ml.afpSetforkparms forkid (forkLengthBit vol resource) size
  return if rc = kFPNoErr then 0
    else if rc = kFPAccessDenied then EACCES
    else if rc = kFPVolLocked then EROFS
    else if rc = kFPLockErr then EBUSY
    else if rc = kFPDiskFull then ENOSPC
    else EIO_

/-- The errno of an `FPCreateFile`, as `ll_createfile` returns it. -/
def createfileErrno (rc : Int) : Int :=
  if rc = kFPObjectExists ∨ rc = kFPObjectTypeErr then -EEXIST
  else if rc = kFPDiskFull then -ENOSPC
  else if rc = kFPFileBusy then -EBUSY
  else -llAnswerErrno rc

/-- `ll_createfile`: 0 for a file this call made, or a negative errno. -/
def llCreatefile (vol : ServedVolume) (did : Nat) (basename : Name) : MlCall Int := do
  let rc ← Ml.afpCreatefile vol did basename
  return createfileErrno rc

def llOpenforkErrno (rc : Int) : Int :=
  if rc = kFPNoErr then 0
  else if rc = kFPAccessDenied ∨ rc = kFPLockErr then EACCES
  else if rc = kFPObjectNotFound then ENOENT
  else if rc = kFPObjectLocked then EPERM
  else if rc = kFPVolLocked then EROFS
  else if rc = kFPObjectTypeErr then EISDIR
  else if rc = kFPTooManyFilesOpen then EMFILE
  else if rc = kFPDenyConflict then EBUSY
  else if rc = ETIMEDOUT then ETIMEDOUT
  else EIO_

/-! ## Opening -/

/-- The parameters that `afp_openfork_reply` stores in the record. -/
def OpenReply.store (r : OpenReply) (f : FileInfo) : FileInfo :=
  { f with forkid := r.forkid, cnid := r.cnid.getD f.cnid, size := r.size.getD f.size }

/-- `afp_openfork` into the record at `fp`. -/
def openforkInto (vol : ServedVolume) (resource : Bool) (did accessmode bitmap : Nat)
    (name : Name) (fp : Nat) : MlCall Int := do
  let (rc, reply) ← Ml.afpOpenfork vol resource did accessmode bitmap name
  if rc = kFPNoErr ∨ rc = kFPDenyConflict then Ml.modifyFile fp reply.store
  return rc

/-- The access mode that `ll_open` asks for: a write open reads too. -/
def accessMode (flags : Nat) : Nat :=
  if flags &&& O_ACCMODE = O_RDONLY then AFP_OPENFORK_ALLOWREAD
  else if flags &&& O_ACCMODE = O_WRONLY ∨ flags &&& O_ACCMODE = O_RDWR then
    AFP_OPENFORK_ALLOWREAD ||| AFP_OPENFORK_ALLOWWRITE
  else 0

/-- The end of an `ll_open` that fails: a file it made is deleted. -/
def llOpenFail (vol : ServedVolume) (f : FileInfo) (created : Bool) (ret : Int) : MlCall Int := do
  if created then
    let _ ← Ml.afpDelete vol f.did f.basename
    return -ret
  else return -ret

/-- The create of `ll_open`: whether this call made the file, or a negative errno. -/
def llOpenCreate (vol : ServedVolume) (flags : Nat) (f : FileInfo) : MlCall (Except Int Bool) := do
  if flags &&& O_CREAT = 0 then return .ok false
  let rc ← llCreatefile vol f.did f.basename
  if rc = 0 then return .ok true
  if rc ≠ -EEXIST ∨ flags &&& O_EXCL ≠ 0 then return .error rc
  return .ok false

/-- AFP 2's query for the fork's length, before `ll_open` opens: 0, or a positive
errno. -/
def llOpenQuery (vol : ServedVolume) (fp : Nat) (f : FileInfo) : MlCall Int := do
  if 30 ≤ vol.avNumber then return 0
  let resource := f.resource != .none
  let (rc, entry) ←
    Ml.afpGetfiledirparms vol f.did (kFPNodeIDBit ||| forkLengthBit vol resource) 0 f.basename
  let ret := llAnswerErrno rc
  if ret ≠ 0 then return ret
  if entry.isdir then return EISDIR
  Ml.modifyFile fp fun f =>
    { f with size := if resource then entry.resourcesize else entry.size, cnid := entry.cnid }
  return 0

/-- The end of `ll_open`, once the fork is open: an `O_TRUNC` of a file that was
there empties the fork. -/
def llOpenTruncate (vol : ServedVolume) (flags fp : Nat) (f : FileInfo) (created : Bool) :
    MlCall Int := do
  if flags &&& O_TRUNC = 0 ∨ created then return 0
  let opened ← Ml.getFile fp
  let ret ← llSetforkSize vol opened.forkid (f.resource != .none) 0
  if ret ≠ 0 then
    let _ ← Ml.afpClosefork opened.forkid
    removeOpenedFork fp
    llOpenFail vol f created ret
  else
    Ml.modifyFile fp fun f => { f with size := 0, dirty := true }
    return 0

/-- `ll_open` of the fork that the record at `fp` names: 0, or a negative errno. -/
def llOpen (vol : ServedVolume) (flags fp : Nat) : MlCall Int := do
  let f ← Ml.getFile fp
  let aflags := accessMode flags
  if aflags &&& AFP_OPENFORK_ALLOWWRITE ≠ 0 ∧ vol.isReadonly then return -EROFS
  match ← llOpenCreate vol flags f with
  | .error e => return e
  | .ok created =>
    let ret ← llOpenQuery vol fp f
    if ret ≠ 0 then return ← llOpenFail vol f created ret
    Ml.modifyFile fp fun f => { f with
      sync := flags &&& O_SYNC != 0, writable := aflags &&& AFP_OPENFORK_ALLOWWRITE != 0
      dirty := false }
    let bitmap := if f.resource = .none ∧ vol.reportsForkLength then
        kFPExtDataForkLenBit ||| (if vol.copiesFiles then kFPNodeIDBit else 0)
      else 0
    let rc ← openforkInto vol (f.resource != .none) f.did aflags bitmap f.basename fp
    if rc = kFPNoErr then
      addOpenedFork fp
      llOpenTruncate vol flags fp f created
    else
      -- an open without an answer may still be carried out, so its file stays
      llOpenFail vol f (created && llOpenforkErrno rc != ETIMEDOUT) (llOpenforkErrno rc)

/-! ## Reading -/

/-- `afp2_fork_reaches`: whether the fork reaches past the offset, or a negative
errno. -/
def afp2ForkReaches (vol : ServedVolume) (f : FileInfo) (offset : Nat) :
    MlCall (Except Int Bool) := do
  if f.size ≤ offset ∧ f.size < 2 ^ 32 - 1 then
    let (rc, now) ←
      Ml.afpGetfiledirparms vol f.did (forkLengthBit vol (f.resource != .none)) 0 f.basename
    if rc ≠ kFPNoErr then return .error (-llAnswerErrno rc)
    let length := if f.resource = .none then now.size else now.resourcesize
    return .ok (decide (offset < length) || decide (2 ^ 32 - 1 ≤ length))
  else return .ok true

/-- What a read returns: the bytes read with whether they reach the end, or a
negative errno. -/
abbrev ReadResult := Except Int (Bytes × Bool)

/-- The loop of `ll_read`, from the bytes read so far: a positive errno on failure. -/
def llReadLoop (vol : ServedVolume) (forkid offset size : Nat) : Nat → Bytes → MlCall ReadResult
  | 0, data => return .ok (data, false)
  | fuel + 1, data => do
    if size ≤ data.length then return .ok (data, false)
    let (rc, got) ← Ml.afpRead forkid (offset + data.length) (min vol.quantum (size - data.length))
    if rc = kFPAccessDenied then return .error EACCES
    if rc = kFPLockErr then return .error EBUSY
    if rc = kFPEOFErr then return .ok (data ++ got, true)
    if rc ≠ kFPNoErr then return .error EIO_
    if got = [] then return .ok (data, false)
    llReadLoop vol forkid offset size fuel (data ++ got)

/-- The requests of `ll_read` within the server's lock on the range. -/
def llReadLocked (vol : ServedVolume) (forkid offset size : Nat) : MlCall ReadResult := do
  if (← llHandleLocking vol forkid offset size) ≠ 0 then return .error (-EBUSY)
  match ← llReadLoop vol forkid offset size size [] with
  | .error e =>
    let _ ← llHandleUnlocking vol forkid offset size
    return .error (-e)
  | .ok (data, eof) =>
    if (← llHandleUnlocking vol forkid offset size) ≠ 0 then
      -- the error's exit unlocks once more
      let _ ← llHandleUnlocking vol forkid offset size
      return .error (-EIO_)
    else return .ok (data, eof)

/-- `ll_read` of the fork at `fp`. -/
def llRead (vol : ServedVolume) (size : Nat) (offset : Int) (fp : Nat) : MlCall ReadResult := do
  let f ← Ml.getFile fp
  if f.forkid = 0 then return .error (-EIO_)
  if size = 0 then return .ok ([], false)
  let size := min size intMax31
  if offset < 0 then return .error (-EINVAL)
  if vol.isApple then flushDirtyForksForFile fp
  if vol.quantum = 0 then return .error (-EIO_)
  let offset := offset.toNat
  if vol.avNumber < 30 then
    if maxAfp2Filesize < offset then
      match ← afp2ForkReaches vol f offset with
      | .error e => return .error e
      | .ok true => return .error (-EOVERFLOW)
      | .ok false => return .ok ([], true)
    else llReadLocked vol f.forkid offset (min size (maxAfp2Filesize - offset + 1))
  else llReadLocked vol f.forkid offset size

/-! ## Writing -/

/-- The errno of an `FPWrite`. -/
def writeErrno (rc : Int) : Int :=
  if rc = kFPNoErr then 0
  else if rc = kFPAccessDenied then EACCES
  else if rc = kFPDiskFull then ENOSPC
  else if rc = kFPLockErr then EBUSY
  else EIO_

/-- The loop of `ll_write`, from the bytes written so far: 0 or a positive errno,
with the bytes written. The reply carries the fork's offset after the write; it is compared with the
offset in 64 bits, whatever the request had room for. -/
def llWriteLoop (vol : ServedVolume) (forkid offset fp : Nat) (data : Bytes) :
    Nat → Nat → MlCall (Int × Nat)
  | 0, total => return (0, total)
  | fuel + 1, total => do
    if data.length ≤ total then return (0, total)
    let sizetowrite := min vol.quantum (data.length - total)
    let writeOffset := (offset + total) % 2 ^ 64
    let (rc, replyOffset) ←
      Ml.afpWrite forkid (vol.wireCount writeOffset) ((data.drop total).take sizetowrite)
    if writeErrno rc ≠ 0 then return (writeErrno rc, total)
    if replyOffset ≤ writeOffset ∨ sizetowrite < replyOffset - writeOffset then return (EIO_, total)
    Ml.modifyFile fp fun f => { f with dirty := true }
    llWriteLoop vol forkid offset fp data fuel (total + (replyOffset - writeOffset))

/-- `ll_write` to the fork at `fp`: 0 or a negative errno, with the bytes written. -/
def llWrite (vol : ServedVolume) (data : Bytes) (offset : Int) (fp : Nat) : MlCall (Int × Nat) := do
  let f ← Ml.getFile fp
  if f.forkid = 0 then return (-EIO_, 0)
  if vol.quantum = 0 then return (-EIO_, 0)
  let offset := uint64 offset
  -- The sum is one of 64 bits: a negative offset may bring it back below the limit.
  if vol.avNumber < 30 ∧ maxAfp2Filesize < (offset + data.length) % 2 ^ 64 then return (-EFBIG, 0)
  if (← llHandleLocking vol f.forkid offset data.length) ≠ 0 then return (-EBUSY, 0)
  let (err, total) ← llWriteLoop vol f.forkid offset fp data data.length 0
  let unlocked ← llHandleUnlocking vol f.forkid offset data.length
  if err ≠ 0 then return (-err, total)
  if unlocked ≠ 0 then
    let _ ← llHandleUnlocking vol f.forkid offset data.length
    return (-EIO_, total)
  else return (0, total)

/-! ## Flushing -/

/-- `ml_fsync` of the fork at `fp`. -/
def mlFsync (vol : ServedVolume) (fp : Nat) : MlCall Int := do
  let f ← Ml.getFile fp
  if f.resource ≠ .none ∧ f.resource ≠ .resource then return 0
  if f.forkid = 0 then return -EIO_
  Ml.modifyFile fp fun f => { f with dirty := false }
  let rc ← if 31 ≤ vol.avNumber then Ml.afpSyncfork f.forkid else pure kFPCallNotSupported
  let rc ← if rc = kFPCallNotSupported then Ml.afpFlushfork f.forkid else pure rc
  if rc = kFPNoErr then return 0
  if f.dirty then Ml.modifyFile fp fun f => { f with dirty := true }
  return if rc = kFPAccessDenied then -EACCES else -EIO_

def mlCloseFlush (vol : ServedVolume) (fp : Nat) : MlCall Int := do
  let f ← Ml.getFile fp
  if !f.dirty || !vol.hasFlag VOLUME_EXTRA_FLAGS_FLUSH_ON_CLOSE then return 0
  mlFsync vol fp

end NC
