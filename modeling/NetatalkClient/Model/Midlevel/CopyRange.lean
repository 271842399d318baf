import NetatalkClient.Model.Midlevel.Objects

/-!
# Copying between forks

`ml_copy_range` of `midlevel.c`: a whole data fork is copied on the server with
`FPCopyFile`, whose copy takes the place of the destination's empty file, and what
does not qualify goes through the client. `remove_fork_list` of `forklist.c` closes
what is open at unmount.
-/

namespace NC

abbrev kFPWriteInhibitBit : Nat := 0x20
abbrev kFPRenameInhibitBit : Nat := 0x80
abbrev kFPDeleteInhibitBit : Nat := 0x100

abbrev kUserCanRead : Nat := 0x02000000
abbrev kUserCanWrite : Nat := 0x04000000

abbrev copyOffloadMinBytes : Nat := 512 * 1024

abbrev copyOffloadMaxBytes : Nat := 1024 * 1024 * 1024

abbrev copyQuantaPerCall : Nat := 16

abbrev copyInhibitAttributes : Nat :=
  kFPWriteInhibitBit ||| kFPRenameInhibitBit ||| kFPDeleteInhibitBit

def otherForkOpen (fp : Nat) : MlCall Bool :=
  .modifyGet fun s => (s.openForks.any fun p =>
    p != fp && namesFile (s.file p) (s.file fp).did (s.file fp).basename, s)

/-- `fork_still_named`: the parameters of the file at the fork's name, if it is the
file that the fork's open reported. -/
def forkStillNamed (vol : ServedVolume) (fp bitmap : Nat) : MlCall (Option Params) := do
  let f ← Ml.getFile fp
  if f.cnid = 0 then return none
  let (rc, params) ← Ml.afpGetfiledirparms vol f.did (bitmap ||| kFPNodeIDBit) 0 f.basename
  return if rc = kFPNoErr ∧ params.cnid = f.cnid then some params else none

/-! ## On the server -/

def copyLostFork (fp : Nat) : MlCall Int := do
  removeOpenedFork fp
  Ml.modifyFile fp fun f => { f with forkid := 0 }
  return -EIO_

/-- The delete of the destination and the copy: whether it was deleted, and the last
answer. -/
def replaceDestination (vol : ServedVolume) (fIn fOut : FileInfo) : MlCall (Bool × Int) := do
  let rc ← Ml.afpDelete vol fOut.did fOut.basename
  if rc = kFPNoErr then
    let rc ← Ml.afpCopyfile vol fIn.did fIn.basename fOut.did fOut.basename
    return (true, rc)
  else return (false, rc)

/-- The create that follows a delete or a copy without success: whether the name held
a file already, or `none` for an answer that leaves it open. -/
def ensureDestination (vol : ServedVolume) (fOut : FileInfo) (rc : Int) :
    MlCall (Option Bool) := do
  if rc = kFPNoErr then return some false
  let made ← Ml.afpCreatefile vol fOut.did fOut.basename
  return if made = kFPNoErr then some false
    else if made = kFPObjectExists then some true
    else none

/-- A new file at the name takes the destination's mode, and a copy the time. -/
def setCopyParms (vol : ServedVolume) (fOut : FileInfo) (dst : Params) (copied : Bool) :
    MlCall Unit := do
  let t ← if copied then Ml.sys .now else pure 0
  let bitmap := (if dst.permissions ≠ 0 then kFPUnixPrivsBit else 0) |||
    (if copied then kFPModDateBit else 0)
  if bitmap ≠ 0 then
    let _ ← Ml.afpSetfiledirparms vol fOut.did fOut.basename bitmap
      (if copied then { dst with modNs := afpNsFromSec t } else dst)

/-- `copy_into_destination`, once the destination's fork is open again. -/
def copyReopened (vol : ServedVolume) (fpOut : Nat) (src dst : Params) (deleted found : Bool)
    (rc : Int) : MlCall Int := do
  let f ← Ml.getFile fpOut
  -- a copy whose answer was late
  let late := found && deleted && rc == ETIMEDOUT && f.size == src.size
  if found && !late && (deleted || f.cnid != dst.cnid) then
    let _ ← Ml.afpClosefork f.forkid
    copyLostFork fpOut
  else
    let copied := late || rc == kFPNoErr
    if deleted || !found then setCopyParms vol f dst copied
    if !copied then return 0
    Ml.modifyFile fpOut fun f => { f with dirty := true }
    return src.size

/-- `copy_into_destination`: the bytes copied, 0 without a copy, or `-EIO`. -/
def copyIntoDestination (vol : ServedVolume) (fpIn fpOut : Nat) (src dst : Params) :
    MlCall Int := do
  let fIn ← Ml.getFile fpIn
  let fOut ← Ml.getFile fpOut
  let closed ← Ml.afpClosefork fOut.forkid
  if closed ≠ kFPNoErr then return ← copyLostFork fpOut
  Ml.modifyFile fpOut fun f => { f with forkid := 0 }
  let (deleted, rc) ← replaceDestination vol fIn fOut
  match ← ensureDestination vol fOut rc with
  | none => copyLostFork fpOut
  | some found =>
    Ml.modifyFile fpOut fun f => { f with cnid := 0 }
    let opened ← openforkInto vol false fOut.did (AFP_OPENFORK_ALLOWREAD ||| AFP_OPENFORK_ALLOWWRITE)
      (kFPNodeIDBit ||| kFPExtDataForkLenBit) fOut.basename fpOut
    if opened ≠ kFPNoErr then copyLostFork fpOut
    else copyReopened vol fpOut src dst deleted found rc

/-- The cap of `copy_range_on_server`. -/
def copyCap (vol : ServedVolume) : Nat :=
  if vol.dropsLongCommands then copyOffloadMaxBytes else 2 ^ 64 - 1

/-- Whether two forks and a range qualify for the server's copy, before it is asked. -/
def copyQualifies (vol : ServedVolume) (fIn : FileInfo) (offIn : Int) (fOut : FileInfo)
    (offOut : Int) (len : Nat) : Bool :=
  fIn.resource == .none && fOut.resource == .none && fIn.forkid != 0 && fOut.forkid != 0
    && fOut.created && fOut.size == 0 && offIn == 0 && offOut == 0
    && decide (copyOffloadMinBytes ≤ len) && decide (len ≤ copyCap vol) && vol.copiesFiles

/-- What `copy_range_on_server` asks of the source. -/
def copySourceFits (vol : ServedVolume) (src : Params) (len : Nat) : Bool :=
  src.size == len && decide (src.resourcesize ≤ copyCap vol - src.size)
    && src.attributes &&& copyInhibitAttributes == 0

/-- What it asks of the destination. -/
def copyDestinationFits (vol : ServedVolume) (dst : Params) : Bool :=
  dst.size == 0 && dst.resourcesize == 0
    && (!vol.hasFlag VOLUME_EXTRA_FLAGS_VOL_SUPPORTS_UNIX
      || clearBits (kUserCanRead ||| kUserCanWrite) dst.uaPermissions == 0)

/-- `copy_range_on_server`: the bytes copied, 0 without a copy, or `-EIO`. -/
def copyRangeOnServer (vol : ServedVolume) (fpIn : Nat) (offIn : Int) (fpOut : Nat) (offOut : Int)
    (len : Nat) : MlCall Int := do
  let fIn ← Ml.getFile fpIn
  let fOut ← Ml.getFile fpOut
  if !copyQualifies vol fIn offIn fOut offOut len then return 0
  if ← otherForkOpen fpOut then return 0
  match ← forkStillNamed vol fpIn (kFPAttributeBit ||| kFPExtDataForkLenBit |||
      kFPExtRsrcForkLenBit) with
  | none => return 0
  | some src =>
    if !copySourceFits vol src len then return 0
    match ← forkStillNamed vol fpOut (kFPExtDataForkLenBit ||| kFPExtRsrcForkLenBit |||
        (if vol.hasFlag VOLUME_EXTRA_FLAGS_VOL_SUPPORTS_UNIX then kFPUnixPrivsBit else 0)) with
    | none => return 0
    | some dst =>
      if !copyDestinationFits vol dst then return 0
      copyIntoDestination vol fpIn fpOut src dst

/-! ## Through the client -/

/-- The loop of `copy_range_through_client`, from the bytes copied so far. -/
def copyLoop (vol : ServedVolume) (fpIn : Nat) (offIn : Int) (fpOut : Nat) (offOut : Int) (len : Nat) :
    Nat → Nat → MlCall Int
  | 0, copied => return copied
  | fuel + 1, copied => do
    if len ≤ copied then return copied
    match ← mlRead vol (min (len - copied) vol.quantum) (offIn + copied) fpIn with
    | .error e => return if copied ≠ 0 then copied else e
    | .ok (data, eof) =>
      if data = [] then return copied
      let ret ← mlWrite vol data (offOut + copied) fpOut
      if ret ≤ 0 then return if copied ≠ 0 then copied else ret
      if eof then return (copied + ret.toNat : Nat)
      copyLoop vol fpIn offIn fpOut offOut len fuel (copied + ret.toNat)

def copyRangeThroughClient (vol : ServedVolume) (fpIn : Nat) (offIn : Int) (fpOut : Nat)
    (offOut : Int) (len : Nat) : MlCall Int := do
  let len := min len (min intMax31 (copyQuantaPerCall * vol.quantum))
  if !(← Ml.alloc) then return -ENOMEM
  copyLoop vol fpIn offIn fpOut offOut len len 0

/-- `ml_copy_range`: the bytes copied, or a negative errno. -/
def mlCopyRange (vol : ServedVolume) (fpIn : Nat) (offIn : Int) (fpOut : Nat) (offOut : Int)
    (len : Nat) : MlCall Int := do
  let fIn ← Ml.getFile fpIn
  let fOut ← Ml.getFile fpOut
  if (fIn.resource ≠ .none ∧ fIn.resource ≠ .resource)
      ∨ (fOut.resource ≠ .none ∧ fOut.resource ≠ .resource) then return -EOPNOTSUPP
  if !fOut.writable || vol.isReadonly then return -EBADF
  if len = 0 then return 0
  let copied ← copyRangeOnServer vol fpIn offIn fpOut offOut len
  let copied ← if copied = 0 then copyRangeThroughClient vol fpIn offIn fpOut offOut len
    else pure copied
  let f ← Ml.getFile fpOut
  if 0 < copied ∧ f.sync then
    let rc ← mlFsync vol fpOut
    return if rc < 0 then rc else copied
  else return copied

/-! ## At unmount -/

/-- The walk of `remove_fork_list`. -/
def closeListed (vol : ServedVolume) : List Nat → MlCall Unit
  | [] => return
  | p :: ps => do
    let _ ← mlCloseFlush vol p
    let f ← Ml.getFile p
    let _ ← Ml.afpClosefork f.forkid
    .modify fun s => { s with openForks := ps }
    closeListed vol ps

def removeForkList (vol : ServedVolume) : MlCall Unit := do
  let listed ← .modifyGet fun s => (s.openForks, s)
  closeListed vol listed

end NC
