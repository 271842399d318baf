import NetatalkClient.Model.Midlevel.View

/-!
# The calls on files and folders

The functions of `midlevel.c` on the objects at a path and on open forks. Each
returns 0 or a negative errno unless it says otherwise.
-/

namespace NC

/-! ## Opening, reading and writing -/

/-- `ml_open`: the record's address, or a negative errno. -/
def mlOpen (vol : ServedVolume) (path : Path) (flags : Nat) : MlCall (Except Int Nat) := do
  match vol.convertPath path with
  | .error e => return .error e
  | .ok converted =>
    if invalidFilename vol converted then return .error (-ENAMETOOLONG)
    if vol.isReadonly ∧ flags &&& (O_WRONLY ||| O_RDWR ||| O_TRUNC ||| O_APPEND ||| O_CREAT) ≠ 0 then
      return .error (-EROFS)
    if !(← Ml.alloc) then return .error (-ENOMEM)
    let fp ← Ml.newFile {}
    let ret ← appledoubleOpen vol converted flags fp
    if ret < 0 then return .error ret
    if ret = 1 then return .ok fp
    let ret ← getDiridInto converted fp
    if ret ≠ 0 then return .error ret
    let ret ← llOpen vol flags fp
    return if ret < 0 then .error ret else .ok fp

def mlCreat (vol : ServedVolume) (path : Path) : MlCall Int := do
  match vol.convertPath path with
  | .error e => return e
  | .ok converted =>
    if vol.isReadonly then return -EROFS
    let ret ← appledoubleCreat vol path
    if ret < 0 then return ret
    if ret = 1 then return 0
    if invalidFilename vol converted then return -ENAMETOOLONG
    match ← Ml.getDirid converted with
    | .error e => return e
    | .ok (dirid, basename) => llCreatefile vol dirid basename

def mlRead (vol : ServedVolume) (size : Nat) (offset : Int) (fp : Nat) : MlCall ReadResult := do
  let f ← Ml.getFile fp
  let viewed ← if f.resource = .none then pure (.ok none) else appledoubleRead vol fp size offset
  match viewed with
  | .error e => return .error e
  | .ok (some r) => return .ok r
  | .ok none => llRead vol size offset fp

/-- `ml_write`: the bytes written, or a negative errno. -/
def mlWrite (vol : ServedVolume) (data : Bytes) (offset : Int) (fp : Nat) : MlCall Int := do
  if vol.isReadonly then return -EROFS
  let (ret, total) ← appledoubleWrite vol fp data offset
  if ret < 0 then return ret
  if ret = 1 then return total
  let (ret, total) ← llWrite vol data offset fp
  if ret < 0 then return ret
  Ml.modifyFile fp fun f => { f with size := max f.size (uint64 (offset + total)) }
  return total

def mlFtruncate (vol : ServedVolume) (fp : Nat) (offset : Int) : MlCall Int := do
  if offset < 0 then return -EINVAL
  let ret ← appledoubleFtruncate vol fp offset
  if ret < 0 then return ret
  if ret ≠ 0 then return 0
  let f ← Ml.getFile fp
  if f.forkid = 0 then return -EIO_
  let ret ← llSetforkSize vol f.forkid (f.resource == .resource) offset.toNat
  if ret = 0 then Ml.modifyFile fp fun f => { f with size := offset.toNat, dirty := true }
  return -ret

/-- `ml_close` of the fork at `fp`. -/
def mlClose (vol : ServedVolume) (fp : Nat) : MlCall Int := do
  let f ← Ml.getFile fp
  if f.resource ≠ .none then return ← appledoubleClose vol fp
  if f.forkid = 0 then return 0
  let synced ← mlCloseFlush vol fp
  let rc ← Ml.afpClosefork f.forkid
  removeOpenedFork fp
  return if rc = kFPNoErr then synced else -EIO_

/-! ## Attributes and listings -/

def mlGetattr (vol : ServedVolume) (path : Path) : MlCall (Except Int Stat) := do
  match vol.convertPath path with
  | .error e => return .error e
  | .ok converted =>
    match ← appledoubleGetattr vol converted with
    | .error e => return .error e
    | .ok (some st) => return .ok st
    | .ok none => llGetattr vol converted false

def mlReaddir (vol : ServedVolume) (path : Path) : MlCall (Except Int (List Entry)) := do
  match vol.convertPath path with
  | .error e => return .error e
  | .ok converted =>
    match ← appledoubleReaddir vol converted with
    | .error e => return .error e
    | .ok (some l) => return .ok l
    | .ok none => llReaddir vol converted false

/-! ## Setting attributes -/

abbrev ML_SET_MODE : Nat := 1
abbrev ML_SET_UID : Nat := 2
abbrev ML_SET_GID : Nat := 4
abbrev ML_SET_MTIME : Nat := 8

abbrev S_ISUID : Nat := 0o4000
abbrev S_ISGID : Nat := 0o2000
abbrev S_ISVTX : Nat := 0o1000

abbrev kUserIsOwner : Nat := 0x80000000

/-- The ID that Netatalk leaves as it is, -1 in 32 bits. -/
abbrev unsetId : Nat := 2 ^ 32 - 1

def getParameters (vol : ServedVolume) (dirid : Nat) (basename : Name) (bitmap : Nat) :
    MlCall (Int × Params) := do
  let (rc, e) ← Ml.afpGetfiledirparms vol dirid bitmap bitmap basename
  return (-llAnswerErrno rc, e)

/-- `is_dir`: 1 for a directory, 0 for another object, or a negative errno. -/
def isDirectory (vol : ServedVolume) (dirid : Nat) (basename : Name) : MlCall Int := do
  let (ret, e) ← getParameters vol dirid basename 0
  return if ret ≠ 0 then ret else if e.isdir then 1 else 0

/-- The errno of `set_parameters`. -/
def setParametersErrno (bitmap : Nat) (rc : Int) : Int :=
  if rc = kFPNoErr then 0
  else if rc = kFPAccessDenied then
    if bitmap &&& (kFPUnixPrivsBit ||| kFPOwnerIDBit ||| kFPGroupIDBit) ≠ 0 then -EPERM else -EACCES
  else if rc = kFPBitmapErr then -ENOSYS
  else if rc = kFPObjectNotFound then -ENOENT
  else if rc = kFPVolLocked then -EROFS
  else -EIO_

def setParameters (vol : ServedVolume) (dirid : Nat) (basename : Name) (bitmap : Nat)
    (e : Params) : MlCall Int := do
  let rc ← if bitmap &&& (kFPOwnerIDBit ||| kFPGroupIDBit) ≠ 0 then
      Ml.afpSetdirparms vol dirid basename bitmap e
    else Ml.afpSetfiledirparms vol dirid basename bitmap e
  return setParametersErrno bitmap rc

/-- `set_owner`. Its loop ends after one turn, which gives the record both IDs. -/
def setOwner (vol : ServedVolume) (dirid : Nat) (basename : Name) (fp : Params)
    (mode uid gid : Nat) : MlCall Int := do
  if fp.uid = uid ∧ fp.gid = gid then return 0
  if !fp.isdir ∧ mode &&& (S_ISUID ||| S_ISGID) ≠ 0 then return -EPERM
  if fp.isdir ∧ vol.isNetatalk2 then return -EPERM
  let bitmap := if fp.isdir then
      (if fp.uid ≠ uid then kFPOwnerIDBit else 0) ||| (if fp.gid ≠ gid then kFPGroupIDBit else 0)
    else kFPUnixPrivsBit ||| (fp.valid &&& kFPModDateBit)
  let unset := !fp.isdir && vol.keepsUnsetIds
  let ret ← setParameters vol dirid basename bitmap { fp with
    uid := if unset ∧ uid = fp.uid then unsetId else uid
    gid := if unset ∧ gid = fp.gid then unsetId else gid }
  if ret ≠ 0 then return ret
  let (ret, check) ← getParameters vol dirid basename kFPUnixPrivsBit
  if ret ≠ 0 then return ret
  return if (uid ≠ fp.uid ∧ check.uid ≠ uid) ∨ (gid ≠ fp.gid ∧ check.gid ≠ gid) then -EPERM else 0

/-- What `ml_setattr` is asked to set. -/
structure SetAttr where
  which : Nat
  mode : Nat := 0
  uid : Nat := 0
  gid : Nat := 0
  mtime : Int := 0

def SetAttr.setsTime (a : SetAttr) : Bool := a.which &&& ML_SET_MTIME != 0

/-- The change of the mode and the time: 0, or a negative errno. A server can refuse
the time with the mode, and then gets it alone. -/
def setattrChange (vol : ServedVolume) (dirid : Nat) (basename : Name) (a : SetAttr)
    (bitmap : Nat) (fp : Params) : MlCall Int := do
  let unset := bitmap &&& kFPUnixPrivsBit != 0 && vol.keepsUnsetIds
  let ret ← setParameters vol dirid basename bitmap
    (if unset then { fp with uid := unsetId, gid := unsetId } else fp)
  if (ret = -EPERM ∨ ret = -ENOSYS) ∧ bitmap &&& kFPUnixPrivsBit ≠ 0 ∧ a.setsTime then
    let timeRet ← setParameters vol dirid basename kFPModDateBit fp
    return if timeRet ≠ 0 then timeRet else ret
  else return ret

/-- Whether the server kept the mode, though it answered success: `result`, `-EPERM`,
or the error of the question. -/
def setattrCheckMode (vol : ServedVolume) (dirid : Nat) (basename : Name) (fp : Params)
    (was mode : Nat) (result : Int) : MlCall (Except Int Int) := do
  let doubted := if fp.isdir then vol.isNetatalk2
    else fp.uaPermissions &&& kUserIsOwner == 0 || fp.uid == 0
  if !doubted then return .ok result
  let shown := 0o777 ||| if fp.isdir then S_ISUID ||| S_ISVTX else 0
  let added := if fp.isdir then 0 else clearBits mode was &&& (S_ISUID ||| S_ISGID ||| S_ISVTX)
  if ((mode ^^^ was) &&& shown) ||| added = 0 then return .ok result
  let (ret, now) ← getParameters vol dirid basename kFPUnixPrivsBit
  if ret ≠ 0 then return .error ret
  return .ok (if ((now.permissions ^^^ was) &&& shown) ||| (now.permissions &&& added) = 0
    then -EPERM else result)

/-- `ml_setattr` from the object's name on, with the privileges to set and the result
so far. -/
def setattrObject (vol : ServedVolume) (dirid : Nat) (basename : Name) (a : SetAttr)
    (privs : Nat) (result : Int) : MlCall Int := do
  let (ret, read) ← if privs = 0 then pure (0, {})
    else getParameters vol dirid basename (kFPUnixPrivsBit ||| kFPModDateBit)
  -- a read that failed leaves the record cleared, and a time asked goes alone
  let fp := if ret = 0 then read else {}
  let result := if ret = 0 then result else ret
  let privs := if ret = 0 then privs else 0
  let was := fp.permissions
  let fp := if mlCarriesTime fp then fp else { fp with valid := clearBits fp.valid kFPModDateBit }
  let setsMode := privs &&& ML_SET_MODE != 0 && clearBits was S_IFMT != clearBits a.mode S_IFMT
  let fp := if setsMode then
      { fp with permissions := (was &&& S_IFMT) ||| clearBits a.mode S_IFMT }
    else fp
  let fp := if a.setsTime then
      { fp with modNs := afpNsFromSec a.mtime, valid := fp.valid ||| kFPModDateBit }
    else fp
  let bitmap := (if setsMode then kFPUnixPrivsBit else 0) |||
    (if (setsMode || a.setsTime) && fp.valid &&& kFPModDateBit != 0 then kFPModDateBit else 0)
  let ret ← if bitmap = 0 then pure 0 else setattrChange vol dirid basename a bitmap fp
  if ret ≠ 0 then return ret
  let checked ← if setsMode then setattrCheckMode vol dirid basename fp was a.mode result
    else pure (.ok result)
  match checked with
  | .error e => return e
  | .ok result =>
    if privs &&& (ML_SET_UID ||| ML_SET_GID) = 0 then return result
    let ret ← setOwner vol dirid basename fp was
      (if privs &&& ML_SET_UID ≠ 0 then a.uid else fp.uid)
      (if privs &&& ML_SET_GID ≠ 0 then a.gid else fp.gid)
    return if ret ≠ 0 then ret else result

/-- The privileges `ml_setattr` sets on the volume, with the result so far: without
network IDs an owner or a group is refused unless it is the one shown. -/
def setattrPrivs (vol : ServedVolume) (a : SetAttr) (privs : Nat) (result : Int) : Nat × Int :=
  if privs &&& (ML_SET_UID ||| ML_SET_GID) ≠ 0 ∧ vol.mapping ≠ .common then
    let refused := match vol.shownIds 0 0 with
      | none => true
      | some (uid, gid) => (privs &&& ML_SET_UID != 0 && a.uid != uid)
        || (privs &&& ML_SET_GID != 0 && a.gid != gid)
    (clearBits privs (ML_SET_UID ||| ML_SET_GID), if refused then -EPERM else result)
  else (privs, result)

def mlSetattr (vol : ServedVolume) (path : Path) (a : SetAttr) : MlCall Int := do
  if vol.isReadonly then return -EROFS
  let ret ← appledoubleSetattr vol path
  if ret < 0 then return ret
  match vol.convertPath path with
  | .error e => return e
  | .ok converted =>
    if invalidFilename vol converted then return -ENAMETOOLONG
    let privs := a.which &&& (ML_SET_MODE ||| ML_SET_UID ||| ML_SET_GID)
    let unknown := privs != 0 && !vol.hasFlag VOLUME_EXTRA_FLAGS_VOL_SUPPORTS_UNIX
    let ignored := vol.hasFlag VOLUME_EXTRA_FLAGS_IGNORE_UNIXPRIVS
    if unknown && ignored && !a.setsTime then
      match ← llGetattr vol converted false with
      | .error e => return e
      | .ok _ => return 0
    else
      let (privs, result) := setattrPrivs vol a (if unknown then 0 else privs)
        (if unknown && !ignored then -ENOSYS else 0)
      if privs = 0 ∧ !a.setsTime then return result
      match ← Ml.getDirid converted with
      | .error e => return e
      | .ok (dirid, basename) => setattrObject vol dirid basename a privs result

/-! ## Deleting and creating -/

def deleteErrno (rc : Int) : Int :=
  if rc = kFPObjectLocked then EPERM
  else if rc = kFPFileBusy then EBUSY
  else if rc = kFPDirNotEmpty then ENOTEMPTY
  else llAnswerErrno rc

/-- The delete of `ml_unlink` and `ml_rmdir`: the cache forgets what is gone. -/
def deleteObject (vol : ServedVolume) (converted : Path) (dirid : Nat) (basename : Name) :
    MlCall Int := do
  let rc ← Ml.afpDelete vol dirid basename
  if deleteErrno rc = 0 then Ml.removeDidSubtree converted
  return -deleteErrno rc

def mlUnlink (vol : ServedVolume) (path : Path) : MlCall Int := do
  match vol.convertPath path with
  | .error e => return e
  | .ok converted =>
    if invalidFilename vol converted then return -ENAMETOOLONG
    if vol.isReadonly then return -EROFS
    let ret ← appledoubleUnlink vol path
    if ret < 0 then return ret
    match ← Ml.getDirid converted with
    | .error e => return e
    | .ok (dirid, basename) =>
      let ret ← isDirectory vol dirid basename
      if ret ≠ 0 then return if ret < 0 then ret else -EISDIR
      deleteObject vol converted dirid basename

def mlRmdir (vol : ServedVolume) (path : Path) : MlCall Int := do
  match vol.convertPath path with
  | .error e => return e
  | .ok converted =>
    if invalidFilename vol converted then return -ENAMETOOLONG
    if vol.isReadonly then return -EROFS
    let ret ← appledoubleRmdir vol path
    if ret < 0 then return ret
    match ← Ml.getDirid converted with
    | .error e => return e
    | .ok (dirid, basename) =>
      let ret ← isDirectory vol dirid basename
      if ret ≤ 0 then
        Ml.removeDidSubtree converted
        return if ret < 0 then ret else -ENOTDIR
      else deleteObject vol converted dirid basename

def setCreatedMode (vol : ServedVolume) (dirid : Nat) (basename : Name) (mode : Nat) :
    MlCall Unit := do
  if vol.hasFlag VOLUME_EXTRA_FLAGS_VOL_SUPPORTS_UNIX then
    let (ret, fp) ← if vol.keepsUnsetIds then pure (0, { uid := unsetId, gid := unsetId })
      else getParameters vol dirid basename kFPUnixPrivsBit
    if ret = 0 then
      let _ ← setParameters vol dirid basename kFPUnixPrivsBit
        { fp with permissions := clearBits mode S_IFMT }

/-- The errno of an `FPCreateDir`. -/
def createdirErrno (rc : Int) : Int :=
  if rc = kFPDiskFull then ENOSPC
  else if rc = kFPObjectExists then EEXIST
  else if rc = kFPFlatVol then EPERM
  else llAnswerErrno rc

def mlMkdir (vol : ServedVolume) (path : Path) (mode : Nat) : MlCall Int := do
  match vol.convertPath path with
  | .error e => return e
  | .ok converted =>
    if invalidFilename vol converted then return -ENAMETOOLONG
    if vol.isReadonly then return -EROFS
    let ret ← appledoubleMkdir vol path
    if ret < 0 then return ret
    match ← Ml.getDirid converted with
    | .error e => return e
    | .ok (dirid, basename) =>
      let (rc, _) ← Ml.afpCreatedir vol dirid basename
      if createdirErrno rc = 0 then
        Ml.removeDidSubtree converted
        setCreatedMode vol dirid basename mode
      return -createdirErrno rc

/-! ## Links -/

/-- The slashes of a link's target that its converted form shows as colons. -/
def restoreSlashes : Path → List UInt8 → Path
  | [], _ => []
  | d :: ds, separators =>
    if d = colon then
      (if separators.head? = some slash then slash else d) :: restoreSlashes ds separators.tail
    else d :: restoreSlashes ds separators

def restoreLinkSeparators (dest src : Path) : Path :=
  let separators := src.filter fun c => c == colon || c == slash
  if dest.count colon = separators.length then restoreSlashes dest separators else dest

/-- The place where a target that fills the buffer is cut: not within a character. -/
def linkCut (vol : ServedVolume) (link : Path) : Nat → Nat
  | 0 => 0
  | cut + 1 =>
    if vol.pathEncoding = .utf8Name ∧ isContinuation (byteAt link (cut + 1)) then linkCut vol link cut
    else cut + 1

/-- The target of a link as the client shows it, from the bytes that were read. -/
def shownTarget (vol : ServedVolume) (link : Path) (size : Nat) : Path :=
  let buf := vol.pathToUnix link size
  if buf = [] ∧ link ≠ [] then
    let link := link.take (linkCut vol link (size - 1))
    restoreLinkSeparators (vol.pathToUnix link size) link
  else restoreLinkSeparators buf link

/-- The errno of the read of `ml_readlink`. -/
def readlinkErrno (rc : Int) : Int :=
  if rc = kFPAccessDenied then EACCES
  else if rc = kFPLockErr then EBUSY
  else if rc = kFPEOFErr ∨ rc = kFPNoErr then 0
  else EIO_

def mlReadlink (vol : ServedVolume) (path : Path) (size : Nat) : MlCall (Except Int Path) := do
  if size = 0 ∨ intMax31 < size then return .error (-ENAMETOOLONG)
  if !(← Ml.alloc) then return .error (-ENOMEM)
  match vol.convertPath path with
  | .error e => return .error e
  | .ok converted =>
    match ← Ml.getDirid converted with
    | .error e => return .error e
    | .ok (dirid, basename) =>
      let fp ← Ml.newFile {}
      let rc ← openforkInto vol false dirid AFP_OPENFORK_ALLOWREAD 0 basename fp
      if llOpenforkErrno rc ≠ 0 then return .error (-llOpenforkErrno rc)
      addOpenedFork fp
      let f ← Ml.getFile fp
      let (rc, data) ← Ml.afpRead f.forkid 0 size
      let closed ← Ml.afpClosefork f.forkid
      removeOpenedFork fp
      if readlinkErrno rc ≠ 0 then return .error (-readlinkErrno rc)
      if closed ≠ kFPNoErr then return .error (-EIO_)
      return .ok (shownTarget vol (data.takeWhile (· != 0)) size)

/-- The errno of the write of `ml_symlink`. -/
def symlinkWriteErrno (rc : Int) (written length : Nat) : Int :=
  if rc = kFPNoErr then if written = length then 0 else EIO_
  else if rc = kFPAccessDenied then EACCES
  else if rc = kFPDiskFull then ENOSPC
  else if rc = kFPObjectNotFound then ENOENT
  else EIO_

/-- `ml_symlink` once the link's file is created: a link that cannot be finished is
deleted, unless its open went unanswered. -/
def symlinkFinish (vol : ServedVolume) (target : Path) (dirid : Nat) (basename : Name) :
    MlCall Int := do
  let fp ← Ml.newFile {}
  let rc ← openforkInto vol false dirid (AFP_OPENFORK_ALLOWWRITE ||| AFP_OPENFORK_ALLOWREAD) 0
    basename fp
  let ret := llOpenforkErrno rc
  if ret = ETIMEDOUT then return -ret
  if ret ≠ 0 then
    let _ ← Ml.afpDelete vol dirid basename
    return -ret
  addOpenedFork fp
  let f ← Ml.getFile fp
  let (rc, written) ← Ml.afpWrite f.forkid 0 target
  let closed ← Ml.afpClosefork f.forkid
  removeOpenedFork fp
  let ret := symlinkWriteErrno rc written target.length
  let ret ← if ret ≠ 0 then pure ret
    else if closed ≠ kFPNoErr then pure EIO_
    else
      let set ← setParameters vol dirid basename kFPFinderInfoBit { finderinfo := symlinkFinderinfo }
      pure (-set)
  if ret ≠ 0 then
    let _ ← Ml.afpDelete vol dirid basename
    return -ret
  else return 0

/-- `ml_symlink` of the target `path1` at `path2`. -/
def mlSymlink (vol : ServedVolume) (path1 path2 : Path) : MlCall Int := do
  if vol.avNumber < 30 then return -ENOSYS
  match vol.convertPath path1 with
  | .error e => return e
  | .ok target =>
    match vol.convertPath path2 with
    | .error e => return e
    | .ok converted =>
      if vol.isReadonly then return -EROFS
      let ret ← appledoubleSymlink vol path2
      if ret < 0 then return ret
      match ← Ml.getDirid converted with
      | .error e => return e
      | .ok (dirid, basename) =>
        let ret ← llCreatefile vol dirid basename
        if ret ≠ 0 then return ret
        symlinkFinish vol target dirid basename

/-! ## Renaming

`ml_rename` over the functions of `did.c`; `system_rename` says that over their
implementation it is `mlRename`. -/

namespace Ml

def afterMove (vol : ServedVolume) (src dst : ObjName) (rc : Int) : MlCall Int := do
  if rc = kFPObjectExists then
    let _ ← afpDelete vol dst.did dst.name
    let rc ← afpMoveandrename vol src.did dst.did src.name none dst.name
    return secondMoveErrno rc
  else
    return firstMoveErrno rc

def renameObjects (vol : ServedVolume) (src dst : ObjName) : MlCall Int := do
  let dstType ← isDirectory vol dst.did dst.name
  if dstType = 1 then
    let rc ← afpMoveandrename vol src.did dst.did src.name (some dst.name) src.name
    afterMove vol src dst rc
  else
    if dstType = 0 ∧ vol.attributes &&& kNoExchangeFiles = 0 then
      let rc ← afpExchangefiles vol src.did dst.did src.name dst.name
      if rc = kFPNoErr then
        let _ ← afpDelete vol src.did src.name
        return 0
    let rc ← afpMoveandrename vol src.did dst.did src.name none dst.name
    afterMove vol src dst rc

def resolveRename (vol : ServedVolume) (pathFrom pathTo : Path) : MlCall (Except Int Resolved) := do
  match vol.convertPath pathFrom with
  | .error e => return .error e
  | .ok convertedFrom =>
    match vol.convertPath pathTo with
    | .error e => return .error e
    | .ok convertedTo =>
      if vol.isReadonly then return .error (-EACCES)
      match ← getDirid convertedFrom with
      | .error e => return .error e
      | .ok (didFrom, basenameFrom) =>
        match ← getDirid convertedTo with
        | .error e => return .error e
        | .ok (didTo, basenameTo) =>
          return .ok ⟨convertedFrom, convertedTo, ⟨didFrom, basenameFrom⟩, ⟨didTo, basenameTo⟩⟩

/-- `ml_rename`. -/
def rename (vol : ServedVolume) (pathFrom pathTo : Path) : MlCall Int := do
  match ← resolveRename vol pathFrom pathTo with
  | .error e => return e
  | .ok r =>
    let ret ← renameObjects vol r.src r.dst
    removeDidSubtree r.convertedFrom
    removeDidSubtree r.convertedTo
    return -ret

end Ml

end NC
