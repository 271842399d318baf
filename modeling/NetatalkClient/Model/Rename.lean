import NetatalkClient.Model.Did

/-!
# Renaming

`ml_rename` of `midlevel.c` and `fuse_rename` of `fuse_fs.c`. The call resolves
both paths (`resolveRename`), and then sends its requests about the two
objects (`renameObjects`). The switches over result codes are functions of
their own.
-/

namespace NC

/-- An object's name within its folder, by the folder's ID. -/
@[ext] structure ObjName where
  did : Nat
  name : Name
  deriving DecidableEq, Repr

/-- The name by which a request names the object on the wire. -/
def ObjName.wire (vol : Volume) (o : ObjName) : ObjName := ⟨o.did, vol.wireName o.name⟩

/-- The result of the second `FPMoveAndRename`, made once the destination has been
deleted: its `default` case stands with `kFPNoErr`. -/
def secondMoveErrno (rc : Int) : Int :=
  if rc = kFPObjectLocked ∨ rc = kFPAccessDenied then EACCES
  else if rc = kFPCantRename then EROFS
  else if rc = kFPObjectExists ∨ rc = kFPObjectNotFound then ENOENT
  else if rc = kFPParamErr ∨ rc = kFPMiscErr then EIO_
  else 0

/-- The result of the first `FPMoveAndRename`, other than `kFPObjectExists`. -/
def firstMoveErrno (rc : Int) : Int :=
  if rc = kFPObjectLocked ∨ rc = kFPAccessDenied then EACCES
  else if rc = kFPCantRename then EROFS
  else if rc = kFPObjectNotFound then ENOENT
  else if rc = kFPNoErr then 0
  else EIO_

/-- The end of `ml_rename`'s requests, from the first move's result on: a
destination that exists is deleted, and the source moved again. The errno of
the delete is overwritten by the move's, so it is not kept here. -/
def afterMove (vol : Volume) (src dst : ObjName) (rc : Int) : Call Int := do
  if rc = kFPObjectExists then
    let _ ← afpDelete vol dst.did dst.name
    let rc ← afpMoveandrename vol src.did dst.did src.name none dst.name
    return secondMoveErrno rc
  else
    return firstMoveErrno rc

/-- The requests of `ml_rename` about the two objects: 0 or a positive errno. -/
def renameObjects (vol : Volume) (src dst : ObjName) : Call Int := do
  let dstType ← isDir vol dst.did dst.name
  if dstType = 1 then
    let rc ← afpMoveandrename vol src.did dst.did src.name (some dst.name) src.name
    afterMove vol src dst rc
  else
    if dstType = 0 ∧ vol.attributes &&& kNoExchangeFiles = 0 then
      let rc ← afpExchangefiles vol src.did dst.did src.name dst.name
      if rc = kFPNoErr then
        -- the source now holds the destination's old contents, whatever becomes of the delete
        let _ ← afpDelete vol src.did src.name
        return 0
    let rc ← afpMoveandrename vol src.did dst.did src.name none dst.name
    afterMove vol src dst rc

/-- What `ml_rename` resolves before it asks anything about the objects. -/
structure Resolved where
  convertedFrom : Path
  convertedTo : Path
  src : ObjName
  dst : ObjName

/-- The first part of `ml_rename`: convert both paths and look up both folders. -/
def resolveRename (vol : Volume) (pathFrom pathTo : Path) : Call (Except Int Resolved) := do
  match vol.convertPath pathFrom with
  | .error e => return .error e
  | .ok convertedFrom =>
    match vol.convertPath pathTo with
    | .error e => return .error e
    | .ok convertedTo =>
      if vol.isReadonly then return .error (-EACCES)
      match ← getDirid vol convertedFrom with
      | .error e => return .error e
      | .ok (didFrom, basenameFrom) =>
        match ← getDirid vol convertedTo with
        | .error e => return .error e
        | .ok (didTo, basenameTo) =>
          return .ok ⟨convertedFrom, convertedTo, ⟨didFrom, basenameFrom⟩, ⟨didTo, basenameTo⟩⟩

/-- `ml_rename`: 0, or a negative errno. -/
def mlRename (vol : Volume) (pathFrom pathTo : Path) : Call Int := do
  match ← resolveRename vol pathFrom pathTo with
  | .error e => return e
  | .ok r =>
    let ret ← renameObjects vol r.src r.dst
    removeDidSubtree r.convertedFrom
    removeDidSubtree r.convertedTo
    return -ret

/-- `fuse_rename` on Linux. -/
def fuseRename (vol : Volume) (pathFrom pathTo : Path) (flags : Nat) : Call Int :=
  if flags ≠ 0 then return -EINVAL else mlRename vol pathFrom pathTo

end NC
