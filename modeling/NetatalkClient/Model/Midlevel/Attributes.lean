import NetatalkClient.Model.Midlevel.Objects

/-!
# Resource forks, Finder information and extended attributes

The functions of `midlevel.c` on a file's metadata. The four calls on extended
attributes hand the path they are given to `get_dirid` as it is.
-/

namespace NC

/-- `open_appledouble_meta`, into the record at `fp`. -/
def openAppledoubleMeta (vol : ServedVolume) (path : Path) (kind : MetaKind) (flags fp : Nat) :
    MlCall Int := do
  match vol.convertPath path with
  | .error e => return e
  | .ok converted =>
    if invalidFilename vol converted then return -ENAMETOOLONG
    appledoubleOpenMeta vol converted kind flags fp

/-! ## Flags -/

abbrev kXAttrCreate : Nat := 2
abbrev kXAttrReplace : Nat := 4

def validateXattrFlags (flags : Nat) : Int :=
  if clearBits flags (kXAttrCreate ||| kXAttrReplace) ≠ 0
      ∨ (flags &&& kXAttrCreate ≠ 0 ∧ flags &&& kXAttrReplace ≠ 0) then -EINVAL
  else 0

/-- `validate_special_xattr_flags`, of what reading the attribute returned. -/
def validateSpecialXattrFlags (flags : Nat) (existsRet : Int) : Int :=
  if flags &&& kXAttrCreate ≠ 0 ∧ flags &&& kXAttrReplace ≠ 0 then -EINVAL
  else if existsRet < 0 ∧ existsRet ≠ -ENOATTR ∧ existsRet ≠ -EFBIG then existsRet
  else if flags &&& kXAttrCreate ≠ 0 ∧ (0 ≤ existsRet ∨ existsRet = -EFBIG) then -EEXIST
  else if flags &&& kXAttrReplace ≠ 0 ∧ ¬(0 ≤ existsRet ∨ existsRet = -EFBIG) then -ENOATTR
  else 0

/-- What a call that reads an attribute returns: its length with the bytes, or a
negative errno. -/
abbrev ValueResult := Except Int (Nat × Bytes)

def ValueResult.ret : ValueResult → Int
  | .error e => e
  | .ok (n, _) => n

/-! ## Resource forks -/

/-- The loop of `ml_getresourcefork`, from the bytes read so far. -/
def resourceforkLoop (vol : ServedVolume) (fp size position remaining : Nat) :
    Nat → Bytes → MlCall (Except Int Bytes)
  | 0, data => return .ok data
  | fuel + 1, data => do
    if size ≤ data.length ∨ remaining ≤ data.length then return .ok data
    match ← appledoubleRead vol fp (min (size - data.length) (remaining - data.length))
        (position + data.length : Nat) with
    | .error e => return .error e
    | .ok none => return .error (-EIO_)
    | .ok (some (got, eof)) =>
      if got = [] then return .ok data
      if eof then return .ok (data ++ got)
      resourceforkLoop vol fp size position remaining fuel (data ++ got)

/-- `ml_getresourcefork`: with a size of 0, the fork's length. -/
def mlGetresourcefork (vol : ServedVolume) (path : Path) (size : Nat) (position : Int) :
    MlCall ValueResult := do
  match vol.convertPath path with
  | .error e => return .error e
  | .ok converted =>
    match ← llGetattr vol converted true with
    | .error e => return .error e
    | .ok st =>
      if st.size = 0 then return .error (-ENOATTR)
      if size = 0 then
        return if intMax31 < st.size then .error (-EFBIG) else .ok (st.size, [])
      if position < 0 ∨ (st.size : Int) ≤ position then return .ok (0, [])
      let fp ← Ml.newFile {}
      let ret ← openAppledoubleMeta vol path .resource O_RDONLY fp
      if ret < 0 then return .error ret
      let read ← resourceforkLoop vol fp size position.toNat (st.size - position.toNat) size []
      let _ ← appledoubleClose vol fp
      match read with
      | .error e => return .error e
      | .ok data => return if intMax31 < data.length then .error (-EFBIG) else .ok (data.length, data)

def writeResourceFork (vol : ServedVolume) (path : Path) (value : Bytes) (position : Int)
    (whole : Bool) : MlCall Int := do
  if position < 0 then return -EINVAL
  if (intMax31 : Int) < position ∨ intMax31 - position.toNat < value.length then return -EFBIG
  if vol.isReadonly then return -EROFS
  let fp ← Ml.newFile {}
  let ret ← openAppledoubleMeta vol path .resource O_RDWR fp
  if ret < 0 then return ret
  let (ret, written) ← if value = [] then pure (1, 0)
    else appledoubleWrite vol fp value position.toNat
  if ret < 0 ∨ ret ≠ 1 ∨ written ≠ value.length then
    let _ ← appledoubleClose vol fp
    return if ret < 0 then ret else -EIO_
  else
    let ret ← if position = 0 ∧ (value = [] ∨ whole) then mlFtruncate vol fp value.length else pure 0
    if ret < 0 then
      let _ ← appledoubleClose vol fp
      return ret
    else
      let ret ← appledoubleClose vol fp
      return if ret < 0 then ret else 0

def mlSetresourcefork (vol : ServedVolume) (path : Path) (value : Bytes) (position : Int) :
    MlCall Int :=
  writeResourceFork vol path value position false

def mlSetresourceforkFlags (vol : ServedVolume) (path : Path) (value : Bytes) (position : Int)
    (flags : Nat) : MlCall Int := do
  if validateXattrFlags flags < 0 then return validateXattrFlags flags
  if flags &&& (kXAttrCreate ||| kXAttrReplace) ≠ 0 then
    let present ← mlGetresourcefork vol path 0 0
    let ret := validateSpecialXattrFlags flags present.ret
    if ret < 0 then return ret
  writeResourceFork vol path value position true

def mlTruncateresourcefork (vol : ServedVolume) (path : Path) (size : Nat) : MlCall Int := do
  if 2 ^ 63 ≤ size then return -EFBIG
  if vol.isReadonly then return -EROFS
  let fp ← Ml.newFile {}
  let ret ← openAppledoubleMeta vol path .resource O_RDWR fp
  if ret < 0 then return ret
  let ret ← mlFtruncate vol fp size
  let closeRet ← appledoubleClose vol fp
  return if ret ≠ 0 then ret else if closeRet < 0 then closeRet else 0

def mlRemoveresourcefork (vol : ServedVolume) (path : Path) : MlCall Int := do
  let present ← mlGetresourcefork vol path 0 0
  if present.ret < 0 ∧ present.ret ≠ -EFBIG then return present.ret
  mlSetresourcefork vol path [] 0

/-! ## Finder information -/

def mlGetfinderinfo (vol : ServedVolume) (path : Path) (size : Nat) : MlCall ValueResult := do
  let fp ← Ml.newFile {}
  let ret ← openAppledoubleMeta vol path .finderinfo O_RDONLY fp
  if ret < 0 then return .error ret
  let read ← appledoubleRead vol fp 32 0
  let _ ← appledoubleClose vol fp
  match read with
  | .error e => return .error e
  | .ok none => return .error (-EIO_)
  | .ok (some (finderinfo, _)) =>
    return if finderinfo.length ≠ 32 then .error (-EIO_)
      else if finderinfo = List.replicate 32 0 then .error (-ENOATTR)
      else if size = 0 then .ok (32, [])
      else if size < 32 then .error (-ERANGE)
      else .ok (32, finderinfo)

def mlSetfinderinfo (vol : ServedVolume) (path : Path) (value : Bytes) : MlCall Int := do
  if value.length ≠ 32 then return -EINVAL
  if vol.isReadonly then return -EROFS
  let fp ← Ml.newFile {}
  let ret ← openAppledoubleMeta vol path .finderinfo O_RDWR fp
  if ret < 0 then return ret
  let (ret, written) ← appledoubleWrite vol fp value 0
  let _ ← appledoubleClose vol fp
  return if ret < 0 then ret else if ret ≠ 1 ∨ written ≠ value.length then -EIO_ else 0

def mlSetfinderinfoFlags (vol : ServedVolume) (path : Path) (value : Bytes) (flags : Nat) :
    MlCall Int := do
  if validateXattrFlags flags < 0 then return validateXattrFlags flags
  if flags &&& (kXAttrCreate ||| kXAttrReplace) ≠ 0 then
    let present ← mlGetfinderinfo vol path 0
    let ret := validateSpecialXattrFlags flags present.ret
    if ret < 0 then return ret
  mlSetfinderinfo vol path value

def mlRemovefinderinfo (vol : ServedVolume) (path : Path) : MlCall Int :=
  mlSetfinderinfo vol path (List.replicate 32 0)

/-! ## Names of extended attributes -/

/-- `user.`. -/
def userPrefix : Name := [117, 115, 101, 114, 46]

/-- `com.apple.ResourceFork`. -/
def resourceforkAttr : Name :=
  [99, 111, 109, 46, 97, 112, 112, 108, 101, 46, 82, 101, 115, 111, 117, 114, 99, 101, 70, 111, 114,
    107]

/-- `com.apple.FinderInfo`. -/
def finderinfoAttr : Name :=
  [99, 111, 109, 46, 97, 112, 112, 108, 101, 46, 70, 105, 110, 100, 101, 114, 73, 110, 102, 111]

/-- `org.netatalk.Metadata`. -/
def netatalkMetaAttr : Name :=
  [111, 114, 103, 46, 110, 101, 116, 97, 116, 97, 108, 107, 46, 77, 101, 116, 97, 100, 97, 116, 97]

def stripUserPrefix (name : Name) : Name :=
  if userPrefix.isPrefixOf name then name.drop userPrefix.length else name

def isResourceforkXattr (name : Name) : Bool := stripUserPrefix name == resourceforkAttr

def isFinderinfoXattr (name : Name) : Bool := stripUserPrefix name == finderinfoAttr

def isNetatalkMetaXattr (name : Name) : Bool := netatalkMetaAttr.isPrefixOf (stripUserPrefix name)

def normalizeXattrName (name : Name) : Except Int Name :=
  if 255 < name.length then .error (-ENAMETOOLONG) else .ok (stripUserPrefix name)

/-! ## Extended attributes -/

/-- The errno of an `FPGetExtAttr` or an `FPRemoveExtAttr`: three answers say that
there is no such attribute. -/
def missingAttrErrno (rc : Int) : Int :=
  if rc = kFPNoErr then 0
  else if rc = kFPItemNotFound ∨ rc = kFPMiscErr ∨ rc = kFPParamErr then -ENOATTR
  else if rc = kFPAccessDenied then -EACCES
  else if rc = kFPObjectNotFound then -ENOENT
  else -EIO_

def mlGetxattr (vol : ServedVolume) (path : Path) (name : Name) (size : Nat) :
    MlCall ValueResult := do
  if isResourceforkXattr name then return ← mlGetresourcefork vol path size 0
  if isFinderinfoXattr name then return ← mlGetfinderinfo vol path size
  if vol.attributes &&& kSupportsExtAttrs = 0 then return .error (-ENOATTR)
  if isNetatalkMetaXattr name then return .error (-ENOATTR)
  if path = [slash] then return .error (-ENOATTR)
  match normalizeXattrName name with
  | .error e => return .error e
  | .ok afpName =>
    match ← Ml.getDirid path with
    | .error e => return .error e
    | .ok (dirid, basename) =>
      let (rc, info) ← Ml.afpGetextattr vol dirid 4096 basename afpName
      return if missingAttrErrno rc ≠ 0 then .error (missingAttrErrno rc)
        else if size = 0 then .ok (info.size, [])
        else if size < info.size ∨ info.data.length < info.size then .error (-ERANGE)
        else .ok (info.size, info.data.take info.size)

def setxattrErrno (rc : Int) : Int :=
  if rc = kFPNoErr then 0
  else if rc = kFPAccessDenied then -EACCES
  else if rc = kFPObjectNotFound then -ENOENT
  else if rc = kFPObjectExists then -EEXIST
  else if rc = kFPItemNotFound then -ENOATTR
  else if rc = kFPVolLocked then -EROFS
  else -EIO_

def mlSetxattr (vol : ServedVolume) (path : Path) (name : Name) (value : Bytes) (flags : Nat) :
    MlCall Int := do
  if validateXattrFlags flags < 0 then return validateXattrFlags flags
  if isResourceforkXattr name then return ← mlSetresourceforkFlags vol path value 0 flags
  if isFinderinfoXattr name then return ← mlSetfinderinfoFlags vol path value flags
  if vol.isReadonly then return -EROFS
  if vol.attributes &&& kSupportsExtAttrs = 0 then return 0
  if isNetatalkMetaXattr name then return 0
  if path = [slash] then return 0
  match normalizeXattrName name with
  | .error e => return e
  | .ok afpName =>
    match ← Ml.getDirid path with
    | .error e => return e
    | .ok (dirid, basename) =>
      let rc ← Ml.afpSetextattr vol dirid (flags &&& (kXAttrCreate ||| kXAttrReplace)) basename
        afpName value
      return setxattrErrno rc

/-- `append_listed_xattr_name` on the list so far, for a caller's list of `size` bytes. -/
def appendListedXattrName (size : Nat) (list : Bytes) (name : Name) : Except Int Bytes :=
  let shown := userPrefix ++ name ++ [0]
  if 255 < name.length then .error (-ENAMETOOLONG)
  else if 0 < size ∧ size < list.length + shown.length then .error (-ERANGE)
  else .ok (list ++ shown)

/-- The loop of `ml_listxattr` over the names the server sent, each with its NUL: the
server's own attributes are left out. -/
def listXattrNames (size : Nat) : Nat → Bytes → Bytes → Except Int Bytes
  | 0, _, list => .ok list
  | fuel + 1, src, list =>
    let name := src.takeWhile (· != 0)
    if name = [] then .ok list
    else if name.length = src.length then .error (-EIO_)
    else if netatalkMetaAttr.isPrefixOf name then
      listXattrNames size fuel (src.drop (name.length + 1)) list
    else
      match appendListedXattrName size list name with
      | .error e => .error e
      | .ok list => listXattrNames size fuel (src.drop (name.length + 1)) list

/-- The end of `ml_listxattr`, from what the server sent. -/
def listedXattrs (size : Nat) (info : ExtAttr) : ValueResult :=
  if info.data.length < info.size then .error (-E2BIG)
  else
    match listXattrNames size info.data.length info.data [] with
    | .error e => .error e
    | .ok list => if intMax31 < list.length then .error (-E2BIG)
      else .ok (list.length, if size = 0 then [] else list)

def mlListxattr (vol : ServedVolume) (path : Path) (size : Nat) : MlCall ValueResult := do
  if vol.attributes &&& kSupportsExtAttrs = 0 ∨ path = [slash] then
    return listedXattrs size ⟨0, []⟩
  match ← Ml.getDirid path with
  | .error e => return .error e
  | .ok (dirid, basename) =>
    let (rc, info) ← Ml.afpListextattr vol dirid 65536 basename
    return if rc = kFPNoErr then listedXattrs size info
      else if rc = kFPAccessDenied then .error (-EACCES)
      else if rc = kFPObjectNotFound then .error (-ENOENT)
      else if rc = kFPParamErr then listedXattrs size ⟨0, []⟩
      else .error (-EIO_)

def mlRemovexattr (vol : ServedVolume) (path : Path) (name : Name) : MlCall Int := do
  if isResourceforkXattr name then return ← mlRemoveresourcefork vol path
  if isFinderinfoXattr name then return ← mlRemovefinderinfo vol path
  if vol.isReadonly then return -EROFS
  if vol.attributes &&& kSupportsExtAttrs = 0 then return -ENOATTR
  if isNetatalkMetaXattr name then return -EACCES
  if path = [slash] then return -EACCES
  match normalizeXattrName name with
  | .error e => return e
  | .ok afpName =>
    match ← Ml.getDirid path with
    | .error e => return e
    | .ok (dirid, basename) =>
      let rc ← Ml.afpRemoveextattr vol dirid basename afpName
      return if rc = kFPVolLocked then -EROFS else missingAttrErrno rc

end NC
