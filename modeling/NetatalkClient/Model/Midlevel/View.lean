import NetatalkClient.Model.Midlevel.Lookups

/-!
# The AppleDouble view

The functions of `resource.c`. `viewOf` is what `extra_translate` makes of a path:
the kind of pseudo-file it names and the path of the object that stands behind it.
-/

namespace NC

/-- `.AppleDouble`. -/
def appledouble : Name := [46, 65, 112, 112, 108, 101, 68, 111, 117, 98, 108, 101]

/-- `.finderinfo`. -/
def finderinfoString : Name := [46, 102, 105, 110, 100, 101, 114, 105, 110, 102, 111]

/-- `.comment`. -/
def commentString : Name := [46, 99, 111, 109, 109, 101, 110, 116]

/-- `.servericon`. -/
def servericon : Name := [46, 115, 101, 114, 118, 101, 114, 105, 99, 111, 110]

abbrev AFP_COMMENT_MAX : Nat := 199
abbrev AFP_SERVER_ICON_LEN : Nat := 256

/-- `strcmp(name + strlen(name) - strlen(suffix), suffix) == 0` for a name that is
long enough. -/
def endsWith (name suffix : Bytes) : Bool := suffix.isSuffixOf name

/-! ## The paths of the view -/

/-- The first whole component `.AppleDouble` that another follows: the path before
it, with its slash, and the path after it. -/
def findView : Path → Path → Option (Path × Path)
  | _, [] => none
  | pre, c :: cs =>
    if c = slash ∧ (appledouble ++ [slash]).isPrefixOf cs then
      some (pre ++ [slash], cs.drop (appledouble.length + 1))
    else findView (pre ++ [c]) cs

/-- The kind of pseudo-file that a path without its `.AppleDouble` names, and the
object's path. -/
def pseudoFile (newpath : Path) : MetaKind × Path :=
  if finderinfoString.length < newpath.length ∧ endsWith newpath finderinfoString then
    (.finderinfo, newpath.take (newpath.length - finderinfoString.length))
  else if commentString.length < newpath.length ∧ endsWith newpath commentString then
    (.comment, newpath.take (newpath.length - commentString.length))
  else (.resource, newpath)

/-- What `extra_translate` finds: the kind and the new path, but for the memory. -/
def viewOf (vol : ServedVolume) (path : Path) : MetaKind × Path :=
  if vol.hasFlag VOLUME_EXTRA_FLAGS_SHOW_APPLEDOUBLE = false then (.none, [])
  else if path = slash :: servericon then (.serverIcon, [])
  else if path.length < appledouble.length + 1 then (.none, [])
  else
    match splitLast path with
    | none => (.none, [])
    | some (parent, last) =>
      if last = appledouble then (.appledouble, if parent = [] then [slash] else parent)
      else
        match findView [] path with
        | none => (.none, [])
        | some (pre, rest) => pseudoFile (pre ++ rest)

/-- `extra_translate`: the kind and the new path, or `-ENOMEM`. -/
def extraTranslate (vol : ServedVolume) (path : Path) : MlCall (Except Int (MetaKind × Path)) :=
  match viewOf vol path with
  | (.none, newpath) => return .ok (.none, newpath)
  | (.serverIcon, newpath) => return .ok (.serverIcon, newpath)
  | (kind, newpath) => do
    if ← Ml.alloc then return .ok (kind, newpath) else return .error (-ENOMEM)

/-- The functions of the view that refuse an operation: 0 for a path that is not the
view's, or a negative errno. -/
def appledoubleRefuse (vol : ServedVolume) (path : Path) : MlCall Int := do
  match ← extraTranslate vol path with
  | .error e => return e
  | .ok (.none, _) => return 0
  | .ok _ => return -EPERM

def appledoubleSetattr (vol : ServedVolume) (path : Path) : MlCall Int := appledoubleRefuse vol path

def appledoubleUnlink (vol : ServedVolume) (path : Path) : MlCall Int := appledoubleRefuse vol path

def appledoubleMkdir (vol : ServedVolume) (path : Path) : MlCall Int := appledoubleRefuse vol path

def appledoubleRmdir (vol : ServedVolume) (path : Path) : MlCall Int := appledoubleRefuse vol path

def appledoubleSymlink (vol : ServedVolume) (path : Path) : MlCall Int := appledoubleRefuse vol path

def appledoubleCreat (vol : ServedVolume) (path : Path) : MlCall Int := do
  match ← extraTranslate vol path with
  | .error e => return e
  | .ok (kind, _) =>
    return match kind with
      | .resource | .finderinfo | .comment => 1
      | .appledouble => -EBADF
      | .serverIcon => -EPERM
      | .none => 0

/-! ## Comments -/

def ensureDtOpened : MlCall Int := do
  let (dtrefnum, noDesktop) ← .modifyGet fun s => ((s.dtrefnum, s.noDesktop), s)
  if 0 < dtrefnum then return 0
  if noDesktop then return -ENOENT
  let (rc, refnum) ← Ml.afpOpendt
  if rc = kFPCallNotSupported then
    .modify fun s => { s with noDesktop := true }
    return -ENOENT
  if rc ≠ kFPNoErr then return -EIO_
  .modify fun s => { s with dtrefnum := refnum }
  return 0

/-- `read_comment`: the comment, or a negative errno. -/
def readComment (vol : ServedVolume) (basename : Name) (did : Nat) : MlCall (Except Int Bytes) := do
  let ret ← ensureDtOpened
  if ret ≠ 0 then return .error ret
  let dtrefnum ← .modifyGet fun s => (s.dtrefnum, s)
  let (rc, comment) ← Ml.afpGetcomment vol dtrefnum did basename
  return if rc = kFPNoErr then .ok (comment.take 255)
    else if rc = kFPItemNotFound then .ok []
    else if rc = kFPAccessDenied then .error (-EACCES)
    else if rc = kFPObjectNotFound then .error (-ENOENT)
    else .error (-EIO_)

def setCommentLength (vol : ServedVolume) (basename : Name) (did : Nat) (length : Int) :
    MlCall Int := do
  if length < 0 then return -EINVAL
  let length := length.toNat
  if AFP_COMMENT_MAX < length then return -EFBIG
  let ret ← ensureDtOpened
  if ret ≠ 0 then return ret
  let kept ← if 0 < length then readComment vol basename did else pure (.ok [])
  match kept with
  | .error e => return e
  | .ok comment =>
    let dtrefnum ← .modifyGet fun s => (s.dtrefnum, s)
    let comment := (comment.take AFP_COMMENT_MAX).take length
    let rc ← Ml.afpAddcomment vol dtrefnum did basename
      (comment ++ List.replicate (length - comment.length) 0)
    return -llAnswerErrno rc

/-! ## Opening and closing -/

/-- Look up the directory of a path into the record at `fp`: 0, or a negative errno. -/
def getDiridInto (path : Path) (fp : Nat) : MlCall Int := do
  match ← Ml.getDirid path with
  | .error e => return e
  | .ok (did, basename) =>
    Ml.modifyFile fp fun f => { f with did := did, basename := basename }
    return 0

/-- `appledouble_open` into the record at `fp`. -/
def appledoubleOpen (vol : ServedVolume) (path : Path) (flags fp : Nat) : MlCall Int := do
  match ← extraTranslate vol path with
  | .error e => return e
  | .ok (kind, newpath) =>
    Ml.modifyFile fp fun f => { f with resource := kind }
    match kind with
    | .resource =>
      let ret ← getDiridInto newpath fp
      if ret < 0 then return ret
      let ret ← llOpen vol flags fp
      return if ret < 0 then ret else 1
    | .appledouble => return -EISDIR
    | .finderinfo =>
      let ret ← getDiridInto newpath fp
      return if ret < 0 then ret else 1
    | .comment =>
      let ret ← getDiridInto newpath fp
      if ret < 0 then return ret
      let ret ← ensureDtOpened
      if ret ≠ 0 then return ret
      if flags &&& O_TRUNC = 0 then return 1
      let f ← Ml.getFile fp
      let ret ← setCommentLength vol f.basename f.did 0
      return if ret < 0 then ret else 1
    | .serverIcon => return if flags &&& (O_ACCMODE ||| O_TRUNC) = O_RDONLY then 1 else -EPERM
    | .none => return 0

/-- `appledouble_open_meta` into the record at `fp`. -/
def appledoubleOpenMeta (vol : ServedVolume) (path : Path) (kind : MetaKind) (flags fp : Nat) :
    MlCall Int := do
  Ml.modifyFile fp fun _ => { resource := kind }
  match kind with
  | .resource =>
    let ret ← getDiridInto path fp
    if ret < 0 then return ret
    llOpen vol flags fp
  | .finderinfo => getDiridInto path fp
  | _ => return -EINVAL

def appledoubleClose (vol : ServedVolume) (fp : Nat) : MlCall Int := do
  let f ← Ml.getFile fp
  match f.resource with
  | .resource =>
    let ret ← mlCloseFlush vol fp
    let f ← Ml.getFile fp
    let flushed ← if ret = 0 ∧ f.dirty ∧ vol.isApple then Ml.afpFlushfork f.forkid
      else pure kFPNoErr
    let ret := if flushed ≠ kFPNoErr then -EIO_ else ret
    let rc ← Ml.afpClosefork f.forkid
    removeOpenedFork fp
    return if rc = kFPNoErr then ret else -EIO_
  | .appledouble => return -EBADF
  | _ => return 0

/-! ## Reading and writing -/

/-- The bytes of a record with `data` in place of those from `offset` on. -/
def overwrite (old : Bytes) (offset : Nat) (data : Bytes) : Bytes :=
  old.take offset ++ List.replicate (offset - old.length) 0 ++ data ++ old.drop (offset + data.length)

/-- `slnkrhap`, the Finder information of a symbolic link. -/
def symlinkFinderinfo : Bytes := [115, 108, 110, 107, 114, 104, 97, 112]

def mlCarriesTime (e : Params) : Bool :=
  e.valid &&& kFPModDateBit != 0 && decide (0 ≤ e.modNs) && e.permissions &&& S_IFMT != S_IFLNK
    && e.finderinfo.take 8 != symlinkFinderinfo

/-- `towrite` of `appledouble_write` for Finder information: the size as an `int`, cut at the end. A
negative one, which `memcpy` takes for a length beyond all memory, is left out of the model. -/
def finderinfoCount (size offset : Nat) : Nat := (min (Int.bmod size (2 ^ 32)) (32 - offset)).toNat

/-- `appledouble_write` of Finder information. -/
def writeFinderinfo (vol : ServedVolume) (f : FileInfo) (data : Bytes) (offset : Int) :
    MlCall (Int × Nat) := do
  if offset < 0 ∨ 32 ≤ offset then return (-EINVAL, 0)
  let offset := offset.toNat
  let data := data.take (finderinfoCount data.length offset)
  let bitmap := kFPFinderInfoBit ||| kFPModDateBit |||
    (if vol.hasFlag VOLUME_EXTRA_FLAGS_VOL_SUPPORTS_UNIX then kFPUnixPrivsBit else 0)
  let (rc, e) ← Ml.afpGetfiledirparms vol f.did bitmap bitmap f.basename
  if rc ≠ kFPNoErr then return (-llAnswerErrno rc, 0)
  let e' := { e with finderinfo := overwrite e.finderinfo offset data }
  let keepsTime := mlCarriesTime e && e'.finderinfo.take 8 != symlinkFinderinfo
  let rc ← Ml.afpSetfiledirparms vol f.did f.basename
    (kFPFinderInfoBit ||| if keepsTime then kFPModDateBit else 0) e'
  return if rc ≠ kFPNoErr then (-llAnswerErrno rc, 0) else (1, data.length)

/-- `appledouble_write` of a comment. -/
def writeComment (vol : ServedVolume) (f : FileInfo) (data : Bytes) (offset : Int) :
    MlCall (Int × Nat) := do
  if offset < 0 then return (-EINVAL, 0)
  let offset := offset.toNat
  if AFP_COMMENT_MAX ≤ offset then return (-EFBIG, 0)
  if data = [] then return (1, 0)
  match ← readComment vol f.basename f.did with
  | .error e => return (e, 0)
  | .ok comment =>
    let data := data.take (AFP_COMMENT_MAX - offset)
    let dtrefnum ← .modifyGet fun s => (s.dtrefnum, s)
    let rc ← Ml.afpAddcomment vol dtrefnum f.did f.basename
      (overwrite (comment.take AFP_COMMENT_MAX) offset data)
    return if rc ≠ kFPNoErr then (-llAnswerErrno rc, 0) else (1, data.length)

/-- `appledouble_write`: 1 with the bytes written, 0 for a data fork, or a negative
errno. -/
def appledoubleWrite (vol : ServedVolume) (fp : Nat) (data : Bytes) (offset : Int) :
    MlCall (Int × Nat) := do
  let f ← Ml.getFile fp
  match f.resource with
  | .resource =>
    let (ret, total) ← llWrite vol data offset fp
    return if ret < 0 then (ret, total) else (1, total)
  | .appledouble => return (-EBADF, 0)
  | .finderinfo => writeFinderinfo vol f data offset
  | .comment => writeComment vol f data offset
  | .serverIcon => return (-EPERM, 0)
  | .none => return (0, 0)

/-- `appledouble_read`: what was read with whether it reaches the end, `none` for a
data fork, or a negative errno. -/
def appledoubleRead (vol : ServedVolume) (fp : Nat) (size : Nat) (offset : Int) :
    MlCall (Except Int (Option (Bytes × Bool))) := do
  let f ← Ml.getFile fp
  match f.resource with
  | .resource =>
    match ← llRead vol size offset fp with
    | .error e => return .error e
    | .ok r => return .ok (some r)
  | .appledouble => return .error (-EBADF)
  | .finderinfo =>
    if offset < 0 ∨ 32 < offset then return .error (-EFAULT)
    let (rc, e) ← Ml.afpGetfiledirparms vol f.did kFPFinderInfoBit kFPFinderInfoBit f.basename
    if rc ≠ kFPNoErr then return .error (-llAnswerErrno rc)
    let tocopy := min size (32 - offset.toNat)
    return .ok (some ((e.finderinfo.drop offset.toNat).take tocopy, offset.toNat + tocopy == 32))
  | .comment =>
    match ← readComment vol f.basename f.did with
    | .error e => return .error e
    | .ok comment =>
      if offset < 0 then return .error (-EINVAL)
      let got := ((comment.take AFP_COMMENT_MAX).drop offset.toNat).take size
      return .ok (some (got,
        decide ((comment.take AFP_COMMENT_MAX).length ≤ offset.toNat + got.length)))
  | .serverIcon =>
    if offset < 0 ∨ (AFP_SERVER_ICON_LEN : Int) < offset then return .error (-EFAULT)
    return .ok (some ((vol.icon.drop offset.toNat).take size, true))
  | .none => return .ok none

def appledoubleFtruncate (vol : ServedVolume) (fp : Nat) (offset : Int) : MlCall Int := do
  let f ← Ml.getFile fp
  match f.resource with
  | .finderinfo => return 1
  | .comment =>
    let ret ← setCommentLength vol f.basename f.did offset
    return if ret < 0 then ret else 1
  | .serverIcon => return -EPERM
  | _ => return 0

/-! ## Attributes and listings -/

/-- `appledouble_getattr`: the attributes, or `none` for a path that is not the
view's. -/
def appledoubleGetattr (vol : ServedVolume) (path : Path) : MlCall (Except Int (Option Stat)) := do
  match ← extraTranslate vol path with
  | .error e => return .error e
  | .ok (kind, newpath) =>
    match kind with
    | .resource =>
      match ← llGetattr vol newpath true with
      | .error e => return .error e
      | .ok st => return if isRegMode st.mode then .ok (some st) else .error (-ENOENT)
    | .appledouble => return .ok (some { mode := 0o700 ||| S_IFDIR })
    | .finderinfo =>
      match ← llGetattr vol newpath false with
      | .error e => return .error e
      | .ok st => return .ok (some (pseudoFileStat st 32))
    | .comment =>
      match ← llGetattr vol newpath false with
      | .error e => return .error e
      | .ok st =>
        match ← Ml.getDirid newpath with
        | .error e => return .error e
        | .ok (did, basename) =>
          match ← readComment vol basename did with
          | .error e => return .error e
          | .ok comment => return .ok (some (pseudoFileStat st comment.length))
    | .serverIcon => return .ok (some (pseudoFileStat { mode := 0o444 } AFP_SERVER_ICON_LEN))
    | .none => return .ok none

def namesPseudoFile (name : Name) : Bool :=
  endsWith name finderinfoString || endsWith name commentString

/-- A copy of an entry under its name with a suffix, `afp_listing_append`. -/
def Entry.pseudo (e : Entry) (suffix : Name) (kind : MetaKind) (size : Nat) : Entry :=
  { e with name := e.name ++ suffix, kind := kind, size := size }

/-- The entry of a file whose resource fork the view lists, under its own name. -/
def Entry.fork (e : Entry) : List Entry :=
  if isRegMode (direntMode e.toParams e.kind) ∧ e.resourcesize ≠ 0 ∧ ¬namesPseudoFile e.name then
    [{ e with kind := .resource }]
  else []

/-- The pseudo-files of one entry: its Finder information, and its comment when it
has one. -/
def entryPseudoFiles (vol : ServedVolume) (e : Entry) : MlCall (Except Int (List Entry)) := do
  let info := e.pseudo finderinfoString .finderinfo 32
  if !(← Ml.alloc) then return .error (-ENOMEM)
  match vol.convertName e.name with
  | none => return .ok [info]
  | some afpName =>
    match ← readComment vol afpName e.parentDid with
    | .error _ => return .ok [info]
    | .ok comment =>
      if comment.length = 0 then return .ok [info]
      if !(← Ml.alloc) then return .error (-ENOMEM)
      return .ok [info, e.pseudo commentString .comment comment.length]

/-- The loop of `appledouble_readdir` over the entries of the directory: the forks
listed and the pseudo-files. -/
def viewEntries (vol : ServedVolume) :
    List Entry → List Entry → List Entry → MlCall (Except Int (List Entry))
  | [], forks, pseudo => return .ok (forks ++ pseudo)
  | e :: es, forks, pseudo => do
    match ← entryPseudoFiles vol e with
    | .error err => return .error err
    | .ok more => viewEntries vol es (forks ++ e.fork) (pseudo ++ more)

/-- `appledouble_readdir`: the listing, or `none` for a path that is not the view's. -/
def appledoubleReaddir (vol : ServedVolume) (path : Path) :
    MlCall (Except Int (Option (List Entry))) := do
  match ← extraTranslate vol path with
  | .error e => return .error e
  | .ok (.none, _) => return .ok none
  | .ok (.appledouble, newpath) =>
    match ← llReaddir vol newpath true with
    | .error e => return .error e
    | .ok l =>
      match ← viewEntries vol l [] [] with
      | .error e => return .error e
      | .ok l => return .ok (some l)
  | .ok _ => return .error (-ENOTDIR)

end NC
