import NetatalkClient.Model.Midlevel.Forks

/-!
# Attributes and listings

`ll_getattr` and `ll_readdir` of `lowlevel.c`, with the stat form of a record from
`listing.c`. Dates are in nanoseconds since 1970.
-/

namespace NC

abbrev S_IFMT : Nat := 0o170000
abbrev S_IFDIR : Nat := 0o040000
abbrev S_IFREG : Nat := 0o100000
abbrev S_IFLNK : Nat := 0o120000

def isDirMode (mode : Nat) : Bool := mode &&& S_IFMT == S_IFDIR

def isRegMode (mode : Nat) : Bool := mode &&& S_IFMT == S_IFREG

/-- `bits & ~mask`. -/
def clearBits (bits mask : Nat) : Nat := bits ^^^ (bits &&& mask)

/-- `struct stat`, as the calls fill it in. -/
structure Stat where
  mode : Nat := 0
  ino : Nat := 0
  uid : Nat := 0
  gid : Nat := 0
  nlink : Nat := 0
  size : Nat := 0
  blksize : Nat := 0
  blocks : Nat := 0
  ctime : Int := 0
  mtime : Int := 0
  deriving DecidableEq, Repr

/-! ## Records in the stat form -/

def blocksOf (size : Nat) : Nat := size / 512 + if size % 512 = 0 then 0 else 1

/-- `afp_dirent_time`. -/
def direntTime (vol : ServedVolume) (e : Params) (bit : Nat) (ns : Int) : Int :=
  if e.valid &&& bit = 0 then vol.connectTime * 1000000000 else ns

/-- `afp_dirent_mode`, of a record of the kind. -/
def direntMode (e : Params) (kind : MetaKind) : Nat :=
  let mode := if e.valid &&& kFPUnixPrivsBit ≠ 0 ∧ e.permissions ≠ 0 then e.permissions
    else if e.isdir then 0o700 ||| S_IFDIR else 0o600 ||| S_IFREG
  if kind = .finderinfo ∨ kind = .comment then clearBits mode S_IFMT ||| S_IFREG else mode

/-- `afp_dirent_to_stat`, of a record of the kind. -/
def direntToStat (vol : ServedVolume) (e : Params) (kind : MetaKind) : Except Int Stat :=
  match vol.shownIds e.uid e.gid with
  | none => .error (-EIO_)
  | some (uid, gid) =>
    let mode := direntMode e kind
    let size :=
      if isDirMode mode then if kind = .resource then 0 else e.offspring * 34 + 24
      else min (if kind = .resource then e.resourcesize else e.size) (2 ^ 63 - 1)
    .ok { mode := mode, ino := e.cnid, uid := uid, gid := gid, blksize := 4096
          nlink := if isDirMode mode then e.offspring + 2 else 1
          size := size, blocks := blocksOf size
          ctime := direntTime vol e kFPCreateDateBit e.createNs
          mtime := direntTime vol e kFPModDateBit e.modNs }

/-- `afp_pseudo_file_stat`. -/
def pseudoFileStat (st : Stat) (size : Nat) : Stat :=
  { st with
    mode := clearBits st.mode S_IFMT ||| S_IFREG, nlink := 1, size := size
    blocks := blocksOf size }

/-! ## Attributes -/

/-- The object's name for `ll_getattr`: AFP 2 reads the root as the volume's name in
its parent. -/
def getattrName (vol : ServedVolume) (path : Path) (dirid : Nat) (basename : Name) : Nat × Name :=
  if vol.avNumber < 30 ∧ path = [slash] then (1, vol.volumeName) else (dirid, basename)

def getattrFilebitmap (vol : ServedVolume) (resource : Bool) : Nat :=
  kFPAttributeBit ||| kFPCreateDateBit ||| kFPModDateBit ||| kFPNodeIDBit ||| kFPFinderInfoBit |||
    kFPParentDirIDBit ||| forkLengthBit vol resource |||
    (if vol.hasFlag VOLUME_EXTRA_FLAGS_VOL_SUPPORTS_UNIX then kFPUnixPrivsBit else 0)

def getattrDirbitmap (vol : ServedVolume) : Nat :=
  kFPAttributeBit ||| kFPCreateDateBit ||| kFPModDateBit ||| kFPNodeIDBit |||
    kFPParentDirIDBit ||| kFPOffspringCountBit |||
    (if vol.hasFlag VOLUME_EXTRA_FLAGS_VOL_SUPPORTS_UNIX then kFPUnixPrivsBit
     else kFPOwnerIDBit ||| kFPGroupIDBit)

/-- `ll_getattr`, of the data or the resource view. -/
def llGetattr (vol : ServedVolume) (path : Path) (resource : Bool) : MlCall (Except Int Stat) := do
  if invalidFilename vol path then return .error (-ENAMETOOLONG)
  match ← Ml.getDirid path with
  | .error _ => return .error (-ENOENT)
  | .ok (dirid, basename) =>
    let (did, name) := getattrName vol path dirid basename
    let (rc, e) ←
      Ml.afpGetfiledirparms vol did (getattrFilebitmap vol resource) (getattrDirbitmap vol) name
    if rc = kFPAccessDenied then return .error (-EACCES)
    if rc = kFPObjectNotFound then return .error (-ENOENT)
    if rc ≠ kFPNoErr then return .error (-EIO_)
    if e.isdir ∧ e.valid &&& kFPNodeIDBit ≠ 0 then Ml.did (.checkDidEntry path e.cnid)
    let e := if path = [slash] ∧ e.isdir then
        { e with
          createNs := afpNsFromSec vol.mountTime, modNs := afpNsFromSec vol.mountTime
          valid := e.valid ||| (kFPCreateDateBit ||| kFPModDateBit) }
      else e
    return direntToStat vol e (if resource then .resource else .none)

/-! ## Listings -/

def readdirNamebits (vol : ServedVolume) : Nat :=
  if vol.attributes &&& kSupportsUTF8Names ≠ 0 then kFPUTF8NameBit
  else kFPLongNameBit ||| kFPShortNameBit

def readdirUnixbits (vol : ServedVolume) : Nat :=
  if vol.hasFlag VOLUME_EXTRA_FLAGS_VOL_SUPPORTS_UNIX then kFPUnixPrivsBit else 0

def readdirFilebitmap (vol : ServedVolume) (resource : Bool) : Nat :=
  kFPAttributeBit ||| kFPParentDirIDBit ||| kFPCreateDateBit ||| kFPModDateBit ||| kFPNodeIDBit |||
    readdirUnixbits vol ||| readdirNamebits vol ||| forkLengthBit vol resource

def readdirDirbitmap (vol : ServedVolume) : Nat :=
  kFPAttributeBit ||| kFPParentDirIDBit ||| kFPCreateDateBit ||| kFPModDateBit ||| kFPNodeIDBit |||
    kFPOffspringCountBit ||| kFPOwnerIDBit ||| kFPGroupIDBit |||
    readdirUnixbits vol ||| readdirNamebits vol

/-- The most entries a listing holds: their array is of at most `UINT32_MAX` bytes. -/
abbrev listingMax : Nat := (2 ^ 32 - 1) / 104

/-- The bytes of a listing's pool that its names take, each with its end. -/
def poolUsed (l : List Entry) : Nat := (l.map fun e => e.name.length + 1).sum

/-- `afp_listing_reserve` had room for each entry in turn, of a name as long as any: the
pool too is of at most `UINT32_MAX` bytes. -/
def listingFits (l : List Entry) : Bool :=
  decide (l.length ≤ listingMax) && decide (poolUsed l.dropLast + maxNameBytes ≤ 2 ^ 32 - 1)

/-- The pages of `ll_readdir` from the entries read so far. `resolved` says that a
cached ID that names no folder has been resolved again. A page adds an entry or is
the last, so that the bound on a listing bounds the pages. -/
def readdirPages (vol : ServedVolume) (path : Path) (resource : Bool) :
    Nat → Nat → Name → Bool → List Entry → MlCall (Except Int (List Entry))
  | 0, _, _, _, _ => return .error EIO_
  | fuel + 1, dirid, basename, resolved, l => do
    let (rc, page) ← Ml.afpEnumerate vol dirid (readdirFilebitmap vol resource)
      (readdirDirbitmap vol) (l.length + 1) basename
    if rc = kFPNoErr ∨ rc = kFPObjectNotFound then
      if !listingFits (l ++ page) then return .error EIO_
      if page = [] ∨ rc = kFPObjectNotFound then return .ok (l ++ page)
      if 2 ^ 16 - 1 < l.length + page.length + 1 ∧ vol.avNumber ≤ 30 then return .error EOVERFLOW
      readdirPages vol path resource fuel dirid basename resolved (l ++ page)
    else if rc = kFPAccessDenied then return .error EACCES
    else if rc = kFPDirNotFound then
      if resolved then return .error ENOENT
      Ml.removeDidLineage path
      match ← Ml.getDirid path with
      | .error _ => return .error ENOENT
      | .ok (newdid, newname) =>
        if newdid = dirid then return .error ENOENT
        readdirPages vol path resource fuel newdid newname true []
    else return .error EIO_

def llReaddir (vol : ServedVolume) (path : Path) (resource : Bool) :
    MlCall (Except Int (List Entry)) := do
  if invalidFilename vol path then return .error (-ENAMETOOLONG)
  match ← Ml.getDirid path with
  | .error _ => return .error (-ENOENT)
  | .ok (dirid, basename) =>
    match ← readdirPages vol path resource (2 * listingMax + 3) dirid basename false [] with
    | .error e => return .error (-e)
    | .ok l =>
      -- `afp_listing_drop_unnamed`
      let l := l.filter (·.name != [])
      match l with
      | [] =>
        Ml.removeDidSubtree path
        return .ok l
      | e :: _ =>
        let did := if e.valid &&& kFPParentDirIDBit ≠ 0 then e.parentDid else 0
        Ml.did (.checkDidEntryListing path did l)
        return .ok l

end NC
