import NetatalkClient.Model.Volume

/-!
# The directory ID cache and the lookup that fills it

The functions of `did.c`. The cache is the list of entries from
`did_cache_base` on; each walk over it under `did_cache_mutex` is one atomic
step. The statistics are left out, as nothing reads them back. A lookup walks
the list `components` of a path: each folder's name with the path up to it.
-/

namespace NC

/-- `did_entry_expired`: an entry lives for `timeout` seconds. -/
def didEntryExpired (p : DidEntry) (now : Nat) : Bool := now > p.time + 10

/-- `did_path_length`: the length without trailing slashes, the root's being 1. -/
def didPathLength (path : Path) : Nat :=
  match (path.reverse.dropWhile (· == slash)).length with
  | 0 => min path.length 1
  | n + 1 => n + 1

/-- `did_separator`: the offset of the slash before a child's name. -/
def didSeparator (pathLen : Nat) : Nat := if pathLen = 1 then 0 else pathLen

/-- `did_child_of`: the entry names a folder directly in the path. -/
def didChildOf (dirname path : Path) (pathLen : Nat) : Bool :=
  let sep := didSeparator pathLen
  dirname.take sep == path.take sep && dirname[sep]? == some slash
    && !(dirname.drop (sep + 1)).contains slash

/-- The entries `forget_locked` drops besides the expired ones: the path's own,
those beneath it and, with `ancestors`, those above it. -/
def forgets (path : Path) (ancestors : Bool) (dirname : Path) : Bool :=
  let pathLen := didPathLength path
  let len := dirname.length
  let common := min len pathLen
  dirname.take common == path.take common
    && (len == pathLen
      || (decide (pathLen < len) && dirname[didSeparator pathLen]? == some slash)
      || (ancestors && decide (len < pathLen) && path[len]? == some slash))

def forgetLocked (path : Path) (ancestors : Bool) (now : Nat) (cache : List DidEntry) :
    List DidEntry :=
  cache.filter fun p => !(didEntryExpired p now || forgets path ancestors p.dirname)

def forgetDidPaths (path : Path) (ancestors : Bool) : Call Unit := do
  let t ← now
  .modify fun s => { s with didCache := forgetLocked path ancestors t s.didCache }

def removeDidLineage (path : Path) : Call Unit := forgetDidPaths path true

def removeDidSubtree (path : Path) : Call Unit := forgetDidPaths path false

/-- Whether an entry contradicts the ID of a folder: the folder's own entry under
another ID, or a child's under another parent. -/
def contradicts (path : Path) (did : Nat) (p : DidEntry) : Bool :=
  let pathLen := didPathLength path
  if did ≠ 0 ∧ p.dirname = path.take pathLen then p.did != did
  else if didChildOf p.dirname path pathLen then did != 0 && p.parentdid != did
  else false

/-- `check_did_entry` without a listing: the entries the folder's ID contradicts
go, and `forget_taken` drops what is beneath them. -/
def checkDidEntry (path : Path) (did now : Nat) (cache : List DidEntry) : List DidEntry :=
  (cache.filter (contradicts path did)).foldl
    (fun c p => forgetLocked p.dirname false now c) (cache.filter (!contradicts path did ·))

/-- `add_did_cache_entry`, given its allocations' outcome and the time. -/
def addDidCacheEntry (vol : Volume) (parentdid newDid : Nat) (path : Path) (name : Name) :
    Call Unit := do
  if ← alloc then
    match vol.nameToUnix name with
    | none => return
    | some unixName =>
      let t ← now
      .modify fun s => { s with
        didCache := ⟨path, newDid, parentdid, unixName, t⟩ :: s.didCache }

/-- The walk of `find_dirid_by_fullname`: the first entry of the path that the
walk meets decides, and the expired ones before it are dropped. -/
def findIn (path : Path) (now : Nat) : List DidEntry → Nat × List DidEntry
  | [] => (0, [])
  | p :: ps =>
    if didEntryExpired p now then
      if p.dirname = path then (0, ps) else findIn path now ps
    else if p.dirname = path then (p.did, p :: ps)
    else let (d, ps') := findIn path now ps; (d, p :: ps')

/-- `find_dirid_by_fullname`: the cached ID, or 0. -/
def findDiridByFullname (path : Path) : Call Nat := do
  let t ← now
  .modifyGet fun s => let (d, c) := findIn path t s.didCache; (d, { s with didCache := c })

/-- The components of a path from the position after `pre ++ cur`, each with the
path up to its end; what follows the last slash is not one of them. -/
def componentsFrom (pre cur : Path) : Path → List (Name × Path)
  | [] => []
  | c :: cs =>
    if c = slash then (cur, pre ++ cur) :: componentsFrom (pre ++ cur ++ [slash]) [] cs
    else componentsFrom pre (cur ++ [c]) cs

/-- The components a walk from a directory resolves: from `walk_start`, which
skips the slash after the directory's path of length `pathLen`. -/
def walkComponents (path : Path) (pathLen : Nat) : List (Name × Path) :=
  match path.drop pathLen with
  | c :: cs =>
    if c = slash then componentsFrom (path.take pathLen ++ [slash]) [] cs
    else componentsFrom (path.take pathLen) [] (c :: cs)
  | [] => []

/-- The nearest cached directory above a path, or the root: its ID and the length
of its path. The loop cuts the last component until `find_dirid_by_fullname`
answers. -/
def knownParent : Nat → Path → Nat → Call (Nat × Nat)
  | 0, _, did => return (did, 0)
  | fuel + 1, known, did =>
    match splitLast known with
    | none => return (did, 0)
    | some ([], _) => return (rootDid, 1)
    | some (cut, _) => do
      let did ← findDiridByFullname cut
      if did ≠ 0 then return (did, cut.length)
      knownParent fuel cut did

/-- One component of the walk: the ID of the folder `name` in `parentDid`, which
is cached under `fullParent`. -/
def lookupComponent (vol : Volume) (parentDid : Nat) (name : Name) (fullParent : Path)
    (rc : Int) (fi : Dirent) : Call (Except Int Nat) := do
  if rc ≠ kFPNoErr then return .error (-llAnswerErrno rc)
  if fi.valid &&& kFPNodeIDBit = 0 then return .error (-EIO_)
  if !fi.isdir then return .error (-ENOTDIR)
  if !(← alloc) then return .error (-ENOMEM)
  let t ← now
  .modify fun s => { s with didCache := checkDidEntry fullParent fi.cnid t s.didCache }
  addDidCacheEntry vol parentDid fi.cnid fullParent name
  return .ok fi.cnid

/-- The walk of `get_dirid` over the components. A component missing beneath a
cached directory starts the walk again from the root, by `restart`. -/
def walk (vol : Volume) (restart : Option (Call (Except Int Nat))) :
    List (Name × Path) → Nat → Call (Except Int Nat)
  | [], did => return .ok did
  | (name, fullParent) :: rest, did => do
    if !(← alloc) then return .error (-ENOMEM)
    let (rc, fi) ← afpGetfiledirparms vol did kFPNodeIDBit kFPNodeIDBit name
    match restart with
    | some again => if rc = kFPDirNotFound ∨ rc = kFPObjectNotFound then return ← again
    | none => pure ()
    match ← lookupComponent vol did name fullParent rc fi with
    | .error e => return .error e
    | .ok cnid => walk vol restart rest cnid

/-- `get_dirid`: the ID of a path's parent folder and the path's last name, or a
negative errno. -/
def getDirid (vol : Volume) (path : Path) : Call (Except Int (Nat × Name)) := do
  match splitLast path with
  | none => return .error (-EINVAL)
  | some (parent, basename) =>
    if basename.length ≥ maxNameBytes then return .error (-ENAMETOOLONG)
    if parent = [] then return .ok (rootDid, basename)
    if !(← alloc) then return .error (-ENOMEM)
    let did ← findDiridByFullname parent
    if did ≠ 0 then return .ok (did, basename)
    let (knownDid, knownLen) ← knownParent parent.length parent rootDid
    let fromRoot := do
      removeDidLineage path
      walk vol none (walkComponents path 1) rootDid
    let restart := if knownLen > 1 then some fromRoot else none
    match ← walk vol restart (walkComponents path knownLen) knownDid with
    | .error e => return .error e
    | .ok did => return .ok (did, basename)

end NC
