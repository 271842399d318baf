import NetatalkClient.Framework.Lift
import NetatalkClient.Model.Names.Unicode
import NetatalkClient.Model.Rename

/-!
# The requests of the calls on files and folders

The calls of `midlevel.c`, `lowlevel.c`, `resource.c` and `forklist.c` stand over
two layers: the directory ID cache of `did.c`, which they call (`DidCall`), and the
server, the clock and the allocator, of which they ask `Request`. A program of
theirs is an `MlCall`; `system` puts the functions of `did.c` in the place of the
calls to them, and is what runs against a server. The requests of `Req` are among
those of the system (`reqs`).

An open fork's record lives at an address of the client's memory, and the
volume's list of open forks holds addresses.
-/

namespace NC

/-- The kinds of a record in the AppleDouble view, `AFP_META_*`. -/
inductive MetaKind where
  | none
  | resource
  | appledouble
  | finderinfo
  | comment
  | serverIcon
  deriving DecidableEq, Repr, Inhabited

/-- `server_type`, as far as the calls tell servers apart. -/
inductive ServerType where
  | netatalk
  | timecapsule
  | airport
  | macintosh
  | other
  deriving DecidableEq, Repr

/-- How a volume shows the owners of its objects, `mapping`. -/
inductive Mapping where
  | unknown
  | common
  | loginids (uid gid : Nat)
  deriving DecidableEq, Repr

/-- A volume with what the calls read of its server. -/
structure ServedVolume extends Volume where
  /-- `av_number` of the session's AFP version. -/
  avNumber : Nat
  serverType : ServerType
  serverMajor : Nat
  serverMinor : Nat
  quantum : Nat
  mapping : Mapping
  mountTime : Int
  connectTime : Int
  volumeName : Name
  icon : Bytes
  /-- `convert_path_to_afp` into a buffer of `AFPC_MAX_NAME_BYTES`. -/
  convertName : Name → Option Name
  /-- `convert_path_to_unix` into a buffer of the size given. -/
  pathToUnix : Path → Nat → Path

/-- A volume without the view, with plain names, of a server of AFP 3.3. -/
def plainServed : ServedVolume where
  toVolume := plainVolume
  avNumber := 33
  serverType := .netatalk
  serverMajor := 4
  serverMinor := 0
  quantum := 1024
  mapping := .common
  mountTime := 0
  connectTime := 0
  volumeName := []
  icon := []
  convertName := some
  pathToUnix p _ := p

namespace ServedVolume

/-- `afp_server_is_apple`. -/
def isApple (vol : ServedVolume) : Bool :=
  vol.serverType == .timecapsule || vol.serverType == .airport || vol.serverType == .macintosh

/-- `afp_server_reports_fork_length`. -/
def reportsForkLength (vol : ServedVolume) : Bool :=
  vol.serverType == .netatalk && decide (30 ≤ vol.avNumber)

/-- `afp_server_copies_files`. -/
def copiesFiles (vol : ServedVolume) : Bool :=
  vol.serverType == .netatalk && decide (34 ≤ vol.avNumber)

/-- `afp_server_drops_long_commands`: Netatalk before 4.5. -/
def dropsLongCommands (vol : ServedVolume) : Bool :=
  vol.serverType == .netatalk &&
    !(if vol.serverMajor ≠ 4 then decide (4 < vol.serverMajor) else decide (5 ≤ vol.serverMinor))

/-- `afp_server_keeps_unset_ids`. -/
def keepsUnsetIds (vol : ServedVolume) : Bool := vol.serverType == .netatalk

/-- `afp_server_gives_directory_ids_to_files`, and
`afp_server_keeps_directory_modes`: Netatalk before version 3. -/
def isNetatalk2 (vol : ServedVolume) : Bool :=
  vol.serverType == .netatalk && decide (vol.serverMajor < 3)

def hasFlag (vol : ServedVolume) (flag : Nat) : Bool := vol.extraFlags &&& flag != 0

/-- `translate_uidgid_to_client`. -/
def shownIds (vol : ServedVolume) (uid gid : Nat) : Option (Nat × Nat) :=
  match vol.mapping with
  | .unknown => none
  | .common => some (uid, gid)
  | .loginids u g => some (u, g)

end ServedVolume

abbrev nsPerSec : Int := 1000000000

def afpNsFromSec (s : Int) : Int :=
  if s > (2 ^ 63 - 1 : Int).tdiv nsPerSec then 2 ^ 63 - 1
  else if s < (-2 ^ 63 : Int).tdiv nsPerSec then -2 ^ 63
  else s * nsPerSec

/-- One object's parameters as a reply carries them or a request sets them,
`struct afp_dirent`. -/
structure Params where
  isdir : Bool := false
  /-- The members that hold a value, as bits of the object's bitmap. -/
  valid : Nat := 0
  cnid : Nat := 0
  parentDid : Nat := 0
  attributes : Nat := 0
  size : Nat := 0
  resourcesize : Nat := 0
  offspring : Nat := 0
  permissions : Nat := 0
  uaPermissions : Nat := 0
  uid : Nat := 0
  gid : Nat := 0
  createNs : Int := 0
  modNs : Int := 0
  finderinfo : Bytes := []
  deriving DecidableEq, Repr, Inhabited

/-- An entry of a listing: its name is in the client's form. -/
structure Entry extends Params where
  name : Name
  kind : MetaKind
  deriving DecidableEq, Repr, Inhabited

/-- An open fork's record, `struct afp_file_info`. -/
structure FileInfo where
  size : Nat := 0
  did : Nat := 0
  cnid : Nat := 0
  resource : MetaKind := .none
  forkid : Nat := 0
  sync : Bool := false
  writable : Bool := false
  dirty : Bool := false
  /-- The open of this record made the file, as `fuse_create` notes. -/
  created : Bool := false
  basename : Name := []
  deriving DecidableEq, Repr

/-- The parameters an `FPOpenFork` reply carries beside the fork's number. -/
structure OpenReply where
  forkid : Nat
  cnid : Option Nat
  size : Option Nat
  deriving DecidableEq, Repr, Inhabited

/-- What a call asks of its surroundings. A request with a version of its own from
AFP 3 on (`FPReadExt`, `FPEnumerateExt2`) is one constructor with the older one. -/
inductive Request where
  | alloc
  | now
  /-- The outcomes of the reallocations of one walk over the open forks. -/
  | reallocs
  | getFileDirParms (did filebitmap dirbitmap : Nat) (name : Path)
  /-- `FPSetDirParms` for the owner and the group, `FPSetFileDirParms` for others. -/
  | setParms (dirOnly : Bool) (did : Nat) (name : Path) (bitmap : Nat) (values : Params)
  | enumerate (did filebitmap dirbitmap startindex : Nat) (name : Path)
  | createFile (did : Nat) (name : Path)
  | createDir (did : Nat) (name : Path)
  | delete (did : Nat) (name : Path)
  | exchangeFiles (srcDid dstDid : Nat) (src dst : Path)
  | moveAndRename (srcDid dstDid : Nat) (src dst newName : Path)
  | copyFile (srcDid : Nat) (src : Path) (dstDid : Nat) (dst : Path)
  | openFork (resource : Bool) (did bitmap accessmode : Nat) (name : Path)
  | closeFork (forkid : Nat)
  | flushFork (forkid : Nat)
  | syncFork (forkid : Nat)
  | setForkParms (forkid bitmap size : Nat)
  | byteRangeLock (unlock : Bool) (forkid offset len : Nat)
  | read (forkid offset count : Nat)
  | write (forkid offset : Nat) (data : Bytes)
  | openDT
  | getComment (dtrefnum did : Nat) (name : Path)
  | addComment (dtrefnum did : Nat) (name : Path) (comment : Bytes)
  | getExtAttr (did maxsize : Nat) (name : Path) (attr : Name)
  | setExtAttr (did bitmap : Nat) (name : Path) (attr : Name) (value : Bytes)
  | listExtAttrs (did maxsize : Nat) (name : Path)
  | removeExtAttr (did : Nat) (name : Path) (attr : Name)
  deriving DecidableEq, Repr

/-- What an extended attribute's reply holds: the length it announces, and the
bytes that were copied. -/
structure ExtAttr where
  size : Nat
  data : Bytes
  deriving DecidableEq, Repr, Inhabited

/-- The answer to a request: what its `afp_` function returns with what the reply
handler stored. -/
@[reducible] def Request.Ans : Request → Type
  | .alloc => Bool
  | .now => Nat
  | .reallocs => Nat → Bool
  | .getFileDirParms .. => Int × Params
  | .enumerate .. => Int × List Entry
  | .createDir .. => Int × Nat
  | .openFork .. => Int × OpenReply
  | .read .. => Int × Bytes
  | .write .. => Int × Nat
  | .openDT => Int × Nat
  | .getComment .. => Int × Bytes
  | .getExtAttr .. | .listExtAttrs .. => Int × ExtAttr
  | .setParms .. | .createFile .. | .delete .. | .exchangeFiles .. | .moveAndRename ..
  | .copyFile .. | .closeFork .. | .flushFork .. | .syncFork .. | .setForkParms .. | .byteRangeLock ..
  | .addComment .. | .setExtAttr .. | .removeExtAttr .. => Int

instance (r : Request) : Inhabited r.Ans := by
  cases r <;> exact ⟨default⟩

/-- The requests of `Req`, of whose answers the calls read a part. -/
def reqs : Among Req.Ans Request.Ans where
  req
    | .alloc => .alloc
    | .now => .now
    | .getFileDirParms did fb db name => .getFileDirParms did fb db name
    | .delete did name => .delete did name
    | .exchangeFiles sd dd s d => .exchangeFiles sd dd s d
    | .moveAndRename sd dd s d n => .moveAndRename sd dd s d n
  ans
    | .alloc, a => a
    | .now, a => a
    | .getFileDirParms .., (rc, e) => (rc, ⟨e.isdir, e.valid, e.cnid⟩)
    | .delete .., a => a
    | .exchangeFiles .., a => a
    | .moveAndRename .., a => a

/-! ## The cache and a listing -/

/-- `listing_holds_folder`: the listing's folder of the name has the ID. -/
def listingHoldsFolder (l : List Entry) (name : Name) (did : Nat) : Bool :=
  match l.find? fun e => e.isdir && e.valid &&& kFPNodeIDBit != 0 && e.name == name with
  | some e => e.cnid == did
  | none => false

/-- Whether an entry contradicts the folder's ID or its listing. -/
def contradictsListing (path : Path) (did : Nat) (l : Option (List Entry)) (p : DidEntry) : Bool :=
  let pathLen := didPathLength path
  if did ≠ 0 ∧ p.dirname = path.take pathLen then p.did != did
  else if didChildOf p.dirname path pathLen then
    (did != 0 && p.parentdid != did) || l.any fun l => !listingHoldsFolder l p.name p.did
  else false

/-- `check_did_entry`'s walk over the cache, with the listing's folders if it was
indexed. -/
def checkDidListing (path : Path) (did : Nat) (l : Option (List Entry)) (now : Nat)
    (cache : List DidEntry) : List DidEntry :=
  (cache.filter (contradictsListing path did l)).foldl
    (fun c p => forgetLocked p.dirname false now c) (cache.filter (!contradictsListing path did l ·))

/-- `check_did_entry` with a listing: its folders are indexed when there are any, the
cache holds a child of the folder and there is memory. -/
def checkDidEntryListing (path : Path) (did : Nat) (l : List Entry) : Call Unit := do
  let hasCachedChild ← .modifyGet fun s =>
    (s.didCache.any fun p => didChildOf p.dirname path (didPathLength path), s)
  let indexed ← if hasCachedChild ∧ l ≠ [] then alloc else pure l.isEmpty
  let t ← now
  .modify fun s => { s with
    didCache := checkDidListing path did (if indexed then some l else none) t s.didCache }

def checkDidEntryAlone (path : Path) (did : Nat) : Call Unit := do
  let t ← now
  .modify fun s => { s with didCache := checkDidEntry path did t s.didCache }

/-! ## The layers -/

/-- The functions of `did.c` that the calls use. -/
inductive DidCall where
  | getDirid (path : Path)
  | removeDidSubtree (path : Path)
  | removeDidLineage (path : Path)
  | checkDidEntry (path : Path) (did : Nat)
  | checkDidEntryListing (path : Path) (did : Nat) (l : List Entry)
  deriving DecidableEq, Repr

@[reducible] def DidCall.Ans : DidCall → Type
  | .getDirid _ => Except Int (Nat × Name)
  | _ => Unit

def DidCall.impl (vol : Volume) : (c : DidCall) → Call c.Ans
  | .getDirid path => NC.getDirid vol path
  | .removeDidSubtree path => NC.removeDidSubtree path
  | .removeDidLineage path => NC.removeDidLineage path
  | .checkDidEntry path did => checkDidEntryAlone path did
  | .checkDidEntryListing path did l => NC.checkDidEntryListing path did l

/-- What a call of the middle layer asks. -/
inductive MlReq where
  | did (c : DidCall)
  | sys (r : Request)
  deriving DecidableEq, Repr

@[reducible] def MlReq.Ans : MlReq → Type
  | .did c => c.Ans
  | .sys r => r.Ans

instance (c : DidCall) : Inhabited c.Ans := by
  cases c <;> exact ⟨default⟩

instance (r : MlReq) : Inhabited r.Ans := by
  cases r <;> exact ⟨default⟩

/-- The middle layer's state of a volume: the reference of the Desktop database, and
the records of the forks. -/
structure MlState where
  dtrefnum : Nat
  noDesktop : Bool
  file : Nat → FileInfo
  /-- The first address no record has had. -/
  nextFile : Nat
  openForks : List Nat

/-- The state of a volume on which nothing was done. -/
def MlState.fresh : MlState := ⟨0, false, fun _ => {}, 0, []⟩

structure VolState where
  client : Client
  ml : MlState

/-- The directory ID cache within the volume's state. -/
def clientPart : Part VolState Client where
  get s := s.client
  put c s := { s with client := c }
  get_put _ _ := rfl
  put_get _ := rfl
  put_put _ _ _ := rfl

/-- The middle layer's state within the volume's state. -/
def mlPart : Part VolState MlState where
  get s := s.ml
  put m s := { s with ml := m }
  get_put _ _ := rfl
  put_get _ := rfl
  put_put _ _ _ := rfl

/-- A call of the middle layer on a volume. -/
abbrev MlCall (α : Type) := Prog MlState MlReq MlReq.Ans α

abbrev SysCall (α : Type) := Prog VolState Request Request.Ans α

/-- What answers a request of the middle layer. -/
def layers (vol : Volume) : (r : MlReq) → SysCall r.Ans
  | .did c => Prog.lift clientPart reqs (c.impl vol)
  | .sys r => .request r

/-- A call of the middle layer over the functions of `did.c`. -/
def system {α : Type} (vol : Volume) (c : MlCall α) : SysCall α := Prog.handle mlPart (layers vol) c

/-! ## Names -/

/-- `invalid_filename`: a component is longer than the server's names may be. -/
def invalidFilename (vol : ServedVolume) (filename : Path) : Bool :=
  filename != [slash] && ((filename.splitOn slash).filter (· != [])).any fun p =>
    if vol.avNumber < 30 then decide (31 < p.length)
    else match vol.pathEncoding with
      | .utf8Name => decide (255 < mbStrLen p.length p)
      | .longName => decide (255 < p.length)

namespace Ml

/-! ## The requests, with names as they go on the wire -/

def sys (r : Request) : MlCall r.Ans := .request (MlReq.sys r)

def did (c : DidCall) : MlCall c.Ans := .request (MlReq.did c)

def alloc : MlCall Bool := sys .alloc

def getDirid (path : Path) : MlCall (Except Int (Nat × Name)) := did (.getDirid path)

def removeDidSubtree (path : Path) : MlCall Unit := did (.removeDidSubtree path)

def removeDidLineage (path : Path) : MlCall Unit := did (.removeDidLineage path)

def afpGetfiledirparms (vol : ServedVolume) (did filebitmap dirbitmap : Nat) (name : Path) :
    MlCall (Int × Params) :=
  sys (.getFileDirParms did filebitmap dirbitmap (vol.wireName name))

def afpDelete (vol : ServedVolume) (did : Nat) (name : Path) : MlCall Int :=
  sys (.delete did (vol.wireName name))

def afpExchangefiles (vol : ServedVolume) (srcDid dstDid : Nat) (src dst : Path) : MlCall Int :=
  sys (.exchangeFiles srcDid dstDid (vol.wireName src) (vol.wireName dst))

/-- `afp_moveandrename`; a destination folder of `none` is the empty path. -/
def afpMoveandrename (vol : ServedVolume) (srcDid dstDid : Nat) (src : Path) (dst : Option Path)
    (newName : Path) : MlCall Int :=
  sys (.moveAndRename srcDid dstDid (vol.wireName src) (dst.elim [] vol.wireName)
    (vol.wireName newName))

def afpCopyfile (vol : ServedVolume) (srcDid : Nat) (src : Path) (dstDid : Nat) (dst : Path) :
    MlCall Int :=
  sys (.copyFile srcDid (vol.wireName src) dstDid (vol.wireName dst))

def afpCreatefile (vol : ServedVolume) (did : Nat) (name : Path) : MlCall Int :=
  sys (.createFile did (vol.wireName name))

def afpCreatedir (vol : ServedVolume) (did : Nat) (name : Path) : MlCall (Int × Nat) :=
  sys (.createDir did (vol.wireName name))

def afpSetfiledirparms (vol : ServedVolume) (did : Nat) (name : Path) (bitmap : Nat)
    (values : Params) : MlCall Int :=
  sys (.setParms false did (vol.wireName name) bitmap values)

def afpSetdirparms (vol : ServedVolume) (did : Nat) (name : Path) (bitmap : Nat)
    (values : Params) : MlCall Int :=
  sys (.setParms true did (vol.wireName name) bitmap values)

/-- `afp_enumerate`, `afp_enumerateext` or `afp_enumerateext2`. -/
def afpEnumerate (vol : ServedVolume) (did filebitmap dirbitmap startindex : Nat) (name : Path) :
    MlCall (Int × List Entry) :=
  sys (.enumerate did filebitmap dirbitmap startindex (vol.wireName name))

def afpOpenfork (vol : ServedVolume) (resource : Bool) (did accessmode bitmap : Nat)
    (name : Path) : MlCall (Int × OpenReply) :=
  sys (.openFork resource did bitmap accessmode (vol.wireName name))

def afpClosefork (forkid : Nat) : MlCall Int := sys (.closeFork forkid)

def afpFlushfork (forkid : Nat) : MlCall Int := sys (.flushFork forkid)

def afpSyncfork (forkid : Nat) : MlCall Int := sys (.syncFork forkid)

def afpSetforkparms (forkid bitmap size : Nat) : MlCall Int :=
  sys (.setForkParms forkid bitmap size)

def afpByterangelock (unlock : Bool) (forkid offset len : Nat) : MlCall Int :=
  sys (.byteRangeLock unlock forkid offset len)

/-- `afp_read` or `afp_readext`; the reply handler keeps what the buffer holds. -/
def afpRead (forkid offset count : Nat) : MlCall (Int × Bytes) := do
  let (rc, data) ← sys (.read forkid offset count)
  return (rc, data.take count)

/-- `afp_write` or `afp_writeext`: the result, and the fork's offset after it. -/
def afpWrite (forkid offset : Nat) (data : Bytes) : MlCall (Int × Nat) :=
  sys (.write forkid offset data)

def afpOpendt : MlCall (Int × Nat) := sys .openDT

def afpGetcomment (vol : ServedVolume) (dtrefnum did : Nat) (name : Path) : MlCall (Int × Bytes) :=
  sys (.getComment dtrefnum did (vol.wireName name))

def afpAddcomment (vol : ServedVolume) (dtrefnum did : Nat) (name : Path) (comment : Bytes) :
    MlCall Int :=
  sys (.addComment dtrefnum did (vol.wireName name) comment)

def afpGetextattr (vol : ServedVolume) (did maxsize : Nat) (name : Path) (attr : Name) :
    MlCall (Int × ExtAttr) :=
  sys (.getExtAttr did maxsize (vol.wireName name) attr)

def afpSetextattr (vol : ServedVolume) (did bitmap : Nat) (name : Path) (attr : Name)
    (value : Bytes) : MlCall Int :=
  sys (.setExtAttr did bitmap (vol.wireName name) attr value)

def afpListextattr (vol : ServedVolume) (did maxsize : Nat) (name : Path) :
    MlCall (Int × ExtAttr) :=
  sys (.listExtAttrs did maxsize (vol.wireName name))

def afpRemoveextattr (vol : ServedVolume) (did : Nat) (name : Path) (attr : Name) : MlCall Int :=
  sys (.removeExtAttr did (vol.wireName name) attr)

/-! ## Records in the client's memory -/

/-- A new record, of `malloc` or of the caller's stack. -/
def newFile (f : FileInfo) : MlCall Nat :=
  .modifyGet fun s => (s.nextFile,
    { s with file := Function.update s.file s.nextFile f, nextFile := s.nextFile + 1 })

def getFile (fp : Nat) : MlCall FileInfo := .modifyGet fun s => (s.file fp, s)

def modifyFile (fp : Nat) (f : FileInfo → FileInfo) : MlCall Unit :=
  .modify fun s => { s with file := Function.update s.file fp (f (s.file fp)) }

end Ml

end NC
