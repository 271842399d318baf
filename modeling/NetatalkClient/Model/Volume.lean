import NetatalkClient.Model.Protocol

/-!
# Volumes and the requests about their objects

`Req` is what a call of the library asks of its surroundings: the AFP requests
of `proto_files.c` and `proto_directory.c`, the clock, and the allocator. An
AFP request's answer is the value its `afp_` function returns (the server's
result code, the error of `afpc_dsi_send` or -1 without memory) with what the
reply handler stored. `Call` is a program over the client's state that sends
such requests.
-/

namespace NC

inductive PathEncoding where
  | longName
  | utf8Name
  deriving DecidableEq, Repr

/-- A volume, as the calls on its paths read it. `convertPath` is
`convert_path_to_afp_alloc` and `nameToUnix` is `convert_name_to_unix`, both at
the volume's own encoding. -/
structure Volume where
  attributes : Nat
  extraFlags : Nat
  pathEncoding : PathEncoding
  convertPath : Path → Except Int Path
  nameToUnix : Name → Option Name
  /-- A conversion fails with a negative errno. -/
  convertPath_neg : ∀ p e, convertPath p = .error e → e < 0

/-- A volume whose names need no conversion. -/
def plainVolume : Volume where
  attributes := 0
  extraFlags := 0
  pathEncoding := .utf8Name
  convertPath := .ok
  nameToUnix := some
  convertPath_neg := nofun

def Volume.isReadonly (vol : Volume) : Bool :=
  vol.attributes &&& kReadOnly != 0 || vol.extraFlags &&& VOLUME_EXTRA_FLAGS_READONLY != 0

/-- `copy_path`: the bytes the path header's length field can announce. -/
def copyPath (vol : Volume) (name : Path) : Path :=
  match vol.pathEncoding with
  | .utf8Name => name.take 65535
  | .longName => name.take 255

/-- `unixpath_to_afppath`: a slash separates by NUL, and a colon is AFP's slash. -/
def unixpathToAfppath (name : Path) : Path :=
  name.map fun c => if c = slash then 0 else if c = colon then slash else c

/-- The name a request carries for an AFP name of the client. -/
def Volume.wireName (vol : Volume) (name : Path) : Path := unixpathToAfppath (copyPath vol name)

/-- The parameters of an `FPGetFileDirParms` reply that the modelled calls read
from `struct afp_dirent`. -/
structure Dirent where
  isdir : Bool
  valid : Nat
  cnid : Nat
  deriving DecidableEq, Repr

/-- What a call asks of the server, of the clock and of the allocator. -/
inductive Req where
  | alloc
  | now
  | getFileDirParms (did filebitmap dirbitmap : Nat) (name : Path)
  | delete (did : Nat) (name : Path)
  | exchangeFiles (srcDid dstDid : Nat) (src dst : Path)
  | moveAndRename (srcDid dstDid : Nat) (src dst newName : Path)
  deriving DecidableEq, Repr

/-- The answer to a request: whether there was memory, the time in seconds, the
result with the parameters read, or the result alone. -/
@[reducible] def Req.Ans : Req → Type
  | .alloc => Bool
  | .now => Nat
  | .getFileDirParms .. => Int × Dirent
  | .delete .. => Int
  | .exchangeFiles .. => Int
  | .moveAndRename .. => Int

/-- An entry of a volume's directory ID cache, `struct did_cache_entry`. -/
structure DidEntry where
  dirname : Path
  did : Nat
  parentdid : Nat
  name : Name
  time : Nat
  deriving DecidableEq, Repr

structure Client where
  didCache : List DidEntry
  deriving DecidableEq, Repr

abbrev Call (α : Type) := Prog Client Req Req.Ans α

/-- `malloc` or `strndup`: whether it found memory. -/
def alloc : Call Bool := .request Req.alloc

def now : Call Nat := .request Req.now

def afpGetfiledirparms (vol : Volume) (did filebitmap dirbitmap : Nat) (name : Path) :
    Call (Int × Dirent) :=
  .request (Req.getFileDirParms did filebitmap dirbitmap (vol.wireName name))

def afpDelete (vol : Volume) (did : Nat) (name : Path) : Call Int :=
  .request (Req.delete did (vol.wireName name))

def afpExchangefiles (vol : Volume) (srcDid dstDid : Nat) (src dst : Path) : Call Int :=
  .request (Req.exchangeFiles srcDid dstDid (vol.wireName src) (vol.wireName dst))

/-- `afp_moveandrename`; a destination folder of `none` is the empty path. -/
def afpMoveandrename (vol : Volume) (srcDid dstDid : Nat) (src : Path) (dst : Option Path)
    (newName : Path) : Call Int :=
  .request (Req.moveAndRename srcDid dstDid (vol.wireName src) (dst.elim [] vol.wireName)
    (vol.wireName newName))

/-- `ll_answer_errno`: the positive errno of an answer about an object. -/
def llAnswerErrno (rc : Int) : Int :=
  if rc = kFPNoErr then 0
  else if rc = kFPAccessDenied then EACCES
  else if rc = kFPObjectNotFound then ENOENT
  else if rc = kFPVolLocked then EROFS
  else EIO_

theorem llAnswerErrno_eq_zero {rc : Int} : llAnswerErrno rc = 0 ↔ rc = kFPNoErr := by
  unfold llAnswerErrno
  split_ifs with h <;> simp_all only [iff_false] <;> decide

theorem llAnswerErrno_nonneg (rc : Int) : 0 ≤ llAnswerErrno rc := by
  unfold llAnswerErrno
  split_ifs <;> decide

/-- `get_parameters` with the empty bitmap, as `is_dir` calls it: 1 for a
directory, 0 for another object, or a negative errno. -/
def isDir (vol : Volume) (dirid : Nat) (basename : Name) : Call Int := do
  let (rc, e) ← afpGetfiledirparms vol dirid 0 0 basename
  let ret := -llAnswerErrno rc
  return if ret ≠ 0 then ret else if e.isdir then 1 else 0

end NC
