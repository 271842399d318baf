import NetatalkClient.Model.Midlevel.View

/-!
# Copies made by the command line

`retrieve_file` and `copy_remote_file` of `cmdline_afp.c` read a remote file from its beginning and
write what they get to a local file and to another remote file. The outcomes of their calls are the
fields of `Retrieve` and `RemoteCopy`.
-/

namespace NC

def copyBufsize : Nat := 102400

/-- What one `afp_sl_read` returns and stores. -/
structure SlRead where
  ret : Int := 0
  data : Bytes := []
  eof : Bool := false

/-- A loop under way: the reads made, `offset` (and `total`), and the bytes of the destination. -/
structure CopyState where
  reads : Nat := 0
  offset : Nat := 0
  dest : Bytes := []

/-- The outcome of each read, which depends on the offset, and whether the write behind it succeeds
in whole. -/
structure CopyCalls where
  read : Nat → Nat → SlRead
  written : Nat → Bool := fun _ => true

/-- The loop of `retrieve_file`, which `emptyEnds`, or of `copy_remote_file`, for at most `fuel` reads.
It ends with an error, `none`, or behind its last read. -/
def CopyCalls.loop (c : CopyCalls) (emptyEnds : Bool) :
    Nat → CopyState → Option (Option CopyState)
  | 0, _ => none
  | fuel + 1, s =>
    let r := c.read s.reads s.offset
    if r.ret ≠ 0 then some none
    else if r.data = [] ∧ emptyEnds then some (some s)
    else if r.data ≠ [] ∧ !c.written s.reads then some none
    else
      let t := ⟨s.reads + 1, s.offset + r.data.length, overwrite s.dest s.offset r.data⟩
      if r.eof then some (some t) else c.loop emptyEnds fuel t

structure Retrieve extends CopyCalls where
  volId : Bool := true
  path : Bool := true
  stat : Int := 0
  stSize : Int
  openRet : Int := 0

/-- `retrieve_file`: the error, or for 0 the bytes of the local file. -/
def Retrieve.retrieveFile (c : Retrieve) (fuel : Nat) : Option (Except Int Bytes) :=
  if !c.volId ∨ !c.path ∨ c.stat ≠ 0 ∨ c.openRet ≠ 0 then some (.error (-1))
  else (c.loop true fuel {}).map fun
    | none => .error (-1)
    | some s => if c.stSize < 0 ∨ s.offset ≠ c.stSize then .error (-EIO_) else .ok s.dest

structure RemoteCopy extends CopyCalls where
  targetStat : Int := -ENOENT
  sameIno : Bool := false
  openRet : Int := 0
  creat : Int := 0
  openCreated : Int := 0
  sourceClose : Int := 0
  targetClose : Int := 0
  metadata : Int := 0

/-- The target's stat, or one of the opens, makes `copy_remote_file` fail before its first read. -/
def RemoteCopy.Unstarted (c : RemoteCopy) : Prop :=
  c.targetStat ≠ 0 ∧ c.targetStat ≠ -ENOENT ∧ c.targetStat ≠ -EACCES ∨ c.targetStat = 0 ∧ c.sameIno ∨
    c.openRet ≠ 0 ∨ c.creat ≠ 0 ∧ c.creat ≠ -EEXIST ∨ c.openCreated ≠ 0

instance (c : RemoteCopy) : Decidable c.Unstarted := inferInstanceAs (Decidable (_ ∨ _))

/-- `copy_remote_file`: the error, or for 0 the bytes of the target. -/
def RemoteCopy.copyRemoteFile (c : RemoteCopy) (fuel : Nat) : Option (Except Int Bytes) :=
  if c.Unstarted then some (.error (-1))
  else (c.loop false fuel {}).map fun
    | none => .error (-1)
    | some s =>
      if c.sourceClose ≠ 0 ∨ c.targetClose ≠ 0 ∨ c.metadata < 0 then .error (-1) else .ok s.dest

end NC
