import NetatalkClient.Framework.Pool
import NetatalkClient.Model.Dsi.Session

/-!
# The server structures of afpfsd

The list of `afp.c` and the structures on it, as what the threads of afpfsd share. Each
access that another thread can come between is one operation, and an operation on a
structure that was freed is a fault. A structure keeps its number for good: an address that
the allocator hands out again would be another number.

A thread that goes on using a server without a reference of its own is counted in `users`,
from where it learns of the server until it is done with it.
-/

namespace NC

inductive Mounted where
  | unmounted
  | mounted
  | unmounting
  deriving DecidableEq, Repr

inductive Attached where
  | detached
  | attached
  | detaching
  deriving DecidableEq, Repr

/-- The FUSE thread of a volume: none, one whose file system runs, or one whose file system
has ended. -/
inductive FuseThread where
  | none
  | running
  | ending
  deriving DecidableEq, Repr

/-- A volume, as the daemon's threads see it. -/
structure FuseVolume where
  mountpoint : Path := []
  mounted : Mounted := .unmounted
  attached : Attached := .detached
  /-- `volume->priv`, the FUSE handle. -/
  priv : Bool := false
  thread : FuseThread := .none
  requests : Nat := 0
  deriving DecidableEq, Repr

/-- What of a server its threads read and write. -/
structure AfpSession where
  state : ConnectState := .disconnected
  fd : Bool := false
  generation : Nat := 0
  reconnecting : Bool := false
  suspended : Bool := false
  volumes : List FuseVolume := []
  deriving DecidableEq, Repr

/-- Where a structure is: with the thread that made it, on the list, taken off it
(`SERVER_STATE_DESTROYED`), or never listed and then left behind or freed by its maker. -/
inductive Listing where
  | own
  | listed
  | removed
  | abandoned
  | discarded
  deriving DecidableEq, Repr

structure AfpServer where
  refcount : Nat := 1
  listing : Listing := .own
  frees : Nat := 0
  /-- The threads that use it without a reference. -/
  users : Nat := 0
  session : AfpSession := {}
  deriving DecidableEq, Repr

/-- The server structures, the list that begins at `server_base`, and whether one was used
after it was freed. -/
structure Servers where
  server : Nat → AfpServer := fun _ => {}
  count : Nat := 0
  list : List Nat := []
  fault : Bool := false

/-- What `afp_server_connect` finds under the list lock. -/
inductive Published where
  | fresh
  | again
  | destroyed
  deriving DecidableEq, Repr

inductive ServerOp where
  | access (s : Nat) (f : AfpServer → AfpSession)
  /-- What the server, the network or the operating system decides. -/
  | choose
  | init
  /-- The locked part of `afp_server_connect`. -/
  | publish (s : Nat)
  /-- The locked part of `afp_server_remove`, which `leaving` makes the end of the caller's
  use. -/
  | unlink (s : Nat) (leaving : Bool)
  | hold (s : Nat)
  | release (s : Nat)
  | findByMountpoint (mountpoint : Path)
  /-- The locked part of `process_server_fds`. -/
  | ready
  /-- `get_server_base`, read without the lock. -/
  | base
  /-- `s->next`, read without the lock. -/
  | next (s : Nat)
  /-- `pthread_join` of a volume's FUSE thread. -/
  | join (s j : Nat)
  /-- The file system of a volume ends once its requests have. -/
  | fuseEnds (s j : Nat)
  /-- `pthread_create` of `start_fuse_thread`. -/
  | startFuse (s j : Nat)
  /-- The kernel sends a request to a volume. -/
  | startRequest (s j : Nat)
  /-- `pthread_create` of `afpc_dsi_incoming_attention`, which gets a reference. -/
  | startAttention (s generation : Nat)
  /-- The last of a thread's use of a server, with what it leaves. -/
  | leave (s : Nat) (f : AfpSession → AfpSession)
  /-- A server that its maker has no more use for, unlisted and allocated. -/
  | abandon (s : Nat)
  /-- `afp_free_server` of one that was never listed. -/
  | discard (s : Nat)

def ServerOp.Ans : ServerOp → Type
  | .access .. => AfpServer
  | .choose => Nat
  | .init => Nat
  | .publish _ => Published
  | .unlink .. => Bool
  | .findByMountpoint _ => Option (Nat × Nat)
  | .ready => Option Nat
  | .base => Option Nat
  | .next _ => Option Nat
  | _ => Unit

/-- `connect_state`, of a server that is not removed. -/
def AfpServer.connectState (x : AfpServer) : Option ConnectState :=
  if x.listing = .removed then none else some x.session.state

namespace AfpSession

def setVolume (x : AfpSession) (j : Nat) (f : FuseVolume → FuseVolume) : AfpSession :=
  { x with volumes := x.volumes.modify j f }

def volume (x : AfpSession) (j : Nat) : FuseVolume := x.volumes.getD j {}

end AfpSession

namespace Servers

variable (v : Servers)

def touch (s : Nat) : Servers :=
  { v with fault := v.fault || decide ((v.server s).frees ≠ 0) }

def walk : Servers :=
  { v with fault := v.fault || v.list.any fun s => decide ((v.server s).frees ≠ 0) }

def alter (s : Nat) (f : AfpServer → AfpServer) : Servers :=
  { v with server := Function.update v.server s (f (v.server s)) }

def enter (s : Nat) : Servers := v.alter s fun x => { x with users := x.users + 1 }

def leave (s : Nat) : Servers := v.alter s fun x => { x with users := x.users - 1 }

def setSession (s : Nat) (f : AfpSession → AfpSession) : Servers :=
  v.alter s fun x => { x with session := f x.session }

def hold (s : Nat) : Servers := (v.touch s).alter s fun x => { x with refcount := x.refcount + 1 }

/-- `afp_server_release`, with `afp_free_server` at the last reference. -/
def release (s : Nat) : Servers :=
  (v.touch s).alter s fun x => { x with
    refcount := x.refcount - 1
    frees := if x.refcount = 1 then x.frees + 1 else x.frees }

/-- The first volume of the list with the mount point. -/
def findByMountpoint (mountpoint : Path) : Option (Nat × Nat) :=
  v.list.findSome? fun s =>
    ((v.server s).session.volumes.findIdx? (·.mountpoint == mountpoint)).map (s, ·)

/-- The server behind another on the list. That of a server no longer listed is not
followed. -/
def next (s : Nat) : Option Nat := (v.list.dropWhile (· != s)).tail.head?

/-- The operation, by the choice `c`, or `none` while it waits. -/
def serve : (r : ServerOp) → Nat → Option (r.Ans × Servers)
  | .access s f, _ =>
    some (v.server s, (v.touch s).alter s fun x => { x with session := f x })
  | .choose, c => some (c, v)
  | .init, _ =>
    some (v.count, { v with server := Function.update v.server v.count {}, count := v.count + 1 })
  | .publish s, _ =>
    let v := (v.walk).touch s
    if (v.server s).listing = .removed then some (.destroyed, v)
    else
      let v := v.setSession s fun x => { x with fd := true, state := .connecting }
      if s ∈ v.list then some (.again, v)
      else some (.fresh, { (v.alter s fun x => { x with listing := .listed }).enter s with
        list := s :: v.list })
  | .unlink s leaving, _ =>
    let v := if leaving then v.walk.leave s else v.walk
    if s ∈ v.list then
      some (true, { v.alter s fun x => { x with listing := .removed } with list := v.list.erase s })
    else some (false, v)
  | .hold s, _ => some ((), v.hold s)
  | .release s, _ => some ((), v.release s)
  | .findByMountpoint mountpoint, _ =>
    match v.findByMountpoint mountpoint with
    | none => some (none, v.walk)
    | some (s, j) => some (some (s, j), v.walk.hold s)
  | .ready, c =>
    match v.list[c]? with
    | some s =>
      if (v.server s).session.state ≠ .disconnected ∧ (v.server s).session.fd then
        some (some s, v.walk.hold s)
      else some (none, v.walk)
    | none => some (none, v.walk)
  | .base, _ =>
    match v.list.head? with
    | none => some (none, v)
    | some s => some (some s, v.enter s)
  | .next s, _ =>
    match v.next s with
    | none => some (none, v.touch s)
    | some t => some (some t, (v.touch s).enter t)
  | .join s j, _ =>
    if ((v.server s).session.volume j).thread = .none then some ((), v) else none
  | .fuseEnds s j, _ =>
    if ((v.server s).session.volume j).requests = 0 then
      some ((), (v.touch s).setSession s (·.setVolume j fun x => { x with thread := .ending }))
    else none
  | .startFuse s j, _ =>
    some ((), ((v.touch s).setSession s (·.setVolume j fun x => { x with
      thread := .running })).enter s)
  | .startRequest s j, _ =>
    some ((), ((v.touch s).setSession s (·.setVolume j fun x => { x with
      requests := x.requests + 1 })).enter s)
  | .startAttention .., _ => some ((), v)
  | .leave s f, _ => some ((), (v.leave s).setSession s f)
  | .abandon s, _ => some ((), v.alter s fun x => { x with listing := .abandoned })
  | .discard s, _ =>
    some ((), (v.touch s).alter s fun x => { x with
      listing := .discarded, refcount := 0, frees := x.frees + 1 })

end Servers

end NC
