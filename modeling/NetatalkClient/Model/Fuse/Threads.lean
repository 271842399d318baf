import NetatalkClient.Model.Fuse.Servers

/-!
# The threads of afpfsd

What each thread of afpfsd does to the servers it shares with the others: the commands of
`fuse/commands.c`, the receive loop of `loop.c`, the attention handler of `dsi.c`, the FUSE
thread of a volume with its requests, and the forced end of `fuse/daemon.c`, with the
functions of `afp.c`, `connect.c` and `server.c` that they call.

An access whose value nothing here depends on is a `touch`. What the server answers, and
what the operating system does, is a choice. A loop over a server's volumes reads
`num_volumes` each time around.
-/

namespace NC

abbrev FuseCall := Prog Unit ServerOp ServerOp.Ans

namespace Fuse

def op (r : ServerOp) : FuseCall r.Ans := .request r

/-- Read a server and write what `f` makes of it, in one step. -/
def access (s : Nat) (f : AfpServer → AfpSession) : FuseCall AfpServer := op (.access s f)

def read (s : Nat) : FuseCall AfpServer := access s (·.session)

def write (s : Nat) (f : AfpSession → AfpSession) : FuseCall Unit := do
  let _ ← access s fun x => f x.session

/-- Read or write what nothing here depends on. -/
def touch (s : Nat) : FuseCall Unit := write s id

def setVolume (s j : Nat) (f : FuseVolume → FuseVolume) : FuseCall Unit := write s (·.setVolume j f)

def choose : FuseCall Nat := op .choose

/-- What may go one way or the other. -/
def chance : FuseCall Bool := do return (← choose) != 0

def serverInit : FuseCall Nat := op .init

def publish (s : Nat) : FuseCall Published := op (.publish s)

def unlink (s : Nat) (leaving : Bool) : FuseCall Bool := op (.unlink s leaving)

def hold (s : Nat) : FuseCall Unit := op (.hold s)

def release (s : Nat) : FuseCall Unit := op (.release s)

def volumeFindByMountpointHold (mountpoint : Path) : FuseCall (Option (Nat × Nat)) :=
  op (.findByMountpoint mountpoint)

def readyServer : FuseCall (Option Nat) := op .ready

def getServerBase : FuseCall (Option Nat) := op .base

def nextServer (s : Nat) : FuseCall (Option Nat) := op (.next s)

def join (s j : Nat) : FuseCall Unit := op (.join s j)

def fuseEnds (s j : Nat) : FuseCall Unit := op (.fuseEnds s j)

def startFuse (s j : Nat) : FuseCall Unit := op (.startFuse s j)

def startRequest (s j : Nat) : FuseCall Unit := op (.startRequest s j)

def createAttention (s generation : Nat) : FuseCall Unit := op (.startAttention s generation)

def leaveWith (s : Nat) (f : AfpSession → AfpSession) : FuseCall Unit := op (.leave s f)

def leave (s : Nat) : FuseCall Unit := leaveWith s id

def abandon (s : Nat) : FuseCall Unit := op (.abandon s)

/-- `afp_free_server` of a server that was never listed. -/
def discard (s : Nat) : FuseCall Unit := op (.discard s)

/-! ## Connections -/

/-- `loop_close_descriptor` of the descriptor that was taken, if one was. -/
def loopCloseDescriptor (s : Nat) (taken : Bool) : FuseCall Unit :=
  if taken then touch s else return

def loopDisconnect (s : Nat) : FuseCall Unit := do
  let generation := (← read s).session.generation
  let x ← access s fun x =>
    if x.session.generation = generation then { x.session with fd := false } else x.session
  loopCloseDescriptor s (decide (x.session.generation = generation) && x.session.fd)
  -- `afpc_dsi_fail_request_queue`
  touch s
  let _ ← access s fun x =>
    if x.session.generation = generation ∧ x.listing ≠ .removed then
      { x.session with state := .disconnected }
    else x.session
  -- `need_resume`
  touch s

/-- `afp_server_remove`: whether the server was listed. -/
def serverRemove (s : Nat) (leaving : Bool) : FuseCall Bool := do
  if ← unlink s leaving then
    loopDisconnect s
    release s
    return true
  else return false

def sendNoWait (s : Nat) : FuseCall Unit := do
  let x ← read s
  if x.listing = .removed ∨ x.session.state = .disconnected ∨ !x.session.fd then return
  else touch s

/-- `afpc_dsi_send_with_reply`, from the check of the descriptor on. -/
def sendQueued (s : Nat) : FuseCall Bool := do
  if !(← read s).session.fd then return false
  else
    -- queue the request and write its frame
    touch s
    let answered ← chance
    -- `afpc_dsi_remove_from_request_queue`
    touch s
    return answered

/-- `afpc_dsi_send_with_reply`: whether the request was answered with success. -/
def sendWith (reconnect : Nat → FuseCall Bool) (s : Nat) : FuseCall Bool := do
  let x ← read s
  if x.listing = .removed then return false
  else
    let x ← read s
    if x.connectState ≠ some .disconnected then sendQueued s
    else if x.session.suspended then return false
    else
      let x ← read s
      if x.session.reconnecting then return false
      else if ← reconnect s then sendQueued s
      else
        -- the log's `server_name_printable`
        touch s
        return false

/-- A request of a thread that reconnects the server itself. -/
def sendInside (s : Nat) : FuseCall Bool := sendWith (fun _ => return false) s

/-- Requests up to the first that fails. -/
def sends (send : Nat → FuseCall Bool) (s : Nat) : Nat → FuseCall Bool
  | 0 => return true
  | n + 1 => do
    if ← send s then sends send s n else return false

/-- Requests whatever comes of each. -/
def sendsAll (send : Nat → FuseCall Bool) (s : Nat) : Nat → FuseCall Unit
  | 0 => return
  | n + 1 => do
    let _ ← send s
    sendsAll send s n

/-- The status of a server is read on a connection of its own, and a server without a
signature is not connected again. -/
def refuseReconnect (s : Nat) : FuseCall Bool := do
  let x ← access s fun x => { x.session with reconnecting := true }
  if x.session.reconnecting then return false
  else
    touch s
    loopDisconnect s
    write s fun x => { x with reconnecting := false }
    return false

/-- How `afp_server_connect` ends: no address connects, the server was removed, its status
was not read, or it is connected. -/
inductive Connected where
  | unconnected
  | destroyed
  | noStatus
  | connected
  deriving DecidableEq, Repr

def serverConnect (s : Nat) (full : Bool) : FuseCall Connected := do
  let x ← access s fun x =>
    { x.session with fd := false, generation := x.session.generation + 1 }
  loopCloseDescriptor s x.session.fd
  if ← chance then
    touch s
    match ← publish s with
    | .destroyed => return .destroyed
    | _ =>
      if !full then return .connected
      else if ← sendWith refuseReconnect s then
        -- `afp_server_identify`
        touch s
        return .connected
      else return .noStatus
  else return .unconnected

/-- The end of a server that its maker connected, and `unlisted` of one it did not. -/
def removeMade (s : Nat) (c : Connected) (unlisted : FuseCall Unit) : FuseCall Unit := do
  if c = .unconnected then
    if ← serverRemove s false then return
    else unlisted
  else
    let _ ← serverRemove s true

def probeSignature : FuseCall Bool := do
  let probe ← serverInit
  let c ← serverConnect probe true
  touch probe
  removeMade probe c (discard probe)
  if c = .connected then chance else return false

/-! ## Volumes -/

/-- Whether a volume passes `p`, read one volume after the other. -/
def someVolumeFrom (s : Nat) (p : FuseVolume → Bool) : Nat → Nat → FuseCall Bool
  | 0, _ => return false
  | fuel + 1, i => do
    let x ← read s
    if i < x.session.volumes.length then
      if p (x.session.volume i) then return true
      else someVolumeFrom s p fuel (i + 1)
    else return false

def someVolume (s : Nat) (p : FuseVolume → Bool) : FuseCall Bool := do
  let x ← read s
  someVolumeFrom s p (x.session.volumes.length + 1) 0

def somethingIsMounted (s : Nat) : FuseCall Bool := someVolume s (·.mounted != .unmounted)

def somethingIsAttached (s : Nat) : FuseCall Bool := someVolume s (·.attached != .detached)

/-- A loop over the volumes, with whether `body` succeeded for each so far. -/
def forVolumesFrom (s : Nat) (body : Nat → FuseCall Bool) : Nat → Nat → Bool → FuseCall Bool
  | 0, _, ok => return ok
  | fuel + 1, i, ok => do
    let x ← read s
    if i < x.session.volumes.length then
      let r ← body i
      forVolumesFrom s body fuel (i + 1) (ok && r)
    else return ok

def forVolumes (s : Nat) (body : Nat → FuseCall Bool) : FuseCall Bool := do
  let x ← read s
  forVolumesFrom s body (x.session.volumes.length + 1) 0 true

/-- `afp_closedt`, if the volume has a desktop reference. -/
def closeDesktop (send : Nat → FuseCall Bool) (s : Nat) : FuseCall Unit := do
  if ← chance then
    let _ ← send s
  else return

def detachVolume (send : Nat → FuseCall Bool) (s j : Nat) : FuseCall Unit := do
  setVolume s j fun x => { x with attached := .detaching }
  touch s
  -- `remove_fork_list`
  let n ← choose
  sendsAll send s n
  closeDesktop send s
  setVolume s j fun x => { x with attached := .detached }
  if ← somethingIsAttached s then return
  else
    -- `afp_logout`
    sendNoWait s
    let _ ← serverRemove s false

def connectVolume (send : Nat → FuseCall Bool) (s j : Nat) : FuseCall Bool := do
  touch s
  -- `afp_volopen`
  if ← send s then
    touch s
    -- the volume's signature
    if ← chance then
      setVolume s j fun x => { x with mounted := .mounted, attached := .attached }
      return true
    else
      detachVolume send s j
      return false
  else return false

/-! ## Reconnects -/

/-- `afp_server_login`, of some number of requests. -/
def serverLogin (send : Nat → FuseCall Bool) (s : Nat) : FuseCall Bool := do
  touch s
  let n ← choose
  sends send s n

/-- A volume's turn in `afp_server_reconnect`. -/
def reconnectVolume (s j : Nat) : FuseCall Bool := do
  let x ← read s
  if (x.session.volume j).attached = .attached ∨ (x.session.volume j).mountpoint ≠ [] then
    connectVolume sendInside s j
  else return true

/-- The new session of `afp_server_reconnect`. -/
def resumeSession (s : Nat) : FuseCall Bool := do
  -- `afpc_dsi_opensession`
  if ← sendInside s then
    if ← serverLogin sendInside s then
      if ← forVolumes s (reconnectVolume s) then
        let x ← access s fun x =>
          if x.session.fd ∧ x.connectState = some .connecting then
            { x.session with state := .connected }
          else x.session
        return x.session.fd && decide (x.connectState = some .connecting)
      else return false
    else return false
  else return false

/-- `afp_server_reconnect`, of the thread that reconnects the server. -/
def reconnectBegun (s : Nat) : FuseCall Bool := do
  -- `afpc_dsi_flush_request_queue` and the saved signature
  touch s
  if ← chance then
    touch s
    if ← probeSignature then
      touch s
      if ← chance then
        match ← serverConnect s false with
        | .connected => resumeSession s
        | _ => return false
      else return false
    else return false
  else return false

def serverReconnect (s : Nat) : FuseCall Bool := do
  let x ← access s fun x => { x.session with reconnecting := true }
  if x.session.reconnecting then return false
  else if ← reconnectBegun s then
    write s fun x => { x with reconnecting := false }
    return true
  else
    touch s
    loopDisconnect s
    write s fun x => { x with reconnecting := false }
    return false

def send (s : Nat) : FuseCall Bool := sendWith serverReconnect s

/-! ## Unmounts -/

def fuseUnmountVolume (s j : Nat) : FuseCall Bool := do
  let x ← read s
  if (x.session.volume j).mountpoint = [] then return false
  else if !(x.session.volume j).priv then return true
  else
    -- `fuse_exit` and the thread's number
    touch s
    join s j
    setVolume s j fun x => { x with priv := false }
    return true

def unmountVolume (s j : Nat) : FuseCall Bool := do
  let x ← read s
  if (x.session.volume j).mounted ≠ .mounted then return false
  else
    setVolume s j fun x => { x with mounted := .unmounting }
    if ← fuseUnmountVolume s j then
      setVolume s j fun x => { x with mounted := .unmounted }
      detachVolume send s j
      return true
    else
      setVolume s j fun x => { x with mounted := .mounted }
      return false

def processUnmount (mountpoint : Path) : FuseCall Unit := do
  match ← volumeFindByMountpointHold mountpoint with
  | none => return
  | some (s, j) =>
    let x ← read s
    if (x.session.volume j).mounted ≠ .mounted then
      touch s
      release s
    else
      touch s
      let _ ← unmountVolume s j
      release s

/-! ## Mounts -/

/-- `afp_server_complete_connection`, until it fails or the server is connected. -/
def loggedIn (s : Nat) : FuseCall Bool := do
  touch s
  -- `afpc_dsi_opensession`
  if ← send s then
    -- a version and a UAM
    if ← chance then
      if ← serverLogin send s then
        -- `afp_getsrvrparms`
        if ← send s then
          let n ← choose
          write s fun x => { x with volumes := List.replicate n {} }
          -- `afp_getsrvrmsg`
          let _ ← send s
          let x ← access s fun x =>
            if x.session.fd ∧ x.listing ≠ .removed ∧ x.session.state ≠ .disconnected then
              { x.session with state := .connected }
            else x.session
          return x.session.fd && decide (x.listing ≠ .removed)
            && decide (x.session.state ≠ .disconnected)
        else return false
      else return false
    else return false
  else return false

def completeConnection (s : Nat) : FuseCall (Option Nat) := do
  if ← loggedIn s then return some s
  else
    let _ ← serverRemove s true
    return none

/-- The session connection of `afp_server_full_connect`. -/
def connectSession : FuseCall (Option Nat) := do
  if ← chance then
    let s ← serverInit
    touch s
    let c ← serverConnect s false
    if c = .connected then
      touch s
      completeConnection s
    else
      removeMade s c (abandon s)
      return none
  else return none

def serverFullConnect : FuseCall (Option Nat) := do
  if ← chance then
    let tmpserver ← serverInit
    let c ← serverConnect tmpserver true
    if c = .connected then
      loopDisconnect tmpserver
      touch tmpserver
      let _ ← serverRemove tmpserver true
      connectSession
    else
      removeMade tmpserver c (abandon tmpserver)
      return none
  else return none

/-- `mount_volume`, of the volume that the name picks. -/
def mountVolume (s : Nat) : FuseCall (Option Nat) := do
  let j ← choose
  let x ← read s
  if j < x.session.volumes.length then
    if (x.session.volume j).mounted = .mounted then
      touch s
      return none
    else
      touch s
      -- the volume's password
      if ← chance then
        if ← connectVolume send s j then
          touch s
          return some j
        else return none
      else return none
  else
    touch s
    return none

/-- The error path of `process_mount`. -/
def mountFailed (s : Nat) : FuseCall Unit := do
  if ← somethingIsMounted s then leave s
  else
    let _ ← serverRemove s true

/-- `process_mount`, once the FUSE thread was started: the wait expired, failed, or ended with
the mount's result. -/
def awaitFuse (s j : Nat) : FuseCall Unit := do
  match ← choose with
  | 0 => leave s
  | 1 =>
    setVolume s j fun x => { x with mounted := .unmounted }
    mountFailed s
  | 2 =>
    let x ← read s
    touch s
    if (x.session.volume j).mounted = .unmounted then mountFailed s
    else leave s
  | _ =>
    setVolume s j fun x => { x with mounted := .unmounted }
    mountFailed s

def processMount (mountpoint : Path) : FuseCall Unit := do
  -- the mount point and the FUSE device
  if ← chance then
    match ← serverFullConnect with
    | none => return
    | some s =>
      touch s
      match ← mountVolume s with
      | none => mountFailed s
      | some j =>
        setVolume s j fun x => { x with mountpoint := mountpoint }
        startFuse s j
        awaitFuse s j
  else return

/-! ## Suspend and resume -/

def processSuspend (mountpoint : Path) : FuseCall Unit := do
  match ← volumeFindByMountpointHold mountpoint with
  | none => return
  | some (s, _) =>
    -- `afp_zzzzz`
    if ← send s then
      write s fun x => { x with suspended := true }
      loopDisconnect s
      release s
    else release s

def processResume (mountpoint : Path) : FuseCall Unit := do
  match ← volumeFindByMountpointHold mountpoint with
  | none => return
  | some (s, _) =>
    write s fun x => { x with suspended := false }
    if ← serverReconnect s then release s
    else
      write s fun x => { x with suspended := true }
      release s

/-! ## The receive loop -/

/-- The attention of `afpc_dsi_recv`. -/
def startAttention (s : Nat) : FuseCall Unit := do
  let x ← read s
  hold s
  if ← chance then createAttention s x.session.generation
  else release s

def processServerFds : FuseCall Unit := do
  match ← readyServer with
  | none => return
  | some s =>
    touch s
    match ← choose with
    | 0 =>
      loopDisconnect s
      release s
    | 1 =>
      startAttention s
      touch s
      release s
    | _ =>
      touch s
      release s

/-- The shutdown notice of an attention of the connection `generation`. -/
def shutDown (s generation : Nat) : FuseCall Unit := do
  if ← chance then
    let x ← read s
    if x.session.generation = generation then loopDisconnect s else return
  else return

def readMessage (s : Nat) : FuseCall Unit := do
  if ← chance then
    let _ ← send s
  else return

def incomingAttention (s generation : Nat) : FuseCall Unit := do
  let x ← read s
  if x.session.generation ≠ generation then release s
  else
    readMessage s
    shutDown s generation
    release s

/-! ## The FUSE threads -/

def fuseRequest (s j : Nat) : FuseCall Unit := do
  touch s
  let n ← choose
  sendsAll send s n
  touch s
  leaveWith s (·.setVolume j fun x => { x with requests := x.requests - 1 })

def fuseRequests (s j : Nat) : Nat → FuseCall Unit
  | 0 => return
  | n + 1 => do
    startRequest s j
    fuseRequests s j n

def afpDestroy (s j : Nat) : FuseCall Unit := do
  let x ← read s
  if (x.session.volume j).mounted = .mounted then
    setVolume s j fun x => { x with priv := false }
    let _ ← unmountVolume s j
  else return

/-- `fuse_main`: a file system that starts, serves requests and ends, or one that does not
start. -/
def fuseMain (s j : Nat) : FuseCall Unit := do
  if ← chance then
    -- `afp_init`
    setVolume s j fun x => { x with priv := true, mounted := .mounted }
    let n ← choose
    fuseRequests s j n
    fuseEnds s j
    afpDestroy s j
  else return

def startFuseThread (s j : Nat) : FuseCall Unit := do
  touch s
  fuseMain s j
  -- `startup_condition_cond`, and the log
  touch s
  touch s
  leaveWith s (·.setVolume j fun x => { x with thread := .none })

/-! ## The forced end -/

def unmountConnected (s : Nat) (x : AfpServer) : FuseCall Unit :=
  if x.connectState = some .connected then do
    let _ ← forVolumes s fun j => do
      touch s
      let _ ← unmountVolume s j
      return true
  else return

/-- The walk of `fuse_forced_ending_hook` from a server on, over at most `fuel` servers. -/
def forcedEndFrom : Nat → Nat → FuseCall Unit
  | 0, s => leave s
  | fuel + 1, s => do
    let next ← nextServer s
    let x ← read s
    unmountConnected s x
    leave s
    match next with
    | none => return
    | some t => forcedEndFrom fuel t

def forcedEnd (fuel : Nat) : FuseCall Unit := do
  match ← getServerBase with
  | none => return
  | some s => forcedEndFrom fuel s

inductive Task where
  | mount (mountpoint : Path)
  | unmount (mountpoint : Path)
  | suspend (mountpoint : Path)
  | resume (mountpoint : Path)
  | receive
  | forcedEnd (fuel : Nat)

def Task.thread : Task → FuseCall Unit
  | .mount mountpoint => processMount mountpoint
  | .unmount mountpoint => processUnmount mountpoint
  | .suspend mountpoint => processSuspend mountpoint
  | .resume mountpoint => processResume mountpoint
  | .receive => processServerFds
  | .forcedEnd fuel => Fuse.forcedEnd fuel

def spawns : ServerOp → List (FuseCall Unit)
  | .startFuse s j => [startFuseThread s j]
  | .startRequest s j => [fuseRequest s j]
  | .startAttention s generation => [incomingAttention s generation]
  | _ => []

abbrev Daemon := Pool Unit Servers ServerOp ServerOp.Ans Unit

def step : Daemon → PoolStep Task Nat → Option Daemon := Pool.step Servers.serve spawns Task.thread

def start : Daemon := { state := (), env := {}, threads := [] }

end Fuse

end NC
