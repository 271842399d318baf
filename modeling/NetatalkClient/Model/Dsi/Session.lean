import NetatalkClient.Model.Dsi.OpenSession

/-!
# The threads of a session

The threads that share one `struct afp_server`, as a machine whose actions are
the steps between two accesses to what they share:

* senders, in `afpc_dsi_setup_header` and `afpc_dsi_send_with_reply` (`dsi.c`),
  and the tickles that keep a session alive;
* the thread that reconnects, in `afp_server_reconnect` and
  `afp_server_connect` (`afp.c`), with the requests it sends itself;
* the loop, in `process_server_fds` (`loop.c`) and `afpc_dsi_recv` (`dsi.c`);
* attention handlers, in `afpc_dsi_incoming_attention` (`dsi.c`);
* `loop_disconnect` (`loop.c`), which the last three call.

A connection is named by its generation, and so is its descriptor: each
generation publishes at most one. The server may answer each frame it has got
once, at any time, and send requests of its own. A frame's bytes are not part of
this model; how the receiver puts them together is `Receiver`'s.
-/

namespace NC

/-- `connect_state`, of a server that is not removed. -/
inductive ConnectState where
  | disconnected
  | connecting
  | connected
  deriving DecidableEq, Repr

/-! ## Senders -/

/-- What is sent: a request that waits for its reply, with a limit or without; one
that does not wait; a tickle. -/
inductive SendKind where
  | reply (timed : Bool)
  | noWait
  | tickle
  deriving DecidableEq, Repr

def SendKind.isReply : SendKind → Bool
  | .reply _ => true
  | _ => false

/-- How a sender comes to leave: without a request, behind a frame that nothing
waits for, behind a write that failed, because its wait expired, or with its
request completed. -/
inductive Leave where
  | refused
  | sent
  | unwritten
  | expired
  | answered
  deriving DecidableEq, Repr

inductive SendPc where
  | none
  | drawn
  /-- The state was disconnected, and `afp_server_reconnect` is called. -/
  | reconnect
  /-- In `afp_server_reconnect`, as the thread that reconnects. -/
  | reconnecting
  | checked
  | opened
  | loaded
  | queued
  | locked
  /-- In `afpc_dsi_write_frame`, with the descriptor loaded. -/
  | sending (fd : Option Nat)
  | failed
  | waiting
  /-- The wait has ended with `done_waiting` set. -/
  | answered
  | leaving (why : Leave) (rc : Int)
  | returned (why : Leave) (rc : Int)
  deriving DecidableEq, Repr

namespace SendPc

/-- From the queue on, until the request is taken out. -/
def hasRequest : SendPc → Bool
  | .queued | .locked | .sending _ | .failed | .waiting | .answered | .leaving _ _ => true
  | _ => false

/-- Behind the check of the state, with the frame not yet written. -/
def underway : SendPc → Bool
  | .checked | .opened | .loaded | .queued | .locked | .sending _ => true
  | _ => false

def hasReturned : SendPc → Bool
  | .returned _ _ => true
  | _ => false

end SendPc

inductive Writer where
  | reply
  | flush
  | fail
  | write
  deriving DecidableEq, Repr

/-- One call of a sender, with its `struct dsi_request`. -/
structure SendCall where
  pc : SendPc := .none
  kind : SendKind := .noWait
  requestid : Nat := 0
  nested : Bool := false
  opensession : Bool := false
  connectionGeneration : Nat := 0
  ignoreReplies : Bool := false
  doneWaiting : Bool := false
  receiving : Bool := false
  returnCode : Int := 0
  queuedOn : Nat := 0
  /-- What has been written to `return_code`, in order. -/
  writes : List (Writer × Int) := []
  /-- The generation at which a flush ended the wait. -/
  flushed : Option Nat := none
  freed : Nat := 0
  deriving DecidableEq, Repr

namespace SendCall

/-- The request is allocated, and its sender has it to remove. -/
def owned (c : SendCall) : Bool := c.kind.isReply && c.pc.hasRequest

/-- A request that waits for the reply `id`, as `afpc_dsi_find_request` asks. -/
def waitsFor (id : Nat) (c : SendCall) : Bool :=
  !c.ignoreReplies && !c.doneWaiting && c.requestid = id

/-- End the wait with a result, unless it has ended. -/
def complete (c : SendCall) (w : Writer) (result : Int) : SendCall :=
  if c.doneWaiting then c
  else { c with returnCode := result, doneWaiting := true, writes := c.writes ++ [(w, result)] }

/-- What `afpc_dsi_flush_request_queue` does to a request. -/
def flush (c : SendCall) (generation : Nat) : SendCall :=
  { c.complete .flush (-EIO_) with
    ignoreReplies := true
    flushed := if c.doneWaiting then c.flushed else some generation }

end SendCall

/-! ## The other threads -/

/-- The threads that call `loop_disconnect`. -/
inductive Proc where
  | loop
  | reconnect
  | attention (i : Nat)
  deriving DecidableEq, Repr

/-- Where a thread is in `loop_disconnect`; `g` is the generation it began on. -/
inductive DisconnectPc where
  | idle
  | begun
  | loaded (g : Nat)
  /-- Behind the first critical section, with the descriptor it took to close. -/
  | taken (g : Nat)
  | failing (g : Nat)
  | marking (g : Nat)
  deriving DecidableEq, Repr

/-- Where the thread that reconnects is. -/
inductive ReconnectPc where
  | idle
  | begun
  | flushed
  | verified
  | exchanged
  | advanced
  | closed
  | connected
  | reset
  | published
  /-- Waits for the result of the call `u` of its own. -/
  | request (u : Nat)
  | session
  | failing
  | done
  deriving DecidableEq, Repr

/-- Where the loop is. It received on the generation `g` and the descriptor `d`;
`u` is the call whose reply it has, and `v` the one it found for it. -/
inductive LoopPc where
  | select
  /-- The server's descriptor is ready, and `afpc_dsi_recv` is called. -/
  | ready
  | gotGeneration (g : Nat)
  | gotFd (g : Nat) (fd : Option Nat)
  | recvFrame (g d : Nat)
  /-- With the header of a reply; `empty` says that it has no payload. -/
  | reply (g d u : Nat) (empty : Bool)
  | found (g d u : Nat) (empty : Bool) (v : Option Nat)
  /-- Behind the check of the request's generation, which `current` is the result of. -/
  | payload (g d u : Nat) (empty : Bool) (v : Option Nat) (current : Bool)
  | out (v : Nat) (result : Int)
  | release (v : Option Nat) (failed : Bool)
  | disconnecting
  /-- About to make the context of an attention that came on `g`. -/
  | attention (g : Nat)
  deriving DecidableEq, Repr

namespace LoopPc

/-- The request that `afpc_dsi_find_request` holds for the loop. -/
def holds : LoopPc → Option Nat
  | .found _ _ _ _ v => v
  | .payload _ _ _ _ v _ => v
  | .out v _ => some v
  | .release v _ => v
  | _ => none

/-- The request whose reply buffer the loop is about to write to. -/
def storesTo : LoopPc → Option Nat
  | .payload _ _ _ _ v true => v
  | _ => none

end LoopPc

/-- Where an attention handler is; `context` is the generation its context has and
`g` the one that its packet came on. -/
inductive AttentionPc where
  | none
  | begun (context g : Nat)
  | running (context g : Nat)
  | disconnecting
  | done
  deriving DecidableEq, Repr

/-- A reply that passed the receiver's checks: the call that it answers, the
connection that it came on, the request that it was handed to, and the generation
at that time. -/
structure Delivery where
  reply : Nat
  connection : Nat
  request : Nat
  generation : Nat
  deriving DecidableEq, Repr

/-- One server and its threads. From `wire` on, the fields record what happened. -/
structure Session where
  connectState : ConnectState
  fd : Option Nat
  generation : Nat
  lastrequestid : Nat
  supportsReplayCache : Bool
  reconnectInProgress : Bool
  commandRequests : List Nat
  requestsPending : Int
  sendMutex : Option Nat
  calls : Nat → SendCall
  nextCall : Nat
  reconnect : ReconnectPc
  reconnectCall : Nat
  loop : LoopPc
  /-- The call whose reply's header is in the receive buffer, of the generation
  `rxGeneration`. -/
  rx : Option Nat
  rxGeneration : Nat
  attention : Nat → AttentionPc
  nextAttention : Nat
  disconnect : Proc → DisconnectPc
  taken : Proc → Option Nat
  wire : List (Nat × Nat)
  replied : List Nat
  /-- The generation on which a thread has seen the end that it acts on. -/
  event : Proc → Option Nat
  /-- The descriptors published, and those that became connected. -/
  opened : List Nat
  connectedOn : List Nat
  /-- The descriptors closed, with the event that the thread acted on. -/
  closed : List (Nat × Option Nat)
  /-- The requests that a disconnect failed, by the generation that they were queued
  on, with the event. -/
  failed : List (Nat × Option Nat)
  delivered : List Delivery
  /-- `afpc_dsi_remove_from_request_queue` reached its last branch. -/
  unknown : Bool

namespace Session

/-- A session that is connected, with no call yet. -/
def start (lastrequestid : Nat) (supportsReplayCache : Bool) : Session where
  connectState := .connected
  fd := some 0
  generation := 0
  lastrequestid := lastrequestid
  supportsReplayCache := supportsReplayCache
  reconnectInProgress := false
  commandRequests := []
  requestsPending := 0
  sendMutex := none
  calls := fun _ => {}
  nextCall := 0
  reconnect := .idle
  reconnectCall := 0
  loop := .select
  rx := none
  rxGeneration := 0
  attention := fun _ => .none
  nextAttention := 0
  disconnect := fun _ => .idle
  taken := fun _ => none
  wire := []
  replied := []
  event := fun _ => none
  opened := [0]
  connectedOn := [0]
  closed := []
  failed := []
  delivered := []
  unknown := false

variable (s : Session)

def setCall (u : Nat) (c : SendCall) : Session := { s with calls := Function.update s.calls u c }

def goto (u : Nat) (pc : SendPc) : Session := s.setCall u { s.calls u with pc := pc }

def nextRequestid : Nat := requestidAfter s.lastrequestid s.supportsReplayCache

def setupHeader (c : SendCall) : Session :=
  { s with lastrequestid := s.nextRequestid
           nextCall := s.nextCall + 1
           calls := Function.update s.calls s.nextCall { c with requestid := s.nextRequestid } }

/-! ## `afpc_dsi_send_with_reply` -/

/-- The steps of a sender. `write` and `writeFails` carry the descriptor that it
loaded, `remove` what it leaves with. -/
inductive SendAct where
  | check
  | suspended
  | tryBegin
  | checkFd
  | nomem
  | loadGeneration
  | enqueue
  | lock
  | loadFd
  | write (g : Nat)
  | writeFails (fd : Option Nat)
  | storeFailure
  | wake
  | expire
  | result
  | remove (why : Leave) (rc : Int)
  deriving DecidableEq, Repr

def sendEnabled (u : Nat) : SendAct → Bool
  | .check => (s.calls u).pc = .drawn
  | .suspended =>
    (s.calls u).pc = .drawn ∧ (s.calls u).kind.isReply ∧ s.connectState = .disconnected
  | .tryBegin => (s.calls u).pc = .reconnect
  | .checkFd => (s.calls u).pc = .checked ∧ (s.calls u).kind.isReply
  | .nomem => (s.calls u).pc = .opened
  | .loadGeneration => (s.calls u).pc = .opened
  | .enqueue => (s.calls u).pc = .loaded
  | .lock => s.sendMutex = none ∧
      if (s.calls u).kind.isReply then (s.calls u).pc = .queued else (s.calls u).pc = .checked
  | .loadFd => (s.calls u).pc = .locked
  | .write g => (s.calls u).pc = .sending (some g) ∧ g ∉ s.closed.map Prod.fst
  | .writeFails fd => (s.calls u).pc = .sending fd
  | .storeFailure => (s.calls u).pc = .failed
  | .wake => (s.calls u).pc = .waiting ∧ (s.calls u).doneWaiting
  | .expire =>
    (s.calls u).pc = .waiting ∧ (s.calls u).kind = .reply true ∧ (s.calls u).doneWaiting = false
  | .result => (s.calls u).pc = .answered
  | .remove why rc => (s.calls u).pc = .leaving why rc ∧ (s.calls u).receiving = false

/-- `afpc_dsi_remove_from_request_queue`, once the receiver has let the request go. -/
def removeFromRequestQueue (u : Nat) (why : Leave) (rc : Int) : Session :=
  let c := { s.calls u with pc := .returned why rc, freed := (s.calls u).freed + 1 }
  if u ∈ s.commandRequests then
    { s.setCall u { c with doneWaiting := true } with
      commandRequests := s.commandRequests.erase u
      requestsPending := s.requestsPending - 1 }
  else if (s.calls u).ignoreReplies then s.setCall u c
  else { s.goto u (.returned why rc) with unknown := true }

def send (u : Nat) : SendAct → Session
  | .check =>
    if (s.calls u).kind.isReply then
      if s.connectState = .disconnected then
        if s.reconnectInProgress then s.goto u (.returned .refused (-EIO_))
        else s.goto u .reconnect
      else s.goto u .checked
    else if s.connectState = .disconnected ∨ s.fd = none then
      s.goto u (.returned .refused (-EIO_))
    else s.goto u .checked
  | .suspended => s.goto u (.returned .refused (-EIO_))
  | .tryBegin =>
    if s.reconnectInProgress then s.goto u (.returned .refused (-EIO_))
    else
      { s.goto u .reconnecting with
        reconnectInProgress := true, reconnect := .begun, reconnectCall := u }
  | .checkFd =>
    if s.fd = none then s.goto u (.returned .refused (-EIO_)) else s.goto u .opened
  | .nomem => s.goto u (.returned .refused (-ENOMEM))
  | .loadGeneration =>
    s.setCall u { s.calls u with pc := .loaded, connectionGeneration := s.generation }
  | .enqueue =>
    { s.setCall u { s.calls u with pc := .queued, queuedOn := s.generation } with
      commandRequests := s.commandRequests ++ [u]
      requestsPending := s.requestsPending + 1 }
  | .lock => { s.goto u .locked with sendMutex := some u }
  | .loadFd => s.goto u (.sending s.fd)
  | .write g =>
    { s.goto u (if (s.calls u).kind.isReply then .waiting else .returned .sent 0) with
      sendMutex := none
      wire := s.wire ++ [(g, u)] }
  | .writeFails _ =>
    { s.goto u (if (s.calls u).kind.isReply then .failed else .returned .sent (-EIO_)) with
      sendMutex := none }
  | .storeFailure =>
    s.setCall u { s.calls u with pc := .leaving .unwritten (-EIO_)
                                 returnCode := -EIO_
                                 writes := (s.calls u).writes ++ [(.write, -EIO_)] }
  | .wake => s.goto u .answered
  | .expire => s.goto u (.leaving .expired ETIMEDOUT)
  | .result => s.goto u (.leaving .answered (s.calls u).returnCode)
  | .remove why rc => s.removeFromRequestQueue u why rc

/-! ## `loop_disconnect` -/

inductive DisconnectAct where
  | loadGeneration
  | take (g : Nat)
  | close (g : Nat)
  | fail (g : Nat)
  | mark (g : Nat)
  deriving DecidableEq, Repr

/-- `loop_close_descriptor` has to get `send_mutex` before it closes. -/
def mayClose (p : Proc) : Prop := s.taken p = none ∨ s.sendMutex = none

instance (p : Proc) : Decidable (s.mayClose p) := inferInstanceAs (Decidable (_ ∨ _))

/-- `loop_close_descriptor`, if there is a descriptor to close. -/
def closeDescriptor (p : Proc) : Session :=
  match s.taken p with
  | none => s
  | some d =>
    { s with taken := Function.update s.taken p none, closed := s.closed ++ [(d, s.event p)] }

/-- `afpc_dsi_fail_request_queue`, for the thread `p`. -/
def failRequestQueue (p : Proc) : Session :=
  { s with
    calls := fun v =>
      if v ∈ s.commandRequests then (s.calls v).complete .fail (-EIO_) else s.calls v
    failed := s.failed ++ (s.commandRequests.filter fun v => !(s.calls v).doneWaiting).map
      fun v => ((s.calls v).queuedOn, s.event p) }

def disconnectEnabled (p : Proc) : DisconnectAct → Bool
  | .loadGeneration => s.disconnect p = .begun
  | .take g => s.disconnect p = .loaded g
  | .close g => s.disconnect p = .taken g ∧ s.mayClose p
  | .fail g => s.disconnect p = .failing g
  | .mark g => s.disconnect p = .marking g

def setDisconnect (p : Proc) (pc : DisconnectPc) : Session :=
  { s with disconnect := Function.update s.disconnect p pc }

def disconnectStep (p : Proc) : DisconnectAct → Session
  | .loadGeneration => s.setDisconnect p (.loaded s.generation)
  | .take g =>
    let s' := s.setDisconnect p (.taken g)
    if s.generation = g then
      { s' with fd := none, taken := Function.update s.taken p s.fd }
    else s'
  | .close g => (s.closeDescriptor p).setDisconnect p (.failing g)
  | .fail g =>
    { (s.failRequestQueue p).setDisconnect p (.marking g) with
      event := Function.update s.event p none }
  | .mark g =>
    let s' := s.setDisconnect p .idle
    if s.generation = g ∧ s.connectState ≠ .disconnected then
      { s' with connectState := .disconnected }
    else s'

/-! ## `afp_server_reconnect` -/

inductive ReconnectAct where
  | flush
  | verify (ok : Bool)
  | exchange
  | advance
  | close
  | socket (ok : Bool)
  | resetRequestid
  | publish
  /-- A request of its own, DSIOpenSession first. -/
  | send
  /-- The result of its request is there; `ok` is what a login or a volume made of it. -/
  | next (u : Nat) (why : Leave) (rc : Int) (ok : Bool)
  | finish
  | end
  | endFailed
  deriving DecidableEq, Repr

def flushRequestQueue : Session :=
  { s with
    commandRequests := []
    requestsPending := s.requestsPending - s.commandRequests.length
    calls := fun v => if v ∈ s.commandRequests then (s.calls v).flush s.generation else s.calls v }

def reconnectEnabled : ReconnectAct → Bool
  | .flush => s.reconnect = .begun
  | .verify _ => s.reconnect = .flushed
  | .exchange => s.reconnect = .verified
  | .advance => s.reconnect = .exchanged
  | .close => s.reconnect = .advanced ∧ s.mayClose .reconnect
  | .socket _ => s.reconnect = .closed
  | .resetRequestid => s.reconnect = .connected
  | .publish => s.reconnect = .reset
  | .send => s.reconnect = .published ∨ s.reconnect = .session
  | .next u why rc _ => s.reconnect = .request u ∧ (s.calls u).pc = .returned why rc
  | .finish => s.reconnect = .session
  | .end => s.reconnect = .done
  | .endFailed => s.reconnect = .failing ∧ s.disconnect .reconnect = .idle

/-- The way out of a reconnect that fails. -/
def reconnectFails : Session := { s.setDisconnect .reconnect .begun with reconnect := .failing }

/-- The reconnect goes on with the result of its request `u`. -/
def accepted (u : Nat) (rc : Int) (ok : Bool) : Bool :=
  if (s.calls u).opensession then rc = 0 else ok

def reconnectStep : ReconnectAct → Session
  | .flush => { s.flushRequestQueue with reconnect := .flushed }
  | .verify ok => if ok then { s with reconnect := .verified } else s.reconnectFails
  | .exchange =>
    { s with reconnect := .exchanged
             fd := none
             taken := Function.update s.taken .reconnect s.fd }
  | .advance => { s with reconnect := .advanced, generation := s.generation + 1 }
  | .close => { s.closeDescriptor .reconnect with reconnect := .closed }
  | .socket ok => if ok then { s with reconnect := .connected } else s.reconnectFails
  | .resetRequestid =>
    { s with reconnect := .reset
             lastrequestid := if s.supportsReplayCache then s.lastrequestid else 0 }
  | .publish =>
    { s with reconnect := .published
             fd := some s.generation
             connectState := .connecting
             opened := s.opened ++ [s.generation] }
  | .send =>
    { s.setupHeader { pc := .drawn
                      kind := .reply true
                      nested := true
                      opensession := s.reconnect = .published } with
      reconnect := .request s.nextCall }
  | .next u _ rc ok =>
    if s.accepted u rc ok then { s with reconnect := .session } else s.reconnectFails
  | .finish =>
    match s.fd, s.connectState with
    | some d, .connecting =>
      { s with reconnect := .done, connectState := .connected, connectedOn := s.connectedOn ++ [d] }
    | _, _ => s.reconnectFails
  | .end =>
    { s.goto s.reconnectCall .checked with reconnect := .idle, reconnectInProgress := false }
  | .endFailed =>
    { s.goto s.reconnectCall (.returned .refused (-EIO_)) with
      reconnect := .idle, reconnectInProgress := false }

/-! ## The loop -/

/-- The steps of the loop. `payload…` are the ways in which the rest of a reply can
go: the connection is replaced, the read or the framing fails, some of the payload
comes or the last of it, or the rest is to be dropped. -/
inductive ReceiveAct where
  | select
  | loadGeneration
  | loadFd (g : Nat)
  | check (g : Nat) (fd : Option Nat)
  | replaced (g d : Nat)
  | readError (g d : Nat)
  | badFrame (g d : Nat)
  | part (g d : Nat)
  | header (g d u : Nat) (empty : Bool)
  | resume (g d u : Nat)
  | closeSession (g d : Nat)
  | attention (g d : Nat)
  | find (g d u : Nat) (empty : Bool)
  | checkGeneration (g d u : Nat) (empty : Bool) (v : Option Nat)
  | payloadReplaced (g d u : Nat) (v : Option Nat) (current : Bool)
  | payloadError (g d u : Nat) (v : Option Nat) (current : Bool)
  | payloadLost (g d u : Nat) (v : Option Nat) (current : Bool)
  | payloadPart (g d u : Nat) (v : Option Nat) (current : Bool)
  | payloadWhole (g d u : Nat) (empty : Bool) (v : Option Nat) (current : Bool) (result : Int)
      (replayCache : Bool)
  | payloadDropped (g d u : Nat) (v : Option Nat) (current : Bool) (result : Int)
  | signal (v : Nat) (result : Int)
  | release (v : Option Nat) (failed : Bool)
  | disconnected
  | attend (g : Nat)
  deriving DecidableEq, Repr

/-- `afpc_dsi_find_request`, for a reply to the call `u`. -/
def findRequest (u : Nat) : Option Nat :=
  s.commandRequests.find? fun v => (s.calls v).waitsFor (s.calls u).requestid

def receiveEnabled : ReceiveAct → Bool
  | .select => s.loop = .select ∧ s.connectState ≠ .disconnected ∧ s.fd ≠ none
  | .loadGeneration => s.loop = .ready
  | .loadFd g => s.loop = .gotGeneration g
  | .check g fd => s.loop = .gotFd g fd
  | .replaced g d => s.loop = .recvFrame g d ∧ s.rx = none ∧ s.generation ≠ g
  | .readError g d => s.loop = .recvFrame g d ∧ s.rx = none ∧ s.generation = g
  | .badFrame g d => s.loop = .recvFrame g d ∧ s.rx = none
  | .part g d => s.loop = .recvFrame g d ∧ s.rx = none ∧ s.generation = g
  | .header g d u _ =>
    s.loop = .recvFrame g d ∧ s.rx = none ∧ s.generation = g ∧ (d, u) ∈ s.wire ∧ u ∉ s.replied
  | .resume g d u => s.loop = .recvFrame g d ∧ s.rx = some u
  | .closeSession g d => s.loop = .recvFrame g d ∧ s.rx = none ∧ s.generation = g
  | .attention g d => s.loop = .recvFrame g d ∧ s.rx = none ∧ s.generation = g
  | .find g d u empty => s.loop = .reply g d u empty
  | .checkGeneration g d u empty v => s.loop = .found g d u empty v
  | .payloadReplaced g d u v current =>
    s.loop = .payload g d u false v current ∧ s.generation ≠ g
  | .payloadError g d u v current => s.loop = .payload g d u false v current ∧ s.generation = g
  | .payloadLost g d u v current => s.loop = .payload g d u false v current
  | .payloadPart g d u v current => s.loop = .payload g d u false v current ∧ s.generation = g
  | .payloadWhole g d u empty v current _ _ =>
    s.loop = .payload g d u empty v current ∧ (empty ∨ s.generation = g)
  | .payloadDropped g d u v current _ => s.loop = .payload g d u false v current
  | .signal v result => s.loop = .out v result
  | .release v failed => s.loop = .release v failed
  | .disconnected => s.loop = .disconnecting ∧ s.disconnect .loop = .idle
  | .attend g => s.loop = .attention g

/-- The loop has seen an end on the generation `g`. -/
def sees (g : Nat) : Session := { s with event := Function.update s.event .loop (some g) }

def loopDisconnects : Session := { s.setDisconnect .loop .begun with loop := .disconnecting }

/-- The reply is complete, or the rest of it dropped: the request, if there is one
that it belongs to, gets its result. -/
def replyEnds (v : Option Nat) (current : Bool) (result : Int) : Session :=
  match v, current with
  | some r, true => { s with rx := none, loop := .out r result }
  | _, _ => { s with rx := none, loop := .release v false }

def receive : ReceiveAct → Session
  | .select => { s with loop := .ready }
  | .loadGeneration => { s with loop := .gotGeneration s.generation }
  | .loadFd g => { s with loop := .gotFd g s.fd }
  | .check g fd =>
    match fd with
    | none => { s with loop := .select }
    | some d =>
      if s.generation ≠ g then { s with loop := .select }
      else if s.rxGeneration ≠ g then
        { s with loop := .recvFrame g d, rx := none, rxGeneration := g }
      else { s with loop := .recvFrame g d }
  | .replaced _ _ => { s with loop := .select }
  | .readError g _ => (s.sees g).loopDisconnects
  | .badFrame g _ => (s.sees g).loopDisconnects
  | .part _ _ => { s with loop := .select }
  | .header g d u empty =>
    { s with replied := s.replied ++ [u]
             rx := if empty then none else some u
             loop := if empty then .reply g d u true else .select }
  | .resume g d u => { s with loop := .reply g d u false }
  | .closeSession g _ => (s.sees g).loopDisconnects
  | .attention g _ => { s.sees g with loop := .attention g }
  | .find g d u empty =>
    match s.findRequest u with
    | none => { s with loop := .found g d u empty none }
    | some v =>
      { s.setCall v { s.calls v with receiving := true } with
        loop := .found g d u empty (some v) }
  | .checkGeneration g d u empty v =>
    match v with
    | none => { s with loop := .payload g d u empty none false }
    | some r =>
      if (s.calls r).connectionGeneration = s.generation then
        { s with loop := .payload g d u empty v true
                 delivered := s.delivered ++ [⟨u, d, r, s.generation⟩] }
      else { s with loop := .payload g d u empty v false }
  | .payloadReplaced _ _ _ v _ => { s with loop := .release v false }
  | .payloadError g _ _ v _ => { s.sees g with loop := .release v true }
  | .payloadLost g _ _ v _ => { s.sees g with loop := .release v true }
  | .payloadPart _ _ _ v _ => { s with loop := .release v false }
  | .payloadWhole _ _ u _ v current result replayCache =>
    let s' := s.replyEnds v current result
    if v.isSome && current && (s.calls u).opensession && replayCache then
      { s' with supportsReplayCache := true }
    else s'
  | .payloadDropped _ _ _ v current result => s.replyEnds v current result
  | .signal v result =>
    { s.setCall v ((s.calls v).complete .reply result) with loop := .release (some v) false }
  | .release v failed =>
    let s' := match v with
      | none => s
      | some v => s.setCall v { s.calls v with receiving := false }
    if failed then s'.loopDisconnects else { s' with loop := .select }
  | .disconnected => { s with loop := .select }
  | .attend g =>
    { s with loop := .select
             event := Function.update s.event .loop none
             attention := Function.update s.attention s.nextAttention (.begun s.generation g)
             nextAttention := s.nextAttention + 1 }

/-! ## `afpc_dsi_incoming_attention` -/

/-- The steps of an attention handler. The request for the server's message that it
may send in between is a call as any other. -/
inductive AttentionAct where
  | check (context g : Nat)
  | harmless (context g : Nat)
  | shutdown (context g : Nat)
  | disconnected
  deriving DecidableEq, Repr

def attentionEnabled (i : Nat) : AttentionAct → Bool
  | .check context g => s.attention i = .begun context g
  | .harmless context g => s.attention i = .running context g
  | .shutdown context g => s.attention i = .running context g
  | .disconnected => s.attention i = .disconnecting ∧ s.disconnect (.attention i) = .idle

def setAttention (i : Nat) (pc : AttentionPc) : Session :=
  { s with attention := Function.update s.attention i pc }

def attentionStep (i : Nat) : AttentionAct → Session
  | .check context g =>
    s.setAttention i (if context = s.generation then .running context g else .done)
  | .harmless _ _ => s.setAttention i .done
  | .shutdown context g =>
    if context = s.generation then
      { (s.setAttention i .disconnecting).setDisconnect (.attention i) .begun with
        event := Function.update s.event (.attention i) (some g) }
    else s.setAttention i .done
  | .disconnected => s.setAttention i .done

/-! ## The machine -/

inductive Act where
  /-- A call begins, with `afpc_dsi_setup_header`. -/
  | setupHeader (kind : SendKind)
  /-- `afpc_dsi_tickle_unless_busy`, up to the write. -/
  | tickle
  | send (u : Nat) (a : SendAct)
  | disconnect (p : Proc) (a : DisconnectAct)
  | reconnect (a : ReconnectAct)
  | receive (a : ReceiveAct)
  | attention (i : Nat) (a : AttentionAct)
  deriving DecidableEq, Repr

def enabled : Act → Bool
  | .setupHeader kind => kind ≠ .tickle
  | .tickle => s.sendMutex = none ∧ s.fd ≠ none
  | .send u a => s.sendEnabled u a
  | .disconnect p a => s.disconnectEnabled p a
  | .reconnect a => s.reconnectEnabled a
  | .receive a => s.receiveEnabled a
  | .attention i a => s.attentionEnabled i a

def effect : Act → Session
  | .setupHeader kind => s.setupHeader { pc := .drawn, kind := kind }
  | .tickle =>
    { s.setupHeader { pc := .locked, kind := .tickle } with sendMutex := some s.nextCall }
  | .send u a => s.send u a
  | .disconnect p a => s.disconnectStep p a
  | .reconnect a => s.reconnectStep a
  | .receive a => s.receive a
  | .attention i a => s.attentionStep i a

def step (a : Act) : Option Session := if s.enabled a then some (s.effect a) else none

theorem step_eq_some {s s' : Session} {a : Act} :
    s.step a = some s' ↔ s.enabled a = true ∧ s' = s.effect a := by
  unfold step
  split
  · next h => simp [h, eq_comm]
  · next h => simp [h]

end Session

end NC
