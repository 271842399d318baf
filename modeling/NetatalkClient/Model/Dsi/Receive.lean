import NetatalkClient.Model.Dsi.OpenSession

/-!
# Receiving the stream of a server

`afpc_dsi_recv` (`dsi.c`) takes one piece of the stream at a time and keeps in
`struct afp_server` where in a frame it is: the bytes in the receive buffer, how
much of a read's reply has been streamed to the reader, and how much of a frame
is still to be dropped. `Receiver` is that state, with the stream not read yet,
the queue of requests, and a log of what the calls hand on.

Each call does at most one `read`, and the number of bytes it returns is the
action of `Receiver.step`. The connection is one generation's, as `RxConfig` has
it; the statistic of runt packets is returned beside the state.
-/

namespace NC

/-! ## Headers -/

abbrev DSI_REQUEST : UInt8 := 0
abbrev DSI_REPLY : UInt8 := 1
abbrev DSI_DSICloseSession : UInt8 := 1
abbrev DSI_DSICommand : UInt8 := 2
abbrev DSI_DSIGetStatus : UInt8 := 3
abbrev DSI_DSIOpenSession : UInt8 := 4
abbrev DSI_DSITickle : UInt8 := 5
abbrev DSI_DSIWrite : UInt8 := 6
abbrev DSI_DSIAttention : UInt8 := 8

def afpRead : UInt8 := 27
def afpReadExt : UInt8 := 60

def dsiFlags (h : Bytes) : UInt8 := h.headD 0
def dsiCommand (h : Bytes) : UInt8 := (h.drop 1).headD 0
def dsiRequestid (h : Bytes) : Nat := beNat ((h.drop 2).take 2)
def dsiLength (h : Bytes) : Nat := beNat ((h.drop 8).take 4)

/-- The result code, an `int`. -/
def dsiCode (h : Bytes) : Int :=
  let code := beNat ((h.drop 4).take 4)
  if code < 2 ^ 31 then code else code - 2 ^ 32

def dsiCommandIsDefined (command : UInt8) : Bool :=
  command ∈ [DSI_DSICloseSession, DSI_DSICommand, DSI_DSIGetStatus, DSI_DSIOpenSession,
    DSI_DSITickle, DSI_DSIWrite, DSI_DSIAttention]

/-- What the server may send of its own accord. -/
def dsiServerSends (command : UInt8) : Bool :=
  command ∈ [DSI_DSICloseSession, DSI_DSITickle, DSI_DSIAttention]

/-! ## Requests -/

/-- `struct afp_rx_buffer`; its `size` is the length of `data`. -/
structure RxBuffer where
  data : Bytes
  maxsize : Nat
  deriving DecidableEq, Repr

/-- `struct dsi_request`, as the receiver sees it. `buffer` is the one a read
streams into, `stream_buffer` or `other`. -/
structure DsiRequest where
  requestid : Nat
  subcommand : UInt8
  connectionGeneration : Nat
  ignoreReplies : Bool
  doneWaiting : Bool
  returnCode : Int
  buffer : Option RxBuffer
  deriving DecidableEq, Repr

def DsiRequest.isRead (r : DsiRequest) : Bool :=
  r.subcommand = afpRead || r.subcommand = afpReadExt

/-- A request that waits for the reply `id`. -/
def DsiRequest.waitsFor (id : Nat) (r : DsiRequest) : Bool :=
  !r.ignoreReplies && !r.doneWaiting && r.requestid = id

def DsiRequest.finish (r : DsiRequest) (result : Int) : DsiRequest :=
  { r with returnCode := result, doneWaiting := true }

def DsiRequest.store (r : DsiRequest) (b : Bytes) : DsiRequest :=
  { r with buffer := r.buffer.map fun x => { x with data := x.data ++ b } }

/-! ## The receiver -/

/-- What the calls hand on: a reply to its handler, a packet to the code for its
command, a signal to the sender of a request. -/
inductive RxEvent where
  | reply (requestid : Nat) (packet : Bytes)
  | getstatus (packet : Bytes)
  | opensession (packet : Bytes)
  | tickle
  | attention (packet : Bytes)
  | closesession
  | signal (r : DsiRequest)
  deriving DecidableEq, Repr

/-- What stays the same on one connection: the size of the receive buffer, the
connection's generation, and the reply handlers' results. -/
structure RxConfig where
  bufsize : Nat
  generation : Nat
  replyHandler : DsiRequest → Bytes → Int
  dsiHeaderSize_lt : dsiHeaderSize < bufsize

/-- Whether the loop still calls the receiver: until a session is closed or a
call returns -1. -/
inductive RxStatus where
  | running
  | closed
  | failed
  deriving DecidableEq, Repr

/-- The receiving side of `struct afp_server`. The receive buffer's first
`data_read` bytes are `buffer`. -/
@[ext] structure Receiver extends SessionOptions where
  input : Bytes
  buffer : Bytes
  streamRead : Nat
  discardRemaining : Nat
  queue : List DsiRequest
  log : List RxEvent
  rxBytes : Nat
  status : RxStatus
  deriving DecidableEq, Repr

namespace Receiver

variable (cfg : RxConfig)

/-- `afpc_dsi_read`: some of the stream, at most `want` bytes. -/
def read (s : Receiver) (want n : Nat) : Option (Bytes × Receiver) :=
  if 0 < n ∧ n ≤ want ∧ n ≤ s.input.length then
    some (s.input.take n, { s with input := s.input.drop n, rxBytes := s.rxBytes + n })
  else none

/-- A return of -1. -/
def fail (s : Receiver) : Receiver := { s with status := .failed }

def emit (s : Receiver) (e : RxEvent) : Receiver := { s with log := s.log ++ [e] }

/-- The end of `afpc_dsi_recv_frame`: the request found for the reply gets its
result if it still waits. It is the first in the queue that waits for its ID. -/
def signal (s : Receiver) (request : Option DsiRequest) (result : Int) : Receiver :=
  match request.bind fun r => s.queue.find? (·.waitsFor r.requestid) with
  | none => s
  | some r =>
    { s with queue := updateFirst (·.waitsFor r.requestid) (·.finish result) s.queue
             log := s.log ++ [.signal (r.finish result)] }

/-- `loop_disconnect` for a session that the server closes: nothing more is read,
and every request that waits fails. -/
def closeSession (s : Receiver) : Receiver :=
  { s with status := .closed
           queue := s.queue.map fun r => if r.doneWaiting then r else r.finish (-EIO_)
           log := s.log ++ [.closesession] }

/-- The options of a session, from the packet in the buffer. No read of it is outside the buffer
(`opensessionReply_eq`). -/
def takeSession (s : Receiver) : Receiver :=
  match opensessionReply s.buffer.length s.toSessionOptions s.buffer with
  | .ok o => { s with toSessionOptions := o }
  | .error _ => s

/-- The switch over the command of a complete packet, which the buffer holds;
`request` is the one it replies to. The result replaces a result of 0. -/
def processPacket (s : Receiver) (command : UInt8) (request : Option DsiRequest) (runt : Bool)
    (result : Int) : Receiver × Int :=
  if command = DSI_DSICloseSession then (s.closeSession, result)
  else if command = DSI_DSIGetStatus then (s.emit (.getstatus s.buffer), result)
  else if command = DSI_DSIOpenSession then
    (s.takeSession.emit (.opensession s.buffer), result)
  else if command = DSI_DSITickle then (s.emit .tickle, result)
  else if command = DSI_DSIAttention then (s.emit (.attention s.buffer), result)
  else
    match request with
    | none => (s, result)
    | some r =>
      if runt then (s, result)
      else
        let replyResult := cfg.replyHandler r s.buffer
        (s.emit (.reply r.requestid s.buffer),
          if replyResult ≠ 0 ∧ result = 0 then replyResult else result)

def afterProcessing (s : Receiver) (length : Nat) : Receiver :=
  if s.buffer.length < length + dsiHeaderSize then s.fail
  else { s with buffer := s.buffer.drop (length + dsiHeaderSize) }

/-- From a complete packet in the buffer, with the header `h`, to the end;
`handle` says whether the packet goes through the switch. -/
def finishPacket (s : Receiver) (h : Bytes) (request : Option DsiRequest) (runt handle : Bool)
    (result : Int) : Receiver :=
  let (s, result) := if handle then s.processPacket cfg (dsiCommand h) request runt result
    else (s, result)
  let s := s.afterProcessing (dsiLength h)
  if s.status = .failed then s else s.signal request result

/-- The reply to a read, which streams into the read's buffer. -/
def readReply (s : Receiver) (r : DsiRequest) (result : Int) (n : Nat) : Option Receiver :=
  let h := s.buffer.take dsiHeaderSize
  let announced := dsiLength h
  if s.buffer.length = dsiHeaderSize ∧ announced = 0 then
    some ({ s with buffer := [] }.signal (some r) result)
  else
    match r.buffer with
    | none => some s.fail
    | some buf =>
      if buf.maxsize = 0 then some s.fail
      else if announced < buf.data.length ∨ buf.maxsize < announced then some s.fail
      else
        let newmax := min (buf.maxsize - buf.data.length) (announced - buf.data.length)
        -- a read of nothing returns 0, which is taken for the end of the stream
        if newmax = 0 then some s.fail
        else
          (s.read newmax n).map fun (b, s) =>
            let s := { s with
              queue := updateFirst (·.waitsFor r.requestid) (·.store b) s.queue
              streamRead := s.streamRead + n }
            if announced ≠ buf.data.length + n then s
            else
              let sizeToCopy := s.buffer.length - dsiHeaderSize
              let s := { s with streamRead := 0 }
              if sizeToCopy = 0 then { s with buffer := [] }.signal (some r) result
              else
                -- what follows the header moves over it
                let tail := s.buffer.drop dsiHeaderSize
                let h := (tail ++ s.buffer.drop sizeToCopy).take dsiHeaderSize
                { s with buffer := tail }.finishPacket cfg h (some r) false true result

/-- Any other frame, which is collected in the buffer, or dropped. -/
def otherFrame (s : Receiver) (request : Option DsiRequest) (runt : Bool) (result : Int)
    (n : Nat) : Option Receiver :=
  let h := s.buffer.take dsiHeaderSize
  let payloadLength := dsiLength h
  let payloadRead := s.buffer.length - dsiHeaderSize
  if s.buffer.length = dsiHeaderSize ∧ payloadLength = 0 then
    some (s.finishPacket cfg h request runt (!runt) result)
  else if 0 < s.streamRead then
    some ({ s with discardRemaining := payloadLength - s.streamRead
                   streamRead := 0, buffer := [] }.signal request result)
  else if cfg.bufsize - dsiHeaderSize < payloadLength then
    if s.quantum < payloadLength then some s.fail
    else
      some ({ s with discardRemaining := payloadLength - payloadRead
                     buffer := [] }.signal request (-EIO_))
  else if payloadLength < payloadRead then some s.fail
  else if payloadLength - payloadRead = 0 then
    some (s.finishPacket cfg h request runt true result)
  else
    (s.read (min (payloadLength - payloadRead) (cfg.bufsize - s.buffer.length)) n).map fun (b, s) =>
      let s := { s with buffer := s.buffer ++ b }
      if s.buffer.length < payloadLength + dsiHeaderSize then s
      else s.finishPacket cfg h request runt (!runt) result

/-- The request that the frame with the header `h` replies to, if one of this
connection waits for it. -/
def requestFor (queue : List DsiRequest) (h : Bytes) : Option DsiRequest :=
  (if dsiFlags h = DSI_REPLY then queue.find? (·.waitsFor (dsiRequestid h)) else none).filter
    (·.connectionGeneration = cfg.generation)

/-- A runt packet: a reply without its request, or a request that the server
does not make. -/
def isRunt (h : Bytes) (request : Option DsiRequest) : Bool :=
  if dsiFlags h = DSI_REPLY then request.isNone else !dsiServerSends (dsiCommand h)

/-- From a complete header on. The second result is how many runt packets the
call counts. -/
def gotEnough (s : Receiver) (n : Nat) : Option (Receiver × Nat) :=
  let h := s.buffer.take dsiHeaderSize
  if (dsiFlags h ≠ DSI_REQUEST ∧ dsiFlags h ≠ DSI_REPLY) ∨ !dsiCommandIsDefined (dsiCommand h) then
    some (s.fail, 0)
  else
    let request := requestFor cfg s.queue h
    let runt := isRunt h request
    let result := if request = none then 0 else dsiCode h
    let runts := if runt then 1 else 0
    match request.filter (·.isRead) with
    | some r => (s.readReply cfg r result n).map (·, runts)
    | none => (s.otherFrame cfg request runt result n).map (·, runts)

/-- `afpc_dsi_recv_frame`, with a read that returns `n` bytes if it does one. -/
def recvFrame (s : Receiver) (n : Nat) : Option (Receiver × Nat) :=
  if 0 < s.discardRemaining then
    (s.read (min s.discardRemaining cfg.bufsize) n).map fun (_, s) =>
      ({ s with discardRemaining := s.discardRemaining - n }, 0)
  else if s.buffer.length < dsiHeaderSize then
    (s.read (dsiHeaderSize - s.buffer.length) n).bind fun (b, s) =>
      let s := { s with buffer := s.buffer ++ b }
      if s.buffer.length = dsiHeaderSize ∧ dsiLength s.buffer = 0 then s.gotEnough cfg n
      else some (s, 0)
  else s.gotEnough cfg n

/-- A call of the loop, which has found the stream readable. -/
def step (s : Receiver) (n : Nat) : Option Receiver :=
  if s.status = .running ∧ s.input ≠ [] then (s.recvFrame cfg n).map Prod.fst else none

end Receiver

end NC
