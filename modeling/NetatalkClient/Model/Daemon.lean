import NetatalkClient.Model.Protocol

/-!
# One connection of `afpsld`

The requests that the functions of `stateless.c` send, and the daemon's side of
the connection: `process_command` collects a request from the socket in as many
reads as it takes, `process_command_thread` runs its handler, and
`finish_response` keeps the connection or closes it. Only `process_write` reads
from the socket in its handler, and it alone is modelled with all its exits; of
the others, `Turn` says how they end.

`Daemon.step` is one turn of the daemon's loop on the connection. The socket
decides how many bytes each read gets.
-/

namespace NC

/-! ## Constants of `stateless_ipc.h` -/

abbrev AFPSL_IPC_COMMAND_WRITE : UInt8 := 27
abbrev AFPSL_IPC_COMMAND_HELLO : UInt8 := 50

/-- The other commands that `process_command_thread` has a handler for. -/
def afpslIpcCommands : List UInt8 :=
  [25, 14, 2, 3, 16, 19, 20, 21, 22, 23, 28, 29, 30, 31, 32, 36, 33, 34, 35, 24, 12, 4, 37, 38,
    39, 40, 41, 42, 43, 44, 45, 46, 47, 49, 48, 51, 55, 52, 53, 54]

def AFPSL_IPC_PROTOCOL_MAGIC : Nat := 0x41465053
def AFPSL_IPC_PROTOCOL_MAJOR : Nat := 3
def AFPSL_IPC_MAX_REQUEST : Nat := 2 * (65535 + 1) + 4096

abbrev AFPSL_IPC_RESULT_OK : Nat := 0
abbrev AFPSL_IPC_RESULT_ERROR : Nat := 1
abbrev AFPSL_IPC_RESULT_NOTCONNECTED : Nat := 5
abbrev AFPSL_IPC_RESULT_NOTATTACHED : Nat := 6

/-- The sizes of `struct afpsl_ipc_request_header`, `_hello_request` and
`_write_request`. -/
def headerSize : Nat := 12
def helloRequestSize : Nat := 24
def writeRequestSize : Nat := 48

/-! ## Requests -/

/-- The fields of a request's header: the command, three bytes of padding, the
length of the request structure, and the wish to close. -/
def headerCommand (p : Bytes) : UInt8 := p.headD 0
def headerLen (p : Bytes) : Nat := leNat ((p.drop 4).take 4)
def headerClose (p : Bytes) : Nat := leNat ((p.drop 8).take 4)

def writeSize (p : Bytes) : Nat := leNat ((p.drop 40).take 4)

/-- A request as the functions of `stateless.c` send it: its structure, whose
length is the header's `len`, and, for a write alone, as many bytes of data as
its `size` says. -/
structure ClientRequest where
  packet : Bytes
  payload : Bytes
  headerSize_le : headerSize ≤ packet.length
  headerLen_eq : headerLen packet = packet.length
  write_payload : headerCommand packet = AFPSL_IPC_COMMAND_WRITE →
    packet.length = writeRequestSize ∧ writeSize packet = payload.length
  other_payload : headerCommand packet ≠ AFPSL_IPC_COMMAND_WRITE → payload = []

def ClientRequest.bytes (r : ClientRequest) : Bytes := r.packet ++ r.payload

/-- The request structure of `afp_sl_write`. -/
def writePacket (volid fileid resource offset size : Nat) : Bytes :=
  [AFPSL_IPC_COMMAND_WRITE, 0, 0, 0] ++ natLe 4 writeRequestSize ++ natLe 4 0 ++ [0, 0, 0, 0] ++
    natLe 8 volid ++ natLe 4 fileid ++ [0, 0, 0, 0] ++ natLe 8 offset ++ natLe 4 size ++
    natLe 4 resource

/-- What `afp_sl_write` sends; its `size` is an `unsigned int`. -/
def afpSlWrite (volid fileid resource offset : Nat) (data : Bytes) (h : data.length < 2 ^ 32) :
    ClientRequest where
  packet := writePacket volid fileid resource offset data.length
  payload := data
  headerSize_le := Nat.le_of_ble_eq_true rfl
  headerLen_eq := rfl
  write_payload _ := ⟨rfl, @leNat_natLe 4 _ h⟩
  other_payload hne := absurd rfl hne

def helloPacket : Bytes :=
  [AFPSL_IPC_COMMAND_HELLO, 0, 0, 0] ++ natLe 4 helloRequestSize ++ natLe 4 0 ++
    natLe 4 AFPSL_IPC_PROTOCOL_MAGIC ++ natLe 2 AFPSL_IPC_PROTOCOL_MAJOR ++ natLe 2 0 ++ natLe 4 0

def ipcHandshake : ClientRequest where
  packet := helloPacket
  payload := []
  headerSize_le := by decide
  headerLen_eq := rfl
  write_payload h := absurd h (by decide)
  other_payload _ := rfl

/-! ## The socket -/

/-- What a `read` finds: so many bytes, the end, an interruption (`EINTR` or
`EAGAIN`), or another error. -/
inductive Read where
  | data (n : Nat)
  | eof
  | again
  | error
  deriving DecidableEq, Repr

/-- The daemon's end of the connection: what the client has sent and will send
and no read has taken yet, and whether a read has found the end. -/
structure Socket where
  input : Bytes
  ended : Bool
  deriving DecidableEq, Repr

inductive Got where
  | bytes (b : Bytes)
  | eof
  | again
  | error
  deriving DecidableEq, Repr

/-- `read` of at most `want` bytes: never none of them unless at the end, and
none after it. -/
def Socket.read (k : Socket) (want : Nat) : Read → Option (Got × Socket)
  | .data n =>
    if k.ended = false ∧ 0 < n ∧ n ≤ want ∧ n ≤ k.input.length then
      some (.bytes (k.input.take n), { k with input := k.input.drop n })
    else none
  | .eof => some (.eof, { k with ended := true })
  | .again => some (.again, k)
  | .error => some (.error, k)

/-! ## The daemon -/

/-- `struct daemon_client`, as far as requests go. -/
structure DaemonClient where
  incomingHeader : Bytes
  completePacket : Option Bytes
  ipcReady : Bool
  deriving DecidableEq, Repr

def DaemonClient.received (c : DaemonClient) : Bytes := c.completePacket.getD c.incomingHeader

def DaemonClient.reset (c : DaemonClient) : DaemonClient :=
  { c with incomingHeader := [], completePacket := none }

structure WriteTurn where
  attached : Bool
  connected : Bool
  memory : Bool
  reads : List Read
  /-- Whether `get_file_handle` finds the file. -/
  handle : Bool
  ret : Int
  deriving DecidableEq, Repr

/-- How one turn fares: the reads of the header and of the body, the memory for
the request, its handler, and the response. -/
structure Turn where
  header : Read
  body : Read
  memory : Bool
  write : WriteTurn
  /-- Another handler returns an error instead of a response. -/
  fails : Bool
  /-- Another handler asks to close after its response. -/
  closes : Bool
  sent : Bool
  deriving DecidableEq, Repr

/-- What `process_command` comes to: -1, 2, or a complete request. -/
inductive Progress where
  | stop
  | more (c : DaemonClient)
  | packet (p : Bytes)
  deriving DecidableEq, Repr

/-- The second half of `process_command`, with `p` of the request there. -/
def readBody (c : DaemonClient) (p : Bytes) (k : Socket) (r : Read) :
    Option (Progress × Socket) :=
  if p.length < headerLen p then
    (k.read (headerLen p - p.length) r).map fun x =>
      match x with
      | (.eof, k) => (.stop, k)
      | (.error, k) => (.stop, k)
      | (.again, k) => (.more { c with completePacket := some p }, k)
      | (.bytes b, k) =>
        if (p ++ b).length < headerLen p then (.more { c with completePacket := some (p ++ b) }, k)
        else (.packet (p ++ b), k)
  else some (.packet p, k)

def processCommand (c : DaemonClient) (k : Socket) (t : Turn) : Option (Progress × Socket) :=
  match c.completePacket with
  | some p => readBody c p k t.body
  | none =>
    (k.read (headerSize - c.incomingHeader.length) t.header).bind fun x =>
      match x with
      | (.eof, k) => some (.stop, k)
      | (.error, k) => some (.stop, k)
      | (.again, k) => some (.more c, k)
      | (.bytes b, k) =>
        let h := c.incomingHeader ++ b
        if h.length < headerSize then some (.more { c with incomingHeader := h }, k)
        else if headerLen h < headerSize ∨ AFPSL_IPC_MAX_REQUEST < headerLen h then some (.stop, k)
        else if !t.memory then some (.stop, k)
        else readBody { c with incomingHeader := h } h k t.body

/-- The loop of `process_write` that reads the data: whether all of it came. -/
def readPayload (k : Socket) : List Read → Nat → Option (Bool × Socket)
  | _, 0 => some (true, k)
  | [], _ + 1 => none
  | r :: reads, n + 1 =>
    (k.read (n + 1) r).bind fun x =>
      match x with
      | (.bytes b, k) => readPayload k reads (n + 1 - b.length)
      | (_, k) => some (false, k)

/-- The data that the loop asks for: `bytes_remaining` is an `int`. -/
def bytesRemaining (size : Nat) : Nat := if size < 2 ^ 31 then size else 0

/-- `process_write`: the result and the count of its response. -/
def processWrite (p : Bytes) (k : Socket) (w : WriteTurn) : Option ((Nat × Nat) × Socket) :=
  if p.length < writeRequestSize then some ((AFPSL_IPC_RESULT_ERROR, 0), k)
  else if !w.attached then some ((AFPSL_IPC_RESULT_NOTATTACHED, 0), k)
  else if !w.connected then some ((AFPSL_IPC_RESULT_NOTCONNECTED, 0), k)
  else if !w.memory then some ((AFPSL_IPC_RESULT_ERROR, 0), k)
  else
    (readPayload k w.reads (bytesRemaining (writeSize p))).map fun x =>
      if !x.1 then ((AFPSL_IPC_RESULT_ERROR, 0), x.2)
      else if !w.handle then ((AFPSL_IPC_RESULT_ERROR, 0), x.2)
      else if 0 < w.ret then ((AFPSL_IPC_RESULT_OK, w.ret.toNat), x.2)
      else if w.ret < 0 then ((AFPSL_IPC_RESULT_ERROR, 0), x.2)
      else ((AFPSL_IPC_RESULT_OK, 0), x.2)

/-- `finish_response`; the connection is closed or ready for the next request. -/
def finishResponse (c : DaemonClient) (sent close : Bool) : Option DaemonClient :=
  if !sent || close then none else some c.reset

def processHello (c : DaemonClient) (p : Bytes) (sent : Bool) : Option DaemonClient :=
  if p.length ≠ helloRequestSize then none
  else
    let compatible := leNat ((p.drop 12).take 4) = AFPSL_IPC_PROTOCOL_MAGIC ∧
      leNat ((p.drop 16).take 2) = AFPSL_IPC_PROTOCOL_MAJOR
    finishResponse { c with ipcReady := compatible } sent (!compatible)

/-- `process_command_thread`. A command without a handler closes the connection,
and so does any before the handshake. -/
def processCommandThread (c : DaemonClient) (p : Bytes) (k : Socket) (t : Turn) :
    Option (Option DaemonClient × Socket) :=
  if headerCommand p = AFPSL_IPC_COMMAND_HELLO then some (processHello c p t.sent, k)
  else if !c.ipcReady then some (none, k)
  else if headerCommand p = AFPSL_IPC_COMMAND_WRITE then
    (processWrite p k t.write).map fun x =>
      (finishResponse c t.sent (headerClose p ≠ 0), x.2)
  else if headerCommand p ∈ afpslIpcCommands ∧ !t.fails then
    some (finishResponse c t.sent t.closes, k)
  else some (none, k)

/-- The connection: the client's slot until it is closed, the socket, and the
requests that were handed to a thread, the oldest first. -/
structure Daemon where
  client : Option DaemonClient
  socket : Socket
  packets : List Bytes
  deriving DecidableEq, Repr

def Daemon.step (d : Daemon) (t : Turn) : Option Daemon :=
  d.client.bind fun c =>
    (processCommand c d.socket t).bind fun x =>
      match x with
      | (.stop, k) => some { d with client := none, socket := k }
      | (.more c, k) => some { d with client := some c, socket := k }
      | (.packet p, k) =>
        (processCommandThread c p k t).map fun y =>
          { client := y.1, socket := y.2, packets := d.packets ++ [p] }

/-- `add_client`, with the requests `rs` on their way. -/
def Daemon.start (rs : List ClientRequest) : Daemon :=
  ⟨some ⟨[], none, false⟩, ⟨rs.flatMap ClientRequest.bytes, false⟩, []⟩

end NC
