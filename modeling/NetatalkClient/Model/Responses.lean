import NetatalkClient.Model.Protocol

/-!
# Responses of afpsld

What `afpsld` sends for a command, and how a client reads it. While a command runs, its log messages
are recorded in a buffer of the client's connection (`daemon_log_for_client`, `daemon.c`).
`send_command` (`daemon_client.c`) sends the response with those records and a footer behind it, and
puts the length of the whole into the response's header. A client (`stateless.c`) reads the whole into
one buffer (`afp_sl_read_framed_response`), or a structure and then the rest (`read_response_tail`),
and takes the log messages off again.

Numbers are those of a little-endian host. A client sends a command once it has read the response to
the one before, so that what arrives is always one response.
-/

namespace NC

abbrev ipcMaxResponse : Nat := 65535 + 1024

abbrev ipcLogBufferSize : Nat := 4096

abbrev ipcLogMagic : Nat := 0x4146504c

/-- The sizes of `struct afpsl_ipc_response_header`, `struct afpsl_ipc_log_record` and
`struct afpsl_ipc_log_footer`. -/
abbrev responseHeaderSize : Nat := 8
abbrev logRecordSize : Nat := 8
abbrev logFooterSize : Nat := 8

abbrev connectionDataSize : Nat := ipcMaxResponse + ipcLogBufferSize + 200

/-! ## The daemon -/

/-- A log message: the bits of its level, and its text up to the terminator. -/
structure LogMessage where
  level : UInt32
  text : Bytes
  deriving DecidableEq, Repr

def logRecord (m : LogMessage) : Bytes := natLe 4 m.level.toNat ++ natLe 4 m.text.length ++ m.text

/-- `daemon_log_for_client`: the buffer with a message recorded. -/
def daemonLogForClient (outgoing : Bytes) (m : LogMessage) : Bytes :=
  let outgoing := if ipcLogBufferSize ≤ outgoing.length then [] else outgoing
  let available := ipcLogBufferSize - outgoing.length
  if logRecordSize < available then
    outgoing ++ logRecord { m with text := m.text.take (min (2 ^ 32 - 1) (available - logRecordSize)) }
  else outgoing

def withLength (response : Bytes) (len : Nat) : Bytes :=
  response.take 4 ++ natLe 4 len ++ response.drop 8

def logFooter (logLen : Nat) : Bytes := natLe 4 ipcLogMagic ++ natLe 4 logLen

/-- `send_command`: what is written for a response of a structure and its content. -/
def sendCommand (outgoing data : Bytes) : Option Bytes :=
  if data.length < responseHeaderSize then none
  else if ipcLogBufferSize < outgoing.length ∨
      2 ^ 32 - 1 < data.length + outgoing.length + logFooterSize then none
  else
    let response := data ++ outgoing ++ logFooter outgoing.length
    some (withLength response response.length)

/-- What `process_command_thread` sends for a command: the buffer begins empty, and `logs` are
recorded before the response is sent. -/
def respond (logs : List LogMessage) (data : Bytes) : Option Bytes :=
  sendCommand (logs.foldl daemonLogForClient []) data

/-! ## The client -/

/-- The client's end: what has arrived, and how many bytes each read finds at most. -/
structure ClientSocket where
  arrived : Bytes
  sizes : Nat → Nat
  reads : Nat

/-- `read` of at most `want` bytes; `none` if none come. -/
def ClientSocket.read (k : ClientSocket) (want : Nat) : Option (Bytes × ClientSocket) :=
  if k.arrived = [] ∨ want = 0 then none
  else
    let n := min (k.sizes k.reads + 1) want
    some (k.arrived.take n, { k with arrived := k.arrived.drop n, reads := k.reads + 1 })

def readBytesWithTimeout : Nat → Nat → ClientSocket → Option (Bytes × ClientSocket)
  | _, 0, k => some ([], k)
  | 0, _ + 1, _ => none
  | fuel + 1, len, k => do
    let (b, k) ← k.read len
    let (rest, k) ← readBytesWithTimeout fuel (len - b.length) k
    return (b ++ rest, k)

def responseLen (response : Bytes) : Nat := leNat ((response.drop 4).take 4)

def framedLoop (capacity : Nat) : Nat → Bytes → Nat → ClientSocket → Option (Bytes × ClientSocket)
  | 0, _, _, _ => none
  | fuel + 1, received, expectedLen, k =>
    if capacity ≤ received.length then none
    else
      match k.read (capacity - received.length) with
      | none => none
      | some (b, k) =>
        let received := received ++ b
        let begins := responseHeaderSize ≤ received.length ∧ expectedLen = 0
        let expectedLen := if begins then responseLen received else expectedLen
        if begins ∧ expectedLen < responseHeaderSize + logFooterSize then none
        else if capacity < expectedLen then none
        else if received.length = expectedLen then some (received, k)
        else if 0 < expectedLen ∧ expectedLen < received.length then none
        else framedLoop capacity fuel received expectedLen k

def readFramedResponse (capacity : Nat) (k : ClientSocket) : Option (Bytes × ClientSocket) :=
  if capacity < responseHeaderSize + logFooterSize then none
  else framedLoop capacity (k.arrived.length + 1) [] 0 k

def responseContentLength (response : Bytes) : Option Nat :=
  if response.length < logFooterSize then none
  else
    let footer := response.drop (response.length - logFooterSize)
    let logLen := leNat ((footer.drop 4).take 4)
    if leNat (footer.take 4) ≠ ipcLogMagic ∨ ipcLogBufferSize < logLen ∨
        response.length - logFooterSize < logLen then none
    else some (response.length - logFooterSize - logLen)

/-- The loop of `afp_sl_dispatch_response_logs` on what is left of the records: the messages
delivered, and whether all records were well formed. -/
def dispatchLoop : Nat → Bytes → List LogMessage × Bool
  | 0, _ => ([], true)
  | fuel + 1, rest =>
    if rest = [] then ([], true)
    else if rest.length < logRecordSize then ([], false)
    else
      let level := leNat (rest.take 4)
      let messageLen := leNat ((rest.drop 4).take 4)
      let rest := rest.drop logRecordSize
      if ipcLogBufferSize < messageLen ∨ rest.length < messageLen then ([], false)
      else
        let (delivered, ok) := dispatchLoop fuel (rest.drop messageLen)
        (⟨UInt32.ofNat level, rest.take messageLen⟩ :: delivered, ok)

/-- `afp_sl_dispatch_response_logs`: the messages delivered, and whether it succeeds. -/
def dispatchResponseLogs (response : Bytes) : List LogMessage × Bool :=
  match responseContentLength response with
  | none => ([], false)
  | some contentLen =>
    let records := (response.take (response.length - logFooterSize)).drop contentLen
    dispatchLoop records.length records

/-- How a client reads a response: `read_answer`, or a structure of `size` bytes and then
`read_response_tail`. -/
inductive ResponseReader where
  | answer
  | tail (size : Nat)
  deriving DecidableEq, Repr

/-- A response as the client has it: the structure with its content, and the messages delivered. -/
structure ReceivedResponse where
  bytes : Bytes
  logs : List LogMessage
  deriving DecidableEq, Repr

/-- The response that `read_answer` leaves in the connection's buffer. -/
def readAnswer (k : ClientSocket) : Option (ReceivedResponse × ClientSocket) := do
  let (data, k) ← readFramedResponse connectionDataSize k
  let (logs, ok) := dispatchResponseLogs data
  if ok then
    let contentLen ← responseContentLength data
    return (⟨data.take contentLen, logs⟩, k)
  else none

/-- `read_response_tail`, behind a structure of `size` bytes. -/
def readResponseTail (totalLen size : Nat) (k : ClientSocket) :
    Option (ReceivedResponse × ClientSocket) := do
  if totalLen < size + logFooterSize then none
  else
    let (tail, k) ← readBytesWithTimeout (totalLen - size) (totalLen - size) k
    let contentLen ← responseContentLength tail
    let (logs, ok) := dispatchResponseLogs tail
    if ok then return (⟨tail.take contentLen, logs⟩, k) else none

def readResponse (reader : ResponseReader) (k : ClientSocket) :
    Option (ReceivedResponse × ClientSocket) :=
  match reader with
  | .answer => readAnswer k
  | .tail size => do
    let (front, k) ← readBytesWithTimeout size size k
    let (r, k) ← readResponseTail (responseLen front) size k
    return (⟨front ++ r.bytes, r.logs⟩, k)

/-- A command: what is logged for it, its response, and how the client reads that. -/
structure ServedCommand where
  logs : List LogMessage
  data : Bytes
  reader : ResponseReader
  deriving DecidableEq, Repr

def serveCommands : List ServedCommand → ClientSocket →
    Option (List ReceivedResponse × ClientSocket)
  | [], k => some ([], k)
  | c :: cs, k => do
    let response ← respond c.logs c.data
    let (r, k) ← readResponse c.reader { k with arrived := k.arrived ++ response }
    let (rs, k) ← serveCommands cs k
    return (r :: rs, k)

end NC
