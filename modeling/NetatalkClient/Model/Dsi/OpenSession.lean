import NetatalkClient.Model.Protocol

/-!
# The options of a session

`afpc_dsi_opensession_reply` (`dsi.c`) reads the options of a DSIOpenSession reply from the
receive buffer into the server structure, which outlives the session: `afp_server_connect`
(`afp.c`) begins the next one, and `afpc_dsi_setup_header` numbers the requests. `SessionState` is
what these functions read and write of the structure.
-/

namespace NC

/-- The size of `struct dsi_header`. -/
def dsiHeaderSize : Nat := 16

def DSI_DEFAULT_QUANTUM : Nat := 1024 * 1024
def DSI_MAX_QUANTUM : Nat := 256 * 1024 * 1024

/-- The option of the replay cache's size. -/
abbrev kServerReplayCacheSize : UInt8 := 2

def defaultAttentionQuantum : Nat := 1024

structure SessionOptions where
  quantum : Nat
  attentionQuantum : Nat
  replayCacheSize : Nat
  supportsReplayCache : Bool
  deriving DecidableEq, Repr

/-- The part of `struct afp_server` that sessions set up. -/
structure SessionState extends SessionOptions where
  lastrequestid : Nat
  expectedrequestid : Nat
  deriving DecidableEq, Repr

/-- What `afp_server_init` sets. -/
def SessionState.init : SessionState where
  quantum := 0
  attentionQuantum := defaultAttentionQuantum
  replayCacheSize := 0
  supportsReplayCache := false
  lastrequestid := 0
  expectedrequestid := 0

/-- One option: the quantum so far, and the structure. -/
def takeOption (type : UInt8) (len offset : Nat) (quantum : Nat) (s : SessionOptions) :
    Reads (Nat × SessionOptions) := do
  if type = 0 ∧ len = 4 then return (← Reads.nat (offset + 2) 4, s)
  else if type = kServerReplayCacheSize ∧ len = 4 then
    let cacheSize ← Reads.nat (offset + 2) 4
    return (quantum, { s with replayCacheSize := cacheSize, supportsReplayCache := true })
  else return (quantum, s)

def opensessionLoop (dataRead : Nat) : Nat → Nat → Nat → SessionOptions →
    Reads (Nat × SessionOptions)
  | 0, _, _, _ => fun _ => .error .unfinished
  | fuel + 1, offset, quantum, s => do
    if dataRead < offset + 2 then return (quantum, s)
    let type ← Reads.byte offset
    let len := (← Reads.byte (offset + 1)).toNat
    if dataRead < offset + 2 + len then return (quantum, s)
    let (quantum, s) ← takeOption type len offset quantum s
    opensessionLoop dataRead fuel (offset + 2 + len) quantum s

def opensessionReply (dataRead : Nat) (s : SessionOptions) : Reads SessionOptions := do
  let (quantum, s) ← opensessionLoop dataRead (dataRead + 1) dsiHeaderSize 0 s
  return { s with
    quantum := if quantum = 0 ∨ DSI_MAX_QUANTUM < quantum then DSI_DEFAULT_QUANTUM else quantum }

/-- The request numbers of `afp_server_connect`. -/
def SessionState.connect (s : SessionState) : SessionState :=
  if s.supportsReplayCache then s else { s with lastrequestid := 0 }

/-- The ID that `afpc_dsi_setup_header` draws after `lastrequestid`. -/
def requestidAfter (lastrequestid : Nat) (supportsReplayCache : Bool) : Nat :=
  if lastrequestid = 65535 then if supportsReplayCache then 1 else 0 else lastrequestid + 1

def SessionState.setupHeader (s : SessionState) : SessionState :=
  let id := requestidAfter s.lastrequestid s.supportsReplayCache
  { s with lastrequestid := id, expectedrequestid := id }

/-- What happens to the structure: a connect, a request, or the reply to a DSIOpenSession, with
what earlier frames left behind it in the receive buffer. -/
inductive SessionEvent where
  | connect
  | request
  | reply (frame left : Bytes)
  deriving DecidableEq, Repr

/-- One event; `none` is a read outside the buffer. -/
def SessionState.step (s : SessionState) : SessionEvent → Option SessionState
  | .connect => some s.connect
  | .request => some s.setupHeader
  | .reply frame left =>
    (opensessionReply frame.length s.toSessionOptions (frame ++ left)).toOption.map fun o =>
      { s with toSessionOptions := o }

end NC
