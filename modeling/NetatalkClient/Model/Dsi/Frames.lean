import NetatalkClient.Model.Dsi.Receive

/-!
# What the receiver does, frame by frame

`Receiver.serveFrame` says in one step what the receiver makes of a whole frame,
and `Receiver.serveAll` of a stream of them. It is stated without pieces and
without places in a frame; the receiver's calls come to the same.
-/

namespace NC

/-- A well-formed frame: flags and command as DSI defines them, and a payload of
the length that the header announces. -/
structure Frame where
  header : Bytes
  payload : Bytes
  header_length : header.length = dsiHeaderSize
  flags_defined : dsiFlags header = DSI_REQUEST ∨ dsiFlags header = DSI_REPLY
  command_defined : dsiCommandIsDefined (dsiCommand header) = true
  length_eq : dsiLength header = payload.length

def Frame.bytes (f : Frame) : Bytes := f.header ++ f.payload

/-- The read's buffer has room for a reply of so many bytes. -/
def DsiRequest.hasRoom (r : DsiRequest) (len : Nat) : Bool :=
  match r.buffer with
  | none => false
  | some buf => len ≤ buf.maxsize

namespace Receiver

variable (cfg : RxConfig)

def skip (s : Receiver) (k : Nat) : Receiver :=
  { s with input := s.input.drop k, rxBytes := s.rxBytes + k }

/-- The frame with the header `h` and a payload of `len` bytes cannot be taken: a
read reply that does not fit the read's buffer, or another frame that is longer
than both the receive buffer and the quantum. -/
def rejects (s : Receiver) (h : Bytes) (len : Nat) : Bool :=
  match (requestFor cfg s.queue h).filter (·.isRead) with
  | some r => 0 < len && !r.hasRoom len
  | none => cfg.bufsize - dsiHeaderSize < len && s.quantum < len

/-- One whole frame. A frame that is rejected leaves its header in the buffer. -/
def serveFrame (s : Receiver) (f : Frame) : Receiver :=
  let request := requestFor cfg s.queue f.header
  let runt := isRunt f.header request
  let result := if request = none then 0 else dsiCode f.header
  let t := s.skip f.bytes.length
  if s.rejects cfg f.header f.payload.length then
    { s.skip dsiHeaderSize with buffer := f.header }.fail
  else
    match request.filter (·.isRead) with
    | some r =>
      { t with queue := updateFirst (·.waitsFor r.requestid) (·.store f.payload) t.queue }.signal
        (some r) result
    | none =>
      if cfg.bufsize - dsiHeaderSize < f.payload.length then t.signal request (-EIO_)
      else { t with buffer := f.bytes }.finishPacket cfg f.header request runt (!runt) result

/-- A stream of frames, up to one that ends it. -/
def serveAll (s : Receiver) : List Frame → Receiver
  | [] => s
  | f :: fs =>
    if (s.serveFrame cfg f).status = .running then (s.serveFrame cfg f).serveAll fs
    else s.serveFrame cfg f

end Receiver

end NC
