import NetatalkClient.Model.Dsi.Receive
import NetatalkClient.Model.Pascal
import NetatalkClient.Model.UamNames

/-!
# Messages of a server

`afp_getsrvrmsg` (`proto_server.c`) asks a server for its login message or for the message of an
attention, and `afp_getsrvrmsg_reply` copies the text of the reply into the caller's buffer. The copy
goes through a static buffer that all requests to all servers share. `MessageState` is that buffer,
with the texts handed to the callers so far.
-/

namespace NC

abbrev loginmesgLen : Nat := 200

abbrev getsrvrmsgUtf8 : Nat := 2

abbrev getsrvrmsgReplySize : Nat := 20

/-- `afp_getsrvrmsg_reply` on a reply of `size` bytes: the result, the static buffer and the
caller's. -/
def getsrvrmsgReply (size : Nat) (mesg : Bytes) (other : Option Bytes) :
    Reads (Int × Bytes × Option Bytes) := do
  if size < getsrvrmsgReplySize then return (-1, mesg, other)
  let messagebitmap ← Reads.nat 18 2
  let (_, mesg) ← if messagebitmap &&& getsrvrmsgUtf8 ≠ 0
    then copyFromPascalTwo loginmesgLen getsrvrmsgReplySize mesg
    else copyFromPascal loginmesgLen getsrvrmsgReplySize mesg
  return (0, mesg, other.map fun _ => mesg)

/-- How a request for a message ends: without a reply, or with a reply and what stands behind it in
the receive buffer of its server. -/
inductive MessageExchange where
  | unanswered
  | answered (frame left : Bytes)
  deriving DecidableEq, Repr

/-- The static buffer, and what callers have been handed. -/
structure MessageState where
  mesg : Bytes
  handed : List Bytes
  deriving DecidableEq, Repr

def MessageState.init : MessageState where
  mesg := List.replicate loginmesgLen 0
  handed := []

/-- The buffer that `afp_server_complete_connection` and `afpc_dsi_incoming_attention` pass. -/
def callersBuffer : Bytes := List.replicate loginmesgLen 0

/-- `afp_getsrvrmsg`, up to the reply; `none` is a read outside the receive buffer. -/
def MessageState.step (s : MessageState) : MessageExchange → Option MessageState
  | .unanswered => some { s with handed := s.handed ++ [callersBuffer] }
  | .answered frame left =>
    match getsrvrmsgReply frame.length s.mesg (some callersBuffer) (frame ++ left) with
    | .ok (_, mesg, other) => some { mesg := mesg, handed := s.handed ++ other.toList }
    | .error _ => none

/-! ## Attentions -/

abbrev AFPATTN_SHUTDOWN : Nat := 2 ^ 15
abbrev AFPATTN_CRASH : Nat := 2 ^ 14
abbrev AFPATTN_MESG : Nat := 2 ^ 13

def attentionFlags (packet : Bytes) : Option Nat :=
  if 2 ≤ dsiLength packet then some (beNat ((packet.drop dsiHeaderSize).take 2)) else none

def attentionChecks (packet : Bytes) : Bool :=
  match attentionFlags packet with
  | some flags => flags &&& AFPATTN_MESG ≠ 0
  | none => true

/-- Whether `afpc_dsi_incoming_attention` takes an attention as a shutdown notice, given the message
it reads. -/
def attentionShutdown (packet mesg : Bytes) : Bool :=
  (attentionFlags packet).any (fun flags => flags &&& (AFPATTN_CRASH ||| AFPATTN_SHUTDOWN) ≠ 0) ||
    attentionChecks packet && mesg.take 41 == ascii "The server is going down for maintenance."

end NC
