import NetatalkClient.Model.Dsi.Receive

/-!
# Writing frames

The calls of `afpc_dsi_send_with_reply` and `afpc_dsi_tickle_unless_busy` (`dsi.c`) that write on
the connection of one server, as a machine whose actions are their steps between two accesses to
what they share: `send_mutex`, `server->fd` and the socket. `afpc_dsi_write_frame` gives its frame to
`send` as often as it takes, and `send` may accept any part of what is left, be interrupted, or fail.

A descriptor is named by a number of its own; `publish` and `take` are what a connect and a
disconnect do to `server->fd`, and `endSends` is `afpc_dsi_end_sends`. The stream of a descriptor has
the bytes that its socket accepted.
-/

namespace NC

def setLength (msg : Bytes) : Bytes :=
  msg.take 8 ++ natBe 4 (msg.length - dsiHeaderSize) ++ msg.drop 12

def tickleHeader (requestid : Nat) : Bytes :=
  [DSI_REQUEST, DSI_DSITickle] ++ natBe 2 requestid ++ List.replicate 12 0

/-- Where a call is. With the descriptor it loaded it has the bytes written on it so far, and keeps
both when it leaves the loop. -/
inductive FramePc where
  | ready
  | locked
  | writing (fd : Option Nat) (totalWritten : Nat)
  | ended (fd : Option Nat) (totalWritten : Nat)
  | returned (fd : Option Nat) (totalWritten : Nat)
  deriving DecidableEq, Repr

def FramePc.holds : FramePc → Bool
  | .locked | .writing .. | .ended .. => true
  | .ready | .returned .. => false

structure FrameCall where
  tickle : Bool
  frame : Bytes
  pc : FramePc
  deriving DecidableEq, Repr

structure FrameState where
  calls : List FrameCall
  sendMutex : Option Nat
  fd : Option Nat
  published : Nat
  stream : Nat → Bytes

def FrameState.init : FrameState where
  calls := []
  sendMutex := none
  fd := none
  published := 0
  stream := fun _ => []

inductive SendResult where
  | accepted (n : Nat)
  | interrupted
  | failed
  deriving DecidableEq, Repr

inductive FrameAct where
  /-- A request whose frame `msg` is, or a tickle, is about to be sent. -/
  | request (msg : Bytes)
  | tickle (requestid : Nat)
  /-- The call finds the session gone, or a tickle the mutex taken. -/
  | giveUp (u : Nat)
  | lock (u : Nat)
  /-- A tickle finds no descriptor, or no room in its socket. -/
  | noRoom (u : Nat)
  | load (u : Nat)
  | send (u : Nat) (r : SendResult)
  | unlock (u : Nat)
  | publish
  | take
  | endSends
  deriving DecidableEq, Repr

namespace FrameState

variable (s : FrameState)

def goto (u : Nat) (c : FrameCall) (pc : FramePc) : FrameState :=
  { s with calls := s.calls.set u { c with pc := pc } }

/-- One pass of the loop of `afpc_dsi_write_frame`. -/
def sendStep (u : Nat) (c : FrameCall) (fd : Option Nat) (n : Nat) : SendResult → Option FrameState
  | .accepted k =>
    match fd with
    | none => none
    | some d =>
      if n + k ≤ c.frame.length then
        let s := { s with stream := Function.update s.stream d (s.stream d ++ (c.frame.drop n).take k) }
        some (s.goto u c (if n + k = c.frame.length then .ended fd (n + k) else .writing fd (n + k)))
      else none
  | .interrupted => some s
  | .failed => some (s.goto u c (.ended fd n))

def callStep (u : Nat) (c : FrameCall) : FrameAct → Option FrameState
  | .giveUp _ => if c.pc = .ready then some (s.goto u c (.returned none 0)) else none
  | .lock _ =>
    if c.pc = .ready ∧ s.sendMutex = none then some { s.goto u c .locked with sendMutex := some u }
    else none
  | .noRoom _ =>
    if c.pc = .locked ∧ c.tickle then some (s.goto u c (.ended none 0)) else none
  | .load _ => if c.pc = .locked then some (s.goto u c (.writing s.fd 0)) else none
  | .send _ r =>
    match c.pc with
    | .writing fd n => s.sendStep u c fd n r
    | _ => none
  | .unlock _ =>
    match c.pc with
    | .ended fd n => some { s.goto u c (.returned fd n) with sendMutex := none }
    | _ => none
  | _ => none

/-- One step. A frame has a header and at most `INT_MAX` bytes. -/
def step (a : FrameAct) : Option FrameState :=
  match a with
  | .request msg =>
    if dsiHeaderSize ≤ msg.length ∧ msg.length < 2 ^ 31 then
      some { s with calls := s.calls ++ [⟨false, setLength msg, .ready⟩] }
    else none
  | .tickle requestid =>
    some { s with calls := s.calls ++ [⟨true, tickleHeader requestid, .ready⟩] }
  | .publish => some { s with fd := some s.published, published := s.published + 1 }
  | .take => some { s with fd := none }
  | .endSends => if s.sendMutex = none then some s else none
  | .giveUp u | .lock u | .noRoom u | .load u | .send u _ | .unlock u =>
    (s.calls[u]?).bind fun c => s.callStep u c a

end FrameState

end NC
