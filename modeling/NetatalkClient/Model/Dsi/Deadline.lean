import Mathlib.Algebra.BigOperators.Group.List.Basic
import Mathlib.Algebra.Order.Field.Basic

/-!
# Deadlines

`afpc_dsi_set_deadline` (`dsi.c`) gives a request that has just been written the time until which its
sender waits: its own wait and the waits of the requests written ahead of it that are still awaited.
It reads the clock first, and then walks the queue under `request_queue_mutex`; the loop thread sets
the wait of an answered request to 0 without that mutex.

The machine here has the senders of one connection, each with a wait above 0, and a server that
handles the requests one at a time in the order in which they come, begins the next at once, and
spends no more on a request than its wait. Time is exact.
-/

namespace NC

/-- A request: `limit` is the wait that its sender asked for, the others are fields of `struct
dsi_request`. `sent` and `replied` say how far it is. -/
structure TimedRequest (T : Type) where
  limit : T
  wait : T
  deadline : Option T
  sent : Bool
  replied : Bool
  deriving DecidableEq, Repr

/-- A call of `afpc_dsi_set_deadline`: the time it has read, the waits it has added up, its own first,
and, once it has `request_queue_mutex`, the requests it has still to look at. -/
structure DeadlineWalk (T : Type) where
  clock : T
  wait : T
  rest : Option (List Nat)
  deriving DecidableEq, Repr

/-- The requests of a connection, and the server: `pending` has what it has got and not answered, and
`started` is when it began with the first of them. -/
structure TimedState (T : Type) where
  now : T
  count : Nat
  request : Nat → TimedRequest T
  commandRequests : List Nat
  sendMutex : Option Nat
  walk : Option (DeadlineWalk T)
  pending : List Nat
  started : T

inductive TimedAct (T : Type) where
  | pass (δ : T)
  | enqueue (wait : T)
  | write (u : Nat)
  | readClock
  | lockQueue
  | visit
  | setDeadline
  | answer
  | leave (u : Nat)
  | expire (u : Nat)
  deriving DecidableEq, Repr

variable {T : Type} [Field T] [LinearOrder T]

namespace TimedState

def init (now : T) : TimedState T where
  now := now
  count := 0
  request := fun _ => ⟨0, 0, none, false, false⟩
  commandRequests := []
  sendMutex := none
  walk := none
  pending := []
  started := now

variable (s : TimedState T)

def setRequest (u : Nat) (r : TimedRequest T) : TimedState T :=
  { s with request := Function.update s.request u r }

/-- The server may still spend this much time on the request it handles. -/
def mayPass (δ : T) : Prop := ∀ u ∈ s.pending.head?, s.now + δ ≤ s.started + (s.request u).limit

instance (δ : T) : Decidable (s.mayPass δ) := inferInstanceAs (Decidable (∀ _ ∈ _, _))

/-- The reply to a request; one whose sender has left matches no request. -/
def reply (u : Nat) : TimedRequest T :=
  { s.request u with
    replied := true
    wait := if u ∈ s.commandRequests then 0 else (s.request u).wait }

/-- Whether `request_queue_mutex` is free: a walk of the queue holds it. -/
def queueFree : Prop := ∀ w ∈ s.walk, w.rest = none

instance : Decidable s.queueFree := inferInstanceAs (Decidable (∀ _ ∈ _, _))

def step : TimedAct T → Option (TimedState T)
  | .pass δ => if 0 ≤ δ ∧ s.mayPass δ then some { s with now := s.now + δ } else none
  | .enqueue wait =>
    if 0 < wait ∧ s.queueFree then some { s.setRequest s.count ⟨wait, wait, none, false, false⟩ with
      count := s.count + 1
      commandRequests := s.commandRequests ++ [s.count] }
    else none
  | .write u =>
    if u ∈ s.commandRequests ∧ (s.request u).sent = false ∧ s.sendMutex = none then
      some { s.setRequest u { s.request u with sent := true } with
        sendMutex := some u
        pending := s.pending ++ [u]
        started := if s.pending = [] then s.now else s.started }
    else none
  | .readClock =>
    match s.sendMutex, s.walk with
    | some u, none => some { s with walk := some ⟨s.now, (s.request u).wait, none⟩ }
    | _, _ => none
  | .lockQueue =>
    match s.walk with
    | some ⟨clock, wait, none⟩ => some { s with walk := some ⟨clock, wait, some s.commandRequests⟩ }
    | _ => none
  | .visit =>
    match s.walk with
    | some ⟨clock, wait, some (p :: rest)⟩ =>
      -- Only a request written ahead has a deadline; an answered one has a wait of 0.
      let wait := if (s.request p).deadline.isSome then wait + (s.request p).wait else wait
      some { s with walk := some ⟨clock, wait, some rest⟩ }
    | _ => none
  | .setDeadline =>
    match s.sendMutex, s.walk with
    | some u, some ⟨clock, wait, some []⟩ =>
      some { s.setRequest u { s.request u with deadline := some (clock + wait) } with
        sendMutex := none
        walk := none }
    | _, _ => none
  | .answer =>
    match s.pending with
    | [] => none
    | u :: pending =>
      some { s.setRequest u (s.reply u) with pending := pending, started := s.now }
  | .leave u =>
    if (s.request u).replied ∧ s.sendMutex ≠ some u ∧ s.queueFree then
      some { s with commandRequests := s.commandRequests.erase u }
    else none
  | .expire u =>
    match (s.request u).deadline with
    | some deadline =>
      if (s.request u).replied = false ∧ deadline ≤ s.now ∧ s.queueFree then
        some { s with commandRequests := s.commandRequests.erase u }
      else none
    | none => none

end TimedState

end NC
