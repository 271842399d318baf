import NetatalkClient.Model.Protocol

/-!
# The descriptors of the main loop

`add_fd` and `rm_fd` (`loop.c`), which any thread calls through `add_fd_and_signal` and
`rm_fd_and_signal` and the loop on its own, as the reads and writes of `rds` and `max_fd` that they
are. `FD_SET` and `FD_CLR` read the word of 64 bits with the descriptor's bit and write it back. In
the loop of `rm_fd`, `max_fd` is read for each of its uses.
-/

namespace NC

/-- The next access of a call, with what it has read. -/
inductive FdPc where
  /-- The read and the write of `FD_SET` (`add`) or `FD_CLR`. -/
  | load (add : Bool) (fd : Nat)
  | store (add : Bool) (fd : Nat) (word : Nat → Bool)
  /-- `(fd + 1) > max_fd`, and the assignment. -/
  | compare (fd : Nat)
  | raise (fd : Nat)
  /-- `max_fd > 0`, the index of `FD_ISSET` and its read. -/
  | cond
  | index
  | test (m : Int)
  /-- The read and the write of `max_fd--`. -/
  | decrement
  | lower (m : Int)
  | returned

/-- What the calls share, the calls, and the descriptors added and not removed since. -/
structure LoopFds where
  rds : Nat → Bool
  maxFd : Int
  calls : List FdPc
  live : Nat → Bool

inductive FdAct where
  | call (add : Bool) (fd : Nat)
  | access (u : Nat)
  deriving DecidableEq, Repr

namespace LoopFds

def init : LoopFds := ⟨fun _ => false, 0, [], fun _ => false⟩

variable (s : LoopFds)

def goto (u : Nat) (pc : FdPc) : LoopFds := { s with calls := s.calls.set u pc }

/-- One access of call `u`. `FD_ISSET` of a descriptor below 0 has no outcome. -/
def access (u : Nat) : FdPc → Option LoopFds
  | .load add fd => some (s.goto u (.store add fd s.rds))
  | .store add fd word =>
    some { s.goto u (if add then .compare fd else .cond) with
      rds := fun g => if g / 64 = fd / 64 then (if g = fd then add else word g) else s.rds g
      live := Function.update s.live fd add }
  | .compare fd => some (s.goto u (if s.maxFd < fd + 1 then .raise fd else .returned))
  | .raise fd => some { s.goto u .returned with maxFd := fd + 1 }
  | .cond => some (s.goto u (if 0 < s.maxFd then .index else .returned))
  | .index => some (s.goto u (.test s.maxFd))
  | .test m =>
    if m ≤ 0 then none
    else some (s.goto u (if s.rds (m - 1).toNat then .returned else .decrement))
  | .decrement => some (s.goto u (.lower s.maxFd))
  | .lower m => some { s.goto u .cond with maxFd := m - 1 }
  | .returned => none

def step : FdAct → Option LoopFds
  | .call add fd => some { s with calls := s.calls ++ [.load add fd] }
  | .access u => (s.calls[u]?).bind (s.access u)

end LoopFds

end NC
