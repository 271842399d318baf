import NetatalkClient.Framework.Machine

/-!
# The clients of the command socket

`fuse_scan_extra_fds`, with what it calls, and `process_command_thread` (`fuse/commands.c`), as what
they do to the list at `client_base`, to its records and to the accepted descriptors. Nothing is
locked: a step ends at each iteration over the list and wherever another thread can make a
difference. Thread 0 is the main loop, each other thread runs one command. The address of a record is
not reused. The ready descriptors of a call are any: those of the source are never a client's from an
earlier call, since an accepted descriptor joins the set of its own call only.
-/

namespace NC

inductive ClientPc where
  /-- Outside of `fuse_scan_extra_fds`, not started, or ended. -/
  | idle
  | append (newc c : Nat) (set : List Nat)
  /-- `fuse_process_client_fds`, before and in its loop. -/
  | entry (set : List Nat)
  | scan (c : Option Nat) (set : List Nat)
  | command (c : Nat)
  /-- `process_command_thread` up to its test of `c->fd`, and before its `close`. -/
  | respond (c : Nat)
  | retire (c : Nat)
  /-- `remove_client`, before and in its loop; `fd` is closed afterwards. -/
  | remove (toremove : Nat) (fd : Option Nat)
  | walk (toremove : Nat) (c prev fd : Option Nat)
  | ending (fd : Nat)
  deriving DecidableEq, Repr

structure FsdClients where
  base : Option Nat
  next : Nat → Option Nat
  fd : Nat → Nat
  /-- The records allocated so far are those below. -/
  made : Nat
  freed : List Nat
  opened : List Nat
  /-- A freed record was used or freed, or a descriptor closed that was not open. -/
  fault : Bool
  pc : Nat → ClientPc
  threads : Nat

inductive ClientAct where
  /-- A call of `fuse_scan_extra_fds`, with what `accept` returns and whether `malloc` then succeeds. -/
  | call (set : List Nat) (accepted : Option (Nat × Bool))
  /-- A step of thread `u`; `got` is for `read`, with the outcome of `pthread_create` if there is a
  command. -/
  | step (u : Nat) (got : Option Bool)
  deriving DecidableEq, Repr

namespace FsdClients

def init : FsdClients := ⟨none, fun _ => none, fun _ => 0, 0, [], [], false, fun _ => .idle, 0⟩

variable (s : FsdClients)

def goto (u : Nat) (pc : ClientPc) : FsdClients := { s with pc := Function.update s.pc u pc }

def use (c : Nat) : FsdClients := { s with fault := s.fault || s.freed.contains c }

def close (fd : Nat) : FsdClients :=
  { s with opened := s.opened.erase fd, fault := s.fault || !s.opened.contains fd }

def chain : Nat → Option Nat → List Nat
  | n + 1, some c => c :: chain n (s.next c)
  | _, _ => []

def listed : List Nat := s.chain s.made s.base

def fuseScanExtraFds (set : List Nat) : Option (Nat × Bool) → FsdClients
  | none => s.goto 0 (.entry set)
  | some (fd, false) => { s.goto 0 (.entry (fd :: set)) with opened := fd :: s.opened }
  | some (fd, true) =>
    let s' := { s with
      next := Function.update s.next s.made none, fd := Function.update s.fd s.made fd
      made := s.made + 1, opened := fd :: s.opened }
    match s.base with
    | none => { s'.goto 0 (.entry (fd :: set)) with base := some s.made }
    | some c => s'.goto 0 (.append s.made c (fd :: set))

/-- `toremove` was found behind `prev`. -/
def unlink (toremove : Nat) : Option Nat → FsdClients
  | none => { s.use toremove with base := none, freed := toremove :: s.freed }
  | some prev => { (s.use prev).use toremove with
      next := Function.update s.next prev (s.next toremove), freed := toremove :: s.freed }

def removed (u : Nat) : Option Nat → FsdClients
  | none => s.goto u .idle
  | some fd => s.goto u (.ending fd)

def advance (u : Nat) (got : Option Bool) : ClientPc → Option FsdClients
  | .idle => none
  | .append newc c set =>
    match s.next c with
    | none => some { (s.use c).goto u (.entry set) with next := Function.update s.next c (some newc) }
    | some c' => some ((s.use c).goto u (.append newc c' set))
  | .entry set => some (s.goto u (.scan s.base set))
  | .scan none _ => some (s.goto u .idle)
  | .scan (some c) set =>
    some ((s.use c).goto u (if s.fd c ∈ set then .command c else .scan (s.next c) set))
  | .command c =>
    match got with
    | some true =>
      some { ((s.use c).goto u .idle).goto (s.threads + 1) (.respond c) with threads := s.threads + 1 }
    -- the result of `pthread_create` is ignored
    | some false => some ((s.use c).goto u .idle)
    | none => some { (s.use c).goto u (.remove c (some (s.fd c))) with fd := Function.update s.fd c 0 }
  | .respond c => some ((s.use c).goto u (if s.fd c = 0 then .idle else .retire c))
  | .retire c => some (((s.use c).close (s.fd c)).goto u (.remove c none))
  | .remove c fd => some (s.goto u (.walk c s.base none fd))
  | .walk _ none _ fd => some (s.removed u fd)
  | .walk toremove (some c) prev fd =>
    if c = toremove then some ((s.unlink toremove prev).removed u fd)
    else some ((s.use c).goto u (.walk toremove (s.next c) (some c) fd))
  | .ending fd => some ((s.close fd).goto u .idle)

/-- A call comes when the last one is over, and `accept` returns a descriptor that is not open. -/
def step : ClientAct → Option FsdClients
  | .call set accepted =>
    if s.pc 0 = .idle ∧ ∀ a ∈ accepted, a.1 ∉ s.opened then some (s.fuseScanExtraFds set accepted)
    else none
  | .step u got => s.advance u got (s.pc u)

end FsdClients

end NC
