import NetatalkClient.Model.Protocol

/-!
# The start of a mount

`process_mount` (`fuse/commands.c`) and the thread of `start_fuse_thread` that it starts, as what they
do to the argument on the handler's stack, to `volume->mounted` and to the condition. `mount_volume`
has marked the volume as mounted before (`afp_connect_volume`). `afp_fuse_main` returns at any time or
never, and calls `afp_init` as often as it likes before. The value of `arg.fuse_errno` goes to the log
alone and is left out.
-/

namespace NC

def AFPFSD_IPC_RESULT_OK : Nat := 0
def AFPFSD_IPC_RESULT_ERROR : Nat := 1

inductive MountPc where
  | begun
  | created
  /-- `arg.wait` was set, and the wait has not begun. -/
  | entering
  | waiting
  /-- The wait is over, or was not needed; `arg.fuse_result` is read next. -/
  | awoken
  /-- `arg.fuse_result` was 0; `volume->mounted` is read next. -/
  | switched
  | decided (result : Nat)
  | returned (result : Nat)
  deriving DecidableEq, Repr

/-- What `start_fuse_thread` does next: an access to a member of its argument, the `asprintf`, the
`afp_fuse_main`, or its last signal. -/
inductive FusePc where
  | absent
  | volume
  | changeuid
  | asprintf
  | options
  | main
  | result (rc : Int)
  | errno
  | wait
  | signal
  | ended
  deriving DecidableEq, Repr

structure Mount where
  pc : MountPc
  thread : FusePc
  fuseResult : Int
  wait : Bool
  mounted : Bool
  /-- `afp_fuse_main` has returned with a failure. -/
  failed : Bool
  deriving DecidableEq, Repr

inductive MountAct where
  | refuse
  /-- `pthread_create`, whose result is not looked at. -/
  | create (ok : Bool)
  | check
  | sleep
  /-- The wait ends without a signal, with what it returns. -/
  | wake (ret : Int)
  | decide
  | return
  /-- The thread's next access to its argument. -/
  | access
  | asprintf (ok : Bool)
  /-- `afp_init`, which marks the volume as mounted if it has a FUSE handle or needs none. -/
  | init (marks : Bool)
  /-- `afp_destroy`, an unmount or a reconnect sets `volume->mounted`. -/
  | mark (mounted : Bool)
  | main (rc : Int)
  | signal
  deriving DecidableEq, Repr

namespace Mount

def start : Mount := ⟨.begun, .absent, 0, true, true, false⟩

variable (s : Mount)

/-- `pthread_cond_signal`, which nobody waiting takes. -/
def condSignal : Mount := if s.pc = .waiting then { s with pc := .awoken } else s

/-- The error that is found last leaves the volume unmounted. -/
def fail : Mount := { s with pc := .decided AFPFSD_IPC_RESULT_ERROR, mounted := false }

def step : MountAct → Option Mount
  | .refuse =>
    if s.pc = .begun then some { s with pc := .decided AFPFSD_IPC_RESULT_ERROR } else none
  | .create ok =>
    if s.pc = .begun then some { s with pc := .created, thread := if ok then .volume else .absent }
    else none
  | .check =>
    if s.pc = .created then some { s with pc := if s.wait then .entering else .awoken } else none
  | .sleep => if s.pc = .entering then some { s with pc := .waiting } else none
  | .wake ret =>
    if s.pc = .waiting then
      some (if ret = 0 then { s with pc := .awoken }
        else if ret = ETIMEDOUT then { s with pc := .decided AFPFSD_IPC_RESULT_OK }
        else s.fail)
    else none
  | .decide =>
    match s.pc with
    | .awoken => some (if s.fuseResult = 0 then { s with pc := .switched } else s.fail)
    | .switched =>
      some { s with
        pc := .decided (if s.mounted then AFPFSD_IPC_RESULT_OK else AFPFSD_IPC_RESULT_ERROR) }
    | _ => none
  | .return =>
    match s.pc with
    | .decided result => some { s with pc := .returned result }
    | _ => none
  | .access =>
    match s.thread with
    | .volume => some { s with thread := .changeuid }
    | .changeuid => some { s with thread := .asprintf }
    | .options => some { s with thread := .main }
    | .result rc => some { s with thread := .errno, fuseResult := rc }
    | .errno => some { s with thread := .wait }
    | .wait => some { s with thread := .signal, wait := false }
    | _ => none
  | .asprintf ok =>
    if s.thread = .asprintf then some { s with thread := if ok then .options else .result 1 }
    else none
  | .init marks =>
    if s.thread = .main then some { s with mounted := s.mounted || marks }.condSignal else none
  | .mark mounted => some { s with mounted := mounted }
  | .main rc =>
    if s.thread = .main then some { s with thread := .result rc, failed := rc ≠ 0 } else none
  | .signal => if s.thread = .signal then some { s with thread := .ended }.condSignal else none

end Mount

end NC
