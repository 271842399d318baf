import NetatalkClient.Proof.Dsi.Requests
import NetatalkClient.Proof.Dsi.Writes

/-!
# What every step keeps

`Shared` puts together what holds in every state that the threads of a session can
reach, whatever the order of their steps (`shared_run`).
-/

namespace NC

namespace Session

variable {s s' : Session}

/-! ## The generation a request was queued on -/

/-- No request is queued on a generation to come. -/
def QueuedOn (s : Session) : Prop := ∀ u, (s.calls u).queuedOn ≤ s.generation

theorem queuedOn_frame (h : QueuedOn s) (hg : s.generation ≤ s'.generation)
    (hf : ∀ v, (s'.calls v).frame = (s.calls v).frame) : QueuedOn s' := by
  intro v
  have e : (s'.calls v).frame.queuedOn = (s.calls v).frame.queuedOn := by rw [hf v]
  exact Nat.le_trans (Nat.le_of_eq e) (Nat.le_trans (h v) hg)

theorem queuedOn_setupHeader (h : QueuedOn s) {c : SendCall} (hc : c.queuedOn = 0) :
    QueuedOn (s.setupHeader c) := by
  intro v
  by_cases e : v = s.nextCall
  · rw [e, setupHeader_self]
    exact hc ▸ Nat.zero_le _
  · rw [setupHeader_of_ne s c e]
    exact h v

theorem queuedOn_reconnect (h : QueuedOn s) {k : ReconnectPc} {a : ReconnectAct}
    (hs : Reconnected s k a s') : QueuedOn s' := by
  have ends : ∀ pc, QueuedOn (s.goto s.reconnectCall pc) := fun pc v =>
    Nat.le_trans (Nat.le_of_eq (goto_keeps SendCall.queuedOn s _ pc rfl v)) (h v)
  cases hs with
  | flush => exact queuedOn_frame h (Nat.le_refl _) flush_frame
  | advance => exact queuedOn_frame h (Nat.le_succ _) fun _ => rfl
  | opensession | send => exact queuedOn_setupHeader h (c := nextRequest _) rfl
  | ended | endFailed => exact ends _
  | _ => exact h

theorem queuedOn_step {a : Act} (h : QueuedOn s) (hstep : s.step a = some s') : QueuedOn s' := by
  obtain ⟨hg, rfl⟩ := step_eq_some.1 hstep
  have hb := bystands hg
  cases a with
  | setupHeader kind => exact queuedOn_setupHeader h rfl
  | tickle => exact queuedOn_setupHeader (c := { pc := .locked, kind := .tickle }) h rfl
  | send u a =>
    have hs := send_sends hg
    intro v
    show ((s.send u a).calls v).queuedOn ≤ (s.send u a).generation
    rw [hs.generation]
    by_cases e : v = u
    · subst e
      rcases (send_kept hg).queuedOn with e | e
      · exact e ▸ h v
      · exact Nat.le_of_eq e
    · rw [hs.calls v e]
      exact h v
  | reconnect a =>
    obtain ⟨k, -, hs⟩ := reconnected hg
    exact queuedOn_reconnect h hs
  | _ => exact queuedOn_frame h (Nat.le_of_eq (hb rfl).generation.symm) (hb rfl).frame

/-! ## Every run -/

/-- What holds in every run. -/
structure Shared (s : Session) : Prop where
  threads : Threads s
  mutex : Mutex s
  owned : Owned s
  closers : Closers s
  descriptors : Descriptors s
  writes : Writes s
  queuedOn : QueuedOn s

theorem shared_start (last : Nat) (replayCache : Bool) : Shared (start last replayCache) where
  threads := threads_start last replayCache
  mutex := mutex_start last replayCache
  owned := owned_start last replayCache
  closers := closers_start last replayCache
  descriptors := descriptors_start last replayCache
  writes := writes_start last replayCache
  queuedOn := fun _ => Nat.le_refl 0

theorem shared_step {a : Act} (h : Shared s) (hstep : s.step a = some s') : Shared s' where
  threads := threads_step h.threads hstep
  mutex := mutex_step h.threads h.mutex hstep
  owned := owned_step h.threads h.owned hstep
  closers := closers_step h.threads h.closers hstep
  descriptors := descriptors_step h.threads h.closers h.descriptors hstep
  writes := writes_step h.threads h.descriptors h.writes hstep
  queuedOn := queuedOn_step h.queuedOn hstep

theorem shared_run {as : List Act} {last : Nat} {replayCache : Bool}
    (h : runSteps step (start last replayCache) as = some s) : Shared s :=
  runSteps_always (fun _ _ _ hstep hs => shared_step hs hstep) (shared_start last replayCache) h

/-! ## Reconnecting -/

/-- A request of the thread that reconnects has not returned yet. -/
def OwnOpen (s : Session) (u : Nat) : Prop :=
  (s.calls u).nested = true ∧ (s.calls u).pc.hasReturned = false

/-- The thread that reconnects waits for the one request of its own. It makes it within the call that
reconnects, which is another; the request does not reconnect, and goes out on the new connection. -/
structure ReconnectsAlone (s : Session) : Prop where
  one : ∀ u, s.OwnOpen u → s.reconnect = .request u
  caller : ∀ u, s.OwnOpen u → (s.calls s.reconnectCall).pc = .reconnecting ∧
    (s.calls u).pc ≠ .reconnect ∧ u ≠ s.reconnectCall
  own : ∀ u d, s.OwnOpen u → (s.calls u).pc = .sending (some d) → d = s.generation

/-- In every state of every run, whatever the order of the threads' steps, a reconnect is alone. -/
theorem reconnects_alone (last : Nat) (replayCache : Bool) (as : List Act) :
    Along step ReconnectsAlone (start last replayCache) as := by
  refine along_of_invariant (fun _ _ _ hstep hs => shared_step hs hstep) (fun s hs => ?_)
    (shared_start last replayCache)
  have hone : ∀ u, s.OwnOpen u → s.reconnect = .request u := fun u hu => hs.writes.request u hu.1 hu.2
  refine ⟨hone, fun u hu => ?_, fun u d hu => (hs.writes.own u (hone u hu)).sending d⟩
  have hcaller := hs.threads.caller (by simp [hone u hu])
  obtain ⟨-, -, hnot, hnot'⟩ := hs.writes.nested u hu.1
  exact ⟨hcaller, hnot, fun e => hnot' (e ▸ hcaller)⟩

end Session

end NC
