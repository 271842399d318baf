import NetatalkClient.Proof.Dsi.Moves

/-!
# The calls, their reconnect and `send_mutex`

Calls have numbers in the order of their begin, and a reconnect in progress is that of one
call (`Threads`), which goes on when the reconnect ends. The call that has `send_mutex` is
about to write (`Mutex`), and can always give it back (`mutex_released`).
-/

namespace NC

/-- Between the lock of `send_mutex` and the end of the write. -/
def SendPc.hasMutex : SendPc → Bool
  | .locked | .sending _ => true
  | _ => false

namespace Session

variable {s s' : Session} {u v : Nat} {pc pc' : SendPc} {a : SendAct}

/-! ## Calls that come and go -/

/-- Calls have numbers in the order of their begin, and the reconnect in progress, if
there is one, is the one of the call `reconnectCall`. -/
structure Threads (s : Session) : Prop where
  fresh : ∀ u, s.nextCall ≤ u → (s.calls u).pc = .none
  inProgress : s.reconnect ≠ .idle → s.reconnectInProgress = true
  caller : s.reconnect ≠ .idle → (s.calls s.reconnectCall).pc = .reconnecting

theorem Threads.lt_nextCall (h : Threads s) (hpc : (s.calls u).pc ≠ .none) : u < s.nextCall := by
  by_contra hu
  exact hpc (h.fresh u (Nat.not_lt.1 hu))

theorem threads_start (last : Nat) (replayCache : Bool) : Threads (start last replayCache) :=
  ⟨fun _ _ => rfl, fun h => absurd rfl h, fun h => absurd rfl h⟩

theorem Threads.frame (h : Threads s) (hn : s'.nextCall = s.nextCall)
    (hr : s'.reconnect ≠ .idle → s.reconnect ≠ .idle)
    (hp : s'.reconnectInProgress = s.reconnectInProgress) (hc : s'.reconnectCall = s.reconnectCall)
    (hf : ∀ v, (s'.calls v).frame = (s.calls v).frame) : Threads s' := by
  constructor <;> simp only [hn, hp, hc, SendCall.pc_of_frame (hf _)]
  exacts [h.fresh, fun h' => h.inProgress (hr h'), fun h' => h.caller (hr h')]

variable {fs : List (Nat × Nat)}

/-- A sender that takes a step has begun, and no other thread reconnects for it. -/
theorem Moves.running (hm : Moves s u pc a pc' fs s') : pc ≠ .none ∧ pc ≠ .reconnecting := by
  cases hm <;> exact ⟨nofun, nofun⟩

/-- A reconnect begins only where there is none. -/
theorem send_reconnect_cases (ht : Threads s) (hg : s.sendEnabled u a = true) :
    (s.send u a).reconnect = s.reconnect ∨
      (s.reconnect = .idle ∧ (s.send u a).reconnect = .begun) := by
  obtain ⟨_, _, _, -, hm⟩ := moves hg
  generalize s.send u a = s' at hm
  cases hm with
  | reconnecting hp =>
    refine .inr ⟨?_, rfl⟩
    by_contra hne
    exact absurd (hp.symm.trans (ht.inProgress hne)) nofun
  | _ => exact .inl rfl

theorem threads_send (h : Threads s) (hpc : (s.calls u).pc = pc) (hm : Moves s u pc a pc' fs s') :
    Threads s' := by
  obtain ⟨hnone, hrec⟩ := hm.running
  have hs := hm.sends
  have fresh : ∀ v, s'.nextCall ≤ v → (s'.calls v).pc = .none := by
    intro v hv
    rw [hs.nextCall] at hv
    rw [hs.calls v (Nat.ne_of_gt (Nat.lt_of_lt_of_le (h.lt_nextCall (hpc ▸ hnone)) hv))]
    exact h.fresh v hv
  by_cases hbegins : pc' = .reconnecting
  · have hpc' := hm.pc_eq
    subst hbegins
    cases hm
    exact ⟨fresh, fun _ => rfl, fun _ => hpc'⟩
  · obtain ⟨hr, hp, hc⟩ := hm.reconnect_eq hbegins
    refine ⟨fresh, fun h' => ?_, fun h' => ?_⟩
    · rw [hr] at h'
      rw [hp]
      exact h.inProgress h'
    · rw [hr] at h'
      have hcaller := h.caller h'
      rw [hc, hs.calls _ (by rintro e; rw [e, hpc] at hcaller; exact hrec hcaller)]
      exact hcaller

theorem threads_setupHeader (h : Threads s) (c : SendCall) : Threads (s.setupHeader c) := by
  refine ⟨fun u hu => ?_, h.inProgress, fun h' => ?_⟩
  · rw [setupHeader_of_ne s c (Nat.ne_of_gt (Nat.lt_of_succ_le hu))]
    exact h.fresh u (Nat.le_of_succ_le hu)
  · have hlt : s.reconnectCall < s.nextCall := h.lt_nextCall (by rw [h.caller h']; exact nofun)
    show ((s.setupHeader c).calls s.reconnectCall).pc = _
    rw [setupHeader_of_lt c hlt]
    exact h.caller h'

theorem threads_reconnect (h : Threads s) {k : ReconnectPc} {a : ReconnectAct} (hr : s.reconnect = k)
    (hs : Reconnected s k a s') : Threads s' := by
  have hidle := hs.ne_idle hr
  have hpc := h.caller hidle
  -- the reconnect goes on as the one of the same call
  have goes : ∀ {s' : Session}, s'.nextCall = s.nextCall →
      s'.reconnectInProgress = s.reconnectInProgress → s'.reconnectCall = s.reconnectCall →
      (∀ v, (s'.calls v).frame = (s.calls v).frame) → Threads s' :=
    fun hn hp hc hf => h.frame hn (fun _ => hidle) hp hc hf
  -- the reconnect ends, and its call goes on
  have ends : ∀ pc, ∀ v, s.nextCall ≤ v → ((s.goto s.reconnectCall pc).calls v).pc = .none := by
    intro pc v hv
    have hlt : s.reconnectCall < s.nextCall := h.lt_nextCall (by rw [hpc]; exact nofun)
    rw [(sends_goto s _ pc).calls v (Nat.ne_of_gt (Nat.lt_of_lt_of_le hlt hv))]
    exact h.fresh v hv
  cases hs with
  | flush => exact goes rfl rfl rfl flush_frame
  | opensession | send =>
    have hnew := fun b => threads_setupHeader h (nextRequest b)
    exact ⟨(hnew _).fresh, fun _ => h.inProgress hidle, fun _ => (hnew _).caller hidle⟩
  | ended | endFailed => exact ⟨ends _, fun h' => absurd rfl h', fun h' => absurd rfl h'⟩
  | _ => exact goes rfl rfl rfl fun _ => rfl

theorem threads_step {a : Act} (h : Threads s) (hstep : s.step a = some s') : Threads s' := by
  obtain ⟨hg, rfl⟩ := step_eq_some.1 hstep
  have hb := bystands hg
  cases a with
  | setupHeader kind => exact threads_setupHeader h _
  | tickle =>
    have hnew := threads_setupHeader h { pc := .locked, kind := .tickle }
    exact ⟨hnew.1, hnew.2, hnew.3⟩
  | send u a =>
    obtain ⟨_, _, _, hpc, hm⟩ := moves hg
    exact threads_send h hpc hm
  | reconnect a =>
    obtain ⟨k, hr, hs⟩ := reconnected hg
    exact threads_reconnect h hr hs
  | _ =>
    have hb := hb rfl
    exact h.frame hb.nextCall (fun h' => hb.reconnect ▸ h') hb.reconnectInProgress hb.reconnectCall
      hb.frame

/-! ## `send_mutex` -/

/-- The call that has `send_mutex` is about to write. -/
def Mutex (s : Session) : Prop := ∀ u, s.sendMutex = some u → (s.calls u).pc.hasMutex = true

theorem mutex_start (last : Nat) (replayCache : Bool) : Mutex (start last replayCache) := nofun

theorem Mutex.frame (h : Mutex s) (hm : s'.sendMutex = s.sendMutex)
    (hf : ∀ v, (s'.calls v).frame = (s.calls v).frame) : Mutex s' := by
  intro u hu
  rw [SendCall.pc_of_frame (hf u)]
  exact h u (hm ▸ hu)

theorem Mutex.goes (h : Mutex s) {pc : SendPc} (hpc : (s.calls u).pc = pc)
    (hf : pc.hasMutex = false) (hm : s'.sendMutex = s.sendMutex)
    (hc : ∀ v, v ≠ u → s'.calls v = s.calls v) : Mutex s' := by
  intro v hv
  rw [hm] at hv
  have hne : v ≠ u := by
    rintro rfl
    have := h v hv
    rw [hpc, hf] at this
    cases this
  rw [hc v hne]
  exact h v hv

theorem mutex_send (h : Mutex s) (hpc : (s.calls u).pc = pc) (hm : Moves s u pc a pc' fs s') :
    Mutex s' := by
  have hs := hm.sends
  cases hm with
  | locked | lockedOneway =>
    rintro v ⟨⟩
    exact congrArg (fun c => c.pc.hasMutex) (setCall_self s u _)
  | loadFd =>
    intro v hv
    by_cases e : v = u
    · subst e
      exact congrArg (fun c => c.pc.hasMutex) (setCall_self s v _)
    · rw [hs.calls v e]
      exact h v hv
  | written | sent | failed | unsent => exact nofun
  | _ => exact h.goes hpc rfl rfl hs.calls

theorem mutex_setupHeader (ht : Threads s) (h : Mutex s) (c : SendCall) :
    Mutex (s.setupHeader c) := by
  intro v hv
  have hm := h v hv
  rw [setupHeader_of_ne s c]
  · exact hm
  · rintro rfl
    rw [ht.fresh _ (Nat.le_refl _)] at hm
    cases hm

theorem mutex_reconnect (ht : Threads s) (h : Mutex s) {k : ReconnectPc} {a : ReconnectAct}
    (hr : s.reconnect = k) (hs : Reconnected s k a s') : Mutex s' := by
  have hpc := ht.caller (hs.ne_idle hr)
  cases hs with
  | flush => exact h.frame rfl flush_frame
  | opensession | send => exact mutex_setupHeader ht h (nextRequest _)
  | ended | endFailed => exact h.goes hpc rfl rfl (sends_goto s _ _).calls
  | _ => exact h.frame rfl fun _ => rfl

theorem mutex_step {a : Act} (ht : Threads s) (h : Mutex s) (hstep : s.step a = some s') :
    Mutex s' := by
  obtain ⟨hg, rfl⟩ := step_eq_some.1 hstep
  have hb := bystands hg
  cases a with
  | setupHeader kind => exact mutex_setupHeader ht h _
  | tickle =>
    rintro v ⟨⟩
    exact congrArg (fun c => c.pc.hasMutex) (setupHeader_self s { pc := .locked, kind := .tickle })
  | send u a =>
    obtain ⟨_, _, _, hpc, hm⟩ := moves hg
    exact mutex_send h hpc hm
  | reconnect a =>
    obtain ⟨k, hr, hs⟩ := reconnected hg
    exact mutex_reconnect ht h hr hs
  | _ => exact h.frame (hb rfl).sendMutex (hb rfl).frame

/-- The call that has `send_mutex` can always give it back. -/
theorem mutex_released (h : Mutex s) : ∃ as s', runSteps step s as = some s' ∧
    s'.sendMutex = none ∧ s'.taken = s.taken ∧ s'.disconnect = s.disconnect ∧
    s'.reconnect = s.reconnect ∧ s'.closed = s.closed := by
  cases hm : s.sendMutex with
  | none => exact ⟨[], s, rfl, hm, rfl, rfl, rfl, rfl⟩
  | some u =>
    have fails : ∀ t : Session, ∀ fd, (t.calls u).pc = .sending fd →
        step t (.send u (.writeFails fd)) = some (t.send u (.writeFails fd)) :=
      fun t fd e => step_eq_some.2 ⟨decide_eq_true e, rfl⟩
    have hu := h u hm
    cases hpc : (s.calls u).pc with
    | locked =>
      have hload : step s (.send u .loadFd) = some (s.goto u (.sending s.fd)) :=
        step_eq_some.2 ⟨decide_eq_true hpc, rfl⟩
      have hfail := fails (s.goto u (.sending s.fd)) s.fd (congrArg SendCall.pc (setCall_self s u _))
      exact ⟨[.send u .loadFd, .send u (.writeFails s.fd)],
        (s.goto u (.sending s.fd)).send u (.writeFails s.fd),
        runSteps_cons.2 ⟨_, hload, runSteps_cons.2 ⟨_, hfail, rfl⟩⟩, rfl, rfl, rfl, rfl, rfl⟩
    | sending fd =>
      exact ⟨[.send u (.writeFails fd)], s.send u (.writeFails fd),
        runSteps_cons.2 ⟨_, fails s fd hpc, rfl⟩, rfl, rfl, rfl, rfl, rfl⟩
    | _ =>
      rw [hpc] at hu
      cases hu

/-! ## Runs -/

/-- The steps of a sender from the check of the state until its frame is out. -/
def sendSteps (u g : Nat) : List Act :=
  [.send u .check, .send u .checkFd, .send u .loadGeneration, .send u .enqueue, .send u .lock,
    .send u .loadFd, .send u (.write g)]

/-- The steps of the loop until it reads on the connection `g`. -/
def receiveSteps (g : Nat) : List Act :=
  [.receive .select, .receive .loadGeneration, .receive (.loadFd g), .receive (.check g (some g))]

/-- The steps of the loop for a reply to the call `u`, without a payload, that it hands
to the request of `v`. -/
def replySteps (g u v : Nat) (result : Int) : List Act :=
  receiveSteps g ++
    [.receive (.header g g u true), .receive (.find g g u true),
      .receive (.checkGeneration g g u true (some v)),
      .receive (.payloadWhole g g u true (some v) true result false), .receive (.signal v result),
      .receive (.release (some v) false)]

/-- The steps of a sender whose request is completed. -/
def returnSteps (u : Nat) (rc : Int) : List Act :=
  [.send u .wake, .send u .result, .send u (.remove .answered rc)]

/-- The steps of `loop_disconnect` in the thread `p`, on the connection `g`. -/
def disconnectSteps (p : Proc) (g : Nat) : List Act :=
  [.disconnect p .loadGeneration, .disconnect p (.take g), .disconnect p (.close g),
    .disconnect p (.fail g), .disconnect p (.mark g)]

/-- The loop sees the end of the connection `g` and disconnects. -/
def dropSteps (g : Nat) : List Act :=
  receiveSteps g ++ [.receive (.readError g g)] ++ disconnectSteps .loop g ++ [.receive .disconnected]

/-- The steps of a sender that reconnects, until a new descriptor is published. -/
def reconnectSteps (u : Nat) : List Act :=
  [.send u .check, .send u .tryBegin, .reconnect .flush, .reconnect (.verify true),
    .reconnect .exchange, .reconnect .advance, .reconnect .close, .reconnect (.socket true),
    .reconnect .resetRequestid, .reconnect .publish]

/-- The steps behind it, with DSIOpenSession as the call `u` on the connection `g`. -/
def openSteps (u g : Nat) : List Act :=
  [.reconnect .send] ++ sendSteps u g ++ replySteps g u u 0 ++ returnSteps u 0 ++
    [.reconnect (.next u .answered 0 true), .reconnect .finish, .reconnect .end]

end Session

end NC
