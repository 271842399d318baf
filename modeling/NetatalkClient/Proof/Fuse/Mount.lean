import NetatalkClient.Model.Fuse.Mount

/-!
# The argument of a mount's thread, and what is told of it

Whether the thread still uses its argument when `process_mount` returns depends on what ended the
wait: only the thread's last signal comes after its last access (`AwaitsEnd`, `Waited`). Whether the
handler is told of a failure depends on when it looks: `volume->mounted` says nothing, and
`arg.fuse_result` is 0 until the thread has stored the failure (`LooksInTime`, `Told`).
-/

namespace NC

/-- The thread makes no more accesses to its argument. -/
def FusePc.done : FusePc → Bool
  | .absent | .signal | .ended => true
  | _ => false

/-- The thread has stored what `afp_fuse_main` returned. -/
def FusePc.stored : FusePc → Bool
  | .errno | .wait | .signal | .ended => true
  | _ => false

/-- The handler does not wait for the thread any more. -/
def MountPc.past : MountPc → Bool
  | .awoken | .switched | .decided _ | .returned _ => true
  | _ => false

def MountPc.isReturned : MountPc → Bool
  | .returned _ => true
  | _ => false

namespace Mount

variable {s s' : Mount} {a : MountAct}

/-- An access to the argument comes before the return of `process_mount`. -/
def ArgAlive (s : Mount) (a : MountAct) : Prop :=
  a = .access → (s.step a).isSome → s.pc.isReturned = false

/-- Success is decided on only while `afp_fuse_main` has not failed. -/
def Truthful (s : Mount) (a : MountAct) : Prop :=
  s.pc ≠ .decided AFPFSD_IPC_RESULT_OK →
    (s.step a).any (·.pc = .decided AFPFSD_IPC_RESULT_OK) → s.failed = false

/-- The wait is ended by the thread's last signal alone. -/
def AwaitsEnd (s : Mount) : MountAct → Prop
  | .wake _ => False
  | .init _ => s.pc ≠ .waiting
  | _ => True

/-- `afp_fuse_main` does not fail between the end of the wait and the decision. Once it has failed, the
wait does not expire, and does not end without a signal before the failure is stored. -/
def LooksInTime (s : Mount) : MountAct → Prop
  | .main rc => rc ≠ 0 → s.pc ≠ .awoken ∧ s.pc ≠ .switched
  | .wake ret => s.failed = true → ret ≠ ETIMEDOUT ∧ (ret = 0 → s.fuseResult ≠ 0)
  | _ => True

instance : Decidable (s.ArgAlive a) := inferInstanceAs (Decidable (_ → _ → _))

instance : Decidable (s.Truthful a) := inferInstanceAs (Decidable (_ → _ → _))

instance : Decidable (s.AwaitsEnd a) := by
  unfold AwaitsEnd
  split <;> infer_instance

instance : Decidable (s.LooksInTime a) := by
  unfold LooksInTime
  split <;> infer_instance

/-- What is so as long as the wait is for the thread's end. -/
structure Waited (s : Mount) : Prop where
  begun : s.pc = .begun → s.thread = .absent ∧ s.wait = true
  wait : s.wait = false → s.thread.done = true
  past : s.pc.past = true → s.thread.done = true

theorem Waited.step (h : s.Waited) (hok : s.AwaitsEnd a) (hs : s.step a = some s') : s'.Waited := by
  obtain ⟨hbegun, hwait, hpast⟩ := h
  cases a with
  | wake ret => exact hok.elim
  | init marks =>
    -- nobody waits, so the signal is lost
    obtain ⟨hmain, ⟨⟩⟩ := Option.ite_none_right_eq_some.1 hs
    rw [condSignal, if_neg hok]
    exact ⟨hbegun, hwait, hpast⟩
  | _ => constructor <;> grind [Mount.step, condSignal, fail, FusePc.done, MountPc.past]

theorem Waited.argAlive (h : s.Waited) : s.ArgAlive a := by
  rintro rfl henabled
  have hnot : s.thread.done = false := by grind [Mount.step, FusePc.done]
  by_contra hreturned
  have hpast : s.pc.past = true := by
    cases hpc : s.pc with
    | returned result => rfl
    | _ => exact absurd (congrArg MountPc.isReturned hpc) hreturned
  exact nomatch (h.past hpast).symm.trans hnot

/-- What is so as long as the handler looks in time. -/
structure Told (s : Mount) : Prop where
  begun : s.pc = .begun → s.thread = .absent ∧ s.wait = true
  wait : s.wait = false → s.thread.stored = true
  failed : s.failed = true →
    s.thread.stored = true ∧ s.fuseResult ≠ 0 ∨ ∃ rc, s.thread = .result rc ∧ rc ≠ 0
  awoken : s.pc = .awoken → s.failed = true → s.fuseResult ≠ 0
  switched : s.pc = .switched → s.failed = false

/-- A failure is seen once the thread has stored it. -/
theorem Told.seen (h : s.Told) (hstored : s.thread.stored = true) (hf : s.failed = true) :
    s.fuseResult ≠ 0 := by
  rcases h.failed hf with ⟨-, hne⟩ | ⟨rc, hrc, -⟩
  · exact hne
  · rw [hrc] at hstored
    cases hstored

theorem Told.not_failed (h : s.Told) (ht : s.thread.stored = false ∧ ∀ rc, s.thread ≠ .result rc) :
    s.failed = false :=
  Bool.eq_false_iff.2 fun hf => (h.failed hf).elim (fun hd => nomatch ht.1.symm.trans hd.1)
    fun ⟨rc, hrc, _⟩ => ht.2 rc hrc

/-- The handler goes on. -/
theorem Told.goto (h : s.Told) {pc : MountPc} {mounted : Bool} (hbegun : pc ≠ .begun)
    (hawoken : pc = .awoken → s.failed = true → s.fuseResult ≠ 0)
    (hswitched : pc = .switched → s.failed = false) :
    ({ s with pc := pc, mounted := mounted } : Mount).Told :=
  ⟨fun e => absurd e hbegun, h.wait, h.failed, hawoken, hswitched⟩

/-- The thread goes on, and stores nothing. -/
theorem Told.advance (h : s.Told) {t : FusePc} (ht : s.thread ≠ .absent ∧
    (s.thread.stored = true → t.stored = true) ∧ ∀ rc, s.thread ≠ .result rc) :
    ({ s with thread := t } : Mount).Told :=
  ⟨fun e => absurd (h.begun e).1 ht.1, fun e => ht.2.1 (h.wait e), fun e =>
    (h.failed e).imp (.imp_left ht.2.1) fun ⟨rc, hrc, _⟩ => absurd hrc (ht.2.2 rc), h.awoken, h.switched⟩

theorem Told.signalled (h : s.Told) (hseen : s.failed = true → s.fuseResult ≠ 0) :
    s.condSignal.Told := by
  unfold condSignal
  split
  · exact h.goto nofun (fun _ => hseen) nofun
  · exact h

theorem Told.access (h : s.Told) (hs : s.step .access = some s') : s'.Told := by
  simp only [Mount.step] at hs
  split at hs <;> cases hs
  case h_4 rc hthread =>
    have hrc : s.failed = true → rc ≠ 0 := fun hf => by
      have := h.failed hf
      simp_all [FusePc.stored]
    exact ⟨fun e => (nomatch (h.begun e).1.symm.trans hthread), fun _ => rfl,
      fun hf => .inl ⟨rfl, hrc hf⟩, fun _ => hrc, h.switched⟩
  case h_6 hthread =>
    exact ⟨fun e => (nomatch (h.begun e).1.symm.trans hthread), fun _ => rfl,
      fun hf => .inl ⟨rfl, h.seen (congrArg FusePc.stored hthread) hf⟩, h.awoken, h.switched⟩
  all_goals exact h.advance (by simp [*, FusePc.stored])

theorem Told.step (h : s.Told) (hok : s.LooksInTime a) (hs : s.step a = some s') : s'.Told := by
  cases a with
  | access => exact h.access hs
  | decide =>
    simp only [Mount.step] at hs
    split at hs <;> cases hs
    case h_1 hpc =>
      split
      · next h0 => exact h.goto nofun nofun fun _ => Bool.eq_false_iff.2 fun hf => h.awoken hpc hf h0
      · exact h.goto nofun nofun nofun
    case h_2 => exact h.goto nofun nofun nofun
  | «return» =>
    simp only [Mount.step] at hs
    split at hs <;> cases hs
    exact h.goto nofun nofun nofun
  | mark mounted =>
    cases hs
    exact { h with }
  | create ok =>
    obtain ⟨hpc, ⟨⟩⟩ := Option.ite_none_right_eq_some.1 hs
    obtain ⟨hthread, hwait⟩ := h.begun hpc
    have hf := h.not_failed (by simp [hthread, FusePc.stored])
    exact ⟨nofun, fun e => (nomatch hwait.symm.trans e), fun e => (nomatch hf.symm.trans e), nofun, nofun⟩
  | check =>
    obtain ⟨-, ⟨⟩⟩ := Option.ite_none_right_eq_some.1 hs
    refine h.goto (by split <;> nofun) (fun e => ?_) (by split <;> nofun)
    split at e
    · cases e
    · next hw => exact h.seen (h.wait (Bool.eq_false_iff.2 hw))
  | wake ret =>
    obtain ⟨-, ⟨⟩⟩ := Option.ite_none_right_eq_some.1 hs
    split
    · next h0 => exact h.goto nofun (fun _ hf => (hok hf).2 h0) nofun
    · split <;> exact h.goto nofun nofun nofun
  | refuse | sleep =>
    obtain ⟨-, ⟨⟩⟩ := Option.ite_none_right_eq_some.1 hs
    exact h.goto nofun nofun nofun
  | asprintf ok =>
    obtain ⟨hthread, ⟨⟩⟩ := Option.ite_none_right_eq_some.1 hs
    exact h.advance (by simp [hthread, FusePc.stored])
  | init marks =>
    obtain ⟨hthread, ⟨⟩⟩ := Option.ite_none_right_eq_some.1 hs
    have hf := h.not_failed (by simp [hthread, FusePc.stored])
    exact Told.signalled { h with } fun e => nomatch hf.symm.trans e
  | signal =>
    obtain ⟨hthread, ⟨⟩⟩ := Option.ite_none_right_eq_some.1 hs
    exact (h.advance (by simp [hthread, FusePc.stored])).signalled (h.seen (by rw [hthread]; rfl))
  | main rc =>
    obtain ⟨hmain, ⟨⟩⟩ := Option.ite_none_right_eq_some.1 hs
    have hrc : decide (rc ≠ 0) = true → rc ≠ 0 := of_decide_eq_true
    refine ⟨fun e => ?_, fun e => ?_, fun e => .inr ⟨rc, rfl, hrc e⟩, ?_, ?_⟩
    · exact nomatch (h.begun e).1.symm.trans hmain
    · exact nomatch (congrArg FusePc.stored hmain).symm.trans (h.wait e)
    · exact fun hpc e => absurd hpc (hok (hrc e)).1
    · exact fun hpc => Bool.eq_false_iff.2 fun e => (hok (hrc e)).2 hpc

theorem Told.truthful (h : s.Told) (hok : s.LooksInTime a) : s.Truthful a := by
  obtain ⟨hbegun, hwait, hfailed, hawoken, hswitched⟩ := h
  intro hne htold
  cases a <;>
    grind [Mount.step, condSignal, fail, AFPFSD_IPC_RESULT_OK, AFPFSD_IPC_RESULT_ERROR, LooksInTime]

/-- In every run in which the wait is ended by the thread's last signal alone, every access of the
thread to its argument comes before the return of `process_mount`. In every run in which
`afp_fuse_main` does not fail between the end of the wait and the decision, and in which the wait, once
it has failed, ends with the failure stored, success is decided on only while it has not failed. -/
theorem mount_sound_when {as : List MountAct} :
    (OkRun step AwaitsEnd start as → OkRun step ArgAlive start as) ∧
      (OkRun step LooksInTime start as → OkRun step Truthful start as) := by
  have hwaited : start.Waited := ⟨fun _ => ⟨rfl, rfl⟩, nofun, nofun⟩
  have htold : start.Told := ⟨fun _ => ⟨rfl, rfl⟩, nofun, nofun, nofun, nofun⟩
  exact ⟨OkRun.imp (fun _ _ _ hs hok h => h.step hok hs) (fun _ _ _ h => h.argAlive) hwaited,
    OkRun.imp (fun _ _ _ hs hok h => h.step hok hs) (fun _ _ hok h => h.truthful hok) htold⟩

/-- A mount up to what `afp_fuse_main` does. -/
def opening : List MountAct := [.create true, .check, .access, .access, .asprintf true, .access]

/-- A mount that fails while the handler waits. -/
def failingMount : List MountAct :=
  opening ++ [.sleep, .main 1, .access, .access, .access, .signal, .decide, .return]

theorem mount_sound_when_failing :
    (runSteps step start failingMount).any (·.pc = .returned AFPFSD_IPC_RESULT_ERROR) ∧
      OkRun step ArgAlive start failingMount ∧ OkRun step Truthful start failingMount :=
  ⟨by decide, mount_sound_when.1 (by decide), mount_sound_when.2 (by decide)⟩

/-- A mount whose handler returns before the volume is unmounted. -/
def unmountedLater : List MountAct :=
  opening ++ [.sleep, .init true, .decide, .decide, .return, .main 0, .access]

/-- A failure before the wait begins: the signal is lost, and the wait expires. -/
def failedUnheard : List MountAct :=
  opening ++ [.main 1, .access, .access, .access, .signal, .sleep, .wake ETIMEDOUT]

/-- A failure that is not stored when the wait ends without a signal. -/
def failedUnstored : List MountAct := opening ++ [.sleep, .main 1, .wake 0, .decide, .decide]

/-- The thread writes to an argument that is gone, and two failures are not told. -/
theorem mount_unsound :
    ((runSteps step start unmountedLater).isSome ∧ ¬OkRun step ArgAlive start unmountedLater) ∧
    ∀ as ∈ [failedUnheard, failedUnstored],
      (runSteps step start as).any (·.pc = .decided AFPFSD_IPC_RESULT_OK) ∧
        ¬OkRun step Truthful start as := by
  decide

end Mount

end NC
