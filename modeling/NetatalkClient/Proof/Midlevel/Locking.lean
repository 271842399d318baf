import NetatalkClient.Proof.Midlevel.Addressed

/-!
# The locks and the flushes around a transfer

`ll_read` and `ll_write` lock the range they transfer and unlock it. `wp_llHandleLocking`
and `wp_llHandleUnlocking` say what each sends and returns, over every answer: a lock is
granted, is refused, or is left contended after ten tries (`LockTries`), and both the first
and the last return 0. A flush of a file's other forks sends flushes alone
(`flushDirtyForksForFile_within`).
-/

namespace NC

open Prog

/-- Any answer at all. -/
def MlReq.anyAnswer (r : MlReq) (_ : r.Ans) : Bool := true

/-! ## Flushes -/

/-- A request of the flush of a file's other forks. -/
def MlReq.isFlush : MlReq → Bool
  | .sys .reallocs | .sys (.flushFork _) => true
  | _ => false

theorem flushRecords_within (rs : List FileInfo) :
    (flushRecords rs).Within (fun r => r.isFlush = true) fun _ => True := by
  induction rs with
  | nil => trivial
  | cons r rs ih =>
    refine ⟨rfl, fun rc => ?_⟩
    exact .ite (fun _ _ => ih) fun _ => ih

theorem flushDirtyForksForFile_within (fp : Nat) :
    (flushDirtyForksForFile fp).Within (fun r => r.isFlush = true) fun _ => True :=
  ⟨rfl, fun _ _ => flushRecords_within _⟩

/-! ## Locks -/

/-- The locks or the unlocks of a range, with their answers. -/
def lockLog (unlock : Bool) (forkid offset size : Nat) (rcs : List Int) : MlLog :=
  rcs.map fun rc => ⟨.sys (.byteRangeLock unlock forkid offset size), rc⟩

/-- The answers that make `ll_handle_locking` try again. -/
def Contended (rc : Int) : Prop := rc = kFPNoMoreLocks ∨ rc = kFPLockErr

instance (rc : Int) : Decidable (Contended rc) := inferInstanceAs (Decidable (_ ∨ _))

/-- The answers to the tries of a lock, and what they come to. -/
inductive LockTries (tries : Nat) : List Int → Int → Prop
  | granted (waits : List Int) (hw : ∀ rc ∈ waits, Contended rc) (hlt : waits.length < tries) :
      LockTries tries (waits ++ [kFPNoErr]) 0
  | contended (waits : List Int) (hw : ∀ rc ∈ waits, Contended rc) (heq : waits.length = tries) :
      LockTries tries waits 0
  | refused (waits : List Int) (hw : ∀ rc ∈ waits, Contended rc) (hlt : waits.length < tries)
      (rc : Int) (hrc : rc ≠ kFPNoErr) (hc : ¬Contended rc) : LockTries tries (waits ++ [rc]) (-1)

theorem LockTries.cons {tries : Nat} {rcs : List Int} {r rc : Int} (hrc : Contended rc)
    (h : LockTries tries rcs r) : LockTries (tries + 1) (rc :: rcs) r := by
  cases h with
  | granted waits hw hlt => exact .granted (rc :: waits) (List.forall_mem_cons.2 ⟨hrc, hw⟩) (by simpa)
  | contended waits hw heq => exact .contended (rc :: rcs) (List.forall_mem_cons.2 ⟨hrc, hw⟩) (by simpa)
  | refused waits hw hlt rc' hne hc =>
    exact .refused (rc :: waits) (List.forall_mem_cons.2 ⟨hrc, hw⟩) (by simpa) rc' hne hc

section Record

variable {ok : (r : MlReq) → r.Ans → Bool} {vol : ServedVolume} {forkid offset size : Nat}
  {s : MlState} {log : MlLog} {α : Type} {k : Int → MlCall α} {Q : α → MlState → MlLog → Prop}

theorem wp_byteRangeLock {unlock : Bool} :
    Wp (record ok) (Ml.afpByterangelock unlock forkid offset size >>= k) s log Q ↔
      ∀ rc : Int, ok (.sys (.byteRangeLock unlock forkid offset size)) rc →
        Wp (record ok) (k rc) s (log ++ lockLog unlock forkid offset size [rc]) Q := by
  show Wp (record ok) (send _ _) s log Q ↔ _
  exact wp_record_send

theorem lockTries_log (tries : Nat) :
    Wp (record ok) (lockTries forkid offset size tries) s log fun r s' log' => s' = s ∧
      ∃ rcs, log' = log ++ lockLog false forkid offset size rcs ∧ LockTries tries rcs r ∧
        ∀ rc ∈ rcs, ok (.sys (.byteRangeLock false forkid offset size)) rc = true := by
  induction tries generalizing log with
  | zero => exact wp_ret.2 ⟨rfl, [], by simp [lockLog], .contended [] nofun rfl, nofun⟩
  | succ tries ih =>
    rw [lockTries, wp_byteRangeLock]
    intro rc hok
    have hone : ∀ rc' ∈ [rc], ok (.sys (.byteRangeLock false forkid offset size)) rc' = true := by
      simpa using hok
    refine .ite (fun h => ?_) fun hne => ?_
    · exact wp_ret.2 ⟨rfl, [rc], rfl, h ▸ .granted [] nofun (Nat.succ_pos _), hone⟩
    refine .ite (fun hc => ?_) fun hc => ?_
    · refine ih.mono ?_
      rintro r s' _ ⟨rfl, rcs, rfl, h, hoks⟩
      refine ⟨rfl, rc :: rcs, by simp [lockLog], h.cons hc, ?_⟩
      exact List.forall_mem_cons.2 ⟨hok, hoks⟩
    · exact wp_ret.2 ⟨rfl, [rc], rfl, .refused [] nofun (Nat.succ_pos _) rc hne hc, hone⟩

/-- The volume has locks. -/
def ServedVolume.Locks (vol : ServedVolume) : Prop :=
  vol.hasFlag VOLUME_EXTRA_FLAGS_NO_LOCKING = false

instance (vol : ServedVolume) : Decidable vol.Locks := inferInstanceAs (Decidable (_ = _))

/-- Nothing is locked or unlocked on a volume without locks. -/
theorem wp_ifLocks {m : MlCall Int} {P : Int → MlState → MlLog → Prop}
    (hno : ¬vol.Locks → P 0 s log) (hyes : vol.Locks → Wp (record ok) m s log P) :
    Wp (record ok) (if vol.hasFlag VOLUME_EXTRA_FLAGS_NO_LOCKING then ret 0 else m) s log P :=
  .ite (fun h => wp_ret.2 (hno (by simp [ServedVolume.Locks, h]))) fun h =>
    hyes (by simpa [ServedVolume.Locks] using h)

/-- `ll_handle_locking`: nothing on a volume without locks. -/
theorem wp_llHandleLocking
    (h : ∀ r rcs, (if vol.Locks then LockTries 10 rcs r else rcs = [] ∧ r = 0) →
      (∀ rc ∈ rcs, ok (.sys (.byteRangeLock false forkid (vol.wireCount offset) (vol.wireCount size)))
        rc = true) →
      Wp (record ok) (k r) s
        (log ++ lockLog false forkid (vol.wireCount offset) (vol.wireCount size) rcs) Q) :
    Wp (record ok) (llHandleLocking vol forkid offset size >>= k) s log Q := by
  refine wp_bind.2 (wp_ifLocks (fun hv => ?_) fun hv => ?_)
  · simpa [lockLog] using h 0 [] (by rw [if_neg hv]; exact ⟨rfl, rfl⟩) nofun
  · refine (lockTries_log 10).mono ?_
    rintro r _ _ ⟨rfl, rcs, rfl, hr, hoks⟩
    exact h r rcs (by rwa [if_pos hv]) hoks

theorem wp_llHandleUnlocking
    (h : ∀ r rcs, (if vol.Locks then ∃ rc, rcs = [rc] ∧ (r = 0 ↔ rc = kFPNoErr)
        else rcs = [] ∧ r = 0) →
      (∀ rc ∈ rcs, ok (.sys (.byteRangeLock true forkid (vol.wireCount offset) (vol.wireCount size)))
        rc = true) →
      Wp (record ok) (k r) s
        (log ++ lockLog true forkid (vol.wireCount offset) (vol.wireCount size) rcs) Q) :
    Wp (record ok) (llHandleUnlocking vol forkid offset size >>= k) s log Q := by
  refine wp_bind.2 (wp_ifLocks (fun hv => ?_) fun hv => ?_)
  · simpa [lockLog] using h 0 [] (by rw [if_neg hv]; exact ⟨rfl, rfl⟩) nofun
  · rw [wp_byteRangeLock]
    intro rc hok
    refine wp_ret.2 (h _ [rc] ?_ (by simpa using hok))
    rw [if_pos hv]
    split <;> simp_all

end Record

/-- A volume's state with fork 5 open in every record. -/
def MlState.fork5 : MlState := { MlState.fresh with file := fun _ => { forkid := 5 } }

end NC
