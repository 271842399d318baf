import NetatalkClient.Proof.Midlevel.Reading
import NetatalkClient.Proof.Midlevel.Writing

/-!
# Every lock is released, and nothing else

Over every answer, a call of `ll_read` or `ll_write` exchanges what `LockedCall` says: the
tries of its lock, the data, and the unlocks. Its unlocks are balanced with the lock it was
granted, and contention alone does not fail it (`Fair`), exactly when the lock was not left
contended and no unlock after a transfer that succeeded was refused (`Undisturbed`).
-/

namespace NC

open List MlReq Prog

/-- A lock or an unlock. -/
def MlReq.isLock : MlReq → Bool
  | .sys (.byteRangeLock ..) => true
  | _ => false

/-- The ranges that were unlocked. -/
def unlocks (log : MlLog) : List (Nat × Nat × Nat) :=
  log.filterMap fun
    | ⟨.sys (.byteRangeLock true forkid offset size), _⟩ => some (forkid, offset, size)
    | _ => none

/-- The ranges whose locks were acknowledged. -/
def lockAcks (log : MlLog) : List (Nat × Nat × Nat) :=
  log.filterMap fun
    | ⟨.sys (.byteRangeLock false forkid offset size), rc⟩ =>
      if rc = kFPNoErr then some (forkid, offset, size) else none
    | _ => none

/-- The answers to the locks, and to the unlocks. -/
def lockAnswers (unlock : Bool) (log : MlLog) : List Int :=
  log.filterMap fun
    | ⟨.sys (.byteRangeLock u ..), rc⟩ => if u = unlock then some rc else none
    | _ => none

/-- The lock was asked for and stayed contended. -/
def LeftContended (log : MlLog) : Prop :=
  lockAnswers false log ≠ [] ∧ ∀ rc ∈ lockAnswers false log, Contended rc

/-- The answer to a data request is a success: a read's is one at the end too, and a write's
names an offset within the request. -/
def Succeeded : Exchange MlReq.Ans → Prop
  | ⟨.sys (.read ..), a⟩ => a.1 = kFPNoErr ∨ a.1 = kFPEOFErr
  | ⟨.sys (.write _ offset data), a⟩ => a.1 = kFPNoErr ∧ offset < a.2 ∧ a.2 ≤ offset + data.length
  | _ => True

/-- The ranges unlocked are those whose lock was acknowledged, each once; and contention
alone does not fail a call whose data requests all succeeded. -/
def Fair (log : MlLog) (failed : Prop) : Prop :=
  unlocks log = lockAcks log ∧ (LeftContended log → (∀ x ∈ log, Succeeded x) → ¬failed)

/-- The lock was not left contended, and no unlock after a transfer that succeeded was
refused. -/
def Undisturbed (log : MlLog) : Prop :=
  ¬LeftContended log ∧ ((∀ x ∈ log, Succeeded x) → ∀ rc ∈ lockAnswers true log, rc = kFPNoErr)

/-! ## The parts of a log -/

section Parts

variable (forkid offset size : Nat) (rcs : List Int) {log : MlLog}

theorem unlocks_append (log more : MlLog) : unlocks (log ++ more) = unlocks log ++ unlocks more :=
  filterMap_append ..

theorem lockAcks_append (log more : MlLog) :
    lockAcks (log ++ more) = lockAcks log ++ lockAcks more := filterMap_append ..

theorem lockAnswers_append (unlock : Bool) (log more : MlLog) :
    lockAnswers unlock (log ++ more) = lockAnswers unlock log ++ lockAnswers unlock more :=
  filterMap_append ..

theorem parts_of_not_lock (h : ∀ x ∈ log, x.1.isLock = false) :
    unlocks log = [] ∧ lockAcks log = [] ∧ ∀ unlock, lockAnswers unlock log = [] := by
  refine ⟨?_, ?_, fun unlock => ?_⟩ <;>
  · refine filterMap_eq_nil_iff.2 fun x hx => ?_
    have hl := h x hx
    obtain ⟨c | r, a⟩ := x
    · rfl
    · cases r <;> first | rfl | cases hl

theorem parts_unlockLog :
    unlocks (lockLog true forkid offset size rcs) = rcs.map (fun _ => (forkid, offset, size)) ∧
      lockAcks (lockLog true forkid offset size rcs) = [] ∧
      lockAnswers true (lockLog true forkid offset size rcs) = rcs ∧
      lockAnswers false (lockLog true forkid offset size rcs) = [] := by
  simp [unlocks, lockAcks, lockAnswers, lockLog]

theorem parts_lockLog :
    unlocks (lockLog false forkid offset size rcs) = [] ∧
      lockAcks (lockLog false forkid offset size rcs) =
        rcs.filterMap (fun rc => if rc = kFPNoErr then some (forkid, offset, size) else none) ∧
      lockAnswers true (lockLog false forkid offset size rcs) = [] ∧
      lockAnswers false (lockLog false forkid offset size rcs) = rcs := by
  simp [unlocks, lockAcks, lockAnswers, lockLog]

theorem succeeded_lockLog {unlock : Bool} :
    ∀ x ∈ lockLog unlock forkid offset size rcs, Succeeded x := by
  intro x hx
  obtain ⟨rc, -, rfl⟩ := mem_map.1 hx
  trivial

end Parts

/-! ## The course of a call -/

/-- The unlocks of a call whose lock did not fail: one, and another when the first is
refused though the data went through. -/
inductive Released (transferred : Prop) : List Int → Prop → Prop
  | failed (ht : ¬transferred) (rc : Int) {failed : Prop} (hf : failed) : Released transferred [rc] failed
  | done (ht : transferred) {failed : Prop} (hf : ¬failed) : Released transferred [kFPNoErr] failed
  | refused (ht : transferred) (rc rc' : Int) (hrc : rc ≠ kFPNoErr) {failed : Prop} (hf : failed) :
      Released transferred [rc, rc'] failed

/-- What a call exchanges, and whether it fails: other requests than locks and data; the
tries of a lock that is refused; or those of one that is not, the data, and the unlocks. -/
inductive LockedCall (forkid offset size : Nat) : MlLog → Prop → Prop
  | none {pre : MlLog} (hpre : ∀ x ∈ pre, x.1.isLock = false ∧ Succeeded x) (failed : Prop) :
      LockedCall forkid offset size pre failed
  | refused {pre : MlLog} (hpre : ∀ x ∈ pre, x.1.isLock = false ∧ Succeeded x) {rcs : List Int}
      (hl : LockTries 10 rcs (-1)) (failed : Prop) :
      LockedCall forkid offset size (pre ++ lockLog false forkid offset size rcs) failed
  | held {pre : MlLog} (hpre : ∀ x ∈ pre, x.1.isLock = false ∧ Succeeded x) {rcs : List Int}
      (hl : LockTries 10 rcs 0) {data : MlLog} (hdata : ∀ x ∈ data, x.1.isLock = false)
      {us : List Int} {failed : Prop} (hus : Released (∀ x ∈ data, Succeeded x) us failed) :
      LockedCall forkid offset size (pre ++ lockLog false forkid offset size rcs ++ data ++
        lockLog true forkid offset size us) failed

theorem LockTries.refused_of_ne {tries : Nat} {rcs : List Int} {r : Int} (h : LockTries tries rcs r)
    (hr : r ≠ 0) : LockTries tries rcs (-1) := by
  cases h with
  | granted | contended => exact absurd rfl hr
  | refused waits hw hlt rc hrc hc => exact .refused waits hw hlt rc hrc hc

theorem lockLog_append (unlock : Bool) (forkid offset size : Nat) (rcs rcs' : List Int) :
    lockLog unlock forkid offset size (rcs ++ rcs') =
      lockLog unlock forkid offset size rcs ++ lockLog unlock forkid offset size rcs' :=
  map_append ..

theorem Contended.ne {rc : Int} (h : Contended rc) : rc ≠ kFPNoErr := by
  rintro rfl
  revert h
  decide

theorem filterMap_contended {α : Type} {x : α} {waits : List Int} (h : ∀ rc ∈ waits, Contended rc) :
    waits.filterMap (fun rc => if rc = kFPNoErr then some x else none) = [] :=
  filterMap_eq_nil_iff.2 fun rc hrc => if_neg (h rc hrc).ne

theorem not_all_contended {waits : List Int} {rc : Int} (h : ¬Contended rc) :
    ¬(waits ++ [rc] ≠ [] ∧ ∀ rc' ∈ waits ++ [rc], Contended rc') :=
  fun hall => h (hall.2 rc (by simp))

/-- The locks and the data of a call whose lock did not fail. -/
theorem parts_held {forkid offset size : Nat} {pre data log : MlLog} {rcs us : List Int}
    (hpre : ∀ x ∈ pre, x.1.isLock = false ∧ Succeeded x) (hdata : ∀ x ∈ data, x.1.isLock = false)
    (hlog : log =
      pre ++ lockLog false forkid offset size rcs ++ data ++ lockLog true forkid offset size us) :
    unlocks log = us.map (fun _ => (forkid, offset, size)) ∧
      lockAcks log =
        rcs.filterMap (fun rc => if rc = kFPNoErr then some (forkid, offset, size) else none) ∧
      lockAnswers false log = rcs ∧ lockAnswers true log = us ∧
      ((∀ x ∈ log, Succeeded x) ↔ ∀ x ∈ data, Succeeded x) := by
  obtain ⟨hpu, hpa, hpl⟩ := parts_of_not_lock fun x hx => (hpre x hx).1
  obtain ⟨hdu, hda, hdl⟩ := parts_of_not_lock hdata
  have hlock := parts_lockLog forkid offset size rcs
  have hunlock := parts_unlockLog forkid offset size us
  subst hlog
  refine ⟨?_, ?_, ?_, ?_, ?_⟩
  · simp [unlocks_append, hpu, hdu, hlock, hunlock]
  · simp [lockAcks_append, hpa, hda, hlock, hunlock]
  · simp [lockAnswers_append, hpl, hdl, hlock, hunlock]
  · simp [lockAnswers_append, hpl, hdl, hlock, hunlock]
  · refine ⟨fun h x hx => h x (by simp [hx]), fun h x hx => ?_⟩
    simp only [mem_append] at hx
    rcases hx with ((hx | hx) | hx) | hx
    · exact (hpre x hx).2
    · exact succeeded_lockLog _ _ _ _ x hx
    · exact h x hx
    · exact succeeded_lockLog _ _ _ _ x hx

theorem LockedCall.fair_iff {forkid offset size : Nat} {log : MlLog} {failed : Prop}
    (h : LockedCall forkid offset size log failed) : Fair log failed ↔ Undisturbed log := by
  unfold Fair Undisturbed LeftContended
  cases h with
  | none hpre =>
    obtain ⟨hu, ha, hl⟩ := parts_of_not_lock fun x hx => (hpre x hx).1
    simp [hu, ha, hl]
  | @refused pre hpre rcs hl =>
    have hnone : ∀ x ∈ ([] : MlLog), x.1.isLock = false := by simp
    obtain ⟨hu, ha, hl', hl'', -⟩ := parts_held hpre hnone
      (show pre ++ lockLog false forkid offset size rcs = pre ++ lockLog false forkid offset size rcs ++
        [] ++ lockLog true forkid offset size [] by simp [lockLog])
    rw [hu, ha, hl', hl'']
    cases hl with
    | refused waits hw hlt rc hrc hc =>
      have hnot := @not_all_contended waits rc hc
      exact iff_of_true ⟨by simp [filterMap_contended hw, hrc], fun h => absurd h hnot⟩
        ⟨hnot, by simp⟩
  | @held pre hpre rcs hl data hdata us failed hus =>
    obtain ⟨hu, ha, hl', hl'', hs⟩ := parts_held hpre hdata rfl
    rw [hu, ha, hl', hl'', hs]
    cases hl with
    | granted waits hw hlt =>
      have hnot := @not_all_contended waits kFPNoErr fun h => h.ne rfl
      cases hus with
      | failed ht =>
        exact iff_of_true ⟨by simp [filterMap_contended hw], fun h => absurd h hnot⟩
          ⟨hnot, fun h => absurd h ht⟩
      | done ht =>
        exact iff_of_true ⟨by simp [filterMap_contended hw], fun h => absurd h hnot⟩
          ⟨hnot, by simp⟩
      | refused ht rc rc' hrc =>
        refine iff_of_false (fun h => ?_) fun h => hrc (h.2 ht rc (by simp))
        have hlen := congrArg List.length h.1
        simp [filterMap_contended hw] at hlen
    | contended _ hw heq =>
      have hne : us ≠ [] := by cases hus <;> simp
      have hrcs : rcs ≠ [] := by
        rintro rfl
        cases heq
      refine iff_of_false (fun h => hne ?_) fun h => h.1 ⟨hrcs, hw⟩
      simpa [filterMap_contended hw] using h.1

theorem beside_nil : ∀ x ∈ ([] : MlLog), x.1.isLock = false ∧ Succeeded x := by simp

/-- A call that fails for another reason than its lock unlocks once, unless its lock was refused. -/
theorem fair_iff_of_failed {forkid offset size : Nat} {rcs us : List Int} {r : Int} {data : MlLog}
    {failed : Prop} (hl : LockTries 10 rcs r) (hdata : ∀ x ∈ data, x.1.isLock = false)
    (hus : us.length = if r = 0 then 1 else 0) :
    Fair (lockLog false forkid offset size rcs ++ data ++ lockLog true forkid offset size us) failed ↔
      ¬LeftContended (lockLog false forkid offset size rcs ++ data ++
        lockLog true forkid offset size us) := by
  obtain ⟨hu, ha, hl', -, -⟩ := parts_held beside_nil hdata rfl
  rw [nil_append] at hu ha hl'
  rw [Fair, LeftContended, hu, ha, hl']
  cases hl with
  | granted waits hw hlt =>
    obtain ⟨rc, rfl⟩ := length_eq_one_iff.1 hus
    have hnot := @not_all_contended waits kFPNoErr fun h => h.ne rfl
    exact iff_of_true ⟨by simp [filterMap_contended hw], fun h => absurd h hnot⟩ hnot
  | contended _ hw heq =>
    obtain ⟨rc, rfl⟩ := length_eq_one_iff.1 hus
    have hrcs : rcs ≠ [] := by
      rintro rfl
      cases heq
    exact iff_of_false (fun h => by simpa [filterMap_contended hw] using h.1) fun h => h ⟨hrcs, hw⟩
  | refused waits hw hlt rc hrc hc =>
    obtain rfl := length_eq_zero_iff.1 hus
    have hnot := @not_all_contended waits rc hc
    exact iff_of_true ⟨by simp [filterMap_contended hw, hrc], fun h => absurd h hnot⟩ hnot

section Calls

variable {ok : (r : MlReq) → r.Ans → Bool} {vol : ServedVolume} {forkid offset size fp : Nat}
  {s : MlState} {log : MlLog}

/-- The loop of `ll_read` fails exactly when one of its answers is no success. -/
theorem llReadLoop_course (fuel : Nat) (data : Bytes) :
    Wp (record ok) (llReadLoop vol forkid offset size fuel data) s log fun r _ log' =>
      ∃ more, log' = log ++ more ∧ (∀ x ∈ more, x.1.isLock = false) ∧
        ((∃ e, r = .error e) ↔ ¬∀ x ∈ more, Succeeded x) := by
  induction fuel generalizing data log with
  | zero => exact wp_ret.2 ⟨[], by simp, nofun, by simp⟩
  | succ fuel ih =>
    refine .guard ⟨[], by simp, nofun, by simp⟩ fun _ => ?_
    rw [wp_afpRead]
    intro rc got _
    refine .ite (fun h => wp_ret.2 ⟨[_], rfl, by simp [isLock], ?_⟩) fun _ => ?_
    · simp [Succeeded, h]
    refine .ite (fun h => wp_ret.2 ⟨[_], rfl, by simp [isLock], ?_⟩) fun _ => ?_
    · simp [Succeeded, h]
    refine .ite (fun h => wp_ret.2 ⟨[_], rfl, by simp [isLock], ?_⟩) fun hend => ?_
    · simp [Succeeded, h]
    refine .ite (fun h => wp_ret.2 ⟨[_], rfl, by simp [isLock], ?_⟩) fun hrc => ?_
    · simp [Succeeded, h, hend]
    have hrc : rc = kFPNoErr := not_not.1 hrc
    refine .ite (fun h => wp_ret.2 ⟨[_], rfl, by simp [isLock], ?_⟩) fun _ => ?_
    · simp [Succeeded, hrc]
    refine (ih _).mono ?_
    rintro r _ _ ⟨more, rfl, hlock, hr⟩
    refine ⟨_ :: more, append_assoc .., forall_mem_cons.2 ⟨rfl, hlock⟩, ?_⟩
    rw [hr, forall_mem_cons]
    simp [Succeeded, hrc]

theorem llReadLocked_course (hv : vol.Locks) (hlog : ∀ x ∈ log, x.1.isLock = false ∧ Succeeded x) :
    Wp (record ok) (llReadLocked vol forkid offset size) s log fun r _ log' =>
      LockedCall forkid (vol.wireCount offset) (vol.wireCount size) log' (∃ e, r = .error e) := by
  refine wp_llHandleLocking fun r rcs hl _ => ?_
  rw [if_pos hv] at hl
  refine .ite (fun hr => wp_ret.2 ?_) fun hr => ?_
  · exact .refused hlog (hl.refused_of_ne hr) _
  obtain rfl : r = 0 := not_not.1 hr
  rw [wp_bind]
  refine (llReadLoop_course size []).mono ?_
  rintro x s₂ _ ⟨more, rfl, hmore, hx⟩
  cases x with
  | error e =>
    have hfail := hx.1 ⟨e, rfl⟩
    refine wp_llHandleUnlocking fun _ us hus _ => ?_
    rw [if_pos hv] at hus
    obtain ⟨rc, rfl, -⟩ := hus
    exact wp_ret.2 (.held hlog hl hmore (.failed hfail rc ⟨_, rfl⟩))
  | ok x =>
    have hdone : ∀ x ∈ more, Succeeded x := not_not.1 fun h => nomatch (hx.2 h).choose_spec
    refine wp_llHandleUnlocking fun u us hus _ => ?_
    rw [if_pos hv] at hus
    obtain ⟨rc, rfl, hu⟩ := hus
    refine .ite (fun hne => wp_llHandleUnlocking fun _ us' hus' _ => ?_) fun heq => ?_
    · rw [if_pos hv] at hus'
      obtain ⟨rc', rfl, -⟩ := hus'
      rw [append_assoc, ← lockLog_append]
      exact wp_ret.2 (.held hlog hl hmore (.refused hdone rc rc' (fun h => hne (hu.2 h)) ⟨_, rfl⟩))
    · rw [hu.1 (not_not.1 heq)]
      exact wp_ret.2 (.held hlog hl hmore (.done hdone (by simp)))

/-- A request that is neither a lock nor for data. -/
def MlReq.Beside (r : MlReq) : Prop :=
  match r with
  | .sys (.byteRangeLock ..) | .sys (.read ..) | .sys (.write ..) => False
  | _ => True

theorem beside {x : Exchange MlReq.Ans} (h : x.1.Beside) : x.1.isLock = false ∧ Succeeded x := by
  obtain ⟨c | r, a⟩ := x
  · exact ⟨rfl, trivial⟩
  · cases r <;> first | exact ⟨rfl, trivial⟩ | exact h.elim

theorem MlReq.beside_of_isFlush {r : MlReq} (h : r.isFlush = true) : r.Beside := by
  rcases r with c | r
  · trivial
  · cases r <;> trivial

theorem afp2ForkReaches_beside (f : FileInfo) (offset : Nat) :
    (afp2ForkReaches vol f offset).Within MlReq.Beside fun _ => True :=
  .ite (fun _ => ⟨trivial, fun _ => .ite (fun _ => trivial) fun _ => trivial⟩)
    fun _ => trivial

theorem llRead_course (hv : vol.Locks) (size : Nat) (offset : Int) :
    Wp (record ok) (llRead vol size offset fp) s [] fun r _ log =>
      ∃ o n, LockedCall (s.file fp).forkid o n log (∃ e, r = .error e) := by
  have hnone (failed : Prop) : ∃ o n, LockedCall (s.file fp).forkid o n [] failed :=
    ⟨0, 0, .none beside_nil failed⟩
  refine .guard (hnone _) fun _ => ?_
  refine .guard (hnone _) fun _ => ?_
  refine .guard (hnone _) fun _ => ?_
  refine wp_flushFirst fun s' more hmore => ?_
  have hpre : ∀ x ∈ [] ++ more, x.1.isLock = false ∧ Succeeded x :=
    fun x hx => beside (beside_of_isFlush (hmore x hx))
  have hread (n : Nat) : Wp (record ok) (llReadLocked vol (s.file fp).forkid offset.toNat n) s'
      ([] ++ more) fun r _ log => ∃ o n, LockedCall (s.file fp).forkid o n log (∃ e, r = .error e) :=
    (llReadLocked_course hv hpre).mono fun r _ log h => ⟨_, _, h⟩
  refine .guard ⟨0, 0, .none hpre _⟩ fun _ => ?_
  refine .ite (fun _ => ?_) fun _ => hread _
  refine .ite (fun _ => ?_) fun _ => hread _
  rw [wp_bind]
  refine ((afp2ForkReaches_beside _ _).keeps.record trivial _).mono ?_
  rintro x s₁ _ ⟨-, -, more', rfl, hmore'⟩
  have hlog : ∀ x ∈ [] ++ more ++ more', x.1.isLock = false ∧ Succeeded x :=
    fun x hx => (mem_append.1 hx).elim (hpre x) fun hx => beside (hmore' x hx)
  rcases x with _ | (_ | _) <;> exact wp_ret.2 ⟨0, 0, .none hlog _⟩

theorem llWrite_course (hv : vol.Locks) {data : Bytes} {offset : Int}
    (h : ¬Misplaced vol (s.file fp).forkid (uint64 offset) data.length) :
    Wp (record ok) (llWrite vol data offset fp) s [] fun r _ log =>
      LockedCall (s.file fp).forkid (vol.wireCount (uint64 offset)) (vol.wireCount data.length) log
        (r.1 ≠ 0) := by
  refine .guard (.none beside_nil _) fun hfork => ?_
  refine .guard (.none beside_nil _) fun hq => ?_
  refine .guard (.none beside_nil _) fun hbound => ?_
  have hholds : vol.Holds (uint64 offset) data.length := by
    by_cases hv : vol.avNumber < 30
    · exact holds_of_not_misplaced h hfork (Nat.pos_of_ne_zero hq) hv
        (Nat.not_lt.1 fun h => hbound ⟨hv, h⟩)
    · exact ServedVolume.holds_afp3 hv _ _
  refine wp_llHandleLocking fun r rcs hl _ => ?_
  rw [if_pos hv] at hl
  refine .ite (fun hr => wp_ret.2 (.refused beside_nil (hl.refused_of_ne hr) _)) fun hr => ?_
  obtain rfl : r = 0 := not_not.1 hr
  rw [wp_bind]
  refine (llWriteLoop_run hholds (Nat.le_add_right ..)).mono ?_
  rintro ⟨err, total⟩ s₂ _ ⟨ws, rfl, hrun, -⟩
  have hlocks : ∀ x ∈ ws.map WriteExchange.exchange, x.1.isLock = false := by
    intro x hx
    obtain ⟨w, -, rfl⟩ := mem_map.1 hx
    rfl
  have hdone : err = 0 ↔ ∀ x ∈ ws.map WriteExchange.exchange, Succeeded x := by
    rw [hrun.err_eq_zero_iff, forall_mem_map]
    rfl
  refine wp_llHandleUnlocking fun u us hus _ => ?_
  rw [if_pos hv] at hus
  obtain ⟨rc, rfl, hu⟩ := hus
  refine .ite (fun herr => wp_ret.2 ?_) fun herr => ?_
  · exact .held beside_nil hl hlocks
      (.failed (fun h => herr (hdone.2 h)) rc fun h => herr (Int.neg_eq_zero.1 h))
  have hdone := hdone.1 (not_not.1 herr)
  refine .ite (fun hne => wp_llHandleUnlocking fun _ us' hus' _ => ?_) fun heq => ?_
  · rw [if_pos hv] at hus'
    obtain ⟨rc', rfl, -⟩ := hus'
    rw [append_assoc, ← lockLog_append]
    exact wp_ret.2 (.held beside_nil hl hlocks
      (.refused hdone rc rc' (fun h => hne (hu.2 h)) (show -EIO_ ≠ 0 by decide)))
  · rw [hu.1 (not_not.1 heq)]
    exact wp_ret.2 (.held beside_nil hl hlocks (.done hdone (by simp)))

/-- The offset of a reply to AFP 2's write has 32 bits. -/
def MlReq.offset32 : (r : MlReq) → r.Ans → Bool
  | .sys (.write ..), a => decide (a.2 < 2 ^ 32)
  | _, _ => true

/-- No reply of 32 bits is within a write that AFP 2 misplaces. -/
theorem llWriteLoop_astray {data : Bytes} (hpos : 0 < data.length)
    (hlt : offset < 2 ^ 64) (hfar : 2 ^ 32 ≤ offset) :
    Wp (record MlReq.offset32) (llWriteLoop vol forkid offset fp data data.length 0) s log
      fun r _ log' => r.1 ≠ 0 ∧ ∃ x, x.1.isLock = false ∧ log' = log ++ [x] := by
  obtain ⟨n, hn⟩ := Nat.exists_eq_succ_of_ne_zero (Nat.ne_of_gt hpos)
  have hat : (offset + 0) % 2 ^ 64 = offset := Nat.mod_eq_of_lt hlt
  rw [hn, llWriteLoop]
  refine .ite (fun h => by omega) fun _ => wp_record_send.2 ?_
  rintro ⟨rc, reply⟩ hok
  have hreply : reply < 2 ^ 32 := of_decide_eq_true hok
  refine .ite (fun hrc => wp_ret.2 ⟨hrc, _, rfl, rfl⟩) fun _ => ?_
  refine .ite (fun _ => wp_ret.2 ⟨by decide, _, rfl, rfl⟩) fun hin => ?_
  rw [hat] at hin
  omega

theorem llWrite_misplaced_fair (hv : vol.Locks) {data : Bytes} {offset : Int}
    (h : Misplaced vol (s.file fp).forkid (uint64 offset) data.length) (hsize : data.length < 2 ^ 63) :
    Wp (record MlReq.offset32) (llWrite vol data offset fp) s [] fun r _ log =>
      Fair log (r.1 ≠ 0) ↔ ¬LeftContended log := by
  obtain ⟨-, hfork, hq, hpos, hbeyond, hle⟩ := h
  refine .ite (fun h => absurd h hfork) fun _ => .ite (fun h => absurd h hq.ne') fun _ => ?_
  refine .ite (fun h => absurd h.2 (Nat.not_lt.2 hle)) fun _ => ?_
  refine wp_llHandleLocking fun r rcs hl _ => ?_
  rw [if_pos hv] at hl
  refine .ite (fun hr => wp_ret.2 ?_) fun hr => ?_
  · have hsplit : ∀ locks : MlLog, [] ++ locks = locks ++ [] ++ lockLog true (s.file fp).forkid
        (vol.wireCount (uint64 offset)) (vol.wireCount data.length) [] := by simp [lockLog]
    rw [hsplit]
    exact fair_iff_of_failed hl (fun _ h => absurd h not_mem_nil) (if_neg hr).symm
  obtain rfl : r = 0 := not_not.1 hr
  rw [wp_bind]
  refine (llWriteLoop_astray hpos (uint64_lt offset) (by omega)).mono ?_
  rintro ⟨err, total⟩ s₂ _ ⟨herr, x, hx, rfl⟩
  refine wp_llHandleUnlocking fun u us hus _ => ?_
  rw [if_pos hv] at hus
  obtain ⟨rc, rfl, -⟩ := hus
  refine .ite (fun _ => wp_ret.2 ?_) fun h => absurd herr h
  exact fair_iff_of_failed hl (forall_mem_singleton.2 hx) rfl

end Calls

/-- In every run of `ll_read` or `ll_write` on a volume with locks, exactly the lock that was
acknowledged is released, once, and contention alone fails no call, if and only if the lock was
not left contended and no unlock after a transfer that succeeded was refused. A write that AFP 2
misplaces never succeeds, whatever its reply of 32 bits. -/
theorem locks_fair_iff (vol : ServedVolume) (hv : vol.Locks) (s : MlState) (fp : Nat) :
    (∀ (size : Nat) (offset : Int), Wp (record MlReq.anyAnswer) (llRead vol size offset fp) s []
      fun r _ log => Fair log (∃ e, r = .error e) ↔ Undisturbed log) ∧
    ∀ (data : Bytes) (offset : Int),
      (¬Misplaced vol (s.file fp).forkid (uint64 offset) data.length →
        Wp (record MlReq.anyAnswer) (llWrite vol data offset fp) s []
          fun r _ log => Fair log (r.1 ≠ 0) ↔ Undisturbed log) ∧
      (Misplaced vol (s.file fp).forkid (uint64 offset) data.length → data.length < 2 ^ 63 →
        Wp (record MlReq.offset32) (llWrite vol data offset fp) s []
          fun r _ log => Fair log (r.1 ≠ 0) ↔ ¬LeftContended log) := by
  refine ⟨fun size offset => ?_, fun data offset => ⟨fun h => ?_, fun h hsize => ?_⟩⟩
  · exact (llRead_course hv size offset).mono fun r _ log ⟨o, n, h⟩ => h.fair_iff
  · exact (llWrite_course hv h).mono fun r _ log h => h.fair_iff
  · exact llWrite_misplaced_fair hv h hsize

/-- A lock that is granted, and a read at the end of the fork. -/
theorem locks_fair_granted :
    plainServed.Locks ∧ Wp (record MlReq.anyAnswer) (llRead plainServed 4 0 0) .fork5 [] fun r _ log =>
      Fair log (∃ e, r = .error e) ↔ Undisturbed log :=
  ⟨rfl, (locks_fair_iff plainServed rfl .fork5 0).1 4 0⟩

/-- The lock is contended, and the read succeeds. -/
def contendedAnswer : (r : MlReq) → r.Ans
  | .sys (.byteRangeLock unlock ..) => if unlock then kFPRangeNotLocked else kFPLockErr
  | .sys (.read ..) => (kFPNoErr, [1, 2, 3, 4])
  | _ => default

/-- A lock that stays contended for ten tries: the read succeeds, but the unlock of the lock
it does not hold is sent twice, and refused, and the call fails. -/
theorem contended_unlocked :
    ∃ answers s log, run (record MlReq.anyAnswer) (llRead plainServed 4 0 0) .fork5 [] answers =
        some (.error (-EIO_), s, log, []) ∧
      lockAcks log = [] ∧ unlocks log = [(5, 0, 4), (5, 0, 4)] ∧ LeftContended log := by
  refine ⟨List.replicate 13 contendedAnswer, _, _, rfl, ?_⟩
  exact ⟨rfl, rfl, by decide, by decide⟩

end NC
