import NetatalkClient.Proof.Midlevel.Locking

/-!
# Writing a fork

`ll_write` over every answer of a server. `WriteRun` is what the loop may exchange: each
request carries the bytes that follow those stored, a reply's offset says how many of them
were (`WriteExchange.stored`), and any other answer is the last. `llWrite_log` says that a
call's writes are such a run, between the lock and the unlock; the properties of a call
are those of a run.

AFP 2 has 32 bits for an offset. `ll_write` refuses a write beyond what they hold, but its sum of
the offset and the size is one of 64 bits, which a negative offset brings back to 0: such a write
goes to another place (`Misplaced`), and no other does (`llWrite_correct_iff`).
-/

namespace NC

open List Prog

/-- A write with its answer: the result, and the offset that the reply carries. -/
structure WriteExchange where
  forkid : Nat
  offset : Nat
  data : Bytes
  rc : Int
  reply : Nat
  deriving DecidableEq, Repr

namespace WriteExchange

/-- The reply's offset is within the request's range. -/
def Inside (w : WriteExchange) : Prop :=
  w.offset < w.reply ∧ w.reply ≤ w.offset + w.data.length

instance (w : WriteExchange) : Decidable w.Inside := inferInstanceAs (Decidable (_ ∧ _))

/-- The bytes that the answer says were stored: those up to the reply's offset. -/
def stored (w : WriteExchange) : Bytes :=
  if w.rc = kFPNoErr ∧ w.Inside then w.data.take (w.reply - w.offset) else []

def exchange (w : WriteExchange) : Exchange MlReq.Ans :=
  ⟨.sys (.write w.forkid w.offset w.data), (w.rc, w.reply)⟩

end WriteExchange

def writeOf : Exchange MlReq.Ans → Option WriteExchange
  | ⟨.sys (.write forkid offset data), a⟩ => some ⟨forkid, offset, data, a.1, a.2⟩
  | _ => none

/-- The writes of a log. -/
def writes (log : MlLog) : List WriteExchange := log.filterMap writeOf

@[simp] theorem writeOf_exchange (w : WriteExchange) : writeOf w.exchange = some w := rfl

theorem writes_append (log more : MlLog) : writes (log ++ more) = writes log ++ writes more :=
  filterMap_append ..

theorem writes_map_exchange (ws : List WriteExchange) :
    writes (ws.map WriteExchange.exchange) = ws := by
  rw [writes, filterMap_map]
  simp [Function.comp_def]

theorem writes_lockLog (unlock : Bool) (forkid offset size : Nat) (rcs : List Int) :
    writes (lockLog unlock forkid offset size rcs) = [] := by
  rw [writes, lockLog, filterMap_map, filterMap_eq_nil_iff]
  exact fun _ _ => rfl

/-! ## The loop -/

/-- What the loop of `ll_write` exchanges from `total` bytes on, the errno it ends with and
the bytes written. The byte `total` of the data belongs at `place total`. -/
inductive WriteRun (forkid : Nat) (place : Nat → Nat) (quantum : Nat) (data : Bytes) :
    Nat → List WriteExchange → Int → Nat → Prop
  | done {total : Nat} (h : data.length ≤ total) : WriteRun forkid place quantum data total [] 0 total
  /-- The request is refused, or its reply's offset is not within it. -/
  | failed {total : Nat} (h : total < data.length) (rc : Int) (reply : Nat) (err : Int)
      (herr : err = writeErrno rc ∧ rc ≠ kFPNoErr ∨ err = EIO_ ∧ rc = kFPNoErr ∧
        ¬WriteExchange.Inside ⟨forkid, place total, (data.drop total).take quantum, rc, reply⟩) :
      WriteRun forkid place quantum data total
        [⟨forkid, place total, (data.drop total).take quantum, rc, reply⟩] err total
  | stored {total : Nat} (h : total < data.length) (reply : Nat)
      (hin : WriteExchange.Inside
        ⟨forkid, place total, (data.drop total).take quantum, kFPNoErr, reply⟩)
      {ws : List WriteExchange} {err : Int} {total' : Nat}
      (hrest : WriteRun forkid place quantum data (total + (reply - place total)) ws err total') :
      WriteRun forkid place quantum data total
        (⟨forkid, place total, (data.drop total).take quantum, kFPNoErr, reply⟩ :: ws) err total'

variable {rc : Int}

theorem writeErrno_eq_zero : writeErrno rc = 0 ↔ rc = kFPNoErr := by
  unfold writeErrno
  split_ifs with h <;> simp_all only [iff_false] <;> decide

section Run

variable {forkid offset quantum total total' : Nat} {place : Nat → Nat} {data : Bytes}
  {ws : List WriteExchange} {err : Int}

theorem WriteExchange.inside_slice {reply : Nat} :
    Inside ⟨forkid, place total, (data.drop total).take quantum, rc, reply⟩ ↔
      place total < reply ∧ reply - place total ≤ min quantum (data.length - total) := by
  simp only [Inside, length_take, length_drop]
  omega

theorem WriteExchange.stored_slice {reply : Nat}
    (hin : Inside ⟨forkid, place total, (data.drop total).take quantum, kFPNoErr, reply⟩) :
    stored ⟨forkid, place total, (data.drop total).take quantum, kFPNoErr, reply⟩ =
      (data.drop total).take (reply - place total) := by
  have hb := inside_slice.1 hin
  rw [stored, if_pos ⟨rfl, hin⟩]
  show ((data.drop total).take quantum).take (reply - place total) = _
  rw [take_take, Nat.min_eq_left (by omega)]

section

variable (h : WriteRun forkid place quantum data total ws err total')

include h

theorem WriteRun.length_le : ws.length ≤ data.length - total := by
  induction h with
  | done h => simp
  | failed h => simp; omega
  | stored h reply hin hrest ih =>
    have hb := WriteExchange.inside_slice.1 hin
    rw [length_cons]
    omega

/-- The bytes that were stored are the data's, from `total` on. -/
theorem WriteRun.flatMap_stored :
    total ≤ total' ∧ ws.flatMap (·.stored) = (data.drop total).take (total' - total) := by
  induction h with
  | done h => simp
  | failed h rc reply err herr =>
    have hnone : ¬(rc = kFPNoErr ∧ WriteExchange.Inside
        ⟨forkid, place _, (data.drop _).take quantum, rc, reply⟩) :=
      fun hs => herr.elim (fun h => h.2 hs.1) fun h => h.2.2 hs.2
    simp [WriteExchange.stored, hnone]
  | @stored total h reply hin ws err total' hrest ih =>
    obtain ⟨hle, hws⟩ := ih
    have hb := WriteExchange.inside_slice.1 hin
    have hsum : reply - place total + (total' - (total + (reply - place total))) = total' - total := by
      omega
    refine ⟨by omega, ?_⟩
    rw [flatMap_cons, hws, WriteExchange.stored_slice hin, ← hsum, take_add, drop_drop]

theorem WriteRun.total_le (hle : total ≤ data.length) : total' ≤ data.length := by
  induction h with
  | done | failed => exact hle
  | stored h reply hin hrest ih =>
    have hb := WriteExchange.inside_slice.1 hin
    exact ih (by omega)

/-- The call succeeds only with all of the data. -/
theorem WriteRun.total_of_zero
    (hle : total ≤ data.length) (herr : err = 0) : total' = data.length := by
  induction h with
  | done h => omega
  | failed h rc reply err hfail =>
    subst herr
    rcases hfail with ⟨h0, hrc⟩ | ⟨h0, -⟩
    · exact absurd (writeErrno_eq_zero.1 h0.symm) hrc
    · exact absurd h0 (by decide)
  | stored h reply hin hrest ih =>
    have hb := WriteExchange.inside_slice.1 hin
    exact ih (by omega) herr

/-- A success whose offset is not within its request ends the call with `EIO`. -/
theorem WriteRun.astray
    {w : WriteExchange} (hw : w ∈ ws) (hrc : w.rc = kFPNoErr) (hin : ¬w.Inside) : err = EIO_ := by
  induction h with
  | done h => cases hw
  | failed h rc reply err hfail =>
    obtain rfl := mem_singleton.1 hw
    exact hfail.elim (fun h => absurd hrc h.2) fun h => h.1
  | stored h reply hin' hrest ih =>
    rcases mem_cons.1 hw with rfl | hw
    · exact absurd hin' hin
    · exact ih hw

/-- A run fails exactly when one of its answers is no success within the request. -/
theorem WriteRun.err_eq_zero_iff : err = 0 ↔ ∀ w ∈ ws, w.rc = kFPNoErr ∧ w.Inside := by
  induction h with
  | done h => simp
  | failed h rc reply err herr =>
    rw [forall_mem_singleton]
    rcases herr with ⟨rfl, hrc⟩ | ⟨rfl, hrc, hin⟩
    · exact iff_of_false (fun h => hrc (writeErrno_eq_zero.1 h)) fun h => hrc h.1
    · exact iff_of_false (by decide) fun h => hin h.2
  | stored h reply hin hrest ih => rw [ih, forall_mem_cons, and_iff_right ⟨rfl, hin⟩]

end

/-- The requests of the list follow one another: each carries the data's bytes from where
the answers before it ended, at most a quantum of them, and each but the last was stored in
part. -/
def Contiguous (forkid offset quantum : Nat) (data : Bytes) : Nat → List WriteExchange → Prop
  | _, [] => True
  | total, w :: ws =>
    w.forkid = forkid ∧ w.offset = offset + total ∧ w.data = (data.drop total).take quantum ∧
      w.data ≠ [] ∧ (ws ≠ [] → w.stored ≠ []) ∧
      Contiguous forkid offset quantum data (total + w.stored.length) ws

/-- The place of the data's bytes in 64 bits, from an offset on. -/
def place64 (offset total : Nat) : Nat := (offset + total) % 2 ^ 64

/-- Replies of 64 bits keep the writes from wrapping round. -/
theorem WriteRun.contiguous (hq : 0 < quantum)
    (h : WriteRun forkid (place64 offset) quantum data total ws err total')
    (hlt : offset + total < 2 ^ 64) (hfit : ∀ w ∈ ws, w.reply < 2 ^ 64) :
    Contiguous forkid offset quantum data total ws := by
  have hne {total : Nat} (h : total < data.length) : (data.drop total).take quantum ≠ [] :=
    ne_nil_of_length_pos (by rw [length_take, length_drop]; omega)
  induction h with
  | done h => trivial
  | failed h rc reply err herr =>
    exact ⟨rfl, Nat.mod_eq_of_lt hlt, rfl, hne h, fun h => absurd rfl h, trivial⟩
  | @stored total h reply hin ws err total' hrest ih =>
    have hplace : place64 offset total = offset + total := Nat.mod_eq_of_lt hlt
    have hb := WriteExchange.inside_slice.1 hin
    obtain ⟨hreply, hfit⟩ := forall_mem_cons.1 hfit
    simp only at hreply
    have hlen : (WriteExchange.stored
        ⟨forkid, place64 offset total, (data.drop total).take quantum, kFPNoErr, reply⟩).length =
          reply - place64 offset total := by
      rw [WriteExchange.stored_slice hin, length_take, length_drop]
      omega
    refine ⟨rfl, hplace, rfl, hne h, fun _ => ne_nil_of_length_pos (by omega), ?_⟩
    rw [hlen]
    exact ih (by omega) hfit

end Run

section Record

variable {ok : (r : MlReq) → r.Ans → Bool} {vol : ServedVolume} {forkid offset fp : Nat}
  {data : Bytes} {s : MlState} {log : MlLog}

/-- The requests have room for the places of the data's bytes. -/
def ServedVolume.Holds (vol : ServedVolume) (offset size : Nat) : Prop :=
  ∀ total < size, vol.wireCount (place64 offset total) = place64 offset total

theorem ServedVolume.holds_afp3 {vol : ServedVolume} (h : ¬vol.avNumber < 30) (offset size : Nat) :
    vol.Holds offset size := fun _ _ => if_neg h

theorem ServedVolume.holds_below {vol : ServedVolume} {size : Nat} (h : offset + size < 2 ^ 32) :
    vol.Holds offset size := by
  intro total ht
  have hplace : place64 offset total = offset + total := Nat.mod_eq_of_lt (by omega)
  rw [hplace, wireCount]
  split
  · exact Nat.mod_eq_of_lt (by omega)
  · rfl

/-- The loop's exchanges are a run, and the fork is dirty if anything was stored. -/
theorem llWriteLoop_run (hplace : vol.Holds offset data.length) {fuel total : Nat}
    (hfuel : data.length ≤ fuel + total) :
    Wp (record ok) (llWriteLoop vol forkid offset fp data fuel total) s log fun r s' log' =>
      ∃ ws, log' = log ++ ws.map WriteExchange.exchange ∧
        WriteRun forkid (place64 offset) vol.quantum data total ws r.1 r.2 ∧
        (∀ w ∈ ws, ok (.sys (.write w.forkid w.offset w.data)) (w.rc, w.reply) = true) ∧
        (total < r.2 ∨ (s.file fp).dirty = true → (s'.file fp).dirty = true) := by
  induction fuel generalizing total s log with
  | zero => exact wp_ret.2 ⟨[], by simp, .done (by omega), nofun, fun h => by simpa using h⟩
  | succ fuel ih =>
    refine .ite (fun h => wp_ret.2 ⟨[], by simp, .done h, nofun, fun h => by simpa using h⟩) fun h => ?_
    have hslice : (data.drop total).take (min vol.quantum (data.length - total)) =
        (data.drop total).take vol.quantum := by
      rw [take_eq_take_iff, length_drop]
      omega
    have hat : vol.wireCount ((offset + total) % 2 ^ 64) = place64 offset total :=
      hplace total (by omega)
    dsimp only
    rw [hslice, hat, ← place64]
    show Wp (record ok) (send _ _) s log _
    rw [wp_record_send]
    rintro ⟨rc, reply⟩ hok
    have hone : ∀ w ∈ [WriteExchange.mk forkid (place64 offset total) ((data.drop total).take vol.quantum)
        rc reply], ok (.sys (.write w.forkid w.offset w.data)) (w.rc, w.reply) = true := by
      simpa using hok
    refine .ite (fun hrc => ?_) fun hrc => ?_
    · refine wp_ret.2 ⟨[_], rfl, .failed (by omega) rc reply _ (.inl ⟨rfl, ?_⟩), hone,
        fun h => by simpa using h⟩
      exact fun h => hrc (writeErrno_eq_zero.2 h)
    obtain rfl : rc = kFPNoErr := writeErrno_eq_zero.1 (not_not.1 hrc)
    refine .ite (fun hout => ?_) fun hin => ?_
    · refine wp_ret.2 ⟨[_], rfl, .failed (by omega) _ reply _ (.inr ⟨rfl, rfl, ?_⟩), hone,
        fun h => by simpa using h⟩
      rw [WriteExchange.inside_slice]
      omega
    · refine (ih (by omega)).mono ?_
      rintro r s' _ ⟨ws, rfl, hrun, hoks, hdirty⟩
      refine ⟨_ :: ws, by simp [WriteExchange.exchange], .stored (by omega) reply ?_ hrun,
        forall_mem_cons.2 ⟨hok, hoks⟩, ?_⟩
      · rw [WriteExchange.inside_slice]
        omega
      · exact fun _ => hdirty (.inr (by simp))

/-- The writes of a call are a run, between the lock and the unlock. -/
theorem llWrite_log {offset : Int} (hplace : (s.file fp).forkid ≠ 0 → 0 < vol.quantum →
      vol.avNumber < 30 → (uint64 offset + data.length) % 2 ^ 64 ≤ maxAfp2Filesize →
      vol.Holds (uint64 offset) data.length) :
    Wp (record ok) (llWrite vol data offset fp) s [] fun r s' log =>
      (writes log = [] ∧ r.1 < 0 ∧ r.2 = 0) ∨
        0 < vol.quantum ∧ ∃ err,
          WriteRun (s.file fp).forkid (place64 (uint64 offset)) vol.quantum data 0 (writes log) err r.2 ∧
          (∀ w ∈ writes log, ok (.sys (.write w.forkid w.offset w.data)) (w.rc, w.reply) = true) ∧
          (r.1 = 0 → err = 0) ∧ (err = EIO_ → r.1 = -EIO_) ∧
          (0 < r.2 → (s'.file fp).dirty = true) := by
  refine .guard (.inl ⟨rfl, by decide, rfl⟩) fun hfork => ?_
  refine .guard (.inl ⟨rfl, by decide, rfl⟩) fun hq => ?_
  have hq : 0 < vol.quantum := Nat.pos_of_ne_zero hq
  refine .guard (.inl ⟨rfl, by decide, rfl⟩) fun hbound => ?_
  have hholds : vol.Holds (uint64 offset) data.length := by
    by_cases hv : vol.avNumber < 30
    · exact hplace hfork hq hv (Nat.not_lt.1 fun h => hbound ⟨hv, h⟩)
    · exact ServedVolume.holds_afp3 hv _ _
  refine wp_llHandleLocking fun r rcs _ _ => ?_
  refine .guard (.inl ⟨writes_lockLog .., by decide, rfl⟩) fun _ => ?_
  rw [wp_bind]
  refine (llWriteLoop_run hholds (Nat.le_add_right ..)).mono ?_
  rintro ⟨err, total⟩ s' _ ⟨ws, rfl, hrun, hoks, hdirty⟩
  refine wp_llHandleUnlocking fun unlocked rcs' _ _ => ?_
  generalize hlocks : lockLog false (s.file fp).forkid (vol.wireCount (uint64 offset))
    (vol.wireCount data.length) rcs = locks
  generalize hunlocks : lockLog true (s.file fp).forkid (vol.wireCount (uint64 offset))
    (vol.wireCount data.length) rcs' = unlocks
  have hwrites : writes ([] ++ locks ++ ws.map WriteExchange.exchange ++ unlocks) = ws := by
    rw [← hlocks, ← hunlocks]
    simp only [writes_append, writes_lockLog, writes_map_exchange]
    simp [writes]
  refine .ite (fun herr => ?_) fun herr => ?_
  · refine wp_ret.2 (.inr ⟨hq, err, by rwa [hwrites], by rwa [hwrites], fun h => ?_, fun h => by rw [h],
      fun h => hdirty (.inl h)⟩)
    exact absurd (Int.neg_eq_zero.1 h) herr
  obtain rfl : err = 0 := not_not.1 herr
  refine .ite (fun _ => wp_llHandleUnlocking fun _ rcs'' _ _ => ?_) fun _ => ?_
  · refine wp_ret.2 (.inr ⟨hq, 0, ?_⟩)
    rw [writes_append, hwrites, writes_lockLog, append_nil]
    exact ⟨hrun, hoks, fun _ => rfl, fun _ => rfl, fun h => hdirty (.inl h)⟩
  · exact wp_ret.2 (.inr ⟨hq, 0, by rwa [hwrites], by rwa [hwrites], fun _ => rfl,
      fun h => absurd h (by decide), fun h => hdirty (.inl h)⟩)

end Record

/-! ## Every call -/

/-- The offset of a write's reply has 64 bits. -/
def MlReq.offsetFits : (r : MlReq) → r.Ans → Bool
  | .sys (.write ..), a => decide (a.2 < 2 ^ 64)
  | _, _ => true

/-- What a call of `ll_write` does: it sends no more writes than there are bytes, each carries the
bytes after those stored to the place after theirs, the count returned is that of the bytes stored,
which are the first of the data, a success means all of them, an offset that is not within its request
ends the call with `-EIO`, and a fork that stored a byte is dirty. -/
def WritesInPlace (forkid offset quantum fp : Nat) (data : Bytes) (r : Int × Nat) (s' : MlState)
    (log : MlLog) : Prop :=
  (writes log).length ≤ data.length ∧ Contiguous forkid offset quantum data 0 (writes log) ∧
  (writes log).flatMap (·.stored) = data.take r.2 ∧ r.2 ≤ data.length ∧ (r.1 = 0 → r.2 = data.length) ∧
  (∀ w ∈ writes log, w.rc = kFPNoErr → ¬w.Inside → r.1 = -EIO_) ∧
  (0 < r.2 → (s'.file fp).dirty = true)

/-- A write of AFP 2 that is sent though its end is beyond 2 ^ 64, as its offset is negative. -/
def Misplaced (vol : ServedVolume) (forkid offset size : Nat) : Prop :=
  vol.avNumber < 30 ∧ forkid ≠ 0 ∧ 0 < vol.quantum ∧ 0 < size ∧ 2 ^ 64 ≤ offset + size ∧
    (offset + size) % 2 ^ 64 ≤ maxAfp2Filesize

instance (vol : ServedVolume) (forkid offset size : Nat) :
    Decidable (Misplaced vol forkid offset size) := inferInstanceAs (Decidable (_ ∧ _))

theorem uint64_lt (offset : Int) : uint64 offset < 2 ^ 64 := by
  unfold uint64
  omega

section Calls

variable {vol : ServedVolume} {data : Bytes} {offset : Int} {fp : Nat} {s : MlState}

/-- AFP 2's requests have room for a write that its limit lets pass and that is not misplaced. -/
theorem holds_of_not_misplaced {forkid : Nat} (h : ¬Misplaced vol forkid (uint64 offset) data.length)
    (hfork : forkid ≠ 0) (hq : 0 < vol.quantum) (hv : vol.avNumber < 30)
    (hle : (uint64 offset + data.length) % 2 ^ 64 ≤ maxAfp2Filesize) :
    vol.Holds (uint64 offset) data.length := by
  rcases Nat.eq_zero_or_pos data.length with hnil | hpos
  · intro total ht
    omega
  have hsum : uint64 offset + data.length < 2 ^ 64 :=
    Nat.not_le.1 fun hge => h ⟨hv, hfork, hq, hpos, hge, hle⟩
  rw [Nat.mod_eq_of_lt hsum] at hle
  exact ServedVolume.holds_below (Nat.lt_of_le_of_lt hle (by decide))

theorem llWrite_inPlace (h : ¬Misplaced vol (s.file fp).forkid (uint64 offset) data.length) :
    Wp (record MlReq.offsetFits) (llWrite vol data offset fp) s []
      (WritesInPlace (s.file fp).forkid (uint64 offset) vol.quantum fp data) := by
  have hlt := uint64_lt offset
  refine (llWrite_log (holds_of_not_misplaced h)).mono ?_
  rintro r s' log (⟨hnone, hneg, htotal⟩ | ⟨hq, err, hrun, hoks, hzero, heio, hdirty⟩)
  · unfold WritesInPlace
    rw [hnone, htotal]
    exact ⟨by simp, trivial, rfl, by simp, fun h => absurd h (by omega), by simp, by simp⟩
  · have hfit : ∀ w ∈ writes log, w.reply < 2 ^ 64 := fun w hw => of_decide_eq_true (hoks w hw)
    exact ⟨hrun.length_le, hrun.contiguous hq (by omega) hfit, hrun.flatMap_stored.2,
      hrun.total_le (Nat.zero_le _), fun h => hrun.total_of_zero (Nat.zero_le _) (hzero h),
      fun w hw hrc hin => heio (hrun.astray hw hrc hin), hdirty⟩

section Sent

variable {Q : Int × Nat → MlState → MlLog → Prop} {k : Int → MlCall (Int × Nat)} {log : MlLog}
  {forkid o size : Nat}

/-- A lock that is granted at once is among the answers. -/
theorem wp_locking_granted
    (h : Wp (record MlReq.offsetFits) (llHandleLocking vol forkid o size >>= k) s log Q) :
    ∃ rcs, Wp (record MlReq.offsetFits) (k 0) s
      (log ++ lockLog false forkid (vol.wireCount o) (vol.wireCount size) rcs) Q := by
  rw [wp_bind, llHandleLocking] at h
  split at h
  · exact ⟨[], by simpa [lockLog] using h⟩
  · rw [lockTries, wp_byteRangeLock] at h
    have hgranted := h kFPNoErr rfl
    rw [if_pos rfl, pure_eq, wp_ret] at hgranted
    exact ⟨[kFPNoErr], hgranted⟩

theorem wp_unlocking_granted
    (h : Wp (record MlReq.offsetFits) (llHandleUnlocking vol forkid o size >>= k) s log Q) :
    ∃ rcs, Wp (record MlReq.offsetFits) (k 0) s
      (log ++ lockLog true forkid (vol.wireCount o) (vol.wireCount size) rcs) Q := by
  rw [wp_bind, llHandleUnlocking] at h
  split at h
  · exact ⟨[], by simpa [lockLog] using h⟩
  · rw [wp_byteRangeLock] at h
    have hgranted := h kFPNoErr rfl
    rw [if_pos rfl, pure_eq, wp_ret] at hgranted
    exact ⟨[kFPNoErr], hgranted⟩

/-- A misplaced write is sent, to what 32 bits leave of its place. -/
theorem misplaced_sent (h : Misplaced vol (s.file fp).forkid (uint64 offset) data.length)
    (hwp : Wp (record MlReq.offsetFits) (llWrite vol data offset fp) s [] Q) :
    ∃ r s' log w, Q r s' log ∧ writes log = [w] ∧ w.offset = uint64 offset % 2 ^ 32 := by
  obtain ⟨hv, hfork, hq, hpos, -, hle⟩ := h
  have hbound : ¬(vol.avNumber < 30 ∧ maxAfp2Filesize < (uint64 offset + data.length) % 2 ^ 64) :=
    fun h => Nat.not_lt.2 hle h.2
  have hat : vol.wireCount ((uint64 offset + 0) % 2 ^ 64) = uint64 offset % 2 ^ 32 := by
    rw [ServedVolume.wireCount, if_pos hv, Nat.add_zero, Nat.mod_eq_of_lt (uint64_lt offset)]
  obtain ⟨n, hn⟩ := Nat.exists_eq_succ_of_ne_zero (Nat.ne_of_gt hpos)
  rw [llWrite, wp_bind, Ml.getFile, wp_modifyGet, if_neg hfork, if_neg hq.ne'] at hwp
  simp only [if_neg hbound] at hwp
  obtain ⟨rcs, hwp⟩ := wp_locking_granted hwp
  rw [if_neg (by decide), wp_bind, hn, llWriteLoop, if_neg (by omega)] at hwp
  -- The write is refused, so the loop ends with it.
  have hsent := wp_record_send.1 hwp (kFPMiscErr, 0) rfl
  replace hsent := wp_ret.1 (show Wp (record MlReq.offsetFits) (ret (EIO_, 0)) _ _ _ from hsent)
  obtain ⟨rcs', hend⟩ := wp_unlocking_granted hsent
  rw [if_pos (by decide), pure_eq, wp_ret] at hend
  refine ⟨_, _, _, ⟨(s.file fp).forkid, vol.wireCount ((uint64 offset + 0) % 2 ^ 64),
    (data.drop 0).take (min vol.quantum (data.length - 0)), kFPMiscErr, 0⟩, hend, ?_, hat⟩
  simp only [writes_append, writes_lockLog]
  rfl

end Sent

/-- A call of `ll_write` does what it should, whatever the answers, exactly when the write is not
misplaced. No object in memory has 2 ^ 63 bytes. -/
theorem llWrite_correct_iff (vol : ServedVolume) {data : Bytes} (hsize : data.length < 2 ^ 63)
    (offset : Int) (fp : Nat) (s : MlState) :
    Wp (record MlReq.offsetFits) (llWrite vol data offset fp) s []
      (WritesInPlace (s.file fp).forkid (uint64 offset) vol.quantum fp data) ↔
    ¬Misplaced vol (s.file fp).forkid (uint64 offset) data.length := by
  refine ⟨fun hwp hmis => ?_, llWrite_inPlace⟩
  obtain ⟨r, s', log, w, ⟨-, hcontiguous, -⟩, hw, hat⟩ := misplaced_sent hmis hwp
  rw [hw] at hcontiguous
  have hplace := hcontiguous.2.1
  have hbeyond := hmis.2.2.2.2.1
  omega

/-- A server of AFP 2.2 with a quantum of six bytes. -/
def afp22 : ServedVolume := { plainServed with avNumber := 22, quantum := 6 }

/-- A write of ten bytes at 5. -/
theorem llWrite_correct_at_5 :
    Wp (record MlReq.offsetFits) (llWrite afp22 (List.replicate 10 1) 5 0) .fork5 []
      (WritesInPlace 5 5 6 0 (List.replicate 10 1)) :=
  (llWrite_correct_iff afp22 (show (List.replicate 10 (1 : UInt8)).length < 2 ^ 63 by decide) 5 0
    .fork5).2 (by decide)

/-- The server stores four of the six bytes that it gets. -/
def storedInPart : (r : MlReq) → r.Ans
  | .sys (.write ..) => (kFPNoErr, 4294967295)
  | _ => default

/-- Ten bytes at the offset -5 are not refused, as AFP 2's limit sees the sum 5, and go to 4294967291;
the call fails, and does not count what the server has stored. -/
theorem negative_offset_sent :
    ∃ s' log, run (record MlReq.offsetFits) (llWrite afp22 (List.replicate 10 1) (-5) 0) .fork5 []
        (List.replicate 3 storedInPart) = some ((-EIO_, 0), s', log, []) ∧
      writes log = [⟨5, 4294967291, List.replicate 6 1, kFPNoErr, 4294967295⟩] ∧
      ¬WritesInPlace 5 (uint64 (-5)) 6 0 (List.replicate 10 1) (-EIO_, 0) s' log := by
  refine ⟨_, _, rfl, rfl, fun h => ?_⟩
  have hplace := h.2.1.2.1
  exact absurd hplace (by decide)

end Calls

end NC
