import NetatalkClient.Proof.Midlevel.Locking

/-!
# Reading a fork

`ll_read` over every way a server may cut its replies. `servesFork` is a server that
answers a read with some of the bytes asked for, or with all that are left and the fork's
end. What has been read is always the fork's bytes from the offset on (`llReadLoop_reads`),
and lies in the caller's buffer at its place (`readBuffer`). Whatever the server answers, a
read that returns fewer bytes than asked met the end or a success without bytes
(`llReadLoop_any`).
-/

namespace NC

open List Prog

/-! ## What was read -/

def MlReq.isRead : MlReq → Bool
  | .sys (.read ..) => true
  | _ => false

/-- The result of a read. -/
def readRc : Exchange MlReq.Ans → Option Int
  | ⟨.sys (.read ..), a⟩ => some a.1
  | _ => none

/-- A success without bytes. -/
def readNothing : Exchange MlReq.Ans → Bool
  | ⟨.sys (.read _ _ count), a⟩ => a.1 == kFPNoErr && a.2.take count == []
  | _ => false

/-- The end of the fork was answered. -/
def endAnswered (log : MlLog) : Bool := log.any (readRc · == some kFPEOFErr)

/-- A reply's bytes go to the caller's buffer, which holds the fork from `offset` on, and
no more of them than were asked for. -/
def readInto (offset : Nat) (buf : Bytes) : Exchange MlReq.Ans → Bytes
  | ⟨.sys (.read _ o count), a⟩ => overwrite buf (o - offset) (a.2.take count)
  | _ => buf

/-- The caller's buffer after what was exchanged. -/
def readBuffer (offset : Nat) (buf : Bytes) (log : MlLog) : Bytes := log.foldl (readInto offset) buf

theorem readRc_of_not_read {x : Exchange MlReq.Ans} (h : x.1.isRead = false) : readRc x = none := by
  obtain ⟨r, a⟩ := x
  cases r with
  | did c => rfl
  | sys r => cases r <;> first | rfl | cases h

theorem readInto_of_not_read {x : Exchange MlReq.Ans} (h : x.1.isRead = false) (offset : Nat)
    (buf : Bytes) : readInto offset buf x = buf := by
  obtain ⟨r, a⟩ := x
  cases r with
  | did c => rfl
  | sys r => cases r <;> first | rfl | cases h

theorem endAnswered_append (log more : MlLog) :
    endAnswered (log ++ more) = (endAnswered log || endAnswered more) := any_append ..

variable {more : MlLog} {unlock : Bool} {rcs : List Int} {α : Type} {data : Bytes} {fuel fp : Nat}

theorem endAnswered_of_not_read (h : ∀ x ∈ more, x.1.isRead = false) :
    endAnswered more = false := by
  rw [endAnswered, any_eq_false]
  intro x hx
  simp [readRc_of_not_read (h x hx)]

theorem readBuffer_of_not_read (h : ∀ x ∈ more, x.1.isRead = false) (offset : Nat) (buf : Bytes) :
    readBuffer offset buf more = buf := by
  induction more generalizing buf with
  | nil => rfl
  | cons x more ih =>
    rw [readBuffer, foldl_cons, readInto_of_not_read (h x (mem_cons_self ..))]
    exact ih (fun y hy => h y (mem_cons_of_mem _ hy)) buf

theorem readBuffer_append (offset : Nat) (buf : Bytes) (log more : MlLog) :
    readBuffer offset buf (log ++ more) = readBuffer offset (readBuffer offset buf log) more :=
  foldl_append ..

/-- A buffer that holds some bytes takes the next after them. -/
theorem overwrite_next (data got buf : Bytes) :
    overwrite (data ++ buf.drop data.length) data.length got =
      data ++ got ++ buf.drop (data ++ got).length := by
  have hshort : data.length - (data ++ buf.drop data.length).length = 0 := by simp
  have hrest : (data ++ buf.drop data.length).drop (data.length + got.length) =
      buf.drop (data.length + got.length) := by
    rw [← drop_drop, drop_left, drop_drop]
  rw [overwrite, take_left, hshort, hrest, replicate_zero, append_nil, length_append]

theorem MlReq.isRead_of_isFlush {r : MlReq} (h : r.isFlush = true) : r.isRead = false := by
  rcases r with c | r
  · rfl
  · cases r <;> first | rfl | cases h

theorem lockLog_not_read {forkid offset size : Nat} :
    ∀ x ∈ lockLog unlock forkid offset size rcs, x.1.isRead = false := by
  intro x hx
  obtain ⟨rc, -, rfl⟩ := mem_map.1 hx
  rfl

/-! ## A server that answers the truth -/

/-- The fork's contents are `F`: a read is answered with some of the bytes asked for, or
with all from there on and the fork's end; the locks on the fork are granted. -/
def servesFork (forkid : Nat) (F : Bytes) : (r : MlReq) → r.Ans → Bool
  | .sys (.read id o count), (rc, got) =>
    id != forkid || rc == kFPNoErr && got != [] && got.isPrefixOf ((F.drop o).take count)
      || rc == kFPEOFErr && decide (F.length ≤ o + count) && got == F.drop o
  | .sys (.byteRangeLock _ id _ _), rc => id != forkid || rc == kFPNoErr
  | _, _ => true

variable {vol : ServedVolume} {F buf : Bytes} {forkid offset size : Nat} {s : MlState} {log : MlLog}
  {ok : (r : MlReq) → r.Ans → Bool}

theorem wp_afpRead {k : Int × Bytes → MlCall α} {o count : Nat}
    {Q : α → MlState → MlLog → Prop} :
    Wp (record ok) (Ml.afpRead forkid o count >>= k) s log Q ↔
      ∀ rc got, ok (.sys (.read forkid o count)) (rc, got) →
        Wp (record ok) (k (rc, got.take count)) s
          (log ++ [⟨.sys (.read forkid o count), (rc, got)⟩]) Q := by
  show Wp (record ok) (send _ _) s log Q ↔ _
  rw [wp_record_send]
  exact ⟨fun h rc got => h (rc, got), fun h a => h a.1 a.2⟩

theorem servesFork_read {o count rc : _} {got : Bytes}
    (h : servesFork forkid F (.sys (.read forkid o count)) (rc, got) = true) :
    rc = kFPNoErr ∧ got ≠ [] ∧ got <+: (F.drop o).take count ∨
      rc = kFPEOFErr ∧ F.length ≤ o + count ∧ got = F.drop o := by
  simpa [servesFork, and_assoc] using h

/-- The bytes that were read, with what the caller's buffer held past them; the end was
found if it was answered. -/
def Received (F : Bytes) (offset size : Nat) (buf : Bytes) (r : ReadResult) (log : MlLog) : Prop :=
  r = .ok ((F.drop offset).take size, endAnswered log) ∧
    readBuffer offset buf log =
      (F.drop offset).take size ++ buf.drop ((F.drop offset).take size).length

theorem readBuffer_next (forkid count : Nat) (rc : Int) (got : Bytes)
    (hbuf : readBuffer offset buf log = data ++ buf.drop data.length) :
    readBuffer offset buf (log ++ [⟨.sys (.read forkid (offset + data.length) count), (rc, got)⟩]) =
      data ++ got.take count ++ buf.drop (data ++ got.take count).length := by
  rw [readBuffer_append, hbuf]
  show overwrite _ (offset + data.length - offset) _ = _
  rw [Nat.add_sub_cancel_left, overwrite_next]

theorem endAnswered_read (forkid o count : Nat) (rc : Int) (got : Bytes) (hend : endAnswered log = false) :
    endAnswered (log ++ [⟨.sys (.read forkid o count), (rc, got)⟩]) = (rc == kFPEOFErr) := by
  rw [endAnswered_append, hend, Bool.false_or]
  simp [endAnswered, readRc]

/-- From the first bytes asked for, the loop reads the rest. -/
theorem llReadLoop_reads (hq : 0 < vol.quantum) (hdata : data <+: (F.drop offset).take size)
    (hfuel : size ≤ fuel + data.length)
    (hbuf : readBuffer offset buf log = data ++ buf.drop data.length)
    (hend : endAnswered log = false) :
    Wp (record (servesFork forkid F)) (llReadLoop vol forkid offset size fuel data) s log
      fun r _ log' => Received F offset size buf r log' := by
  -- all that was asked for is there
  have hfull {data : Bytes} {log : MlLog} (hdata : data <+: (F.drop offset).take size)
      (hbuf : readBuffer offset buf log = data ++ buf.drop data.length)
      (hend : endAnswered log = false) (h : size ≤ data.length) :
      Received F offset size buf (.ok (data, false)) log := by
    have heq : data = (F.drop offset).take size :=
      hdata.eq_of_length_le (Nat.le_trans (length_take_le ..) h)
    exact ⟨by rw [hend, ← heq], by rw [hbuf, ← heq]⟩
  induction fuel generalizing data log with
  | zero => exact wp_ret.2 (hfull hdata hbuf hend (by omega))
  | succ fuel ih =>
    refine .ite (fun h => wp_ret.2 (hfull hdata hbuf hend h)) fun h => ?_
    rw [wp_afpRead]
    intro rc got hok
    -- the fork from the offset on, past what was read
    obtain ⟨rest, hrest⟩ := hdata.trans (List.take_prefix ..)
    have hdrop : F.drop (offset + data.length) = rest := by
      rw [← drop_drop, ← hrest, drop_left]
    have hgoal : (F.drop offset).take size = data ++ rest.take (size - data.length) := by
      rw [← hrest, take_append, take_of_length_le (by omega)]
    have hnext := readBuffer_next forkid (min vol.quantum (size - data.length)) rc got hbuf
    have hended := endAnswered_read forkid (offset + data.length)
      (min vol.quantum (size - data.length)) rc got hend
    rcases servesFork_read hok with ⟨rfl, hne, hpre⟩ | ⟨rfl, hreach, rfl⟩
    · have htake : got.take (min vol.quantum (size - data.length)) = got :=
        take_of_length_le (Nat.le_trans hpre.length_le (length_take_le ..))
      rw [htake] at hnext ⊢
      have hpos := length_pos_iff.2 hne
      simp only [hne]
      refine ih ?_ ?_ hnext hended
      · rw [hgoal, prefix_append_right_inj]
        rw [hdrop] at hpre
        exact hpre.trans (take_prefix_take_left (by omega))
      · simp only [length_append]
        omega
    · have hshort : rest.length ≤ min vol.quantum (size - data.length) := by
        have := congrArg List.length hdrop
        rw [length_drop] at this
        omega
      rw [hdrop] at hnext hended ⊢
      rw [take_of_length_le hshort] at hnext ⊢
      have heq : (F.drop offset).take size = data ++ rest := by
        rw [hgoal, take_of_length_le (by omega)]
      exact wp_ret.2 ⟨by rw [hended, heq]; rfl, by rw [hnext, heq]⟩

theorem Received.append {r : ReadResult} (h : Received F offset size buf r log)
    (hmore : ∀ x ∈ more, x.1.isRead = false) : Received F offset size buf r (log ++ more) := by
  refine ⟨?_, ?_⟩
  · rw [endAnswered_append, endAnswered_of_not_read hmore, Bool.or_false]
    exact h.1
  · rw [readBuffer_append, readBuffer_of_not_read hmore]
    exact h.2

theorem servesFork_lock {o n : Nat} {rc : Int}
    (h : servesFork forkid F (.sys (.byteRangeLock unlock forkid o n)) rc = true) : rc = kFPNoErr := by
  simpa [servesFork] using h

theorem lockTries_granted {tries : Nat} {r : Int} (h : LockTries tries rcs r)
    (hrcs : ∀ rc ∈ rcs, rc = kFPNoErr) : r = 0 := by
  cases h with
  | granted | contended => rfl
  | refused waits _ _ rc hne _ => exact absurd (hrcs rc (by simp)) hne

theorem llReadLocked_reads (hq : 0 < vol.quantum) (hlog : ∀ x ∈ log, x.1.isRead = false) :
    Wp (record (servesFork forkid F)) (llReadLocked vol forkid offset size) s log
      fun r _ log' => Received F offset size buf r log' := by
  refine wp_llHandleLocking fun r rcs hr hoks => ?_
  obtain rfl : r = 0 := by
    split at hr
    · exact lockTries_granted hr fun rc hm => servesFork_lock (hoks rc hm)
    · exact hr.2
  generalize hlocks : lockLog false forkid (vol.wireCount offset) (vol.wireCount size) rcs = locks
  have hnone : ∀ x ∈ log ++ locks, x.1.isRead = false := by
    rw [← hlocks]
    exact fun x hx => (mem_append.1 hx).elim (hlog x) (lockLog_not_read x)
  have hbuf : readBuffer offset buf (log ++ locks) =
      [] ++ buf.drop ([] : Bytes).length := readBuffer_of_not_read hnone offset buf
  rw [if_neg (by simp), wp_bind]
  refine (llReadLoop_reads hq nil_prefix (Nat.le_add_right ..) hbuf
    (endAnswered_of_not_read hnone)).mono fun r s log' h => ?_
  rw [h.1]
  refine wp_llHandleUnlocking fun r rcs hr hoks => ?_
  obtain rfl : r = 0 := by
    split at hr
    · obtain ⟨rc, rfl, hr⟩ := hr
      exact hr.2 (servesFork_lock (hoks rc (mem_singleton_self rc)))
    · exact hr.2
  exact wp_ret.2 (h.1 ▸ h.append lockLog_not_read)

/-! ## Any server -/

/-- Every read of the log was answered by a success or the end. -/
def ReadsAnswered (log : MlLog) : Prop :=
  ∀ x ∈ log, ∀ rc, readRc x = some rc → rc = kFPNoErr ∨ rc = kFPEOFErr

/-- A read was answered by the end, or by a success without bytes. -/
def ReadsStopped (log : MlLog) : Prop := endAnswered log = true ∨ ∃ x ∈ log, readNothing x = true

theorem ReadsAnswered.append (h : ReadsAnswered log) (h' : ReadsAnswered more) :
    ReadsAnswered (log ++ more) :=
  fun x hx => (mem_append.1 hx).elim (h x) (h' x)

theorem readsAnswered_of_not_read (h : ∀ x ∈ log, x.1.isRead = false) : ReadsAnswered log := by
  intro x hx rc hrc
  rw [readRc_of_not_read (h x hx)] at hrc
  cases hrc

theorem readsAnswered_read (forkid o count : Nat) (got : Bytes) {rc : Int}
    (h : rc = kFPNoErr ∨ rc = kFPEOFErr) :
    ReadsAnswered [⟨.sys (.read forkid o count), (rc, got)⟩] := by
  intro x hx rc' hrc
  rw [mem_singleton.1 hx] at hrc
  cases hrc
  exact h

theorem ReadsStopped.append (h : ReadsStopped log) (more : MlLog) : ReadsStopped (log ++ more) := by
  refine h.imp (fun h => ?_) fun ⟨x, hx, hn⟩ => ⟨x, mem_append_left _ hx, hn⟩
  rw [endAnswered_append, h, Bool.true_or]

/-- What a read's result says of the answers: one that is neither a success nor the end
fails the read, and fewer bytes than asked for mean that one stopped it. -/
def Accounted (size : Nat) (log : MlLog) : ReadResult → Prop
  | .error e => e < 0
  | .ok (data, _) => ReadsAnswered log ∧ (data.length < size → ReadsStopped log)

theorem llReadLoop_any (hfuel : size ≤ fuel + data.length)
    (hlog : ReadsAnswered log) :
    Wp (record ok) (llReadLoop vol forkid offset size fuel data) s log fun r _ log' =>
      Accounted size log' (r.mapError (- ·)) := by
  induction fuel generalizing data log with
  | zero => exact wp_ret.2 ⟨hlog, fun h => absurd h (by omega)⟩
  | succ fuel ih =>
    refine .ite (fun h => wp_ret.2 ⟨hlog, fun hlt => absurd hlt (by omega)⟩) fun h => ?_
    rw [wp_afpRead]
    intro rc got _
    refine .guard (show -EACCES < 0 by decide) fun _ => ?_
    refine .guard (show -EBUSY < 0 by decide) fun _ => ?_
    refine .ite (fun hend => ?_) fun _ => ?_
    · refine wp_ret.2 ⟨hlog.append (readsAnswered_read _ _ _ _ (.inr hend)), fun _ => .inl ?_⟩
      simp [endAnswered, readRc, hend]
    refine .guard (show -EIO_ < 0 by decide) fun hrc => ?_
    have hrc : rc = kFPNoErr := not_not.1 hrc
    have hlog' := hlog.append (readsAnswered_read forkid (offset + data.length)
      (min vol.quantum (size - data.length)) got (.inl hrc))
    refine .ite (fun hnil => ?_) fun hne => ?_
    · refine wp_ret.2 ⟨hlog', fun _ => .inr ⟨_, mem_append_right _ (mem_singleton_self _), ?_⟩⟩
      simp [readNothing, hrc, hnil]
    · refine ih ?_ hlog'
      have hpos := length_pos_iff.2 hne
      rw [length_append]
      omega

theorem llReadLocked_any (hlog : ReadsAnswered log) :
    Wp (record ok) (llReadLocked vol forkid offset size) s log fun r _ log' =>
      Accounted size log' r := by
  refine wp_llHandleLocking fun r rcs _ _ => ?_
  refine .guard (show -EBUSY < 0 by decide) fun _ => ?_
  rw [wp_bind]
  refine (llReadLoop_any (Nat.le_add_right ..)
    (hlog.append (readsAnswered_of_not_read lockLog_not_read))).mono fun x s log h => ?_
  cases x with
  | error e => exact wp_llHandleUnlocking fun _ _ _ _ => wp_ret.2 h
  | ok x =>
    refine wp_llHandleUnlocking fun r rcs _ _ => .ite (fun _ => ?_) fun _ => ?_
    · exact wp_llHandleUnlocking fun _ _ _ _ => wp_ret.2 (show -EIO_ < 0 by decide)
    · exact wp_ret.2 ⟨h.1.append (readsAnswered_of_not_read lockLog_not_read),
        fun hlt => (h.2 hlt).append _⟩

/-- What follows the flush of a file's other forks, on the servers that need it. -/
theorem wp_flushFirst {p : MlCall α}
    {Q : α → MlState → MlLog → Prop}
    (h : ∀ s' more, (∀ x ∈ more, x.1.isFlush = true) → Wp (record ok) p s' (log ++ more) Q) :
    Wp (record ok) (if vol.isApple then flushDirtyForksForFile fp >>= fun _ => p else p) s log Q := by
  refine .ite (fun _ => ?_) fun _ => ?_
  · rw [wp_bind]
    refine ((flushDirtyForksForFile_within fp).keeps.record trivial log).mono ?_
    rintro _ s' _ ⟨-, -, more, rfl, hmore⟩
    exact h s' more hmore
  · simpa using h s [] nofun

/-- The bytes that `ll_read` asks for: AFP 2's requests stop at its bound. -/
def readSize (vol : ServedVolume) (size offset : Nat) : Nat :=
  if vol.avNumber < 30 then min size (maxAfp2Filesize - offset + 1) else size

/-- `ll_read` with a fork, within AFP 2's bound on AFP 2: the flushes, and the read. -/
theorem llRead_wp (hf : (s.file fp).forkid ≠ 0)
    (hq : 0 < vol.quantum) (hpos : 0 < size) (hsize : size ≤ intMax31)
    (hafp2 : vol.avNumber < 30 → offset ≤ maxAfp2Filesize) {Q : ReadResult → MlState → MlLog → Prop}
    (h : ∀ s' more, (∀ x ∈ more, x.1.isFlush = true) →
      Wp (record ok) (llReadLocked vol (s.file fp).forkid offset (readSize vol size offset)) s'
        (log ++ more) Q) : Wp (record ok) (llRead vol size offset fp) s log Q := by
  have hmin : min size intMax31 = size := Nat.min_eq_left hsize
  simp only [llRead, Ml.getFile, modifyGet_bind, wp_atom, hf, Nat.ne_of_gt hpos, Nat.ne_of_gt hq,
    hmin, Int.toNat_natCast]
  by_cases hold : vol.avNumber < 30
  · have hin : ¬maxAfp2Filesize < offset := by
      omega
    simp only [readSize, hold, hin] at h ⊢
    exact wp_flushFirst h
  · simp only [readSize, hold] at h ⊢
    exact wp_flushFirst h

/-- `ll_read` returns the fork's bytes from the offset on, as many as were asked for and are
there, leaves what the buffer holds past them, and finds the end if it was answered. Whatever
the answers, one that is neither a success nor the end fails the read, and a read is short
only at the end or after a success without bytes. On AFP 2 it asks for no byte past the
bound. -/
theorem llRead_correct (vol : ServedVolume) (hq : 0 < vol.quantum) (F buf : Bytes) (s : MlState)
    (fp : Nat) (hf : (s.file fp).forkid ≠ 0) (size offset : Nat) (hsize : size ≤ intMax31)
    (hafp2 : vol.avNumber < 30 → offset ≤ maxAfp2Filesize) :
    Wp (record (servesFork (s.file fp).forkid F)) (llRead vol size offset fp) s []
      (fun r _ log => Received F offset (readSize vol size offset) buf r log) ∧
    Wp (record MlReq.anyAnswer) (llRead vol size offset fp) s []
      (fun r _ log => Accounted (readSize vol size offset) log r) := by
  rcases Nat.eq_zero_or_pos size with rfl | hpos
  · have hzero : readSize vol 0 offset = 0 := by simp [readSize]
    simp only [llRead, Ml.getFile, modifyGet_bind, wp_atom, hf, if_false, if_true, pure_eq, wp_ret,
      hzero]
    exact ⟨⟨rfl, by simp [readBuffer]⟩, fun _ h => absurd h List.not_mem_nil, fun h => absurd h (by simp)⟩
  · refine ⟨llRead_wp hf hq hpos hsize hafp2 fun s' more hmore => ?_,
      llRead_wp hf hq hpos hsize hafp2 fun s' more hmore => ?_⟩
    · exact llReadLocked_reads hq fun x hx => MlReq.isRead_of_isFlush (hmore x hx)
    · exact llReadLocked_any
        (readsAnswered_of_not_read fun x hx => MlReq.isRead_of_isFlush (hmore x hx))

/-- A read past the end of a fork of three bytes. -/
theorem llRead_correct_three :
    Wp (record (servesFork 5 [1, 2, 3])) (llRead plainServed 10 1 0) .fork5 [] fun r _ log =>
      r = .ok ([2, 3], endAnswered log) :=
  ((llRead_correct plainServed (by decide) [1, 2, 3] [] .fork5 0 (by decide) 10 1 (by decide)
    (fun h => absurd h (by decide))).1).mono fun _ _ _ h => h.1

/-- A success without bytes after one with a byte: the read of two bytes returns one. -/
theorem llRead_short :
    ∃ answers s log, run (record MlReq.anyAnswer) (llRead { plainServed with quantum := 1 } 2 0 0)
        .fork5 [] answers = some (.ok ([1], false), s, log, []) ∧
      ⟨.sys (.read 5 1 1), (kFPNoErr, [])⟩ ∈ log := by
  let answer : (r : MlReq) → r.Ans
    | .sys (.read _ o _) => (kFPNoErr, if o = 0 then [1] else [])
    | _ => default
  exact ⟨List.replicate 4 answer, _, _, rfl, .tail _ (.tail _ (.head _))⟩

end NC
