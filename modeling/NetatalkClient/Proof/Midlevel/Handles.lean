import NetatalkClient.Proof.Midlevel.ForkList

/-!
# The records of open handles

A history is a sequence of calls on one volume, each made on handles that are open and
answered in any way (`FileHistory`). Where no fork was opened under the number 0, the list
of open forks holds exactly the records of the handles with a fork, each once
(`FileHistory.tracked`), so neither a record of a stack nor one that was freed.

A server that opens a fork under the number 0 breaks this (`zero_fork_listed`): the open
lists the record, and `ml_close`, for which the number says that there is no fork, does not
take it off.
-/

namespace NC

open List MlReq Prog

/-! ## Histories -/

/-- A call of a client of the volume. -/
inductive FileCall where
  | «open» (path : Path) (flags : Nat)
  | creat (path : Path)
  | read (fp size : Nat) (offset : Int)
  | write (fp : Nat) (data : Bytes) (offset : Int)
  | fsync (fp : Nat)
  | closeFlush (fp : Nat)
  | ftruncate (fp : Nat) (offset : Int)
  /-- What `fuse_create` notes of a handle it opened. -/
  | noteCreated (fp : Nat) (created : Bool)
  | copyRange (fpIn : Nat) (offIn : Int) (fpOut : Nat) (offOut : Int) (len : Nat)
  | readlink (path : Path) (size : Nat)
  | symlink (path1 path2 : Path)
  | getresourcefork (path : Path) (size : Nat) (position : Int)
  | setresourcefork (path : Path) (value : Bytes) (position : Int)
  | setresourceforkFlags (path : Path) (value : Bytes) (position : Int) (flags : Nat)
  | truncateresourcefork (path : Path) (size : Nat)
  | removeresourcefork (path : Path)
  | getfinderinfo (path : Path) (size : Nat)
  | setfinderinfo (path : Path) (value : Bytes)
  | setfinderinfoFlags (path : Path) (value : Bytes) (flags : Nat)
  | removefinderinfo (path : Path)
  | close (fp : Nat)

namespace FileCall

/-- The handles that a call is made on. -/
def handles : FileCall → List Nat
  | read fp .. | write fp .. | fsync fp | closeFlush fp | ftruncate fp _ | noteCreated fp _ | close fp =>
    [fp]
  | copyRange fpIn _ fpOut .. => [fpIn, fpOut]
  | _ => []

/-- The call, with the handles that are open after it. -/
def run (vol : ServedVolume) (hs : List Nat) : FileCall → MlCall (List Nat)
  | «open» path flags => do
    match ← mlOpen vol path flags with
    | .error _ => return hs
    | .ok fp => return fp :: hs
  | creat path => do let _ ← mlCreat vol path; return hs
  | read fp size offset => do let _ ← mlRead vol size offset fp; return hs
  | write fp data offset => do let _ ← mlWrite vol data offset fp; return hs
  | fsync fp => do let _ ← mlFsync vol fp; return hs
  | closeFlush fp => do let _ ← mlCloseFlush vol fp; return hs
  | ftruncate fp offset => do let _ ← mlFtruncate vol fp offset; return hs
  | noteCreated fp created => do
    Ml.modifyFile fp fun f => { f with created := created }
    return hs
  | copyRange fpIn offIn fpOut offOut len => do
    let _ ← mlCopyRange vol fpIn offIn fpOut offOut len
    return hs
  | readlink path size => do let _ ← mlReadlink vol path size; return hs
  | symlink path1 path2 => do let _ ← mlSymlink vol path1 path2; return hs
  | getresourcefork path size position => do
    let _ ← mlGetresourcefork vol path size position
    return hs
  | setresourcefork path value position => do
    let _ ← mlSetresourcefork vol path value position
    return hs
  | setresourceforkFlags path value position flags => do
    let _ ← mlSetresourceforkFlags vol path value position flags
    return hs
  | truncateresourcefork path size => do let _ ← mlTruncateresourcefork vol path size; return hs
  | removeresourcefork path => do let _ ← mlRemoveresourcefork vol path; return hs
  | getfinderinfo path size => do let _ ← mlGetfinderinfo vol path size; return hs
  | setfinderinfo path value => do let _ ← mlSetfinderinfo vol path value; return hs
  | setfinderinfoFlags path value flags => do let _ ← mlSetfinderinfoFlags vol path value flags; return hs
  | removefinderinfo path => do let _ ← mlRemovefinderinfo vol path; return hs
  | close fp => do
    let _ ← mlClose vol fp
    return hs.erase fp

end FileCall

/-- The states that calls of a volume lead to, with the handles that are open: a call is made
on handles that are, and answered in any way that is `ok`. -/
inductive FileHistory (vol : ServedVolume) (ok : (r : MlReq) → r.Ans → Bool) :
    MlState → List Nat → Prop
  | start (s : MlState) (h : s.openForks = []) : FileHistory vol ok s []
  | call {s : MlState} {hs : List Nat} (h : FileHistory vol ok s hs) (c : FileCall)
      (hc : ∀ fp ∈ c.handles, fp ∈ hs) {answers : List ((r : MlReq) → r.Ans)} {hs' : List Nat}
      {s' : MlState} {log : MlLog}
      (hrun : run (record ok) (c.run vol hs) s [] answers = some (hs', s', log, [])) :
      FileHistory vol ok s' hs'

/-- The list holds the records of the handles that are open with a fork, each once. -/
def ListExact (s : MlState) (hs : List Nat) : Prop :=
  s.openForks.Nodup ∧ ∀ fp, fp ∈ s.openForks ↔ fp ∈ hs ∧ (s.file fp).forkid ≠ 0

/-- What every history keeps: the list is exact, and a handle with a fork is of a kind that
has one. -/
structure Tracked (s : MlState) (hs : List Nat) : Prop where
  nodup : hs.Nodup
  below : ∀ fp ∈ hs, fp < s.nextFile
  listed : s.openForks.Nodup
  exact : ∀ fp, fp ∈ s.openForks ↔ fp ∈ hs ∧ (s.file fp).forkid ≠ 0
  kinds : ∀ fp ∈ hs, (s.file fp).forkid ≠ 0 →
    (s.file fp).resource = .none ∨ (s.file fp).resource = .resource

section Tracked

variable {s u : MlState} {hs : List Nat} {fp : Nat} {vol : ServedVolume} {log : MlLog}

theorem Tracked.records (h : Tracked s hs)
    (hu : ∀ p < s.nextFile, (u.file p).identity = (s.file p).identity) (p : Nat) (hp : p ∈ hs) :
    (u.file p).forkid = (s.file p).forkid ∧ (u.file p).resource = (s.file p).resource :=
  forkid_of_identity (hu p (h.below p hp))

theorem Tracked.still (h : Tracked s hs) (hu : Still s.nextFile s u) : Tracked u hs := by
  have hid := h.records hu.records
  refine ⟨h.nodup, fun fp hfp => Nat.lt_of_lt_of_le (h.below fp hfp) hu.nextFile, hu.listed ▸ h.listed,
    fun fp => ?_, fun fp hfp hne => ?_⟩
  · rw [hu.listed, h.exact]
    exact and_congr_right fun hfp => by rw [(hid fp hfp).1]
  · rw [(hid fp hfp).2]
    exact h.kinds fp hfp ((hid fp hfp).1 ▸ hne)

theorem Tracked.opened (h : Tracked s hs) (hnew : s.nextFile ≤ fp) (hu : Handle True s.nextFile fp s u) :
    Tracked u (fp :: hs) := by
  have hout : fp ∉ hs := fun hfp => absurd (h.below fp hfp) (by omega)
  have hunlisted : fp ∉ s.openForks := fun hfp => hout ((h.exact fp).1 hfp).1
  have hid := h.records hu.records
  have hothers : ∀ p, p ≠ fp → (p ∈ s.openForks ↔ p ∈ fp :: hs ∧ (u.file p).forkid ≠ 0) := by
    intro p hp
    rw [h.exact, mem_cons, or_iff_right hp]
    exact and_congr_right fun hm => by rw [(hid p hm).1]
  refine ⟨nodup_cons.2 ⟨hout, h.nodup⟩, ?_, ?_, fun p => ?_, ?_⟩
  · exact forall_mem_cons.2 ⟨hu.below, fun p hp => Nat.lt_of_lt_of_le (h.below p hp) hu.nextFile⟩
  · obtain ⟨hl, -⟩ | ⟨hl, -⟩ := hu.fork
    · rw [hl]
      exact nodup_cons.2 ⟨hunlisted, h.listed⟩
    · exact hl ▸ h.listed
  · by_cases hp : p = fp
    · subst hp
      obtain ⟨hl, hf, -⟩ | ⟨hl, hf⟩ := hu.fork
      · simp [hl, hf trivial]
      · simp [hl, hf, hunlisted]
    · obtain ⟨hl, -⟩ | ⟨hl, -⟩ := hu.fork
      · rw [hl, mem_cons, or_iff_right hp, hothers p hp]
      · rw [hl, hothers p hp]
  · refine forall_mem_cons.2 ⟨fun hne => ?_, fun p hp hne => ?_⟩
    · obtain ⟨-, -, hk⟩ | ⟨-, hf⟩ := hu.fork
      · exact hk
      · exact absurd hf hne
    · rw [(hid p hp).2]
      exact h.kinds p hp ((hid p hp).1 ▸ hne)

theorem Tracked.touched (h : Tracked s hs) (hfp : fp ∈ hs) (hu : Touches True s.nextFile fp s u) :
    Tracked u hs := by
  have hid : ∀ p ∈ hs, p ≠ fp → (u.file p).forkid = (s.file p).forkid ∧
      (u.file p).resource = (s.file p).resource :=
    fun p hp hne => forkid_of_identity (hu.others p (h.below p hp) hne)
  refine ⟨h.nodup, fun p hp => Nat.lt_of_lt_of_le (h.below p hp) hu.nextFile, ?_, fun p => ?_,
    fun p hp hne => ?_⟩
  · obtain ⟨hl, -⟩ | ⟨hl, -⟩ := hu.listed
    · exact hl ▸ h.listed
    · exact hl ▸ h.listed.erase fp
  · by_cases hp : p = fp
    · subst hp
      obtain ⟨hl, hf⟩ | ⟨hl, hf⟩ := hu.listed
      · rw [hl, h.exact, ne_eq, ne_eq, hf trivial]
      · simp [hl, hf, h.listed.mem_erase_iff]
    · have hsame : p ∈ u.openForks ↔ p ∈ s.openForks := by
        obtain ⟨hl, -⟩ | ⟨hl, -⟩ := hu.listed
        · rw [hl]
        · rw [hl, mem_erase_of_ne hp]
      rw [hsame, h.exact]
      exact and_congr_right fun hm => by rw [(hid p hm hp).1]
  · by_cases hp' : p = fp
    · subst hp'
      rw [hu.resource trivial]
      refine h.kinds p hp fun h0 => ?_
      obtain ⟨-, hf⟩ | ⟨-, hf⟩ := hu.listed
      · exact hne ((hf trivial).2 h0)
      · exact hne (hf trivial)
    · rw [(hid p hp hp').2]
      exact h.kinds p hp ((hid p hp hp').1 ▸ hne)

theorem Tracked.closed (h : Tracked s hs)
    (hu : Relists s.nextFile (s.openForks.erase fp) s u ∨ Relists s.nextFile s.openForks s u ∧
      ((s.file fp).forkid = 0 ∨ (s.file fp).resource ≠ .none ∧ (s.file fp).resource ≠ .resource)) :
    Tracked u (hs.erase fp) := by
  -- a record that stays on the list was not there
  have hu : Relists s.nextFile (s.openForks.erase fp) s u := by
    obtain hu | ⟨hu, hno⟩ := hu
    · exact hu
    · have hout : fp ∉ s.openForks := fun hfp => by
        obtain ⟨hm, hf⟩ := (h.exact fp).1 hfp
        obtain h0 | ⟨hn, hr⟩ := hno
        · exact hf h0
        · exact (h.kinds fp hm hf).elim hn hr
      rwa [erase_of_not_mem hout]
  have hid := h.records hu.records
  have hin : ∀ {p}, p ∈ hs.erase fp → p ∈ hs := fun hp => mem_of_mem_erase hp
  refine ⟨h.nodup.erase fp, fun p hp => Nat.lt_of_lt_of_le (h.below p (hin hp)) hu.nextFile,
    hu.listed ▸ h.listed.erase fp, fun p => ?_, fun p hp hne => ?_⟩
  · rw [hu.listed, h.listed.mem_erase_iff, h.nodup.mem_erase_iff, h.exact, and_assoc]
    exact and_congr_right fun _ => and_congr_right fun hm => by rw [(hid p hm).1]
  · rw [(hid p (hin hp)).2]
    exact h.kinds p (hin hp) ((hid p (hin hp)).1 ▸ hne)

theorem numbering_record : Numbering True (record numbersForks) := by
  intro _ log r answer a log' h
  obtain ⟨hok, rfl, -⟩ := record_eq_some.1 h
  exact hok

/-- What a call does to the handles and their records. -/
inductive FileCall.Does (numbers : Prop) (s : MlState) (hs : List Nat) (c : FileCall) :
    List Nat → MlState → Prop
  | still {u : MlState} (hu : Still s.nextFile s u) : Does numbers s hs c hs u
  | opened {u : MlState} {fp : Nat} (hfp : s.nextFile ≤ fp) (hu : Handle numbers s.nextFile fp s u) :
      Does numbers s hs c (fp :: hs) u
  | closed {u : MlState} {fp : Nat} (hu : Relists s.nextFile (s.openForks.erase fp) s u ∨
      Relists s.nextFile s.openForks s u ∧ ((s.file fp).forkid = 0 ∨
        (s.file fp).resource ≠ .none ∧ (s.file fp).resource ≠ .resource)) :
      Does numbers s hs c (hs.erase fp) u
  | touched {u : MlState} {fp : Nat} (hfp : fp ∈ c.handles) (hu : Touches numbers s.nextFile fp s u) :
      Does numbers s hs c hs u

theorem FileCall.run_does {numbers : Prop} {ok : (r : MlReq) → r.Ans → Bool} (c : FileCall)
    (hnum : Numbering numbers (record ok)) (hc : numbers → ∀ fp ∈ c.handles, fp < s.nextFile) :
    Wp (record ok) (c.run vol hs) s log fun hs' u _ => c.Does numbers s hs hs' u := by
  have leaves : ∀ {α : Type} {p : MlCall α}, Leaves (record ok) s.nextFile p →
      Wp (record ok) (p >>= fun _ => ret hs) s log fun hs' u _ => c.Does numbers s hs hs' u :=
    fun hp => (hp.wp (Nat.le_refl _) log).bind fun _ _ _ hu => wp_ret.2 (.still hu)
  cases c with
  | «open» path flags =>
    refine (mlOpen_wp hnum).bind fun r u _ hu => ?_
    match r with
    | .error e => exact wp_ret.2 (.still hu)
    | .ok fp => exact wp_ret.2 (.opened hu.1 hu.2)
  | close fp =>
    exact (mlClose_wp (Nat.le_refl _)).bind fun _ _ _ hu => wp_ret.2 (.closed hu)
  | copyRange fpIn offIn fpOut offOut len =>
    have hfp : fpOut ∈ (copyRange fpIn offIn fpOut offOut len).handles := by simp [handles]
    exact (mlCopyRange_wp (Nat.le_refl _) (fun h => hc h fpOut hfp) hnum).bind
      fun _ _ _ hu => wp_ret.2 (.touched hfp hu)
  | creat path => exact leaves mlCreat_leaves
  | read fp size offset => exact leaves mlRead_leaves
  | write fp data offset => exact leaves mlWrite_leaves
  | fsync fp => exact leaves mlFsync_leaves
  | closeFlush fp => exact leaves mlCloseFlush_leaves
  | ftruncate fp offset => exact leaves mlFtruncate_leaves
  | noteCreated fp created => exact leaves (.modifyFile fun _ => rfl)
  | readlink path size => exact leaves mlReadlink_leaves
  | symlink path1 path2 => exact leaves mlSymlink_leaves
  | getresourcefork path size position => exact leaves mlGetresourcefork_leaves
  | setresourcefork path value position => exact leaves writeResourceFork_leaves
  | setresourceforkFlags path value position flags => exact leaves mlSetresourceforkFlags_leaves
  | truncateresourcefork path size => exact leaves mlTruncateresourcefork_leaves
  | removeresourcefork path => exact leaves mlRemoveresourcefork_leaves
  | getfinderinfo path size => exact leaves mlGetfinderinfo_leaves
  | setfinderinfo path value => exact leaves mlSetfinderinfo_leaves
  | setfinderinfoFlags path value flags => exact leaves mlSetfinderinfoFlags_leaves
  | removefinderinfo path => exact leaves mlSetfinderinfo_leaves

theorem FileCall.run_tracked (h : Tracked s hs) (c : FileCall) (hc : ∀ fp ∈ c.handles, fp ∈ hs) :
    Wp (record numbersForks) (c.run vol hs) s log fun hs' s' _ => Tracked s' hs' := by
  refine (c.run_does numbering_record fun _ fp hfp => h.below fp (hc fp hfp)).mono fun _ _ _ hd => ?_
  cases hd with
  | still hu => exact h.still hu
  | opened hfp hu => exact h.opened hfp hu
  | closed hu => exact h.closed hu
  | touched hfp hu => exact h.touched (hc _ hfp) hu

theorem FileHistory.tracked (h : FileHistory vol numbersForks s hs) : Tracked s hs := by
  induction h with
  | start s hs => exact ⟨.nil, nofun, by simp [hs], by simp [hs], nofun⟩
  | call h c hc hrun ih => exact c.run_tracked ih hc _ _ _ _ _ hrun

end Tracked

/-! ## At unmount -/

section Unmount

variable {ok : (r : MlReq) → r.Ans → Bool} {vol : ServedVolume} {s : MlState} {log : MlLog}

theorem closes_of_not_close {more : MlLog}
    (h : ∀ x ∈ more, ∀ forkid, x.1 ≠ .sys (.closeFork forkid)) : closes more = [] := by
  refine filterMap_eq_nil_iff.2 fun x hx => ?_
  obtain ⟨c | r, a⟩ := x
  · rfl
  · cases r <;> first | rfl | exact absurd rfl (h _ hx _)

theorem mlCloseFlush_within {fp : Nat} :
    (mlCloseFlush vol fp).Within (fun r => ∀ forkid, r ≠ .sys (.closeFork forkid)) fun _ => True := by
  refine fun s => .ite (fun _ => trivial) fun _ s => .ite (fun _ => trivial) fun _ => ?_
  refine .ite (fun _ => trivial) fun _ _ => ?_
  refine .choice ⟨nofun, fun _ => trivial⟩ trivial fun rc => ?_
  refine .choice ⟨nofun, fun _ => trivial⟩ trivial fun rc => ?_
  exact .ite (fun _ => trivial) fun _ => .ite (fun _ _ => trivial) fun _ => trivial

/-- Every fork on the list is closed, once, and the list is empty. -/
theorem closeListed_wp {l : List Nat} (hl : s.openForks = l) (hb : ∀ fp ∈ l, fp < s.nextFile) :
    Wp (record ok) (closeListed vol l) s log fun _ s' log' => s'.openForks = [] ∧
      closes log' = closes log ++ l.map fun fp => (s.file fp).forkid := by
  induction l generalizing s log with
  | nil => exact wp_ret.2 ⟨hl, by simp⟩
  | cons fp l ih =>
    refine ((mlCloseFlush_leaves.wp (Nat.le_refl _) log).and
      (mlCloseFlush_within.keeps.record trivial log)).bind ?_
    rintro _ t _ ⟨ht, -, -, more, rfl, hmore⟩
    have hid : ∀ p ∈ fp :: l, (t.file p).forkid = (s.file p).forkid := fun p hp =>
      (forkid_of_identity (ht.records p (hb p hp))).1
    refine wp_getFile.2 (wp_record_send.2 fun rc _ => wp_atom.2 ((ih rfl fun p hp => ?_).mono ?_))
    · exact Nat.lt_of_lt_of_le (hb p (mem_cons_of_mem _ hp)) ht.nextFile
    · rintro _ s' log' ⟨hs', hlog⟩
      refine ⟨hs', hlog.trans ?_⟩
      rw [closes_append, closes_append, closes_of_not_close hmore]
      have htail : l.map (fun p => (t.file p).forkid) = l.map fun p => (s.file p).forkid :=
        map_congr_left fun p hp => hid p (mem_cons_of_mem _ hp)
      simp [closes, hid fp mem_cons_self, htail]

end Unmount

/-- In every history in which no fork was opened under the number 0, the list holds exactly the
records of the handles that are open with a fork, each once; and `remove_fork_list`, whatever
it is answered, closes each fork on the list once and leaves the list empty. -/
theorem fork_list_exact (vol : ServedVolume) (s : MlState) (hs : List Nat)
    (h : FileHistory vol MlReq.numbersForks s hs) :
    ListExact s hs ∧ Wp (record MlReq.anyAnswer) (removeForkList vol) s [] fun _ s' log =>
      s'.openForks = [] ∧ closes log = s.openForks.map fun fp => (s.file fp).forkid := by
  have ht := h.tracked
  refine ⟨⟨ht.listed, ht.exact⟩, ?_⟩
  exact closeListed_wp rfl fun fp hfp => ht.below fp ((ht.exact fp).1 hfp).1

/-- The answers to the open of a file: memory, its folder, and a fork of the number given. -/
def openAnswer (forkid : Nat) : (r : MlReq) → r.Ans
  | .did (.getDirid _) => .ok (2, [102])
  | .sys .alloc => true
  | .sys (.openFork ..) => (kFPNoErr, ⟨forkid, none, none⟩)
  | .sys (.closeFork _) => kFPNoErr
  | _ => default

/-- A handle whose fork has the number 5. -/
theorem fork_list_exact_one :
    ∃ s, FileHistory plainServed MlReq.numbersForks s [0] ∧ ListExact s [0] := by
  have h : ∃ s log, run (record numbersForks) ((FileCall.open [slash, 102] O_RDONLY).run
      plainServed []) MlState.fresh [] (List.replicate 3 (openAnswer 5)) = some ([0], s, log, []) :=
    ⟨_, _, rfl⟩
  obtain ⟨s, log, h⟩ := h
  have hist := FileHistory.call (.start MlState.fresh rfl) (.open [slash, 102] O_RDONLY) (by simp
    [FileCall.handles]) h
  exact ⟨s, hist, (fork_list_exact plainServed s [0] hist).1⟩

/-- A fork opened under the number 0 is listed; and the close of its handle leaves the record,
which the caller then frees, on the list. -/
theorem zero_fork_listed :
    (∃ s, FileHistory plainServed MlReq.anyAnswer s [0] ∧ ¬ListExact s [0]) ∧
      ∃ s, FileHistory plainServed MlReq.anyAnswer s [] ∧ s.openForks = [0] := by
  have hopen : ∃ s log, run (record MlReq.anyAnswer) ((FileCall.open [slash, 102] O_RDONLY).run
      plainServed []) MlState.fresh [] (List.replicate 3 (openAnswer 0)) = some ([0], s, log, []) ∧
      s.openForks = [0] ∧ (s.file 0).forkid = 0 ∧ (s.file 0).resource = .none := ⟨_, _, rfl, rfl, rfl, rfl⟩
  obtain ⟨s, log, hrun, hl, hf, hk⟩ := hopen
  have hist := FileHistory.call (.start MlState.fresh rfl) (.open [slash, 102] O_RDONLY) (by simp
    [FileCall.handles]) hrun
  refine ⟨⟨s, hist, fun h => ((h.2 0).1 (by simp [hl])).2 hf⟩, s, ?_, hl⟩
  have hclose : run (record MlReq.anyAnswer) ((FileCall.close 0).run plainServed [0]) s [] [] =
      some ([], s, [], []) := by simp [FileCall.run, mlClose, Ml.getFile, run, hf, hk]
  exact hist.call (.close 0) (by simp [FileCall.handles]) hclose

end NC
