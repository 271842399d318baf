import NetatalkClient.Proof.Midlevel.Locking
import NetatalkClient.Proof.Midlevel.Served

/-!
# What an open leaves behind

`ll_open` can create a file, ask for its length, open its fork and empty it, and each of
these can fail. `llOpen_effects` says over every answer what it leaves: the record is listed
if and only if the open succeeds, a fork that was opened by a call that fails is closed, and
the file is deleted exactly when this call made it and its open did not go unanswered.
-/

namespace NC

open List Function ForkServer Prog

/-! ## What a log says of creates, opens, closes and deletes -/

/-- The answers to the creates. -/
def createAnswers (log : MlLog) : List Int :=
  log.filterMap fun
    | ⟨.sys (.createFile ..), rc⟩ => some rc
    | _ => none

/-- The answers to the opens. -/
def openAnswers (log : MlLog) : List (Int × OpenReply) :=
  log.filterMap fun
    | ⟨.sys (.openFork ..), a⟩ => some a
    | _ => none

/-- The forks that were closed. -/
def closes (log : MlLog) : List Nat :=
  log.filterMap fun
    | ⟨.sys (.closeFork forkid), _⟩ => some forkid
    | _ => none

/-- The objects that were deleted. -/
def deletes (log : MlLog) : List (Nat × Path) :=
  log.filterMap fun
    | ⟨.sys (.delete did name), _⟩ => some (did, name)
    | _ => none

section Views

variable (log more : MlLog)

@[simp] theorem createAnswers_append :
    createAnswers (log ++ more) = createAnswers log ++ createAnswers more :=
  filterMap_append ..

@[simp] theorem openAnswers_append : openAnswers (log ++ more) = openAnswers log ++ openAnswers more :=
  filterMap_append ..

@[simp] theorem closes_append : closes (log ++ more) = closes log ++ closes more :=
  filterMap_append ..

@[simp] theorem deletes_append : deletes (log ++ more) = deletes log ++ deletes more :=
  filterMap_append ..

end Views

/-! ## The parts of an open -/

/-- Only the record at `fp` may differ, but not in its kind, and the list is as it was. -/
structure OnlyRecord (fp : Nat) (s s' : MlState) : Prop where
  listed : s'.openForks = s.openForks
  others : ∀ p, p ≠ fp → s'.file p = s.file p
  nextFile : s'.nextFile = s.nextFile
  kind : (s'.file fp).resource = (s.file fp).resource

theorem OnlyRecord.refl (fp : Nat) (s : MlState) : OnlyRecord fp s s :=
  ⟨rfl, fun _ _ => rfl, rfl, rfl⟩

theorem OnlyRecord.trans {fp : Nat} {s t u : MlState} (h : OnlyRecord fp s t)
    (h' : OnlyRecord fp t u) : OnlyRecord fp s u :=
  ⟨h'.listed.trans h.listed, fun p hp => (h'.others p hp).trans (h.others p hp),
    h'.nextFile.trans h.nextFile, h'.kind.trans h.kind⟩

theorem OnlyRecord.update {fp : Nat} {s s' : MlState} (h : OnlyRecord fp s s') {f : FileInfo}
    (hf : f.resource = (s'.file fp).resource) :
    OnlyRecord fp s { s' with file := update s'.file fp f } :=
  ⟨h.listed, fun p hp => (update_of_ne hp ..).trans (h.others p hp), h.nextFile,
    (congrArg FileInfo.resource (update_self ..)).trans (hf.trans h.kind)⟩

section Records

variable {V C α : Type} {serve : V → (r : MlReq) → C → Option (r.Ans × V)} {fp : Nat} {s : MlState}
  {v : V} {Q : α → MlState → V → Prop}

theorem wp_getFile {k : FileInfo → MlCall α} :
    Wp serve (Ml.getFile fp >>= k) s v Q ↔ Wp serve (k (s.file fp)) s v Q := Iff.rfl

theorem wp_newFile {f : FileInfo} {k : Nat → MlCall α} :
    Wp serve (Ml.newFile f >>= k) s v Q ↔ Wp serve (k s.nextFile)
      { s with file := update s.file s.nextFile f, nextFile := s.nextFile + 1 } v Q := Iff.rfl

theorem wp_modifyFile {g : FileInfo → FileInfo} {k : Unit → MlCall α} :
    Wp serve (Ml.modifyFile fp g >>= k) s v Q ↔
      Wp serve (k ()) { s with file := update s.file fp (g (s.file fp)) } v Q := Iff.rfl

end Records

variable {created resource : Bool} {accessmode bitmap : Nat}

section Parts

variable {ok : (r : MlReq) → r.Ans → Bool} {vol : ServedVolume} {flags fp : Nat} {f : FileInfo}
  {s : MlState} {log : MlLog} {rc : Int}

theorem createfileErrno_eq_zero : createfileErrno rc = 0 ↔ rc = kFPNoErr := by
  refine ⟨fun h => ?_, fun h => by subst h; decide⟩
  unfold createfileErrno llAnswerErrno at h
  split_ifs at h <;> first | assumption | exact absurd h (by decide)

theorem createfileErrno_nonpos (rc : Int) : createfileErrno rc ≤ 0 := by
  unfold createfileErrno llAnswerErrno
  split_ifs <;> decide

theorem llOpenforkErrno_nonneg (rc : Int) : 0 ≤ llOpenforkErrno rc := by
  unfold llOpenforkErrno
  split_ifs <;> decide

theorem llOpenforkErrno_eq_zero : llOpenforkErrno rc = 0 ↔ rc = kFPNoErr := by
  refine ⟨fun h => ?_, fun h => by subst h; decide⟩
  unfold llOpenforkErrno at h
  split_ifs at h <;> first | assumption | exact absurd h (by decide)

theorem llOpenforkErrno_eq_timedout : llOpenforkErrno rc = ETIMEDOUT ↔ rc = ETIMEDOUT := by
  refine ⟨fun h => ?_, fun h => by subst h; decide⟩
  unfold llOpenforkErrno at h
  split_ifs at h <;> first | assumption | exact absurd h (by decide)

/-- The create of an open: sent or not, and whether it made the file. -/
def createLog (vol : ServedVolume) (f : FileInfo) (rcs : List Int) : MlLog :=
  rcs.map fun rc => ⟨.sys (.createFile f.did (vol.wireName f.basename)), rc⟩

/-- The delete of a file that an open made. -/
def deleteLog (vol : ServedVolume) (f : FileInfo) (rcs : List Int) : MlLog :=
  rcs.map fun rc => ⟨.sys (.delete f.did (vol.wireName f.basename)), rc⟩

/-- What the create of an open comes to. -/
def CreateResult (rcs : List Int) : Except Int Bool → Prop
  | .ok created => created = true ↔ kFPNoErr ∈ rcs
  | .error e => e < 0 ∧ kFPNoErr ∉ rcs

theorem llOpenCreate_log :
    Wp (record ok) (llOpenCreate vol flags f) s log fun r s' log' =>
      s' = s ∧ ∃ rcs, log' = log ++ createLog vol f rcs ∧ CreateResult rcs r := by
  refine .guard ⟨rfl, [], by simp [createLog], by simp [CreateResult]⟩ fun _ => ?_
  show Wp (record ok) (send _ _) s log _
  rw [wp_record_send]
  intro rc _
  have hne : createfileErrno rc ≠ 0 → kFPNoErr ∉ [rc] := fun h hm =>
    h (createfileErrno_eq_zero.2 (mem_singleton.1 hm).symm)
  refine .ite (fun h => ?_) fun h => ?_
  · exact wp_ret.2 ⟨rfl, [rc], rfl, by simp [CreateResult, (createfileErrno_eq_zero.1 h).symm]⟩
  refine .ite (fun _ => ?_) fun _ => ?_
  · exact wp_ret.2 ⟨rfl, [rc], rfl, Int.lt_iff_le_and_ne.2 ⟨createfileErrno_nonpos rc, h⟩, hne h⟩
  · exact wp_ret.2 ⟨rfl, [rc], rfl, by simpa [CreateResult] using hne h⟩

@[simp] theorem views_createLog (rcs : List Int) :
    createAnswers (createLog vol f rcs) = rcs ∧ openAnswers (createLog vol f rcs) = [] ∧
      closes (createLog vol f rcs) = [] ∧ deletes (createLog vol f rcs) = [] := by
  simp [createAnswers, openAnswers, closes, deletes, createLog]

@[simp] theorem views_deleteLog (rcs : List Int) :
    createAnswers (deleteLog vol f rcs) = [] ∧ openAnswers (deleteLog vol f rcs) = [] ∧
      closes (deleteLog vol f rcs) = [] ∧
      deletes (deleteLog vol f rcs) = rcs.map (fun _ => (f.did, vol.wireName f.basename)) := by
  simp [createAnswers, openAnswers, closes, deletes, deleteLog]

/-- A question for an object's parameters. -/
def MlReq.isQuery : MlReq → Bool
  | .sys (.getFileDirParms ..) => true
  | _ => false

theorem views_of_query {log : MlLog} (h : ∀ x ∈ log, x.1.isQuery = true) :
    createAnswers log = [] ∧ openAnswers log = [] ∧ closes log = [] ∧ deletes log = [] := by
  refine ⟨?_, ?_, ?_, ?_⟩ <;>
  · refine filterMap_eq_nil_iff.2 fun x hx => ?_
    have hq := h x hx
    obtain ⟨c | r, a⟩ := x
    · rfl
    · cases r <;> first | rfl | cases hq

theorem llOpenQuery_log :
    Wp (record ok) (llOpenQuery vol fp f) s log fun ret s' log' =>
      0 ≤ ret ∧ OnlyRecord fp s s' ∧ ∃ more, log' = log ++ more ∧ ∀ x ∈ more, x.1.isQuery = true := by
  refine .guard ⟨by decide, .refl fp s, [], by simp, by simp⟩ fun _ => ?_
  show Wp (record ok) (send _ _) s log _
  rw [wp_record_send]
  rintro ⟨rc, entry⟩ -
  refine .guard ⟨llAnswerErrno_nonneg rc, .refl fp s, _, rfl, ?_⟩ fun _ => ?_
  · simp [MlReq.isQuery]
  refine .guard ⟨by decide, .refl fp s, _, rfl, by simp [MlReq.isQuery]⟩ fun _ => ?_
  show Wp (record ok) (ret 0) _ _ _
  exact wp_ret.2 ⟨by decide, (OnlyRecord.refl fp s).update rfl, _, rfl, by simp [MlReq.isQuery]⟩

theorem llOpenFail_log {ret : Int} :
    Wp (record ok) (llOpenFail vol f created ret) s log fun r s' log' =>
      s' = s ∧ r = -ret ∧ ∃ rcs, log' = log ++ deleteLog vol f rcs ∧
        rcs.length = if created then 1 else 0 := by
  refine .ite (fun h => ?_) fun h => wp_ret.2 ⟨rfl, rfl, [], by simp [deleteLog], by simp [h]⟩
  show Wp (record ok) (send _ _) s log _
  rw [wp_record_send]
  exact fun rc _ => wp_ret.2 ⟨rfl, rfl, [rc], rfl, by simp [h]⟩

end Parts

/-! ## The open -/

/-- What an `ll_open` of the record at `fp` with the file `f` leaves, from what it
exchanged. -/
structure OpenEffects (vol : ServedVolume) (fp : Nat) (s : MlState) (r : Int) (s' : MlState)
    (more : MlLog) : Prop where
  nonpos : r ≤ 0
  /-- The record is put on the list by a success alone. -/
  listed : s'.openForks = if r = 0 then fp :: s.openForks else s.openForks
  others : ∀ p, p ≠ fp → s'.file p = s.file p
  nextFile : s'.nextFile = s.nextFile
  kind : (s'.file fp).resource = (s.file fp).resource
  /-- A success has the fork of an answer. -/
  opened : r = 0 → ∃ reply, (kFPNoErr, reply) ∈ openAnswers more ∧ (s'.file fp).forkid = reply.forkid
  /-- A fork that a failing call opened is closed. -/
  closed : r ≠ 0 → ∀ reply, (kFPNoErr, reply) ∈ openAnswers more → reply.forkid ∈ closes more
  /-- The file is deleted, once, exactly when this call made it and fails otherwise than by
  an open without an answer. -/
  deleted : deletes more =
    if kFPNoErr ∈ createAnswers more ∧ r ≠ 0 ∧ ∀ a ∈ openAnswers more, a.1 ≠ ETIMEDOUT then
      [((s.file fp).did, vol.wireName (s.file fp).basename)] else []

section Open

variable {ok : (r : MlReq) → r.Ans → Bool} {vol : ServedVolume} {flags fp : Nat}
  {s s' : MlState} {log more : MlLog} {rcs : List Int}

/-- The opens of a fork, with their answers. -/
def openLog (resource : Bool) (did bitmap accessmode : Nat) (name : Path)
    (as : List (Int × OpenReply)) : MlLog :=
  as.map fun a => ⟨.sys (.openFork resource did bitmap accessmode name), a⟩

@[simp] theorem views_openLog (resource : Bool) (did bitmap accessmode : Nat) (name : Path)
    (as : List (Int × OpenReply)) :
    let l := openLog resource did bitmap accessmode name as
    createAnswers l = [] ∧ openAnswers l = as ∧ closes l = [] ∧ deletes l = [] := by
  simp [createAnswers, openAnswers, closes, deletes, openLog]

/-- The exits of an open that leave the fork closed: nothing was opened between the create
and the delete, and the file goes if this call made it. -/
theorem OpenEffects.failed {r : Int} (hs : OnlyRecord fp s s') (hr : r < 0)
    (hc : createAnswers more = []) (hd : deletes more = [])
    (ho : ∀ a ∈ openAnswers more, a.1 ≠ kFPNoErr) {ds : List Int}
    (hds : ds.length = if kFPNoErr ∈ rcs ∧ ∀ a ∈ openAnswers more, a.1 ≠ ETIMEDOUT then 1 else 0) :
    OpenEffects vol fp s r s'
      (createLog vol (s.file fp) rcs ++ more ++ deleteLog vol (s.file fp) ds) := by
  have hne : r ≠ 0 := Int.ne_of_lt hr
  refine ⟨Int.le_of_lt hr, by rw [if_neg hne, hs.listed], hs.others, hs.nextFile,
    hs.kind, fun h => absurd h hne, ?_, ?_⟩
  · intro _ reply hm
    simp only [openAnswers_append, views_createLog, views_deleteLog, append_nil] at hm
    exact absurd rfl (ho _ hm)
  · simp only [deletes_append, createAnswers_append, openAnswers_append, views_createLog, hc, hd,
      views_deleteLog, nil_append, append_nil, hne, ne_eq, not_false_eq_true, true_and]
    split_ifs at hds ⊢ <;> first
      | obtain ⟨d, rfl⟩ := length_eq_one_iff.1 hds
        rfl
      | rw [length_eq_zero_iff.1 hds]
        rfl

/-- An `afp_openfork` stores what a success carries in the record, and touches no other. -/
theorem openforkInto_log {did : Nat} {name : Name} :
    Wp (record ok) (openforkInto vol resource did accessmode bitmap name fp) s log
      fun rc s' log' => OnlyRecord fp s s' ∧ ∃ reply,
        log' = log ++ openLog resource did bitmap accessmode (vol.wireName name) [(rc, reply)] ∧
        (rc = kFPNoErr → s'.file fp = reply.store (s.file fp)) := by
  show Wp (record ok) (send _ _) s log _
  rw [wp_record_send]
  rintro ⟨rc, reply⟩ -
  refine .ite (fun _ => ?_) fun hrc => ?_
  · rw [wp_modifyFile]
    exact wp_ret.2 ⟨(OnlyRecord.refl fp s).update rfl, reply, rfl, fun _ => update_self ..⟩
  · exact wp_ret.2 ⟨.refl fp s, reply, rfl, fun h => absurd (.inl h) hrc⟩

/-- The requests for a fork's length. -/
def resizeLog (forkid bitmap size : Nat) (rcs : List Int) : MlLog :=
  rcs.map fun rc => ⟨.sys (.setForkParms forkid bitmap size), rc⟩

@[simp] theorem views_resizeLog (forkid bitmap size : Nat) (rcs : List Int) :
    let l := resizeLog forkid bitmap size rcs
    createAnswers l = [] ∧ openAnswers l = [] ∧ closes l = [] ∧ deletes l = [] := by
  simp [createAnswers, openAnswers, closes, deletes, resizeLog]

theorem llSetforkSize_log {forkid size : Nat} :
    Wp (record ok) (llSetforkSize vol forkid resource size) s log fun ret s' log' =>
      0 ≤ ret ∧ s' = s ∧ ∃ rcs, log' = log ++ resizeLog forkid (forkLengthBit vol resource) size rcs := by
  refine .guard ⟨by decide, rfl, [], by simp [resizeLog]⟩ fun _ => ?_
  show Wp (record ok) (send _ _) s log _
  rw [wp_record_send]
  refine fun rc _ => wp_ret.2 ⟨?_, rfl, [rc], rfl⟩
  split_ifs <;> decide

/-- The end of an open whose fork is open: the record stays on the list, or the fork is
closed and the record taken off. -/
theorem llOpenTruncate_log {f : FileInfo} :
    Wp (record ok) (llOpenTruncate vol flags fp f created) s log fun r s' log' =>
      r ≤ 0 ∧ s'.openForks = (if r = 0 then s.openForks else s.openForks.erase fp) ∧
      (∀ p, p ≠ fp → s'.file p = s.file p) ∧ s'.nextFile = s.nextFile ∧
      (s'.file fp).resource = (s.file fp).resource ∧
      (s'.file fp).forkid = (s.file fp).forkid ∧ ∃ more, log' = log ++ more ∧
        createAnswers more = [] ∧ openAnswers more = [] ∧ deletes more = [] ∧
        (r ≠ 0 → created = false ∧ (s.file fp).forkid ∈ closes more) := by
  refine .ite (fun _ => ?_) fun h => ?_
  · exact wp_ret.2 ⟨Int.le_refl 0, rfl, fun _ _ => rfl, rfl, rfl, rfl, [], by simp, rfl, rfl, rfl, by simp⟩
  have hcreated : created = false := by simpa using fun hc => h (.inr hc)
  refine llSetforkSize_log.bind ?_
  rintro ret s₁ _ ⟨hpos, hs, rcs, rfl⟩
  subst s₁
  refine .ite (fun hret => ?_) fun _ => ?_
  · show Wp (record ok) (send _ fun _ => atom _ fun _ => _) _ _ _
    rw [wp_record_send]
    intro rc _
    refine llOpenFail_log.mono ?_
    rintro r s' _ ⟨rfl, rfl, ds, rfl, hds⟩
    rw [hcreated, if_neg Bool.false_ne_true, length_eq_zero_iff] at hds
    subst ds
    refine ⟨by omega, (if_neg (Int.neg_ne_zero.2 hret)).symm, fun _ _ => rfl, rfl, rfl, rfl, _,
      by simp only [append_assoc]; rfl, ?_⟩
    simp [createAnswers, openAnswers, closes, deletes, deleteLog, resizeLog, hcreated]
  · rw [wp_modifyFile]
    refine wp_ret.2 ⟨Int.le_refl 0, rfl, fun p hp => update_of_ne hp .., rfl, ?_, ?_, _, rfl,
      ?_⟩ <;> simp

/-- Over every answer, an `ll_open` has the effects stated. -/
theorem llOpen_effects :
    Wp (record ok) (llOpen vol flags fp) s log fun r s' log' =>
      ∃ more, log' = log ++ more ∧ OpenEffects vol fp s r s' more := by
  refine .ite (fun _ => ?_) fun _ => ?_
  · refine wp_ret.2 ⟨createLog vol (s.file fp) [] ++ [] ++ deleteLog vol (s.file fp) [],
      by simp [createLog, deleteLog], ?_⟩
    exact .failed (.refl fp s) (show -EROFS < 0 by decide) rfl rfl (by simp [openAnswers]) (by simp)
  refine llOpenCreate_log.bind ?_
  rintro (e | created) s₁ _ ⟨hs, rcs, rfl, hrcs⟩ <;> subst s₁
  · refine wp_ret.2 ⟨createLog vol (s.file fp) rcs ++ [] ++ deleteLog vol (s.file fp) [],
      by simp [deleteLog], ?_⟩
    exact .failed (.refl fp s) hrcs.1 rfl rfl (by simp [openAnswers]) (by simp [hrcs.2])
  refine llOpenQuery_log.bind ?_
  rintro ret s₂ _ ⟨hpos, hs₂, more, rfl, hmore⟩
  obtain ⟨hc, ho, hcl, hd⟩ := views_of_query hmore
  have hcreated : (created = true ↔ kFPNoErr ∈ rcs) := hrcs
  refine .ite (fun hret => ?_) fun hret => ?_
  · refine llOpenFail_log.mono ?_
    rintro r s' _ ⟨rfl, rfl, ds, rfl, hds⟩
    refine ⟨_, by simp only [append_assoc]; rfl, ?_⟩
    rw [← append_assoc]
    exact .failed hs₂ (by omega) hc hd (by simp [ho]) (by simp [hds, ho, hcreated])
  refine openforkInto_log.bind ?_
  rintro rc s₃ _ ⟨hs₃, reply, rfl, hstore⟩
  have hs₃ : OnlyRecord fp s s₃ := (OnlyRecord.update hs₂ (by rfl)).trans hs₃
  refine .ite (fun hrc => ?_) fun hrc => ?_
  · show Wp (record ok) (atom _ fun _ => _) _ _ _
    rw [wp_atom]
    refine llOpenTruncate_log.mono ?_
    rintro r s' _ ⟨hr0, hl, hothers, hnext, hkind, hforkid, ends, rfl, hec, heo, hed, hclosed⟩
    have hfork : (s₃.file fp).forkid = reply.forkid := by rw [hstore hrc]; rfl
    refine ⟨createLog vol (s.file fp) rcs ++ (more ++ openLog _ _ _ _ _ [(rc, reply)]) ++ ends,
      by simp only [append_assoc]; rfl, hr0, ?_, ?_, hnext.trans hs₃.nextFile,
      hkind.trans hs₃.kind, ?_, ?_, ?_⟩
    · rw [hl, hs₃.listed]
      split_ifs <;> simp
    · exact fun p hp => (hothers p hp).trans (hs₃.others p hp)
    · exact fun _ => ⟨reply, by simp [hrc], hforkid.trans hfork⟩
    · intro hr reply' hm
      have hreply : reply' = reply := by simpa [ho, heo, hrc] using hm
      have hin := (hclosed hr).2
      rw [show (MlState.file _ fp).forkid = reply.forkid from hfork] at hin
      simp [hreply, hin]
    · have hn : ¬(kFPNoErr ∈ rcs ∧ r ≠ 0) := fun h => by
        simp [hcreated.2 h.1] at hclosed
        exact h.2 hclosed
      simp only [deletes_append, views_createLog, hd, views_openLog, hed, append_nil,
        createAnswers_append, hc, hec]
      exact (if_neg fun h => hn ⟨h.1, h.2.1⟩).symm
  · refine llOpenFail_log.mono ?_
    rintro r s' _ ⟨rfl, rfl, ds, rfl, hds⟩
    refine ⟨createLog vol (s.file fp) rcs ++ (more ++ openLog _ _ _ _ _ [(rc, reply)]) ++
      deleteLog vol (s.file fp) ds, by simp only [append_assoc]; rfl, ?_⟩
    have herr : llOpenforkErrno rc ≠ 0 := fun h => hrc (llOpenforkErrno_eq_zero.1 h)
    have hnn := llOpenforkErrno_nonneg rc
    refine .failed hs₃ (by omega) ?_ ?_ ?_ ?_
    · simp [hc]
    · simp [hd]
    · simpa [ho] using hrc
    · simp [hds, ho, hcreated, llOpenforkErrno_eq_timedout]

end Open

/-! ## Files that were there -/

namespace ForkServer

variable {v v' : ForkServer} {r : Request} {c : ForkChoice}

/-- Every file is at its name still, and has its bytes unless they may change. -/
structure Spares (resizes : Prop) (v v' : ForkServer) : Prop where
  used : v.used ⊆ v'.used
  named : ∀ {did name i}, v.named did name = some i → v'.named did name = some i
  bytes : ¬resizes → ∀ i ∈ v.used, v'.bytes i = v.bytes i

theorem Spares.refl (resizes : Prop) (v : ForkServer) : Spares resizes v v :=
  ⟨fun _ h => h, fun h => h, fun _ _ _ => rfl⟩

/-- The requests that spare the files of `v`: no write, no delete of a name that holds one,
and a new length only where lengths may change. -/
def SparedBy (resizes : Prop) (v : ForkServer) : Request → Prop
  | .delete did name => v.named did name = none
  | .setForkParms .. => resizes
  | .write .. => False
  | _ => True

variable {resizes : Prop} {w w' : ForkServer} {node number : Nat}

theorem Spares.create (h : Spares resizes v w) {did : Nat} {name : Path} (hn : w.named did name = none)
    (hnode : node ∉ w.used) (bytes : Bool → Bytes) :
    Spares resizes v (w.create did name node bytes) := by
  refine ⟨fun i hi => mem_cons_of_mem _ (h.used hi), fun {did' name' i} hi => ?_, fun hr i hi => ?_⟩
  · have hw := h.named hi
    by_cases hd : did' = did
    · subst hd
      have hne : name' ≠ name := by
        rintro rfl
        simp [hn] at hw
      simpa [ForkServer.create, hne] using hw
    · simpa [ForkServer.create, hd] using hw
  · have hne : i ≠ node := by
      rintro rfl
      exact hnode (h.used hi)
    simpa [ForkServer.create, hne] using h.bytes hr i hi

theorem Spares.unlink (h : Spares resizes v w) {did : Nat} {name : Path}
    (hn : v.named did name = none) : Spares resizes v (w.unlink did name) := by
  refine ⟨h.used, fun {did' name' i} hi => ?_, h.bytes⟩
  have hw := h.named hi
  by_cases hd : did' = did
  · subst hd
    have hne : name' ≠ name := by
      rintro rfl
      simp [hn] at hi
    simpa [ForkServer.unlink, hne] using hw
  · simpa [ForkServer.unlink, hd] using hw

theorem Spares.carryOut (h : Spares resizes v w) (hr : SparedBy resizes v r)
    (hc : w.carryOut node number r = some w') : Spares resizes v w' := by
  unfold ForkServer.carryOut at hc
  split at hc
  · split at hc
    · next hn =>
      cases hc
      exact h.create hn.1 hn.2 _
    · cases hc
  · split at hc
    · cases hc
    · cases hc
      exact h.unlink hr
  · split at hc
    · cases hc
    · split at hc
      · next hn =>
        cases hc
        exact h.create hn.1 hn.2 _
      · cases hc
  · split at hc
    · cases hc
    · split at hc
      · cases hc
        exact ⟨h.used, h.named, h.bytes⟩
      · cases hc
  · cases hc
    exact ⟨h.used, h.named, h.bytes⟩
  · obtain ⟨⟨i, resource⟩, -, rfl⟩ := Option.map_eq_some_iff.1 hc
    exact ⟨h.used, h.named, fun hn => absurd hr hn⟩
  · cases hr
  · cases hc
  · cases hc
  · cases hc
    exact h

/-- What every request of a program spares, the program spares. -/
theorem Spares.serve (h : Spares resizes v w) {r : MlReq} {a : r.Ans}
    (hr : ∀ q, r = .sys q → SparedBy resizes v q) (hs : w.serve r c = some (a, w')) :
    Spares resizes v w' := by
  match r with
  | .did d =>
    cases hs
    exact h
  | .sys q =>
    obtain ⟨-, ⟨rfl, -⟩ | hc⟩ := serve_cases hs
    · exact h
    · exact h.carryOut (hr q rfl) hc

end ForkServer

section Spared

variable {vol : ServedVolume} {flags fp : Nat} {f : FileInfo} {s : MlState} {v w : ForkServer}

/-- The requests of an open after its create. -/
def MlReq.AfterCreate (vol : ServedVolume) (flags : Nat) (f : FileInfo) (created : Bool) :
    MlReq → Prop
  | .sys (.getFileDirParms ..) | .sys (.openFork ..) | .sys (.closeFork _) => True
  | .sys (.setForkParms ..) => flags &&& O_TRUNC ≠ 0
  | .sys (.delete d name) => created = true ∧ d = f.did ∧ name = vol.wireName f.basename
  | _ => False

theorem llOpenFail_within {failing : Bool} (h : failing = true → created = true) (ret : Int) :
    (llOpenFail vol f failing ret).Within (MlReq.AfterCreate vol flags f created) fun _ => True :=
  .ite (fun hf => ⟨⟨h hf, rfl, rfl⟩, fun _ => trivial⟩) fun _ => trivial

theorem llOpenQuery_within :
    (llOpenQuery vol fp f).Within (MlReq.AfterCreate vol flags f created) fun _ => True := by
  refine .ite (fun _ => trivial) fun _ => ⟨trivial, fun _ => ?_⟩
  exact .ite (fun _ => trivial) fun _ => .ite (fun _ => trivial) fun _ _ => trivial

theorem openforkInto_within {did : Nat} {name : Name} :
    (openforkInto vol resource did accessmode bitmap name fp).Within
      (MlReq.AfterCreate vol flags f created) fun _ => True :=
  ⟨trivial, fun _ => .ite (fun _ _ => trivial) fun _ => trivial⟩

theorem llOpenTruncate_within :
    (llOpenTruncate vol flags fp f created).Within (MlReq.AfterCreate vol flags f created)
      fun _ => True := by
  refine .ite (fun _ => trivial) fun h s => ?_
  have hsize : (llSetforkSize vol (s.file fp).forkid (f.resource != .none) 0).Within
      (MlReq.AfterCreate vol flags f created) fun _ => True :=
    .ite (fun _ => trivial) fun _ => ⟨fun ht => h (.inl ht), fun _ => trivial⟩
  refine hsize.bind fun ret _ => ?_
  refine .ite (fun _ => ⟨trivial, fun _ _ => ?_⟩) fun _ _ => trivial
  exact llOpenFail_within id _

theorem llOpenCreate_spares (resizes : Prop) :
    Wp serve (llOpenCreate vol flags f) s v fun r _ v' =>
      ForkServer.Spares resizes v v' ∧
        (r = .ok true → v.named f.did (vol.wireName f.basename) = none) := by
  refine .guard ⟨.refl _ v, nofun⟩ fun _ => ?_
  show Wp serve (send _ _) s v _
  rw [wp_send]
  intro c rc v' hs
  have hspares : ForkServer.Spares resizes v v' :=
    (ForkServer.Spares.refl resizes v).serve (fun q hq => by cases hq; trivial) hs
  refine .ite (fun h => wp_ret.2 ⟨hspares, fun _ => ?_⟩) fun _ => ?_
  · obtain ⟨-, ⟨-, hne⟩ | hc⟩ := serve_cases hs
    · exact absurd (createfileErrno_eq_zero.1 h) hne
    · exact (carryOut_createFile.1 hc).1
  · exact .guard ⟨hspares, nofun⟩ fun _ => wp_ret.2 ⟨hspares, nofun⟩

/-- An open spares the files that were there: it deletes none of them, and changes no length
without `O_TRUNC`. -/
theorem llOpen_spares :
    Wp serve (llOpen vol flags fp) s v fun _ _ v' =>
      ForkServer.Spares (flags &&& O_TRUNC ≠ 0) v v' := by
  refine .guard (.refl _ v) fun _ => ?_
  refine (llOpenCreate_spares (flags &&& O_TRUNC ≠ 0)).bind ?_
  rintro (e | created) s' w ⟨hw, hfree⟩
  · exact wp_ret.2 hw
  refine (Within.wp (?_ : Within (MlReq.AfterCreate vol flags (s.file fp) created) (fun _ => True) _)
    ?_ hw).mono fun _ _ _ h => h.2
  · refine .bind llOpenQuery_within fun ret _ => ?_
    refine .ite (fun _ => llOpenFail_within id _) fun _ _ => ?_
    refine openforkInto_within.bind fun rc _ => ?_
    exact .ite (fun _ _ => llOpenTruncate_within) fun _ =>
      llOpenFail_within (fun h => (Bool.and_eq_true_iff.1 h).1) _
  · intro w r c a w' hr hs hw
    refine hw.serve (fun q hq => ?_) hs
    subst hq
    cases q <;> simp only [MlReq.AfterCreate] at hr <;> try trivial
    · obtain ⟨hc, rfl, rfl⟩ := hr
      exact hfree (by rw [hc])

/-- Whatever the answers, an `ll_open` of a record that is not on the list leaves it there
if and only if it returns 0, closes each fork that it opened when it fails, and deletes the
name exactly when its own create was answered with success and it fails otherwise than by an
open without an answer. With a server of files, those that were there before stay, and keep
their lengths unless `O_TRUNC` is given. -/
theorem llOpen_correct (vol : ServedVolume) (flags fp : Nat) (s : MlState)
    (hfp : fp ∉ s.openForks) :
    (Wp (record MlReq.anyAnswer) (llOpen vol flags fp) s [] fun r s' log =>
      (fp ∈ s'.openForks ↔ r = 0) ∧
      (∀ reply, (kFPNoErr, reply) ∈ openAnswers log → r ≠ 0 → reply.forkid ∈ closes log) ∧
      deletes log =
        if kFPNoErr ∈ createAnswers log ∧ r ≠ 0 ∧ ∀ a ∈ openAnswers log, a.1 ≠ ETIMEDOUT then
          [((s.file fp).did, vol.wireName (s.file fp).basename)] else []) ∧
    ∀ v : ForkServer, Wp ForkServer.serve (llOpen vol flags fp) s v fun _ _ v' =>
      ∀ did name i, v.named did name = some i → v'.named did name = some i ∧
        (flags &&& O_TRUNC = 0 → ∀ resource, (v'.bytes i resource).length = (v.bytes i resource).length) := by
  constructor
  · refine llOpen_effects.mono ?_
    rintro r s' log ⟨more, hlog, h⟩
    subst hlog
    refine ⟨?_, fun reply hm hr => h.closed hr reply hm, h.deleted⟩
    rw [h.listed]
    split_ifs with hr <;> simp [hr, hfp]
  · refine fun v => llOpen_spares.mono fun _ _ v' h did name i hi => ⟨h.named hi, fun ht resource => ?_⟩
    rw [h.bytes (fun hne => hne ht) i (v.named_used hi)]

/-- A volume with an open fork. -/
def forkBeside : MlState :=
  { MlState.fresh with file := fun fp => if fp = 1 then { forkid := 7 } else {}, openForks := [1] }

/-- The fork opens, and cannot be truncated. -/
def truncateDenied : (r : MlReq) → r.Ans
  | .sys (.openFork ..) => (kFPNoErr, ⟨9, none, none⟩)
  | .sys (.setForkParms ..) => kFPAccessDenied
  | _ => default

/-- An open beside another one, which fails once its fork is open: the fork is closed again. -/
theorem llOpen_correct_beside : ∃ answers s log,
    run (record MlReq.anyAnswer) (llOpen plainServed (O_RDWR ||| O_TRUNC) 0) forkBeside [] answers =
      some (-EACCES, s, log, []) ∧
    0 ∉ s.openForks ∧ 9 ∈ closes log ∧ deletes log = [] := by
  have h := (llOpen_correct plainServed (O_RDWR ||| O_TRUNC) 0 forkBeside (by decide)).1
  have hrun : run (record MlReq.anyAnswer) (llOpen plainServed (O_RDWR ||| O_TRUNC) 0) forkBeside []
      (List.replicate 3 truncateDenied) = some (-EACCES, _, _, []) := rfl
  obtain ⟨hlisted, hclosed, hdeleted⟩ := h _ _ _ _ _ hrun
  refine ⟨_, _, _, hrun, fun hm => absurd (hlisted.1 hm) (by decide), ?_, hdeleted.trans ?_⟩
  · exact hclosed ⟨9, none, none⟩ (List.mem_cons_self ..) (by decide)
  · exact if_neg fun h => absurd h.1 nofun

end Spared

end NC
