import NetatalkClient.Model.Midlevel.CopyRange
import NetatalkClient.Proof.Midlevel.Addressed

/-!
# Calls that leave the records of forks alone

A record says which fork it is open on (`FileInfo.identity`): the file, the fork's kind and
its number. Reading, writing, flushing and sizing a fork change none of this, of any record,
put nothing on the list of open forks or off it, and send requests about the record's object and
requests that name none. What allows those requests and is kept by such changes (`Tends`), each of
these calls keeps; that the records stay as they are (`Leaves`), whatever answers, is one case.
-/

namespace NC

open Prog MlReq

/-- The fork that a record is open on. -/
def FileInfo.identity (f : FileInfo) : Nat × Name × MetaKind × Nat :=
  (f.did, f.basename, f.resource, f.forkid)

theorem forkid_of_identity {f g : FileInfo} (h : f.identity = g.identity) :
    f.forkid = g.forkid ∧ f.resource = g.resource :=
  ⟨congrArg (·.2.2.2) h, congrArg (·.2.2.1) h⟩

/-- The list is as it was, and so are the forks of the records below `n`. -/
structure Still (n : Nat) (s s' : MlState) : Prop where
  nextFile : s.nextFile ≤ s'.nextFile
  listed : s'.openForks = s.openForks
  records : ∀ p < n, (s'.file p).identity = (s.file p).identity

theorem Still.refl (n : Nat) (s : MlState) : Still n s s := ⟨Nat.le_refl _, rfl, fun _ _ => rfl⟩

variable {s : MlState} {c : Prop} {name : Name} {position remaining fuel : Nat} {data : Bytes}

theorem Still.trans {n : Nat} {t u : MlState} (h : Still n s t) (h' : Still n t u) : Still n s u :=
  ⟨Nat.le_trans h.nextFile h'.nextFile, h'.listed.trans h.listed,
    fun p hp => (h'.records p hp).trans (h.records p hp)⟩

section Rules

variable {V C α β : Type} (serve : V → (r : MlReq) → C → Option (r.Ans × V)) (n : Nat)

/-- A call leaves the list and the forks of the records below `n` as they are; its own
records are new ones. -/
def Leaves (p : MlCall α) : Prop := Relates serve (fun s s' => n ≤ s.nextFile → Still n s s') p

variable {serve n}

theorem Leaves.ret (a : α) : Leaves serve n (ret a) := Relates.ret (fun s _ => .refl n s) a

theorem Leaves.request (r : MlReq) : Leaves serve n (request r) :=
  Relates.request (fun s _ => .refl n s) r

theorem Leaves.bind {p : MlCall α} {g : α → MlCall β} (hp : Leaves serve n p)
    (hg : ∀ a, Leaves serve n (g a)) : Leaves serve n (p >>= g) :=
  Relates.bind (fun _ _ _ h h' hn => (h hn).trans (h' (Nat.le_trans hn (h hn).nextFile))) hp hg

theorem Leaves.ite [Decidable c] {p q : MlCall α} (hp : c → Leaves serve n p)
    (hq : ¬c → Leaves serve n q) : Leaves serve n (if c then p else q) := Relates.ite hp hq

theorem Leaves.guard [Decidable c] {a : α} {p : MlCall α} (hp : ¬c → Leaves serve n p) :
    Leaves serve n (if c then Prog.ret a else p) := .ite (fun _ => .ret a) hp

theorem Leaves.choice [Decidable c] {p q : MlCall α} {g : α → MlCall β}
    (hp : Leaves serve n p) (hq : Leaves serve n q) (hg : ∀ a, Leaves serve n (g a)) :
    Leaves serve n (if c then p >>= g else q >>= g) := .ite (fun _ => hp.bind hg) fun _ => hq.bind hg

theorem Leaves.wp {p : MlCall α} (h : Leaves serve n p) (hs : n ≤ s.nextFile) (v : V) :
    Wp serve p s v fun _ s' _ => Still n s s' := (h s v).mono fun _ _ _ h => h hs

theorem Leaves.getFile (fp : Nat) : Leaves serve n (Ml.getFile fp) :=
  .modifyGet fun s _ => .refl n s

theorem Leaves.modify {f : MlState → MlState} (hnext : ∀ s, (f s).nextFile = s.nextFile)
    (hlisted : ∀ s, (f s).openForks = s.openForks)
    (hfile : ∀ s p, ((f s).file p).identity = (s.file p).identity) : Leaves serve n (Prog.modify f) :=
  fun s _ => wp_modify.2 fun _ => ⟨Nat.le_of_eq (hnext s).symm, hlisted s, fun p _ => hfile s p⟩

theorem identity_update {file : Nat → FileInfo} {p : Nat} {f : FileInfo}
    (h : f.identity = (file p).identity) (q : Nat) :
    (Function.update file p f q).identity = (file q).identity := by
  by_cases hq : q = p
  · subst hq
    rw [Function.update_self, h]
  · rw [Function.update_of_ne hq]

theorem Leaves.modifyFile {fp : Nat} {g : FileInfo → FileInfo} (h : ∀ f, (g f).identity = f.identity) :
    Leaves serve n (Ml.modifyFile fp g) :=
  .modify (fun _ => rfl) (fun _ => rfl) fun _ p => identity_update (h _) p

end Rules

/-! ## What a call on a fork keeps -/

/-- The request gives an object another name or folder. -/
def Request.Moves : Request → Prop
  | .moveAndRename .. => True
  | _ => False

/-- A request that names no object. -/
def Request.Nameless (r : Request) : Prop := ∀ names, r.NamesBy names

/-- A request that reading a fork can send. -/
def MlReq.forReading : MlReq → Bool
  | .sys (.createFile ..) | .sys (.delete ..) | .sys (.copyFile ..) | .sys (.openFork ..)
  | .sys (.closeFork _) | .sys (.syncFork _) | .sys (.setForkParms ..) | .sys (.write ..)
  | .sys (.exchangeFiles ..) | .sys (.moveAndRename ..) => false
  | _ => true

/-- Requests of the kind about the object may be sent. -/
def MaySend (vol : ServedVolume) (kind : Request → Prop) (ok : MlReq → Prop) (did : Nat) (name : Name) :
    Prop :=
  ∀ {r : Request}, kind r → r.NamesBy (· = ⟨did, vol.wireName name⟩) → ok (.sys r)

/-- `I` stays true while the records stay on their forks, and allows the requests of the kind that
name the object of the record at `fp` or none. -/
structure Tends (vol : ServedVolume) (fp : Nat) (kind : Request → Prop) (ok : MlReq → Prop)
    (I : MlState → Prop) : Prop where
  frame : ∀ {s s' : MlState}, I s → s'.nextFile = s.nextFile → s'.openForks = s.openForks →
    (∀ q, (s'.file q).identity = (s.file q).identity) → I s'
  named : ∀ {s : MlState}, I s → MaySend vol kind ok (s.file fp).did (s.file fp).basename
  nameless : ∀ {r : Request}, kind r → r.Nameless → ok (.sys r)

/-- What the calls that only read need, and what the others need. -/
abbrev TendsReading (vol : ServedVolume) (fp : Nat) (ok : MlReq → Prop) (I : MlState → Prop) : Prop :=
  Tends vol fp (fun r => MlReq.forReading (.sys r) = true) ok I

abbrev TendsWriting (vol : ServedVolume) (fp : Nat) (ok : MlReq → Prop) (I : MlState → Prop) : Prop :=
  Tends vol fp (fun r => ¬r.Moves) ok I

/-- `I` is kept, and every request allowed. -/
abbrev Keeping (I : MlState → Prop) (ok : MlReq → Prop) {α : Type} (p : MlCall α) : Prop :=
  p.Keeps I ok fun _ => True

section Rules

variable {vol : ServedVolume} {fp : Nat} {kind : Request → Prop} {ok : MlReq → Prop}
  {I : MlState → Prop} {α β : Type}

theorem keeps_seq {p : MlCall α} {g : α → MlCall β} (hp : Keeping I ok p)
    (hg : ∀ a, Keeping I ok (g a)) : Keeping I ok (p >>= g) :=
  hp.bind fun a _ => hg a

theorem keeps_try {ε : Type} {p : MlCall (Except ε α)} {g : Except ε α → MlCall β}
    (hp : Keeping I ok p) (herr : ∀ e, Keeping I ok (g (.error e)))
    (hok : ∀ a, Keeping I ok (g (.ok a))) : Keeping I ok (p >>= g) :=
  keeps_seq hp fun | .error e => herr e | .ok a => hok a

theorem keeps_ite_seq [Decidable c] {p q : MlCall α} {g : α → MlCall β} (hp : Keeping I ok p)
    (hq : Keeping I ok q) (hg : ∀ a, Keeping I ok (g a)) :
    Keeping I ok (if c then p >>= g else q >>= g) :=
  .ite (fun _ => keeps_seq hp hg) fun _ => keeps_seq hq hg

theorem MlReq.not_moves_of_forReading {r : Request} (h : forReading (.sys r) = true) :
    ¬r.Moves := by
  cases r <;> first | exact id | cases h

theorem TendsWriting.reading (F : TendsWriting vol fp ok I) : TendsReading vol fp ok I where
  frame := F.frame
  named hs _ hr := F.named hs (not_moves_of_forReading hr)
  nameless hr := F.nameless (not_moves_of_forReading hr)

theorem Tends.getFile (F : Tends vol fp kind ok I) {g : FileInfo → MlCall α}
    (h : ∀ f : FileInfo, MaySend vol kind ok f.did f.basename → Keeping I ok (g f)) :
    Keeping I ok (Ml.getFile fp >>= g) :=
  fun s hs => ⟨hs, h (s.file fp) (F.named hs)⟩

theorem Tends.modifyGet (F : Tends vol fp kind ok I) {f : MlState → α × MlState}
    (hnext : ∀ s, (f s).2.nextFile = s.nextFile) (hlisted : ∀ s, (f s).2.openForks = s.openForks)
    (hfile : ∀ s p, ((f s).2.file p).identity = (s.file p).identity) :
    Keeping I ok (Prog.modifyGet f) :=
  fun s hs => ⟨F.frame hs (hnext s) (hlisted s) (hfile s), trivial⟩

theorem Tends.modifyFile (F : Tends vol fp kind ok I) {p : Nat} {g : FileInfo → FileInfo}
    (h : ∀ f, (g f).identity = f.identity) : Keeping I ok (Ml.modifyFile p g) :=
  fun _ hs => ⟨F.frame hs rfl rfl fun q => identity_update (h _) q, trivial⟩

theorem Tends.sys (F : Tends vol fp kind ok I) {r : Request} (h : kind r) (hr : r.Nameless) :
    Keeping I ok (Ml.sys r) := ⟨F.nameless h hr, fun _ => trivial⟩

theorem MaySend.sys {did : Nat} (h : MaySend vol kind ok did name) {r : Request} (hk : kind r)
    (hr : r.NamesBy (· = ⟨did, vol.wireName name⟩)) : Keeping I ok (Ml.sys r) :=
  ⟨h hk hr, fun _ => trivial⟩

end Rules

/-! ## Flushes -/

theorem collectDirty_identity (reallocs : Nat → Bool) (fp : Nat) (ps : List Nat) :
    ∀ (records : List FileInfo) (capacity k : Nat) (file : Nat → FileInfo) (p : Nat),
      ((collectDirty reallocs fp ps records capacity k file).2 p).identity = (file p).identity := by
  induction ps with
  | nil => exact fun _ _ _ _ _ => rfl
  | cons q ps ih =>
    intro records capacity k file p
    have hclean : ((Function.update file q { file q with dirty := false }) p).identity =
        (file p).identity := identity_update (f := { file q with dirty := false }) rfl p
    simp only [collectDirty]
    split
    · exact ih ..
    split
    · exact (ih ..).trans hclean
    split
    · exact (ih ..).trans hclean
    · exact ih ..

theorem markDirty_identity (r : FileInfo) (s : MlState) (p : Nat) :
    ((markDirty r s).file p).identity = (s.file p).identity := by
  unfold markDirty
  split
  · next q _ => exact identity_update (f := { s.file q with dirty := true }) rfl p
  · rfl

theorem markDirty_listed (r : FileInfo) (s : MlState) :
    (markDirty r s).nextFile = s.nextFile ∧ (markDirty r s).openForks = s.openForks := by
  unfold markDirty
  split <;> exact ⟨rfl, rfl⟩

section Reading

variable {vol : ServedVolume} {fp : Nat} {ok : MlReq → Prop} {I : MlState → Prop}
  (F : TendsReading vol fp ok I)
include F

theorem flushRecords_tends (rs : List FileInfo) : Keeping I ok (flushRecords rs) := by
  induction rs with
  | nil => trivial
  | cons r rs ih =>
    refine keeps_seq (F.sys rfl fun _ => trivial) fun rc => .ite (fun _ => ?_) fun _ => ih
    refine keeps_seq (fun s hs => ⟨?_, trivial⟩) fun _ => ih
    exact F.frame hs (markDirty_listed r s).1 (markDirty_listed r s).2 (markDirty_identity r s)

theorem flushDirtyForksForFile_tends (p : Nat) : Keeping I ok (flushDirtyForksForFile p) := by
  refine keeps_seq (F.sys rfl fun _ => trivial) fun reallocs => keeps_seq ?_ fun _ => flushRecords_tends F _
  exact F.modifyGet (fun _ => rfl) (fun _ => rfl) fun s q => collectDirty_identity reallocs p _ _ _ _ _ q

theorem llHandleUnlocking_tends (forkid offset size : Nat) :
    Keeping I ok (llHandleUnlocking vol forkid offset size) :=
  .guard fun _ => keeps_seq (F.sys rfl fun _ => trivial) fun _ => trivial

theorem lockTries_tends (forkid offset size tries : Nat) :
    Keeping I ok (lockTries forkid offset size tries) := by
  induction tries with
  | zero => trivial
  | succ tries ih =>
    refine keeps_seq (F.sys rfl fun _ => trivial) fun rc => .guard fun _ => ?_
    exact .ite (fun _ => ih) fun _ => trivial

theorem llHandleLocking_tends (forkid offset size : Nat) :
    Keeping I ok (llHandleLocking vol forkid offset size) :=
  .guard fun _ => lockTries_tends F ..

theorem llReadLoop_tends (forkid offset size fuel : Nat) (data : Bytes) :
    Keeping I ok (llReadLoop vol forkid offset size fuel data) := by
  induction fuel generalizing data with
  | zero => trivial
  | succ fuel ih =>
    refine .guard fun _ => ?_
    refine keeps_seq (keeps_seq (F.sys rfl fun _ => trivial) fun _ => trivial) fun x => ?_
    refine .guard fun _ => .guard fun _ => ?_
    refine .guard fun _ => .guard fun _ => ?_
    exact .guard fun _ => ih _

theorem llReadLocked_tends (forkid offset size : Nat) :
    Keeping I ok (llReadLocked vol forkid offset size) := by
  refine keeps_seq (llHandleLocking_tends F ..) fun _ => .guard fun _ => ?_
  refine keeps_seq (llReadLoop_tends F ..) fun x => ?_
  cases x with
  | error e => exact keeps_seq (llHandleUnlocking_tends F ..) fun _ => trivial
  | ok x =>
    refine keeps_seq (llHandleUnlocking_tends F ..) fun _ => .ite (fun _ => ?_) fun _ => trivial
    exact keeps_seq (llHandleUnlocking_tends F ..) fun _ => trivial

/-- `ll_read` from the check of the quantum on. -/
def llReadRest (vol : ServedVolume) (size : Nat) (offset : Int) (f : FileInfo) :
    MlCall ReadResult := do
  if vol.quantum = 0 then return .error (-EIO_)
  let offset := offset.toNat
  if vol.avNumber < 30 then
    if maxAfp2Filesize < offset then
      match ← afp2ForkReaches vol f offset with
      | .error e => return .error e
      | .ok true => return .error (-EOVERFLOW)
      | .ok false => return .ok ([], true)
    else llReadLocked vol f.forkid offset (min (min size intMax31) (maxAfp2Filesize - offset + 1))
  else llReadLocked vol f.forkid offset (min size intMax31)

theorem llRead_tends {size : Nat} {offset : Int} : Keeping I ok (llRead vol size offset fp) := by
  refine F.getFile fun f h => .guard fun _ => ?_
  refine .guard fun _ => .guard fun _ => ?_
  have hreaches (offset : Nat) : Keeping I ok (afp2ForkReaches vol f offset) := by
    refine .ite (fun _ => keeps_seq (h.sys rfl rfl) fun x => ?_) fun _ => trivial
    exact .guard fun _ => trivial
  have hrest : Keeping I ok (llReadRest vol size offset f) := by
    refine .guard fun _ => .ite (fun _ => ?_) fun _ => llReadLocked_tends F ..
    refine .ite (fun _ => keeps_seq (hreaches _) fun x => ?_) fun _ => llReadLocked_tends F ..
    rcases x with _ | (_ | _) <;> trivial
  exact .ite (fun _ => keeps_seq (flushDirtyForksForFile_tends F fp) fun _ => hrest) fun _ => hrest

theorem ensureDtOpened_tends : Keeping I ok ensureDtOpened := by
  have hset (g : MlState → MlState) (hg : ∀ s, (g s).nextFile = s.nextFile ∧
      (g s).openForks = s.openForks ∧ (g s).file = s.file) : Keeping I ok (Prog.modify g) :=
    fun s hs => ⟨F.frame hs (hg s).1 (hg s).2.1 fun q => by rw [(hg s).2.2], trivial⟩
  refine keeps_seq (F.modifyGet (fun _ => rfl) (fun _ => rfl) fun _ _ => rfl) fun a => ?_
  refine .guard fun _ => .guard fun _ => ?_
  refine keeps_seq (F.sys rfl fun _ => trivial) fun a => .ite (fun _ => ?_) fun _ => ?_
  · exact keeps_seq (hset _ fun _ => ⟨rfl, rfl, rfl⟩) fun _ => trivial
  · exact .guard fun _ => keeps_seq (hset _ fun _ => ⟨rfl, rfl, rfl⟩) fun _ => trivial

theorem Tends.withDesktop {α β : Type} {f : MlState → β} {g : β → MlCall α}
    (hg : ∀ a, Keeping I ok (g a)) : Keeping I ok (Prog.modifyGet (fun s => (f s, s)) >>= g) :=
  keeps_seq (F.modifyGet (fun _ => rfl) (fun _ => rfl) fun _ _ => rfl) hg

theorem readComment_tends {did : Nat}
    (h : MaySend vol (fun r => forReading (.sys r) = true) ok did name) :
    Keeping I ok (readComment vol name did) := by
  refine keeps_seq (ensureDtOpened_tends F) fun _ => .guard fun _ => ?_
  exact Tends.withDesktop F fun _ => keeps_seq (h.sys rfl rfl) fun _ => trivial

theorem appledoubleRead_tends {size : Nat} {offset : Int} :
    Keeping I ok (appledoubleRead vol fp size offset) := by
  refine F.getFile fun f h => ?_
  match f.resource with
  | .resource =>
    refine keeps_seq (llRead_tends F) fun x => ?_
    cases x <;> trivial
  | .finderinfo =>
    refine .guard fun _ => keeps_seq (h.sys rfl rfl) fun _ => ?_
    exact .guard fun _ => trivial
  | .comment =>
    refine keeps_try (readComment_tends F h) (fun _ => trivial) fun comment => ?_
    exact .guard fun _ => trivial
  | .serverIcon => exact .guard fun _ => trivial
  | .appledouble | .none => trivial

theorem mlRead_tends {size : Nat} {offset : Int} : Keeping I ok (mlRead vol size offset fp) := by
  refine F.getFile fun f _ => keeps_ite_seq trivial (appledoubleRead_tends F) fun viewed => ?_
  rcases viewed with _ | (_ | _)
  · trivial
  · exact llRead_tends F
  · trivial

theorem resourceforkLoop_tends {size : Nat} :
    Keeping I ok (resourceforkLoop vol fp size position remaining fuel data) := by
  induction fuel generalizing data with
  | zero => trivial
  | succ fuel ih =>
    refine .guard fun _ => keeps_seq (appledoubleRead_tends F) fun x => ?_
    rcases x with _ | (_ | x)
    · trivial
    · trivial
    · exact .guard fun _ => .guard fun _ => ih

end Reading

/-! ## Writes -/

section Writing

variable {vol : ServedVolume} {fp : Nat} {ok : MlReq → Prop} {I : MlState → Prop}
  (F : TendsWriting vol fp ok I)
include F

theorem mlFsync_tends : Keeping I ok (mlFsync vol fp) := by
  refine F.getFile fun f _ => .guard fun _ => .guard fun _ => ?_
  refine keeps_seq (F.modifyFile fun _ => rfl) fun _ => ?_
  refine keeps_ite_seq (F.sys id fun _ => trivial) trivial fun rc => ?_
  refine keeps_ite_seq (F.sys id fun _ => trivial) trivial fun rc => ?_
  refine .guard fun _ => .ite (fun _ => ?_) fun _ => trivial
  exact keeps_seq (F.modifyFile fun _ => rfl) fun _ => trivial

theorem mlCloseFlush_tends : Keeping I ok (mlCloseFlush vol fp) :=
  F.getFile fun _ _ => .guard fun _ => mlFsync_tends F

theorem llWriteLoop_tends (forkid offset p : Nat) (data : Bytes) (fuel total : Nat) :
    Keeping I ok (llWriteLoop vol forkid offset p data fuel total) := by
  induction fuel generalizing total with
  | zero => trivial
  | succ fuel ih =>
    refine .guard fun _ => keeps_seq (F.sys id fun _ => trivial) fun x => ?_
    refine .guard fun _ => .guard fun _ => ?_
    exact keeps_seq (F.modifyFile fun _ => rfl) fun _ => ih _

theorem llWrite_tends {offset : Int} : Keeping I ok (llWrite vol data offset fp) := by
  refine F.getFile fun f _ => .guard fun _ => .guard fun _ => ?_
  refine .guard fun _ => keeps_seq (llHandleLocking_tends F.reading ..) fun _ => ?_
  refine .guard fun _ => keeps_seq (llWriteLoop_tends F ..) fun x => ?_
  refine keeps_seq (llHandleUnlocking_tends F.reading ..) fun _ => .guard fun _ => ?_
  exact .ite (fun _ => keeps_seq (llHandleUnlocking_tends F.reading ..) fun _ => trivial) fun _ => trivial

theorem llSetforkSize_tends (forkid : Nat) (resource : Bool) (size : Nat) :
    Keeping I ok (llSetforkSize vol forkid resource size) :=
  .guard fun _ => keeps_seq (F.sys id fun _ => trivial) fun _ => trivial

/-! ## The view's pseudo-files -/

theorem setCommentLength_tends {did : Nat} (length : Int)
    (h : MaySend vol (fun r => ¬r.Moves) ok did name) :
    Keeping I ok (setCommentLength vol name did length) := by
  have hread : Keeping I ok (readComment vol name did) :=
    readComment_tends F.reading fun hr => h (not_moves_of_forReading hr)
  refine .guard fun _ => .guard fun _ => ?_
  refine keeps_seq (ensureDtOpened_tends F.reading) fun _ => .guard fun _ => ?_
  refine keeps_ite_seq hread trivial fun kept => ?_
  cases kept with
  | error e => trivial
  | ok comment => exact Tends.withDesktop F.reading fun _ => keeps_seq (h.sys id rfl) fun _ => trivial

theorem appledoubleWrite_tends {offset : Int} :
    Keeping I ok (appledoubleWrite vol fp data offset) := by
  refine F.getFile fun f h => ?_
  match f.resource with
  | .resource => exact keeps_seq (llWrite_tends F) fun _ => trivial
  | .finderinfo =>
    refine .guard fun _ => keeps_seq (h.sys id rfl) fun _ => ?_
    exact .guard fun _ => keeps_seq (h.sys id rfl) fun _ => trivial
  | .comment =>
    refine .guard fun _ => .guard fun _ => .guard fun _ => ?_
    have hread := readComment_tends F.reading fun hr => h (not_moves_of_forReading hr)
    refine keeps_try hread (fun _ => trivial) fun comment => ?_
    exact Tends.withDesktop F.reading fun _ => keeps_seq (h.sys id rfl) fun _ => trivial
  | .appledouble | .serverIcon | .none => trivial

/-! ## The calls on a handle -/

theorem mlWrite_tends {offset : Int} : Keeping I ok (mlWrite vol data offset fp) := by
  refine .guard fun _ => keeps_seq (appledoubleWrite_tends F) fun _ => ?_
  refine .guard fun _ => .guard fun _ => ?_
  refine keeps_seq (llWrite_tends F) fun _ => .guard fun _ => ?_
  exact keeps_seq (F.modifyFile fun _ => rfl) fun _ => trivial

theorem mlFtruncate_tends {offset : Int} : Keeping I ok (mlFtruncate vol fp offset) := by
  have hview : Keeping I ok (appledoubleFtruncate vol fp offset) := by
    refine F.getFile fun f h => ?_
    match f.resource with
    | .comment => exact keeps_seq (setCommentLength_tends F offset h) fun _ => trivial
    | .finderinfo | .serverIcon | .appledouble | .resource | .none => trivial
  refine .guard fun _ => keeps_seq hview fun _ => ?_
  refine .guard fun _ => .guard fun _ => ?_
  refine F.getFile fun f _ => .guard fun _ => ?_
  refine keeps_seq (llSetforkSize_tends F ..) fun _ => .ite (fun _ => ?_) fun _ => trivial
  exact keeps_seq (F.modifyFile fun _ => rfl) fun _ => trivial

end Writing

/-! ## The records stay -/

section Calls

variable {V C : Type} {serve : V → (r : MlReq) → C → Option (r.Ans × V)} {n : Nat}
  {vol : ServedVolume} {fp : Nat}

/-- What keeps whatever such calls keep leaves the records alone. -/
theorem Leaves.of_tends (vol : ServedVolume) (fp : Nat) {α : Type} {p : MlCall α}
    (h : ∀ {I}, TendsWriting vol fp (fun _ => True) I → Keeping I (fun _ => True) p) :
    Leaves serve n p := by
  intro s v cs a s' v' cs' hrun _
  have F : TendsWriting vol fp (fun _ => True) (Still n s) :=
    ⟨fun hs hnext hlisted hfile => hs.trans ⟨Nat.le_of_eq hnext.symm, hlisted, fun p _ => hfile p⟩,
      fun _ _ _ _ => trivial, fun _ _ => trivial⟩
  exact ((h F).wp (I := fun _ => True) (.refl n s) (fun _ _ _ _ _ _ _ _ => trivial) trivial
    cs a s' v' cs' hrun).2.1

theorem mlFsync_leaves : Leaves serve n (mlFsync vol fp) := .of_tends vol fp mlFsync_tends

theorem mlCloseFlush_leaves : Leaves serve n (mlCloseFlush vol fp) := .of_tends vol fp mlCloseFlush_tends

theorem ensureDtOpened_leaves (vol : ServedVolume) : Leaves serve n ensureDtOpened :=
  .of_tends vol 0 fun F => ensureDtOpened_tends F.reading

theorem setCommentLength_leaves {did : Nat} {length : Int} :
    Leaves serve n (setCommentLength vol name did length) :=
  .of_tends vol 0 fun F => setCommentLength_tends F length fun _ _ => trivial

theorem appledoubleWrite_leaves {offset : Nat} :
    Leaves serve n (appledoubleWrite vol fp data offset) :=
  .of_tends vol fp fun F => appledoubleWrite_tends F

theorem appledoubleRead_leaves {size : Nat} {offset : Int} :
    Leaves serve n (appledoubleRead vol fp size offset) :=
  .of_tends vol fp fun F => appledoubleRead_tends F.reading

theorem resourceforkLoop_leaves {size : Nat} :
    Leaves serve n (resourceforkLoop vol fp size position remaining fuel data) :=
  .of_tends vol fp fun F => resourceforkLoop_tends F.reading

theorem mlRead_leaves {size : Nat} {offset : Int} : Leaves serve n (mlRead vol size offset fp) :=
  .of_tends vol fp fun F => mlRead_tends F.reading

theorem mlWrite_leaves {offset : Int} : Leaves serve n (mlWrite vol data offset fp) :=
  .of_tends vol fp fun F => mlWrite_tends F

theorem mlFtruncate_leaves {offset : Int} : Leaves serve n (mlFtruncate vol fp offset) :=
  .of_tends vol fp fun F => mlFtruncate_tends F

variable {fpIn fpOut len : Nat} {offIn offOut : Int} {path : Path} {basename : Name}

theorem copyLoop_leaves {copied : Nat} :
    Leaves serve n (copyLoop vol fpIn offIn fpOut offOut len fuel copied) := by
  induction fuel generalizing copied with
  | zero => exact .ret _
  | succ fuel ih =>
    refine .guard fun _ => .bind mlRead_leaves fun r => ?_
    match r with
    | .error e => exact .ret _
    | .ok (data, eof) =>
      refine .guard fun _ => .bind mlWrite_leaves fun _ => ?_
      exact .guard fun _ => .guard fun _ => ih

theorem copyRangeThroughClient_leaves :
    Leaves serve n (copyRangeThroughClient vol fpIn offIn fpOut offOut len) :=
  .bind (.request _) fun _ => .guard fun _ => copyLoop_leaves

theorem afpRead_leaves {forkid offset count : Nat} :
    Leaves serve n (Ml.afpRead forkid offset count) := .bind (.request _) fun _ => .ret _

/-! ## The calls on a path -/

theorem extraTranslate_leaves : Leaves serve n (extraTranslate vol path) := by
  unfold extraTranslate
  split
  · exact .ret _
  · exact .ret _
  · exact .bind (.request _) fun _ => .guard fun _ => .ret _

theorem appledoubleRefuse_leaves : Leaves serve n (appledoubleRefuse vol path) := by
  refine .bind extraTranslate_leaves fun r => ?_
  match r with
  | .error e => exact .ret _
  | .ok (kind, _) => cases kind <;> exact .ret _

theorem llCreatefile_leaves {did : Nat} :
    Leaves serve n (llCreatefile vol did basename) := .bind (.request _) fun _ => .ret _

theorem setParameters_leaves {did bitmap : Nat} {e : Params} :
    Leaves serve n (setParameters vol did basename bitmap e) :=
  .choice (.request _) (.request _) fun _ => .ret _

theorem mlCreat_leaves : Leaves serve n (mlCreat vol path) := by
  unfold mlCreat
  match vol.convertPath path with
  | .error e => exact .ret _
  | .ok converted =>
    refine .guard fun _ => .bind ?_ fun _ => ?_
    · refine .bind extraTranslate_leaves fun r => ?_
      match r with
      | .error e | .ok (kind, _) => exact .ret _
    refine .guard fun _ => .guard fun _ => .guard fun _ => ?_
    refine .bind (.request _) fun r => ?_
    match r with
    | .error e => exact .ret _
    | .ok (dirid, basename) => exact llCreatefile_leaves

theorem llGetattr_leaves {resource : Bool} : Leaves serve n (llGetattr vol path resource) := by
  refine .guard fun _ => .bind (.request _) fun r => ?_
  match r with
  | .error e => exact .ret _
  | .ok (dirid, basename) =>
    refine .bind (.request _) fun a => .guard fun _ => .guard fun _ => ?_
    refine .guard fun _ => ?_
    exact .ite (fun _ => .bind (.request _) fun _ => .ret _) fun _ => .ret _

end Calls

end NC
