import NetatalkClient.Proof.Did.Lookup

/-!
# Renaming on a server that may refuse anything

The server's tree is a map from an object's folder and name to its contents.
Each `FPExchangeFiles`, `FPMoveAndRename` and `FPDelete` is either carried out
and answered `kFPNoErr`, or changes nothing and is answered with any other
code (`Tree.answers`); a lookup may be refused too. `mlRename_keeps_iff` says
exactly when a rename of a file keeps the file's contents: in terms of the
volume, the two names and the server's decisions, in their order.
-/

namespace NC

open Function

variable {κ : Type}

/-- A server's tree of files with contents `κ`, and which names are folders. -/
structure Tree (κ : Type) where
  files : ObjName → Option κ
  folders : ObjName → Bool

/-- What the server decides at one request. -/
inductive Choice where
  | carryOut
  | refuse (rc : Int)
  | parms (valid cnid : Nat)
  | memory (ok : Bool)
  | time (t : Nat)
  deriving DecidableEq, Repr

namespace Tree

/-- The files once a request is carried out, or `none` for a request that cannot
be: an exchange needs both files, a move and a delete need theirs. -/
def carry (t : Tree κ) : Req → Option (ObjName → Option κ)
  | .exchangeFiles srcDid dstDid src dst =>
    match t.files ⟨srcDid, src⟩, t.files ⟨dstDid, dst⟩ with
    | some c, some d =>
      some (update (update t.files ⟨srcDid, src⟩ (some d)) ⟨dstDid, dst⟩ (some c))
    | _, _ => none
  | .moveAndRename srcDid dstDid src [] newName =>
    match t.files ⟨srcDid, src⟩ with
    | some c =>
      some (update (update t.files ⟨srcDid, src⟩ none) ⟨dstDid, newName⟩ (some c))
    | none => none
  | .delete did name =>
    match t.files ⟨did, name⟩ with
    | some _ => some (update t.files ⟨did, name⟩ none)
    | none => none
  | _ => none

/-- The answer to a request to change the tree. -/
def answers (t : Tree κ) (r : Req) : Choice → Option (Int × Tree κ)
  | .carryOut => (t.carry r).map fun files => (kFPNoErr, ⟨files, t.folders⟩)
  | .refuse rc => if rc = kFPNoErr then none else some (rc, t)
  | _ => none

/-- The server, with the clock and the allocator. A lookup it does not refuse
says truly whether the name is a folder. -/
def serve (t : Tree κ) : (r : Req) → Choice → Option (r.Ans × Tree κ)
  | .alloc, .memory ok => some (ok, t)
  | .now, .time s => some (s, t)
  | .getFileDirParms did _ _ name, .parms valid cnid =>
    some ((kFPNoErr, ⟨t.folders ⟨did, name⟩, valid, cnid⟩), t)
  | .getFileDirParms .., .refuse rc =>
    if rc = kFPNoErr then none else some ((rc, ⟨false, 0, 0⟩), t)
  | .delete did name, c => t.answers (.delete did name) c
  | .exchangeFiles srcDid dstDid src dst, c => t.answers (.exchangeFiles srcDid dstDid src dst) c
  | .moveAndRename srcDid dstDid src dst newName, c =>
    t.answers (.moveAndRename srcDid dstDid src dst newName) c
  | _, _ => none

variable {t t' : Tree κ} {r : Req} {rc : Int} {files : ObjName → Option κ}

/-- The rest of a run, from the decision on a request on. -/
def onDecision {β : Type} (t : Tree κ) (r : Req) (k : Int → Tree κ → List Choice → Option β) :
    List Choice → Option β
  | [] => none
  | c :: cs => (t.answers r c).bind fun x => k x.1 x.2 cs

theorem onDecision_cases {β : Type} {k : Int → Tree κ → List Choice → Option β} {cs : List Choice} {x : β}
    (h : t.onDecision r k cs = some x) :
    (∃ files cs', cs = .carryOut :: cs' ∧ t.carry r = some files ∧
      k kFPNoErr ⟨files, t.folders⟩ cs' = some x) ∨
    ∃ rc cs', cs = .refuse rc :: cs' ∧ rc ≠ kFPNoErr ∧ k rc t cs' = some x := by
  cases cs with
  | nil => cases h
  | cons c cs =>
    obtain ⟨⟨rc, t₁⟩, ha, hk⟩ := Option.bind_eq_some_iff.1 h
    cases c <;> simp only [answers, Option.map_eq_some_iff, reduceCtorEq] at ha
    case carryOut =>
      obtain ⟨files, hf, rfl, rfl⟩ := ha
      exact .inl ⟨files, cs, rfl, hf, hk⟩
    case refuse rc' =>
      split at ha <;> cases ha
      exact .inr ⟨rc, cs, rfl, ‹_›, hk⟩

/-- The request that deletes the object `o`. -/
def deleteReq (o : ObjName) : Req := .delete o.did o.name

/-- The request that exchanges the files `a` and `b`. -/
def exchangeReq (a b : ObjName) : Req := .exchangeFiles a.did b.did a.name b.name

/-- The request that moves the object `a` to the name `b`. -/
def moveReq (a b : ObjName) : Req := .moveAndRename a.did b.did a.name [] b.name

theorem carry_delete {t : Tree κ} {o : ObjName} (h : t.carry (deleteReq o) = some files) :
    files = update t.files o none := by
  simp only [carry, deleteReq] at h
  split at h <;> cases h
  rfl

theorem carry_move {t : Tree κ} {a b : ObjName} (h : t.carry (moveReq a b) = some files) :
    ∃ c, t.files a = some c ∧ files = update (update t.files a none) b (some c) := by
  simp only [carry, moveReq] at h
  split at h <;> cases h
  exact ⟨_, ‹_›, rfl⟩

theorem carry_exchange {t : Tree κ} {a b : ObjName} (h : t.carry (exchangeReq a b) = some files) :
    ∃ c d, t.files a = some c ∧ t.files b = some d ∧
      files = update (update t.files a (some d)) b (some c) := by
  simp only [carry, exchangeReq] at h
  split at h <;> cases h
  exact ⟨_, _, ‹_›, ‹_›, rfl⟩

/-! ## When the contents are kept -/

/-- The result codes the switch over the second move names. -/
def secondMoveCodes : List Int :=
  [kFPObjectLocked, kFPAccessDenied, kFPCantRename, kFPObjectExists, kFPObjectNotFound,
    kFPParamErr, kFPMiscErr, kFPNoErr]

/-- The contents `c` are under the source name `a` or the destination name `b`,
and under `b` if the call returned 0. -/
def Kept (a b : ObjName) (c : κ) (t : Tree κ) (ret : Int) : Prop :=
  (t.files a = some c ∨ t.files b = some c) ∧ (ret = 0 → t.files b = some c)

/-- The condition on the decisions from the first move on. A destination that is said to exist is
deleted, and the source moved again: when both are one name, the delete is not carried out; when
they differ, the second move is not refused with a code its switch does not name, unless the
destination holds equal contents and stays. -/
def MoveKeeps (a b : ObjName) (c : κ) (t : Tree κ) : List Choice → Prop
  | .refuse rc :: delete :: cs => rc = kFPObjectExists →
    if a = b then delete ≠ .carryOut
    else ∀ rc₂, cs.head? = some (.refuse rc₂) → rc₂ ∉ secondMoveCodes →
      t.files b = some c ∧ delete ≠ .carryOut
  | _ => True

/-- The condition under which a rename of `a` to `b` keeps the contents `c`, on the decisions from
the probe of the destination on. A volume that can exchange files is asked to, once the probe is
answered: when both are one name, the delete that follows is not carried out. -/
def KeepsWhen (vol : Volume) (a b : ObjName) (c : κ) (t : Tree κ) : List Choice → Prop
  | .parms _ _ :: cs =>
    if vol.attributes &&& kNoExchangeFiles = 0 then
      match cs with
      | .carryOut :: delete :: _ => a = b → delete ≠ .carryOut
      | _ :: cs => MoveKeeps a b c t cs
      | [] => True
    else MoveKeeps a b c t cs
  | _ :: cs => MoveKeeps a b c t cs
  | [] => True

theorem secondMoveErrno_eq_zero (h : rc ≠ kFPNoErr) :
    secondMoveErrno rc = 0 ↔ rc ∉ secondMoveCodes := by
  unfold secondMoveErrno secondMoveCodes
  simp only [List.mem_cons]
  split_ifs <;> grind

theorem firstMoveErrno_ne_zero (h : rc ≠ kFPNoErr) : firstMoveErrno rc ≠ 0 := by
  unfold firstMoveErrno
  split_ifs <;> decide

section Objects

open Prog

variable {cl cl' : Client} {vol : Volume} {src dst : ObjName} {c : κ} {cs cs' : List Choice} {ret : Int}

section Requests

variable {a b o : ObjName} {k : Int → Call Int}

theorem run_afpDelete : run serve (afpDelete vol o.did o.name >>= k) cl t cs =
    t.onDecision (deleteReq (o.wire vol)) (fun rc t cs => run serve (k rc) cl t cs) cs := by
  cases cs <;> rfl

theorem run_afpExchangefiles :
    run serve (afpExchangefiles vol a.did b.did a.name b.name >>= k) cl t cs =
      t.onDecision (exchangeReq (a.wire vol) (b.wire vol)) (fun rc t cs => run serve (k rc) cl t cs) cs := by
  cases cs <;> rfl

theorem run_afpMoveandrename :
    run serve (afpMoveandrename vol a.did b.did a.name none b.name >>= k) cl t cs =
      t.onDecision (moveReq (a.wire vol) (b.wire vol)) (fun rc t cs => run serve (k rc) cl t cs) cs := by
  cases cs <;> rfl

end Requests

/-- The probe of a name that is no folder. -/
theorem isDir_run {o : ObjName} (ho : t.folders (o.wire vol) = false) {k : Int → Call Int}
    {x : Int × Client × Tree κ × List Choice}
    (h : run serve (isDir vol o.did o.name >>= k) cl t cs = some x) :
    (∃ valid cnid cs', cs = .parms valid cnid :: cs' ∧ run serve (k 0) cl t cs' = some x) ∨
    ∃ rc cs' d, cs = .refuse rc :: cs' ∧ d < 0 ∧ run serve (k d) cl t cs' = some x := by
  cases cs with
  | nil => cases h
  | cons p cs =>
    obtain ⟨⟨a, t₁⟩, ha, hk⟩ := Option.bind_eq_some_iff.1 h
    cases p <;> simp only [serve, reduceCtorEq, Option.some.injEq] at ha
    case parms valid cnid =>
      obtain ⟨rfl, rfl⟩ := Prod.mk.injEq .. ▸ ha
      have hf : t.folders ⟨o.did, vol.wireName o.name⟩ = false := ho
      rw [hf] at hk
      exact .inl ⟨valid, cnid, cs, rfl, hk⟩
    case refuse rc =>
      split at ha <;> cases ha
      rename_i hrc
      have hne : -llAnswerErrno rc ≠ 0 := by simpa [llAnswerErrno_eq_zero] using hrc
      have hneg : -llAnswerErrno rc < 0 := by
        have := llAnswerErrno_nonneg rc
        omega
      refine .inr ⟨rc, cs, _, rfl, hneg, ?_⟩
      replace hk : run serve (k (if -llAnswerErrno rc ≠ 0 then -llAnswerErrno rc else 0)) cl t cs =
        some x := hk
      rwa [if_pos hne] at hk

/-- From a refused first move on, with the contents still at the source. -/
theorem afterMove_kept_iff (ha : t.files (src.wire vol) = some c) (hrc : rc ≠ kFPNoErr)
    (h : run serve (afterMove vol src dst rc) cl t cs = some (ret, cl', t', cs')) :
    Kept (src.wire vol) (dst.wire vol) c t' ret ↔
      MoveKeeps (src.wire vol) (dst.wire vol) c t (.refuse rc :: cs) := by
  generalize hsrc : src.wire vol = a at ha ⊢
  generalize hdst : dst.wire vol = b
  by_cases hexists : rc = kFPObjectExists
  · simp only [afterMove, if_pos hexists, run_afpDelete, run_afpMoveandrename, hsrc, hdst] at h
    obtain ⟨files, cs₁, rfl, hf, h⟩ | ⟨d, cs₁, rfl, hd, h⟩ := onDecision_cases h <;>
      obtain ⟨files', cs₂, rfl, hm, h⟩ | ⟨rc₂, cs₂, rfl, h₂, h⟩ := onDecision_cases h <;> cases h
    · obtain rfl := carry_delete hf
      obtain ⟨c', hc', rfl⟩ := carry_move hm
      have hab : a ≠ b := by
        rintro rfl
        simp at hc'
      obtain rfl : c = c' := by simpa [hab, ha] using hc'
      simp [Kept, MoveKeeps, hab]
    · obtain rfl := carry_delete hf
      by_cases hab : a = b
      · simp [Kept, MoveKeeps, hab, hexists]
      · simp [Kept, MoveKeeps, hab, ha, secondMoveErrno_eq_zero h₂, hexists]
    · obtain ⟨c', hc', rfl⟩ := carry_move hm
      obtain rfl : c = c' := by simpa [ha] using hc'
      simp [Kept, MoveKeeps]
    · by_cases hab : a = b
      · simp [Kept, MoveKeeps, hab ▸ ha]
      · simp [Kept, MoveKeeps, hab, ha, secondMoveErrno_eq_zero h₂, hexists]
  · rw [afterMove, if_neg hexists] at h
    cases h
    have hkeeps : MoveKeeps a b c t (.refuse rc :: cs) := by
      cases cs with
      | nil => trivial
      | cons d cs => exact fun h => absurd h hexists
    exact iff_of_true ⟨.inl ha, fun h => absurd h (firstMoveErrno_ne_zero hrc)⟩ hkeeps

theorem firstMove_kept_iff (ha : t.files (src.wire vol) = some c)
    (h : run serve (do
        let rc ← afpMoveandrename vol src.did dst.did src.name none dst.name
        afterMove vol src dst rc) cl t cs = some (ret, cl', t', cs')) :
    Kept (src.wire vol) (dst.wire vol) c t' ret ↔
      MoveKeeps (src.wire vol) (dst.wire vol) c t cs := by
  rw [run_afpMoveandrename] at h
  obtain ⟨files, cs₁, rfl, hm, h⟩ | ⟨rc, cs₁, rfl, hrc, h⟩ := onDecision_cases h
  · obtain ⟨c', hc', rfl⟩ := carry_move hm
    obtain rfl : c = c' := by simpa [ha] using hc'
    cases h
    simp [Kept, MoveKeeps]
  · exact afterMove_kept_iff ha hrc h

theorem renameObjects_kept_iff (ha : t.files (src.wire vol) = some c)
    (hb : t.folders (dst.wire vol) = false)
    (h : run serve (renameObjects vol src dst) cl t cs = some (ret, cl', t', cs')) :
    Kept (src.wire vol) (dst.wire vol) c t' ret ↔
      KeepsWhen vol (src.wire vol) (dst.wire vol) c t cs := by
  rw [renameObjects] at h
  obtain ⟨valid, cnid, cs, rfl, h₁⟩ | ⟨rc, cs, d, rfl, hd, h₁⟩ := isDir_run hb h
  · rw [if_neg (by decide)] at h₁
    by_cases hvol : vol.attributes &&& kNoExchangeFiles = 0
    · simp only [hvol, and_self, if_true, run_afpExchangefiles] at h₁
      obtain ⟨files, cs₁, rfl, hx, h₂⟩ | ⟨rc, cs₁, rfl, hrc, h₂⟩ := onDecision_cases h₁
      · obtain ⟨c', d, hc', -, rfl⟩ := carry_exchange hx
        obtain rfl : c = c' := by simpa [ha] using hc'
        rw [if_pos rfl, run_afpDelete] at h₂
        obtain ⟨files, cs₂, rfl, hf, h₃⟩ | ⟨rc, cs₂, rfl, hrc, h₃⟩ := onDecision_cases h₂ <;> cases h₃
        · obtain rfl := carry_delete hf
          by_cases hab : src.wire vol = dst.wire vol
          · simp [Kept, KeepsWhen, hab, hvol]
          · simp [Kept, KeepsWhen, hab, Ne.symm hab, hvol]
        · simp [Kept, KeepsWhen, hvol]
      · rw [if_neg hrc] at h₂
        simpa [KeepsWhen, hvol] using firstMove_kept_iff ha h₂
    · rw [if_neg fun h => hvol h.2] at h₁
      simpa [KeepsWhen, hvol] using firstMove_kept_iff ha h₁
  · rw [if_neg (by omega), if_neg (by omega)] at h₁
    exact firstMove_kept_iff ha h₁

theorem serve_looks {p : Choice} {a : r.Ans} (hr : r.Looks)
    (h : serve t r p = some (a, t')) : t' = t := by
  cases r <;> first | exact hr.elim | (cases p <;> simp only [serve, reduceCtorEq] at h)
  case alloc.memory => cases h; rfl
  case now.time => cases h; rfl
  case getFileDirParms.parms => cases h; rfl
  case getFileDirParms.refuse =>
    split at h <;> cases h
    rfl

theorem resolveRename_run {pathFrom pathTo : Path} {x : Except Int Resolved}
    (h : run serve (resolveRename vol pathFrom pathTo) cl t cs = some (x, cl', t', cs')) :
    NegError x ∧ t' = t :=
  (resolveRename_within vol pathFrom pathTo).wp (I := (· = t))
    (fun _ _ _ _ _ hr e hv => (serve_looks hr e).trans hv) rfl _ _ _ _ _ h

/-- The contents 1 under the name `a` of the root folder, and 2 under `b`. -/
def twoFiles (o : ObjName) : Option Nat :=
  if o = ⟨rootDid, [97]⟩ then some 1 else if o = ⟨rootDid, [98]⟩ then some 2 else none

/-- Of a run from `twoFiles`: the result, and what is then under `a` and `b`. -/
def outcome (pathFrom pathTo : Path) (cs : List Choice) : Option (Int × Option Nat × Option Nat) :=
  (run serve (mlRename plainVolume pathFrom pathTo) ⟨[]⟩ ⟨twoFiles, fun _ => false⟩ cs).map
    fun x => (x.1, x.2.2.1.files ⟨rootDid, [97]⟩, x.2.2.1.files ⟨rootDid, [98]⟩)

/-- One run of `ml_rename`, with any decisions of the server: a call that fails
before both paths are resolved changes nothing and returns an error, and a
call that resolved its source to a file `c` and its destination to a name
that is no folder keeps `c` exactly when `KeepsWhen` holds of the decisions that are left. -/
theorem mlRename_keeps_iff (vol : Volume) (pathFrom pathTo : Path) (cl : Client) (t : Tree κ)
    (cs : List Choice) {ret : Int} {cl' : Client} {t' : Tree κ} {cs' : List Choice}
    (h : run serve (mlRename vol pathFrom pathTo) cl t cs = some (ret, cl', t', cs')) :
    ∃ x cl₁ cs₁, run serve (resolveRename vol pathFrom pathTo) cl t cs = some (x, cl₁, t, cs₁) ∧
      match x with
      | .error e => ret = e ∧ e < 0 ∧ t' = t
      | .ok r => ∀ c, t.files (r.src.wire vol) = some c → t.folders (r.dst.wire vol) = false →
        (Kept (r.src.wire vol) (r.dst.wire vol) c t' ret ↔
          KeepsWhen vol (r.src.wire vol) (r.dst.wire vol) c t cs₁) := by
  unfold mlRename at h
  rw [run_bind, Option.bind_eq_some_iff] at h
  obtain ⟨⟨x, cl₁, t₁, cs₁⟩, h₁, h⟩ := h
  obtain ⟨hneg, rfl⟩ := resolveRename_run h₁
  refine ⟨x, cl₁, cs₁, h₁, ?_⟩
  cases x with
  | error e =>
    obtain ⟨rfl, -, rfl, -⟩ := h
    exact ⟨rfl, (negError_error _).1 hneg, rfl⟩
  | ok r =>
    intro c ha hb
    rw [run_bind, Option.bind_eq_some_iff] at h
    obtain ⟨⟨ret₀, cl₂, t₂, cs₂⟩, h₂, h⟩ := h
    have hobj := renameObjects_kept_iff ha hb h₂
    obtain ⟨rfl, rfl⟩ := (forgetBoth_within r ret₀).wp (I := (· = t₂))
      (fun _ _ _ _ _ hr e hv => (serve_looks hr e).trans hv) rfl _ _ _ _ _ h
    simpa [Kept] using hobj

/-- A rename of `/a` to `/b` by an exchange, with the delete of the source refused. -/
theorem mlRename_keeps_exchanged : ∃ t' : Tree Nat,
    (run serve (mlRename plainVolume [47, 97] [47, 98]) ⟨[]⟩ ⟨twoFiles, fun _ => false⟩
      [.parms 0 0, .carryOut, .refuse kFPMiscErr, .time 0, .time 0]).map (·.2.2.1) = some t' ∧
    Kept ⟨rootDid, [97]⟩ ⟨rootDid, [98]⟩ 1 t' 0 := by
  refine ⟨_, rfl, ?_⟩
  obtain ⟨x, cl₁, cs₁, hx, hkept⟩ := mlRename_keeps_iff plainVolume [47, 97] [47, 98] ⟨[]⟩
    ⟨twoFiles, fun _ => false⟩ [.parms 0 0, .carryOut, .refuse kFPMiscErr, .time 0, .time 0] rfl
  have hres : run serve (resolveRename plainVolume [47, 97] [47, 98]) ⟨[]⟩
      ⟨twoFiles, fun _ => false⟩ [.parms 0 0, .carryOut, .refuse kFPMiscErr, .time 0, .time 0] =
    some (.ok ⟨[47, 97], [47, 98], ⟨rootDid, [97]⟩, ⟨rootDid, [98]⟩⟩, _, _, _) := rfl
  cases hx
  exact (hkept 1 rfl rfl).2 fun h => absurd h (by decide)

/-- Renaming `/a` to `/a`, with the exchange and the delete carried out, returns 0
and the contents are gone. Renaming `/a` to `/b`, where the second move is
refused with `kFPDiskFull`, returns 0 with the contents still at `/a`. -/
theorem mlRename_loses :
    outcome [47, 97] [47, 97] [.parms 0 0, .carryOut, .carryOut, .time 0, .time 0] =
      some (0, none, some 2) ∧
    outcome [47, 97] [47, 98] [.parms 0 0, .refuse kFPMiscErr, .refuse kFPObjectExists, .carryOut,
      .refuse kFPDiskFull, .time 0, .time 0] = some (0, some 1, none) := by
  decide

end Objects

end Tree

end NC
