import NetatalkClient.Proof.Midlevel.Layers

/-!
# Changes at the paths of the AppleDouble view

A path of the view names no object of the server's. The calls that create, delete
or set attributes ask the view about their path first, and fail there without a
request (`appledoubleRefuse_within`). `ml_rename` asks about neither of its paths: it
fails without a change only where both paths are not looked up (`rename_refused_iff`),
and otherwise some run sends a request that moves an object.
-/

namespace NC

open Prog

/-- The requests that create, delete, move, exchange or change an object. -/
def Request.Changes : Request → Bool
  | .setParms .. | .createFile .. | .createDir .. | .delete .. | .exchangeFiles ..
  | .moveAndRename .. | .setForkParms .. | .write .. | .addComment .. | .setExtAttr ..
  | .removeExtAttr .. => true
  | _ => false

/-- Nothing is known of the answers. -/
def anyReply (r : Request) (_ : r.Ans) : Bool := true

/-- In every run the call returns a negative errno and sends no request that changes
an object. -/
def Refused (vol : ServedVolume) (c : MlCall Int) : Prop :=
  (system vol.toVolume c).Always anyReply fun ret log => ret < 0 ∧ ∀ x ∈ log, x.1.Changes = false

/-- A call of `did.c`, or a request that changes nothing. -/
def MlReq.Harmless : MlReq → Prop
  | .did _ => True
  | .sys r => r.Changes = false

theorem Request.Looks.changes {r : Request} (h : r.Looks) : r.Changes = false := by
  cases r <;> first | rfl | exact h.elim

theorem refused_of_within {vol : ServedVolume} {c : MlCall Int}
    (h : c.Within MlReq.Harmless (· < 0)) : Refused vol c := by
  have hsys : (system vol.toVolume c).Within (fun r => r.Changes = false) (· < 0) := by
    refine within_handle _ _ h fun r hr => ?_
    cases r with
    | did c => exact (layers_looks vol.toVolume c).mono (fun _ => Request.Looks.changes) fun _ h => h
    | sys r => exact ⟨hr, fun _ => trivial⟩
  exact hsys.always

/-! ## The calls that ask the view -/

section View

variable {vol : ServedVolume} {p : Path}

section

variable (hp : (viewOf vol p).1 ≠ .none)

include hp

/-- What follows a refusal is not reached. -/
theorem refuse_bind_within (rest : Int → MlCall Int) :
    (appledoubleRefuse vol p >>= fun ret => if ret < 0 then Prog.ret ret else rest ret).Within
      MlReq.Harmless (· < 0) := by
  have hharm : MlReq.Harmless (.sys .alloc) := rfl
  refine (appledoubleRefuse_within hharm hp).bind fun ret hret => ?_
  rw [if_pos hret]
  exact hret

/-- The opening that `ml_mkdir`, `ml_unlink` and `ml_rmdir` share. -/
theorem opening_within (rest : Path → Int → MlCall Int) :
    (match vol.convertPath p with
    | .error e => Prog.ret e
    | .ok converted =>
      if invalidFilename vol converted then Prog.ret (-ENAMETOOLONG)
      else if vol.isReadonly then Prog.ret (-EROFS)
      else appledoubleRefuse vol p >>= fun ret =>
        if ret < 0 then Prog.ret ret else rest converted ret : MlCall Int).Within
      MlReq.Harmless (· < 0) := by
  cases hc : vol.convertPath p with
  | error e => exact vol.convertPath_neg _ _ hc
  | ok converted =>
    refine .ite (fun _ => (by decide : (-ENAMETOOLONG : Int) < 0)) fun _ => ?_
    refine .ite (fun _ => (by decide : (-EROFS : Int) < 0)) fun _ => ?_
    exact refuse_bind_within hp _

theorem mlMkdir_refused (mode : Nat) : Refused vol (mlMkdir vol p mode) :=
  refused_of_within (opening_within hp _)

theorem mlUnlink_refused : Refused vol (mlUnlink vol p) :=
  refused_of_within (opening_within hp _)

theorem mlRmdir_refused : Refused vol (mlRmdir vol p) :=
  refused_of_within (opening_within hp _)

theorem mlSetattr_refused (a : SetAttr) : Refused vol (mlSetattr vol p a) := by
  refine refused_of_within ?_
  refine .ite (fun _ => (by decide : (-EROFS : Int) < 0)) fun _ => ?_
  exact refuse_bind_within hp _

theorem mlSymlink_refused (target : Path) : Refused vol (mlSymlink vol target p) := by
  refine refused_of_within ?_
  refine .ite (fun _ => (by decide : (-ENOSYS : Int) < 0)) fun _ => ?_
  cases ht : vol.convertPath target with
  | error e => exact vol.convertPath_neg _ _ ht
  | ok convertedTarget =>
    cases hc : vol.convertPath p with
    | error e => exact vol.convertPath_neg _ _ hc
    | ok converted =>
      refine .ite (fun _ => (by decide : (-EROFS : Int) < 0)) fun _ => ?_
      exact refuse_bind_within hp _

end

end View

/-! ## Renaming -/

section Rename

variable {vol : Volume}

/-- The path is converted and its last name is short enough to be looked up. -/
def LooksUp (vol : Volume) (p : Path) : Prop :=
  ∃ converted parent name, vol.convertPath p = .ok converted ∧
    splitLast converted = some (parent, name) ∧ name.length < maxNameBytes

theorem getDirid_not_looksUp {p converted : Path} (hc : vol.convertPath p = .ok converted)
    (h : ¬LooksUp vol p) : ∃ e < 0, getDirid vol converted = ret (.error e) := by
  unfold getDirid
  cases hs : splitLast converted with
  | none => exact ⟨-EINVAL, by decide, rfl⟩
  | some x =>
    refine ⟨-ENAMETOOLONG, by decide, if_pos ?_⟩
    by_contra hlen
    exact h ⟨converted, x.1, x.2, hc, hs, by omega⟩

theorem resolveRename_fails {p q : Path}
    (h : vol.isReadonly = true ∨ ¬LooksUp vol p ∨ ¬LooksUp vol q) :
    (resolveRename vol p q).Within Req.Looks fun x => ∃ e, x = .error e ∧ e < 0 := by
  unfold resolveRename
  cases hp : vol.convertPath p with
  | error e => exact ⟨e, rfl, vol.convertPath_neg _ _ hp⟩
  | ok convertedFrom =>
  cases hq : vol.convertPath q with
  | error e => exact ⟨e, rfl, vol.convertPath_neg _ _ hq⟩
  | ok convertedTo =>
  refine .ite (fun _ => ⟨_, rfl, by decide⟩) fun hw => ?_
  by_cases hl : LooksUp vol p
  · refine (getDirid_within vol _).bind fun x hx => ?_
    cases x with
    | error e => exact ⟨e, rfl, (negError_error e).1 hx⟩
    | ok a =>
      have hq' : ¬LooksUp vol q := (h.resolve_left hw).resolve_left (absurd hl)
      obtain ⟨e, he, heq⟩ := getDirid_not_looksUp hq hq'
      rw [heq]
      exact ⟨e, rfl, he⟩
  · obtain ⟨e, he, heq⟩ := getDirid_not_looksUp hp hl
    rw [heq]
    exact ⟨e, rfl, he⟩

theorem mlRename_within {p q : Path} (h : vol.isReadonly = true ∨ ¬LooksUp vol p ∨ ¬LooksUp vol q) :
    (mlRename vol p q).Within Req.Looks (· < 0) :=
  (resolveRename_fails h).bind fun x hx => by
    obtain ⟨e, rfl, he⟩ := hx
    exact he

/-! ## A run that moves an object -/

/-- The server as a call of `did.c` meets it: it gives any answer. -/
abbrev anyAnswer := restrict reqs (record anyReply)

/-- An answer to a request of `Req`, with nothing else in it. -/
def fullAnswer : (r : Req) → r.Ans → (reqs.req r).Ans
  | .alloc, a => a
  | .now, a => a
  | .getFileDirParms .., (rc, e) => (rc, { isdir := e.isdir, valid := e.valid, cnid := e.cnid })
  | .delete .., a => a
  | .exchangeFiles .., a => a
  | .moveAndRename .., a => a

theorem may_req {α : Type} {r : Req} {k : r.Ans → Call α} (a : r.Ans) {cl : Client}
    {log : List (Exchange Request.Ans)} {Q : α → Client → List (Exchange Request.Ans) → Prop}
    (h : May anyAnswer (k a) cl (log ++ [⟨reqs.req r, fullAnswer r a⟩]) Q) :
    May anyAnswer (send r k) cl log Q := by
  refine may_send (c := Function.update (fun _ => default) (reqs.req r) (fullAnswer r a)) ?_ h
  have hfull : reqs.ans r (fullAnswer r a) = a := by cases r <;> rfl
  simp [restrict, record, anyReply, hfull]

theorem may_walk (restart : Option (Call (Except Int Nat))) (cs : List (Name × Path)) (did : Nat)
    (cl : Client) (log : List (Exchange Request.Ans)) :
    May anyAnswer (walk vol restart cs did) cl log fun x _ _ => ∃ d, x = .ok d := by
  induction cs generalizing did cl log with
  | nil => exact may_ret ⟨did, rfl⟩
  | cons c cs ih =>
    obtain ⟨name, fullParent⟩ := c
    refine may_req (r := .alloc) true ?_
    refine may_req (r := .getFileDirParms did kFPNodeIDBit kFPNodeIDBit (vol.wireName name))
      (kFPNoErr, ⟨true, kFPNodeIDBit, 0⟩) ?_
    -- an answer that finds the folder starts no walk again
    have hgo : ∀ log, May anyAnswer (lookupComponent vol did name fullParent kFPNoErr
        ⟨true, kFPNodeIDBit, 0⟩ >>= walkOn vol restart cs) cl log fun x _ _ => ∃ d, x = .ok d := by
      intro log
      refine may_req (r := .alloc) true ?_
      refine may_req (r := .now) 0 ?_
      refine may_req (r := .alloc) false ?_
      exact ih ..
    cases restart <;> exact hgo _

theorem may_getDirid {path parent : Path} {name : Name} (hs : splitLast path = some (parent, name))
    (hn : name.length < maxNameBytes) (cl : Client) (log : List (Exchange Request.Ans)) :
    May anyAnswer (getDirid vol path) cl log fun x _ _ => ∃ d, x = .ok (d, name) := by
  unfold getDirid
  simp only [hs, if_neg (Nat.not_le.2 hn)]
  split
  · exact may_ret ⟨_, rfl⟩
  refine may_req (r := .alloc) true ?_
  refine may_req (r := .now) 0 ?_
  show May anyAnswer (if _ then _ else _) _ _ _
  split
  · exact may_ret ⟨_, rfl⟩
  refine may_bind ((may_end (I := fun _ => True) ?_ _ _ trivial).mono fun x _ _ _ => ?_)
  · intro log r _
    exact ⟨fun _ => default, _, _, rfl, trivial⟩
  · refine may_bind ((may_walk ..).mono ?_)
    rintro _ _ _ ⟨d, rfl⟩
    exact may_ret ⟨d, rfl⟩

theorem may_resolveRename {p q : Path} (hw : vol.isReadonly = false) (hp : LooksUp vol p)
    (hq : LooksUp vol q) (cl : Client) (log : List (Exchange Request.Ans)) :
    May anyAnswer (resolveRename vol p q) cl log fun x _ _ => ∃ r, x = .ok r := by
  obtain ⟨from', _, _, hcp, hsp, hlp⟩ := hp
  obtain ⟨to', _, _, hcq, hsq, hlq⟩ := hq
  unfold resolveRename
  simp only [hcp, hcq, hw]
  refine may_bind ((may_getDirid hsp hlp cl log).mono ?_)
  rintro _ cl' log' ⟨d, rfl⟩
  refine may_bind ((may_getDirid hsq hlq cl' log').mono ?_)
  rintro _ _ _ ⟨d', rfl⟩
  exact may_ret ⟨_, rfl⟩

/-- Once both paths are looked up, a move goes to the server. -/
theorem may_mlRename {p q : Path} (hw : vol.isReadonly = false) (hp : LooksUp vol p)
    (hq : LooksUp vol q) (cl : Client) :
    May anyAnswer (mlRename vol p q) cl [] fun _ _ log => ∃ x ∈ log, x.1.Changes = true := by
  refine may_bind ((may_resolveRename hw hp hq cl []).mono ?_)
  rintro _ cl' log' ⟨r, rfl⟩
  -- the question about the destination fails, so that the object is moved over it
  refine may_req (r := .getFileDirParms r.dst.did 0 0 (vol.wireName r.dst.name)) (-1, ⟨false, 0, 0⟩) ?_
  refine may_req (r := .moveAndRename r.src.did r.dst.did (vol.wireName r.src.name) []
    (vol.wireName r.dst.name)) kFPNoErr ?_
  refine may_end (fun log r hlog => ⟨fun _ => default, _, _, rfl, ?_⟩) _ _
    ⟨_, List.mem_append_right _ (List.mem_singleton_self _), rfl⟩
  obtain ⟨x, hx, hc⟩ := hlog
  exact ⟨x, List.mem_append_left _ hx, hc⟩

end Rename

theorem rename_refused_iff (vol : ServedVolume) (p q : Path) :
    Refused vol (Ml.rename vol p q) ↔
      (vol.isReadonly = true ∨ ¬LooksUp vol.toVolume p ∨ ¬LooksUp vol.toVolume q) := by
  unfold Refused
  rw [system_rename]
  constructor
  · intro h
    by_contra hn
    simp only [not_or, not_not, Bool.not_eq_true] at hn
    obtain ⟨hw, hp, hq⟩ := hn
    refine not_always (s := ⟨⟨[]⟩, .fresh⟩) ?_ h
    refine may_lift ((may_mlRename hw hp hq _).mono ?_)
    rintro _ _ _ ⟨x, hx, hc⟩ ⟨-, hn⟩
    rw [hn x hx] at hc
    cases hc
  · intro h
    have hw : (lift clientPart reqs (mlRename vol.toVolume p q)).Within
        (fun r => r.Changes = false) (· < 0) :=
      within_lift _ _ ((mlRename_within h).mono (fun _ hr => hr.request.changes) fun _ h => h)
    exact hw.always

/-- At a path of the AppleDouble view every change is refused, before any request for
one, but for `ml_rename`: it refuses, to or from such a path, exactly on a volume
that is read-only and where one of the two paths cannot be looked up. -/
theorem view_refuses_iff (vol : ServedVolume) (p : Path) (hp : (viewOf vol p).1 ≠ .none)
    (target q : Path) (mode : Nat) (a : SetAttr) :
    (Refused vol (mlMkdir vol p mode) ∧ Refused vol (mlSymlink vol target p) ∧
      Refused vol (mlUnlink vol p) ∧ Refused vol (mlRmdir vol p) ∧ Refused vol (mlSetattr vol p a) ∧
      Refused vol (Ml.rename vol p q) ∧ Refused vol (Ml.rename vol q p)) ↔
    (vol.isReadonly = true ∨ ¬LooksUp vol.toVolume p ∨ ¬LooksUp vol.toVolume q) := by
  have hcomm : (vol.isReadonly = true ∨ ¬LooksUp vol.toVolume q ∨ ¬LooksUp vol.toVolume p) ↔
      (vol.isReadonly = true ∨ ¬LooksUp vol.toVolume p ∨ ¬LooksUp vol.toVolume q) :=
    or_congr_right or_comm
  simp [mlMkdir_refused hp, mlSymlink_refused hp, mlUnlink_refused hp, mlRmdir_refused hp,
    mlSetattr_refused hp, rename_refused_iff, hcomm]

/-- A volume that shows the view, with the flags given beside. -/
def viewVolume (flags : Nat) : ServedVolume where
  toVolume := { plainVolume with extraFlags := VOLUME_EXTRA_FLAGS_SHOW_APPLEDOUBLE ||| flags }
  avNumber := 33
  serverType := .netatalk
  serverMajor := 4
  serverMinor := 0
  quantum := 1024
  mapping := .common
  mountTime := 0
  connectTime := 0
  volumeName := []
  icon := []
  convertName := some
  pathToUnix p _ := p

/-- On a read-only volume nothing is changed at the server icon's path. -/
theorem view_refuses_readonly :
    let vol := viewVolume VOLUME_EXTRA_FLAGS_READONLY
    let p := slash :: servericon
    (viewOf vol p).1 ≠ .none ∧
    Refused vol (mlMkdir vol p 0) ∧ Refused vol (mlSymlink vol [97] p) ∧
      Refused vol (mlUnlink vol p) ∧ Refused vol (mlRmdir vol p) ∧
      Refused vol (mlSetattr vol p { which := ML_SET_MODE }) ∧
      Refused vol (Ml.rename vol p [slash, 97]) ∧ Refused vol (Ml.rename vol [slash, 97] p) :=
  ⟨by decide, (view_refuses_iff (viewVolume VOLUME_EXTRA_FLAGS_READONLY) (slash :: servericon)
    (by decide) [97] [slash, 97] 0 { which := ML_SET_MODE }).2 (.inl rfl)⟩

/-- A file can be renamed to the server icon's path: the destination is not found, and
the move is sent and carried out. -/
theorem rename_to_servericon :
    let vol := viewVolume 0
    let p := slash :: servericon
    let move : Request := .moveAndRename rootDid rootDid [97] [] servericon
    (viewOf vol p).1 = .serverIcon ∧
    (∃ answers s log, run (record anyReply) (system vol.toVolume (Ml.rename vol [slash, 97] p))
        ⟨⟨[]⟩, .fresh⟩ [] answers = some (0, s, log, []) ∧
      ⟨move, kFPNoErr⟩ ∈ log) ∧
    ¬Refused vol (Ml.rename vol [slash, 97] p) := by
  have hrun : ∃ answers s log, run (record anyReply) (system (viewVolume 0).toVolume
        (Ml.rename (viewVolume 0) [slash, 97] (slash :: servericon)))
        ⟨⟨[]⟩, .fresh⟩ [] answers = some (0, s, log, []) ∧
      ⟨.moveAndRename rootDid rootDid [97] [] servericon, kFPNoErr⟩ ∈ log :=
    ⟨List.replicate 4 fun
      | .getFileDirParms .. => (kFPObjectNotFound, {})
      | .moveAndRename .. => kFPNoErr
      | _ => default, _, _, rfl, by simp; exact .inl ⟨rfl, rfl⟩⟩
  refine ⟨by decide, hrun, fun h => ?_⟩
  obtain ⟨answers, s, log, hr, -⟩ := hrun
  have h0 : (0 : Int) < 0 := (h _ answers 0 s log [] hr).1
  exact absurd h0 (by decide)

end NC
