import NetatalkClient.Proof.Midlevel.About

/-!
# The calls on a path

Every call converts its path and looks up the converted one, and then keeps to the
object it found: a lemma for each (`mlOpen_keep` to `mlRemovexattr_keep`), under the
condition the call needs for it.
-/

namespace NC

open List MlReq Prog

section Calls

variable {vol : ServedVolume} {paths : List Path} {p q : Path} {α : Type}

theorem keep_sys {r : Request} (h : r.Nameless) : Keep vol paths (Ml.sys r) :=
  keep_of_keeps ⟨h _, fun _ => trivial⟩

theorem keep_alloc : Keep vol paths Ml.alloc := keep_sys fun _ => trivial

/-! ## The view -/

theorem keep_extraTranslate {path : Path} {k : Except Int (MetaKind × Path) → MlCall α}
    (herr : ∀ e, Keep vol paths (k (.error e))) (hok : Keep vol paths (k (.ok (viewOf vol path)))) :
    Keep vol paths (extraTranslate vol path >>= k) := by
  unfold extraTranslate
  revert hok
  rcases viewOf vol path with ⟨kind, newpath⟩
  intro hok
  have halloc : Keep vol paths ((do
      if ← Ml.alloc then return .ok (kind, newpath) else return .error (-ENOMEM)) >>= k) := by
    refine keep_alloc.bind fun b => ?_
    cases b
    · exact herr _
    · exact hok
  cases kind with
  | none | serverIcon => exact hok
  | _ => exact halloc

theorem appledoubleRefuse_keep (path : Path) : Keep vol paths (appledoubleRefuse vol path) := by
  refine keep_extraTranslate (fun e => .ret _) ?_
  rcases viewOf vol path with ⟨kind, newpath⟩
  cases kind <;> exact .ret _

/-! ## Lookups of attributes and listings -/

/-- AFP 2 names the root by the volume's name. -/
def Afp2Root (vol : ServedVolume) (path : Path) : Prop := vol.avNumber < 30 ∧ path = [slash]

theorem llGetattr_keep (hm : q ∈ paths) (hroot : ¬Afp2Root vol q) (resource : Bool) :
    Keep vol paths (llGetattr vol q resource) := by
  refine .guard fun _ => ?_
  refine keep_getDirid hm (fun e _ => .ret _) fun did name => ?_
  have hname : (⟨(getattrName vol q did name).1, (getattrName vol q did name).2⟩ : ObjName) ∈
      [⟨did, name⟩] := by
    rw [show getattrName vol q did name = (did, name) from if_neg hroot]
    exact mem_singleton_self _
  refine ⟨wire_mem hname, fun x => ?_⟩
  refine .guard fun _ => ?_
  refine .guard fun _ => ?_
  refine .guard fun _ => ?_
  exact .ite (fun _ => ⟨trivial, fun _ => trivial⟩) fun _ => trivial

theorem readdirPages_wp (hm : q ∈ paths) (resource : Bool) (fuel : Nat) :
    ∀ (did : Nat) (name : Name) (resolved : Bool) (l : List Entry) (s : MlState) (log : MlLog),
      Addressed vol.toVolume paths log →
      Found vol.toVolume log (ObjName.wire vol.toVolume ⟨did, name⟩) →
      Wp (record mayAnswer) (readdirPages vol q resource fuel did name resolved l) s log
        fun _ _ log' => Addressed vol.toVolume paths log' := by
  induction fuel with
  | zero => exact fun _ _ _ _ _ _ h _ => wp_ret.2 h
  | succ fuel ih =>
    intro did name resolved l s log h hf
    show Wp (record mayAnswer) (send (sys _) _) s log _
    rw [wp_record_send]
    rintro ⟨rc, page⟩ -
    have hlog : Addressed vol.toVolume paths (log ++ [⟨sys (.enumerate did
        (readdirFilebitmap vol resource) (readdirDirbitmap vol) (l.length + 1) (vol.wireName name)),
        (rc, page)⟩]) := by
      have hos : ∀ o ∈ ([⟨did, name⟩] : List ObjName),
          Found vol.toVolume log (o.wire vol.toVolume) := by simpa using hf
      refine h.append hos fun x hx => ?_
      rw [mem_singleton.1 hx]
      exact wire_mem (mem_singleton_self _)
    refine .ite (fun _ => ?_) fun _ => ?_
    · refine .guard hlog fun _ => ?_
      refine .guard hlog fun _ => ?_
      refine .guard hlog fun _ => ?_
      exact ih _ _ _ _ _ _ hlog hf.append
    refine .guard hlog fun _ => ?_
    refine .ite (fun _ => ?_) fun _ => wp_ret.2 hlog
    refine .guard hlog fun _ => ?_
    -- the ID that names no folder is looked up again, once
    have hforget : Keep vol paths (Ml.removeDidLineage q) := keep_of_keeps ⟨trivial, fun _ => trivial⟩
    refine (hforget s _ hlog).bind fun _ s log h => ?_
    refine wp_lookup hm h (fun e _ => .ret _) fun did name log _ hf hlook => ?_
    exact .guard hlook fun _ => ih _ _ _ _ _ _ hlook hf

theorem llReaddir_keep (hm : q ∈ paths) (resource : Bool) :
    Keep vol paths (llReaddir vol q resource) := by
  refine .guard fun _ => ?_
  intro s log h
  refine wp_lookup hm h (fun e _ => .ret _) fun did name log _ hf hlook => ?_
  show Wp (record mayAnswer) (readdirPages vol q resource _ did name false [] >>= _) s log _
  refine (readdirPages_wp hm resource _ _ _ _ _ _ _ hlook hf).bind fun x s log h => ?_
  refine keep_of_keeps ?_ s log h
  cases x with
  | error e => trivial
  | ok l =>
    dsimp only
    cases l.filter (·.name != []) <;> exact ⟨trivial, fun _ => trivial⟩

/-! ## The calls on objects -/

/-- The opening that `ml_mkdir`, `ml_unlink` and `ml_rmdir` share. -/
theorem opening_keep (hm : q ∈ paths) {rest : Except Int (Nat × Name) → MlCall Int}
    (herr : ∀ e < 0, Keep vol paths (rest (.error e)))
    (hok : ∀ did name, (rest (.ok (did, name))).Keeps (fun _ => True)
      (MlReq.About vol.toVolume paths [⟨did, name⟩]) fun _ => True) :
    Keep vol paths (if invalidFilename vol q then ret (-ENAMETOOLONG)
      else if vol.isReadonly then ret (-EROFS)
      else appledoubleRefuse vol p >>= fun refused =>
        if refused < 0 then ret refused else Ml.getDirid q >>= rest) := by
  refine .guard fun _ => ?_
  refine .guard fun _ => ?_
  refine (appledoubleRefuse_keep p).bind fun ret => ?_
  exact .guard fun _ => keep_getDirid hm herr hok

section

variable (hq : vol.convertPath p = .ok q) (hm : q ∈ paths)

include hq hm

theorem mlOpen_keep
    (h : invalidFilename vol q = true ∨ (viewOf vol q).1 = .none ∨ (viewOf vol q).1 = .appledouble ∨
      (viewOf vol q).1 = .serverIcon) (flags : Nat) : Keep vol paths (mlOpen vol p flags) := by
  unfold mlOpen
  simp only [hq]
  refine .guard fun hv => ?_
  refine .guard fun _ => ?_
  refine keep_alloc.bind fun b => ?_
  refine .guard fun _ => ?_
  refine .atom fun s => ?_
  have hview : Keep vol paths (appledoubleOpen vol q flags s.nextFile) := by
    refine keep_extraTranslate (fun e => .ret _) ?_
    have hk := h.resolve_left hv
    revert hk
    rcases viewOf vol q with ⟨kind, newpath⟩
    rintro (rfl | rfl | rfl) <;> exact .atom fun _ => .ret _
  refine hview.bind fun ret => ?_
  refine .guard fun _ => ?_
  refine .guard fun _ => ?_
  refine fun t log hlog => wp_getDiridInto hm (fun e he => ?_) (fun o => ?_) hlog
  · exact .guard fun hne => absurd he (by omega)
  · exact keeps_seq (llOpen_onFork records_frames flags) fun _ => trivial

theorem mlGetattr_keep (h : match (viewOf vol q).1 with
      | .none => ¬Afp2Root vol q
      | .resource | .finderinfo | .comment => invalidFilename vol (viewOf vol q).2 = true
      | .appledouble | .serverIcon => True) : Keep vol paths (mlGetattr vol p) := by
  unfold mlGetattr appledoubleGetattr
  simp only [hq, bind_assoc]
  refine keep_extraTranslate (fun e => .ret _) ?_
  revert h
  rcases viewOf vol q with ⟨kind, newpath⟩
  intro h
  have hinvalid (resource : Bool) (h : invalidFilename vol newpath = true) :
      llGetattr vol newpath resource = ret (.error (-ENAMETOOLONG)) := if_pos h
  cases kind with
  | none => exact llGetattr_keep hm h false
  | appledouble | serverIcon => exact .ret _
  | resource | finderinfo | comment =>
    dsimp only
    rw [hinvalid _ h]
    exact .ret _

theorem mlReaddir_keep
    (h : (viewOf vol q).1 = .appledouble → invalidFilename vol (viewOf vol q).2 = true) :
    Keep vol paths (mlReaddir vol p) := by
  unfold mlReaddir appledoubleReaddir
  simp only [hq, bind_assoc]
  refine keep_extraTranslate (fun e => .ret _) ?_
  revert h
  rcases viewOf vol q with ⟨kind, newpath⟩
  intro h
  cases kind with
  | none => exact llReaddir_keep hm false
  | appledouble =>
    dsimp only
    rw [show llReaddir vol newpath true = ret (.error (-ENAMETOOLONG)) from if_pos (h rfl)]
    exact .ret _
  | _ => exact .ret _

theorem mlSetattr_keep
    (h : Afp2Root vol q → vol.isReadonly = true ∨ (viewOf vol p).1 ≠ .none ∨
      vol.hasFlag VOLUME_EXTRA_FLAGS_VOL_SUPPORTS_UNIX = true ∨
      vol.hasFlag VOLUME_EXTRA_FLAGS_IGNORE_UNIXPRIVS = false) (a : SetAttr) :
    Keep vol paths (mlSetattr vol p a) := by
  unfold mlSetattr
  simp only [hq]
  refine .guard fun hw => ?_
  by_cases hv : (viewOf vol p).1 = .none
  · refine (appledoubleRefuse_keep p).bind fun ret => ?_
    refine .guard fun _ => ?_
    refine .guard fun _ => ?_
    refine .ite (fun hc => ?_) fun _ => ?_
    · have hroot : ¬Afp2Root vol q := by
        intro hr
        rcases h hr with hr | hr | hr | hr
        · exact hw hr
        · exact hr hv
        · simp [hr] at hc
        · simp [hr] at hc
      refine (llGetattr_keep hm hroot false).bind fun x => ?_
      cases x <;> exact .ret _
    · refine .guard fun _ => ?_
      refine keep_getDirid hm (fun e _ => .ret _) fun did name => ?_
      exact setattrObject_about (about_allows (mem_singleton_self _)) ..
  · refine keep_of_keeps ((appledoubleRefuse_within trivial hv).keeps.bind fun ret hret => ?_)
    rw [if_pos hret]
    trivial

theorem mlUnlink_keep : Keep vol paths (mlUnlink vol p) := by
  unfold mlUnlink
  simp only [hq]
  refine opening_keep hm (fun e _ => .ret _) fun did name => ?_
  refine keeps_seq (isDirectory_about (about_allows (mem_singleton_self _))) fun ret => ?_
  exact .guard fun _ => deleteObject_about (about_allows (mem_singleton_self _)) _

theorem mlRmdir_keep : Keep vol paths (mlRmdir vol p) := by
  unfold mlRmdir
  simp only [hq]
  refine opening_keep hm (fun e _ => .ret _) fun did name => ?_
  refine keeps_seq (isDirectory_about (about_allows (mem_singleton_self _))) fun ret => ?_
  refine .ite (fun _ => ?_) fun _ => deleteObject_about (about_allows (mem_singleton_self _)) _
  exact keeps_seq (removeDidSubtree_about trivial) fun _ => trivial

theorem mlMkdir_keep (mode : Nat) : Keep vol paths (mlMkdir vol p mode) := by
  unfold mlMkdir
  simp only [hq]
  refine opening_keep hm (fun e _ => .ret _) fun did name => ?_
  refine ⟨wire_mem (mem_singleton_self _), fun x => ?_⟩
  refine .ite (fun _ => ?_) fun _ => trivial
  refine keeps_seq (removeDidSubtree_about trivial) fun _ => ?_
  exact keeps_seq (setCreatedMode_about (about_allows (mem_singleton_self _)) mode) fun _ => trivial

theorem mlReadlink_keep (size : Nat) : Keep vol paths (mlReadlink vol p size) := by
  unfold mlReadlink
  simp only [hq]
  refine .guard fun _ => ?_
  refine keep_alloc.bind fun b => ?_
  refine .guard fun _ => ?_
  refine keep_getDirid hm (fun e _ => .ret _) fun did name => ?_
  refine keeps_seq (fun s _ => ⟨trivial, trivial⟩) fun fp => ?_
  have hopen : (openforkInto vol false did AFP_OPENFORK_ALLOWREAD 0 name fp).Keeps (fun _ => True)
      (MlReq.About vol.toVolume paths [⟨did, name⟩]) fun _ => True := by
    refine ⟨wire_mem (mem_singleton_self _), fun x => ?_⟩
    exact .ite (fun _ _ _ => ⟨trivial, trivial⟩) fun _ => trivial
  refine keeps_seq hopen fun rc => ?_
  refine .guard fun _ => ?_
  refine keeps_seq (fun s _ => ⟨trivial, trivial⟩) fun _ => ?_
  refine keeps_seq (fun s _ => ⟨trivial, trivial⟩) fun f => ?_
  refine keeps_seq ⟨trivial, fun _ => trivial⟩ fun x => ?_
  refine keeps_seq ⟨trivial, fun _ => trivial⟩ fun closed => ?_
  refine keeps_seq (fun s _ => ⟨trivial, trivial⟩) fun _ => ?_
  refine .guard fun _ => ?_
  exact .guard fun _ => trivial

theorem rename_keep {p' q' : Path} (hq' : vol.convertPath p' = .ok q') (hm' : q' ∈ paths) :
    Keep vol paths (Ml.rename vol p p') := by
  unfold Ml.rename Ml.resolveRename
  simp only [hq, hq']
  intro s log h
  by_cases hw : vol.isReadonly = true
  · simp only [hw]
    exact wp_ret.2 h
  simp only [hw]
  refine wp_lookup hm h (fun e _ => .ret _) fun d n log _ hf hlook => ?_
  refine wp_lookup hm' hlook (fun e _ => .ret _) fun d' n' log' hmono hf' hlook' => ?_
  have hos : ∀ o ∈ ([⟨d, n⟩, ⟨d', n'⟩] : List ObjName),
      Found vol.toVolume log' (o.wire vol.toVolume) := by
    simpa using ⟨hmono _ hf, hf'⟩
  have hrest : (do
      let ret ← Ml.renameObjects vol ⟨d, n⟩ ⟨d', n'⟩
      Ml.removeDidSubtree q
      Ml.removeDidSubtree q'
      return -ret : MlCall Int).Keeps (fun _ => True)
      (MlReq.About vol.toVolume paths [⟨d, n⟩, ⟨d', n'⟩]) fun _ => True := by
    refine keeps_seq (renameObjects_about (by simp) (by simp)) fun ret => ?_
    refine keeps_seq (removeDidSubtree_about trivial) fun _ => ?_
    exact keeps_seq (removeDidSubtree_about trivial) fun _ => trivial
  exact wp_about hrest trivial hlook' hos

/-! ## The calls on metadata -/

theorem keep_openMeta {kind : MetaKind} (hkind : kind = .resource ∨ kind = .finderinfo)
    {flags fp : Nat} {x : Int → α} {k : Int → MlCall α}
    (hok : ∀ o ret, OnFork vol paths fp o kind (k ret)) :
    Keep vol paths (openAppledoubleMeta vol p kind flags fp >>= fun e =>
      if e < 0 then ret (x e) else k e) := by
  have herr : ∀ e < 0, Keep vol paths (if e < 0 then ret (x e) else k e) := by
    intro e he
    rw [if_pos he]
    exact .ret _
  have hok : ∀ o e, OnFork vol paths fp o kind (if e < 0 then ret (x e) else k e) :=
    fun o e => .guard fun _ => hok o e
  unfold openAppledoubleMeta
  simp only [hq]
  by_cases hv : invalidFilename vol q = true
  · rw [if_pos hv]
    exact herr (-ENAMETOOLONG) (by decide)
  rw [if_neg hv]
  intro s log h
  have hset : ∀ k' : Int → MlCall α, (∀ e < 0, Keep vol paths (k' e)) →
      (∀ o, OnFork vol paths fp o kind (k' 0)) →
      Wp (record mayAnswer) (getDiridInto q fp >>= k')
        { s with file := Function.update s.file fp { resource := kind } } log
        fun _ _ log' => Addressed vol.toVolume paths log' := by
    intro k' herr' hok'
    refine wp_getDiridInto hm herr' (fun o => ?_) h
    have hk : (Function.update s.file fp { resource := kind } fp).resource = kind := by simp
    rw [hk]
    exact hok' o
  rcases hkind with rfl | rfl
  · show Wp (record mayAnswer) ((getDiridInto q fp >>= fun refused =>
      if refused < 0 then ret refused else llOpen vol flags fp) >>= _)
      { s with file := Function.update s.file fp { resource := .resource } } log _
    rw [bind_assoc]
    refine hset _ (fun e he => ?_) fun o => ?_
    · rw [if_pos he]
      exact herr e he
    · exact keeps_seq (llOpen_onFork records_frames flags) (hok o)
  · exact hset _ herr fun o => hok o 0

theorem mlGetresourcefork_keep (hroot : ¬Afp2Root vol q) (size : Nat) (position : Int) :
    Keep vol paths (mlGetresourcefork vol p size position) := by
  unfold mlGetresourcefork
  simp only [hq]
  refine (llGetattr_keep hm hroot true).bind fun x => ?_
  cases x with
  | error e => exact .ret _
  | ok st =>
    refine .guard fun _ => ?_
    refine .guard fun _ => ?_
    refine .guard fun _ => ?_
    refine .atom fun s => ?_
    refine keep_openMeta hq hm (.inl rfl) fun o ret => ?_
    refine keeps_seq (resourceforkLoop_tends records_frames.tends.reading) fun read => ?_
    refine keeps_seq (appledoubleClose_onFork (.inl rfl)) fun _ => ?_
    cases read <;> trivial

theorem writeResourceFork_keep (value : Bytes) (position : Int) (whole : Bool) :
    Keep vol paths (writeResourceFork vol p value position whole) := by
  refine .guard fun _ => ?_
  refine .guard fun _ => ?_
  refine .guard fun _ => ?_
  refine .atom fun s => ?_
  refine keep_openMeta hq hm (.inl rfl) fun o ret => ?_
  have hclose : OnFork vol paths s.nextFile o .resource (appledoubleClose vol s.nextFile) :=
    appledoubleClose_onFork (.inl rfl)
  refine keeps_ite_seq trivial (appledoubleWrite_tends records_frames.tends) fun x => ?_
  refine .ite (fun _ => keeps_seq hclose fun _ => trivial) fun _ => ?_
  refine keeps_ite_seq (mlFtruncate_tends records_frames.tends) trivial fun ret => ?_
  refine .ite (fun _ => keeps_seq hclose fun _ => trivial) fun _ => ?_
  exact keeps_seq hclose fun _ => trivial

theorem mlSetresourceforkFlags_keep (hroot : ¬Afp2Root vol q) (value : Bytes) (position : Int)
    (flags : Nat) : Keep vol paths (mlSetresourceforkFlags vol p value position flags) := by
  refine .guard fun _ => ?_
  refine .ite (fun _ => ?_) fun _ => writeResourceFork_keep hq hm value position true
  refine (mlGetresourcefork_keep hq hm hroot 0 0).bind fun present => ?_
  exact .guard fun _ => writeResourceFork_keep hq hm value position true

theorem mlRemoveresourcefork_keep (hroot : ¬Afp2Root vol q) :
    Keep vol paths (mlRemoveresourcefork vol p) := by
  refine (mlGetresourcefork_keep hq hm hroot 0 0).bind fun present => ?_
  exact .guard fun _ => writeResourceFork_keep hq hm [] 0 false

theorem mlGetfinderinfo_keep (size : Nat) : Keep vol paths (mlGetfinderinfo vol p size) := by
  refine .atom fun s => ?_
  refine keep_openMeta hq hm (.inr rfl) fun o ret => ?_
  refine keeps_seq (appledoubleRead_tends records_frames.tends.reading) fun read => ?_
  refine keeps_seq (appledoubleClose_onFork (.inr rfl)) fun _ => ?_
  rcases read with _ | (_ | _) <;> trivial

theorem mlSetfinderinfo_keep (value : Bytes) : Keep vol paths (mlSetfinderinfo vol p value) := by
  refine .guard fun _ => ?_
  refine .guard fun _ => ?_
  refine .atom fun s => ?_
  refine keep_openMeta hq hm (.inr rfl) fun o ret => ?_
  refine keeps_seq (appledoubleWrite_tends records_frames.tends) fun x => ?_
  exact keeps_seq (appledoubleClose_onFork (.inr rfl)) fun _ => trivial

theorem mlSetfinderinfoFlags_keep (value : Bytes) (flags : Nat) :
    Keep vol paths (mlSetfinderinfoFlags vol p value flags) := by
  refine .guard fun _ => ?_
  refine .ite (fun _ => ?_) fun _ => mlSetfinderinfo_keep hq hm value
  refine (mlGetfinderinfo_keep hq hm 0).bind fun present => ?_
  exact .guard fun _ => mlSetfinderinfo_keep hq hm value

/-! ## The calls on extended attributes -/

/-- The volume has extended attributes for the path. -/
def HasExtAttrs (vol : ServedVolume) (p : Path) : Prop :=
  vol.attributes &&& kSupportsExtAttrs ≠ 0 ∧ p ≠ [slash]

theorem mlGetxattr_keep (hroot : ¬Afp2Root vol q) (h : HasExtAttrs vol p → p = q) (name : Name)
    (size : Nat) : Keep vol paths (mlGetxattr vol p name size) := by
  refine .ite (fun _ => mlGetresourcefork_keep hq hm hroot size 0) fun _ => ?_
  refine .ite (fun _ => mlGetfinderinfo_keep hq hm size) fun _ => ?_
  refine .guard fun hs => ?_
  refine .guard fun _ => ?_
  refine .guard fun hp => ?_
  cases normalizeXattrName name with
  | error e => exact .ret _
  | ok afpName =>
    refine keep_getDirid (h ⟨hs, hp⟩ ▸ hm) (fun e _ => .ret _) fun did name => ?_
    exact ⟨wire_mem (mem_singleton_self _), fun _ => trivial⟩

omit hq in
theorem mlListxattr_keep (h : HasExtAttrs vol p → p = q) (size : Nat) :
    Keep vol paths (mlListxattr vol p size) := by
  refine .guard fun hs => ?_
  refine keep_getDirid (h (not_or.1 hs) ▸ hm) (fun e _ => .ret _) fun did name => ?_
  exact ⟨wire_mem (mem_singleton_self _), fun _ => trivial⟩

theorem mlSetxattr_keep (hroot : ¬Afp2Root vol q)
    (h : vol.isReadonly = false → HasExtAttrs vol p → p = q) (name : Name) (value : Bytes)
    (flags : Nat) : Keep vol paths (mlSetxattr vol p name value flags) := by
  refine .guard fun _ => ?_
  refine .ite (fun _ => mlSetresourceforkFlags_keep hq hm hroot value 0 flags) fun _ => ?_
  refine .ite (fun _ => mlSetfinderinfoFlags_keep hq hm value flags) fun _ => ?_
  refine .guard fun hw => ?_
  refine .guard fun hs => ?_
  refine .guard fun _ => ?_
  refine .guard fun hp => ?_
  cases normalizeXattrName name with
  | error e => exact .ret _
  | ok afpName =>
    refine keep_getDirid (h (Bool.eq_false_iff.2 hw) ⟨hs, hp⟩ ▸ hm) (fun e _ => .ret _)
      fun did name => ?_
    exact ⟨wire_mem (mem_singleton_self _), fun _ => trivial⟩

theorem mlRemovexattr_keep (hroot : ¬Afp2Root vol q)
    (h : vol.isReadonly = false → HasExtAttrs vol p → p = q) (name : Name) :
    Keep vol paths (mlRemovexattr vol p name) := by
  refine .ite (fun _ => mlRemoveresourcefork_keep hq hm hroot) fun _ => ?_
  refine .ite (fun _ => mlSetfinderinfo_keep hq hm _) fun _ => ?_
  refine .guard fun hw => ?_
  refine .guard fun hs => ?_
  refine .guard fun _ => ?_
  refine .guard fun hp => ?_
  cases normalizeXattrName name with
  | error e => exact .ret _
  | ok afpName =>
    refine keep_getDirid (h (Bool.eq_false_iff.2 hw) ⟨hs, hp⟩ ▸ hm) (fun e _ => .ret _)
      fun did name => ?_
    exact ⟨wire_mem (mem_singleton_self _), fun _ => trivial⟩

end

end Calls

end NC
