import NetatalkClient.Proof.Midlevel.Records

/-!
# The functions on one object

Each function that is given an object's folder and name sends requests about it alone
(`Allows`), and one that is given an open fork's record sends requests about the object
the record names, which it leaves in the record (`Frames`). What such requests keep, every
one of these functions keeps.
-/

namespace NC

open Prog

/-- Every request about the object alone may be sent, but a move, and the cache may be told
to forget a path. -/
structure Allows (vol : Volume) (ok : MlReq → Prop) (o : ObjName) : Prop where
  sys : ∀ r : Request, r.NamesBy (· = o.wire vol) → ¬r.Moves → ok (.sys r)
  forget : ∀ path, ok (.did (.removeDidSubtree path))

section Objects

variable {vol : ServedVolume} {paths : List Path} {os : List ObjName} {I : MlState → Prop}
variable {ok : MlReq → Prop} {did : Nat} {name : Name}

theorem wire_mem (h : ⟨did, name⟩ ∈ os) :
    (⟨did, vol.wireName name⟩ : ObjName) ∈ os.map (ObjName.wire vol.toVolume) :=
  List.mem_map.2 ⟨_, h, rfl⟩

theorem about_allows (h : ⟨did, name⟩ ∈ os) :
    Allows vol.toVolume (MlReq.About vol.toVolume paths os) ⟨did, name⟩ where
  sys r hr _ := hr.mono fun o ho => by
    subst ho
    exact wire_mem h
  forget _ := trivial

section

variable (h : Allows vol.toVolume ok ⟨did, name⟩)

include h

theorem getParameters_about (bitmap : Nat) :
    (getParameters vol did name bitmap).Keeps I ok fun _ => True :=
  ⟨h.sys _ rfl id, fun _ => trivial⟩

theorem isDirectory_about : (isDirectory vol did name).Keeps I ok fun _ => True :=
  ⟨h.sys _ rfl id, fun _ => trivial⟩

theorem setParameters_about (bitmap : Nat) (e : Params) :
    (setParameters vol did name bitmap e).Keeps I ok fun _ => True := by
  refine .ite (fun _ => ?_) fun _ => ?_ <;> exact ⟨h.sys _ rfl id, fun _ => trivial⟩

theorem setOwner_about (fp : Params) (mode uid gid : Nat) :
    (setOwner vol did name fp mode uid gid).Keeps I ok fun _ => True := by
  refine .guard fun _ => ?_
  refine .guard fun _ => ?_
  refine .guard fun _ => ?_
  refine keeps_seq (setParameters_about h _ _) fun ret => ?_
  refine .guard fun _ => ?_
  refine keeps_seq (getParameters_about h _) fun x => ?_
  exact .guard fun _ => trivial

theorem setattrChange_about (a : SetAttr) (bitmap : Nat) (fp : Params) :
    (setattrChange vol did name a bitmap fp).Keeps I ok fun _ => True := by
  refine keeps_seq (setParameters_about h _ _) fun ret => ?_
  refine .ite (fun _ => ?_) fun _ => trivial
  exact keeps_seq (setParameters_about h _ _) fun _ => trivial

theorem setattrCheckMode_about (fp : Params) (was mode : Nat) (result : Int) :
    (setattrCheckMode vol did name fp was mode result).Keeps I ok fun _ => True := by
  refine .guard fun _ => ?_
  refine .guard fun _ => ?_
  refine keeps_seq (getParameters_about h _) fun x => ?_
  exact .guard fun _ => trivial

theorem setattrObject_about (a : SetAttr) (privs : Nat) (result : Int) :
    (setattrObject vol did name a privs result).Keeps I ok fun _ => True := by
  refine keeps_ite_seq trivial (getParameters_about h _) fun x => ?_
  refine keeps_ite_seq trivial (setattrChange_about h _ _ _) fun ret => ?_
  refine .guard fun _ => ?_
  refine keeps_ite_seq (setattrCheckMode_about h _ _ _ _) trivial fun checked => ?_
  cases checked with
  | error e => trivial
  | ok result =>
    refine .guard fun _ => ?_
    exact keeps_seq (setOwner_about h _ _ _ _) fun _ => trivial

end

theorem removeDidSubtree_about {path : Path} (h : ok (.did (.removeDidSubtree path))) :
    (Ml.removeDidSubtree path).Keeps I ok fun _ => True :=
  ⟨h, fun _ => trivial⟩

theorem deleteObject_about (h : Allows vol.toVolume ok ⟨did, name⟩) (converted : Path) :
    (deleteObject vol converted did name).Keeps I ok fun _ => True := by
  refine ⟨h.sys _ rfl id, fun rc => ?_⟩
  refine .ite (fun _ => ?_) fun _ => trivial
  exact keeps_seq (removeDidSubtree_about (h.forget converted)) fun _ => trivial

theorem setCreatedMode_about (h : Allows vol.toVolume ok ⟨did, name⟩) (mode : Nat) :
    (setCreatedMode vol did name mode).Keeps I ok fun _ => True := by
  refine .ite (fun _ => ?_) fun _ => trivial
  refine keeps_ite_seq trivial (getParameters_about h _) fun x => ?_
  refine .ite (fun _ => ?_) fun _ => trivial
  exact keeps_seq (setParameters_about h _ _) fun _ => trivial

/-! ## Renaming -/

theorem afpDelete_about (h : Allows vol.toVolume ok ⟨did, name⟩) :
    (Ml.afpDelete vol did name).Keeps I ok fun _ => True :=
  ⟨h.sys _ rfl id, fun _ => trivial⟩

variable {src dst : ObjName}

theorem moveAndRename_about (hs : src ∈ os) (hd : dst ∈ os) :
    (Ml.afpMoveandrename vol src.did dst.did src.name none dst.name).Keeps I
      (MlReq.About vol.toVolume paths os) fun _ => True :=
  ⟨⟨wire_mem hs, .inr ⟨rfl, wire_mem hd⟩⟩, fun _ => trivial⟩

theorem afterMove_about (hs : src ∈ os) (hd : dst ∈ os) (rc : Int) :
    (Ml.afterMove vol src dst rc).Keeps I (MlReq.About vol.toVolume paths os) fun _ => True := by
  refine .ite (fun _ => ?_) fun _ => trivial
  refine keeps_seq (afpDelete_about (about_allows hd)) fun _ => ?_
  exact keeps_seq (moveAndRename_about hs hd) fun _ => trivial

theorem renameObjects_about (hs : src ∈ os) (hd : dst ∈ os) :
    (Ml.renameObjects vol src dst).Keeps I (MlReq.About vol.toVolume paths os) fun _ => True := by
  refine keeps_seq (isDirectory_about (about_allows hd)) fun dstType => ?_
  have hover : (do
      let rc ← Ml.afpMoveandrename vol src.did dst.did src.name none dst.name
      Ml.afterMove vol src dst rc : MlCall Int).Keeps I (MlReq.About vol.toVolume paths os)
      fun _ => True :=
    keeps_seq (moveAndRename_about hs hd) (afterMove_about hs hd)
  refine .ite (fun _ => ?_) fun _ => .ite (fun _ => ?_) fun _ => hover
  · exact ⟨⟨wire_mem hs, .inl ⟨wire_mem hd, rfl⟩⟩, afterMove_about hs hd⟩
  · refine ⟨⟨wire_mem hs, wire_mem hd⟩, fun rc => ?_⟩
    refine .ite (fun _ => ?_) fun _ => hover
    exact ⟨wire_mem hs, fun _ => trivial⟩

end Objects

/-! ## Forks -/

/-- `I` stays true of records that keep their objects, and allows every request about the
object of the record at `fp`. -/
structure Frames (vol : ServedVolume) (ok : MlReq → Prop) (I : MlState → Prop) (fp : Nat) :
    Prop where
  frame : ∀ {s s' : MlState}, I s → (∀ q, (s'.file q).did = (s.file q).did ∧
    (s'.file q).basename = (s.file q).basename ∧ (s'.file q).resource = (s.file q).resource) → I s'
  allows : ∀ {s : MlState}, I s →
    Allows vol.toVolume ok ⟨(s.file fp).did, (s.file fp).basename⟩
  nameless : ∀ r : Request, r.Nameless → ok (.sys r)

variable {α : Type} {g : FileInfo → MlCall α}

section Forks

variable {vol : ServedVolume} {ok : MlReq → Prop} {I : MlState → Prop} {fp : Nat}
variable (F : Frames vol ok I fp)
include F

theorem Frames.tends : TendsWriting vol fp ok I where
  frame hs _ _ h := F.frame hs fun q => by
    have hq := h q
    simp only [FileInfo.identity, Prod.mk.injEq] at hq
    exact ⟨hq.1, hq.2.1, hq.2.2.1⟩
  named hs _ hk hr := (F.allows hs).sys _ hr hk
  nameless _ hr := F.nameless _ hr

theorem getFile_onFork
    (h : ∀ f : FileInfo, Allows vol.toVolume ok ⟨f.did, f.basename⟩ →
      (g f).Keeps I ok fun _ => True) : (Ml.getFile fp >>= g).Keeps I ok fun _ => True :=
  fun s hs => ⟨hs, h (s.file fp) (F.allows hs)⟩

theorem modifyFile_onFork {p : Nat} {f : FileInfo → FileInfo}
    (h : ∀ x, (f x).did = x.did ∧ (f x).basename = x.basename ∧ (f x).resource = x.resource) :
    (Ml.modifyFile p f).Keeps I ok fun _ => True := by
  refine fun s hs => ⟨F.frame hs fun q => ?_, trivial⟩
  by_cases hq : q = p
  · subst hq
    simpa using h (s.file q)
  · simp [hq]

theorem addOpenedFork_onFork (p : Nat) : (addOpenedFork p).Keeps I ok fun _ => True :=
  fun _ hs => ⟨F.frame hs fun _ => ⟨rfl, rfl, rfl⟩, trivial⟩

theorem removeOpenedFork_onFork (p : Nat) : (removeOpenedFork p).Keeps I ok fun _ => True :=
  fun _ hs => ⟨F.frame hs fun _ => ⟨rfl, rfl, rfl⟩, trivial⟩

theorem sys_onFork {r : Request} (h : r.Nameless) : (Ml.sys r).Keeps I ok fun _ => True :=
  ⟨F.nameless r h, fun _ => trivial⟩

theorem openforkInto_onFork (resource : Bool) (accessmode bitmap : Nat) {did : Nat} {name : Name}
    (h : Allows vol.toVolume ok ⟨did, name⟩) (p : Nat) :
    (openforkInto vol resource did accessmode bitmap name p).Keeps I ok fun _ => True := by
  refine ⟨h.sys _ rfl id, fun x => ?_⟩
  refine .ite (fun _ => ?_) fun _ => trivial
  exact keeps_seq (modifyFile_onFork F fun _ => ⟨rfl, rfl, rfl⟩) fun _ => trivial

omit F in
theorem llCreatefile_onFork {did : Nat} {name : Name} (h : Allows vol.toVolume ok ⟨did, name⟩) :
    (llCreatefile vol did name).Keeps I ok fun _ => True :=
  ⟨h.sys _ rfl id, fun _ => trivial⟩

section

variable {f : FileInfo} (h : Allows vol.toVolume ok ⟨f.did, f.basename⟩)

include h

omit F in
theorem llOpenFail_onFork (created : Bool) (ret : Int) :
    (llOpenFail vol f created ret).Keeps I ok fun _ => True :=
  .ite (fun _ => keeps_seq (afpDelete_about h) fun _ => trivial)
    fun _ => trivial

omit F in
theorem llOpenCreate_onFork (flags : Nat) :
    (llOpenCreate vol flags f).Keeps I ok fun _ => True := by
  refine .guard fun _ => ?_
  refine keeps_seq (llCreatefile_onFork h) fun rc => ?_
  refine .guard fun _ => ?_
  exact .guard fun _ => trivial

theorem llOpenQuery_onFork (p : Nat) : (llOpenQuery vol p f).Keeps I ok fun _ => True := by
  refine .guard fun _ => ?_
  refine ⟨h.sys _ rfl id, fun x => ?_⟩
  refine .guard fun _ => ?_
  refine .guard fun _ => ?_
  exact keeps_seq (modifyFile_onFork F fun _ => ⟨rfl, rfl, rfl⟩) fun _ => trivial

theorem llOpenTruncate_onFork (flags : Nat) (created : Bool) :
    (llOpenTruncate vol flags fp f created).Keeps I ok fun _ => True := by
  refine .guard fun _ => ?_
  refine getFile_onFork F fun opened _ => ?_
  refine keeps_seq (llSetforkSize_tends F.tends ..) fun ret => ?_
  refine .ite (fun _ => ?_) fun _ => ?_
  · refine keeps_seq (sys_onFork F fun _ => trivial) fun _ => ?_
    exact keeps_seq (removeOpenedFork_onFork F fp) fun _ => llOpenFail_onFork h _ _
  · exact keeps_seq (modifyFile_onFork F fun _ => ⟨rfl, rfl, rfl⟩) fun _ => trivial

end

theorem llOpen_onFork (flags : Nat) : (llOpen vol flags fp).Keeps I ok fun _ => True := by
  refine getFile_onFork F fun f h => ?_
  refine .guard fun _ => ?_
  refine keeps_seq (llOpenCreate_onFork h flags) fun x => ?_
  cases x with
  | error e => trivial
  | ok created =>
    refine keeps_seq (llOpenQuery_onFork F h fp) fun ret => ?_
    refine .ite (fun _ => ?_) fun _ => ?_
    · exact llOpenFail_onFork h created ret
    refine keeps_seq (modifyFile_onFork F fun _ => ⟨rfl, rfl, rfl⟩) fun _ => ?_
    refine keeps_seq (openforkInto_onFork F _ _ _ h fp) fun rc => ?_
    refine .ite (fun _ => ?_) fun _ => llOpenFail_onFork h _ _
    exact keeps_seq (addOpenedFork_onFork F fp) fun _ => llOpenTruncate_onFork F h flags created

end Forks

/-! ## The view's functions on a fork -/

section View

variable {vol : ServedVolume} {paths : List Path} {fp : Nat} {o : ObjName} {kind : MetaKind}

theorem records_frames :
    Frames vol (MlReq.About vol.toVolume paths [o]) (Records fp o kind) fp where
  frame hs h := by simpa [Records, h] using hs
  allows hs := about_allows (List.mem_singleton.2 (by rw [hs.1, hs.2.1]))
  nameless _ h := h _

theorem getFile_records
    (h : ∀ f : FileInfo, f.did = o.did → f.basename = o.name → f.resource = kind →
      OnFork vol paths fp o kind (g f)) : OnFork vol paths fp o kind (Ml.getFile fp >>= g) :=
  fun s hs => ⟨hs, h (s.file fp) hs.1 hs.2.1 hs.2.2⟩

theorem appledoubleClose_onFork (hkind : kind = .resource ∨ kind = .finderinfo) :
    OnFork vol paths fp o kind (appledoubleClose vol fp) := by
  refine getFile_records fun f _ _ hk => ?_
  rw [hk]
  rcases hkind with rfl | rfl
  · refine keeps_seq (mlCloseFlush_tends records_frames.tends) fun ret => ?_
    refine getFile_records fun f _ _ _ => ?_
    refine keeps_ite_seq (sys_onFork records_frames fun _ => trivial) trivial fun flushed => ?_
    refine keeps_seq (sys_onFork records_frames fun _ => trivial) fun rc => ?_
    exact keeps_seq (removeOpenedFork_onFork records_frames fp) fun _ => trivial
  · trivial

end View

end NC
