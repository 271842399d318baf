import NetatalkClient.Proof.Midlevel.PathCalls
import NetatalkClient.Proof.Midlevel.Refused
import NetatalkClient.Proof.Names.Components

/-!
# Which calls name the converted path

`path_calls_obey_iff` says for each call on a path when all its requests are about the
object at the converted path, and `Astray` runs show that it is not otherwise: the
calls on extended attributes look up the path as it was given, a path of the view
stands for another object, and AFP 2 reads the root's attributes under the volume's
name.
-/

namespace NC

open List Prog

/-- In every run, whatever the answers, the call's requests are about the objects at the
paths. -/
def Obeys (vol : ServedVolume) (paths : List Path) {α : Type} (c : MlCall α) : Prop :=
  c.Always MlReq.mayAnswer fun _ log => Addressed vol.toVolume paths log

/-- The calls on a path. -/
inductive PathCall where
  | mlOpen
  | mlGetattr
  | mlReaddir
  | mlSetattr
  | mlUnlink
  | mlRmdir
  | mlMkdir
  | mlReadlink
  | mlRename
  | mlGetxattr
  | mlSetxattr
  | mlListxattr
  | mlRemovexattr
  | mlGetfinderinfo
  | mlGetresourcefork

/-- The call on `p` keeps to the object at `q`, whatever its other arguments; a rename
keeps to that and the one at its other path. -/
def PathCall.Obeys (vol : ServedVolume) (p q : Path) : PathCall → Prop
  | .mlOpen => ∀ flags, NC.Obeys vol [q] (NC.mlOpen vol p flags)
  | .mlGetattr => NC.Obeys vol [q] (NC.mlGetattr vol p)
  | .mlReaddir => NC.Obeys vol [q] (NC.mlReaddir vol p)
  | .mlSetattr => ∀ a, NC.Obeys vol [q] (NC.mlSetattr vol p a)
  | .mlUnlink => NC.Obeys vol [q] (NC.mlUnlink vol p)
  | .mlRmdir => NC.Obeys vol [q] (NC.mlRmdir vol p)
  | .mlMkdir => ∀ mode, NC.Obeys vol [q] (NC.mlMkdir vol p mode)
  | .mlReadlink => ∀ size, NC.Obeys vol [q] (NC.mlReadlink vol p size)
  | .mlRename => ∀ p' q', vol.convertPath p' = .ok q' →
      NC.Obeys vol [q, q'] (Ml.rename vol p p') ∧ NC.Obeys vol [q, q'] (Ml.rename vol p' p)
  | .mlGetxattr => ∀ name size, NC.Obeys vol [q] (NC.mlGetxattr vol p name size)
  | .mlSetxattr => ∀ name value flags, NC.Obeys vol [q] (NC.mlSetxattr vol p name value flags)
  | .mlListxattr => ∀ size, NC.Obeys vol [q] (NC.mlListxattr vol p size)
  | .mlRemovexattr => ∀ name, NC.Obeys vol [q] (NC.mlRemovexattr vol p name)
  | .mlGetfinderinfo => ∀ size, NC.Obeys vol [q] (NC.mlGetfinderinfo vol p size)
  | .mlGetresourcefork => ∀ size position,
      NC.Obeys vol [q] (NC.mlGetresourcefork vol p size position)

/-- When the call on `p` keeps to the object at `q`, the converted path. -/
def PathCall.Faithful (vol : ServedVolume) (p q : Path) : PathCall → Prop
  | .mlOpen => invalidFilename vol q = true ∨ (viewOf vol q).1 = .none ∨
      (viewOf vol q).1 = .appledouble ∨ (viewOf vol q).1 = .serverIcon
  | .mlGetattr => match (viewOf vol q).1 with
      | .none => ¬Afp2Root vol q
      | .resource | .finderinfo | .comment => invalidFilename vol (viewOf vol q).2 = true
      | .appledouble | .serverIcon => True
  | .mlReaddir => (viewOf vol q).1 = .appledouble → invalidFilename vol (viewOf vol q).2 = true
  | .mlSetattr => Afp2Root vol q → vol.isReadonly = true ∨ (viewOf vol p).1 ≠ .none ∨
      vol.hasFlag VOLUME_EXTRA_FLAGS_VOL_SUPPORTS_UNIX = true ∨
      vol.hasFlag VOLUME_EXTRA_FLAGS_IGNORE_UNIXPRIVS = false
  | .mlUnlink | .mlRmdir | .mlMkdir | .mlReadlink | .mlRename | .mlGetfinderinfo => True
  | .mlGetxattr => ¬Afp2Root vol q ∧ (HasExtAttrs vol p → p = q)
  | .mlListxattr => HasExtAttrs vol p → p = q
  | .mlSetxattr | .mlRemovexattr =>
      ¬Afp2Root vol q ∧ (vol.isReadonly = false → HasExtAttrs vol p → p = q)
  | .mlGetresourcefork => ¬Afp2Root vol q

section Faithful

variable {vol : ServedVolume} {p q : Path}

theorem Keep.obeys {paths : List Path} {α : Type} {c : MlCall α} (h : Keep vol paths c) :
    NC.Obeys vol paths c :=
  fun s => h s [] nofun

theorem obeys_of_faithful (hq : vol.convertPath p = .ok q) {c : PathCall}
    (h : c.Faithful vol p q) : c.Obeys vol p q := by
  have hm : q ∈ [q] := mem_singleton_self q
  cases c with
  | mlOpen => exact fun flags => (mlOpen_keep hq hm h flags).obeys
  | mlGetattr => exact (mlGetattr_keep hq hm h).obeys
  | mlReaddir => exact (mlReaddir_keep hq hm h).obeys
  | mlSetattr => exact fun a => (mlSetattr_keep hq hm h a).obeys
  | mlUnlink => exact (mlUnlink_keep hq hm).obeys
  | mlRmdir => exact (mlRmdir_keep hq hm).obeys
  | mlMkdir => exact fun mode => (mlMkdir_keep hq hm mode).obeys
  | mlReadlink => exact fun size => (mlReadlink_keep hq hm size).obeys
  | mlRename =>
    intro p' q' hq'
    exact ⟨(rename_keep hq (by simp) hq' (by simp)).obeys,
      (rename_keep hq' (by simp) hq (by simp)).obeys⟩
  | mlGetxattr => exact fun name size => (mlGetxattr_keep hq hm h.1 h.2 name size).obeys
  | mlSetxattr =>
    exact fun name value flags => (mlSetxattr_keep hq hm h.1 h.2 name value flags).obeys
  | mlListxattr => exact fun size => (mlListxattr_keep hm h size).obeys
  | mlRemovexattr => exact fun name => (mlRemovexattr_keep hq hm h.1 h.2 name).obeys
  | mlGetfinderinfo => exact fun size => (mlGetfinderinfo_keep hq hm size).obeys
  | mlGetresourcefork =>
    exact fun size position => (mlGetresourcefork_keep hq hm h size position).obeys

end Faithful

/-! ## Runs that go astray -/

/-- An answer to every request, with no lookup successful. -/
def noAnswer : (r : MlReq) → r.Ans
  | .did (.getDirid _) => .error (-1)
  | .did (.removeDidSubtree _) => ()
  | .did (.removeDidLineage _) => ()
  | .did (.checkDidEntry ..) => ()
  | .did (.checkDidEntryListing ..) => ()
  | .sys _ => default

theorem noAnswer_mayAnswer (r : MlReq) : r.mayAnswer (noAnswer r) = true := by
  match r with
  | .did (.getDirid _) => rfl
  | .did (.removeDidSubtree _) | .did (.removeDidLineage _) | .did (.checkDidEntry ..)
  | .did (.checkDidEntryListing ..) | .sys _ => rfl

/-- A lookup of another path than these was made. -/
def Lost (paths : List Path) (log : MlLog) : Prop :=
  ∃ path ∉ paths, ∃ x, ⟨.did (.getDirid path), x⟩ ∈ log

/-- Some run of the call looks up another path. -/
abbrev Strays (paths : List Path) {α : Type} (c : MlCall α) (s : MlState) (log : MlLog) : Prop :=
  May (record MlReq.mayAnswer) c s log fun _ _ log' => Lost paths log'

variable {vol : ServedVolume} {paths : List Path} {α β : Type} {s : MlState} {log : MlLog}

/-- A run goes on to its end with no lookup successful. -/
theorem may_finish (c : MlCall α) (s : MlState) {I : MlLog → Prop} (hlog : I log)
    (hI : ∀ log r, I log → I (log ++ [⟨r, noAnswer r⟩])) :
    May (record MlReq.mayAnswer) c s log fun _ _ log' => I log' := by
  refine may_end (fun log r h => ?_) c s hlog
  exact ⟨noAnswer, _, _, record_eq_some.2 ⟨noAnswer_mayAnswer r, rfl, rfl⟩, hI log r h⟩

theorem Strays.not_obeys {c : MlCall α} (h : Strays paths c s []) : ¬Obeys vol paths c := by
  refine not_always (h.mono ?_)
  rintro _ _ log ⟨path, hpath, x, hx⟩ ha
  exact hpath (ha _ hx)

theorem Strays.bind {c : MlCall α} {k : α → MlCall β} (h : Strays paths c s log) :
    Strays paths (c >>= k) s log := by
  refine may_bind (h.mono fun a s' log' hlost => may_finish _ _ hlost ?_)
  rintro log r ⟨path, hpath, x, hx⟩
  exact ⟨path, hpath, x, mem_append_left _ hx⟩

variable {path : Path}

theorem strays_getDirid (hpath : path ∉ paths) : Strays paths (Ml.getDirid path) s log := by
  refine may_answer (r := MlReq.did (.getDirid path)) (.error (-1)) rfl (may_ret ?_)
  exact ⟨path, hpath, _, mem_append_right _ (mem_singleton_self _)⟩

theorem strays_getDiridInto (hpath : path ∉ paths) (fp : Nat) :
    Strays paths (getDiridInto path fp) s log :=
  (strays_getDirid hpath).bind

theorem strays_alloc {k : Bool → MlCall α} (h : ∀ log, Strays paths (k true) s log) :
    Strays paths (Ml.alloc >>= k) s log := by
  refine may_answer (r := MlReq.sys .alloc) true rfl ?_
  exact h _

theorem strays_extraTranslate {q : Path} {k : Except Int (MetaKind × Path) → MlCall α}
    (h : ∀ log, Strays paths (k (.ok (viewOf vol q))) s log) :
    Strays paths (extraTranslate vol q >>= k) s log := by
  unfold extraTranslate
  revert h
  rcases viewOf vol q with ⟨kind, newpath⟩
  intro h
  have halloc : Strays paths ((do
      if ← Ml.alloc then return .ok (kind, newpath) else return .error (-ENOMEM)) >>= k) s log := by
    exact strays_alloc h
  cases kind with
  | none | serverIcon => exact h log
  | _ => exact halloc

theorem strays_llGetattr (hpath : path ∉ paths) (hv : ¬invalidFilename vol path = true)
    (resource : Bool) : Strays paths (llGetattr vol path resource) s log := by
  unfold llGetattr
  rw [if_neg hv]
  exact (strays_getDirid hpath).bind

theorem strays_llReaddir (hpath : path ∉ paths) (hv : ¬invalidFilename vol path = true)
    (resource : Bool) : Strays paths (llReaddir vol path resource) s log := by
  unfold llReaddir
  rw [if_neg hv]
  exact (strays_getDirid hpath).bind

/-! ## The root of AFP 2 -/

/-- AFP 2 asks for the volume's name in the folder above the root, which no lookup
returned. -/
theorem afp2Root_not_obeys (hv : vol.avNumber < 30) (resource : Bool)
    (k : Except Int Stat → MlCall α) : ¬Obeys vol paths (llGetattr vol [slash] resource >>= k) := by
  refine not_always (s := .fresh) ?_
  have hroot : invalidFilename vol [slash] ≠ true := by simp [invalidFilename]
  have hname : getattrName vol [slash] rootDid [] = (1, vol.volumeName) := if_pos ⟨hv, rfl⟩
  let o := getattrName vol [slash] rootDid []
  let r : Request := .getFileDirParms o.1 (getattrFilebitmap vol resource) (getattrDirbitmap vol)
    (vol.wireName o.2)
  let I : MlLog → Prop := fun log => (∃ x, ⟨.sys r, x⟩ ∈ log) ∧
    ∀ path did name, ⟨.did (.getDirid path), .ok (did, name)⟩ ∈ log → did ≠ 1
  unfold llGetattr
  refine may_answer (r := MlReq.did (.getDirid [slash])) (.ok (rootDid, [])) rfl ?_
  refine may_answer (r := MlReq.sys r) (noAnswer (.sys r)) rfl ?_
  refine (may_finish (I := I) _ _ ⟨⟨_, mem_append_right _ (mem_singleton_self _)⟩, ?_⟩
    ?_).mono ?_
  · intro path did name h
    simp at h
    obtain ⟨-, rfl, -⟩ := h
    decide
  · rintro log r' ⟨⟨x, hx⟩, hl⟩
    refine ⟨⟨x, mem_append_left _ hx⟩, fun path did name h => ?_⟩
    rcases mem_append.1 h with h | h
    · exact hl path did name h
    · obtain ⟨rfl, h⟩ := Sigma.mk.inj (mem_singleton.1 h)
      cases eq_of_heq h
  · rintro _ _ log ⟨⟨x, hx⟩, hl⟩ h
    obtain ⟨path, did, name, hm, heq⟩ := h _ hx
    have hdid : o.1 = did := congrArg ObjName.did heq
    rw [show o.1 = 1 from congrArg Prod.fst hname] at hdid
    exact hl path did name hm hdid.symm

/-! ## The other object of the view -/

/-- The view's path of another object is shorter than the path it was found in. -/
theorem viewOf_ne {vol : ServedVolume} {q : Path} (h : (viewOf vol q).1 ≠ .none)
    (h' : (viewOf vol q).1 ≠ .serverIcon) : (viewOf vol q).2 ≠ q := by
  suffices hlt : (viewOf vol q).2.length < q.length by
    intro heq
    rw [heq] at hlt
    omega
  rcases viewOf_cases h h' with ⟨parent, hq, hv⟩ | ⟨a, b, hf, hv⟩
  · rw [hv, hq]
    split <;> simp [appledouble]
  · obtain ⟨r, rfl, hr⟩ := findView_eq hf
    obtain ⟨suffix, -, hs⟩ := pseudoFile_path (r ++ [slash] ++ b)
    have hlen := congrArg List.length hs
    rw [nil_append] at hr
    rw [hv, hr]
    simp at hlen ⊢
    omega

variable {p q : Path}

/-- The kinds whose pseudo-files stand for another object. -/
def MetaKind.Pseudo (kind : MetaKind) : Prop :=
  kind = .resource ∨ kind = .finderinfo ∨ kind = .comment

theorem viewOf_not_mem (hk : (viewOf vol q).1.Pseudo ∨ (viewOf vol q).1 = .appledouble) :
    (viewOf vol q).2 ∉ [q] := by
  rw [mem_singleton]
  apply viewOf_ne <;> rcases hk with (h | h | h) | h <;> rw [h] <;> decide

theorem strays_appledoubleOpen (hk : (viewOf vol q).1.Pseudo) (flags fp : Nat) (log : MlLog) :
    Strays [q] (appledoubleOpen vol q flags fp) s log := by
  have hne := viewOf_not_mem (.inl hk)
  refine strays_extraTranslate fun log => ?_
  revert hk hne
  rcases viewOf vol q with ⟨kind, newpath⟩
  intro hk hne
  rcases hk with rfl | rfl | rfl <;> exact (strays_getDiridInto hne fp).bind

theorem viewOf_root : viewOf vol [slash] = (.none, []) := by
  unfold viewOf
  split
  · rfl
  · rw [if_neg (by decide), if_pos (by decide)]

section

variable (hq : vol.convertPath p = .ok q)

include hq

theorem mlOpen_strays (hv : ¬invalidFilename vol q = true) (hk : (viewOf vol q).1.Pseudo) :
    Strays [q] (mlOpen vol p 0) s [] := by
  unfold mlOpen
  simp only [hq, if_neg hv]
  rw [if_neg (by simp)]
  refine strays_alloc fun log => may_atom ?_
  exact (strays_appledoubleOpen hk 0 _ _).bind

theorem mlGetattr_strays (hk : (viewOf vol q).1.Pseudo)
    (hv : ¬invalidFilename vol (viewOf vol q).2 = true) : Strays [q] (mlGetattr vol p) s [] := by
  have hne := viewOf_not_mem (.inl hk)
  unfold mlGetattr appledoubleGetattr
  simp only [hq]
  refine Strays.bind (strays_extraTranslate fun log => ?_)
  revert hk hne hv
  rcases viewOf vol q with ⟨kind, newpath⟩
  intro hk hv hne
  rcases hk with rfl | rfl | rfl <;> exact (strays_llGetattr hne hv _).bind

theorem mlReaddir_strays (hk : (viewOf vol q).1 = .appledouble)
    (hv : ¬invalidFilename vol (viewOf vol q).2 = true) : Strays [q] (mlReaddir vol p) s [] := by
  have hne := viewOf_not_mem (.inr hk)
  unfold mlReaddir appledoubleReaddir
  simp only [hq]
  refine Strays.bind (strays_extraTranslate fun log => ?_)
  revert hk hne hv
  rcases viewOf vol q with ⟨kind, newpath⟩
  rintro rfl hv hne
  exact (strays_llReaddir hne hv _).bind

end

/-- An attribute that is none of the special ones. -/
def plainAttr : Name := [97]

section

variable (h : HasExtAttrs vol p) (hne : p ≠ q)

include h hne

theorem mlListxattr_strays : Strays [q] (mlListxattr vol p 0) s [] := by
  unfold mlListxattr
  rw [if_neg (not_or.2 h)]
  exact (strays_getDirid (by simpa using hne)).bind

theorem mlGetxattr_strays : Strays [q] (mlGetxattr vol p plainAttr 0) s [] := by
  unfold mlGetxattr
  rw [if_neg (by decide), if_neg (by decide), if_neg h.1, if_neg (by decide), if_neg h.2]
  exact (strays_getDirid (by simpa using hne)).bind

theorem mlSetxattr_strays (hw : vol.isReadonly = false) :
    Strays [q] (mlSetxattr vol p plainAttr [] 0) s [] := by
  unfold mlSetxattr
  rw [if_neg (by decide), if_neg (by decide), if_neg (by decide), if_neg (by simp [hw]), if_neg h.1,
    if_neg (by decide), if_neg h.2]
  exact (strays_getDirid (by simpa using hne)).bind

theorem mlRemovexattr_strays (hw : vol.isReadonly = false) :
    Strays [q] (mlRemovexattr vol p plainAttr) s [] := by
  unfold mlRemovexattr
  rw [if_neg (by decide), if_neg (by decide), if_neg (by simp [hw]), if_neg h.1,
    if_neg (by decide), if_neg h.2]
  exact (strays_getDirid (by simpa using hne)).bind

end

/-- The calls that read the root's attributes read them under the volume's name. -/
theorem afp2Root_calls (hq : vol.convertPath p = .ok q) (hroot : Afp2Root vol q) {paths : List Path} :
    ¬Obeys vol paths (mlGetattr vol p) ∧ ¬Obeys vol paths (mlGetresourcefork vol p 0 0) ∧
    ¬Obeys vol paths (mlGetxattr vol p resourceforkAttr 0) ∧
    ¬Obeys vol paths (mlSetxattr vol p resourceforkAttr [] kXAttrCreate) ∧
    ¬Obeys vol paths (mlRemovexattr vol p resourceforkAttr) := by
  obtain ⟨hav, rfl⟩ := hroot
  have hfork : ∃ k, mlGetresourcefork vol p 0 0 = llGetattr vol [slash] true >>= k := by
    unfold mlGetresourcefork
    simp only [hq]
    exact ⟨_, rfl⟩
  obtain ⟨k, hk⟩ := hfork
  have hafter {α : Type} (g : ValueResult → MlCall α) :
      ¬Obeys vol paths (mlGetresourcefork vol p 0 0 >>= g) := by
    rw [hk, bind_assoc]
    exact afp2Root_not_obeys hav true _
  refine ⟨?_, ?_, ?_, ?_, ?_⟩
  · have h : mlGetattr vol p = llGetattr vol [slash] false >>= ret := by
      rw [bind_ret]
      unfold mlGetattr appledoubleGetattr extraTranslate
      simp only [hq, viewOf_root]
      rfl
    rw [h]
    exact afp2Root_not_obeys hav false ret
  · rw [hk]
    exact afp2Root_not_obeys hav true k
  · rw [mlGetxattr, if_pos (by decide), hk]
    exact afp2Root_not_obeys hav true k
  · exact hafter _
  · exact hafter _

theorem mlSetattr_afp2Root (hq : vol.convertPath p = .ok q) (hroot : Afp2Root vol q)
    (hw : vol.isReadonly = false) (hv : (viewOf vol p).1 = .none)
    (hu : vol.hasFlag VOLUME_EXTRA_FLAGS_VOL_SUPPORTS_UNIX = false)
    (hi : vol.hasFlag VOLUME_EXTRA_FLAGS_IGNORE_UNIXPRIVS = true) {paths : List Path} :
    ¬Obeys vol paths (mlSetattr vol p { which := ML_SET_MODE }) := by
  obtain ⟨hav, rfl⟩ := hroot
  have hroot : invalidFilename vol [slash] ≠ true := by simp [invalidFilename]
  have hview : appledoubleSetattr vol p = ret 0 := by
    unfold appledoubleSetattr appledoubleRefuse extraTranslate
    revert hv
    rcases viewOf vol p with ⟨kind, newpath⟩
    rintro rfl
    rfl
  have hcall : ∃ k, mlSetattr vol p { which := ML_SET_MODE } = llGetattr vol [slash] false >>= k := by
    unfold mlSetattr
    simp only [hw, hview, hq, hu, hi]
    exact ⟨_, rfl⟩
  obtain ⟨k, hk⟩ := hcall
  rw [hk]
  exact afp2Root_not_obeys hav false k

theorem faithful_of_obeys (hq : vol.convertPath p = .ok q) {c : PathCall} (h : c.Obeys vol p q) :
    c.Faithful vol p q := by
  let s : MlState := .fresh
  have hattr : ∀ {α : Type} {call : MlCall α}, (HasExtAttrs vol p → p ≠ q → Strays [q] call s []) →
      NC.Obeys vol [q] call → HasExtAttrs vol p → p = q := by
    intro α call hs ho hx
    by_contra hne
    exact (hs hx hne).not_obeys ho
  have hroot {α : Type} {call : MlCall α} (hs : Afp2Root vol q → ¬NC.Obeys vol [q] call)
      (ho : NC.Obeys vol [q] call) : ¬Afp2Root vol q :=
    fun hr => hs hr ho
  cases c with
  | mlOpen =>
    by_contra hf
    simp only [PathCall.Faithful, not_or] at hf
    obtain ⟨hv, hnone, hdir, hicon⟩ := hf
    have hk : (viewOf vol q).1.Pseudo := by
      revert hnone hdir hicon
      cases (viewOf vol q).1 <;> simp [MetaKind.Pseudo]
    exact (mlOpen_strays (s := s) hq hv hk).not_obeys (h 0)
  | mlGetattr =>
    have hpseudo : (viewOf vol q).1.Pseudo → invalidFilename vol (viewOf vol q).2 = true := by
      intro hk
      by_contra hv
      exact (mlGetattr_strays (s := s) hq hk hv).not_obeys h
    have hnone := hroot (fun hr => (afp2Root_calls hq hr).1) h
    show match (viewOf vol q).1 with
      | .none => ¬Afp2Root vol q
      | .resource | .finderinfo | .comment => invalidFilename vol (viewOf vol q).2 = true
      | .appledouble | .serverIcon => True
    revert hpseudo
    cases (viewOf vol q).1 <;> simp [MetaKind.Pseudo, hnone]
  | mlReaddir =>
    intro hk
    by_contra hv
    exact (mlReaddir_strays (s := s) hq hk hv).not_obeys h
  | mlSetattr =>
    intro hr
    by_contra hf
    simp only [not_or, Bool.not_eq_true, not_not, Bool.not_eq_false] at hf
    exact mlSetattr_afp2Root hq hr hf.1 hf.2.1 hf.2.2.1 hf.2.2.2 (h _)
  | mlUnlink | mlRmdir | mlMkdir | mlReadlink | mlRename => trivial
  | mlGetxattr =>
    exact ⟨hroot (fun hr => (afp2Root_calls hq hr).2.2.1) (h _ _),
      hattr mlGetxattr_strays (h plainAttr 0)⟩
  | mlSetxattr =>
    exact ⟨hroot (fun hr => (afp2Root_calls hq hr).2.2.2.1) (h _ _ _),
      fun hw => hattr (mlSetxattr_strays · · hw) (h plainAttr [] 0)⟩
  | mlListxattr => exact hattr mlListxattr_strays (h 0)
  | mlRemovexattr =>
    exact ⟨hroot (fun hr => (afp2Root_calls hq hr).2.2.2.2) (h _),
      fun hw => hattr (mlRemovexattr_strays · · hw) (h plainAttr)⟩
  | mlGetfinderinfo => trivial
  | mlGetresourcefork => exact hroot (fun hr => (afp2Root_calls hq hr).2.1) (h 0 0)

/-- For each call on a path, exactly when all its requests are about the object at the
converted path; and the lookup of an absolute path names only its components to the
server, and returns its last name. -/
theorem path_calls_obey_iff (vol : ServedVolume) (p q : Path) (hq : vol.convertPath p = .ok q) :
    (∀ c : PathCall, c.Obeys vol p q ↔ c.Faithful vol p q) ∧
    (q.head? = some slash →
      (getDirid vol.toVolume q).Within (Req.NamesComponent vol.toVolume q) (LookedUp q)) :=
  ⟨fun _ => ⟨faithful_of_obeys hq, obeys_of_faithful hq⟩, getDirid_names vol.toVolume⟩

/-- On such a volume every call obeys. -/
theorem path_calls_obey_plain : plainServed.convertPath [slash, 97] = .ok [slash, 97] ∧
    ∀ c : PathCall, c.Obeys plainServed [slash, 97] [slash, 97] := by
  have hroot : ¬Afp2Root plainServed [slash, 97] := fun h => absurd h.1 (by decide)
  have hview : viewOf plainServed [slash, 97] = (.none, []) := by decide
  refine ⟨rfl, fun c => ((path_calls_obey_iff plainServed [slash, 97] [slash, 97] rfl).1 c).2 ?_⟩
  cases c with
  | mlOpen => exact .inr (.inl (congrArg Prod.fst hview))
  | mlGetattr =>
    unfold PathCall.Faithful
    exact hroot
  | mlReaddir => exact fun h => absurd h (by decide)
  | mlSetattr => exact fun h => absurd h hroot
  | mlGetxattr => exact ⟨hroot, fun _ => rfl⟩
  | mlSetxattr => exact ⟨hroot, fun _ _ => rfl⟩
  | mlListxattr => exact fun _ => rfl
  | mlRemovexattr => exact ⟨hroot, fun _ _ => rfl⟩
  | mlGetresourcefork => exact hroot
  | _ => trivial

/-- A UTF-8 volume with extended attributes. -/
def attrVolume : ServedVolume :=
  { viewVolume 0 with
    toVolume := codepageVolume (fun _ => true) .utf8Name (kSupportsUTF8Names ||| kSupportsExtAttrs) 0 }

/-- The path of an e with an acute accent, as the client gives it. -/
def acutePath : Path := [slash, 0xc3, 0xa9]

/-- Success, with no parameter. -/
def paramsAnswer : (r : Request) → r.Ans
  | .getFileDirParms .. => (kFPNoErr, {})
  | _ => default

/-- An attribute set on an accented name is set on another object than the one whose
attributes are read: the one call names the path's own bytes, the other the decomposed
ones. -/
theorem setxattr_names_other_object :
    let init : VolState := ⟨⟨[]⟩, .fresh⟩
    attrVolume.convertPath acutePath = .ok [slash, 0x65, 0xcc, 0x81] ∧
    (∃ answers s log, run (record anyReply)
        (system attrVolume.toVolume (mlSetxattr attrVolume acutePath plainAttr [1] 0)) init [] answers =
          some (0, s, log, []) ∧
      ⟨.setExtAttr rootDid 0 [0xc3, 0xa9] plainAttr [1], kFPNoErr⟩ ∈ log) ∧
    (∃ answers st s log, run (record anyReply)
        (system attrVolume.toVolume (mlGetattr attrVolume acutePath)) init [] answers =
          some (.ok st, s, log, []) ∧
      ⟨.getFileDirParms rootDid (getattrFilebitmap attrVolume false) (getattrDirbitmap attrVolume)
        [0x65, 0xcc, 0x81], (kFPNoErr, {})⟩ ∈ log) ∧
    ¬PathCall.mlSetxattr.Obeys attrVolume acutePath [slash, 0x65, 0xcc, 0x81] := by
  have hconv : attrVolume.convertPath acutePath = .ok [slash, 0x65, 0xcc, 0x81] := by
    have h : convertPathToAfp (fun _ => true) .utf8Name acutePath 13 = some [slash, 0x65, 0xcc, 0x81] :=
      @convertPathToAfp_acute _ ['/', Char.ofNat 0xe9] (by simp) (by decide +kernel) (by decide +kernel)
    show convertPathToAfpAlloc (fun _ => true) .utf8Name acutePath = _
    unfold convertPathToAfpAlloc
    dsimp only
    rw [show acutePath.length * 4 + 1 = 13 from rfl, h]
    rfl
  refine ⟨hconv, ?_, ?_, ?_⟩
  · exact ⟨List.replicate 1 fun _ => default, _, _, rfl, by simp; exact ⟨rfl, rfl⟩⟩
  · have hcall : mlGetattr attrVolume acutePath =
        llGetattr attrVolume [slash, 0x65, 0xcc, 0x81] false := by
      unfold mlGetattr
      rw [hconv]
      rfl
    rw [hcall]
    exact ⟨List.replicate 1 paramsAnswer, _, _, _, rfl, by simp; exact ⟨rfl, rfl⟩⟩
  · intro h
    have hs : Strays [[slash, 0x65, 0xcc, 0x81]] (mlSetxattr attrVolume acutePath plainAttr [] 0)
        .fresh [] :=
      mlSetxattr_strays ⟨by decide, by decide⟩ (by decide) (by decide)
    exact hs.not_obeys (h plainAttr [] 0)

end NC
