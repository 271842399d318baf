import NetatalkClient.Proof.Did.Resolve

/-!
# Renaming on a server that carries out what it is asked

On a server that carries out every request and answers truly, a rename that
returns 0 has moved the object: to the destination itself, or, where a folder
stands there, into that folder under the object's own name, as `ml_rename`
documents (`fuseRename_moves`). The requests differ by what stands at the two
names; what they leave is one `FileTree.move` (`renameObjects_wp`).
-/

namespace NC

open List IdTree Prog

namespace FileTree

variable {κ : Type} {t : FileTree κ} {vol : Volume} {cl : Client} {src dst : ObjName}
variable {Q : Int → Client → FileTree κ → Prop}

/-! ## One rule for each request -/

theorem isDir_wp (hnone : t.obj dst.did (vol.wireName dst.name) = none → ∀ d < 0, Q d cl t)
    (hfile : ∀ c, t.obj dst.did (vol.wireName dst.name) = some (.file c) → Q 0 cl t)
    (hdir : ∀ i, t.obj dst.did (vol.wireName dst.name) = some (.dir i) → Q 1 cl t) :
    Wp serve (isDir vol dst.did dst.name) cl t Q := by
  unfold isDir
  rw [wp_bind]
  refine afpGetfiledirparms_wp (fun rc fi h hrc => ?_) (fun c cnid h => ?_) fun i h => ?_
  · have hne : -llAnswerErrno rc ≠ 0 := by
      rcases hrc with rfl | rfl <;> decide
    have hneg : -llAnswerErrno rc < 0 := by
      have := llAnswerErrno_nonneg rc
      omega
    simpa only [if_pos hne, pure_eq, wp_ret] using hnone h _ hneg
  · exact wp_ret.2 (hfile c h)
  · exact wp_ret.2 (hdir i h)

variable {a b : ObjName} {d : Nat} {rc : Int} {c : κ}

theorem afpExchangefiles_wp
    (hdone : ∀ t', t.exchange (a.wire vol) (b.wire vol) = some t' → Q kFPNoErr cl t')
    (herr : ∀ rc ∈ t.exchangeErrors (a.wire vol) (b.wire vol), Q rc cl t) :
    Wp serve (afpExchangefiles vol a.did b.did a.name b.name) cl t Q := by
  simp only [afpExchangefiles, request, wp_send, wp_ret]
  intro c rc t' e
  cases c <;> simp only [serve, reduceCtorEq, Option.map_eq_some_iff] at e
  case carryOut =>
    obtain ⟨t', ht, e⟩ := e
    cases e
    exact hdone _ ht
  case error =>
    split at e <;> cases e
    exact herr _ ‹_›

theorem afpMoveandrename_wp {dstDid : Nat} {dstPath : Option Path} {newName : Path}
    (hdone : ∀ t', t.moveTo (src.wire vol) (t.moveFolder dstDid (dstPath.elim [] vol.wireName))
      (vol.wireName newName) = some t' → Q kFPNoErr cl t')
    (herr : ∀ rc ∈ t.moveErrors (src.wire vol)
      (t.moveFolder dstDid (dstPath.elim [] vol.wireName)) (vol.wireName newName), Q rc cl t)
    (hcant : ∀ i d below, t.obj src.did (vol.wireName src.name) = some (.dir i) →
      t.moveFolder dstDid (dstPath.elim [] vol.wireName) = some d →
      t.obj.dirFrom i below = some d → Q kFPCantMove cl t) :
    Wp serve (afpMoveandrename vol src.did dstDid src.name dstPath newName) cl t Q := by
  simp only [afpMoveandrename, request, wp_send, wp_ret]
  intro c rc t' e
  cases c <;> simp only [serve, reduceCtorEq, Option.map_eq_some_iff] at e
  case carryOut =>
    obtain ⟨t', ht, e⟩ := e
    cases e
    exact hdone _ ht
  case error =>
    split at e <;> cases e
    exact herr _ ‹_›
  case cantMove below =>
    split at e
    · rename_i i d hi hd
      split at e <;> cases e
      exact hcant i d below hi hd ‹_›
    · cases e

theorem afpDelete_wp (hdone : ∀ t', t.delete (dst.wire vol) = some t' → Q kFPNoErr cl t')
    (herr : t.obj dst.did (vol.wireName dst.name) = none → Q kFPObjectNotFound cl t)
    (hheld : ∀ i held, t.obj dst.did (vol.wireName dst.name) = some (.dir i) →
      t.obj i held ≠ none → Q kFPDirNotEmpty cl t) :
    Wp serve (afpDelete vol dst.did dst.name) cl t Q := by
  simp only [afpDelete, request, wp_send, wp_ret]
  intro c rc t' e
  cases c <;> simp only [serve, reduceCtorEq, Option.map_eq_some_iff] at e
  case carryOut =>
    obtain ⟨t', ht, e⟩ := e
    cases e
    exact hdone _ ht
  case error =>
    split at e <;> cases e
    rename_i h
    exact h.2 ▸ herr h.1
  case notEmpty held =>
    split at e
    · rename_i i hi
      split at e <;> cases e
      exact hheld i held hi ‹_›
    · cases e

/-! ## The requests about the two objects -/

/-- Where a rename of `a` to `b` takes the object: to `b`, or into the folder there. -/
def target (t : FileTree κ) (a b : ObjName) : ObjName :=
  match t.obj b.did b.name with
  | some (.dir i) => ⟨i, a.name⟩
  | _ => b

/-- The object of `a` is under its target name, which no folder had; or it was
there all along. -/
def Renamed (t : FileTree κ) (a b : ObjName) (t' : FileTree κ) : Prop :=
  t.obj a.did a.name ≠ none ∧
    (t.target a b = a ∧ t'.obj = t.obj ∨
      t.target a b ≠ a ∧ (∀ i, t.obj (t.target a b).did (t.target a b).name ≠ some (.dir i)) ∧
        t'.obj = t.obj.move a.did a.name (t.target a b).did (t.target a b).name)

theorem isEmpty_iff : t.isEmpty d = true ↔ ∀ n, t.obj d n = none := by
  simp only [isEmpty, all_eq_true, Option.isNone_iff_eq_none]
  refine ⟨fun h n => ?_, fun h n _ => h n⟩
  by_contra hn
  exact hn (h n (t.complete hn))

theorem moveTo_eq_some {n : Path} {t' : FileTree κ} (h : t.moveTo a (some d) n = some t') :
    t.obj a.did a.name ≠ none ∧
      ((⟨d, n⟩ : ObjName) = a ∧ t' = t ∨
        (⟨d, n⟩ : ObjName) ≠ a ∧ t.obj d n = none ∧ t' = t.move a ⟨d, n⟩) := by
  simp only [moveTo] at h
  split at h
  · rename_i d' x hd hx
    cases hd
    refine ⟨by simp [hx], ?_⟩
    split_ifs at h with h₁ h₂
    · cases h
      exact .inl ⟨h₁, rfl⟩
    · cases h
      exact .inr ⟨h₁, h₂, rfl⟩
  · cases h

theorem mem_moveErrors {n : Path} (h : rc ∈ t.moveErrors a (some d) n) :
    rc = kFPObjectNotFound ∨ rc = kFPObjectExists ∧ t.obj d n ≠ none := by
  simp only [moveErrors, mem_append] at h
  rcases h with h | h <;> split_ifs at h <;> simp_all

theorem afterMove_error (h : rc = kFPObjectNotFound ∨ rc = kFPCantMove) :
    Wp serve (afterMove vol src dst rc) cl t fun ret _ _ => ret ≠ 0 := by
  rcases h with rfl | rfl
  · exact wp_ret.2 (by decide : firstMoveErrno kFPObjectNotFound ≠ 0)
  · exact wp_ret.2 (by decide : firstMoveErrno kFPCantMove ≠ 0)

theorem delete_file (h : t.obj a.did a.name = some (.file c)) :
    t.delete a = some (t.set a.did a.name none) := by
  simp [delete, h]

section Objects

variable (hne : src.wire vol ≠ dst.wire vol)
  (hin : ∀ i below, t.obj src.did (vol.wireName src.name) = some (.dir i) →
    t.obj.dirFrom i below ≠ some dst.did)

include hne in
theorem not_both : ¬((src.wire vol).did = (dst.wire vol).did ∧
    (src.wire vol).name = (dst.wire vol).name) :=
  fun h => hne (ObjName.ext h.1 h.2)

include hne in
theorem renamed_of_move {t' : FileTree κ}
    (hdst : ∀ i, t.obj dst.did (vol.wireName dst.name) ≠ some (.dir i))
    (hsrc : t.obj src.did (vol.wireName src.name) ≠ none)
    (ht : t'.obj = t.obj.move src.did (vol.wireName src.name) dst.did (vol.wireName dst.name)) :
    Renamed t (src.wire vol) (dst.wire vol) t' := by
  have htarget : t.target (src.wire vol) (dst.wire vol) = dst.wire vol := by
    unfold target
    split
    · exact absurd ‹_› (hdst _)
    · rfl
  exact ⟨hsrc, .inr (by rw [htarget]; exact ⟨hne.symm, hdst, ht⟩)⟩

include hne hin in
/-- A file that stands at the destination is deleted, and the source moved again. -/
theorem deleteAndMove_wp (hc : t.obj dst.did (vol.wireName dst.name) = some (.file c)) :
    Wp serve (afterMove vol src dst kFPObjectExists) cl t fun ret _ t' =>
      ret = 0 → Renamed t (src.wire vol) (dst.wire vol) t' := by
  have hsame : (t.set dst.did (vol.wireName dst.name) none).obj src.did (vol.wireName src.name) =
      t.obj src.did (vol.wireName src.name) := set_of_ne (not_both hne)
  unfold afterMove
  rw [if_pos rfl, wp_bind]
  refine afpDelete_wp (fun t' ht => ?_) (fun h => by simp [hc] at h) fun i held h => by simp [hc] at h
  obtain rfl : t.set dst.did (vol.wireName dst.name) none = t' :=
    Option.some.inj ((delete_file (a := dst.wire vol) hc).symm.trans ht)
  rw [wp_bind]
  refine afpMoveandrename_wp (fun t' ht => ?_) (fun rc hrc => ?_) fun i d below hi hd hbelow => ?_
  · obtain ⟨hsrc, ⟨heq, -⟩ | ⟨-, -, rfl⟩⟩ := moveTo_eq_some ht
    · exact absurd heq.symm hne
    · exact wp_ret.2 fun _ => renamed_of_move hne (by simp [hc]) (hsame ▸ hsrc)
        (move_set_none (not_both hne))
  · rcases mem_moveErrors hrc with rfl | ⟨-, hex⟩
    · exact wp_ret.2 fun h => absurd h (by decide)
    · exact absurd set_self hex
  · cases hd
    rw [hsame] at hi
    exact absurd (dirFrom_of_set_none hbelow) (hin i below hi)

include hne hin in
/-- From the first move on, when no folder stands at the destination. -/
theorem moveOver_wp (hdst : ∀ i, t.obj dst.did (vol.wireName dst.name) ≠ some (.dir i)) :
    Wp serve (do
        let rc ← afpMoveandrename vol src.did dst.did src.name none dst.name
        afterMove vol src dst rc) cl t fun ret _ t' =>
      ret = 0 → Renamed t (src.wire vol) (dst.wire vol) t' := by
  rw [wp_bind]
  refine afpMoveandrename_wp (fun t' ht => ?_) (fun rc hrc => ?_) fun i d below hi hd hbelow => ?_
  · obtain ⟨hsrc, ⟨heq, -⟩ | ⟨-, -, rfl⟩⟩ := moveTo_eq_some ht
    · exact absurd heq.symm hne
    · exact wp_ret.2 fun _ => renamed_of_move hne hdst hsrc rfl
  · rcases mem_moveErrors hrc with rfl | ⟨rfl, hex⟩
    · exact (afterMove_error (.inl rfl)).mono fun ret _ _ h h0 => absurd h0 h
    · obtain ⟨c, hc⟩ : ∃ c, t.obj dst.did (vol.wireName dst.name) = some (.file c) := by
        cases hobj : t.obj dst.did (vol.wireName dst.name) with
        | none => exact absurd hobj hex
        | some o =>
          cases o with
          | file c => exact ⟨c, rfl⟩
          | dir i => exact absurd hobj (hdst i)
      exact deleteAndMove_wp hne hin hc
  · exact (afterMove_error (.inr rfl)).mono fun ret _ _ h h0 => absurd h0 h

include hne hin in
/-- The object goes into the folder at the destination, or stays where it is. -/
theorem moveInto_wp {i : Nat} (hi : t.obj dst.did (vol.wireName dst.name) = some (.dir i))
    (hname : vol.wireName dst.name ≠ []) :
    Wp serve (do
        let rc ← afpMoveandrename vol src.did dst.did src.name (some dst.name) src.name
        afterMove vol src dst rc) cl t fun ret _ t' =>
      ret = 0 → Renamed t (src.wire vol) (dst.wire vol) t' := by
  have hfolder : t.moveFolder dst.did (vol.wireName dst.name) = some i := by
    simp [moveFolder, hname, hi]
  have htarget : t.target (src.wire vol) (dst.wire vol) = ⟨i, vol.wireName src.name⟩ := by
    simp [target, ObjName.wire, hi]
  rw [wp_bind]
  refine afpMoveandrename_wp (fun t' ht => ?_) (fun rc hrc => ?_) fun j d below hj hd hbelow => ?_
  · rw [Option.elim_some, hfolder] at ht
    obtain ⟨hsrc, ⟨heq, rfl⟩ | ⟨hother, hfree, rfl⟩⟩ := moveTo_eq_some ht
    · exact wp_ret.2 fun _ => ⟨hsrc, .inl ⟨htarget.trans heq, rfl⟩⟩
    · refine wp_ret.2 fun _ => ⟨hsrc, .inr ?_⟩
      rw [htarget]
      exact ⟨hother, by simp [hfree], rfl⟩
  · rw [Option.elim_some, hfolder] at hrc
    rcases mem_moveErrors hrc with rfl | ⟨rfl, hex⟩
    · exact (afterMove_error (.inl rfl)).mono fun ret _ _ h h0 => absurd h0 h
    · -- the folder holds an object of that name: it is not deleted, and its name stays taken
      unfold afterMove
      rw [if_pos rfl, wp_bind]
      refine afpDelete_wp (fun t' ht => ?_) (fun h => by simp [hi] at h) fun j held hj _ => ?_
      · have hempty : t.isEmpty i = true := by
          by_contra h
          simp [delete, ObjName.wire, hi, h] at ht
        exact absurd (isEmpty_iff.1 hempty _) hex
      · rw [wp_bind]
        refine afpMoveandrename_wp (fun t' ht => ?_) (fun rc hrc => ?_) fun j d below hj hd hbelow => ?_
        · obtain ⟨-, ⟨heq, -⟩ | ⟨-, hfree, -⟩⟩ := moveTo_eq_some ht
          · exact absurd heq.symm hne
          · simp [hi] at hfree
        · rcases mem_moveErrors hrc with rfl | ⟨rfl, -⟩ <;>
            exact wp_ret.2 fun h => absurd h (by decide)
        · cases hd
          exact absurd hbelow (hin j below hj)
  · exact (afterMove_error (.inr rfl)).mono fun ret _ _ h h0 => absurd h0 h

theorem ne_noErr_of_mem_exchangeErrors (h : rc ∈ t.exchangeErrors a b) : rc ≠ kFPNoErr := by
  unfold exchangeErrors at h
  split at h
  · split_ifs at h
    · rw [mem_singleton.1 h]
      decide
    · simp at h
  all_goals
    simp only [mem_cons, not_mem_nil, or_false] at h
    rcases h with rfl | rfl <;> decide

include hne in
theorem exchangeAndDelete_wp {t' : FileTree κ}
    (ht : t.exchange (src.wire vol) (dst.wire vol) = some t') :
    Wp serve (do
        let _ ← afpDelete vol src.did src.name
        return (0 : Int)) cl t' fun _ _ t'' => Renamed t (src.wire vol) (dst.wire vol) t'' := by
  unfold exchange at ht
  split at ht
  · rename_i c d hsrc hdst
    rw [if_neg hne, Option.some.injEq] at ht
    subst ht
    have hfile : ((t.set (src.wire vol).did (src.wire vol).name (some (.file d))).set
        (dst.wire vol).did (dst.wire vol).name (some (.file c))).obj src.did
          (vol.wireName src.name) = some (.file d) :=
      (set_of_ne (not_both hne)).trans set_self
    rw [wp_bind]
    refine afpDelete_wp (fun t'' ht => ?_) (fun h => ?_) fun i held h => ?_
    · refine wp_ret.2 (renamed_of_move hne (fun i h => ?_) (fun h => ?_) ?_)
      · rw [show t.obj dst.did (vol.wireName dst.name) = _ from hdst] at h
        cases h
      · rw [show t.obj src.did (vol.wireName src.name) = _ from hsrc] at h
        cases h
      · rw [delete_file (a := src.wire vol) hfile, Option.some.injEq] at ht
        subst ht
        have hmove := set_exchange (t := t.obj) (x := some (.file d)) (not_both hne)
        rwa [hsrc] at hmove
    all_goals
      rw [hfile] at h
      cases h
  · cases ht

include hne hin in
theorem renameObjects_wp (hname : vol.wireName dst.name ≠ []) :
    Wp serve (renameObjects vol src dst) cl t fun ret _ t' =>
      ret = 0 → Renamed t (src.wire vol) (dst.wire vol) t' := by
  unfold renameObjects
  rw [wp_bind]
  refine isDir_wp (fun h d hd => ?_) (fun c h => ?_) fun i h => ?_
  · rw [if_neg (by omega), if_neg (by omega)]
    exact moveOver_wp hne hin (by simp [h])
  · rw [if_neg (by decide)]
    split
    · rw [wp_bind]
      refine afpExchangefiles_wp (fun t' ht => ?_) fun rc hrc => ?_
      · rw [if_pos rfl]
        exact (exchangeAndDelete_wp hne ht).mono fun _ _ _ h _ => h
      · rw [if_neg (ne_noErr_of_mem_exchangeErrors hrc)]
        exact moveOver_wp hne hin (by simp [h])
    · exact moveOver_wp hne hin (by simp [h])
  · exact moveInto_wp hne hin h hname

end Objects

/-! ## The rename of a path -/

theorem wireName_ne_nil {n : Name} (hn : IsName n) : vol.wireName n ≠ [] := by
  obtain ⟨c, cs, rfl⟩ := exists_cons_of_ne_nil hn.1
  cases h : vol.pathEncoding <;> simp [Volume.wireName, copyPath, unixpathToAfppath, h]

/-- The path a rename takes the object named `name` to: the destination's, or
that of its own name in the folder there. -/
def targetPath (t : FileTree κ) (name : Path) (dst : List Path) : List Path :=
  match t.obj.lookup rootDid dst with
  | some (.dir _) => dst ++ [name]
  | _ => dst

/-- What a rename of the path `src` that takes the object to `dst` leaves: beneath
`dst` is what was beneath `src`, at `src` is nothing, unless `dst` is the same
path, and all other paths lead where they did. -/
structure MovedTo (t : FileTree κ) (src dst : List Path) (t' : FileTree κ) : Prop where
  existed : t.obj.lookup rootDid src ≠ none
  arrived : ∀ s, t'.obj.lookup rootDid (dst ++ s) = t.obj.lookup rootDid (src ++ s)
  left : dst = src ∨ t'.obj.lookup rootDid src = none
  others : ∀ p, ¬src <+: p → ¬dst <+: p → t'.obj.lookup rootDid p = t.obj.lookup rootDid p

section Paths

variable {p₁ p₂ : List Path} {d₁ d₂ : Nat} {n₁ n₂ : Path} {t' : FileTree κ}

/-- The folder and the name in it that a target path ends in. -/
theorem target_dirFrom (d₁ : Nat) (n₁ n₂ : Path) (h₂ : t.obj.dirFrom rootDid p₂ = some d₂) :
    ∃ q, t.targetPath n₁ (p₂ ++ [n₂]) = q ++ [(t.target ⟨d₁, n₁⟩ ⟨d₂, n₂⟩).name] ∧
      t.obj.dirFrom rootDid q = some (t.target ⟨d₁, n₁⟩ ⟨d₂, n₂⟩).did ∧
      (q = p₂ ∨ q = p₂ ++ [n₂]) := by
  have hlook : t.obj.lookup rootDid (p₂ ++ [n₂]) = t.obj d₂ n₂ := lookup_snoc h₂
  rcases hobj : t.obj d₂ n₂ with _ | (c | i) <;> simp only [targetPath, target, hlook, hobj]
  · exact ⟨p₂, rfl, h₂, .inl rfl⟩
  · exact ⟨p₂, rfl, h₂, .inl rfl⟩
  · exact ⟨p₂ ++ [n₂], rfl, dirFrom_snoc.2 ⟨d₂, h₂, hobj⟩, .inr rfl⟩

theorem Renamed.movedTo (hw : t.obj.Wf rootDid) (h₁ : t.obj.dirFrom rootDid p₁ = some d₁)
    (h₂ : t.obj.dirFrom rootDid p₂ = some d₂) (hne : ¬p₁ ++ [n₁] <+: p₂ ++ [n₂])
    (h : Renamed t ⟨d₁, n₁⟩ ⟨d₂, n₂⟩ t') :
    MovedTo t (p₁ ++ [n₁]) (t.targetPath n₁ (p₂ ++ [n₂])) t' := by
  obtain ⟨hsrc, h⟩ := h
  obtain ⟨q, hq, hqd, hqp⟩ := target_dirFrom d₁ n₁ n₂ h₂
  have hexisted : t.obj.lookup rootDid (p₁ ++ [n₁]) ≠ none := by
    rwa [lookup_snoc h₁]
  rw [hq]
  rcases h with ⟨hsame, ht⟩ | ⟨hother, hfree, ht⟩
  · -- the object was in the folder already, under its own name
    rw [hsame] at hqd ⊢
    obtain rfl := hw.dirFrom_inj h₁ hqd
    exact ⟨hexisted, fun s => by rw [ht], .inl rfl, fun p _ _ => by rw [ht]⟩
  · have hsq : p₁ ++ [n₁] ≠ q ++ [(t.target ⟨d₁, n₁⟩ ⟨d₂, n₂⟩).name] := by
      intro heq
      obtain ⟨hp, hn⟩ := append_inj' heq rfl
      simp only [List.cons.injEq, and_true] at hn
      rw [← hp, h₁, Option.some.injEq] at hqd
      exact hother (ObjName.ext hqd.symm hn.symm)
    have hpre : ¬p₁ ++ [n₁] <+: q ++ [(t.target ⟨d₁, n₁⟩ ⟨d₂, n₂⟩).name] := by
      rw [prefix_concat_iff, not_or]
      refine ⟨hsq, fun h => hne ?_⟩
      rcases hqp with rfl | rfl
      · exact h.trans (prefix_append ..)
      · exact h
    refine ⟨hexisted, fun s => ?_, .inr ?_, fun p hp₁ hp₂ => ?_⟩
    · rw [ht, append_assoc, append_assoc]
      exact lookup_move_dst hw h₁ hqd hpre s
    · rw [ht]
      exact lookup_move_src hw h₁ hqd hsq hfree
    · rw [ht]
      exact lookup_move_of_ne hw h₁ hqd hp₁ hp₂

section

variable {pathFrom pathTo : Path} {fs ts : List Name} {f g : Name}
  (hfs : ∀ n ∈ fs ++ [f], IsName n) (hts : ∀ n ∈ ts ++ [g], IsName n)
  (hfrom : vol.convertPath pathFrom = .ok (joinPath (fs ++ [f])))
  (hto : vol.convertPath pathTo = .ok (joinPath (ts ++ [g])))

include hfs hts hfrom hto

theorem resolveRename_wp (hcl : cl.Agrees vol t) :
    Wp serve (resolveRename vol pathFrom pathTo) cl t fun x _ t' => t' = t ∧ ∀ r, x = .ok r →
      ∃ d₁ d₂, r.src = ⟨d₁, f⟩ ∧ r.dst = ⟨d₂, g⟩ ∧
        t.obj.dirFrom rootDid (fs.map vol.wireName) = some d₁ ∧
        t.obj.dirFrom rootDid (ts.map vol.wireName) = some d₂ := by
  unfold resolveRename
  simp only [hfrom, hto]
  split_ifs
  · exact wp_ret.2 ⟨rfl, nofun⟩
  rw [wp_bind]
  refine (getDirid_wp (fun m hm => hfs m (by simp [hm])) (hfs f (by simp)) hcl).mono ?_
  rintro (e | ⟨d₁, b₁⟩) cl₁ t ⟨rfl, hcl₁, h₁⟩
  · exact wp_ret.2 ⟨rfl, nofun⟩
  rw [wp_bind]
  refine (getDirid_wp (fun m hm => hts m (by simp [hm])) (hts g (by simp)) hcl₁).mono ?_
  rintro (e | ⟨d₂, b₂⟩) cl₂ t ⟨rfl, -, h₂⟩
  · exact wp_ret.2 ⟨rfl, nofun⟩
  obtain ⟨rfl, hd₁⟩ := h₁ d₁ b₁ rfl
  obtain ⟨rfl, hd₂⟩ := h₂ d₂ b₂ rfl
  refine wp_ret.2 ⟨rfl, fun r hr => ?_⟩
  cases hr
  exact ⟨d₁, d₂, rfl, rfl, hd₁, hd₂⟩

theorem mlRename_wp (hw : t.obj.Wf rootDid) (hcl : cl.Agrees vol t)
    (hne : ¬(fs ++ [f]).map vol.wireName <+: (ts ++ [g]).map vol.wireName) :
    Wp serve (mlRename vol pathFrom pathTo) cl t fun ret _ t' => ret = 0 →
      MovedTo t ((fs ++ [f]).map vol.wireName)
        (t.targetPath (vol.wireName f) ((ts ++ [g]).map vol.wireName)) t' := by
  have hlooks : ∀ (v : FileTree κ) r c a v', Req.Looks r → serve v r c = some (a, v') → True → True :=
    fun _ _ _ _ _ _ _ _ => trivial
  unfold mlRename
  rw [wp_bind]
  refine ((resolveRename_wp hfs hts hfrom hto hcl).and
    ((resolveRename_within vol pathFrom pathTo).wp hlooks trivial)).mono ?_
  rintro (e | r) cl₁ t ⟨⟨rfl, hr⟩, hneg, -⟩
  · exact wp_ret.2 fun h0 => absurd ((negError_error e).1 hneg) (by omega)
  obtain ⟨d₁, d₂, hsrc, hdst, hd₁, hd₂⟩ := hr r rfl
  simp only [map_append, map_singleton] at hne ⊢
  have hobj : r.src.wire vol ≠ r.dst.wire vol := by
    intro heq
    rw [hsrc, hdst, ObjName.wire, ObjName.wire, ObjName.mk.injEq] at heq
    obtain ⟨rfl, hname⟩ := heq
    refine hne ?_
    rw [hw.dirFrom_inj hd₁ hd₂, hname]
  have hin : ∀ i below, t.obj r.src.did (vol.wireName r.src.name) = some (.dir i) →
      t.obj.dirFrom i below ≠ some r.dst.did := by
    intro i below hi hbelow
    rw [hsrc] at hi
    rw [hdst] at hbelow
    have hpath : t.obj.dirFrom rootDid (fs.map vol.wireName ++ [vol.wireName f] ++ below) = some d₂ := by
      rw [dirFrom_append, dirFrom_snoc.2 ⟨d₁, hd₁, hi⟩]
      exact hbelow
    refine hne ⟨below ++ [vol.wireName g], ?_⟩
    rw [← hw.dirFrom_inj hpath hd₂, append_assoc _ below]
  rw [wp_bind]
  have hname : vol.wireName r.dst.name ≠ [] := by
    rw [hdst]
    exact wireName_ne_nil (hts g (by simp))
  refine (renameObjects_wp hobj hin hname).mono fun ret₀ cl₂ t₂ hret => ?_
  refine ((forgetBoth_within r ret₀).wp (I := (· = t₂))
    (fun _ _ _ _ _ hr e hv => (serve_looks hr e).trans hv) rfl).mono ?_
  rintro _ cl₃ _ ⟨rfl, rfl⟩ h0
  have hmoved := hret (by omega)
  rw [hsrc, hdst] at hmoved
  exact hmoved.movedTo hw hd₁ hd₂ hne

end

/-- `fuse_rename` without flags. Both paths are converted to absolute paths of
names, the cache agrees with the server's tree, and the destination is not the
source nor beneath it. When the call returns 0, the source's object with all
beneath it is at the target path, nothing is left at the source, and every
other path leads where it did. -/
theorem fuseRename_moves (vol : Volume) (pathFrom pathTo : Path) {fs ts : List Name} {f g : Name}
    (hfs : ∀ n ∈ fs ++ [f], IsName n) (hts : ∀ n ∈ ts ++ [g], IsName n)
    (hfrom : vol.convertPath pathFrom = .ok (joinPath (fs ++ [f])))
    (hto : vol.convertPath pathTo = .ok (joinPath (ts ++ [g])))
    (t : FileTree κ) (hw : t.obj.Wf rootDid) (cl : Client) (hcl : cl.Agrees vol t)
    (hne : ¬(fs ++ [f]).map vol.wireName <+: (ts ++ [g]).map vol.wireName)
    (cs : List Decision) {cl' : Client} {t' : FileTree κ} {cs' : List Decision}
    (h : run serve (fuseRename vol pathFrom pathTo 0) cl t cs = some (0, cl', t', cs')) :
    MovedTo t ((fs ++ [f]).map vol.wireName)
      (t.targetPath (vol.wireName f) ((ts ++ [g]).map vol.wireName)) t' :=
  mlRename_wp hfs hts hfrom hto hw hcl hne cs 0 cl' t' cs' h rfl

/-- The file `a` of the root folder is renamed to `b`. -/
theorem fuseRename_moves_file :
    let t : FileTree Nat := empty.set rootDid [97] (some (.file 1))
    let cs := [.error kFPObjectNotFound, .carryOut 0, .time 0, .time 0]
    ∃ t', (run serve (fuseRename plainVolume [47, 97] [47, 98] 0) ⟨[]⟩ t cs).map (·.2.2.1) = some t' ∧
      MovedTo t [[97]] [[98]] t' := by
  intro t cs
  have hw : t.obj.Wf rootDid :=
    ⟨fun {d d' n n' i} h => by simp [t, set, IdTree.set, empty] at h,
      fun {d n} h => by simp [t, set, IdTree.set, empty] at h⟩
  exact ⟨_, rfl, @fuseRename_moves Nat plainVolume [47, 97] [47, 98] [] [] [97] [98] (by decide)
    (by decide) rfl rfl t hw ⟨[]⟩ (by simp [Client.Agrees]) (by decide) cs _ _ _ rfl⟩

/-- The empty folder `d` (20) is renamed to `e`, where the empty folder 21 stands:
the call returns 0, and `d` is not at `/e` but beneath it. -/
theorem fuseRename_into_folder :
    (run serve (fuseRename plainVolume [47, 100] [47, 101] 0) ⟨[]⟩
      ((empty.set rootDid [100] (some (.dir 20))).set rootDid [101] (some (.dir 21)) : FileTree Nat)
      [.carryOut 0, .carryOut 0, .time 0, .time 0]).map (fun x => (x.1,
        x.2.2.1.obj.lookup rootDid [[101]], x.2.2.1.obj.lookup rootDid [[101], [100]])) =
    some (0, some (.dir 21), some (.dir 20)) := by
  decide

end Paths

end FileTree

end NC
