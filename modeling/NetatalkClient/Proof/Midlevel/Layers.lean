import NetatalkClient.Model.Midlevel.Attributes
import NetatalkClient.Framework.Traces
import NetatalkClient.Proof.Did.Lookup

/-!
# The middle layer over the directory ID cache

A call of the middle layer runs over the functions of `did.c` (`system`). Those ask
the server for parameters alone (`layers_looks`), and over them the middle layer's
`ml_rename` is `mlRename` (`system_rename`). The functions of `resource.c` that refuse
send nothing (`appledoubleRefuse_within`).
-/

namespace NC

open Prog

section Equations

variable (vol : ServedVolume) {α β : Type}

@[simp] theorem system_bind (p : MlCall α) (g : α → MlCall β) :
    system vol.toVolume (p >>= g) = system vol.toVolume p >>= fun a => system vol.toVolume (g a) :=
  handle_bind ..

@[simp] theorem system_did (c : DidCall) :
    system vol.toVolume (Ml.did c) = lift clientPart reqs (c.impl vol.toVolume) :=
  bind_ret _

/-! ## Renaming -/

theorem system_isDirectory (did : Nat) (name : Name) :
    system vol.toVolume (isDirectory vol did name) = lift clientPart reqs (isDir vol.toVolume did name) :=
  rfl

theorem system_afterMove (src dst : ObjName) (rc : Int) :
    system vol.toVolume (Ml.afterMove vol src dst rc) =
      lift clientPart reqs (afterMove vol.toVolume src dst rc) := by
  unfold Ml.afterMove afterMove
  split <;> rfl

theorem system_renameObjects (src dst : ObjName) :
    system vol.toVolume (Ml.renameObjects vol src dst) =
      lift clientPart reqs (renameObjects vol.toVolume src dst) := by
  unfold Ml.renameObjects renameObjects
  rw [system_bind, lift_bind, system_isDirectory]
  refine congrArg _ (funext fun dstType => ?_)
  split
  · exact congrArg (send _) (funext fun rc => system_afterMove vol src dst rc)
  split
  · refine congrArg (send _) (funext fun rc => ?_)
    show system vol.toVolume (if rc = kFPNoErr then _ else _) =
      lift clientPart reqs (if rc = kFPNoErr then _ else _)
    split
    · rfl
    · exact congrArg (send _) (funext fun rc => system_afterMove vol src dst rc)
  · exact congrArg (send _) (funext fun rc => system_afterMove vol src dst rc)

theorem system_resolveRename (pathFrom pathTo : Path) :
    system vol.toVolume (Ml.resolveRename vol pathFrom pathTo) =
      lift clientPart reqs (resolveRename vol.toVolume pathFrom pathTo) := by
  unfold Ml.resolveRename resolveRename
  cases vol.convertPath pathFrom with
  | error e => rfl
  | ok convertedFrom =>
  cases vol.convertPath pathTo with
  | error e => rfl
  | ok convertedTo =>
  dsimp only
  split
  · rfl
  rw [system_bind, lift_bind, Ml.getDirid, system_did]
  refine congrArg _ (funext fun x => ?_)
  cases x with
  | error e => rfl
  | ok a =>
    show system vol.toVolume (Ml.getDirid _ >>= _) = lift clientPart reqs (getDirid _ _ >>= _)
    rw [system_bind, lift_bind, Ml.getDirid, system_did]
    refine congrArg _ (funext fun y => ?_)
    cases y <;> rfl

/-- The middle layer's `ml_rename` is the one over the functions of `did.c`. -/
theorem system_rename (pathFrom pathTo : Path) :
    system vol.toVolume (Ml.rename vol pathFrom pathTo) =
      lift clientPart reqs (mlRename vol.toVolume pathFrom pathTo) := by
  unfold Ml.rename mlRename
  rw [system_bind, lift_bind, system_resolveRename]
  refine congrArg _ (funext fun x => ?_)
  cases x with
  | error e => rfl
  | ok r =>
    show system vol.toVolume (Ml.renameObjects vol r.src r.dst >>= _) =
      lift clientPart reqs (renameObjects vol.toVolume r.src r.dst >>= _)
    rw [system_bind, lift_bind, system_renameObjects]
    rfl

end Equations

/-! ## What the cache asks of the server -/

/-- The requests that only look. -/
def Request.Looks : Request → Prop
  | .alloc | .now | .getFileDirParms .. => True
  | _ => False

theorem Req.Looks.request {r : Req} (h : r.Looks) : (reqs.req r).Looks := by
  cases r <;> exact h

theorem impl_looks (vol : Volume) (c : DidCall) : (c.impl vol).Within Req.Looks fun _ => True := by
  cases c with
  | getDirid path => exact (getDirid_within vol path).mono (fun _ h => h) fun _ _ => trivial
  | removeDidSubtree path => exact forgetDidPaths_within trivial path false
  | removeDidLineage path => exact forgetDidPaths_within trivial path true
  | checkDidEntry path did => exact ⟨trivial, fun _ _ => trivial⟩
  | checkDidEntryListing path did l =>
    intro s
    refine .ite (fun _ => ?_) fun _ => ⟨trivial, fun _ _ => trivial⟩
    exact ⟨trivial, fun _ => ⟨trivial, fun _ _ => trivial⟩⟩

theorem layers_looks (vol : Volume) (c : DidCall) :
    (layers vol (.did c)).Within Request.Looks fun _ => True :=
  within_lift clientPart reqs ((impl_looks vol c).mono (fun _ h => Req.Looks.request h) fun _ h => h)

/-! ## The view -/

/-- A path of the view is the object's with a component `.AppleDouble` more. -/
theorem findView_eq {pre cs a b : Path} (h : findView pre cs = some (a, b)) :
    ∃ p, a = p ++ [slash] ∧ pre ++ cs = p ++ slash :: (appledouble ++ slash :: b) := by
  induction cs generalizing pre with
  | nil => cases h
  | cons c cs ih =>
    rw [findView] at h
    split at h
    · rename_i hc
      obtain ⟨rfl, hp⟩ := hc
      obtain ⟨rest, rfl⟩ := List.isPrefixOf_iff_prefix.1 hp
      cases h
      exact ⟨pre, rfl, by simp⟩
    · simpa using ih h

/-- What `viewOf` finds of a path of the view: its directory, or a pseudo-file in it. -/
theorem viewOf_cases {vol : ServedVolume} {q : Path} (hnone : (viewOf vol q).1 ≠ .none)
    (hicon : (viewOf vol q).1 ≠ .serverIcon) :
    (∃ parent, q = parent ++ slash :: appledouble ∧
      viewOf vol q = (.appledouble, if parent = [] then [slash] else parent)) ∨
    ∃ a b, findView [] q = some (a, b) ∧ viewOf vol q = pseudoFile (a ++ b) := by
  revert hnone hicon
  unfold viewOf
  split
  · exact fun h => absurd rfl h
  split
  · exact fun _ h => absurd rfl h
  split
  · exact fun h => absurd rfl h
  split
  · exact fun h => absurd rfl h
  rename_i parent last hs
  split
  · rename_i hlast
    exact fun _ _ => .inl ⟨parent, hlast ▸ splitLast_eq hs, rfl⟩
  split
  · exact fun h => absurd rfl h
  · rename_i a b hv
    exact fun _ _ => .inr ⟨a, b, hv, rfl⟩

/-- A pseudo-file's object is at the path without the pseudo-file's suffix. -/
theorem pseudoFile_path (newpath : Path) : ∃ suffix, slash ∉ suffix ∧
    newpath = (pseudoFile newpath).2 ++ suffix := by
  have hcut {suffix : Name} (hend : endsWith newpath suffix = true) :
      newpath = newpath.take (newpath.length - suffix.length) ++ suffix := by
    obtain ⟨r, rfl⟩ := List.isSuffixOf_iff_suffix.1 hend
    rw [List.length_append, Nat.add_sub_cancel, List.take_left]
  unfold pseudoFile
  split
  · rename_i h
    exact ⟨finderinfoString, by decide, hcut h.2⟩
  split
  · rename_i h
    exact ⟨commentString, by decide, hcut h.2⟩
  · exact ⟨[], by simp, by simp⟩

/-- At a path of the view a function that refuses returns a negative errno, and asks at
most for memory. -/
theorem appledoubleRefuse_within {vol : ServedVolume} {p : Path} {ok : MlReq → Prop}
    (hok : ok (.sys .alloc)) (hp : (viewOf vol p).1 ≠ .none) :
    (appledoubleRefuse vol p).Within ok (· < 0) := by
  have hnone : (-EPERM : Int) < 0 := by decide
  unfold appledoubleRefuse extraTranslate
  revert hp
  rcases viewOf vol p with ⟨kind, newpath⟩
  intro hp
  cases kind with
  | none => exact absurd rfl hp
  | serverIcon => exact hnone
  | _ =>
    refine ⟨hok, fun b => ?_⟩
    cases b with
    | false => exact (by decide : (-ENOMEM : Int) < 0)
    | true => exact hnone

end NC
