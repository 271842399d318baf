import NetatalkClient.Model.Rename

/-!
# What a lookup sends and returns

`getDirid` names only components of an absolute path to the server, and returns the
path's last name (`getDirid_names`). It asks for parameters only, so that no lookup changes
the server's tree, and its errors are negative (`getDirid_within`). The same holds
of what `mlRename` does before and after its requests about the two objects
(`resolveRename_within`, `forgetBoth_within`).
-/

namespace NC

open List Prog

/-- The requests that only look. -/
def Req.Looks : Req → Prop
  | .alloc | .now | .getFileDirParms .. => True
  | _ => False

/-- A result of a lookup: a failure is a negative errno. -/
def NegError {α : Type} (x : Except Int α) : Prop := ∀ e, x = .error e → e < 0

variable {α : Type} {path : Path}

@[simp] theorem negError_ok (a : α) : NegError (.ok a : Except Int α) := nofun

@[simp] theorem negError_error (e : Int) : NegError (.error e : Except Int α) ↔ e < 0 := by
  simp [NegError]

section Parts

variable {ok : Req → Prop}

theorem forgetDidPaths_within (hn : ok .now) (path : Path) (ancestors : Bool) :
    (forgetDidPaths path ancestors).Within ok fun _ => True :=
  ⟨hn, fun _ _ => trivial⟩

theorem findDiridByFullname_within (hn : ok .now) (path : Path) :
    (findDiridByFullname path).Within ok fun _ => True :=
  ⟨hn, fun _ _ => trivial⟩

/-- A place in a path at which one of its components starts. -/
def StartsAt (path : Path) (len : Nat) : Prop :=
  ∃ pre rest, path = pre ++ rest ∧ pre.length = len ∧
    (pre = [] ∨ pre = [slash] ∨ rest.head? = some slash)

theorem knownParent_within (hn : ok .now) (fuel : Nat) (known : Path) (did : Nat)
    (h : ∃ rest, path = known ++ slash :: rest) :
    (knownParent fuel known did).Within ok fun x => StartsAt path x.2 := by
  have hstart : StartsAt path 0 := ⟨[], path, rfl, rfl, .inl rfl⟩
  induction fuel generalizing known did with
  | zero => exact hstart
  | succ fuel ih =>
    unfold knownParent
    obtain ⟨rest, rfl⟩ := h
    split
    · exact hstart
    · rename_i name hs
      rw [splitLast_eq hs]
      exact ⟨[slash], name ++ slash :: rest, rfl, rfl, .inr (.inl rfl)⟩
    · rename_i cut name _ hs
      have hcut : known ++ slash :: rest = cut ++ slash :: (name ++ slash :: rest) := by
        rw [splitLast_eq hs, append_assoc, cons_append]
      refine (findDiridByFullname_within hn _).bind fun did _ => ?_
      split
      · exact ⟨cut, slash :: (name ++ slash :: rest), hcut, rfl, .inr (.inr rfl)⟩
      · exact ih _ _ ⟨_, hcut⟩

theorem addDidCacheEntry_within (ha : ok .alloc) (hn : ok .now) (vol : Volume)
    (parentdid newDid : Nat) (path : Path) (name : Name) :
    (addDidCacheEntry vol parentdid newDid path name).Within ok fun _ => True := by
  refine ⟨ha, fun b => ?_⟩
  cases b with
  | false => trivial
  | true =>
    cases vol.nameToUnix name with
    | none => trivial
    | some unixName => exact ⟨hn, fun _ _ => trivial⟩

theorem lookupComponent_within (ha : ok .alloc) (hn : ok .now) (vol : Volume) (parentDid : Nat)
    (name : Name) (fullParent : Path) (rc : Int) (fi : Dirent) :
    (lookupComponent vol parentDid name fullParent rc fi).Within ok NegError := by
  unfold lookupComponent
  split_ifs with hrc
  · have hne : llAnswerErrno rc ≠ 0 := llAnswerErrno_eq_zero.not.2 hrc
    have hnn := llAnswerErrno_nonneg rc
    exact (negError_error _).2 (by omega)
  · exact (negError_error _).2 (by decide)
  · exact (negError_error _).2 (by decide)
  · refine ⟨ha, fun b => ?_⟩
    cases b with
    | false => exact (negError_error _).2 (by decide)
    | true =>
      exact ⟨hn, fun t _ => (addDidCacheEntry_within ha hn ..).bind fun _ _ => negError_ok _⟩

/-- The walk from what a component's lookup returned. -/
def walkOn (vol : Volume) (restart : Option (Call (Except Int Nat))) (cs : List (Name × Path)) :
    Except Int Nat → Call (Except Int Nat)
  | .error e => return .error e
  | .ok cnid => walk vol restart cs cnid

theorem walk_within (ha : ok .alloc) (hn : ok .now) (vol : Volume)
    (restart : Option (Call (Except Int Nat))) (hr : ∀ p ∈ restart, p.Within ok NegError)
    (cs : List (Name × Path))
    (hc : ∀ c ∈ cs, ∀ did, ok (.getFileDirParms did kFPNodeIDBit kFPNodeIDBit (vol.wireName c.1)))
    (did : Nat) : (walk vol restart cs did).Within ok NegError := by
  induction cs generalizing did with
  | nil => exact negError_ok _
  | cons c cs ih =>
    obtain ⟨name, fullParent⟩ := c
    refine ⟨ha, fun b => ?_⟩
    cases b with
    | false => exact (negError_error _).2 (by decide)
    | true =>
      refine ⟨hc (name, fullParent) (mem_cons_self ..) did, fun (rc, fi) => ?_⟩
      have hgo : Within ok NegError
          (lookupComponent vol did name fullParent rc fi >>= walkOn vol restart cs) :=
        (lookupComponent_within ha hn ..).bind fun x hx => by
          cases x with
          | error e => exact hx
          | ok cnid => exact ih (fun c hc' => hc c (mem_cons_of_mem _ hc')) cnid
      cases restart with
      | none => exact hgo
      | some again => exact .ite (fun _ => hr again rfl) fun _ => hgo

end Parts

/-! ## The names of a lookup -/

theorem componentsFrom_names {pre cur : Path} (hcur : slash ∉ cur) :
    ∀ c ∈ componentsFrom pre cur path, c.1 ∈ (cur ++ path).splitOn slash := by
  induction path generalizing pre cur with
  | nil => exact nofun
  | cons c cs ih =>
    rw [componentsFrom]
    split
    · rename_i hc
      subst hc
      rw [splitOn_append_cons_self, forall_mem_cons]
      refine ⟨mem_append_left _ ?_, fun x hx => mem_append_right _ ?_⟩
      · rw [splitOn_eq_singleton hcur]
        exact mem_singleton_self _
      · have hx' := ih (not_mem_nil) x hx
        rwa [nil_append] at hx'
    · rename_i hc
      have hcur' : slash ∉ cur ++ [c] := by simp [hcur, Ne.symm hc]
      rw [append_cons cur c cs]
      exact ih hcur'

theorem walkComponents_names {len : Nat} (h : StartsAt path len) :
    ∀ c ∈ walkComponents path len, c.1 ∈ path.splitOn slash := by
  obtain ⟨pre, rest, rfl, rfl, hpre⟩ := h
  unfold walkComponents
  rw [drop_left]
  cases rest with
  | nil => exact nofun
  | cons c cs =>
    dsimp only
    split
    · rename_i hc
      subst hc
      rw [splitOn_append_cons_self]
      exact fun x hx => mem_append_right _ (componentsFrom_names (by simp) x hx)
    · rename_i hc
      intro x hx
      have hx' : x.1 ∈ (c :: cs).splitOn slash := componentsFrom_names (by simp) x hx
      rcases hpre with rfl | rfl | hhead
      · exact hx'
      · rw [singleton_append, ← nil_append (slash :: c :: cs), splitOn_append_cons_self]
        exact mem_append_right _ hx'
      · exact absurd (Option.some.inj hhead) hc

/-- The request names one of the path's components to the server, or asks nothing of it. -/
def Req.NamesComponent (vol : Volume) (path : Path) : Req → Prop
  | .alloc | .now => True
  | .getFileDirParms _ _ _ name => ∃ c ∈ path.splitOn slash, name = vol.wireName c
  | _ => False

/-- What a lookup returns: a negative errno, or a folder's ID and the path's last name. -/
def LookedUp (path : Path) (x : Except Int (Nat × Name)) : Prop :=
  NegError x ∧ ∀ did name, x = .ok (did, name) → (splitLast path).map Prod.snd = some name

/-- A lookup asks for what is `ok`, if that is so of every name it may walk: those from
where a component starts, and from the root's slash on. -/
theorem getDirid_looks {ok : Req → Prop} (ha : ok .alloc) (hn : ok .now) (vol : Volume) (path : Path)
    (hc : ∀ len, StartsAt path len ∨ len = 1 → ∀ c ∈ walkComponents path len,
      ∀ did, ok (.getFileDirParms did kFPNodeIDBit kFPNodeIDBit (vol.wireName c.1))) :
    (getDirid vol path).Within ok (LookedUp path) := by
  have herr (e : Int) (he : e < 0) : LookedUp path (.error e) := ⟨(negError_error e).2 he, nofun⟩
  unfold getDirid
  split
  · exact herr _ (by decide)
  · rename_i parent basename hs
    have hok (did : Nat) : LookedUp path (.ok (did, basename)) := by
      refine ⟨negError_ok _, fun _ name h => ?_⟩
      cases h
      rw [hs, Option.map_some]
    refine .ite (fun _ => herr _ (by decide)) fun _ => ?_
    refine .ite (fun _ => hok _) fun hparent => ?_
    refine ⟨ha, fun b => ?_⟩
    cases b with
    | false => exact herr _ (by decide)
    | true =>
      refine (findDiridByFullname_within hn parent).bind fun did _ => ?_
      refine .ite (fun _ => hok _) fun _ => ?_
      refine (knownParent_within hn _ _ _ ⟨basename, splitLast_eq hs⟩).bind
        fun (knownDid, knownLen) hlen => ?_
      have hroot : Within ok NegError (do
          removeDidLineage path
          walk vol none (walkComponents path 1) rootDid) :=
        (forgetDidPaths_within hn path true).bind fun _ _ =>
          walk_within ha hn vol none nofun _ (hc 1 (.inr rfl)) _
      refine (walk_within ha hn vol _ (fun p hp => ?_) _ (hc _ (.inl hlen)) _).bind fun x hx => ?_
      · split at hp
        · exact Option.some.inj hp ▸ hroot
        · cases hp
      · cases x with
        | error e => exact herr e ((negError_error _).1 hx)
        | ok did => exact hok did

theorem getDirid_names (vol : Volume) (h : path.head? = some slash) :
    (getDirid vol path).Within (Req.NamesComponent vol path) (LookedUp path) := by
  refine getDirid_looks trivial trivial vol path fun len hlen c hc did => ?_
  have hstart : StartsAt path len := by
    rcases hlen with hlen | rfl
    · exact hlen
    · obtain ⟨rest, rfl⟩ := head?_eq_some_iff.1 h
      exact ⟨[slash], rest, rfl, rfl, .inr (.inl rfl)⟩
  exact ⟨c.1, walkComponents_names hstart c hc, rfl⟩

theorem getDirid_within (vol : Volume) (path : Path) :
    (getDirid vol path).Within Req.Looks NegError :=
  (getDirid_looks trivial trivial vol path fun _ _ _ _ _ => trivial).mono (fun _ h => h)
    fun _ h => h.1

theorem resolveRename_within (vol : Volume) (pathFrom pathTo : Path) :
    (resolveRename vol pathFrom pathTo).Within Req.Looks NegError := by
  unfold resolveRename
  split
  · rename_i e he
    exact (negError_error _).2 (vol.convertPath_neg _ _ he)
  split
  · rename_i e he
    exact (negError_error _).2 (vol.convertPath_neg _ _ he)
  refine .ite (fun _ => (negError_error _).2 (by decide)) fun _ => ?_
  refine (getDirid_within vol _).bind fun x hx => ?_
  cases x with
  | error e => exact (negError_error _).2 ((negError_error _).1 hx)
  | ok a =>
    refine (getDirid_within vol _).bind fun y hy => ?_
    cases y with
    | error e => exact (negError_error _).2 ((negError_error _).1 hy)
    | ok b => exact negError_ok _

theorem forgetBoth_within (r : Resolved) (ret : Int) :
    (do
      removeDidSubtree r.convertedFrom
      removeDidSubtree r.convertedTo
      return -ret : Call Int).Within Req.Looks (· = -ret) :=
  (forgetDidPaths_within trivial _ _).bind fun _ _ =>
    (forgetDidPaths_within trivial _ _).bind fun _ _ => rfl

end NC
