import NetatalkClient.Proof.Did.Folders
import NetatalkClient.Proof.Midlevel.About

/-!
# Calls that move nothing

Every call but `ml_rename` looks up paths without empty components (`LookupPath`), the
view's among them, and sends no move (`MlReq.Steady`). Such a call leaves a cache in which
every ID is at its path or gone (`Sound`, `steady_wp`).
-/

namespace NC

open List FolderServer Prog

/-- A path that a lookup can take: the names of its folders, and a last name that may be
empty. -/
def LookupPath (encoding : PathEncoding) (path : Path) : Prop :=
  ∃ (ns : List Name) (last : Name), path = joinPath ns ++ slash :: last ∧
    (∀ n ∈ ns, WireName encoding n) ∧ slash ∉ last

/-- Every lookup is of such a path, and no folder is moved. -/
def MlReq.Steady (encoding : PathEncoding) : MlReq → Prop
  | .did (.getDirid path) => LookupPath encoding path
  | .sys r => ¬r.Moves
  | _ => True

/-- No move stands out, and every cached ID is that of the folder at its path, or is gone. -/
structure Sound (vol : Volume) (s : VolState) (v : FolderServer) : Prop where
  quiet : v.Quiet
  holds : s.client.Holds (WireName vol.pathEncoding) fun ns d =>
    v.folders.At (ns.map vol.wireName) d

section Layers

variable {vol : Volume} {s : VolState} {v : FolderServer}

theorem Sound.lift {α : Type} {p : Call α} {P : FolderServer → α → Prop} (h : Sound vol s v)
    (hp : HoldsAmid (restrict reqs serve) (WireName vol.pathEncoding) FolderServer.Quiet
      (fun v ns d => v.folders.At (ns.map vol.wireName) d) P p v) :
    Wp serve (lift clientPart reqs p) s v fun _ s' v' => Sound vol s' v' := by
  rw [wp_lift]
  exact ((truthful vol).amid_wp hp h.quiet h.holds).mono fun _ _ _ hk => ⟨hk.1.1.1, hk.1.2⟩

theorem checkDidListing_subset (path : Path) (did : Nat) (l : Option (List Entry)) (now : Nat)
    (c : List DidEntry) : checkDidListing path did l now c ⊆ c :=
  List.Subset.trans (foldl_forgetLocked_subset ..) (filter_subset_self _)

theorem Request.effect_still {r : Request} (h : ¬r.Moves) : ∀ e ∈ r.effect, e.Still := by
  cases r <;> simp [Request.effect, Effect.Still, Request.Moves] at h ⊢

theorem steady_layers {r : MlReq} (hr : r.Steady vol.pathEncoding) (h : Sound vol s v) :
    Wp serve (layers vol r) s v fun _ s' v' => Sound vol s' v' := by
  have T {ns : List Name} (hns : ∀ n ∈ ns, WireName vol.pathEncoding n) :=
    (truthful vol).rules hns
  match r with
  | .did (.getDirid path) =>
    obtain ⟨ns, last, rfl, hns, hlast⟩ := hr
    exact h.lift ((T hns).getDirid_amid hlast)
  | .did (.removeDidSubtree path) | .did (.removeDidLineage path) =>
    exact h.lift ((T (forall_mem_nil _)).forgetDidPaths_amid ..)
  | .did (.checkDidEntry path did) =>
    refine h.lift (P := fun _ _ => True) ⟨trivial, fun t v' _ => ?_⟩
    exact Amid.modify (fun _ h => ⟨h.1, h.2.of_subset (checkDidEntry_subset ..)⟩) trivial
  | .did (.checkDidEntryListing path did l) =>
    have hcheck (indexed : Bool) (v : FolderServer) : HoldsAmid (restrict reqs serve)
        (WireName vol.pathEncoding) FolderServer.Quiet (fun v ns d => v.folders.At (ns.map vol.wireName) d)
        (fun _ _ => True) (do
          let t ← now
          .modify fun s => { s with
            didCache := checkDidListing path did (if indexed then some l else none) t s.didCache }) v := by
      refine ⟨trivial, fun t v' _ => ?_⟩
      exact Amid.modify (fun _ h => ⟨h.1, h.2.of_subset (checkDidListing_subset ..)⟩) trivial
    refine h.lift (P := fun _ _ => True) ?_
    refine fun cl hcl => ⟨hcl, Amid.ite (fun _ => ?_) fun _ => hcheck l.isEmpty v⟩
    exact ⟨trivial, fun indexed v' _ => hcheck indexed v'⟩
  | .sys r =>
    rw [layers, request, wp_send]
    intro c a v' hserve
    obtain ⟨hstays, -⟩ := Spared.still.serve h.quiet (Request.effect_still hr) hserve
    exact wp_ret.2 ⟨hstays.1, h.holds.mono fun ns d => hstays.2 _ d trivial⟩

/-- A call that moves nothing leaves a sound cache. -/
theorem steady_wp {α : Type} {c : MlCall α} {P : α → Prop}
    (hc : c.Within (MlReq.Steady vol.pathEncoding) P) (h : Sound vol s v) :
    Wp serve (system vol c) s v fun _ s' v' => Sound vol s' v' := by
  have hput : ∀ (s : VolState) (m : MlState) (v : FolderServer), Sound vol s v →
      Sound vol (mlPart.put m s) v := fun _ _ _ h => ⟨h.quiet, h.holds⟩
  exact (hc.wp_handle mlPart (layers vol) hput (fun r hr s v h => steady_layers hr h) h).mono
    fun _ _ _ h => h.2

end Layers

/-! ## The paths of lookups -/

section Paths

variable {encoding : PathEncoding} {p q : Path}

theorem length_le_of_mem_joinPath {ns : List Name} {n : Name} (h : n ∈ ns) :
    n.length ≤ (joinPath ns).length := by
  obtain ⟨as, bs, rfl⟩ := append_of_mem h
  simp only [joinPath_append, joinPath_cons, length_append, length_cons]
  omega

theorem AbsolutePath.names (h : AbsolutePath p) (hlen : p.length ≤ encoding.maxLength) :
    p = [slash] ∨ ∃ (ns : List Name) (n : Name), p = joinPath (ns ++ [n]) ∧
      ∀ m ∈ ns ++ [n], WireName encoding m := by
  rcases h with rfl | ⟨ns, hne, hns, rfl⟩
  · exact .inl rfl
  · refine .inr ⟨ns.dropLast, ns.getLast hne, ?_⟩
    rw [dropLast_append_getLast hne]
    exact ⟨rfl, fun m hm => ⟨hns m hm, (length_le_of_mem_joinPath hm).trans hlen⟩⟩

theorem AbsolutePath.lookupPath (h : AbsolutePath p) (hlen : p.length ≤ encoding.maxLength) :
    LookupPath encoding p := by
  rcases h.names hlen with rfl | ⟨ns, n, rfl, hns⟩
  · exact ⟨[], [], rfl, nofun, by simp⟩
  · refine ⟨ns, n, by simp [joinPath_append], fun m hm => hns m (by simp [hm]), ?_⟩
    exact (hns n (by simp)).name.2

theorem LookupPath.of_append {t : Name} (h : LookupPath encoding (p ++ t)) (ht : slash ∉ t) :
    LookupPath encoding p := by
  obtain ⟨ns, last, heq, hns, hlast⟩ := h
  rcases append_eq_append_iff.1 heq with ⟨u, -, hu⟩ | ⟨u, hp, hu⟩
  · exact absurd (hu ▸ by simp) ht
  · cases u with
    | nil =>
      rw [nil_append] at hu
      exact absurd (hu ▸ mem_cons_self ..) ht
    | cons c u =>
      obtain ⟨rfl, rfl⟩ := List.cons.inj hu
      exact ⟨ns, u, hp, hns, fun hm => hlast (mem_append_left _ hm)⟩

/-- The path without its component `.AppleDouble` has no empty component either. -/
theorem AbsolutePath.findView {a b : Path} (h : AbsolutePath p) (hv : findView [] p = some (a, b)) :
    AbsolutePath (a ++ b) := by
  obtain ⟨q, rfl, hq⟩ := findView_eq hv
  subst hq
  rw [absolutePath_iff] at h ⊢
  have hsplit : (q ++ [slash] ++ b).splitOn slash = q.splitOn slash ++ b.splitOn slash := by
    rw [append_assoc, singleton_append, splitOn_append_cons_self]
  have hwhole : (q ++ slash :: (appledouble ++ slash :: b)).splitOn slash =
      q.splitOn slash ++ appledouble :: b.splitOn slash := by
    have hview : slash ∉ appledouble := by decide
    rw [splitOn_append_cons_self, splitOn_append_cons_self,
      splitOn_eq_singleton hview, singleton_append]
  obtain ⟨ns, hs, hns⟩ := h
  rw [hwhole] at hs
  obtain ⟨x, xs, hx⟩ : ∃ x xs, q.splitOn slash = x :: xs :=
    exists_cons_of_ne_nil (splitOn_ne_nil _ _)
  rw [hx, cons_append] at hs
  obtain ⟨rfl, rfl⟩ := List.cons.inj hs
  refine ⟨xs ++ b.splitOn slash, by rw [hsplit, hx, cons_append], .inr ⟨?_, fun n hn => ?_⟩⟩
  · simp
  · rcases hns with hns | ⟨-, hns⟩
    · simp [append_eq_singleton_iff] at hns
    · refine hns n ?_
      rcases mem_append.1 hn with hn | hn
      · exact mem_append_left _ hn
      · exact mem_append_right _ (mem_cons_of_mem _ hn)

/-- The object behind a path of the view can be looked up. -/
theorem viewOf_lookupPath {vol : ServedVolume} (h : AbsolutePath q)
    (hlen : q.length ≤ encoding.maxLength) (hnone : (viewOf vol q).1 ≠ .none)
    (hicon : (viewOf vol q).1 ≠ .serverIcon) : LookupPath encoding (viewOf vol q).2 := by
  rcases viewOf_cases hnone hicon with ⟨parent, rfl, hv⟩ | ⟨a, b, hf, hv⟩
  · rw [hv]
    split
    · exact ⟨[], [], rfl, nofun, by simp⟩
    · rename_i hparent
      have hlen' : parent.length ≤ encoding.maxLength := by
        rw [length_append] at hlen
        omega
      rcases h.names hlen with hroot | ⟨ns, n, hq, hns⟩
      · simp [append_eq_singleton_iff, appledouble] at hroot
      · have hsplit := congrArg splitLast hq
        rw [splitLast_join (hns n (by simp)).name, splitLast_append (by decide), Option.some.injEq,
          Prod.mk.injEq] at hsplit
        obtain ⟨rfl, -⟩ := hsplit
        have hne : ns ≠ [] := by
          rintro rfl
          exact hparent rfl
        have habs : AbsolutePath (joinPath ns) :=
          .inr ⟨ns, hne, fun m hm => (hns m (by simp [hm])).name, rfl⟩
        exact habs.lookupPath hlen'
  · obtain ⟨suffix, hsuffix, hs⟩ := pseudoFile_path (a ++ b)
    have hlen' : (a ++ b).length ≤ encoding.maxLength := by
      obtain ⟨r, rfl, hr⟩ := findView_eq hf
      rw [nil_append] at hr
      refine Nat.le_trans ?_ hlen
      rw [hr]
      simp only [length_append, length_cons, length_nil]
      omega
    have hpath := (h.findView hf).lookupPath hlen'
    rw [hv]
    rw [hs] at hpath
    exact hpath.of_append hsuffix

end Paths

/-! ## The calls -/

/-- The call sends no request but steady ones. -/
abbrev Steadily (encoding : PathEncoding) {α : Type} (p : MlCall α) : Prop :=
  p.Keeps (fun _ => True) (MlReq.Steady encoding) fun _ => True

/-- What a volume's conversion makes of a path has no empty component either, and fits the
wire. -/
def ConvertsPath (vol : ServedVolume) (p : Path) : Prop :=
  ∀ q, vol.convertPath p = .ok q → AbsolutePath q ∧ q.length ≤ vol.pathEncoding.maxLength

section Calls

variable {encoding : PathEncoding} {vol : ServedVolume} {p q : Path} {α : Type}

theorem steady_allows (o : ObjName) : Allows vol.toVolume (MlReq.Steady encoding) o where
  sys _ _ h := h
  forget _ := trivial

theorem steady_frames (fp : Nat) : Frames vol (MlReq.Steady encoding) (fun _ => True) fp where
  frame _ _ := trivial
  allows _ := steady_allows _
  nameless r h := by
    cases r with
    | moveAndRename => exact absurd (h fun _ => False).1 id
    | _ => exact id

theorem steady_atom {f : MlState → α × MlState} : Steadily encoding (Prog.modifyGet f : MlCall α) :=
  fun _ _ => ⟨trivial, trivial⟩

theorem ensureDtOpened_steady : Steadily encoding ensureDtOpened :=
  ensureDtOpened_tends (@steady_frames encoding plainServed 0).tends.reading

theorem readComment_steady (name : Name) (did : Nat) :
    Steadily encoding (readComment vol name did) :=
  readComment_tends (steady_frames 0).tends.reading fun hr _ => MlReq.not_moves_of_forReading hr

theorem setCommentLength_steady (name : Name) (did : Nat) (length : Int) :
    Steadily encoding (setCommentLength vol name did length) :=
  setCommentLength_tends (steady_frames 0).tends length fun hr _ => hr

theorem getDirid_steady (h : LookupPath encoding q) : Steadily encoding (Ml.getDirid q) :=
  ⟨h, fun _ => trivial⟩

theorem getDiridInto_steady (h : LookupPath encoding q) (fp : Nat) :
    Steadily encoding (getDiridInto q fp) := by
  refine keeps_try (getDirid_steady h) (fun _ => trivial) fun x => ?_
  exact fun _ _ => ⟨trivial, trivial⟩

theorem llGetattr_steady (h : LookupPath encoding q) (resource : Bool) :
    Steadily encoding (llGetattr vol q resource) := by
  refine .guard fun _ => ?_
  refine keeps_try (getDirid_steady h) (fun _ => trivial) fun x => ?_
  refine ⟨id, fun y => ?_⟩
  refine .guard fun _ => ?_
  refine .guard fun _ => ?_
  refine .guard fun _ => ?_
  exact .ite (fun _ => ⟨trivial, fun _ => trivial⟩) fun _ => trivial

theorem readdirPages_steady (h : LookupPath encoding q) (resource : Bool) (fuel did : Nat)
    (name : Name) (resolved : Bool) (l : List Entry) :
    Steadily encoding (readdirPages vol q resource fuel did name resolved l) := by
  induction fuel generalizing did name resolved l with
  | zero => trivial
  | succ fuel ih =>
    refine ⟨id, fun x => ?_⟩
    refine .ite (fun _ => ?_) fun _ => ?_
    · refine .guard fun _ => ?_
      refine .guard fun _ => ?_
      exact .guard fun _ => ih _ _ _ _
    refine .guard fun _ => ?_
    refine .ite (fun _ => ?_) fun _ => trivial
    refine .guard fun _ => ?_
    refine keeps_seq ⟨trivial, fun _ => trivial⟩ fun _ => ?_
    refine keeps_try (getDirid_steady h) (fun _ => trivial) fun y => ?_
    exact .guard fun _ => ih _ _ _ _

theorem llReaddir_steady (h : LookupPath encoding q) (resource : Bool) :
    Steadily encoding (llReaddir vol q resource) := by
  refine .guard fun _ => ?_
  refine keeps_try (getDirid_steady h) (fun _ => trivial) fun x => ?_
  refine keeps_try (readdirPages_steady h resource _ _ _ _ _) (fun _ => trivial) fun l => ?_
  dsimp only
  cases l.filter (·.name != []) <;> exact ⟨trivial, fun _ => trivial⟩

theorem entryPseudoFiles_steady (e : Entry) : Steadily encoding (entryPseudoFiles vol e) := by
  refine ⟨id, fun b => ?_⟩
  refine .guard fun _ => ?_
  cases vol.convertName e.name with
  | none => trivial
  | some afpName =>
    refine keeps_try (readComment_steady _ _) (fun _ => trivial) fun comment => ?_
    refine .guard fun _ => ?_
    exact ⟨id, fun b => .guard fun _ => trivial⟩

theorem viewEntries_steady (es forks pseudo : List Entry) :
    Steadily encoding (viewEntries vol es forks pseudo) := by
  induction es generalizing forks pseudo with
  | nil => trivial
  | cons e es ih =>
    refine keeps_try (entryPseudoFiles_steady e) (fun _ => trivial) fun more => ?_
    exact ih _ _

/-- What follows `extra_translate` is steady if it is so for what the path names. -/
theorem steady_extraTranslate {k : Except Int (MetaKind × Path) → MlCall α}
    (herr : ∀ e, Steadily encoding (k (.error e))) (hok : Steadily encoding (k (.ok (viewOf vol p)))) :
    Steadily encoding (extraTranslate vol p >>= k) := by
  unfold extraTranslate
  revert hok
  rcases viewOf vol p with ⟨kind, newpath⟩
  intro hok
  have halloc : Steadily encoding ((do
      if ← Ml.alloc then return .ok (kind, newpath) else return .error (-ENOMEM)) >>= k) := by
    refine ⟨id, fun b => ?_⟩
    cases b
    · exact herr _
    · exact hok
  cases kind with
  | none | serverIcon => exact hok
  | _ => exact halloc

theorem appledoubleRefuse_steady : Steadily encoding (appledoubleRefuse vol p) := by
  refine steady_extraTranslate (fun e => trivial) ?_
  rcases viewOf vol p with ⟨kind, newpath⟩
  cases kind <;> trivial

/-- The opening that `ml_mkdir`, `ml_unlink` and `ml_rmdir` share. -/
theorem steady_opening (h : LookupPath encoding q) {rest : Except Int (Nat × Name) → MlCall Int}
    (herr : ∀ e, Steadily encoding (rest (.error e))) (hok : ∀ x, Steadily encoding (rest (.ok x))) :
    Steadily encoding (if invalidFilename vol q then ret (-ENAMETOOLONG)
      else if vol.isReadonly then ret (-EROFS)
      else appledoubleRefuse vol p >>= fun refused =>
        if refused < 0 then ret refused else Ml.getDirid q >>= rest) := by
  refine .guard fun _ => ?_
  refine .guard fun _ => ?_
  refine keeps_seq appledoubleRefuse_steady fun ret => ?_
  exact .guard fun _ => keeps_try (getDirid_steady h) herr hok

theorem deleteObject_steady (converted : Path) (did : Nat) (name : Name) :
    Steadily encoding (deleteObject vol converted did name) :=
  deleteObject_about (steady_allows _) converted

/-- What a path of the view names can be looked up, whatever its kind. -/
theorem viewOf_pseudo (hq : AbsolutePath q) (hlen : q.length ≤ encoding.maxLength) {kind : MetaKind}
    {newpath : Path} (hv : viewOf vol q = (kind, newpath)) (hnone : kind ≠ .none)
    (hicon : kind ≠ .serverIcon) : LookupPath encoding newpath := by
  have hkind : (viewOf vol q).1 = kind := by rw [hv]
  have h := viewOf_lookupPath hq hlen (hkind ▸ hnone) (hkind ▸ hicon)
  rwa [hv] at h

theorem appledoubleOpen_steady (hq : AbsolutePath q) (hlen : q.length ≤ encoding.maxLength)
    (flags fp : Nat) : Steadily encoding (appledoubleOpen vol q flags fp) := by
  refine steady_extraTranslate (fun e => trivial) ?_
  rcases hv : viewOf vol q with ⟨kind, newpath⟩
  have hpseudo := viewOf_pseudo hq hlen hv
  refine keeps_seq (fun _ _ => ⟨trivial, trivial⟩) fun _ => ?_
  cases kind with
  | none | appledouble | serverIcon => trivial
  | resource =>
    refine keeps_seq (getDiridInto_steady (hpseudo nofun nofun) fp) fun ret => ?_
    refine .guard fun _ => ?_
    exact keeps_seq (llOpen_onFork (steady_frames fp) flags) fun _ => trivial
  | finderinfo =>
    exact keeps_seq (getDiridInto_steady (hpseudo nofun nofun) fp) fun _ => trivial
  | comment =>
    refine keeps_seq (getDiridInto_steady (hpseudo nofun nofun) fp) fun ret => ?_
    refine .guard fun _ => ?_
    refine keeps_seq ensureDtOpened_steady fun ret => ?_
    refine .guard fun _ => ?_
    refine .guard fun _ => ?_
    refine keeps_seq steady_atom fun f => ?_
    exact keeps_seq (setCommentLength_steady _ _ _) fun _ => trivial

section

variable (hp : ConvertsPath vol p)

include hp

/-- The opening of the calls on an object that convert their path first. -/
theorem steady_convert {k : Path → MlCall α} {err : Int → α}
    (hk : ∀ q, AbsolutePath q → q.length ≤ vol.pathEncoding.maxLength →
      Steadily vol.pathEncoding (k q)) :
    Steadily vol.pathEncoding (match vol.convertPath p with
      | .error e => (return err e : MlCall α)
      | .ok q => k q) := by
  cases hq : vol.convertPath p with
  | error e => trivial
  | ok q => exact hk q (hp q hq).1 (hp q hq).2

theorem mlUnlink_steady : Steadily vol.pathEncoding (mlUnlink vol p) := by
  refine steady_convert hp fun q hq hlen => ?_
  refine steady_opening (hq.lookupPath hlen) (fun _ => trivial) fun x => ?_
  refine keeps_seq (isDirectory_about (steady_allows _)) fun ret => ?_
  exact .guard fun _ => deleteObject_steady _ _ _

theorem mlRmdir_steady : Steadily vol.pathEncoding (mlRmdir vol p) := by
  refine steady_convert hp fun q hq hlen => ?_
  refine steady_opening (hq.lookupPath hlen) (fun _ => trivial) fun x => ?_
  refine keeps_seq (isDirectory_about (steady_allows _)) fun ret => ?_
  refine .ite (fun _ => ?_) fun _ => deleteObject_steady _ _ _
  exact ⟨trivial, fun _ => trivial⟩

theorem mlMkdir_steady (mode : Nat) : Steadily vol.pathEncoding (mlMkdir vol p mode) := by
  refine steady_convert hp fun q hq hlen => ?_
  refine steady_opening (hq.lookupPath hlen) (fun _ => trivial) fun x => ?_
  refine ⟨id, fun y => ?_⟩
  refine .ite (fun _ => ?_) fun _ => trivial
  refine keeps_seq ⟨trivial, fun _ => trivial⟩ fun _ => ?_
  exact keeps_seq (setCreatedMode_about (steady_allows _) mode) fun _ => trivial

theorem mlGetattr_steady : Steadily vol.pathEncoding (mlGetattr vol p) := by
  refine steady_convert hp fun q hq hlen => ?_
  have hview : Steadily vol.pathEncoding (appledoubleGetattr vol q) := by
    refine steady_extraTranslate (fun e => trivial) ?_
    rcases hv : viewOf vol q with ⟨kind, newpath⟩
    have hpseudo := viewOf_pseudo hq hlen hv
    cases kind with
    | none | appledouble | serverIcon => trivial
    | resource =>
      refine keeps_seq (llGetattr_steady (hpseudo nofun nofun) true) fun x => ?_
      cases x <;> trivial
    | finderinfo =>
      refine keeps_seq (llGetattr_steady (hpseudo nofun nofun) false) fun x => ?_
      cases x <;> trivial
    | comment =>
      refine keeps_seq (llGetattr_steady (hpseudo nofun nofun) false) fun x => ?_
      cases x with
      | error e => trivial
      | ok st =>
        refine keeps_try (getDirid_steady (hpseudo nofun nofun)) (fun _ => trivial) fun y => ?_
        refine keeps_seq (readComment_steady _ _) fun comment => ?_
        cases comment <;> trivial
  refine keeps_seq hview fun x => ?_
  rcases x with _ | (_ | _)
  · trivial
  · exact llGetattr_steady (hq.lookupPath hlen) false
  · trivial

theorem mlReaddir_steady : Steadily vol.pathEncoding (mlReaddir vol p) := by
  refine steady_convert hp fun q hq hlen => ?_
  have hview : Steadily vol.pathEncoding (appledoubleReaddir vol q) := by
    refine steady_extraTranslate (fun e => trivial) ?_
    rcases hv : viewOf vol q with ⟨kind, newpath⟩
    have hpseudo := viewOf_pseudo hq hlen hv
    cases kind with
    | appledouble =>
      refine keeps_try (llReaddir_steady (hpseudo nofun nofun) true) (fun _ => trivial) fun l => ?_
      refine keeps_seq (viewEntries_steady l [] []) fun y => ?_
      cases y <;> trivial
    | _ => trivial
  refine keeps_seq hview fun x => ?_
  rcases x with _ | (_ | _)
  · trivial
  · exact llReaddir_steady (hq.lookupPath hlen) false
  · trivial

theorem mlOpen_steady (flags : Nat) : Steadily vol.pathEncoding (mlOpen vol p flags) := by
  refine steady_convert hp fun q hq hlen => ?_
  refine .guard fun _ => ?_
  refine .guard fun _ => ?_
  refine ⟨id, fun b => .guard fun _ => ?_⟩
  refine keeps_seq steady_atom fun fp => ?_
  refine keeps_seq (appledoubleOpen_steady hq hlen flags fp) fun ret => ?_
  refine .guard fun _ => ?_
  refine .guard fun _ => ?_
  refine keeps_seq (getDiridInto_steady (hq.lookupPath hlen) fp) fun ret => ?_
  refine .guard fun _ => ?_
  exact keeps_seq (llOpen_onFork (steady_frames fp) flags) fun _ => trivial

theorem mlCreat_steady : Steadily vol.pathEncoding (mlCreat vol p) := by
  refine steady_convert hp fun q hq hlen => ?_
  have hview : Steadily vol.pathEncoding (appledoubleCreat vol p) :=
    steady_extraTranslate (fun e => trivial) trivial
  refine .guard fun _ => ?_
  refine keeps_seq hview fun ret => ?_
  refine .guard fun _ => ?_
  refine .guard fun _ => ?_
  refine .guard fun _ => ?_
  refine keeps_try (getDirid_steady (hq.lookupPath hlen)) (fun _ => trivial) fun x => ?_
  exact llCreatefile_onFork (steady_allows _)

end

end Calls

end NC
