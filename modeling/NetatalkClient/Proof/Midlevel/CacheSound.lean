import NetatalkClient.Proof.Midlevel.Refused
import NetatalkClient.Proof.Midlevel.Steady

/-!
# The directory ID cache over whole sessions

`ml_rename` is the one call that moves folders. It moves what is at its first path and
nothing else (`Spared.from`), and it forgets that path whatever came of its requests
(`rename_wp`). So no sequence of calls leaves an ID in the cache under a path that is not
the folder's (`cache_sound`), though requests go unanswered and are carried out late.
-/

namespace NC

open List FolderServer Request Prog

/-! ## What a rename moves -/

/-- If the effect is a move, it takes the object of the name in the folder. -/
def Effect.From (did : Nat) (name : Path) : Effect → Prop
  | .move srcDid _ src _ _ => srcDid = did ∧ src = name
  | _ => True

variable {e : Effect} {name : Path} {f : Folders} {ns : List Name}

theorem Effect.Still.from (h : e.Still) {did : Nat} : e.From did name := by
  cases e with
  | move => exact h.elim
  | _ => trivial

/-- The path is not at the place or beneath it, unless the place is the root's. -/
def Clear (place p : List Path) : Prop := place ≠ [] → ¬place <+: p

theorem clear_parent {p : List Path} (h : name ≠ [] ∨ p = []) : Clear (objectPath p name) p := by
  intro hne hpre
  unfold objectPath at hne hpre
  split at hne
  · rename_i hname
    exact hne (h.resolve_left (not_not.2 hname))
  · rename_i hname
    rw [if_neg hname] at hpre
    have hlen := hpre.length_le
    rw [length_append, length_singleton] at hlen
    omega

theorem Effect.From.spares {p q : List Path} {did : Nat} (h : f.At p did) (he : e.From did name)
    (hq : Clear (objectPath p name) q) : e.Spares f q := by
  cases e with
  | move srcDid dstDid src dst newName =>
    obtain ⟨rfl, rfl⟩ := he
    intro r hr hne
    obtain rfl := h.1 r hr
    exact hq hne
  | _ => trivial

/-- Moves of one object spare every path that is clear of its place. -/
theorem Spared.from {p : List Path} {did : Nat} (h : name ≠ [] ∨ p = []) :
    Spared (fun f => f.At p did) (Effect.From did name) (Clear (objectPath p name)) where
  keeps hat he hc := hat.carry hc (he.spares hat (clear_parent h))
  spares hat he hq := he.spares hat hq

section Requests

variable {vol : Volume} {src dst : ObjName} {cl : Client}

/-- The request, if it moves something, moves the source. -/
def Req.From (vol : Volume) (src : ObjName) (r : Req) : Prop :=
  ∀ e ∈ (reqs.req r).effect, e.From src.did (vol.wireName src.name)

theorem afterMove_from (rc : Int) :
    (afterMove vol src dst rc).Keeps (· = cl) (Req.From vol src) fun _ => True := by
  refine .ite (fun _ => ?_) fun _ => trivial
  refine ⟨?_, fun _ => ⟨?_, fun _ => trivial⟩⟩ <;>
    simp [Req.From, reqs, effect, Effect.From]

theorem renameObjects_from :
    (renameObjects vol src dst).Keeps (· = cl) (Req.From vol src) fun _ => True := by
  have hmove (d : Option Path) (n : Path) : Req.From vol src
      (.moveAndRename src.did dst.did (vol.wireName src.name) (d.elim [] vol.wireName)
        (vol.wireName n)) := by
    simp [Req.From, reqs, effect, Effect.From]
  refine ⟨by simp [Req.From, reqs, effect], fun x => ?_⟩
  refine .ite (fun _ => ⟨hmove (some dst.name) src.name, fun rc => afterMove_from rc⟩) fun _ => ?_
  refine .ite (fun _ => ?_) fun _ => ⟨hmove none dst.name, fun rc => afterMove_from rc⟩
  refine ⟨by simp [Req.From, reqs, effect], fun rc => ?_⟩
  refine .ite (fun _ => ?_) fun _ => ⟨hmove none dst.name, fun rc => afterMove_from rc⟩
  exact ⟨by simp [Req.From, reqs, effect, Effect.From], fun _ => trivial⟩

end Requests

/-! ## Renaming -/

/-- The object is the one at the path: its folder's ID is that of the path's folder or is
gone, and its name is the path's last. -/
structure Source (vol : Volume) (f : Folders) (path : Path) (o : ObjName) (ns : List Name) :
    Prop where
  path : path = joinPath ns ++ slash :: o.name
  names : ∀ n ∈ ns, WireName vol.pathEncoding n
  last : WireName vol.pathEncoding o.name ∨ ns = [] ∧ o.name = []
  folder : f.At (ns.map vol.wireName) o.did

/-- Where the object is. -/
def Source.place (vol : Volume) (o : ObjName) (ns : List Name) : List Path :=
  objectPath (ns.map vol.wireName) (vol.wireName o.name)

open Source

/-- What stands out leaves every path alone that the cache still has. -/
def Settling (vol : Volume) (s : VolState) (v : FolderServer) : Prop :=
  ∃ K es A, Spared K es A ∧ v.Within K es ∧
    s.client.Holds (WireName vol.pathEncoding) fun ns d =>
      A (ns.map vol.wireName) ∧ v.folders.At (ns.map vol.wireName) d

section Rename

variable {vol : Volume} {s : VolState} {v : FolderServer} {cl : Client}

theorem Sound.settling (h : Sound vol s v) : Settling vol s v :=
  ⟨_, _, _, Spared.still, h.quiet, h.holds.mono fun _ _ hat => ⟨trivial, hat⟩⟩

theorem Settling.settle (h : Settling vol s v) {xs : List (Nat × Carried)} {v' : FolderServer}
    (hv : v.settle xs = some v') : Sound vol s v' := by
  obtain ⟨K, es, A, S, hw, hcl⟩ := h
  obtain ⟨hpending, hat⟩ := S.settle hw hv
  refine ⟨⟨trivial, by simp [hpending]⟩, hcl.mono fun ns d h => hat _ d h.1 h.2⟩

variable {p' path : Path} {A : List Path → Prop}

theorem resolveRename_wp {p : Path}
    (hp : ∀ q, vol.convertPath p = .ok q → AbsolutePath q ∧ q.length ≤ vol.pathEncoding.maxLength)
    (hp' : ∀ q, vol.convertPath p' = .ok q → AbsolutePath q ∧ q.length ≤ vol.pathEncoding.maxLength)
    (hv : v.Quiet)
    (hcl : cl.Holds (WireName vol.pathEncoding) fun ns d => v.folders.At (ns.map vol.wireName) d) :
    Wp (restrict reqs serve) (resolveRename vol p p') cl v fun x cl' v' =>
      (v'.Quiet ∧ cl'.Holds (WireName vol.pathEncoding) fun ns d =>
        v'.folders.At (ns.map vol.wireName) d) ∧
      ∀ r, x = .ok r → ∃ ns, Source vol v'.folders r.convertedFrom r.src ns := by
  have T := truthful vol
  unfold resolveRename
  cases hq : vol.convertPath p with
  | error e => exact wp_ret.2 ⟨⟨hv, hcl⟩, nofun⟩
  | ok q =>
  cases hq' : vol.convertPath p' with
  | error e => exact wp_ret.2 ⟨⟨hv, hcl⟩, nofun⟩
  | ok q' =>
  refine .ite (fun _ => wp_ret.2 ⟨⟨hv, hcl⟩, nofun⟩) fun _ => ?_
  have hsource : ∃ (ns : List Name) (last : Name), q = joinPath ns ++ slash :: last ∧
      (∀ n ∈ ns, WireName vol.pathEncoding n) ∧
      (WireName vol.pathEncoding last ∨ ns = [] ∧ last = []) := by
    rcases (hp q hq).1.names (hp q hq).2 with rfl | ⟨ns, n, rfl, hns⟩
    · exact ⟨[], [], rfl, nofun, .inr ⟨rfl, rfl⟩⟩
    · exact ⟨ns, n, by simp [joinPath_append], fun m hm => hns m (by simp [hm]),
        .inl (hns n (by simp))⟩
  obtain ⟨ns, last, rfl, hns, hlast⟩ := hsource
  have hslash : slash ∉ last := by
    rcases hlast with h | ⟨-, rfl⟩
    · exact h.name.2
    · simp
  rw [wp_bind]
  refine (T.getDirid_wp hns hslash hv hcl).mono fun x cl₁ v₁ ⟨⟨hl₁, hcl₁⟩, hx⟩ => ?_
  cases x with
  | error e => exact wp_ret.2 ⟨⟨hl₁.1, hcl₁⟩, nofun⟩
  | ok x =>
    obtain ⟨ms, last', rfl, hms, hlast'⟩ := (hp' q' hq').1.lookupPath (hp' q' hq').2
    rw [wp_bind]
    refine (T.getDirid_wp hms hlast' hl₁.1 hcl₁).mono fun y cl₂ v₂ ⟨⟨hl₂, hcl₂⟩, _⟩ => ?_
    cases y with
    | error e => exact wp_ret.2 ⟨⟨hl₂.1, hcl₂⟩, nofun⟩
    | ok y =>
      refine wp_ret.2 ⟨⟨hl₂.1, hcl₂⟩, fun r hr => ?_⟩
      cases hr
      obtain ⟨hname, hat⟩ := hx x.1 x.2 rfl
      obtain rfl : x.2 = last := hname
      exact ⟨ns, rfl, hns, hlast, hl₂.2 _ _ hat⟩

/-- The requests about the two objects leave the cache, and every path that a move of the
source spares. -/
theorem renameObjects_wp {K : Folders → Prop} {src dst : ObjName}
    (S : Spared K (Effect.From src.did (vol.wireName src.name)) A)
    (hv : v.Within K (Effect.From src.did (vol.wireName src.name))) :
    Wp (restrict reqs serve) (renameObjects vol src dst) cl v fun _ cl' v' =>
      cl' = cl ∧ v.Stays K (Effect.From src.did (vol.wireName src.name)) A v' := by
  have hstep : ∀ (w : FolderServer) (r : Req) (c : FolderChoice) (a : r.Ans) (w' : FolderServer),
      Req.From vol src r → restrict reqs serve w r c = some (a, w') →
      v.Stays K (Effect.From src.did (vol.wireName src.name)) A w →
      v.Stays K (Effect.From src.did (vol.wireName src.name)) A w' := by
    intro w r c a w' hr he hw
    obtain ⟨b, hb, -⟩ := restrict_eq_some he
    obtain ⟨hstays, -⟩ := S.serve hw.1 hr hb
    exact ⟨hstays.1, fun p d hp hat => hstays.2 p d hp (hw.2 p d hp hat)⟩
  refine (renameObjects_from.wp rfl hstep ⟨hv, fun _ _ _ hat => hat⟩).mono ?_
  exact fun _ _ _ h => h.2

/-- What forgetting the source's path leaves in the cache is clear of its place. -/
theorem Source.clear {o : ObjName} {ms : List Name}
    (h : Source vol f path o ns) (hms : ∀ m ∈ ms, WireName vol.pathEncoding m)
    (hkept : forgets path false (joinPath ms) = false) :
    Clear (place vol o ns) (ms.map vol.wireName) := by
  rcases h.last with hlast | ⟨hns, hname⟩
  · intro _ hpre
    have hplace : place vol o ns = (ns ++ [o.name]).map vol.wireName := by
      rw [place, objectPath, if_neg (wireName_ne_nil hlast), map_append, map_singleton]
    rw [hplace] at hpre
    have hnames : ∀ n ∈ ns ++ [o.name], WireName vol.pathEncoding n := by
      intro n hn
      rcases mem_append.1 hn with hn | hn
      · exact h.names n hn
      · rwa [mem_singleton.1 hn]
    obtain ⟨rest, rfl⟩ := map_wireName_prefix hnames hms hpre
    have hpath : path = joinPath (ns ++ [o.name]) := by
      rw [h.path, joinPath_append, joinPath_cons, joinPath_nil, append_nil]
    rw [hpath, forgets_beneath hlast.name] at hkept
    cases hkept
  · intro hne
    refine absurd ?_ hne
    have hempty : vol.wireName [] = [] := by
      unfold Volume.wireName copyPath
      split <;> rfl
    rw [place, hns, hname, hempty]
    rfl

/-- The end of `ml_rename`: the paths are forgotten, and what may yet be carried out leaves
the rest alone. -/
theorem forgetSource_wp {K : Folders → Prop} {es : Effect → Prop}
    (S : Spared K es A) (hv : v.Within K es)
    (hcl : cl.Holds (WireName vol.pathEncoding) fun ns d =>
      (forgets path false (joinPath ns) = false → A (ns.map vol.wireName)) ∧
      (A (ns.map vol.wireName) → v.folders.At (ns.map vol.wireName) d)) :
    Wp (restrict reqs serve) (removeDidSubtree path) cl v fun _ cl' v' =>
      v'.Within K es ∧ cl'.Holds (WireName vol.pathEncoding) fun ns d =>
        A (ns.map vol.wireName) ∧ v'.folders.At (ns.map vol.wireName) d := by
  unfold removeDidSubtree forgetDidPaths now request
  simp only [send_bind, ret_bind, wp_send, wp_modify]
  intro c t v' h
  obtain ⟨b, hb, -⟩ := restrict_eq_some h
  obtain ⟨hstays, -⟩ := S.serve hv (by simp [reqs, effect]) hb
  refine ⟨hstays.1, fun e he => ?_⟩
  obtain ⟨hmem, hkept⟩ := mem_filter.1 he
  obtain ⟨ns, hns, hdir, hclear, hat⟩ := hcl e hmem
  simp only [hdir, Bool.not_or, Bool.and_eq_true, Bool.not_eq_true'] at hkept
  exact ⟨ns, hns, hdir, hclear hkept.2, hstays.2 _ _ (hclear hkept.2) (hat (hclear hkept.2))⟩

theorem rename_wp {p : Path}
    (hp : ∀ q, vol.convertPath p = .ok q → AbsolutePath q ∧ q.length ≤ vol.pathEncoding.maxLength)
    (hp' : ∀ q, vol.convertPath p' = .ok q → AbsolutePath q ∧ q.length ≤ vol.pathEncoding.maxLength)
    (h : Sound vol s v) :
    Wp serve (lift clientPart reqs (mlRename vol p p')) s v fun _ s' v' => Settling vol s' v' := by
  rw [wp_lift, mlRename, wp_bind]
  refine (resolveRename_wp hp hp' h.quiet h.holds).mono fun x cl v₁ ⟨⟨hv₁, hcl⟩, hsrc⟩ => ?_
  cases x with
  | error e => exact wp_ret.2 (Sound.settling ⟨hv₁, hcl⟩)
  | ok r =>
    obtain ⟨ns, hs⟩ := hsrc r rfl
    have hname : vol.wireName r.src.name ≠ [] ∨ ns.map vol.wireName = [] :=
      hs.last.imp wireName_ne_nil fun h => by simp [h.1]
    have S : Spared (fun f => f.At (ns.map vol.wireName) r.src.did)
        (Effect.From r.src.did (vol.wireName r.src.name)) (Clear (place vol r.src ns)) :=
      Spared.from hname
    have hw : v₁.Within (fun f => f.At (ns.map vol.wireName) r.src.did)
        (Effect.From r.src.did (vol.wireName r.src.name)) :=
      ⟨hs.folder, fun e he => (hv₁.pending e he).from⟩
    show Wp _ (renameObjects vol r.src r.dst >>= _) cl v₁ _
    rw [wp_bind]
    refine (renameObjects_wp S hw).mono fun ret cl₂ v₂ ⟨hcl₂, hv₂, hat₂⟩ => ?_
    subst hcl₂
    rw [wp_bind]
    have hheld : cl₂.Holds (WireName vol.pathEncoding) fun ms d =>
        (forgets r.convertedFrom false (joinPath ms) = false →
          Clear (place vol r.src ns) (ms.map vol.wireName)) ∧
        (Clear (place vol r.src ns) (ms.map vol.wireName) →
          v₂.folders.At (ms.map vol.wireName) d) := by
      intro e he
      obtain ⟨ms, hms, hdir, hat⟩ := hcl e he
      exact ⟨ms, hms, hdir, hs.clear hms, fun hclear => hat₂ _ _ hclear hat⟩
    refine (forgetSource_wp S hv₂ hheld).mono fun _ cl₃ v₃ ⟨hv₃, hcl₃⟩ => ?_
    rw [wp_bind]
    have hheld₃ : cl₃.Holds (WireName vol.pathEncoding) fun ms d =>
        (forgets r.convertedTo false (joinPath ms) = false →
          Clear (place vol r.src ns) (ms.map vol.wireName)) ∧
        (Clear (place vol r.src ns) (ms.map vol.wireName) →
          v₃.folders.At (ms.map vol.wireName) d) :=
      hcl₃.mono fun _ _ h => ⟨fun _ => h.1, fun _ => h.2⟩
    refine (forgetSource_wp S hv₃ hheld₃).mono fun _ cl₄ v₄ ⟨hv₄, hcl₄⟩ => ?_
    exact wp_ret.2 ⟨_, _, _, S, hv₄, hcl₄⟩

end Rename

/-! ## Sessions -/

/-- A volume with the conversions of its encoding, which have the memory `heap` gives. -/
def ServedVolume.withHeap (vol : ServedVolume) (heap : Nat → Bool) : ServedVolume :=
  { vol with toVolume := codepageVolume heap vol.pathEncoding vol.attributes vol.extraFlags }

theorem convertsPath_withHeap (vol : ServedVolume) (heap : Nat → Bool) {p : Path} (h0 : 0 ∉ p)
    (hp : AbsolutePath p) : ConvertsPath (vol.withHeap heap) p := by
  intro q hq
  obtain ⟨hconv, hlen⟩ := convertPathToAfpAlloc_ok hq
  exact ⟨convertPathToAfp_absolute h0 hp hconv, hlen⟩

/-- The calls of a session that read or fill the cache. -/
inductive CacheCall where
  | mkdir (path : Path) (mode : Nat)
  | rmdir (path : Path)
  | unlink (path : Path)
  | rename (pathFrom pathTo : Path)
  | readdir (path : Path)
  | getattr (path : Path)
  | open (path : Path) (flags : Nat)
  | creat (path : Path)

namespace CacheCall

def paths : CacheCall → List Path
  | .mkdir path _ | .rmdir path | .unlink path | .readdir path | .getattr path | .open path _
  | .creat path => [path]
  | .rename pathFrom pathTo => [pathFrom, pathTo]

/-- The call on a volume, as it runs against a server. -/
def run (vol : ServedVolume) : CacheCall → SysCall Unit
  | .mkdir path mode => do let _ ← system vol.toVolume (mlMkdir vol path mode)
  | .rmdir path => do let _ ← system vol.toVolume (mlRmdir vol path)
  | .unlink path => do let _ ← system vol.toVolume (mlUnlink vol path)
  | .rename pathFrom pathTo => do let _ ← system vol.toVolume (Ml.rename vol pathFrom pathTo)
  | .readdir path => do let _ ← system vol.toVolume (mlReaddir vol path)
  | .getattr path => do let _ ← system vol.toVolume (mlGetattr vol path)
  | .open path flags => do let _ ← system vol.toVolume (mlOpen vol path flags)
  | .creat path => do let _ ← system vol.toVolume (mlCreat vol path)

end CacheCall

/-- The states that a session reaches by a list of calls, from an empty cache and any
folders: each call has the memory it finds, the server carries out and answers what it
will, and what stands out at a call's end is carried out then or never. -/
inductive Reached (vol : ServedVolume) : List CacheCall → VolState → FolderServer → Prop
  | start (m : MlState) (f : Folders) : Reached vol [] ⟨⟨[]⟩, m⟩ ⟨f, []⟩
  | call {calls : List CacheCall} {s s' : VolState} {v v' v'' : FolderServer} {c : CacheCall}
      (heap : Nat → Bool) (choices : List FolderChoice) {rest : List FolderChoice}
      (late : List (Nat × Carried))
      (before : Reached vol calls s v)
      (ran : Prog.run FolderServer.serve (c.run (vol.withHeap heap)) s v choices =
        some ((), s', v', rest))
      (settled : v'.settle late = some v'') : Reached vol (calls ++ [c]) s' v''

/-- The folder at a path. -/
def Folders.folderAt (f : Folders) (vol : Volume) (path : Path) : Option Nat :=
  f.tree.dirFrom rootDid (((path.splitOn slash).filter (· ≠ [])).map vol.wireName)

/-- No folder has the ID, or it is that of the folder at the path. -/
def Folders.Named (f : Folders) (vol : Volume) (path : Path) (did : Nat) : Prop :=
  (∀ p, f.tree.dirFrom rootDid p ≠ some did) ∨ f.folderAt vol path = some did

section Session

variable {vol : ServedVolume} {s : VolState} {v : FolderServer}

theorem Folders.At.named {vol : Volume} {d : Nat} (h : f.At (ns.map vol.wireName) d)
    (hns : ∀ n ∈ ns, IsName n) : f.Named vol (joinPath ns) d := by
  have hsplit : ((joinPath ns).splitOn slash).filter (· ≠ []) = ns := by
    by_cases hne : ns = []
    · subst hne
      decide
    · rw [splitOn_joinPath hns, filter_cons_of_neg (by simp), filter_eq_self]
      exact fun n hn => by simpa using (hns n hn).1
  unfold Named folderAt
  rw [hsplit]
  exact (IdTree.onlyAt_iff f.wf).1 h.1

theorem CacheCall.run_wp {c : CacheCall} (hc : ∀ p ∈ c.paths, ConvertsPath vol p)
    (h : Sound vol.toVolume s v) :
    Wp serve (c.run vol) s v fun _ s' v' => Settling vol.toVolume s' v' := by
  have hsteady {α : Type} {p : MlCall α} (hp : Steadily vol.pathEncoding p) :
      Wp serve (do let _ ← system vol.toVolume p) s v fun _ s' v' =>
        Settling vol.toVolume s' v' := by
    rw [wp_bind]
    exact (steady_wp hp.within h).mono fun _ _ _ hs => wp_ret.2 hs.settling
  cases c with
  | mkdir path mode => exact hsteady (mlMkdir_steady (hc path (by simp [paths])) mode)
  | rmdir path => exact hsteady (mlRmdir_steady (hc path (by simp [paths])))
  | unlink path => exact hsteady (mlUnlink_steady (hc path (by simp [paths])))
  | readdir path => exact hsteady (mlReaddir_steady (hc path (by simp [paths])))
  | getattr path => exact hsteady (mlGetattr_steady (hc path (by simp [paths])))
  | «open» path flags => exact hsteady (mlOpen_steady (hc path (by simp [paths])) flags)
  | creat path => exact hsteady (mlCreat_steady (hc path (by simp [paths])))
  | rename pathFrom pathTo =>
    show Wp serve (do let _ ← system vol.toVolume (Ml.rename vol pathFrom pathTo)) s v _
    rw [wp_bind, system_rename]
    refine (rename_wp (hc pathFrom (by simp [paths])) (hc pathTo (by simp [paths])) h).mono ?_
    exact fun _ _ _ hs => wp_ret.2 hs

/-- The conversions are no part of what makes a cache sound. -/
theorem sound_withHeap {heap : Nat → Bool} :
    Sound (vol.withHeap heap).toVolume s v ↔ Sound vol.toVolume s v :=
  ⟨fun h => ⟨h.quiet, h.holds⟩, fun h => ⟨h.quiet, h.holds⟩⟩

theorem Reached.sound {calls : List CacheCall} (h : Reached vol calls s v)
    (hc : ∀ c ∈ calls, ∀ p ∈ c.paths, AbsolutePath p ∧ 0 ∉ p) : Sound vol.toVolume s v := by
  induction h with
  | start m f => exact ⟨⟨trivial, nofun⟩, nofun⟩
  | @call calls s s' v v' v'' c heap choices rest late _ ran settled ih =>
    have hsound := ih fun c hm => hc c (mem_append_left _ hm)
    have hconv : ∀ p ∈ c.paths, ConvertsPath (vol.withHeap heap) p := fun p hp =>
      convertsPath_withHeap vol heap (hc c (by simp) p hp).2 (hc c (by simp) p hp).1
    have hrun := CacheCall.run_wp hconv (sound_withHeap.2 hsound) _ _ _ _ _ ran
    exact sound_withHeap.1 (hrun.settle settled)

/-- In every state a session reaches, each cached ID is that of the folder at its path or of
no folder, and so is what a lookup returns for its path's folder. -/
theorem cache_sound (vol : ServedVolume) (calls : List CacheCall)
    (hc : ∀ c ∈ calls, ∀ p ∈ c.paths, AbsolutePath p ∧ 0 ∉ p) (s : VolState) (v : FolderServer)
    (h : Reached vol calls s v) :
    (∀ e ∈ s.client.didCache, v.folders.Named vol.toVolume e.dirname e.did) ∧
    ∀ (heap : Nat → Bool) (path q : Path), AbsolutePath path → 0 ∉ path →
      (vol.withHeap heap).convertPath path = .ok q →
      Wp FolderServer.serve (system (vol.withHeap heap).toVolume (Ml.getDirid q)) s v fun x _ v' =>
        ∀ did name, x = .ok (did, name) → ∃ parent, q = parent ++ slash :: name ∧
          v'.folders.Named vol.toVolume parent did := by
  have hs := h.sound hc
  refine ⟨fun e he => ?_, fun heap path q hp h0 hq => ?_⟩
  · obtain ⟨ns, hns, hdir, hat⟩ := hs.holds e he
    rw [hdir]
    exact hat.named fun n hn => (hns n hn).name
  · obtain ⟨habs, hlen⟩ := convertsPath_withHeap vol heap h0 hp q hq
    obtain ⟨ns, last, rfl, hns, hlast⟩ := habs.lookupPath hlen
    rw [Ml.getDirid, system_did, wp_lift]
    refine ((truthful _).getDirid_wp hns hlast hs.quiet hs.holds).mono ?_
    rintro x cl v' ⟨-, hx⟩ did name rfl
    obtain ⟨rfl, hat⟩ := hx did name rfl
    exact ⟨joinPath ns, rfl, hat.named fun n hn => (hns n hn).name⟩

end Session

/-- A volume of Mac Roman names. -/
def romanVolume : ServedVolume :=
  { viewVolume 0 with toVolume := codepageVolume (fun _ => true) .longName 0 0 }

/-- A server with one folder, `a`. -/
def oneFolder : Folders := Folders.empty.create rootDid [97] 17 (by decide) (by decide) (by decide)

/-- Its answers: there is memory, and the other objects are files. -/
def oneFolderAnswers : (r : Request) → r.Ans
  | .alloc => true
  | .getFileDirParms _ _ _ name =>
    (kFPNoErr, { isdir := name = [97], valid := kFPNodeIDBit, cnid := if name = [97] then 17 else 18 })
  | _ => default

/-- After the attributes of `/a/b` were read, the cache holds the ID of `/a`. -/
theorem cache_sound_getattr :
    ∃ s v, Reached romanVolume [.getattr [slash, 97, slash, 98]] s v ∧
      s.client.didCache.map (fun e => (e.dirname, e.did)) = [([slash, 97], 17)] ∧
      ∀ e ∈ s.client.didCache, v.folders.Named romanVolume.toVolume e.dirname e.did := by
  have h : ∃ s v, Reached romanVolume [.getattr [slash, 97, slash, 98]] s v ∧
      s.client.didCache.map (fun e => (e.dirname, e.did)) = [([slash, 97], 17)] :=
    ⟨_, _, .call (fun _ => true) (List.replicate 10 ⟨[], oneFolderAnswers⟩) []
      (.start .fresh oneFolder) rfl rfl, rfl⟩
  obtain ⟨s, v, hs, hcache⟩ := h
  refine ⟨s, v, hs, hcache, (cache_sound _ _ ?_ s v hs).1⟩
  simp only [mem_singleton, forall_eq, CacheCall.paths]
  exact ⟨.inr ⟨[[97], [98]], by decide, by decide, rfl⟩, by decide⟩

end NC
