import NetatalkClient.Framework.Pool
import NetatalkClient.Model.FileServer
import NetatalkClient.Proof.Did.Lookup
import NetatalkClient.Proof.Did.Paths

/-!
# What a lookup finds

A lookup gets a folder's ID from the cache, by the walk from the nearest cached folder, or by the walk
from the root. What the parts of one rest on, the answers and an invariant of the cache, is a
`LookupRules`; `LookupRules.getDirid_amid` follows a lookup once for all of them, also amid other threads.

`At` says where a folder stands, for a client that looks: it has the root, and no answer
to a lookup makes it false. In a surrounding that is `Truthful`, the folder of the ID that
parameters carry stands at the path they were asked for, and then a cache that holds what
is `At` its paths (`Client.Holds`) stays so through a lookup, and what `getDirid` returns is
`At` the path's folder (`Truthful.getDirid_wp`).

A server that answers truly and changes nothing is the case of a cache that agrees with its
tree (`Client.Agrees`, `getDirid_wp`).
-/

namespace NC

open List FileTree Prog

/-- Every cached ID is `At` the names of its path. -/
def Client.Holds (N : Name → Prop) (At : List Name → Nat → Prop) (cl : Client) : Prop :=
  ∀ e ∈ cl.didCache, ∃ ns : List Name, (∀ n ∈ ns, N n) ∧ e.dirname = joinPath ns ∧ At ns e.did

section Cache

variable {N : Name → Prop} {At At' : List Name → Nat → Prop} {cl cl' : Client}

theorem Client.Holds.of_subset (h : cl.Holds N At) (hs : cl'.didCache ⊆ cl.didCache) :
    cl'.Holds N At :=
  fun e he => h e (hs he)

theorem Client.Holds.mono (h : cl.Holds N At) (hAt : ∀ ns d, At ns d → At' ns d) :
    cl.Holds N At' := by
  intro e he
  obtain ⟨ns, hns, hdir, hd⟩ := h e he
  exact ⟨ns, hns, hdir, hAt _ _ hd⟩

theorem findIn_subset (path : Path) (now : Nat) (c : List DidEntry) : (findIn path now c).2 ⊆ c := by
  induction c with
  | nil => simp [findIn]
  | cons p ps ih =>
    simp only [findIn]
    split_ifs
    · exact subset_cons_self p ps
    · exact subset_cons_of_subset p ih
    · exact List.Subset.refl _
    · exact cons_subset_cons p ih

theorem findIn_mem {path : Path} {now : Nat} {c : List DidEntry} (h : (findIn path now c).1 ≠ 0) :
    ∃ e ∈ c, e.dirname = path ∧ e.did = (findIn path now c).1 ∧ didEntryExpired e now = false := by
  induction c with
  | nil => simp [findIn] at h
  | cons p ps ih =>
    simp only [findIn] at h ⊢
    split_ifs at h ⊢ with h₁ h₂ h₃
    · exact absurd rfl h
    · obtain ⟨e, he, hp⟩ := ih h
      exact ⟨e, mem_cons_of_mem _ he, hp⟩
    · exact ⟨p, mem_cons_self .., h₃, rfl, Bool.eq_false_iff.2 h₁⟩
    · obtain ⟨e, he, hp⟩ := ih h
      exact ⟨e, mem_cons_of_mem _ he, hp⟩

theorem forgetLocked_subset (path : Path) (ancestors : Bool) (now : Nat) (c : List DidEntry) :
    forgetLocked path ancestors now c ⊆ c :=
  filter_subset_self _

theorem foldl_forgetLocked_subset (now : Nat) (taken kept : List DidEntry) :
    taken.foldl (fun c p => forgetLocked p.dirname false now c) kept ⊆ kept := by
  induction taken generalizing kept with
  | nil => exact List.Subset.refl kept
  | cons p ps ih => exact List.Subset.trans (ih _) (forgetLocked_subset ..)

theorem checkDidEntry_subset (path : Path) (did now : Nat) (c : List DidEntry) :
    checkDidEntry path did now c ⊆ c :=
  List.Subset.trans (foldl_forgetLocked_subset ..) (filter_subset_self _)

end Cache

/-! ## A lookup amid others -/

/-- What an answer about a component comes to. -/
def componentOf (rc : Int) (fi : Dirent) : Except Int Nat :=
  if rc ≠ kFPNoErr then .error (-llAnswerErrno rc)
  else if fi.valid &&& kFPNodeIDBit = 0 then .error (-EIO_)
  else if !fi.isdir then .error (-ENOTDIR)
  else .ok fi.cnid

theorem componentOf_ok {rc : Int} {fi : Dirent} {d : Nat} (h : componentOf rc fi = .ok d) :
    rc = kFPNoErr ∧ fi.valid &&& kFPNodeIDBit ≠ 0 ∧ fi.isdir = true ∧ fi.cnid = d := by
  unfold componentOf at h
  split_ifs at h with hrc hvalid hdir
  cases h
  exact ⟨not_not.1 hrc, hvalid, by simpa using hdir, rfl⟩

theorem lookupComponent_eq (vol : Volume) (parentDid : Nat) (name : Name) (fullParent : Path) (rc : Int)
    (fi : Dirent) : lookupComponent vol parentDid name fullParent rc fi =
      match componentOf rc fi with
      | .error e => ret (.error e)
      | .ok cnid => do
        if !(← alloc) then return .error (-ENOMEM)
        let t ← now
        .modify fun s => { s with didCache := checkDidEntry fullParent cnid t s.didCache }
        addDidCacheEntry vol parentDid cnid fullParent name
        return .ok cnid := by
  unfold lookupComponent componentOf
  split_ifs <;> rfl

section Rules

variable {W : Type} {vol : Volume} {I : W → Client → Prop} {ans : W → (r : Req) → r.Ans → W → Prop}
variable {Told : W → List Name → Except Int Nat → Prop} {Gone : Nat → Prop} {whole : List Name}

/-- What a lookup of the folder `whole` rests on. Where `w` is known, a lookup of the folder `ns`
above it may give `x`, if `Told w ns x`; an ID that is `Gone` throws a walk back to the root. -/
structure LookupRules (vol : Volume) (I : W → Client → Prop)
    (ans : W → (r : Req) → r.Ans → W → Prop) (Told : W → List Name → Except Int Nat → Prop)
    (Gone : Nat → Prop) (whole : List Name) : Prop where
  names : ∀ n ∈ whole, IsName n
  later {w r a w' ns x} : ans w r a w' → r.Looks → Told w ns x → Told w' ns x
  root {w} : Told w [] (.ok rootDid)
  memory {w w' ns} : ans w .alloc false w' → Told w' ns (.error (-ENOMEM))
  component {w w' ns n did rc fi} :
    ans w (.getFileDirParms did kFPNodeIDBit kFPNodeIDBit (vol.wireName n)) (rc, fi) w' →
    n ∈ whole → Told w ns (.ok did) → Told w' (ns ++ [n]) (componentOf rc fi)
  error {w ns e} (ms : List Name) : Told w ns (.error e) → Told w (ns ++ ms) (.error e)
  gone {w w' n did rc fi} : Gone did →
    ans w (.getFileDirParms did kFPNodeIDBit kFPNodeIDBit (vol.wireName n)) (rc, fi) w' →
    rc = kFPDirNotFound ∨ rc = kFPObjectNotFound
  subset {w cl cl'} : I w cl → cl'.didCache ⊆ cl.didCache → I w cl'
  cached {w w' t cl e ns} : ans w .now t w' → I w' cl → e ∈ cl.didCache →
    didEntryExpired e t = false → ns ≠ [] → ns <+: whole → e.dirname = joinPath ns →
    Told w' ns (.ok e.did) ∨ ns ≠ whole ∧ Gone e.did
  caches {w cl e ns} : I w cl → ns ≠ [] → ns <+: whole → e.dirname = joinPath ns →
    Told w ns (.ok e.did) → I w { cl with didCache := e :: cl.didCache }

variable (T : LookupRules vol I ans Told Gone whole) {ns : List Name} {w : W}
include T

theorem LookupRules.forgetDidPaths_amid (path : Path) (ancestors : Bool) :
    (forgetDidPaths path ancestors).Amid I Req.Looks ans (fun _ _ => True) w :=
  ⟨trivial, fun _ _ _ => Amid.modify (fun _ h => T.subset h (forgetLocked_subset ..)) trivial⟩

theorem LookupRules.findDiridByFullname_amid (hne : ns ≠ []) (hns : ns <+: whole) :
    (findDiridByFullname (joinPath ns)).Amid I Req.Looks ans
      (fun w d => d ≠ 0 → Told w ns (.ok d) ∨ ns ≠ whole ∧ Gone d) w := by
  refine ⟨trivial, fun t w' ht => Amid.modifyGet fun cl hcl => ?_⟩
  refine ⟨T.subset hcl (findIn_subset ..), fun hd => ?_⟩
  obtain ⟨e, he, hpath, hdid, hlive⟩ := findIn_mem hd
  rw [← hdid]
  exact T.cached ht hcl he hlive hne hns hpath

theorem LookupRules.addDidCacheEntry_amid {parentdid did : Nat} {name : Name} (hne : ns ≠ [])
    (hns : ns <+: whole) (hdid : Told w ns (.ok did)) :
    (addDidCacheEntry vol parentdid did (joinPath ns) name).Amid I Req.Looks ans
      (fun w _ => Told w ns (.ok did)) w := by
  refine ⟨trivial, fun ok w₁ ha => ?_⟩
  have hdid := T.later ha trivial hdid
  refine Amid.ite (fun _ => ?_) fun _ => hdid
  cases vol.nameToUnix name with
  | none => exact hdid
  | some unixName =>
    refine ⟨trivial, fun t w₂ ht => ?_⟩
    have hdid := T.later ht trivial hdid
    exact Amid.modify (fun cl hcl => T.caches hcl hne hns rfl hdid) hdid

theorem LookupRules.lookupComponent_amid {parentDid : Nat} {name : Name} {rc : Int} {fi : Dirent}
    (hne : ns ≠ []) (hns : ns <+: whole) (h : Told w ns (componentOf rc fi)) :
    (lookupComponent vol parentDid name (joinPath ns) rc fi).Amid I Req.Looks ans (Told · ns) w := by
  rw [lookupComponent_eq]
  generalize componentOf rc fi = x at h
  cases x with
  | error e => exact h
  | ok cnid =>
    refine ⟨trivial, fun ok w₁ ha => ?_⟩
    have h := T.later ha trivial h
    cases ok with
    | false => exact T.memory ha
    | true =>
      refine ⟨trivial, fun t w₂ ht => ?_⟩
      have h := T.later ht trivial h
      refine (Amid.modify (P := fun w _ => Told w ns (.ok cnid))
        (fun _ hcl => T.subset hcl (checkDidEntry_subset ..)) h).bind fun w _ h => ?_
      exact (T.addDidCacheEntry_amid hne hns h).bind fun _ _ h => h

/-- Where a walk may start: the nearest cached directory's ID is right or gone. -/
theorem LookupRules.knownParent_amid {fuel : Nat} {known : List Name} (hne : known ≠ [])
    (hknown : known <+: whole) (hfuel : known.length ≤ fuel) (did : Nat) :
    (knownParent fuel (joinPath known) did).Amid I Req.Looks ans
      (fun w x => ∃ pre rest, whole = pre ++ rest ∧ rest ≠ [] ∧ x.2 = knownLength pre ∧
        (Told w pre (.ok x.1) ∨ pre ≠ [] ∧ Gone x.1)) w := by
  induction fuel generalizing known did w with
  | zero => exact absurd (length_eq_zero_iff.1 (Nat.le_zero.1 hfuel)) hne
  | succ fuel ih =>
    obtain ⟨known, n, rfl⟩ : ∃ init last, known = init ++ [last] :=
      ⟨known.dropLast, known.getLast hne, (dropLast_append_getLast hne).symm⟩
    obtain ⟨behind, hcut⟩ := hknown
    rw [append_assoc, singleton_append] at hcut
    rw [knownParent, splitLast_join (T.names n (by simp [← hcut]))]
    cases known with
    | nil => exact ⟨[], n :: behind, hcut.symm, by simp, rfl, .inl T.root⟩
    | cons m ms =>
      have hpre : m :: ms <+: whole := ⟨_, hcut⟩
      refine (T.findDiridByFullname_amid (by simp) hpre).bind fun w₁ d hd => ?_
      refine Amid.ite (fun hd0 => ?_) fun _ => ih (by simp) hpre (by simpa using hfuel) d
      refine ⟨m :: ms, n :: behind, hcut.symm, by simp, by simp [knownLength], ?_⟩
      exact (hd hd0).imp_right fun hgone => ⟨by simp, hgone.2⟩

/-- A walk from a folder whose ID is right, or from one that is gone if it may start again. -/
theorem LookupRules.walk_amid {restart : Option (Call (Except Int Nat))} {pre mid : List Name}
    {did : Nat} (hwhole : whole = pre ++ mid)
    (hr : ∀ again ∈ restart, ∀ w, again.Amid I Req.Looks ans (Told · whole) w)
    (hdid : Told w pre (.ok did) ∨ restart ≠ none ∧ Gone did ∧ mid ≠ []) :
    (walk vol restart (withParents pre mid) did).Amid I Req.Looks ans (Told · whole) w := by
  induction mid generalizing pre did w with
  | nil =>
    rcases hdid with hdid | ⟨-, -, hne⟩
    · rw [hwhole, append_nil]
      exact hdid
    · exact absurd rfl hne
  | cons m ms ih =>
    have happ : whole = pre ++ [m] ++ ms := by simp [hwhole]
    refine ⟨trivial, fun ok w₁ ha => ?_⟩
    cases ok with
    | false => exact T.memory ha
    | true =>
    refine ⟨trivial, ?_⟩
    rintro ⟨rc, fi⟩ w₂ hfi
    have hgo (hpre : Told w pre (.ok did)) : Amid I Req.Looks ans (Told · whole) (do
        match ← lookupComponent vol did m (joinPath (pre ++ [m])) rc fi with
        | .error e => return .error e
        | .ok cnid => walk vol restart (withParents (pre ++ [m]) ms) cnid) w₂ := by
      have hm := T.component hfi (by simp [hwhole]) (T.later ha trivial hpre)
      refine (T.lookupComponent_amid (by simp) ⟨ms, happ.symm⟩ hm).bind fun w₃ x hx => ?_
      cases x with
      | error e => exact happ ▸ T.error ms hx
      | ok cnid => exact ih happ (.inl hx)
    rcases hdid with hpre | ⟨hsome, hgone, -⟩
    · cases restart with
      | none => exact hgo hpre
      | some again => exact Amid.ite (fun _ => hr again rfl w₂) fun _ => hgo hpre
    · obtain ⟨again, rfl⟩ := Option.ne_none_iff_exists'.1 hsome
      exact Amid.ite (fun _ => hr again rfl w₂) fun hnot => absurd (T.gone hgone hfi) hnot

/-- `get_dirid` of a path in the folder `whole`: by a cached ID, by the walk from the nearest cached
folder, or by the walk from the root. -/
theorem LookupRules.getDirid_amid {last : Name} (hlast : slash ∉ last) :
    (getDirid vol (joinPath whole ++ slash :: last)).Amid I Req.Looks ans
      (fun w x => maxNameBytes ≤ last.length ∧ x = .error (-ENAMETOOLONG) ∨
        ∃ y, Told w whole y ∧ x = y.map (·, last)) w := by
  rw [getDirid, splitLast_append hlast]
  refine Amid.ite (fun hlong => .inl ⟨hlong, rfl⟩) fun _ => Amid.ite (fun hnil => ?_) fun hnil => ?_
  · obtain rfl : whole = [] := by
      cases whole with
      | nil => rfl
      | cons m ms => simp at hnil
    exact .inr ⟨_, T.root, rfl⟩
  have hne : whole ≠ [] := by
    rintro rfl
    exact hnil rfl
  refine ⟨trivial, fun ok w₁ ha => ?_⟩
  cases ok with
  | false => exact .inr ⟨_, T.memory ha, rfl⟩
  | true =>
  refine (T.findDiridByFullname_amid hne (prefix_refl _)).bind fun w₂ did hdid => ?_
  refine Amid.ite (fun hd0 => ?_) fun _ => ?_
  · obtain hdid | ⟨h, -⟩ := hdid hd0
    · exact .inr ⟨_, hdid, rfl⟩
    · exact absurd rfl h
  refine (T.knownParent_amid hne (prefix_refl _) (length_le_joinPath whole) rootDid).bind ?_
  rintro w₃ ⟨knownDid, knownLen⟩ ⟨pre, rest, hwhole, hrest, hknown, hstart⟩
  obtain rfl : knownLen = knownLength pre := hknown
  have hroot (w : W) : Amid I Req.Looks ans (Told · whole) (do
      removeDidLineage (joinPath whole ++ slash :: last)
      walk vol none (walkComponents (joinPath whole ++ slash :: last) 1) rootDid) w := by
    refine (T.forgetDidPaths_amid _ true).bind fun w' _ _ => ?_
    have hwalk := walkComponents_join T.names hne hlast []
    rw [nil_append] at hwalk
    rw [show (1 : Nat) = knownLength [] from rfl, hwalk]
    exact T.walk_amid (nil_append whole).symm (fun p h => absurd h (Option.not_mem_none p))
      (.inl T.root)
  have hwalk := walkComponents_join (fun m hm => T.names m (by simp [hwhole, hm])) hrest hlast pre
  rw [← hwhole] at hwalk
  refine Amid.bind (P := (Told · whole)) ?_ fun w x hx => ?_
  · rw [hwalk]
    refine T.walk_amid hwhole (fun again hagain => ?_)
      (hstart.imp_right fun ⟨hpre, hgone⟩ => ⟨?_, hgone, hrest⟩)
    · split_ifs at hagain
      · cases hagain
        exact hroot
      · exact absurd hagain (Option.not_mem_none again)
    · rw [if_pos (knownLength_gt hpre fun n hn => T.names n (by simp [hwhole, hn]))]
      exact Option.some_ne_none _
  · cases x with
    | error e | ok d => exact .inr ⟨_, hx, rfl⟩

end Rules

/-! ## A lookup in a truthful surrounding -/

section Lookup

variable {V C : Type} {vol : Volume} {serve : V → (r : Req) → C → Option (r.Ans × V)}
variable {N : Name → Prop} {J : V → Prop} {At : V → List Name → Nat → Prop}

/-- While `J` holds, no answer to a lookup moves a folder, and a folder's ID is answered
for the name it has in the folder asked. -/
structure Truthful (vol : Volume) (serve : V → (r : Req) → C → Option (r.Ans × V))
    (N : Name → Prop) (J : V → Prop) (At : V → List Name → Nat → Prop) : Prop where
  name : ∀ {n}, N n → IsName n
  root : ∀ {v}, J v → At v [] rootDid
  looks : ∀ {v r c a v'}, r.Looks → serve v r c = some (a, v') → J v →
    J v' ∧ ∀ ns d, At v ns d → At v' ns d
  dir : ∀ {v did n c e v' ns},
    serve v (.getFileDirParms did kFPNodeIDBit kFPNodeIDBit (vol.wireName n)) c =
      some ((kFPNoErr, e), v') →
    e.isdir = true → e.valid &&& kFPNodeIDBit ≠ 0 → J v → N n → At v ns did →
    At v' (ns ++ [n]) e.cnid

/-- The surrounding has gone on from `v` to `v'`, and no folder moved. -/
def Later (J : V → Prop) (At : V → List Name → Nat → Prop) (v v' : V) : Prop :=
  J v' ∧ ∀ ns d, At v ns d → At v' ns d

/-- What a part of a lookup leaves: no folder moved, and a cache that holds. -/
def Kept (N : Name → Prop) (J : V → Prop) (At : V → List Name → Nat → Prop) (v : V)
    (cl : Client) (v' : V) : Prop :=
  Later J At v v' ∧ cl.Holds N (At v')

/-- The parts of a lookup, with a cache that holds while others look too. -/
abbrev HoldsAmid {α : Type} (serve : V → (r : Req) → C → Option (r.Ans × V)) (N : Name → Prop)
    (J : V → Prop) (At : V → List Name → Nat → Prop) (P : V → α → Prop) (p : Call α) (v : V) : Prop :=
  p.Amid (fun v cl => J v ∧ cl.Holds N (At v)) Req.Looks
    (fun v r a v' => J v ∧ ∃ c, serve v r c = some (a, v')) P v

variable (T : Truthful vol serve N J At) {cl : Client} {v : V}
include T

theorem Truthful.amid_wp {α : Type} {p : Call α} {P : V → α → Prop} (hp : HoldsAmid serve N J At P p v)
    (hv : J v) (hcl : cl.Holds N (At v)) :
    Wp serve p cl v fun x cl' v' => Kept N J At v cl' v' ∧ P v' x := by
  refine (Amid.wp (J := Later J At v) hp (fun {w r c a w'} hw hr e => ?_) ⟨hv, fun _ _ h => h⟩
    ⟨hv, hcl⟩).mono fun _ _ _ ⟨hl, hcl, h⟩ => ⟨⟨hl, hcl.2⟩, h⟩
  have hl := T.looks hr e hw.1
  exact ⟨⟨hl.1, fun ns d h => hl.2 ns d (hw.2 ns d h)⟩, ⟨hw.1, c, e⟩, fun _ h => ⟨hl.1, h.2.mono hl.2⟩⟩

theorem Truthful.rules {whole : List Name} (hwhole : ∀ n ∈ whole, N n) :
    LookupRules vol (fun v cl => J v ∧ cl.Holds N (At v))
      (fun v r a v' => J v ∧ ∃ c, serve v r c = some (a, v')) (fun v ns x => J v → ∀ d, x = .ok d → At v ns d)
      (fun _ => False) whole where
  names n hn := T.name (hwhole n hn)
  later ha hr h _ d hd := (T.looks hr ha.2.choose_spec ha.1).2 _ d (h ha.1 d hd)
  root hv d hd := by
    cases hd
    exact T.root hv
  memory _ _ := nofun
  component {v v' ns n did rc fi} ha hn h _ d hd := by
    obtain ⟨hv, c, e⟩ := ha
    obtain ⟨rfl, hvalid, hdir, rfl⟩ := componentOf_ok hd
    exact T.dir e hdir hvalid hv (hwhole n hn) (h hv did rfl)
  error _ _ _ := nofun
  gone h := h.elim
  subset h hs := ⟨h.1, h.2.of_subset hs⟩
  cached {_ _ _ _ e _} _ hcl he _ _ hns hdir := by
    refine .inl fun _ d hd => ?_
    cases hd
    obtain ⟨ms, hms, hdir', hat⟩ := hcl.2 e he
    obtain rfl := joinPath_inj (fun n hn => T.name (hwhole n (hns.subset hn)))
      (fun m hm => T.name (hms m hm)) (hdir.symm.trans hdir')
    exact hat
  caches {_ _ e ns} hcl _ hns hdir h := by
    refine ⟨hcl.1, fun e' he => ?_⟩
    rcases mem_cons.1 he with rfl | he
    · exact ⟨ns, fun n hn => hwhole n (hns.subset hn), hdir, h hcl.1 _ rfl⟩
    · exact hcl.2 e' he

/-- `get_dirid` in a truthful surrounding: what it returns is the ID of the path's folder,
and the path's last name. -/
theorem Truthful.getDirid_wp {ns : List Name} {last : Name} (hns : ∀ m ∈ ns, N m)
    (hlast : slash ∉ last) (hv : J v) (hcl : cl.Holds N (At v)) :
    Wp serve (getDirid vol (joinPath ns ++ slash :: last)) cl v fun x cl' v' =>
      Kept N J At v cl' v' ∧ ∀ d b, x = .ok (d, b) → b = last ∧ At v' ns d := by
  refine (T.amid_wp ((T.rules hns).getDirid_amid hlast) hv hcl).mono ?_
  rintro x cl' v' ⟨hk, ⟨-, rfl⟩ | ⟨y, hy, rfl⟩⟩
  · exact ⟨hk, nofun⟩
  · refine ⟨hk, fun d b h => ?_⟩
    cases y with
    | error e => cases h
    | ok d' =>
      cases h
      exact ⟨rfl, hy hk.1.1 d rfl⟩

end Lookup

/-! ## A lookup on a true server -/

section TrueServer

variable {κ : Type}

/-- Every cached ID is that of the folder its path names. -/
def Client.Agrees (cl : Client) (vol : Volume) (t : FileTree κ) : Prop :=
  ∀ e ∈ cl.didCache, ∃ ns : List Name, (∀ n ∈ ns, IsName n) ∧ e.dirname = joinPath ns ∧
    t.obj.dirFrom rootDid (ns.map vol.wireName) = some e.did

variable {vol : Volume} {t : FileTree κ} {cl : Client}

/-- An answer about a name is an error, or true of the object there. -/
theorem afpGetfiledirparms_wp {Q : Int × Dirent → Client → FileTree κ → Prop} {did fb db : Nat}
    {name : Path} (herr : ∀ rc fi, t.obj did (vol.wireName name) = none →
      (rc = kFPObjectNotFound ∨ rc = kFPDirNotFound) → Q (rc, fi) cl t)
    (hfile : ∀ c cnid, t.obj did (vol.wireName name) = some (.file c) →
      Q (kFPNoErr, ⟨false, fb, cnid⟩) cl t)
    (hdir : ∀ i, t.obj did (vol.wireName name) = some (.dir i) → Q (kFPNoErr, ⟨true, db, i⟩) cl t) :
    Wp serve (afpGetfiledirparms vol did fb db name) cl t Q := by
  simp only [afpGetfiledirparms, request, wp_send, wp_ret]
  intro c a t' e
  cases c <;> simp only [serve, reduceCtorEq] at e
  case carryOut cnid =>
    split at e <;> cases e
    · exact hdir _ ‹_›
    · exact hfile _ _ ‹_›
  case error rc =>
    split at e <;> cases e
    rename_i h
    exact herr _ _ h.1 h.2

theorem FileTree.serve_looks {t t' : FileTree κ} {r : Req} {c : Decision} {a : r.Ans} (hr : r.Looks)
    (h : t.serve r c = some (a, t')) : t' = t := by
  cases r <;> first | exact hr.elim | (cases c <;> simp only [serve, reduceCtorEq] at h)
  case alloc.memory => cases h; rfl
  case now.time => cases h; rfl
  case getFileDirParms.carryOut => split at h <;> cases h <;> rfl
  case getFileDirParms.error =>
    split at h <;> cases h
    rfl

theorem FileTree.serve_dir {t t' : FileTree κ} {did fb db : Nat} {name : Path} {c : Decision}
    {e : Dirent} (h : t.serve (.getFileDirParms did fb db name) c = some ((kFPNoErr, e), t'))
    (hdir : e.isdir = true) : t.obj did name = some (.dir e.cnid) := by
  cases c <;> simp only [serve, reduceCtorEq] at h
  case carryOut cnid =>
    split at h <;> cases h
    · assumption
    · cases hdir
  case error rc =>
    split at h
    · cases h
      cases hdir
    · cases h

theorem FileTree.truthful (vol : Volume) (t : FileTree κ) :
    Truthful vol serve IsName (· = t) fun t ns d =>
      t.obj.dirFrom rootDid (ns.map vol.wireName) = some d where
  name h := h
  root _ := rfl
  looks hr he hv := by
    obtain rfl := serve_looks hr he
    exact ⟨hv, fun _ _ h => h⟩
  dir he hdir _ _ _ hat := by
    obtain rfl := serve_looks (r := .getFileDirParms _ _ _ _) trivial he
    rw [map_append, map_singleton, IdTree.dirFrom_snoc]
    exact ⟨_, hat, serve_dir he hdir⟩

/-- `get_dirid` on a true server: what it returns is the ID of the path's folder,
and the path's last name. -/
theorem getDirid_wp {ns : List Name} {n : Name} (hns : ∀ m ∈ ns, IsName m) (hn : IsName n)
    (hcl : cl.Agrees vol t) :
    Wp serve (getDirid vol (joinPath (ns ++ [n]))) cl t fun x cl' t' =>
      t' = t ∧ cl'.Agrees vol t ∧ ∀ d b, x = .ok (d, b) →
        b = n ∧ t.obj.dirFrom rootDid (ns.map vol.wireName) = some d := by
  have hpath : joinPath (ns ++ [n]) = joinPath ns ++ slash :: n := by simp [joinPath_append]
  rw [hpath]
  refine ((truthful vol t).getDirid_wp hns hn.2 rfl hcl).mono ?_
  rintro x cl' _ ⟨⟨⟨rfl, -⟩, hcl'⟩, hfound⟩
  exact ⟨rfl, hcl', hfound⟩

end TrueServer

end NC
