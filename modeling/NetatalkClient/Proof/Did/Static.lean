import NetatalkClient.Framework.Cost
import NetatalkClient.Model.StaticServer
import NetatalkClient.Proof.Did.Resolve

/-!
# A lookup in a tree that does not change

`getDirid_atMost` bounds what a lookup sends, whatever it is answered: one request for each directory
of the path, and as many again if a walk from a cached directory is thrown back to the root.

A `StaticTree` answers so that a walk gives what `StaticTree.resolve` does, from a folder whose ID is
right or, if it may start again, from an ID that no folder has. With a cache that can be trusted that
far (`Client.Trusted`, `Client.Trusted.rules`), so does a lookup (`getDirid_static`).
-/

namespace NC

open List Option Prog

/-! ## How much a lookup asks -/

theorem length_componentsFrom (pre cur path : Path) :
    (componentsFrom pre cur path).length = path.count slash := by
  induction path generalizing pre cur with
  | nil => rfl
  | cons c cs ih =>
    rw [componentsFrom]
    split
    · rename_i hc
      rw [length_cons, ih, hc, count_cons_self]
    · rename_i hc
      rw [ih, count_cons_of_ne hc]

variable {path : Path} {ns : List Name}

theorem length_walkComponents (hpath : path.head? = some slash) {len : Nat}
    (h : StartsAt path len) : (walkComponents path len).length ≤ path.count slash - 1 := by
  obtain ⟨pre, rest, rfl, rfl, hpre⟩ := h
  rw [walkComponents, drop_left, take_left, count_append]
  cases rest with
  | nil => exact Nat.zero_le _
  | cons c cs =>
    dsimp only
    split
    · rename_i hc
      rw [length_componentsFrom, hc, count_cons_self]
      omega
    · rename_i hc
      rw [length_componentsFrom]
      rcases hpre with rfl | rfl | hhead
      · exact absurd (some.inj hpath) hc
      · rw [count_singleton_self]
        omega
      · exact absurd (some.inj hhead) hc

theorem atMost_of_within {α : Type} {p : Call α} {P : α → Prop}
    (h : ∀ ok : Req → Prop, ok .alloc → ok .now → p.Within ok P) : p.AtMost Req.isLookup P 0 :=
  (h (·.isLookup = false) rfl rfl).atMost

theorem walk_atMost (vol : Volume) {restart : Option (Call (Except Int Nat))} {m : Nat}
    (hr : ∀ again ∈ restart, again.AtMost Req.isLookup (fun _ => True) m) (cs : List (Name × Path))
    (did : Nat) :
    (walk vol restart cs did).AtMost Req.isLookup (fun _ => True) (cs.length + m) := by
  induction cs generalizing did with
  | nil => trivial
  | cons c cs ih =>
    obtain ⟨name, fullParent⟩ := c
    refine .uncounted rfl fun b => ?_
    cases b with
    | false => trivial
    | true =>
      rw [length_cons, Nat.add_right_comm]
      refine .one fun (rc, fi) => ?_
      have hgo : AtMost Req.isLookup (fun _ => True)
          (lookupComponent vol did name fullParent rc fi >>= walkOn vol restart cs)
          (cs.length + m) := by
        rw [← Nat.zero_add (cs.length + m)]
        refine (atMost_of_within fun _ ha hn => lookupComponent_within ha hn ..).bind fun x _ => ?_
        cases x with
        | error e => trivial
        | ok cnid => exact ih cnid
      cases restart with
      | none => exact hgo
      | some again => exact AtMost.ite (fun _ => (hr again rfl).mono (by omega)) fun _ => hgo

/-- A lookup asks about each directory of its path at most twice. -/
theorem getDirid_atMost (vol : Volume) (hpath : path.head? = some slash) :
    (getDirid vol path).AtMost Req.isLookup (fun _ => True) (2 * (path.count slash - 1)) := by
  unfold getDirid
  split
  · trivial
  · rename_i parent basename hs
    refine AtMost.ite (fun _ => trivial) fun _ => ?_
    refine AtMost.ite (fun _ => trivial) fun _ => ?_
    refine .uncounted rfl fun b => ?_
    cases b with
    | false => trivial
    | true =>
      have hroot : AtMost Req.isLookup (fun _ => True) (do
          removeDidLineage path
          walk vol none (walkComponents path 1) rootDid) (path.count slash - 1) := by
        have hstart : StartsAt path 1 := by
          obtain ⟨rest, rfl⟩ := head?_eq_some_iff.1 hpath
          exact ⟨[slash], rest, rfl, rfl, .inr (.inl rfl)⟩
        have hlen := length_walkComponents hpath hstart
        refine ((atMost_of_within fun _ _ hn => forgetDidPaths_within hn path true).bind fun _ _ =>
          walk_atMost (m := 0) vol (fun p hp => absurd hp (not_mem_none p)) _ _).mono ?_
        omega
      rw [← Nat.zero_add (2 * _)]
      refine (atMost_of_within fun _ _ hn => findDiridByFullname_within hn parent).bind fun did _ => ?_
      refine AtMost.ite (fun _ => trivial) fun _ => ?_
      rw [← Nat.zero_add (2 * _)]
      refine (atMost_of_within fun _ _ hn =>
        knownParent_within hn _ _ _ ⟨basename, splitLast_eq hs⟩).bind fun (knownDid, knownLen) hlen => ?_
      have hfirst : (walkComponents path knownLen).length ≤ path.count slash - 1 :=
        length_walkComponents hpath hlen
      rw [← Nat.add_zero (2 * _)]
      refine ((walk_atMost (m := path.count slash - 1) vol (fun again h => ?_) _ _).mono
        (by omega)).bind fun x _ => ?_
      · split at h
        · exact some.inj h ▸ hroot
        · exact absurd h (not_mem_none again)
      · cases x <;> trivial

/-! ## The answers of a tree -/

section Tree

variable {vol : Volume} (tree : StaticTree vol)

theorem length_copyPath (vol : Volume) (n : Path) :
    (copyPath vol n).length = min (nameLimit vol) n.length := by
  unfold copyPath nameLimit
  cases vol.pathEncoding <;> exact length_take

/-- A name that a request cuts is absent, like what is left of it. -/
theorem StaticTree.lookup_wireName (d : Nat) (n : Name) :
    tree.lookup d (vol.wireName n) = tree.lookup d (unixpathToAfppath n) := by
  by_cases hlong : nameLimit vol ≤ n.length
  · have hname : nameLimit vol ≤ (unixpathToAfppath n).length := by
      rw [unixpathToAfppath, length_map]
      exact hlong
    have hwire : nameLimit vol ≤ (vol.wireName n).length := by
      rw [Volume.wireName, unixpathToAfppath, length_map, length_copyPath]
      omega
    rw [tree.lookup_long hname, tree.lookup_long hwire]
  · have hwhole : copyPath vol n = n := by
      unfold copyPath
      unfold nameLimit at hlong
      cases hvol : vol.pathEncoding <;> rw [hvol] at hlong <;>
        exact take_of_length_le (Nat.le_of_not_le hlong)
    rw [Volume.wireName, hwhole]

theorem StaticTree.resolve_append (d : Nat) (ns ms : List Name) :
    tree.resolve d (ns ++ ms) = (tree.resolve d ns).bind fun i => tree.resolve i ms := by
  induction ns generalizing d with
  | nil => rfl
  | cons n ns ih =>
    rw [cons_append, resolve, resolve]
    cases tree.lookup d (unixpathToAfppath n) with
    | folder i => exact ih i
    | file | absent rc => rfl

theorem StaticTree.count_serve (turns : Nat → LookupTurn) (v : Asked) (r : Req) :
    (tree.serve turns v r).2.lookups = v.lookups + r.isLookup.toNat := by
  cases r <;> rfl

variable {tree} {turns : Nat → LookupTurn} {cl : Client} {v : Asked}

/-- A call failed as an allocation did. -/
def OutOfMemory (turns : Nat → LookupTurn) {α : Type} (x : Except Int α) : Prop :=
  x = .error (-ENOMEM) ∧ ∃ k, (turns k).memory = false

/-- What a component's lookup makes of the answer about it. -/
theorem StaticTree.componentOf_answer (did : Nat) (name : Name) (turn : LookupTurn) :
    componentOf (tree.answer did (vol.wireName name) turn).1 (tree.answer did (vol.wireName name) turn).2 =
      tree.resolve did [name] := by
  have hnode (n : Nat) : (n ||| kFPNodeIDBit) &&& kFPNodeIDBit ≠ 0 := by
    intro h
    have hbit := congrArg (Nat.testBit · 8) h
    have hnode : kFPNodeIDBit.testBit 8 = true := by decide
    simp [hnode] at hbit
  rw [StaticTree.answer, tree.lookup_wireName, StaticTree.resolve, componentOf]
  cases hentry : tree.lookup did (unixpathToAfppath name) with
  | folder i =>
    rw [if_neg (by simp), if_neg (hnode _), if_neg (by simp)]
    rfl
  | file => rw [if_neg (by simp), if_neg (hnode _), if_pos (by simp)]
  | absent rc => rw [if_pos (tree.absent_ne hentry)]

/-! ## A lookup with a cache that can be trusted -/

/-- An entry lives at some time of the call. -/
def DidEntry.Lives (turns : Nat → LookupTurn) (e : DidEntry) : Prop :=
  ∃ k, didEntryExpired e (turns k).time = false

/-- What the cache has of the folders that `ns` leads through: the last one's ID is right, and those
above are right or the IDs of no folder. -/
structure Client.Trusted (tree : StaticTree vol) (turns : Nat → LookupTurn) (ns : List Name)
    (cl : Client) : Prop where
  last : ∀ e ∈ cl.didCache, e.Lives turns → ns ≠ [] → e.dirname = joinPath ns →
    tree.resolve rootDid ns = .ok e.did
  above : ∀ e ∈ cl.didCache, e.Lives turns → ∀ pre rest, ns = pre ++ rest → pre ≠ [] → rest ≠ [] →
    e.dirname = joinPath pre → tree.resolve rootDid pre = .ok e.did ∨ ¬tree.IsFolder e.did

theorem Client.Trusted.of_subset {cl' : Client} (h : cl.Trusted tree turns ns)
    (hs : cl'.didCache ⊆ cl.didCache) : cl'.Trusted tree turns ns :=
  ⟨fun e he => h.last e (hs he), fun e he => h.above e (hs he)⟩

theorem Client.Trusted.rules (hnames : ∀ n ∈ ns, IsName n) :
    LookupRules vol (fun (_ : Asked) cl => cl.Trusted tree turns ns)
      (fun v r a v' => tree.serve turns v r = (a, v'))
      (fun _ ns x => x = tree.resolve rootDid ns ∨ OutOfMemory turns x) (fun d => ¬tree.IsFolder d) ns where
  names := hnames
  later _ _ h := h
  root := .inl rfl
  memory {v v' ns} h := .inr ⟨rfl, v.turns, congrArg Prod.fst h⟩
  component {v v' ns n did rc fi} h _ hdid := by
    obtain hdid | ⟨hdid, -⟩ := hdid
    · obtain h : tree.answer did (vol.wireName n) (turns v.turns) = (rc, fi) := congrArg Prod.fst h
      have hx := tree.componentOf_answer did n (turns v.turns)
      rw [h] at hx
      rw [tree.resolve_append, ← hdid]
      exact .inl hx
    · cases hdid
  error {v ns e} ms h := by
    refine h.imp_left fun h => ?_
    rw [tree.resolve_append, ← h]
    rfl
  gone {v v' n did rc fi} hgone h := by
    obtain ⟨rc', hrc, hcode⟩ := tree.gone hgone (vol.wireName n)
    obtain h : tree.answer did (vol.wireName n) (turns v.turns) = (rc, fi) := congrArg Prod.fst h
    rw [StaticTree.answer, hrc] at h
    cases h
    exact hcode
  subset h hs := h.of_subset hs
  cached {v v' t cl e ms} ht hcl he hlive hne hms hdir := by
    obtain rfl : (turns v.turns).time = t := congrArg Prod.fst ht
    have hlives : e.Lives turns := ⟨v.turns, hlive⟩
    by_cases hwhole : ms = ns
    · subst hwhole
      exact .inl (.inl (hcl.last e he hlives hne hdir).symm)
    · obtain ⟨rest, rfl⟩ := hms
      have hrest : rest ≠ [] := fun h => hwhole (by simp [h])
      refine (hcl.above e he hlives ms rest rfl hne hrest hdir).imp (fun h => ?_) fun h => ⟨hwhole, h⟩
      exact .inl h.symm
  caches {v cl e ms} hcl hne hms hdir h := by
    have hright {ls : List Name} (hls : ls <+: ns) (hdir' : e.dirname = joinPath ls) :
        tree.resolve rootDid ls = .ok e.did := by
      obtain rfl := joinPath_inj (fun n hn => hnames n (hms.subset hn))
        (fun n hn => hnames n (hls.subset hn)) (hdir.symm.trans hdir')
      obtain h | ⟨h, -⟩ := h
      · exact h.symm
      · cases h
    constructor
    · intro e' he' hlives hne hdir'
      rcases mem_cons.1 he' with rfl | he'
      · exact hright (prefix_refl ns) hdir'
      · exact hcl.last e' he' hlives hne hdir'
    · intro e' he' hlives pre rest hns hpre hrest hdir'
      rcases mem_cons.1 he' with rfl | he'
      · exact .inl (hright ⟨rest, hns.symm⟩ hdir')
      · exact hcl.above e' he' hlives pre rest hns hpre hrest hdir'

theorem getDirid_gives {last : Name} (hnames : ∀ n ∈ ns, IsName n) (hlast : slash ∉ last)
    (hlen : last.length < maxNameBytes) (hcl : cl.Trusted tree turns ns) :
    Wp (always (tree.serve turns)) (getDirid vol (joinPath ns ++ slash :: last)) cl v fun x _ _ =>
      x = (tree.resolve rootDid ns).map (·, last) ∨ OutOfMemory turns x := by
  refine (Amid.wp (J := fun _ => True) ((Client.Trusted.rules hnames).getDirid_amid hlast)
    (fun _ _ h => ⟨trivial, some.inj h, fun _ h => h⟩) trivial hcl).mono ?_
  rintro x cl' v' ⟨-, -, ⟨hlong, -⟩ | ⟨y, hy, rfl⟩⟩
  · omega
  · refine hy.imp (fun h => by rw [h]) fun ⟨h, hm⟩ => ⟨?_, hm⟩
    rw [h]
    rfl

end Tree

theorem count_slash_join {last : Name} (hnames : ∀ n ∈ ns, IsName n) (hlast : slash ∉ last) :
    (joinPath ns ++ slash :: last).count slash - 1 = ns.length := by
  have hjoin : (joinPath ns).count slash = ns.length := by
    induction ns with
    | nil => rfl
    | cons n ns ih =>
      rw [joinPath_cons, count_cons_self, count_append,
        count_eq_zero.2 (hnames n (by simp)).2, ih fun n hn => hnames n (by simp [hn]),
        length_cons, Nat.zero_add]
  rw [count_append, count_cons_self, count_eq_zero.2 hlast, hjoin]
  omega

/-- `get_dirid` of a path of the directories `ns` and the name `last`. Whatever it is answered, it
asks about each directory at most twice. In a tree that does not change, with a cache that can be
trusted, it gives the ID of the path's folder and the last name, or the errno of the first directory
that is none; a name that is too long and a failed allocation have errnos of their own. -/
theorem getDirid_static (vol : Volume) {ns : List Name} {last : Name} (hnames : ∀ n ∈ ns, IsName n)
    (hlast : slash ∉ last) :
    (getDirid vol (joinPath ns ++ slash :: last)).AtMost Req.isLookup (fun _ => True)
      (2 * ns.length) ∧
    ∀ (tree : StaticTree vol) (turns : Nat → LookupTurn) (cl : Client), cl.Trusted tree turns ns →
      let r := (getDirid vol (joinPath ns ++ slash :: last)).exec (tree.serve turns) cl ⟨0, 0⟩
      r.2.2.lookups ≤ 2 * ns.length ∧
      (maxNameBytes ≤ last.length → r.1 = .error (-ENAMETOOLONG)) ∧
      (last.length < maxNameBytes → r.1 = (tree.resolve rootDid ns).map (·, last) ∨
        OutOfMemory turns r.1) := by
  have hcost : (getDirid vol (joinPath ns ++ slash :: last)).AtMost Req.isLookup (fun _ => True)
      (2 * ns.length) := by
    rw [← count_slash_join hnames hlast]
    exact getDirid_atMost vol (by cases ns <;> simp)
  refine ⟨hcost, fun tree turns cl hcl => ?_⟩
  have hgives (h : last.length < maxNameBytes) :=
    exec_of_wp (getDirid_gives (v := ⟨0, 0⟩) hnames hlast h hcl)
  refine ⟨?_, fun hlong => ?_, hgives⟩
  · simpa using hcost.exec (tree.count_serve turns) cl ⟨0, 0⟩
  · rw [getDirid, splitLast_append hlast]
    simp only
    rw [if_pos hlong]
    rfl

/-- A tree with one folder `a` and in it a file `b`. -/
def smallTree : StaticTree plainVolume where
  lookup d n := if d = 2 ∧ n = [0x61] then .folder 17 else if d = 17 ∧ n = [0x62] then .file
    else .absent kFPObjectNotFound
  IsFolder d := d = 2 ∨ d = 17
  tooLong _ := kFPObjectNotFound
  isFolder_root := .inl rfl
  isFolder_of_lookup := by
    intro d n i h
    split_ifs at h
    cases h
    exact .inr rfl
  absent_ne := by
    intro d n rc h
    split_ifs at h
    cases h
    decide
  gone := by
    intro d hd n
    rw [not_or] at hd
    rw [if_neg (fun h => hd.1 h.1), if_neg (fun h => hd.2 h.1)]
    exact ⟨_, rfl, .inr rfl⟩
  lookup_long := by
    intro n hn d
    have hlong : 65535 ≤ n.length := hn
    rw [if_neg, if_neg]
    all_goals
      rintro ⟨-, rfl⟩
      simp at hlong

/-- `/a/x/y` with a cached ID of `/a` that no folder has: the walk begins again at the root, and the
directory `x` is missing. -/
theorem getDirid_static_stale :
    let cl : Client := ⟨[⟨[slash, 0x61], 99, 2, [0x61], 0⟩]⟩
    let turns : Nat → LookupTurn := fun _ => ⟨true, 5, 0, 0, 0⟩
    let r := (getDirid plainVolume [slash, 0x61, slash, 0x78, slash, 0x79]).exec
      (smallTree.serve turns) cl ⟨0, 0⟩
    r.2.2.lookups ≤ 4 ∧ r.1 = .error (-ENOENT) := by
  intro cl turns r
  have hnames : ∀ n ∈ [[0x61], [0x78]], IsName n := by decide
  have htrust : cl.Trusted smallTree turns [[0x61], [0x78]] := by
    constructor
    · intro e he _ _ hdir
      rw [mem_singleton.1 he] at hdir
      exact absurd hdir (by decide)
    · intro e he _ pre rest _ _ _ _
      rw [mem_singleton.1 he]
      exact .inr (by simp [smallTree])
  have hlast : slash ∉ [(0x79 : UInt8)] := by decide
  have h := (getDirid_static plainVolume hnames hlast).2 smallTree turns cl htrust
  refine ⟨h.1, ?_⟩
  rcases h.2.2 (by decide) with hx | ⟨-, k, hk⟩
  · exact hx.trans (by decide)
  · cases hk

/-- The last name is looked at before the directories: one of `maxNameBytes` bytes is an error,
although the path has no directory that could be missing. -/
theorem getDirid_long_name :
    let last : Name := List.replicate maxNameBytes 0x61
    smallTree.resolve rootDid [] = .ok rootDid ∧
      ((getDirid plainVolume (slash :: last)).exec
        (smallTree.serve fun _ => ⟨true, 0, 0, 0, 0⟩) ⟨[]⟩ ⟨0, 0⟩).1 = .error (-ENAMETOOLONG) := by
  intro last
  have hlast : slash ∉ last := by
    intro h
    exact absurd (eq_of_mem_replicate h) (by decide)
  have hsplit : splitLast (slash :: last) = some ([], last) := splitLast_append hlast []
  have hlong : maxNameBytes ≤ last.length := by rw [length_replicate]
  refine ⟨rfl, ?_⟩
  rw [getDirid, hsplit]
  simp only
  rw [if_pos hlong]
  rfl

end NC
