import NetatalkClient.Proof.Did.Resolve

/-!
# A lookup beside a rename

Two threads of one client: `get_dirid` of a path through the folder `/a`, and
`ml_rename` of `/a` to `/b`, on a server that answers truly and in order. A lookup asks for
an ID and caches it in two steps, so that a rename's `remove_did_subtree` between the two
leaves the folder cached where it no longer is (`stale_entry_after_rename`).

Where the forgetting falls outside the lookup, nothing of the kind remains
(`no_stale_entry`): what a lookup cached before is forgotten, and one that begins after
finds the folders where they are. Between the rename's first request and the forgetting
nothing is known of the cache, and nothing needs to be: `Forgets` says that the rename is on
its way there.
-/

namespace NC

open List Option Prog

variable {κ : Type}

/-- The path is that of the folder `a` or of something in it. -/
def Beneath (a p : Path) : Prop := p = a ∨ ∃ r, p = a ++ slash :: r

/-- The names lead to the folder. -/
def FileTree.Leads (t : FileTree κ) (vol : Volume) (ns : List Name) (d : Nat) : Prop :=
  t.obj.dirFrom rootDid (ns.map vol.wireName) = some d

open FileTree

/-- Every entry at or beneath `/a` has the ID of the folder that its path names. -/
def Client.RightBeneath (cl : Client) (vol : Volume) (t : FileTree κ) (a : Name) : Prop :=
  ∀ e ∈ cl.didCache, Beneath (joinPath [a]) e.dirname → ∃ ns : List Name, (∀ n ∈ ns, IsName n) ∧
    e.dirname = joinPath (a :: ns) ∧ t.Leads vol (a :: ns) e.did

theorem joinPath_beneath (a : Name) (ns : List Name) :
    Beneath (joinPath [a]) (joinPath (a :: ns)) := by
  cases ns with
  | nil => exact .inl rfl
  | cons n ns => exact .inr ⟨n ++ joinPath ns, by simp⟩

section Beneath

variable {vol : Volume} {t : FileTree κ} {a : Name} {cl cl' : Client}

theorem Client.RightBeneath.of_subset (h : cl.RightBeneath vol t a)
    (hs : cl'.didCache ⊆ cl.didCache) : cl'.RightBeneath vol t a :=
  fun e he => h e (hs he)

theorem rightBeneath_of_forget (ha : IsName a) (now : Nat) (vol : Volume) (t : FileTree κ) :
    Client.RightBeneath { cl with didCache := forgetLocked (joinPath [a]) false now cl.didCache }
      vol t a := by
  intro e he hb
  have hkept := (mem_filter.1 he).2
  have hforgets : forgets (joinPath [a]) false e.dirname = true := @forgets_join [] a ha false _ hb
  rw [hforgets, Bool.or_true] at hkept
  cases hkept

end Beneath

/-! ## The lookup -/

section Lookup

variable (vol : Volume) (t : FileTree κ) (a : Name)

/-- A thread that only looks, and keeps what is cached beneath `/a` right. -/
abbrev LooksRight {α : Type} (p : Call α) : Prop :=
  p.Amid (fun (_ : Unit) cl => cl.RightBeneath vol t a) Req.Looks
    (fun _ r x _ => ∃ c, t.serve r c = some (x, t)) (fun _ _ => True) ()

variable {vol t a}

theorem forgetDidPaths_looks (path : Path) (ancestors : Bool) :
    LooksRight vol t a (forgetDidPaths path ancestors) :=
  ⟨trivial, fun _ _ _ => Amid.modify (fun _ h => h.of_subset (forgetLocked_subset ..)) trivial⟩

variable {ns : List Name}

theorem rightBeneath_rules (ha : IsName a) (hns : ∀ n ∈ ns, IsName n) :
    LookupRules vol (fun (_ : Unit) cl => cl.RightBeneath vol t a)
      (fun _ r x _ => ∃ c, t.serve r c = some (x, t)) (fun _ ns x => ∀ d, x = .ok d → t.Leads vol ns d)
      (fun _ => False) (a :: ns) where
  names := forall_mem_cons.2 ⟨ha, hns⟩
  later _ _ h := h
  root d hd := by
    cases hd
    rfl
  memory _ := nofun
  component {_ _ ns n did rc fi} hc _ hdid d hd := by
    obtain ⟨c, hc⟩ := hc
    obtain ⟨rfl, -, hdir, rfl⟩ := componentOf_ok hd
    rw [FileTree.Leads, map_append, map_singleton, IdTree.dirFrom_snoc]
    exact ⟨did, hdid did rfl, serve_dir hc hdir⟩
  error _ _ := nofun
  gone h := h.elim
  subset h hs := h.of_subset hs
  cached {_ _ _ cl e ms} _ hcl he _ hne hms hdir := by
    refine .inl fun d hd => ?_
    cases hd
    obtain ⟨m, ms, rfl⟩ := exists_cons_of_ne_nil hne
    obtain ⟨rfl, hsub⟩ := cons_prefix_cons.1 hms
    obtain ⟨ls, hls, hdir', hleads⟩ := hcl e he (hdir ▸ joinPath_beneath m ms)
    have hnames : ∀ {l : List Name}, (∀ n ∈ l, IsName n) → ∀ n ∈ m :: l, IsName n :=
      fun hl => forall_mem_cons.2 ⟨ha, hl⟩
    rw [joinPath_inj (hnames fun n hn => hns n (hsub.subset hn)) (hnames hls) (hdir.symm.trans hdir')]
    exact hleads
  caches {_ cl e ms} hcl hne hms hdir h e' he' hb := by
    rcases mem_cons.1 he' with rfl | he'
    · obtain ⟨m, ms, rfl⟩ := exists_cons_of_ne_nil hne
      obtain ⟨rfl, hsub⟩ := cons_prefix_cons.1 hms
      exact ⟨ms, fun n hn => hns n (hsub.subset hn), hdir, h _ rfl⟩
    · exact hcl e' he' hb

/-- `get_dirid` of a path through `/a` keeps what is cached beneath `/a` right. -/
theorem getDirid_looks_right (ha : IsName a) {last : Name} (hns : ∀ n ∈ ns, IsName n)
    (hlast : slash ∉ last) : LooksRight vol t a (getDirid vol (joinPath (a :: ns) ++ slash :: last)) :=
  ((rightBeneath_rules ha hns).getDirid_amid hlast).mono fun _ _ _ => trivial

end Lookup

/-! ## The rename -/

/-- The step by which `remove_did_subtree` forgets a path. -/
def Forgetting (path : Path) (f : Client → Client) : Prop :=
  ∃ t, f = fun s => { s with didCache := forgetLocked path false t s.didCache }

/-- A program whose next step on the cache forgets the path, which it comes to whatever it
is answered, and goes on by a program in `Q`. -/
def Forgets (path : Path) (Q : Call Unit → Prop) : Call Unit → Prop
  | .ret _ => False
  | .atom f k => Forgetting path f ∧ ∀ s, Q (k s)
  | .send _ k => ∀ a, Forgets path Q (k a)

/-- A program without a step on the cache. -/
def Cacheless {α : Type} : Call α → Prop
  | .ret _ => True
  | .atom _ _ => False
  | .send _ k => ∀ a, Cacheless (k a)

variable {α : Type} {path : Path} {t' : FileTree κ}

theorem Cacheless.forgets {Q : Call Unit → Prop} {p : Call α} {g : α → Call Unit} (hp : Cacheless p)
    (hg : ∀ x, Forgets path Q (g x)) : Forgets path Q (p >>= g) := by
  induction p with
  | ret a => exact hg a
  | atom f k => exact hp.elim
  | send r k ih => exact fun a => ih a (hp a)

theorem Cacheless.bind {β : Type} {p : Call α} {g : α → Call β} (hp : Cacheless p)
    (hg : ∀ x, Cacheless (g x)) : Cacheless (p >>= g) := by
  induction p with
  | ret a => exact hg a
  | atom f k => exact hp.elim
  | send r k ih => exact fun a => ih a (hp a)

theorem Cacheless.ite {c : Prop} [Decidable c] {p q : Call α} (hp : Cacheless p)
    (hq : Cacheless q) : Cacheless (if c then p else q) := by
  split
  · exact hp
  · exact hq

theorem cacheless_request (r : Req) : Cacheless (request r : Call r.Ans) := fun _ => trivial

theorem afterMove_cacheless (vol : Volume) (src dst : ObjName) (rc : Int) :
    Cacheless (afterMove vol src dst rc) :=
  .ite ((cacheless_request _).bind fun _ => (cacheless_request _).bind fun _ => trivial) trivial

theorem renameObjects_cacheless (vol : Volume) (src dst : ObjName) :
    Cacheless (renameObjects vol src dst) := by
  have hmove (into : Option Path) (name : Path) : Cacheless (do
      let rc ← afpMoveandrename vol src.did dst.did src.name into name
      afterMove vol src dst rc) :=
    (cacheless_request _).bind fun _ => afterMove_cacheless ..
  have hdir : Cacheless (isDir vol dst.did dst.name) := (cacheless_request _).bind fun _ => trivial
  refine hdir.bind fun _ => .ite (hmove _ _) (.ite ?_ (hmove _ _))
  refine (cacheless_request _).bind fun _ => .ite ?_ (hmove _ _)
  exact (cacheless_request _).bind fun _ => trivial

def lookupThread (vol : Volume) (path : Path) : Call Unit := do
  let _ ← getDirid vol path

def renameThread (vol : Volume) (pathFrom pathTo : Path) : Call Unit := do
  let _ ← mlRename vol pathFrom pathTo

section Rename

variable {vol : Volume} {a b : Name} {pathFrom pathTo : Path}
  (hfrom : vol.convertPath pathFrom = .ok (joinPath [a]))
  (hto : vol.convertPath pathTo = .ok (joinPath [b])) (ha : IsName a) (hb : IsName b)

include hfrom hto ha hb

/-- Both objects are in the root, which needs no lookup. -/
theorem resolveRename_ret : ∃ x, resolveRename vol pathFrom pathTo = ret x ∧
    ∀ r, x = .ok r → r.convertedFrom = joinPath [a] := by
  have hdirid (n : Name) (hn : IsName n) : ∃ y, getDirid vol (joinPath [n]) = ret y := by
    have hsplit : splitLast (joinPath [n]) = some ([], n) := splitLast_join hn []
    rw [getDirid, hsplit]
    simp only
    split
    · exact ⟨_, rfl⟩
    · exact ⟨_, rfl⟩
  obtain ⟨y, hy⟩ := hdirid a ha
  obtain ⟨z, hz⟩ := hdirid b hb
  simp only [resolveRename, hfrom, hto, hy, hz]
  split
  · exact ⟨_, rfl, by simp⟩
  · cases y with
    | error e => exact ⟨_, rfl, by simp⟩
    | ok y =>
      cases z with
      | error e => exact ⟨_, rfl, by simp⟩
      | ok z =>
        refine ⟨_, rfl, fun r hr => ?_⟩
        cases hr
        rfl

/-- A rename that gets to its requests forgets `/a` behind them, and then only looks. -/
theorem renameThread_cases : (∃ u, renameThread vol pathFrom pathTo = ret u) ∨
    Forgets (joinPath [a]) (fun p => ∀ t : FileTree κ, LooksRight vol t a p)
      (renameThread vol pathFrom pathTo) := by
  obtain ⟨x, hx, hconv⟩ := resolveRename_ret hfrom hto ha hb
  simp only [renameThread, mlRename, hx]
  cases x with
  | error e => exact .inl ⟨(), rfl⟩
  | ok r =>
    refine .inr ?_
    simp only [ret_bind, Prog.bind_assoc]
    refine (renameObjects_cacheless vol r.src r.dst).forgets fun ret => ?_
    rw [hconv r rfl]
    refine fun now => ⟨⟨now, rfl⟩, fun s t => ?_⟩
    exact (forgetDidPaths_looks r.convertedTo false).bind fun _ _ _ => trivial

end Rename

/-! ## Both threads -/

theorem FileTree.delete_wf {t : FileTree κ} {x : ObjName} (h : t.delete x = some t')
    (hw : t.obj.Wf rootDid) : t'.obj.Wf rootDid := by
  unfold delete at h
  split at h
  · cases h
    exact hw.set_none
  · split at h <;> cases h
    exact hw.set_none
  · cases h

theorem FileTree.exchange_wf {t : FileTree κ} {x y : ObjName} (h : t.exchange x y = some t')
    (hw : t.obj.Wf rootDid) : t'.obj.Wf rootDid := by
  unfold exchange at h
  split at h
  · split at h <;> cases h
    · exact hw
    · exact hw.set_file.set_file
  · cases h

theorem FileTree.moveTo_wf {t : FileTree κ} {x : ObjName} {folder : Option Nat} {n : Path}
    (h : t.moveTo x folder n = some t') (hw : t.obj.Wf rootDid) : t'.obj.Wf rootDid := by
  unfold moveTo at h
  split at h
  · split at h
    · cases h
      exact hw
    · split at h <;> cases h
      exact hw.move
  · cases h

theorem FileTree.serve_wf {t : FileTree κ} {r : Req} {c : Decision} {x : r.Ans}
    (h : t.serve r c = some (x, t')) (hw : t.obj.Wf rootDid) : t'.obj.Wf rootDid := by
  by_cases hl : r.Looks
  · rw [serve_looks hl h]
    exact hw
  cases r with
  | alloc | now | getFileDirParms => exact absurd trivial hl
  | delete did name =>
    cases c <;> simp only [serve, reduceCtorEq] at h
    case carryOut =>
      obtain ⟨u, hu, he⟩ := map_eq_some_iff.1 h
      cases he
      exact delete_wf hu hw
    case error =>
      split at h <;> cases h
      exact hw
    case notEmpty =>
      split at h
      · split at h <;> cases h
        exact hw
      · cases h
  | exchangeFiles srcDid dstDid src dst =>
    cases c <;> simp only [serve, reduceCtorEq] at h
    case carryOut =>
      obtain ⟨u, hu, he⟩ := map_eq_some_iff.1 h
      cases he
      exact exchange_wf hu hw
    case error =>
      split at h <;> cases h
      exact hw
  | moveAndRename srcDid dstDid src dst newName =>
    cases c <;> simp only [serve, reduceCtorEq] at h
    case carryOut =>
      obtain ⟨u, hu, he⟩ := map_eq_some_iff.1 h
      cases he
      exact moveTo_wf hu hw
    case error =>
      split at h <;> cases h
      exact hw
    case cantMove =>
      split at h
      · split at h <;> cases h
        exact hw
      · cases h

def besideRename (vol : Volume) (path pathFrom pathTo : Path) (cl : Client) (t : FileTree κ) :
    Pool Client (FileTree κ) Req Req.Ans Unit where
  state := cl
  env := t
  threads := [lookupThread vol path, renameThread vol pathFrom pathTo]

/-- A request with its answer, or a step on the cache, of one of the threads. -/
def besideStep : Pool Client (FileTree κ) Req Req.Ans Unit → PoolStep Empty Decision →
    Option (Pool Client (FileTree κ) Req Req.Ans Unit) :=
  Pool.step FileTree.serve (fun _ => []) Empty.elim

/-- The rename forgets the path before the lookup begins or once it has returned. -/
def ForgetsOutside (lookup : Call Unit) (path : Path)
    (p : Pool Client (FileTree κ) Req Req.Ans Unit) : PoolStep Empty Decision → Prop
  | .start _ => True
  | .run i _ => i = 1 → ∀ f k, p.threads[1]? = some (.atom f k) → Forgetting path f →
    p.threads[0]? = some lookup ∨ ∃ u, p.threads[0]? = some (ret u)

/-- What holds of the two threads: the rename is on its way to forget `/a`, or both only
look, and what is cached beneath `/a` is right. -/
structure BesideInv (vol : Volume) (a : Name) (p : Pool Client (FileTree κ) Req Req.Ans Unit) :
    Prop where
  wf : p.env.obj.Wf rootDid
  two : ∃ l r, p.threads = [l, r] ∧
    (Forgets (joinPath [a]) (fun q => ∀ t : FileTree κ, LooksRight vol t a q) r ∨
      p.state.RightBeneath vol p.env a ∧ LooksRight vol p.env a l ∧
        LooksRight vol p.env a r)

section Both

variable {vol : Volume} {a b : Name} {p p' : Pool Client (FileTree κ) Req Req.Ans Unit}
  {lookup : Call Unit}

theorem getElem?_pair {l r th : α} {i : Nat} (h : [l, r][i]? = some th) :
    i = 0 ∧ th = l ∨ i = 1 ∧ th = r := by
  match i with
  | 0 => exact .inl ⟨rfl, (some.inj h).symm⟩
  | 1 => exact .inr ⟨rfl, (some.inj h).symm⟩

/-- A step while the rename is on its way: only its own next step on the cache matters, which
forgets `/a`. -/
theorem BesideInv.step_forgets (ha : IsName a) (hlook : ∀ t : FileTree κ, LooksRight vol t a lookup)
    {l r : Call Unit} (hw : p.env.obj.Wf rootDid) (hth : p.threads = [l, r])
    (hf : Forgets (joinPath [a]) (fun q => ∀ t : FileTree κ, LooksRight vol t a q) r)
    {x : PoolStep Empty Decision} (hok : ForgetsOutside lookup (joinPath [a]) p x)
    (hstep : besideStep p x = some p') : BesideInv vol a p' := by
  obtain ⟨t, -, -⟩ | ⟨i, c, f, k, rfl, hi, rfl⟩ | ⟨i, c, q, k, y, env, rfl, hi, he, rfl⟩ :=
    Pool.step_cases hstep
  · exact t.elim
  · rw [hth] at hi
    obtain ⟨rfl, rfl⟩ | ⟨rfl, rfl⟩ := getElem?_pair hi
    · exact ⟨hw, k p.state, r, by simp [hth], .inl hf⟩
    · -- the rename forgets `/a` here, and the lookup is not under way
      refine ⟨hw, l, k p.state, by simp [hth], .inr ?_⟩
      obtain ⟨now, rfl⟩ := hf.1
      have hl : LooksRight vol p.env a l := by
        have hout := hok rfl _ k (by rw [hth]; rfl) hf.1
        rw [hth] at hout
        obtain hl | ⟨u, hl⟩ := hout
        · rw [some.inj hl]
          exact hlook p.env
        · rw [some.inj hl]
          exact trivial
      exact ⟨rightBeneath_of_forget ha now vol p.env, hl, hf.2 p.state p.env⟩
  · rw [hth] at hi
    have hw' := serve_wf he hw
    obtain ⟨rfl, rfl⟩ | ⟨rfl, rfl⟩ := getElem?_pair hi
    · exact ⟨hw', k y, r, by simp [hth], .inl hf⟩
    · exact ⟨hw', l, k y, by simp [hth], .inl (hf y)⟩

theorem BesideInv.step (ha : IsName a) (hlook : ∀ t : FileTree κ, LooksRight vol t a lookup)
    (h : BesideInv vol a p) {x : PoolStep Empty Decision}
    (hok : ForgetsOutside lookup (joinPath [a]) p x) (hstep : besideStep p x = some p') :
    BesideInv vol a p' := by
  obtain ⟨hw, l, r, hth, hf | ⟨hright, hl, hr⟩⟩ := h
  · exact step_forgets ha hlook hw hth hf hok hstep
  · cases x with
    | start t => exact t.elim
    | run i c =>
      have hall : ∀ th ∈ p.threads, LooksRight vol p.env a th := by
        simp [hth, hl, hr]
      obtain ⟨henv, hright', hall'⟩ := Pool.amid_step
        (fun q c y v hq he => by
          obtain rfl := serve_looks hq he
          exact ⟨rfl, c, he⟩) hright hall hstep
      have hlen : p'.threads.length = 2 := by
        obtain ⟨t, -, -⟩ | ⟨i', c', f, k, -, -, rfl⟩ | ⟨i', c', q, k, y, env, -, -, -, rfl⟩ :=
          Pool.step_cases hstep
        · exact t.elim
        · simp [hth]
        · simp [hth]
      obtain ⟨l', r', hth'⟩ := length_eq_two.1 hlen
      rw [hth'] at hall'
      rw [← henv] at hw hright' hall'
      exact ⟨hw, l', r', hth', .inr ⟨hright', hall' l' (by simp), hall' r' (by simp)⟩⟩

end Both

/-- Two threads run interleaved on a server that answers truly: a lookup of a path through
the folder `/a`, and a rename of `/a` to `/b`. If the rename's forgetting of `/a` falls before
the lookup's first step or behind its last, and the cache was right beneath `/a`, then once
both have returned no entry at or beneath `/a` has the ID of a folder at or beneath `/b`. -/
theorem no_stale_entry (vol : Volume) {a b last : Name} {ns : List Name} {pathFrom pathTo : Path}
    (hfrom : vol.convertPath pathFrom = .ok (joinPath [a]))
    (hto : vol.convertPath pathTo = .ok (joinPath [b])) (ha : IsName a) (hb : IsName b)
    (hab : vol.wireName a ≠ vol.wireName b) (hns : ∀ n ∈ ns, IsName n) (hlast : slash ∉ last)
    (t : FileTree κ) (hw : t.obj.Wf rootDid) (cl : Client) (hcl : cl.RightBeneath vol t a)
    {as : List (PoolStep Empty Decision)} {p : Pool Client (FileTree κ) Req Req.Ans Unit}
    (hok : OkRun besideStep (ForgetsOutside
        (lookupThread vol (joinPath (a :: ns) ++ slash :: last)) (joinPath [a]))
      (besideRename vol (joinPath (a :: ns) ++ slash :: last) pathFrom pathTo cl t) as)
    (hrun : runSteps besideStep
      (besideRename vol (joinPath (a :: ns) ++ slash :: last) pathFrom pathTo cl t) as = some p)
    (hdone : ∀ th ∈ p.threads, ∃ u, th = ret u) :
    ∀ e ∈ p.state.didCache, Beneath (joinPath [a]) e.dirname →
      ∀ q, p.env.obj.dirFrom rootDid (vol.wireName b :: q) ≠ some e.did := by
  have hlook (t : FileTree κ) : LooksRight vol t a
      (lookupThread vol (joinPath (a :: ns) ++ slash :: last)) :=
    (getDirid_looks_right ha hns hlast).bind fun _ _ _ => trivial
  have hstart : BesideInv vol a
      (besideRename vol (joinPath (a :: ns) ++ slash :: last) pathFrom pathTo cl t) := by
    refine ⟨hw, _, _, rfl, ?_⟩
    obtain ⟨u, hu⟩ | hf := renameThread_cases hfrom hto ha hb
    · refine .inr ⟨hcl, hlook t, ?_⟩
      rw [hu]
      exact trivial
    · exact .inl hf
  obtain ⟨hw', l, r, hth, hf | ⟨hright, -, -⟩⟩ :=
    runSteps_invariant (fun _ _ _ hs hok h => h.step ha hlook hok hs) hstart hok hrun
  · obtain ⟨u, rfl⟩ := hdone r (by simp [hth])
    exact hf.elim
  · intro e he hbeneath q hq
    obtain ⟨ms, -, -, hlead⟩ := hright e he hbeneath
    have hpath := hw'.dirFrom_inj hlead hq
    rw [map_cons, List.cons.injEq] at hpath
    exact hab hpath.1

theorem okRun_rename_first {lookup : Call Unit} (cs ds : List Decision)
    {p : Pool Client (FileTree κ) Req Req.Ans Unit} (hp : p.threads[0]? = some lookup) :
    OkRun besideStep (ForgetsOutside lookup path) p (cs.map (.run 1) ++ ds.map (.run 0)) := by
  induction cs generalizing p with
  | nil =>
    clear hp
    induction ds generalizing p with
    | nil => exact trivial
    | cons d ds ih => exact ⟨nofun, fun q _ => ih⟩
  | cons c cs ih =>
    refine ⟨fun _ _ _ _ _ => .inl hp, fun q hq => ih ?_⟩
    obtain ⟨t, -, -⟩ | ⟨i, c', f, k, hi, -, rfl⟩ | ⟨i, c', r, k, y, env, hi, -, -, rfl⟩ :=
      Pool.step_cases hq
    · exact t.elim
    all_goals
      cases hi
      simpa using hp

/-- A server with the folder `a` (5) in its root. -/
def folderInRoot : FileTree Nat := FileTree.empty.set rootDid [97] (some (.dir 5))

/-- The rename's requests and cache operations: nothing stands at `/b`, and the folder is
moved there. -/
def renameDecisions : List Decision :=
  [.error kFPObjectNotFound, .carryOut 0, .time 0, .time 0, .time 0, .time 0]

/-- A lookup of `/a/x` beside a rename of `/a` to `/b`. -/
abbrev lookupAndRename : Pool Client (FileTree Nat) Req Req.Ans Unit :=
  besideRename plainVolume [47, 97, 47, 120] [47, 97] [47, 98] ⟨[]⟩ folderInRoot

theorem no_stale_entry_rename_first :
    ∃ p, runSteps besideStep lookupAndRename
        (renameDecisions.map (.run 1) ++ [.memory true, .time 0, .time 0, .memory true,
          .error kFPObjectNotFound].map (.run 0)) = some p ∧
      (∀ th ∈ p.threads, ∃ u, th = ret u) ∧
      ∀ e ∈ p.state.didCache, Beneath [47, 97] e.dirname →
        ∀ q, p.env.obj.dirFrom rootDid ([98] :: q) ≠ some e.did := by
  have hw : folderInRoot.obj.Wf rootDid := by
    constructor
    · intro d d' n n' i h h'
      simp only [folderInRoot, FileTree.set, IdTree.set, FileTree.empty] at h h'
      simp_all
    · intro d n h
      simp only [folderInRoot, FileTree.set, IdTree.set, FileTree.empty] at h
      simp_all [rootDid]
  obtain ⟨p, hp, hdone⟩ : ∃ p, runSteps besideStep lookupAndRename
      (renameDecisions.map (.run 1) ++ [.memory true, .time 0, .time 0, .memory true,
        .error kFPObjectNotFound].map (.run 0)) = some p ∧ p.threads = [ret (), ret ()] :=
    ⟨_, rfl, rfl⟩
  have hret : ∀ th ∈ p.threads, ∃ u, th = ret u := by simp [hdone]
  exact ⟨p, hp, hret, @no_stale_entry Nat plainVolume [97] [98] [120] [] [47, 97] [47, 98] rfl rfl
    (by decide) (by decide) (by decide) (by simp) (by decide) folderInRoot hw ⟨[]⟩
    (fun _ h => absurd h not_mem_nil) _ p (okRun_rename_first renameDecisions _ rfl) hp hret⟩

/-- The lookup of `/a/x` is answered the ID of `/a`, the rename to `/b` runs from its start to
its end, and the lookup then caches the ID under `/a`: both return, at the same second, and
the entry has the ID of the folder that is at `/b`. -/
theorem stale_entry_after_rename :
    ∃ p, runSteps besideStep lookupAndRename
        ([.memory true, .time 0, .time 0, .memory true, .carryOut 0].map (.run 0) ++
          renameDecisions.map (.run 1) ++
          [.memory true, .time 0, .time 0, .memory true, .time 0, .time 0].map (.run 0)) = some p ∧
      (∀ th ∈ p.threads, ∃ u, th = ret u) ∧
      ∃ e ∈ p.state.didCache, e.dirname = [47, 97] ∧ didEntryExpired e 0 = false ∧
        p.env.obj.dirFrom rootDid [[98]] = some e.did := by
  have hdone : ∀ th ∈ [ret (), ret ()], ∃ u, th = (ret u : Call Unit) := by simp
  exact ⟨_, rfl, hdone, ⟨[47, 97], 5, 2, [97], 0⟩, mem_singleton_self _, rfl, rfl, rfl⟩

end NC
