import NetatalkClient.Proof.Midlevel.Opening
import NetatalkClient.Proof.Midlevel.Records

/-!
# The list of open forks

Where no fork is opened under the number 0 (`numbersForks`), `ml_open` lists its record or
leaves the list alone (`mlOpen_wp`), `ml_close` takes it off (`mlClose_wp`), a copy on the
server leaves its destination's record listed with a fork or off the list without one
(`mlCopyRange_wp`), and every other call leaves the list as it was: a record on its stack is
off the list when it returns (`OpenMeta.close`, `Still.listed_fork`).
-/

namespace NC

open Function OnlyRecord Prog

/-- Every answer but the opening of a fork under the number 0. -/
def MlReq.numbersForks : (r : MlReq) → r.Ans → Bool
  | .sys (.openFork ..), a => a.1 != kFPNoErr || a.2.forkid != 0
  | _, _ => true

theorem forkid_ne_zero {log : MlLog} (h : ∀ x ∈ log, MlReq.numbersForks x.1 x.2 = true)
    {reply : OpenReply} (hm : (kFPNoErr, reply) ∈ openAnswers log) : reply.forkid ≠ 0 := by
  obtain ⟨⟨c | r, a⟩, hx, he⟩ := List.mem_filterMap.1 hm
  · cases he
  · cases r <;> cases he
    simpa [MlReq.numbersForks] using h _ hx

section Opens

variable {n fp flags : Nat} {vol : ServedVolume} {s t u : MlState}
variable {V C : Type} {serve : V → (r : MlReq) → C → Option (r.Ans × V)} {v : V} {numbers : Prop}

/-- The environment opens no fork under the number 0, if `numbers` holds. -/
def Numbering (numbers : Prop) (serve : V → (r : MlReq) → C → Option (r.Ans × V)) : Prop :=
  numbers → ∀ v r c a v', serve v r c = some (a, v') → MlReq.numbersForks r a = true

/-- What an `ll_open` leaves of the records: it lists its own, with a fork, or leaves the list
alone. -/
structure OpenLists (numbers : Prop) (fp : Nat) (s : MlState) (r : Int) (s' : MlState) : Prop where
  nonpos : r ≤ 0
  listed : s'.openForks = if r = 0 then fp :: s.openForks else s.openForks
  forkid : r = 0 → numbers → (s'.file fp).forkid ≠ 0
  others : ∀ p, p ≠ fp → s'.file p = s.file p
  nextFile : s'.nextFile = s.nextFile
  kind : (s'.file fp).resource = (s.file fp).resource

theorem llOpen_lists (hnum : Numbering numbers serve) :
    Wp serve (llOpen vol flags fp) s v fun r s' _ => OpenLists numbers fp s r s' := by
  have hrecord {ok : (r : MlReq) → r.Ans → Bool}
      (hok : numbers → ∀ r a, ok r a = true → MlReq.numbersForks r a = true) :
      Wp (record ok) (llOpen vol flags fp) s [] fun r s' _ => OpenLists numbers fp s r s' := by
    refine (llOpen_effects.and (wp_record_more _ _ _)).mono ?_
    rintro r s' log ⟨⟨more, hm, h⟩, more', he, hall⟩
    obtain rfl : more = more' := hm.symm.trans he
    refine ⟨h.nonpos, h.listed, fun hr hn => ?_, h.others, h.nextFile, h.kind⟩
    obtain ⟨reply, hm, hf⟩ := h.opened hr
    rw [hf]
    exact forkid_ne_zero (fun x hx => hok hn _ _ (hall x hx)) hm
  by_cases hn : numbers
  · exact (hrecord fun _ _ _ h => h).of_record (hnum hn) v
  · exact (@hrecord MlReq.anyAnswer fun h => absurd h hn).of_record (fun _ _ _ _ _ _ => rfl) v

theorem numbering_false (serve : V → (r : MlReq) → C → Option (r.Ans × V)) : Numbering False serve :=
  fun h => h.elim

variable {resource : Bool} {accessmode bitmap : Nat} {name : Name} {fOut : FileInfo} {rc : Int}
  {dst : Params}

/-- An `afp_openfork` into the record at `fp` touches no other. -/
theorem openforkInto_opens (hnum : Numbering numbers serve) {did : Nat} :
    Wp serve (openforkInto vol resource did accessmode bitmap name fp) s v fun rc s' _ =>
      OnlyRecord fp s s' ∧ (rc = kFPNoErr → numbers → (s'.file fp).forkid ≠ 0) := by
  refine wp_send.2 fun c a v' hs => ?_
  refine .ite (fun _ => wp_modifyFile.2 (wp_ret.2 ⟨(refl fp s).update rfl, fun hrc hn => ?_⟩))
    fun hrc => wp_ret.2 ⟨.refl fp s, fun h => absurd (.inl h) hrc⟩
  have hne := hnum hn _ _ _ _ _ hs
  simpa [MlReq.numbersForks, hrc, OpenReply.store] using hne

/-! ## Records on the stack -/

/-- A record at `fp`, which is not below `n`, was opened for a kind of the view. -/
structure OpenMeta (kind : MetaKind) (n fp : Nat) (s t : MlState) : Prop where
  nextFile : s.nextFile ≤ t.nextFile
  fresh : n ≤ fp
  below : fp < t.nextFile
  records : ∀ p < n, (t.file p).identity = (s.file p).identity
  resource : (t.file fp).resource = kind
  listed : t.openForks = if kind = .resource then fp :: s.openForks else s.openForks

variable {kind : MetaKind}

theorem OpenMeta.still (h : OpenMeta kind n fp s t) (hu : Still (fp + 1) t u) :
    OpenMeta kind n fp s u where
  nextFile := Nat.le_trans h.nextFile hu.nextFile
  fresh := h.fresh
  below := Nat.lt_of_lt_of_le h.below hu.nextFile
  records p hp := (hu.records p (Nat.lt_succ_of_lt (Nat.lt_of_lt_of_le hp h.fresh))).trans (h.records p hp)
  resource := (forkid_of_identity (hu.records fp (Nat.lt_succ_self fp))).2.trans h.resource
  listed := hu.listed.trans h.listed

/-- The records below `n` are as they were, and the list is the one given. -/
structure Relists (n : Nat) (l : List Nat) (s u : MlState) : Prop where
  nextFile : s.nextFile ≤ u.nextFile
  listed : u.openForks = l
  records : ∀ p < n, (u.file p).identity = (s.file p).identity

/-- The end of a close: the fork is closed, and the record taken off the list. -/
theorem Still.close (h : Still n s t) {forkid : Nat} {g : Int → Int} :
    Wp serve (do
      let rc ← Ml.afpClosefork forkid
      removeOpenedFork fp
      return g rc) t v fun _ u _ => Relists n (s.openForks.erase fp) s u :=
  wp_send.2 fun _ _ _ _ => wp_atom.2 (wp_ret.2
    ⟨h.nextFile, congrArg (·.erase fp) h.listed, h.records⟩)

/-- The view's close takes the record of a resource fork off the list, and no other. -/
theorem appledoubleClose_wp (hn : n ≤ s.nextFile) :
    Wp serve (appledoubleClose vol fp) s v fun _ u _ =>
      Relists n (if (s.file fp).resource = .resource then s.openForks.erase fp else s.openForks) s u := by
  rw [appledoubleClose, wp_getFile]
  generalize (s.file fp).resource = kind
  have hstay : Relists n s.openForks s s := ⟨Nat.le_refl _, rfl, fun _ _ => rfl⟩
  match kind with
  | .resource =>
    refine (mlCloseFlush_leaves.wp hn v).bind fun ret t w ht => ?_
    exact .ite (fun _ => wp_send.2 fun _ _ _ _ => ht.close) fun _ => ht.close
  | .none | .appledouble | .finderinfo | .comment | .serverIcon => exact wp_ret.2 hstay

/-- `ml_close` takes the record off the list, unless it has no fork. -/
theorem mlClose_wp (hn : n ≤ s.nextFile) :
    Wp serve (mlClose vol fp) s v fun _ u _ => Relists n (s.openForks.erase fp) s u ∨
      Relists n s.openForks s u ∧
        ((s.file fp).forkid = 0 ∨ (s.file fp).resource ≠ .none ∧ (s.file fp).resource ≠ .resource) := by
  refine .ite (fun hk => (appledoubleClose_wp hn).mono fun _ u _ hu => ?_) fun _ => ?_
  · split at hu
    · exact .inl hu
    · next hr => exact .inr ⟨hu, .inr ⟨hk, hr⟩⟩
  refine .ite (fun hf => ?_) fun _ => ?_
  · exact wp_ret.2 (.inr ⟨⟨Nat.le_refl _, rfl, fun _ _ => rfl⟩, .inl hf⟩)
  · refine (mlCloseFlush_leaves.wp hn v).bind fun ret t w ht => ?_
    exact ht.close.mono fun _ _ _ hu => .inl hu

theorem OpenMeta.close (h : OpenMeta kind n fp s t) (v : V) :
    Wp serve (appledoubleClose vol fp) t v fun _ u _ => Still n s u := by
  refine (appledoubleClose_wp h.below).mono fun _ u _ hu => ?_
  have hlisted : u.openForks = s.openForks := by
    rw [hu.listed, h.resource, h.listed]
    split <;> simp
  refine ⟨Nat.le_trans h.nextFile hu.nextFile, hlisted, fun p hp => ?_⟩
  have hfp := h.fresh
  exact (hu.records p (by omega)).trans (h.records p hp)

theorem Still.newFile (h : n ≤ s.nextFile) (f : FileInfo) :
    Still n s { s with file := update s.file s.nextFile f, nextFile := s.nextFile + 1 } :=
  ⟨Nat.le_succ _, rfl, fun p hp =>
    congrArg FileInfo.identity (update_of_ne (by omega) ..)⟩

/-- What may change the record at `fp`, which is not below `n`. -/
theorem Still.of_others (h : Still n s t) (hfp : n ≤ fp) (hu : ∀ p, p ≠ fp → u.file p = t.file p)
    (hn : u.nextFile = t.nextFile) (hl : u.openForks = t.openForks) : Still n s u :=
  ⟨hn ▸ h.nextFile, hl.trans h.listed, fun p hp =>
    (congrArg FileInfo.identity (hu p (by omega))).trans (h.records p hp)⟩

theorem getDiridInto_wp {path : Path} :
    Wp serve (getDiridInto path fp) s v fun _ s' _ =>
      OnlyRecord fp s s' ∧ (s'.file fp).forkid = (s.file fp).forkid := by
  refine wp_send.2 fun c a v' _ => ?_
  match a with
  | .error e => exact wp_ret.2 ⟨.refl fp s, rfl⟩
  | .ok (did, basename) =>
    show Wp serve (ret (0 : Int)) _ v' _
    refine wp_ret.2 (And.intro ((refl fp s).update (by rfl)) ?_)
    simp

/-- The open of a record for a kind of the view: it fails and leaves the list alone, or
leaves the record open. -/
theorem openAppledoubleMeta_wp {path : Path} (hk : kind = .resource ∨ kind = .finderinfo)
    (hs : Still n s t) (hfp : n ≤ fp) (hb : fp < t.nextFile) :
    Wp serve (openAppledoubleMeta vol path kind flags fp) t v fun r u _ =>
      if r < 0 then Still n s u else OpenMeta kind n fp s u := by
  rw [openAppledoubleMeta]
  split
  · next e he => exact wp_ret.2 (by rwa [if_pos (vol.convertPath_neg _ _ he)])
  refine .ite (fun _ => wp_ret.2 (by rwa [if_pos (by decide)])) fun _ => ?_
  unfold appledoubleOpenMeta
  have hs : Still n s { t with file := update t.file fp { resource := kind } } :=
    hs.of_others hfp (fun p hp => update_of_ne hp ..) rfl rfl
  obtain rfl | rfl := hk
  · refine getDiridInto_wp.bind fun ret t₁ _ h => ?_
    have hs₁ := hs.of_others hfp h.1.others h.1.nextFile h.1.listed
    refine .ite (fun hret => wp_ret.2 (by rwa [if_pos hret])) fun _ => ?_
    refine (llOpen_lists (numbering_false serve)).mono fun r u _ hu => ?_
    have hr := hu.nonpos
    split
    · exact hs₁.of_others hfp hu.others hu.nextFile (by rw [hu.listed, if_neg (by omega)])
    · exact ⟨hu.nextFile ▸ hs₁.nextFile, hfp, hu.nextFile ▸ h.1.nextFile ▸ hb,
        (Still.of_others (u := { u with openForks := t₁.openForks }) hs₁ hfp hu.others hu.nextFile rfl).records,
        by rw [hu.kind, h.1.kind]; simp, by rw [hu.listed, if_pos (by omega), hs₁.listed]; rfl⟩
  · refine getDiridInto_wp.mono fun ret u _ h => ?_
    have hs₁ := hs.of_others hfp h.1.others h.1.nextFile h.1.listed
    split
    · exact hs₁
    · exact ⟨hs₁.nextFile, hfp, h.1.nextFile ▸ hb, hs₁.records, by rw [h.1.kind]; simp, hs₁.listed⟩

section Rules

variable {α β : Type}

/-- A part that leaves the records alone, with the record open. -/
theorem OpenMeta.use (h : OpenMeta kind n fp s t) {p : MlCall β} {g : β → MlCall α}
    (hp : Leaves serve (fp + 1) p)
    (hg : ∀ b u v, OpenMeta kind n fp s u → Wp serve (g b) u v fun _ u _ => Still n s u) :
    Wp serve (p >>= g) t v fun _ u _ => Still n s u :=
  (hp.wp h.below v).bind fun b u v hu => hg b u v (h.still hu)

theorem OpenMeta.choice (h : OpenMeta kind n fp s t) {c : Prop} [Decidable c] {p q : MlCall β}
    {g : β → MlCall α} (hp : Leaves serve (fp + 1) p) (hq : Leaves serve (fp + 1) q)
    (hg : ∀ b u v, OpenMeta kind n fp s u → Wp serve (g b) u v fun _ u _ => Still n s u) :
    Wp serve (if c then p >>= g else q >>= g) t v fun _ u _ => Still n s u :=
  .ite (fun _ => h.use hp hg) fun _ => h.use hq hg

theorem OpenMeta.done (h : OpenMeta kind n fp s t) (hs : n ≤ s.nextFile) {g : Int → MlCall α}
    (hg : ∀ c, Leaves serve n (g c)) :
    Wp serve (appledoubleClose vol fp >>= g) t v fun _ u _ => Still n s u :=
  (h.close v).bind fun c _ _ hu =>
    ((hg c).wp (Nat.le_trans hs hu.nextFile) _).mono fun _ _ _ hu' => hu.trans hu'

theorem leaves_of_wp {p : MlCall α}
    (h : ∀ s v, n ≤ s.nextFile → Wp serve p s v fun _ u _ => Still n s u) : Leaves serve n p :=
  fun s v _ _ _ _ _ hr hs => h s v hs _ _ _ _ _ hr

/-- A call that opens a record of its own. -/
theorem leaves_openMeta {path : Path} (hk : kind = .resource ∨ kind = .finderinfo)
    {x : Int → α} {g : Nat → Int → MlCall α}
    (hopen : ∀ fp e s t v, n ≤ s.nextFile → OpenMeta kind n fp s t →
      Wp serve (g fp e) t v fun _ u _ => Still n s u) :
    Leaves serve n (do
      let fp ← Ml.newFile {}
      let e ← openAppledoubleMeta vol path kind flags fp
      if e < 0 then ret (x e) else g fp e) := by
  refine leaves_of_wp fun s v hs => ?_
  refine (openAppledoubleMeta_wp hk (.newFile hs {}) hs (Nat.lt_succ_self _)).bind ?_
  intro e t v ht
  refine .ite (fun he => ?_) fun he => ?_
  · exact wp_ret.2 (by rwa [if_pos he] at ht)
  · rw [if_neg he] at ht
    exact hopen _ e s t v hs ht

/-- A fork that a call lists, uses and closes. -/
theorem Still.listed_fork (h : Still n s t) (hs : n ≤ s.nextFile) {p : Nat → MlCall β}
    {g : β → Int → MlCall α} (hp : ∀ forkid, Leaves serve n (p forkid))
    (hg : ∀ b c, Leaves serve n (g b c)) :
    Wp serve (do
      addOpenedFork fp
      let f ← Ml.getFile fp
      let b ← p f.forkid
      let c ← Ml.afpClosefork f.forkid
      removeOpenedFork fp
      g b c) t v fun _ u _ => Still n s u := by
  show Wp serve (p _ >>= _) { t with openForks := fp :: t.openForks } v _
  have hb : n ≤ MlState.nextFile { t with openForks := fp :: t.openForks } := Nat.le_trans hs h.nextFile
  refine ((hp _).wp hb v).bind fun b u v hu => wp_send.2 fun _ c v' _ => ?_
  have hu' : Still n s { u with openForks := u.openForks.erase fp } :=
    ⟨Nat.le_trans h.nextFile hu.nextFile, by simp [hu.listed, h.listed], fun q hq =>
      (hu.records q hq).trans (h.records q hq)⟩
  exact wp_atom.2 (((hg b c).wp (Nat.le_trans hs hu'.nextFile) v').mono fun _ _ _ hw => hu'.trans hw)

/-- A call that opens a fork into a record of its own. -/
theorem leaves_openfork {did : Nat}
    {g : Nat → Int → MlCall α}
    (hopen : ∀ fp rc s t v, n ≤ s.nextFile → Still n s t →
      Wp serve (g fp rc) t v fun _ u _ => Still n s u) :
    Leaves serve n (do
      let fp ← Ml.newFile {}
      let rc ← openforkInto vol resource did accessmode bitmap name fp
      g fp rc) := by
  refine leaves_of_wp fun s v hs => ?_
  refine (openforkInto_opens (numbering_false serve)).bind fun rc t v ht => ?_
  exact hopen _ rc s t v hs ((Still.newFile hs {}).of_others hs ht.1.others ht.1.nextFile ht.1.listed)

theorem Still.then (h : Still n s t) (hs : n ≤ s.nextFile) {p : MlCall α} (hp : Leaves serve n p) :
    Wp serve p t v fun _ u _ => Still n s u :=
  (hp.wp (Nat.le_trans hs h.nextFile) v).mono fun _ _ _ hu => h.trans hu

end Rules

/-! ## The calls on a path -/

variable {path : Path} {value : Bytes} {position : Int} {size : Nat}

theorem mlGetresourcefork_leaves : Leaves serve n (mlGetresourcefork vol path size position) := by
  unfold mlGetresourcefork
  split
  · exact .ret _
  refine .bind llGetattr_leaves fun r => ?_
  match r with
  | .error e => exact .ret _
  | .ok st =>
    refine .guard fun _ => .guard fun _ => .guard fun _ => ?_
    refine leaves_openMeta (.inl rfl) fun fp ret s t v hs ht => ?_
    refine ht.use resourceforkLoop_leaves fun read u v hu => hu.done hs fun _ => ?_
    match read with
    | .error e | .ok data => exact .ret _

theorem writeResourceFork_leaves {whole : Bool} :
    Leaves serve n (writeResourceFork vol path value position whole) := by
  refine .guard fun _ => .guard fun _ => .guard fun _ => ?_
  refine leaves_openMeta (.inl rfl) fun fp ret s t v hs ht => ?_
  refine ht.choice (.ret _) appledoubleWrite_leaves fun a u v hu => ?_
  refine .ite (fun _ => hu.done hs fun _ => .ret _) fun _ => ?_
  refine hu.choice mlFtruncate_leaves (.ret _) fun _ u v hu => ?_
  exact .ite (fun _ => hu.done hs fun _ => .ret _) fun _ =>
    hu.done hs fun _ => .ret _

theorem mlSetresourceforkFlags_leaves :
    Leaves serve n (mlSetresourceforkFlags vol path value position flags) := by
  refine .guard fun _ => ?_
  exact .ite (fun _ => .bind mlGetresourcefork_leaves fun _ =>
    .guard fun _ => writeResourceFork_leaves) fun _ => writeResourceFork_leaves

theorem mlTruncateresourcefork_leaves : Leaves serve n (mlTruncateresourcefork vol path size) := by
  refine .guard fun _ => .guard fun _ => ?_
  refine leaves_openMeta (.inl rfl) fun fp ret s t v hs ht => ?_
  exact ht.use mlFtruncate_leaves fun _ u v hu => hu.done hs fun _ => .ret _

theorem mlRemoveresourcefork_leaves : Leaves serve n (mlRemoveresourcefork vol path) :=
  .bind mlGetresourcefork_leaves fun _ => .guard fun _ => writeResourceFork_leaves

theorem mlGetfinderinfo_leaves : Leaves serve n (mlGetfinderinfo vol path size) := by
  refine leaves_openMeta (.inr rfl) fun fp ret s t v hs ht => ?_
  refine ht.use appledoubleRead_leaves fun read u v hu => hu.done hs fun _ => ?_
  match read with
  | .error e | .ok none | .ok (some r) => exact .ret _

theorem mlSetfinderinfo_leaves : Leaves serve n (mlSetfinderinfo vol path value) := by
  refine .guard fun _ => .guard fun _ => ?_
  refine leaves_openMeta (.inr rfl) fun fp ret s t v hs ht => ?_
  exact ht.use appledoubleWrite_leaves fun _ u v hu => hu.done hs fun _ => .ret _

theorem mlSetfinderinfoFlags_leaves :
    Leaves serve n (mlSetfinderinfoFlags vol path value flags) := by
  refine .guard fun _ => ?_
  exact .ite (fun _ => .bind mlGetfinderinfo_leaves fun _ =>
    .guard fun _ => mlSetfinderinfo_leaves) fun _ => mlSetfinderinfo_leaves

theorem mlReadlink_leaves : Leaves serve n (mlReadlink vol path size) := by
  refine .guard fun _ => .bind (.request _) fun _ => .guard fun _ => ?_
  split
  · exact .ret _
  refine .bind (.request _) fun r => ?_
  match r with
  | .error e => exact .ret _
  | .ok (dirid, basename) =>
    refine leaves_openfork fun fp rc s t v hs ht => ?_
    refine .ite (fun _ => ht.then hs (.ret _)) fun _ => ?_
    refine ht.listed_fork hs (fun _ => afpRead_leaves) fun _ _ => ?_
    exact .guard fun _ => .guard fun _ => .ret _

theorem symlinkFinish_leaves {target : Path} {dirid : Nat} {basename : Name} :
    Leaves serve n (symlinkFinish vol target dirid basename) := by
  refine leaves_openfork fun fp rc s t v hs ht => ?_
  refine .ite (fun _ => ht.then hs (.ret _)) fun _ => ?_
  refine .ite (fun _ => ht.then hs (.bind (.request _) fun _ => .ret _)) fun _ => ?_
  refine ht.listed_fork hs (fun _ => .request _) fun a c => ?_
  have hend : ∀ ret : Int, Leaves serve n (do
      if ret ≠ 0 then
        let _ ← Ml.afpDelete vol dirid basename
        return -ret
      else return 0) := fun ret =>
    .ite (fun _ => .bind (.request _) fun _ => .ret _) fun _ => .ret _
  refine .ite (fun _ => .bind (.ret _) hend) fun _ => .ite (fun _ => .bind (.ret _) hend) fun _ => ?_
  exact .bind setParameters_leaves fun _ => .bind (.ret _) hend

theorem mlSymlink_leaves {target : Path} : Leaves serve n (mlSymlink vol target path) := by
  refine .guard fun _ => ?_
  split
  · exact .ret _
  split
  · exact .ret _
  refine .guard fun _ => .bind appledoubleRefuse_leaves fun _ => .guard fun _ => ?_
  refine .bind (.request _) fun r => ?_
  match r with
  | .error e => exact .ret _
  | .ok (dirid, basename) =>
    exact .bind llCreatefile_leaves fun _ => .guard fun _ => symlinkFinish_leaves

/-! ## Opening a handle -/

/-- An open left a handle at `fp`: its record is listed, with a fork, or has none. -/
structure Handle (numbers : Prop) (n fp : Nat) (s u : MlState) : Prop where
  nextFile : s.nextFile ≤ u.nextFile
  below : fp < u.nextFile
  records : ∀ p < n, (u.file p).identity = (s.file p).identity
  fork : (u.openForks = fp :: s.openForks ∧ (numbers → (u.file fp).forkid ≠ 0) ∧
      ((u.file fp).resource = .none ∨ (u.file fp).resource = .resource)) ∨
    (u.openForks = s.openForks ∧ (u.file fp).forkid = 0)

/-- A record without a fork yet. -/
structure Blank (n fp : Nat) (s t : MlState) : Prop extends Still n s t where
  fresh : n ≤ fp
  below : fp < t.nextFile
  forkid : (t.file fp).forkid = 0

theorem Blank.handle (h : Blank n fp s t) : Handle numbers n fp s t :=
  ⟨h.nextFile, h.below, h.records, .inr ⟨h.listed, h.forkid⟩⟩

theorem Blank.only (h : Blank n fp s t) (hu : OnlyRecord fp t u)
    (hf : (u.file fp).forkid = (t.file fp).forkid) : Blank n fp s u :=
  ⟨h.toStill.of_others h.fresh hu.others hu.nextFile hu.listed, h.fresh, hu.nextFile ▸ h.below,
    hf.trans h.forkid⟩

theorem Blank.still (h : Blank n fp s t) (hu : Still (fp + 1) t u) : Blank n fp s u where
  toStill := h.toStill.trans ⟨hu.nextFile, hu.listed, fun p hp => hu.records p (by have := h.fresh; omega)⟩
  fresh := h.fresh
  below := Nat.lt_of_lt_of_le h.below hu.nextFile
  forkid := (forkid_of_identity (hu.records fp (Nat.lt_succ_self fp))).1.trans h.forkid

theorem extraTranslate_wp :
    Wp serve (extraTranslate vol path) s v fun r s' _ => s' = s ∧ ∀ e, r = .error e → e < 0 := by
  unfold extraTranslate
  split
  · exact wp_ret.2 ⟨rfl, nofun⟩
  · exact wp_ret.2 ⟨rfl, nofun⟩
  · refine wp_send.2 fun c ok v' _ => .guard ⟨rfl, nofun⟩ fun _ => ?_
    refine wp_ret.2 ⟨rfl, fun e he => ?_⟩
    cases he
    decide

theorem ensureDtOpened_nonpos : ensureDtOpened.Within (fun _ => True) (· ≤ 0) := by
  have hent : -ENOENT ≤ 0 := by decide
  refine fun s => .ite (fun _ => Int.le_refl 0) fun _ => .ite (fun _ => hent) fun _ => ?_
  refine ⟨trivial, fun a => .ite (fun _ _ => hent) fun _ => ?_⟩
  exact .ite (fun _ => show -EIO_ ≤ 0 by decide) fun _ _ => Int.le_refl 0

/-- What an open into a blank record comes to. -/
def Opens (numbers : Prop) (n fp : Nat) (s : MlState) (r : Int) (u : MlState) : Prop :=
  (r < 0 ∧ Still n s u) ∨ (r = 1 ∧ Handle numbers n fp s u)

/-- `ll_open` of a blank record: 0 stands for the success that the view's open returns 1 for. -/
theorem Blank.llOpen (h : Blank n fp s t) (hnum : Numbering numbers serve)
    (hk : (t.file fp).resource = .none ∨ (t.file fp).resource = .resource) :
    Wp serve (llOpen vol flags fp) t v fun r u _ =>
      (r < 0 ∧ Still n s u) ∨ (r = 0 ∧ Handle numbers n fp s u) := by
  refine (llOpen_lists hnum).mono fun r u _ hu => ?_
  have hr := hu.nonpos
  by_cases h0 : r = 0
  · refine .inr ⟨h0, hu.nextFile ▸ h.nextFile, hu.nextFile ▸ h.below, fun p hp => ?_,
      .inl ⟨?_, hu.forkid h0, hu.kind ▸ hk⟩⟩
    · rw [hu.others p (by have := h.fresh; omega), h.records p hp]
    · rw [hu.listed, if_pos h0, h.listed]
  · exact .inl ⟨by omega, h.toStill.of_others h.fresh hu.others hu.nextFile (by rw [hu.listed, if_neg h0])⟩

theorem appledoubleOpen_wp (hnum : Numbering numbers serve) (h : Blank n fp s t) :
    Wp serve (appledoubleOpen vol path flags fp) t v fun r u _ =>
      Opens numbers n fp s r u ∨ (r = 0 ∧ Blank n fp s u ∧ (u.file fp).resource = .none) := by
  refine extraTranslate_wp.bind ?_
  rintro (e | ⟨kind, newpath⟩) t' v' ⟨rfl, he⟩
  · exact wp_ret.2 (.inl (.inl ⟨he e rfl, h.toStill⟩))
  show Wp _ (Ml.modifyFile fp _ >>= _) t' v' _
  rw [wp_modifyFile]
  have h : Blank n fp s { t' with file := update t'.file fp { t'.file fp with resource := kind } } :=
    ⟨h.toStill.of_others h.fresh (fun p hp => update_of_ne hp ..) rfl rfl, h.fresh, h.below,
      by simpa using h.forkid⟩
  have hneg : ∀ {r : Int} {u : MlState}, r < 0 → Blank n fp s u →
      Opens numbers n fp s r u ∨ (r = 0 ∧ Blank n fp s u ∧ (u.file fp).resource = .none) :=
    fun hr hu => .inl (.inl ⟨hr, hu.toStill⟩)
  have hone : ∀ {u : MlState}, Blank n fp s u →
      Opens numbers n fp s 1 u ∨ ((1 : Int) = 0 ∧ Blank n fp s u ∧ (u.file fp).resource = .none) :=
    fun hu => .inl (.inr ⟨rfl, hu.handle⟩)
  match kind with
  | .resource =>
    refine getDiridInto_wp.bind fun ret u v hu => ?_
    have hb := h.only hu.1 hu.2
    refine .ite (fun hret => wp_ret.2 (hneg hret hb)) fun _ => ?_
    refine (hb.llOpen hnum (.inr (by rw [hu.1.kind]; simp))).bind ?_
    rintro r u v (⟨hr, hu⟩ | ⟨rfl, hu⟩)
    · exact wp_ret.2 (.inl (.inl (by rw [if_pos hr]; exact ⟨hr, hu⟩)))
    · exact wp_ret.2 (.inl (.inr ⟨rfl, hu⟩))
  | .appledouble => exact wp_ret.2 (hneg (by decide) h)
  | .finderinfo =>
    refine getDiridInto_wp.bind fun ret u v hu => wp_ret.2 ?_
    have hb := h.only hu.1 hu.2
    split
    · exact hneg ‹_› hb
    · exact hone hb
  | .comment =>
    refine getDiridInto_wp.bind fun ret u v hu => ?_
    have hb := h.only hu.1 hu.2
    refine .ite (fun hret => wp_ret.2 (hneg hret hb)) fun _ => ?_
    refine (((ensureDtOpened_leaves vol).wp hb.below v).and
      (ensureDtOpened_nonpos.wp (I := fun _ => True) (fun _ _ _ _ _ _ _ _ => trivial) trivial)).bind ?_
    rintro ret u v ⟨hu, hret, -⟩
    have hb := hb.still hu
    refine .ite (fun hne => wp_ret.2 (hneg (by omega) hb)) fun _ => ?_
    refine .guard (hone hb) fun _ => ?_
    refine (setCommentLength_leaves.wp hb.below v).bind fun ret u v hu => wp_ret.2 ?_
    have hb := hb.still hu
    split
    · exact hneg ‹_› hb
    · exact hone hb
  | .serverIcon =>
    refine wp_ret.2 ?_
    split
    · exact hone h
    · exact hneg (by decide) h
  | .none => exact wp_ret.2 (.inr ⟨rfl, h, by simp⟩)

/-- An `ml_open` fails and leaves the list alone, or leaves a handle. -/
theorem mlOpen_wp (hnum : Numbering numbers serve) :
    Wp serve (mlOpen vol path flags) s v fun r u _ =>
      match r with
      | .error _ => Still s.nextFile s u
      | .ok fp => s.nextFile ≤ fp ∧ Handle numbers s.nextFile fp s u := by
  have hstay := Still.refl s.nextFile s
  unfold mlOpen
  split
  · exact wp_ret.2 hstay
  refine .guard hstay fun _ => .guard hstay fun _ => ?_
  refine wp_send.2 fun _ ok v' _ => .guard hstay fun _ => ?_
  have h : Blank s.nextFile s.nextFile s
      { s with file := update s.file s.nextFile {}, nextFile := s.nextFile + 1 } :=
    ⟨.newFile (Nat.le_refl _) {}, Nat.le_refl _, Nat.lt_succ_self _, by simp⟩
  refine (appledoubleOpen_wp hnum h).bind ?_
  rintro ret t v ((⟨hret, ht⟩ | ⟨rfl, ht⟩) | ⟨rfl, ht, hk⟩)
  · exact .guard ht fun hn => absurd hret hn
  · exact wp_ret.2 ⟨Nat.le_refl _, ht⟩
  refine getDiridInto_wp.bind fun ret u v hu => ?_
  have hb := ht.only hu.1 hu.2
  refine .ite (fun _ => wp_ret.2 hb.toStill) fun _ => ?_
  refine (hb.llOpen hnum (.inl (hu.1.kind.trans hk))).bind ?_
  rintro r u v (⟨hr, hu⟩ | ⟨rfl, hu⟩)
  · exact wp_ret.2 (by rw [if_pos hr]; exact hu)
  · exact wp_ret.2 ⟨Nat.le_refl _, hu⟩

/-! ## Closing, and copying on the server -/

/-- What a call leaves that changes the record at `fp` alone: the record is listed as it was,
and has a fork if it had one; or it is off the list. -/
structure Touches (numbers : Prop) (n fp : Nat) (s u : MlState) : Prop where
  nextFile : s.nextFile ≤ u.nextFile
  others : ∀ p < n, p ≠ fp → (u.file p).identity = (s.file p).identity
  resource : numbers → (u.file fp).resource = (s.file fp).resource
  listed : (u.openForks = s.openForks ∧
      (numbers → ((u.file fp).forkid = 0 ↔ (s.file fp).forkid = 0))) ∨
    (u.openForks = s.openForks.erase fp ∧ (numbers → (u.file fp).forkid = 0))

/-- The destination of a copy on its way: its record is on the list. -/
structure Copying (numbers : Prop) (n fp : Nat) (s t : MlState) : Prop where
  nextFile : s.nextFile ≤ t.nextFile
  others : ∀ p < n, p ≠ fp → (t.file p).identity = (s.file p).identity
  resource : numbers → (t.file fp).resource = (s.file fp).resource
  listed : t.openForks = s.openForks

section Touches

variable (hfp : numbers → fp < n)
include hfp

theorem Still.touches (h : Still n s u) : Touches numbers n fp s u where
  nextFile := h.nextFile
  others p hp _ := h.records p hp
  resource hn := (forkid_of_identity (h.records fp (hfp hn))).2
  listed := .inl ⟨h.listed, fun hn => by rw [(forkid_of_identity (h.records fp (hfp hn))).1]⟩

theorem Touches.still (h : Touches numbers n fp s t) (hu : Still n t u) : Touches numbers n fp s u where
  nextFile := Nat.le_trans h.nextFile hu.nextFile
  others p hp hne := (hu.records p hp).trans (h.others p hp hne)
  resource hn := (forkid_of_identity (hu.records fp (hfp hn))).2.trans (h.resource hn)
  listed := by
    rw [hu.listed]
    refine h.listed.imp (And.imp_right fun h hn => ?_) (And.imp_right fun h hn => ?_)
    all_goals rw [(forkid_of_identity (hu.records fp (hfp hn))).1, h hn]

theorem Touches.after (h : Touches numbers n fp t u) (hs : Still n s t) : Touches numbers n fp s u where
  nextFile := Nat.le_trans hs.nextFile h.nextFile
  others p hp hne := (h.others p hp hne).trans (hs.records p hp)
  resource hn := (h.resource hn).trans (forkid_of_identity (hs.records fp (hfp hn))).2
  listed := by
    rw [← hs.listed]
    refine h.listed.imp_left (And.imp_right fun h hn => ?_)
    rw [h hn, (forkid_of_identity (hs.records fp (hfp hn))).1]

theorem Copying.still (h : Copying numbers n fp s t) (hu : Still n t u) : Copying numbers n fp s u where
  nextFile := Nat.le_trans h.nextFile hu.nextFile
  others p hp hne := (hu.records p hp).trans (h.others p hp hne)
  resource hn := (forkid_of_identity (hu.records fp (hfp hn))).2.trans (h.resource hn)
  listed := hu.listed.trans h.listed

end Touches

theorem Copying.refl (numbers : Prop) (n fp : Nat) (s : MlState) : Copying numbers n fp s s :=
  ⟨Nat.le_refl _, fun _ _ _ => rfl, fun _ => rfl, rfl⟩

theorem Copying.only (h : Copying numbers n fp s t) (hu : OnlyRecord fp t u) : Copying numbers n fp s u :=
  ⟨hu.nextFile ▸ h.nextFile, fun p hp hne => hu.others p hne ▸ h.others p hp hne,
    fun hn => hu.kind.trans (h.resource hn), hu.listed.trans h.listed⟩

theorem Copying.reopened (h : Copying numbers n fp s t) (hs : numbers → (s.file fp).forkid ≠ 0)
    (ht : numbers → (t.file fp).forkid ≠ 0) : Touches numbers n fp s t :=
  ⟨h.nextFile, h.others, h.resource, .inl ⟨h.listed, fun hn => iff_of_false (ht hn) (hs hn)⟩⟩

theorem Copying.lost (h : Copying numbers n fp s t) :
    Wp serve (copyLostFork fp) t v fun _ u _ => Touches numbers n fp s u := by
  show Wp serve (ret (-EIO_)) _ v _
  refine wp_ret.2 ⟨h.nextFile, fun p hp hne => ?_, ?_, .inr ⟨?_, ?_⟩⟩
  · exact (congrArg FileInfo.identity (update_of_ne hne ..)).trans (h.others p hp hne)
  · exact fun hn => by simpa using h.resource hn
  · exact congrArg (·.erase fp) h.listed
  · exact fun _ => by simp

theorem replaceDestination_leaves {fIn : FileInfo} :
    Leaves serve n (replaceDestination vol fIn fOut) :=
  .bind (.request _) fun _ => .ite (fun _ => .bind (.request _) fun _ => .ret _) fun _ => .ret _

theorem ensureDestination_leaves : Leaves serve n (ensureDestination vol fOut rc) :=
  .guard fun _ => .bind (.request _) fun _ => .ret _

theorem setCopyParms_leaves {copied : Bool} : Leaves serve n (setCopyParms vol fOut dst copied) :=
  .choice (.request _) (.ret _) fun _ => .ite (fun _ => .bind (.request _) fun _ => .ret _) fun _ => .ret _

theorem forkStillNamed_leaves : Leaves serve n (forkStillNamed vol fp bitmap) :=
  .bind (.getFile fp) fun _ => .guard fun _ => .bind (.request _) fun _ => .ret _

theorem otherForkOpen_leaves : Leaves serve n (otherForkOpen fp) :=
  .modifyGet fun s _ => .refl n s

section Copy

variable (hn : n ≤ s.nextFile) (hfp : numbers → fp < n) {fpIn : Nat} {offIn offOut : Int} {len : Nat}
include hn hfp

variable {src : Params}

theorem copyReopened_wp (h : Copying numbers n fp s t) (hs : numbers → (s.file fp).forkid ≠ 0)
    (ht : numbers → (t.file fp).forkid ≠ 0) {deleted found : Bool} :
    Wp serve (copyReopened vol fp src dst deleted found rc) t v fun _ u _ =>
      Touches numbers n fp s u := by
  refine .ite (fun _ => wp_send.2 fun _ _ _ _ => h.lost) fun _ => ?_
  have hend : ∀ {copied : Bool} {t : MlState} {v : V}, Copying numbers n fp s t →
      (numbers → (t.file fp).forkid ≠ 0) →
      Wp serve (do
        if !copied then return 0
        Ml.modifyFile fp fun f => { f with dirty := true }
        return src.size : MlCall Int) t v fun _ u _ => Touches numbers n fp s u := by
    intro copied t v h ht
    refine .guard (h.reopened hs ht) fun _ => wp_modifyFile.2 (wp_ret.2 ?_)
    exact (h.only ((refl fp t).update (by rfl))).reopened hs (by simpa using ht)
  refine .ite (fun _ => wp_bind.2 ?_) fun _ => hend h ht
  refine (setCopyParms_leaves.wp (Nat.le_trans hn h.nextFile) v).mono fun _ u _ hu => ?_
  refine hend (h.still hfp hu) fun hnum => ?_
  rw [(forkid_of_identity (hu.records fp (hfp hnum))).1]
  exact ht hnum

variable (hnum : Numbering numbers serve)
include hnum

theorem copyIntoDestination_wp (hs : numbers → (s.file fp).forkid ≠ 0) :
    Wp serve (copyIntoDestination vol fpIn fp src dst) s v fun _ u _ =>
      Touches numbers n fp s u := by
  refine wp_send.2 fun _ _ v _ => .ite (fun _ => (Copying.refl numbers n fp s).lost) fun _ => ?_
  have h := (Copying.refl numbers n fp s).only ((refl fp s).update
    (f := { s.file fp with forkid := 0 }) rfl)
  refine (replaceDestination_leaves.wp (Nat.le_trans hn h.nextFile) v).bind fun a t v ht => ?_
  have h := h.still hfp ht
  refine (ensureDestination_leaves.wp (Nat.le_trans hn h.nextFile) v).bind
    fun named t' v ht' => ?_
  have h := h.still hfp ht'
  match named with
  | none => exact h.lost
  | some found =>
    have h := h.only ((refl fp t').update (f := { t'.file fp with cnid := 0 }) rfl)
    refine (openforkInto_opens hnum).bind fun rc u _ hu => ?_
    have h := h.only hu.1
    refine .ite (fun _ => h.lost) fun hrc => ?_
    exact copyReopened_wp hn hfp h hs (hu.2 (by simpa using hrc))

theorem copyRangeOnServer_wp :
    Wp serve (copyRangeOnServer vol fpIn offIn fp offOut len) s v
      fun _ u _ => Touches numbers n fp s u := by
  have hstay : Touches numbers n fp s s := (Still.refl n s).touches hfp
  refine .guard hstay fun hq => ?_
  have hs : (s.file fp).forkid ≠ 0 := by
    intro h
    simp [copyQualifies, h] at hq
  refine (otherForkOpen_leaves.wp hn v).bind fun _ t v ht => ?_
  refine .guard (ht.touches hfp) fun _ => ?_
  refine (forkStillNamed_leaves.wp (Nat.le_trans hn ht.nextFile) v).bind
    fun r u v hu => ?_
  have hu := ht.trans hu
  match r with
  | none => exact wp_ret.2 (hu.touches hfp)
  | some src =>
    refine .guard (hu.touches hfp) fun _ => ?_
    refine (forkStillNamed_leaves.wp (Nat.le_trans hn hu.nextFile) v).bind
      fun r w v hw => ?_
    have hw := hu.trans hw
    match r with
    | none => exact wp_ret.2 (hw.touches hfp)
    | some dst =>
      refine .guard (hw.touches hfp) fun _ => ?_
      refine (copyIntoDestination_wp (Nat.le_trans hn hw.nextFile) hfp hnum fun hnum => ?_).mono
        fun _ _ _ h => h.after hfp hw
      rwa [(forkid_of_identity (hw.records fp (hfp hnum))).1]

theorem mlCopyRange_wp :
    Wp serve (mlCopyRange vol fpIn offIn fp offOut len) s v
      fun _ u _ => Touches numbers n fp s u := by
  have hstay : Touches numbers n fp s s := (Still.refl n s).touches hfp
  refine .guard hstay fun _ => .guard hstay fun _ => ?_
  refine .guard hstay fun _ => ?_
  refine (copyRangeOnServer_wp hn hfp hnum).bind fun copied t v ht => ?_
  have hend : ∀ {copied : Int} {t : MlState} {v : V}, Touches numbers n fp s t →
      Wp serve (do
        let f ← Ml.getFile fp
        if 0 < copied ∧ f.sync then
          let rc ← mlFsync vol fp
          return if rc < 0 then rc else copied
        else return copied) t v fun _ u _ => Touches numbers n fp s u := by
    intro copied t v ht
    refine wp_getFile.2 (.ite (fun _ => wp_bind.2 ?_) fun _ => wp_ret.2 ht)
    exact (mlFsync_leaves.wp (Nat.le_trans hn ht.nextFile) v).mono fun _ _ _ hu =>
      wp_ret.2 (ht.still hfp hu)
  refine .ite (fun _ => wp_bind.2 ?_) fun _ => hend ht
  exact (copyRangeThroughClient_leaves.wp (Nat.le_trans hn ht.nextFile) v).mono fun _ _ _ hu =>
    hend (ht.still hfp hu)

end Copy

end Opens

end NC
