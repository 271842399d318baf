import NetatalkClient.Proof.Midlevel.Transfers
import NetatalkClient.Proof.Names.Absolute

/-!
# A link's target comes back

`ml_symlink` stores the converted target in the data fork of a new file (`mlSymlink_stores`), and
`ml_readlink` converts what it reads as one name, which shows every separator as a colon. The slashes
that this took are put back by counting (`restoreLinkSeparators_eq`): the conversions keep the
separators of a string, in their order (`separators_sent`). So a target that the conversions bring
back comes back (`readlink_of_symlink`).
-/

namespace NC

open List Function Option Prog ForkServer

/-! ## Separators -/

/-- The bytes that `restore_link_separators` counts. -/
def isSeparator (c : UInt8) : Bool := c == colon || c == slash

theorem slashToColon_cons (c : UInt8) (b : Bytes) :
    slashToColon (c :: b) = (if c = slash then colon else c) :: slashToColon b := rfl

theorem count_colon_slashToColon (b : Bytes) :
    (slashToColon b).count colon = (b.filter isSeparator).length := by
  induction b with
  | nil => rfl
  | cons c b ih =>
    rw [slashToColon_cons]
    by_cases hs : c = slash
    · rw [if_pos hs, count_cons_self, ih, filter_cons_of_pos (by simp [isSeparator, hs]),
        length_cons]
    · rw [if_neg hs]
      by_cases hc : c = colon
      · rw [hc, count_cons_self, ih, filter_cons_of_pos (by decide), length_cons]
      · rw [count_cons_of_ne hc, ih, filter_cons_of_neg (by simp [isSeparator, hs, hc])]

theorem restoreSlashes_slashToColon (b : Bytes) :
    restoreSlashes (slashToColon b) (b.filter isSeparator) = b := by
  induction b with
  | nil => rfl
  | cons c b ih =>
    rw [slashToColon_cons]
    by_cases hs : c = slash
    · rw [if_pos hs, filter_cons_of_pos (by simp [isSeparator, hs]), restoreSlashes,
        if_pos rfl, head?_cons, tail_cons, ih, hs, if_pos rfl]
    · rw [if_neg hs]
      by_cases hc : c = colon
      · rw [filter_cons_of_pos (by simp [isSeparator, hc]), restoreSlashes, if_pos hc,
          head?_cons, tail_cons, ih, if_neg (by rw [some.injEq]; exact hs)]
      · rw [filter_cons_of_neg (by simp [isSeparator, hs, hc]), restoreSlashes, if_neg hc, ih]

/-- Slashes come back from a string with the same separators. -/
theorem restoreLinkSeparators_eq {b src : Bytes}
    (h : src.filter isSeparator = b.filter isSeparator) :
    restoreLinkSeparators (slashToColon b) src = b := by
  show (if (slashToColon b).count colon = (src.filter isSeparator).length then
    restoreSlashes (slashToColon b) (src.filter isSeparator) else slashToColon b) = b
  rw [h, if_pos (count_colon_slashToColon b), restoreSlashes_slashToColon]

theorem filter_separator_utf8 {cs : List Char} (h : ∀ c ∈ cs, c.toNat ≠ 0x2f ∧ c.toNat ≠ 0x3a) :
    (utf8 cs).filter isSeparator = [] := by
  have hslash : slash ∉ utf8 cs := not_mem_utf8 (by decide) fun c hc => (h c hc).1
  have hcolon : colon ∉ utf8 cs := not_mem_utf8 (by decide) fun c hc => (h c hc).2
  rw [filter_eq_nil_iff]
  intro b hb
  simp only [isSeparator, Bool.or_eq_true, beq_iff_eq, not_or]
  exact ⟨ne_of_mem_of_not_mem hb hcolon, ne_of_mem_of_not_mem hb hslash⟩

theorem separators_decomposed {cs : List Char} (h : Bmp cs) :
    (utf8 (decomposed cs)).filter isSeparator = (utf8 cs).filter isSeparator := by
  rw [decomposed_eq]
  induction cs with
  | nil => rfl
  | cons c cs ih =>
    have hrest : Bmp cs := fun c hc => h c (mem_cons_of_mem _ hc)
    have hc := h.ucs2 c.toNat (by simp)
    rw [flatMap_cons, utf8_append, utf8_cons, filter_append, filter_append, ih hrest]
    congr 1
    by_cases hsep : c.toNat = 0x2f ∨ c.toNat = 0x3a
    · rw [decomposeChar_ascii (by omega), ofCodes, map_singleton, Char.ofNat_toNat, utf8_cons,
        utf8_nil, append_nil]
    · rw [not_or] at hsep
      have hself : String.utf8EncodeChar c = utf8 [c] := by simp
      have hnone : (utf8 [c]).filter isSeparator = [] := filter_separator_utf8 (by simpa using hsep)
      rw [hself, hnone]
      exact filter_separator_utf8 fun x hx =>
        ⟨separator_decomposed (.inl rfl) hc hsep.1 x hx, separator_decomposed (.inr rfl) hc hsep.2 x hx⟩

theorem separators_sent {cs : List Char} (h0 : ∀ c ∈ cs, c.toNat ≠ 0) :
    (utf8 (sent cs)).filter isSeparator = (utf8 cs).filter isSeparator := by
  rw [sent]
  split
  · rfl
  · next h => exact separators_decomposed (bmp_of_not_supplementary h0 h)

/-! ## The target as it is shown -/

/-- A volume with UTF-8 names and the conversions of `codepage.c`. -/
structure Utf8Volume (heap : Nat → Bool) (vol : ServedVolume) : Prop where
  encoding : vol.pathEncoding = .utf8Name
  toAfp : vol.convertPath = convertPathToAfpAlloc heap .utf8Name
  toUnix : vol.pathToUnix = convertPathToUnix heap .utf8Name

/-- A target that the conversions bring back. -/
def ComesBack (cs : List Char) : Prop := cs.any supplementary ∨ precomposed (decomposed cs) = cs

variable {heap : Nat → Bool} {vol : ServedVolume} {cs : List Char} {size : Nat}
variable (hvol : Utf8Volume heap vol) (hm : Memory heap) (h0 : ∀ c ∈ cs, c.toNat ≠ 0)
  (hback : ComesBack cs) (hsize : size ≤ intMax) (ht : (utf8 cs).length < size)
  (hd : (utf8 (sent cs)).length < size)

theorem convertPathToAfpAlloc_sent (h0 : ∀ c ∈ cs, c.toNat ≠ 0) {q : Path}
    (h : convertPathToAfpAlloc heap .utf8Name (utf8 cs) = .ok q) : q = utf8 (sent cs) := by
  have hnul : 0 ∉ utf8 cs := not_mem_utf8 (by decide) h0
  obtain ⟨cs', h0', he, rfl⟩ := convertPathToAfp_some hnul (convertPathToAfpAlloc_ok h).1
  exact (sent_congr h0 h0' he).symm

theorem sent_ne_nul (h0 : ∀ c ∈ cs, c.toNat ≠ 0) : ∀ c ∈ sent cs, c.toNat ≠ 0 := by
  rw [sent]
  split
  · exact h0
  · next h =>
    have hb := bmp_of_not_supplementary h0 h
    exact fun c hc => (bmp_ofCodes (decomposeChar_ucs2 hb.ucs2) c hc).1

include hm h0 hback hsize ht hd

theorem convertNameToUnix_sent :
    convertNameToUnix heap .utf8Name (utf8 (sent cs)) size = some (slashToColon (utf8 cs)) := by
  by_cases h : cs.any supplementary
  · rw [sent_supplementary h]
    exact convertNameToUnix_supplementary h0 h (by omega) hsize ht
  · have hb := bmp_of_not_supplementary h0 h
    have hpre : precomposed (decomposed cs) = cs := hback.resolve_left h
    rw [sent_bmp hb] at hd ⊢
    have hdec : Bmp (decomposed cs) := bmp_ofCodes (decomposeChar_ucs2 hb.ucs2)
    have := convertNameToUnix_bmp hm hdec (by omega) hsize (by rwa [hpre])
    rwa [hpre] at this

include hvol

theorem shownTarget_sent : shownTarget vol (utf8 (sent cs)) size = utf8 cs := by
  have hbuf : vol.pathToUnix (utf8 (sent cs)) size = slashToColon (utf8 cs) := by
    rw [hvol.toUnix, convertPathToUnix, take_of_length_le (Nat.le_of_lt hd),
      convertNameToUnix_sent hm h0 hback hsize ht hd, getD_some]
  have hnil : slashToColon (utf8 cs) = [] → utf8 (sent cs) = [] := by
    intro h
    have hempty : utf8 cs = [] := map_eq_nil_iff.1 h
    obtain rfl : cs = [] := by
      have := length_le_utf8 cs
      rw [hempty] at this
      exact length_eq_zero_iff.1 (Nat.le_zero.1 this)
    rfl
  rw [shownTarget, hbuf]
  rw [if_neg (fun h => h.2 (hnil h.1)), restoreLinkSeparators_eq (separators_sent h0)]

omit hvol hm h0 hback hsize ht hd

/-! ## What a link's file holds -/

/-- The file at the path holds the target, and the server has a fork number to give. -/
def HoldsLink (vol : ServedVolume) (dirOf : Path → Except Int (Nat × Name)) (p : Path)
    (target : Bytes) (v : ForkServer) : Prop :=
  ∃ converted did name i n, vol.convertPath p = .ok converted ∧ dirOf converted = .ok (did, name) ∧
    v.named did (vol.wireName name) = some i ∧ v.bytes i false = target ∧ v.opened n = none

variable {dirOf : Path → Except Int (Nat × Name)} {s : MlState} {v : ForkServer} {did i : Nat}
  {name : Name} {target : Bytes}

theorem overwrite_nil (data : Bytes) : overwrite [] 0 data = data := by
  simp [overwrite]

theorem symlinkWriteErrno_eq_zero {rc : Int} {written length : Nat}
    (h : symlinkWriteErrno rc written length = 0) : rc = kFPNoErr := by
  unfold symlinkWriteErrno at h
  split_ifs at h with hrc
  · exact hrc
  all_goals exact absurd h (by decide)

variable {accessmode bitmap fp : Nat} {Q : Int → MlState → ForkServer → Prop} {r : Request}
  {c : ForkChoice} {p : Path}

theorem openforkInto_wp {serve' : ForkServer → (r : MlReq) → ForkChoice → Option (r.Ans × ForkServer)}
    (hserve : ∀ {v r c x}, serve' v (.sys r) c = some x → v.serve (.sys r) c = some x)
    (hfail : ∀ rc reply s' v' c v₁, rc ≠ kFPNoErr → serve' v
      (.sys (.openFork false did bitmap accessmode (vol.wireName name))) c = some ((rc, reply), v₁) →
      Q rc s' v')
    (hok : ∀ s' n i (hi : i ∈ v.used), (s'.file fp).forkid = n →
      v.named did (vol.wireName name) = some i → v.opened n = none →
      Q kFPNoErr s' (v.openFork n i false hi)) :
    Wp serve' (openforkInto vol false did accessmode bitmap name fp) s v Q := by
  unfold openforkInto
  rw [wp_bind]
  refine wp_send.2 fun c ⟨rc, reply⟩ v₁ hs => wp_ret.2 ?_
  obtain ⟨hrc, -⟩ | ⟨rfl, i, hi, hnamed, hnone, rfl, -⟩ := serve_openFork (hserve hs)
  · exact .ite (fun _ => wp_modifyFile.2 (wp_ret.2 (hfail _ _ _ _ _ _ hrc hs))) fun _ =>
      wp_ret.2 (hfail _ _ _ _ _ _ hrc hs)
  · refine .ite (fun _ => wp_modifyFile.2 (wp_ret.2 (hok _ _ i hi ?_ hnamed hnone))) fun hne =>
      absurd (.inl rfl) hne
    show (update s.file fp (reply.store (s.file fp)) fp).forkid = reply.forkid
    rw [update_self]
    rfl

theorem serveIn_sys {x : r.Ans × ForkServer} (h : v.serveIn dirOf (.sys r) c = some x) :
    v.serve (.sys r) c = some x := h

/-- A new file that becomes a link holds the target. -/
theorem symlinkFinish_stores (hnamed : v.named did (vol.wireName name) = some i)
    (hempty : v.bytes i false = []) :
    Wp (serveIn dirOf) (symlinkFinish vol target did name) s v fun ret _ v' => ret = 0 →
      v'.named did (vol.wireName name) = some i ∧ v'.bytes i false = target ∧
        ∃ n, v'.opened n = none := by
  -- a link that cannot be finished is deleted, and its errno returned
  have hdeleted {ret : Int} (hret : ret ≠ 0) (s' : MlState) (v' : ForkServer) :
      Wp (serveIn dirOf) (do
        let _ ← Ml.afpDelete vol did name
        return -ret) s' v' fun ret _ v' => ret = 0 →
          v'.named did (vol.wireName name) = some i ∧ v'.bytes i false = target ∧
            ∃ n, v'.opened n = none := by
    rw [wp_bind]
    refine wp_send.2 fun c a v'' _ => wp_ret.2 (wp_ret.2 fun h => ?_)
    exact absurd (Int.neg_eq_zero.1 h) hret
  unfold symlinkFinish
  rw [wp_newFile, wp_bind]
  refine openforkInto_wp serveIn_sys (fun rc _ s₁ v₁ _ _ hrc _ => ?_) fun s₁ n j hj hforkid hj' hnone => ?_
  · have hret : llOpenforkErrno rc ≠ 0 := fun h => hrc (llOpenforkErrno_eq_zero.1 h)
    refine .ite (fun _ => wp_ret.2 fun h => absurd (Int.neg_eq_zero.1 h) hret) fun _ => ?_
    exact .ite (fun _ => hdeleted hret _ _) fun h => absurd hret h
  · obtain rfl : j = i := some.inj (hj'.symm.trans hnamed)
    show Wp _ (Ml.getFile _ >>= _) _ _ _
    rw [wp_getFile, wp_bind]
    show Wp _ (Ml.afpWrite (s₁.file s.nextFile).forkid 0 target) _ _ _
    rw [hforkid]
    refine wp_send.2 fun c ⟨rc, written⟩ v₂ hwrite => wp_ret.2 ?_
    have hstored := serve_write (openFork_opened_self hj) (serveIn_sys hwrite)
    rw [wp_bind]
    refine wp_send.2 fun c closed v₃ hclose => wp_ret.2 ?_
    rw [wp_bind]
    refine wp_modify.2 (.ite (fun hret => ?_) fun hret => ?_)
    · exact .ite (fun _ => hdeleted hret _ _) fun h => absurd hret h
    obtain ⟨-, hne⟩ | ⟨hv₂, -⟩ := hstored
    · exact absurd (symlinkWriteErrno_eq_zero (not_not.1 hret)) hne
    refine .ite (fun _ => ?_) fun hclosed => ?_
    · rw [pure_eq, ret_bind]
      exact .ite (fun hret => hdeleted hret _ _) fun h => absurd (by decide) h
    have hv₃ : v₃ = v₂.close n :=
      (serve_closeFork (serveIn_sys hclose)).resolve_left fun h => hclosed h.2
    rw [wp_bind, setParameters, if_neg (by decide), wp_bind]
    refine wp_send.2 fun c set v₄ hset => wp_ret.2 (wp_ret.2 ?_)
    have hv₄ : v₄ = v₃ := serve_inert rfl (serveIn_sys hset)
    refine .ite (fun hret => hdeleted hret _ _) fun _ => wp_ret.2 fun _ => ?_
    rw [hv₄, hv₃, hv₂]
    refine ⟨hnamed, ?_, n, update_self ..⟩
    rw [close_bytes, store_bytes_self, openFork_bytes, hempty, overwrite_nil]

/-- `ml_symlink` that succeeds leaves a file with the converted target at the path. -/
theorem mlSymlink_stores (hdir : ∀ p, NegError (dirOf p)) {t : Path}
    (ht : vol.convertPath t = .ok target) :
    Wp (serveIn dirOf) (mlSymlink vol t p) s v fun ret _ v' =>
      ret = 0 → HoldsLink vol dirOf p target v' := by
  have hneg {e : Int} (he : e ≠ 0) (s' : MlState) (v' : ForkServer) :
      Wp (serveIn dirOf) (ret e : MlCall Int) s' v' fun ret _ v' =>
        ret = 0 → HoldsLink vol dirOf p target v' :=
    wp_ret.2 fun h => absurd h he
  refine .ite (fun _ => hneg (by decide) _ _) fun _ => ?_
  rw [ht]
  dsimp only
  split
  · next e he => exact hneg (Int.ne_of_lt (vol.convertPath_neg _ _ he)) _ _
  next converted hp =>
  refine .ite (fun _ => hneg (by decide) _ _) fun _ => ?_
  rw [wp_bind]
  intro cs ret s₁ v₁ cs' _
  refine .ite (fun hret => hneg (Int.ne_of_lt hret) _ _) fun _ => ?_
  rw [wp_bind]
  refine wp_send.2 fun c found v₂ hfound => wp_ret.2 ?_
  cases hfound
  split
  · next e he => exact hneg (Int.ne_of_lt (hdir converted e he)) _ _
  next did name hname =>
  rw [wp_bind, llCreatefile, wp_bind]
  refine wp_send.2 fun c rc v₃ hcreate => wp_ret.2 (wp_ret.2 (.ite (fun hret => hneg hret _ _) ?_))
  intro hret
  have hrc : rc = kFPNoErr := createfileErrno_eq_zero.1 (not_not.1 hret)
  obtain ⟨-, hne⟩ | ⟨-, -, rfl⟩ := serve_createFile (serveIn_sys hcreate)
  · exact absurd hrc hne
  refine (symlinkFinish_stores create_named_self (by simp)).mono fun ret _ v₄ h hret => ?_
  obtain ⟨hnamed, hbytes, n, hn⟩ := h hret
  exact ⟨converted, did, name, _, n, hp, hname, hnamed, hbytes, hn⟩

/-! ## Reading it -/

theorem grantIn_sys {a : r.Ans} {v' : ForkServer} (h : v.grantIn dirOf (.sys r) c = some (a, v')) :
    v.fulfils r a = true ∧ v.serve (.sys r) c = some (a, v') := by
  rw [grantIn] at h
  split at h
  · next hf => exact ⟨serve_answer h ▸ hf, h⟩
  · cases h

include hvol hm h0 hback hsize ht hd in
/-- `ml_readlink` of a link whose target the conversions bring back. -/
theorem mlReadlink_shows (hlink : HoldsLink vol dirOf p (utf8 (sent cs)) v) :
    Wp (grantIn dirOf) (mlReadlink vol p size) s v fun x _ _ => x = .ok (utf8 cs) := by
  obtain ⟨converted, did, name, i, -, hp, hname, hnamed, hbytes, -⟩ := hlink
  unfold mlReadlink
  rw [if_neg (by rw [not_or]; exact ⟨by omega, Nat.not_lt.2 hsize⟩), wp_bind]
  refine wp_send.2 fun c ok v₁ halloc => wp_ret.2 ?_
  obtain ⟨hok, halloc⟩ := grantIn_sys halloc
  obtain rfl : ok = true := hok
  obtain rfl : v₁ = v := serve_inert rfl halloc
  simp only [Bool.not_true, Bool.false_eq_true, if_false]
  rw [hp]
  rw [wp_bind]
  refine wp_send.2 fun c found v₂ hfound => wp_ret.2 ?_
  cases hfound
  rw [hname]
  rw [wp_newFile, wp_bind]
  refine openforkInto_wp (fun h => (grantIn_sys h).2) (fun rc _ _ _ _ _ hrc hs => ?_)
    fun s₁ n j hj hforkid hj' hnone => ?_
  · exact absurd (beq_iff_eq.1 (grantIn_sys hs).1) hrc
  obtain rfl : j = i := some.inj (hj'.symm.trans hnamed)
  show Wp _ (Ml.getFile _ >>= _) _ _ _
  show Wp _ (Ml.afpRead (s₁.file s.nextFile).forkid 0 size >>= _) _ _ _
  rw [hforkid, wp_bind, Ml.afpRead, wp_bind]
  refine wp_send.2 fun c ⟨rc, data⟩ v₃ hread => wp_ret.2 (wp_ret.2 ?_)
  obtain ⟨hwhole, hread⟩ := grantIn_sys hread
  simp only [fulfils, openFork_opened_self, Bool.and_eq_true, Bool.or_eq_true, beq_iff_eq,
    openFork_bytes, hbytes, drop_zero] at hwhole
  obtain ⟨hrc, rfl⟩ := hwhole
  rw [wp_bind]
  refine wp_send.2 fun c closed v₄ hclose => wp_ret.2 ?_
  obtain rfl : closed = kFPNoErr := beq_iff_eq.1 (grantIn_sys hclose).1
  rw [wp_bind]
  have herrno : readlinkErrno rc = 0 := by
    obtain rfl | rfl := hrc <;> decide
  refine wp_modify.2 (.ite (fun h => absurd herrno h) fun _ => ?_)
  refine .ite (fun h => absurd rfl h) fun _ => wp_ret.2 ?_
  have hlink : (((utf8 (sent cs)).take size).take size).takeWhile (· != 0) = utf8 (sent cs) := by
    have hnul : 0 ∉ utf8 (sent cs) := not_mem_utf8 (by decide) (sent_ne_nul h0)
    rw [take_of_length_le (Nat.le_of_lt hd), take_of_length_le (Nat.le_of_lt hd)]
    exact takeWhile_eq_self_iff.2 fun b hb => by simpa using ne_of_mem_of_not_mem hb hnul
  rw [hlink, shownTarget_sent hvol hm h0 hback hsize ht hd]

/-- An answer that has what was asked for can be given. -/
theorem exists_grantIn {r : Request} {a : r.Ans} {node number : Nat} {v' : ForkServer}
    (hf : v.fulfils r a = true) (ht : v.tells r a = true)
    (hc : v.carryOut node (forkNumber number r a) r = some v') :
    ∃ c, v.grantIn dirOf (.sys r) c = some (a, v') := by
  refine ⟨⟨update (fun _ => default) (.sys r) a, true, node, number⟩, ?_⟩
  simp [grantIn, serve, hf, ht, hc]

theorem openforkInto_may {n : Nat}
    (hnamed : v.named did (vol.wireName name) = some i) (hn : v.opened n = none)
    (h : ∀ s' (hi : i ∈ v.used), (s'.file fp).forkid = n → Q kFPNoErr s' (v.openFork n i false hi)) :
    May (grantIn dirOf) (openforkInto vol false did accessmode bitmap name fp) s v Q := by
  obtain ⟨c, hopen⟩ := @exists_grantIn dirOf v
    (.openFork false did bitmap accessmode (vol.wireName name)) (kFPNoErr, ⟨n, none, none⟩) 0 0 _ rfl
    (by simp [tells, hnamed]) (carryOut_openFork.2 ⟨i, hnamed, hn, rfl⟩)
  refine may_bind (may_send hopen (may_ret ?_))
  dsimp only
  refine may_atom (may_ret (h _ _ ?_))
  show (update s.file fp _ fp).forkid = n
  rw [update_self]
  rfl

/-- A server that grants what it is asked can answer `ml_readlink` to its end. -/
theorem mlReadlink_may (hpos : 0 < size) (hsize : size ≤ intMax)
    (hlink : HoldsLink vol dirOf p target v) :
    May (grantIn dirOf) (mlReadlink vol p size) s v fun _ _ _ => True := by
  obtain ⟨converted, did, name, i, n, hp, hname, hnamed, -, hn⟩ := hlink
  unfold mlReadlink
  rw [if_neg (by rw [not_or]; exact ⟨by omega, Nat.not_lt.2 hsize⟩)]
  obtain ⟨c, halloc⟩ := @exists_grantIn dirOf v .alloc true 0 0 v rfl rfl rfl
  refine may_bind (may_send halloc (may_ret ?_))
  rw [hp]
  have hfound : v.grantIn dirOf (.did (.getDirid converted)) c = some (.ok (did, name), v) := by
    rw [← hname]
    rfl
  refine may_bind (may_send hfound (may_ret (may_bind (may_atom (may_ret ?_)))))
  refine may_bind (openforkInto_may hnamed hn fun s₁ hi hforkid => ?_)
  show May _ (Ml.afpRead (s₁.file s.nextFile).forkid 0 size >>= _) _ _ _
  rw [hforkid]
  obtain ⟨c, hread⟩ := @exists_grantIn dirOf (v.openFork n i false hi) (.read n 0 size)
    (kFPNoErr, (v.bytes i false).take size) 0 0 _
    (by simp [fulfils]) (by simp [tells, take_prefix]) rfl
  refine may_bind (may_bind (may_send hread (may_ret (may_ret ?_))))
  obtain ⟨c, hclose⟩ := @exists_grantIn dirOf (v.openFork n i false hi) (.closeFork n) kFPNoErr 0 0 _
    rfl rfl rfl
  refine may_bind (may_send hclose (may_ret (may_atom ?_)))
  exact may_ret trivial

/-- After a link is made, on a server that stores its data fork exactly and answers every request of
`ml_readlink` with what was asked for, `ml_readlink` can be answered to its end, and returns the
target whatever the rest of the answers. -/
theorem readlink_of_symlink (hvol : Utf8Volume heap vol) (hm : Memory heap)
    (hdir : ∀ p, NegError (dirOf p)) (h0 : '\x00' ∉ cs) (hback : ComesBack cs)
    (hsize : size ≤ intMax) (ht : (utf8 cs).length < size) (hd : (utf8 (sent cs)).length < size)
    {p : Path} {s' : MlState} {v' : ForkServer} {choices rest : List ForkChoice}
    (hmade : run (serveIn dirOf) (mlSymlink vol (utf8 cs) p) s v choices = some (0, s', v', rest)) :
    Wp (grantIn dirOf) (mlReadlink vol p size) s' v' (fun x _ _ => x = .ok (utf8 cs)) ∧
      May (grantIn dirOf) (mlReadlink vol p size) s' v' fun _ _ _ => True := by
  have h0 : ∀ c ∈ cs, c.toNat ≠ 0 := fun c hm e => h0 (eq_of_toNat_eq (d := '\x00') e ▸ hm)
  have hlink : HoldsLink vol dirOf p (utf8 (sent cs)) v' := by
    cases htarget : vol.convertPath (utf8 cs) with
    | error e =>
      -- without a converted target the call fails
      have hfails : Wp (serveIn dirOf) (mlSymlink vol (utf8 cs) p) s v fun ret _ _ => ret ≠ 0 := by
        unfold mlSymlink
        rw [htarget]
        exact .guard (by decide) fun _ =>
          wp_ret.2 (Int.ne_of_lt (vol.convertPath_neg _ _ htarget))
      exact absurd rfl (hfails choices 0 s' v' rest hmade)
    | ok target =>
      rw [← convertPathToAfpAlloc_sent h0 (hvol.toAfp ▸ htarget)]
      exact mlSymlink_stores hdir htarget choices 0 s' v' rest hmade rfl
  exact ⟨mlReadlink_shows hvol hm h0 hback hsize ht hd hlink, mlReadlink_may (by omega) hsize hlink⟩

/-- A volume with UTF-8 names and memory for every conversion. -/
def linkVolume : ServedVolume :=
  { plainServed with
    convertPath := convertPathToAfpAlloc (fun _ => true) .utf8Name
    convertPath_neg := fun _ _ => convertPathToAfpAlloc_neg
    pathToUnix := convertPathToUnix (fun _ => true) .utf8Name }

theorem linkVolume_utf8 : Utf8Volume (fun _ => true) linkVolume := ⟨rfl, rfl, rfl⟩

/-- A server without a file. -/
def noFiles : ForkServer where
  named _ _ := none
  bytes _ _ := []
  used := []
  opened _ := none
  named_used := nofun
  opened_used := nofun

/-- Success, with as many bytes written as the target has. -/
def linkChoice (written : Nat) : ForkChoice where
  answer
    | .sys (.write ..) => (kFPNoErr, written)
    | _ => default

/-- The link `/l` is made, its target having so many bytes. -/
def linkMade (target : List Char) (bytes : Nat) :=
  run (serveIn fun _ => .ok (2, [0x6c])) (mlSymlink linkVolume (utf8 target) [slash, 0x6c]) .fresh noFiles
    (List.replicate 6 (linkChoice bytes))

/-- A character beyond UCS-2 between a slash and a colon. -/
theorem readlink_of_symlink_supplementary :
    ∃ s' v' rest, linkMade ['/', '😀', ':'] 6 = some (0, s', v', rest) ∧
      Wp (grantIn fun _ => .ok (2, [0x6c])) (mlReadlink linkVolume [slash, 0x6c] 7) s' v'
        (fun x _ _ => x = .ok (utf8 ['/', '😀', ':'])) ∧
      May (grantIn fun _ => .ok (2, [0x6c])) (mlReadlink linkVolume [slash, 0x6c] 7) s' v'
        fun _ _ _ => True := by
  have hmade : (linkMade ['/', '😀', ':'] 6).map Prod.fst = some 0 := by decide +kernel
  obtain ⟨⟨ret, s', v', rest⟩, hrun, rfl⟩ := map_eq_some_iff.1 hmade
  have hback : ComesBack ['/', '😀', ':'] := .inl (by decide)
  exact ⟨s', v', rest, hrun, readlink_of_symlink linkVolume_utf8 (fun _ => rfl) (fun _ => negError_ok _)
    (by decide) hback (by decide) (by decide) (by decide) hrun⟩

/-- A buffer of more than `INT_MAX` bytes is refused, whatever the link. -/
theorem readlink_refuses_large_buffer :
    ∃ s' v' rest, linkMade ['a'] 1 = some (0, s', v', rest) ∧
      (utf8 ['a']).length < 2147483648 ∧ (utf8 (sent ['a'])).length < 2147483648 ∧
      ComesBack ['a'] ∧
      Wp (grantIn fun _ => .ok (2, [0x6c])) (mlReadlink linkVolume [slash, 0x6c] 2147483648) s' v'
        fun x _ _ => x = .error (-ENAMETOOLONG) := by
  have hmade : (linkMade ['a'] 1).map Prod.fst = some 0 := by decide +kernel
  obtain ⟨⟨ret, s', v', rest⟩, hrun, rfl⟩ := map_eq_some_iff.1 hmade
  have hbmp : Bmp ['a'] := by
    intro c hc
    rw [mem_singleton.1 hc]
    decide
  have hdec : decomposed ['a'] = ['a'] := decomposed_ascii (by decide)
  have hback : ComesBack ['a'] := .inr (by rw [hdec]; exact precomposed_ascii hbmp (by decide))
  refine ⟨s', v', rest, hrun, by decide, by rw [sent_bmp hbmp, hdec]; decide, hback, ?_⟩
  unfold mlReadlink
  exact wp_ret.2 rfl

end NC
