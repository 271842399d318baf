import NetatalkClient.Proof.Midlevel.Bystanders

/-!
# What a copy leaves in the destination

`ml_copy_range` between the handles of two files, on a server that carries out each request
wholly or not at all (`ForkServer`). Through the client, each turn of the loop appends what it
read to what was copied (`copyLoop_copies`). On the server, the destination's empty file is
deleted and a copy of the source takes its name: `AtName` says which file can be at the name
when the fork is opened again, and `copyIntoDestination_outcome` what follows from it for each
way to end.
-/

namespace NC

open List OnlyRecord Prog ForkServer

/-- The handle at `fp` is on the file `i`: the fork of its number is that file's, and a node ID
that it holds is the file's. -/
structure OnFile (v : ForkServer) (s : MlState) (fp i : Nat) : Prop where
  opened : (s.file fp).forkid ≠ 0 →
    v.opened (s.file fp).forkid = some (i, (s.file fp).resource != .none)
  known : (s.file fp).cnid ≠ 0 → (s.file fp).cnid = i

/-- The bytes of `dst` from `offOut` on are the `n` bytes of `src` from `offIn` on. -/
def Copied (src dst : Bytes) (offIn offOut n : Nat) : Prop :=
  ∀ k < n, offIn + k < src.length ∧ dst[offOut + k]? = src[offIn + k]?

/-! ## Through the client -/

variable {vol : ServedVolume} {fpIn fpOut i j : Nat} {offIn offOut : Int} {s : MlState}
  {v v' : ForkServer}

theorem Copied.none {src dst : Bytes} {offIn offOut : Nat} : Copied src dst offIn offOut 0 :=
  fun _ h => absurd h (Nat.not_lt_zero _)

/-- What was copied is not overwritten by what follows, and what was read is copied. -/
theorem Copied.next {src data : Bytes} {resource : Bool} {off offOut copied total : Nat}
    (h : Copied src (v.bytes j resource) off offOut copied) (hd : data <+: src.drop (off + copied))
    (hst : Stores v v' j resource (offOut + copied) data total) :
    Copied src (v'.bytes j resource) off offOut (copied + total) := by
  intro k hk
  by_cases hlt : k < copied
  · obtain ⟨hsrc, hget⟩ := h k hlt
    have hlen : offOut + k < (v.bytes j resource).length := by
      rw [List.getElem?_eq_getElem hsrc] at hget
      exact (List.getElem?_eq_some_iff.1 hget).1
    exact ⟨hsrc, (hst.kept _ (by omega) hlen).trans hget⟩
  · have htotal : k - copied < total := by omega
    have hdata : k - copied < data.length := Nat.lt_of_lt_of_le htotal hst.total_le
    have hlen := hd.length_le
    rw [length_drop] at hlen
    have hread : data[k - copied]? = src[off + k]? := by
      obtain ⟨rest, hrest⟩ := hd
      rw [show off + k = off + copied + (k - copied) by omega, ← getElem?_drop, ← hrest,
        getElem?_append_left hdata]
    refine ⟨by omega, ?_⟩
    rw [← hread, ← hst.stored _ htotal, show offOut + copied + (k - copied) = offOut + k by omega]

/-- What the loop has copied so far into the fork of the number given, and what it has left of
the server. -/
structure Copies (vol : ServedVolume) (fork : Nat) (v v' : ForkServer) (i j : Nat)
    (resIn resOut : Bool) (offIn offOut : Int) (n : Nat) : Prop extends Beside v v' j where
  positive : 0 < n → fork ≠ 0 ∧ 0 ≤ offIn
  fits : uint64 offOut + n < 2 ^ 64
  below : 0 < n → vol.avNumber < 30 → uint64 offOut ≤ maxAfp2Filesize
  copied : Copied (v.bytes i resIn) (v'.bytes j resOut) offIn.toNat (uint64 offOut) n

/-- Both handles are of forks: each has one, of the file given, or none. -/
structure BothOpen (v : ForkServer) (s : MlState) (fpIn fpOut i j : Nat) (resIn resOut : Bool) :
    Prop where
  distinct : i ≠ j
  belowIn : fpIn < s.nextFile
  belowOut : fpOut < s.nextFile
  kindIn : (s.file fpIn).resource = .none ∨ (s.file fpIn).resource = .resource
  kindOut : (s.file fpOut).resource = .none ∨ (s.file fpOut).resource = .resource
  openIn : (s.file fpIn).forkid ≠ 0 → v.opened (s.file fpIn).forkid = some (i, resIn)
  openOut : (s.file fpOut).forkid ≠ 0 → v.opened (s.file fpOut).forkid = some (j, resOut)

variable {resIn resOut : Bool} {len fork : Nat}

theorem BothOpen.still {u : MlState} (h : BothOpen v s fpIn fpOut i j resIn resOut)
    (hu : Still s.nextFile s u) (hv : v'.opened = v.opened) :
    BothOpen v' u fpIn fpOut i j resIn resOut := by
  have hin := forkid_of_identity (hu.records fpIn h.belowIn)
  have hout := forkid_of_identity (hu.records fpOut h.belowOut)
  refine ⟨h.distinct, Nat.lt_of_lt_of_le h.belowIn hu.nextFile,
    Nat.lt_of_lt_of_le h.belowOut hu.nextFile, hin.2 ▸ h.kindIn, hout.2 ▸ h.kindOut, ?_, ?_⟩
  · rw [hin.1, hv]
    exact h.openIn
  · rw [hout.1, hv]
    exact h.openOut

/-- An error counts only before the first byte is copied. -/
theorem Copies.failed {e : Int} {n : Nat} (h : Copies vol fork v v' i j resIn resOut offIn offOut n)
    (he : e ≤ 0) :
    Copies vol fork v v' i j resIn resOut offIn offOut (if n ≠ 0 then (n : Int) else e).toNat := by
  split
  · exact h
  · next h0 =>
    rwa [show e.toNat = n by omega]

variable {w : ForkServer} {bitmap m : Nat} {fOut : FileInfo} {deleted : Bool} {rc : Int}
  {t : MlState}

theorem uint64_add {offset : Int} {n : Nat} (h : uint64 offset + n < 2 ^ 64) :
    uint64 (offset + n) = uint64 offset + n := by
  unfold uint64 at *
  omega

theorem copyLoop_copies {fuel copied : Nat} (hlen : len ≤ intMax31)
    (h : BothOpen v s fpIn fpOut i j resIn resOut) (hfork : (s.file fpOut).forkid = fork)
    (hc : Copies vol fork w v i j resIn resOut offIn offOut copied) :
    Wp serve (copyLoop vol fpIn offIn fpOut offOut len fuel copied) s v fun r _ v' =>
      Copies vol fork w v' i j resIn resOut offIn offOut r.toNat := by
  induction fuel generalizing copied s v with
  | zero => exact wp_ret.2 hc
  | succ fuel ih =>
    refine .guard hc fun hmore => ?_
    refine ((mlRead_tells h.openIn h.kindIn).and
      (mlRead_leaves.wp (Nat.le_refl _) v)).bind ?_
    rintro (e | ⟨data, eof⟩) s₁ _ ⟨⟨rfl, htold⟩, hs₁⟩
    · exact wp_ret.2 (hc.failed htold)
    refine .guard hc fun hne => ?_
    obtain ⟨hsize, hoff, hread⟩ := htold hne
    have hdata : data.length ≤ intMax31 := by omega
    have h₁ := h.still hs₁ rfl
    refine ((mlWrite_stores h₁.openOut h₁.kindOut (Nat.lt_of_le_of_lt hdata (by decide))).and
      (mlWrite_leaves.wp (Nat.le_refl _) _)).bind ?_
    rintro ret s₂ v₂ ⟨⟨hst, hret0⟩, hs₂⟩
    have hfork₁ := (forkid_of_identity (hs₁.records fpOut h.belowOut)).1.trans hfork
    have hfork₂ := (forkid_of_identity (hs₂.records fpOut h₁.belowOut)).1.trans hfork₁
    have hpos : 0 ≤ offIn := by
      by_cases h0 : copied = 0
      · omega
      · exact (hc.positive (by omega)).2
    have hsrc : w.bytes i resIn = _ := congrFun (hc.others i h.distinct).symm resIn
    rw [uint64_add hc.fits] at hst
    have hfits := hst.fits
    have hnext : Copies vol fork w v₂ i j resIn resOut offIn offOut (copied + ret.toNat) := by
      refine ⟨⟨hst.named.trans hc.named, hst.opened.trans hc.opened,
        fun k hk => (hst.others k hk).trans (hc.others k hk)⟩, fun hn => ⟨fun h0 => ?_, hpos⟩,
        by omega, fun hn hv => ?_, ?_⟩
      · exact (hc.positive (by omega)).1 h0
      · by_cases h0 : 0 < copied
        · exact hc.below h0 hv
        · have := hst.below (by omega) hv
          omega
      by_cases hmis : vol.avNumber < 30 ∧ 2 ^ 64 ≤ uint64 offOut + copied + data.length
      · -- Only the first write can be misplaced, and nothing is copied by it.
        have hzero : copied = 0 := by
          by_contra h0
          have hle := hc.below (by omega) hmis.1
          simp only [maxAfp2Filesize, intMax31] at hle hdata hlen
          omega
        rw [hzero, hst.misplaced hmis.1 hmis.2]
        exact .none
      · refine hc.copied.next ?_ (hst.stores fun hv => Nat.not_le.1 fun h => hmis ⟨hv, h⟩)
        rw [hsrc, show offIn.toNat + copied = (offIn + copied).toNat by omega]
        exact hread
    refine .ite (fun hret => wp_ret.2 ?_) fun hret => ?_
    · rw [show copied + ret.toNat = copied by omega] at hnext
      exact hnext.failed hret
    refine .guard hnext fun _ => ?_
    exact ih (h₁.still hs₂ hst.opened) hfork₂ hnext

theorem Copies.refl : Copies vol fork v v i j resIn resOut offIn offOut 0 :=
  ⟨⟨rfl, rfl, fun _ _ => rfl⟩, fun h => absurd h (Nat.lt_irrefl 0), uint64_lt offOut, nofun, .none⟩

theorem copyRangeThroughClient_copies (h : BothOpen v s fpIn fpOut i j resIn resOut) :
    Wp serve (copyRangeThroughClient vol fpIn offIn fpOut offOut len) s v fun r _ v' =>
      Copies vol (s.file fpOut).forkid v v' i j resIn resOut offIn offOut r.toNat := by
  refine wp_send.2 fun c ok v' hs => ?_
  cases serve_inert rfl hs
  refine .ite (fun _ => wp_ret.2 .refl) fun _ => copyLoop_copies ?_ h rfl .refl
  exact (Nat.min_le_right ..).trans (Nat.min_le_left ..)

/-! ## On the server -/

/-- What `fork_still_named` returns is of the handle's file, which is at the handle's name. -/
theorem forkStillNamed_wp {fp : Nat} (hon : OnFile v s fp i)
    (hnode : (bitmap ||| kFPNodeIDBit) &&& kFPNodeIDBit ≠ 0)
    (hlen : (bitmap ||| kFPNodeIDBit) &&& kFPExtDataForkLenBit ≠ 0) :
    Wp serve (forkStillNamed vol fp bitmap) s v fun r s' v' => s' = s ∧ v' = v ∧
      ∀ p, r = some p → v.named (s.file fp).did (vol.wireName (s.file fp).basename) = some i ∧
        i ≠ 0 ∧ p.cnid = i ∧ p.size = (v.bytes i false).length := by
  refine .guard ⟨rfl, rfl, nofun⟩ fun hc => wp_send.2 fun c a v' hs => ?_
  obtain ⟨rc, params⟩ := a
  cases serve_inert rfl hs
  refine wp_ret.2 ⟨rfl, rfl, fun p hp => ?_⟩
  split at hp
  · next hrc =>
    cases hp
    obtain ⟨rfl, hcnid⟩ := hrc
    have ht := (serve_cases hs).1
    simp only [tells, bne_self_eq_false, Bool.false_or] at ht
    split at ht
    · next k hk =>
      simp only [Bool.and_eq_true, Bool.or_eq_true, beq_iff_eq, hnode, hlen, false_or] at ht
      obtain ⟨⟨⟨-, hcnid'⟩, hsize⟩, -⟩ := ht
      have hid := hon.known hc
      have hki : k = i := hcnid'.symm.trans (hcnid.trans hid)
      subst hki
      exact ⟨hk, hid ▸ hc, hcnid', hsize⟩
    · -- a folder's reply holds no node ID
      have h0 : params.cnid = 0 := by simpa using (Bool.and_eq_true_iff.1 ht).2
      exact absurd (hcnid.symm.trans h0) hc
  · cases hp

/-! ### The file at the name -/

/-- Files are only added: those that were there have their bytes, and open forks stay open. -/
structure Adds (v v' : ForkServer) : Prop where
  used : ∀ k ∈ v.used, k ∈ v'.used
  bytes : ∀ k ∈ v.used, v'.bytes k = v.bytes k
  opened : v'.opened = v.opened

theorem Adds.refl (v : ForkServer) : Adds v v := ⟨fun _ => id, fun _ _ => rfl, rfl⟩

theorem Adds.trans (h : Adds v w) (h' : Adds w v') : Adds v v' :=
  ⟨fun k hk => h'.used k (h.used k hk), fun k hk => (h'.bytes k (h.used k hk)).trans (h.bytes k hk),
    h'.opened.trans h.opened⟩

theorem Adds.unlink {did : Nat} {name : Path} : Adds v (v.unlink did name) :=
  ⟨fun _ => id, fun _ _ => rfl, rfl⟩

theorem Adds.create {did node : Nat} {name : Path} {bytes : Bool → Bytes} (h : node ∉ v.used) :
    Adds v (v.create did name node bytes) :=
  ⟨fun _ => mem_cons_of_mem _, fun _ hk => create_bytes_ne fun he => h (he ▸ hk), rfl⟩

/-- The file `m` at the destination's name, of the bytes given: the destination's own, which was
not deleted; a copy of the source; or a new empty file. -/
inductive AtName (v : ForkServer) (bytes : Bool → Bytes) (i j : Nat) (deleted : Bool) (m : Nat) : Prop
  | own (hd : deleted = false) (hm : m = j)
  | copy (hd : deleted = true) (hm : m ∉ v.used) (hb : bytes = v.bytes i)
  | empty (hm : m ∉ v.used) (hb : ∀ resource, bytes resource = [])

/-- The delete and the copy: a file that is at the name then is the destination's own or the
copy. -/
theorem replaceDestination_wp {fIn : FileInfo}
    (hsrc : v.named fIn.did (vol.wireName fIn.basename) = some i)
    (hdst : v.named fOut.did (vol.wireName fOut.basename) = some j) (hij : i ≠ j) :
    Wp serve (replaceDestination vol fIn fOut) s v fun r s' v' => s' = s ∧ Adds v v' ∧
      (r.2 = kFPNoErr → r.1 = true) ∧
      ∀ m, v'.named fOut.did (vol.wireName fOut.basename) = some m → (r.1 = false ∧ m = j) ∨
        (r.1 = true ∧ m ∉ v.used ∧ v'.bytes m = v.bytes i) := by
  have hne : (fIn.did, vol.wireName fIn.basename) ≠ (fOut.did, vol.wireName fOut.basename) := by
    intro he
    obtain ⟨hdid, hname⟩ := Prod.mk.inj he
    rw [hdid, hname, hdst] at hsrc
    exact hij (Option.some.inj hsrc).symm
  refine wp_send.2 fun c rc v₁ hs => .ite (fun hrc => ?_) fun hrc => ?_
  · obtain ⟨-, hn⟩ | rfl := serve_delete hs
    · exact absurd hrc hn
    refine wp_send.2 fun c rc v₂ hs => wp_ret.2 ⟨rfl, ?_, fun _ => rfl, fun m hm => ?_⟩
    · obtain ⟨rfl, -⟩ | ⟨k, -, -, hnode, rfl⟩ := serve_copyFile hs
      · exact .unlink
      · exact Adds.unlink.trans (.create hnode)
    · refine .inr ⟨rfl, ?_⟩
      obtain ⟨rfl, -⟩ | ⟨k, hk, -, hnode, rfl⟩ := serve_copyFile hs
      · simp at hm
      · rw [unlink_named_ne hne, hsrc] at hk
        cases hk
        rw [create_named_self] at hm
        cases hm
        exact ⟨hnode, by simp⟩
  · refine wp_ret.2 ⟨rfl, ?_, fun h => absurd h hrc, fun m hm => ?_⟩
    · obtain ⟨rfl, -⟩ | rfl := serve_delete hs
      · exact .refl _
      · exact .unlink
    · obtain ⟨rfl, -⟩ | rfl := serve_delete hs
      · exact .inl ⟨rfl, Option.some.inj (hm.symm.trans hdst)⟩
      · simp at hm

/-- The create: without a file found, the name holds the copy or a new empty file. -/
theorem ensureDestination_wp (hadds : Adds w v) (hdel : rc = kFPNoErr → deleted = true)
    (hname : ∀ m, v.named fOut.did (vol.wireName fOut.basename) = some m → (deleted = false ∧ m = j) ∨
      (deleted = true ∧ m ∉ w.used ∧ v.bytes m = w.bytes i)) :
    Wp serve (ensureDestination vol fOut rc) s v fun r s' v' => s' = s ∧ Adds w v' ∧
      ∀ found, r = some found → ∀ m, v'.named fOut.did (vol.wireName fOut.basename) = some m →
        AtName w (v'.bytes m) i j deleted m ∧ (rc = kFPNoErr → v'.bytes m = w.bytes i ∧ m ∉ w.used) ∧
        (rc ≠ kFPNoErr → found = false → m ∉ w.used ∧ ∀ resource, v'.bytes m resource = []) := by
  have hheld : ∀ m, v.named fOut.did (vol.wireName fOut.basename) = some m →
      AtName w (v.bytes m) i j deleted m :=
    fun m hm => (hname m hm).elim (fun h => .own h.1 h.2) fun h => .copy h.1 h.2.1 h.2.2
  refine .ite (fun hrc => wp_ret.2 ⟨rfl, hadds, fun found hf m hm => ?_⟩) fun hrc => ?_
  · refine ⟨hheld m hm, fun _ => ?_, fun h => absurd hrc h⟩
    obtain ⟨hf, -⟩ | ⟨-, hm, hb⟩ := hname m hm
    · rw [hdel hrc] at hf
      cases hf
    · exact ⟨hb, hm⟩
  · refine wp_send.2 fun c made v' hs => wp_ret.2 ?_
    obtain ⟨rfl, hmade⟩ | ⟨hnone, hnode, rfl⟩ := serve_createFile hs
    · -- nothing was made, so it was not answered with success
      refine ⟨rfl, hadds, fun found hf m hm => ⟨hheld m hm, fun h => absurd h hrc, fun _ hfound => ?_⟩⟩
      rw [if_neg hmade] at hf
      split at hf
      · cases hf
        cases hfound
      · cases hf
    · have hnew : c.node ∉ w.used := fun h => hnode (hadds.used _ h)
      refine ⟨rfl, hadds.trans (.create hnode), fun found _ m hm => ?_⟩
      rw [create_named_self] at hm
      cases hm
      have hempty : ∀ resource, (v.create fOut.did (vol.wireName fOut.basename) c.node
          fun _ => []).bytes c.node resource = [] := fun _ => by simp
      exact ⟨.empty hnew hempty, fun h => absurd h hrc, fun _ _ => ⟨hnew, hempty⟩⟩

/-! ### The ways to end -/

/-- The handle has lost its fork, and nothing else has changed of the handles. -/
structure LosesFork (s u : MlState) (fp : Nat) : Prop where
  forkid : (u.file fp).forkid = 0
  listed : u.openForks = s.openForks.erase fp
  nextFile : s.nextFile ≤ u.nextFile
  resource : (u.file fp).resource = (s.file fp).resource

theorem copyLostFork_wp (h : Copying True s.nextFile fpOut s t) :
    Wp serve (copyLostFork fpOut) t v fun r u _ => r = -EIO_ ∧ LosesFork s u fpOut := by
  show Wp serve (ret (-EIO_)) _ v _
  refine wp_ret.2 ⟨rfl, by simp, congrArg (·.erase fpOut) h.listed, h.nextFile, ?_⟩
  simpa using h.resource trivial

theorem setCopyParms_inert {dst : Params} {copied : Bool} :
    (setCopyParms vol fOut dst copied).Within (inert · = true) fun _ => True :=
  .choice ⟨rfl, fun _ => trivial⟩ trivial fun _ =>
    .ite (fun _ => ⟨rfl, fun _ => trivial⟩) fun _ => trivial

/-- Once the fork is open again on the file `m` at the name: the fork is closed and lost, or it
stays and the file is empty, or a copy. -/
theorem copyReopened_outcome {src dst : Params} {found : Bool}
    (h : Copying True s.nextFile fpOut s t) (hfp : fpOut < s.nextFile)
    (hat : AtName v (w.bytes m) i j deleted m) (hcopy : rc = kFPNoErr → w.bytes m = v.bytes i)
    (hnew : rc ≠ kFPNoErr → found = false → w.bytes m false = [])
    (hsize : (t.file fpOut).size = src.size → (w.bytes m false).length = src.size)
    (hsrc : src.size ≠ 0) (hown : (t.file fpOut).cnid = dst.cnid → m = j)
    (hempty : w.bytes j false = []) :
    Wp serve (copyReopened vol fpOut src dst deleted found rc) t w fun r u v' =>
      (r = -EIO_ ∧ LosesFork s u fpOut) ∨
      (v' = w ∧ Copying True s.nextFile fpOut s u ∧ (u.file fpOut).forkid = (t.file fpOut).forkid ∧
        (r = 0 ∧ w.bytes m false = [] ∨ r = src.size ∧ w.bytes m = v.bytes i)) := by
  refine .ite (fun _ => wp_send.2 fun c a v' hs => ?_) fun hkeep => ?_
  · exact (copyLostFork_wp h).mono fun _ _ _ hu => .inl hu
  generalize hlate : (found && deleted && rc == ETIMEDOUT && (t.file fpOut).size == src.size) = late at *
  -- the file at the name, by the answers
  have hbytes : if late || rc == kFPNoErr then w.bytes m = v.bytes i else w.bytes m false = [] := by
    by_cases hrc : rc = kFPNoErr
    · rw [if_pos (by simp [hrc])]
      exact hcopy hrc
    cases late with
    | true =>
      simp only [Bool.and_eq_true, beq_iff_eq] at hlate
      obtain ⟨⟨⟨-, hdel⟩, -⟩, hs⟩ := hlate
      cases hat with
      | own hd _ => exact absurd (hd.symm.trans hdel) (by decide)
      | copy _ _ hb => exact hb
      | empty _ hb =>
        have hlen := hsize hs
        rw [hb false] at hlen
        exact absurd hlen.symm hsrc
    | false =>
      rw [if_neg (by simp [hrc])]
      cases found with
      | false => exact hnew hrc rfl
      | true =>
        have hm : (t.file fpOut).cnid = dst.cnid := by
          simpa using (by simpa using hkeep : deleted = false ∧ _).2
        exact hown hm ▸ hempty
  have hend : ∀ {t' : MlState}, Copying True s.nextFile fpOut s t' →
      (t'.file fpOut).forkid = (t.file fpOut).forkid →
      Wp serve (do
        if !(late || rc == kFPNoErr) then return 0
        Ml.modifyFile fpOut fun f => { f with dirty := true }
        return src.size : MlCall Int) t' w fun r u v' =>
          v' = w ∧ Copying True s.nextFile fpOut s u ∧ (u.file fpOut).forkid = (t.file fpOut).forkid ∧
            (r = 0 ∧ w.bytes m false = [] ∨ r = src.size ∧ w.bytes m = v.bytes i) := by
    intro t' ht' hf
    refine .ite (fun hc => wp_ret.2 ⟨rfl, ht', hf, .inl ⟨rfl, ?_⟩⟩) fun hc => wp_modifyFile.2 (wp_ret.2 ?_)
    · rwa [if_neg (by simpa using hc)] at hbytes
    · refine ⟨rfl, ht'.only ((refl fpOut t').update (by rfl)), by simpa using hf, .inr ⟨rfl, ?_⟩⟩
      rwa [if_pos (by simpa only [Bool.not_eq_true', Bool.not_eq_false] using hc)] at hbytes
  refine .ite (fun _ => wp_bind.2 ?_) fun _ => (hend h rfl).mono fun _ _ _ hu => .inr hu
  refine ((setCopyParms_leaves.wp h.nextFile w).and (inert_wp setCopyParms_inert)).mono ?_
  rintro _ u _ ⟨hu, -, rfl⟩
  refine (hend (h.still (fun _ => hfp) hu) ?_).mono fun _ _ _ hu => .inr hu
  exact (forkid_of_identity (hu.records fpOut hfp)).1

/-- The handle's fork is open again, on the file `m` at its name, which is not the source; the
source is as it was. -/
structure Reopened (vol : ServedVolume) (v v' : ForkServer) (s u : MlState) (fpIn fpOut i m : Nat) :
    Prop where
  distinct : fpIn ≠ fpOut
  opened : v'.opened (u.file fpOut).forkid = some (m, false)
  named : v'.named (s.file fpOut).did (vol.wireName (s.file fpOut).basename) = some m
  ne : m ≠ i
  source : v'.bytes i = v.bytes i
  sourceOpen : v'.opened (s.file fpIn).forkid = v.opened (s.file fpIn).forkid
  state : Copying True s.nextFile fpOut s u

/-- The source and the destination of a copy that qualifies. -/
structure Qualified (vol : ServedVolume) (v : ForkServer) (s : MlState) (fpIn fpOut i j : Nat)
    (src dst : Params) : Prop where
  distinct : i ≠ j
  below : fpOut < s.nextFile
  openIn : v.opened (s.file fpIn).forkid = some (i, false)
  openOut : v.opened (s.file fpOut).forkid = some (j, false)
  namedIn : v.named (s.file fpIn).did (vol.wireName (s.file fpIn).basename) = some i
  namedOut : v.named (s.file fpOut).did (vol.wireName (s.file fpOut).basename) = some j
  sizeIn : src.size = (v.bytes i false).length
  sizeIn_ne : src.size ≠ 0
  cnidOut : dst.cnid = j
  cnidOut_ne : j ≠ 0
  emptyOut : v.bytes j false = []
  sizeOut : (s.file fpOut).size = 0

/-- The fork opens again on a file at the name, and its record holds what the answer said. -/
theorem copy_reopens {did : Nat} {name : Name} (hcnid : (t.file fpOut).cnid = 0)
    (hsize : (t.file fpOut).size = 0) {accessmode : Nat} :
    Wp serve (openforkInto vol false did accessmode bitmap name fpOut) t w fun rc u v' =>
      OnlyRecord fpOut t u ∧ (rc = kFPNoErr → ∃ m, w.named did (vol.wireName name) = some m ∧
        v'.named = w.named ∧ v'.bytes = w.bytes ∧ v'.opened (u.file fpOut).forkid = some (m, false) ∧
        (∀ k x, w.opened k = some x → v'.opened k = some x) ∧
        ((u.file fpOut).cnid ≠ 0 → (u.file fpOut).cnid = m) ∧
        ((u.file fpOut).size ≠ 0 → (u.file fpOut).size = (w.bytes m false).length)) := by
  refine wp_send.2 fun c a v' hs => ?_
  obtain ⟨rc, reply⟩ := a
  refine .ite (fun _ => wp_modifyFile.2 (wp_ret.2 ⟨(refl fpOut t).update rfl, fun hrc => ?_⟩))
    fun hn => wp_ret.2 ⟨.refl fpOut t, fun hrc => absurd (.inl hrc) hn⟩
  obtain ⟨hne, -⟩ | ⟨-, m, hm, hnamed, hfree, rfl, hc, hsz⟩ := serve_openFork hs
  · exact absurd hrc hne
  refine ⟨m, hnamed, rfl, rfl, by simp [OpenReply.store], fun k x hk => ?_, ?_, ?_⟩
  · rwa [openFork_opened_ne]
    rintro rfl
    rw [hfree] at hk
    cases hk
  · simp only [OpenReply.store, Function.update_self, hcnid]
    cases hrep : reply.cnid with
    | none => simp
    | some cnid => exact fun _ => hc cnid hrep
  · simp only [OpenReply.store, Function.update_self, hsize]
    cases hrep : reply.size with
    | none => simp
    | some size => exact fun _ => hsz size hrep

theorem copyIntoDestination_outcome {src dst : Params} (q : Qualified vol v s fpIn fpOut i j src dst) :
    Wp serve (copyIntoDestination vol fpIn fpOut src dst) s v fun r u v' =>
      (r = -EIO_ ∧ LosesFork s u fpOut) ∨ ∃ m, Reopened vol v v' s u fpIn fpOut i m ∧
        (r = 0 ∧ v'.bytes m false = [] ∨ r = src.size ∧ v'.bytes m = v.bytes i) := by
  refine wp_send.2 fun c closed v₁ hs => .ite (fun _ => ?_) fun hclosed => ?_
  · exact (copyLostFork_wp (.refl _ _ _ s)).mono fun _ _ _ hu => .inl hu
  obtain ⟨-, hne⟩ | rfl := serve_closeFork hs
  · exact absurd (by simpa using hclosed) hne
  rw [wp_modifyFile]
  obtain ⟨t₁, ht₁, h₁, hsize₁⟩ : ∃ t₁ : MlState,
      { s with file := Function.update s.file fpOut { s.file fpOut with forkid := 0 } } = t₁ ∧
        Copying True s.nextFile fpOut s t₁ ∧ (t₁.file fpOut).size = 0 :=
    ⟨_, rfl, (Copying.refl True s.nextFile fpOut s).only ((refl fpOut s).update rfl),
      by simpa using q.sizeOut⟩
  rw [ht₁]
  have hin : (v.close (s.file fpOut).forkid).named (s.file fpIn).did
    (vol.wireName (s.file fpIn).basename) = some i := q.namedIn
  refine (replaceDestination_wp hin q.namedOut q.distinct).bind ?_
  rintro ⟨deleted, rc⟩ t₁ v₂ ⟨rfl, hadds, hdel, hname⟩
  refine (ensureDestination_wp hadds hdel hname).bind ?_
  rintro r t₁ v₃ ⟨rfl, hadds, hat⟩
  match r with
  | none => exact (copyLostFork_wp h₁).mono fun _ _ _ hu => .inl hu
  | some found =>
    have h₂ := h₁.only ((refl fpOut t₁).update (f := { t₁.file fpOut with cnid := 0 }) rfl)
    refine (copy_reopens ?_ ?_).bind ?_
    · simp
    · simpa using hsize₁
    rintro opened u v₄ ⟨hu, hok⟩
    have h₃ := h₂.only hu
    refine .ite (fun _ => (copyLostFork_wp h₃).mono fun _ _ _ hu => .inl hu) fun hrc => ?_
    obtain ⟨m, hm, hnamed, hbytes, hopen, hstay, hcnid, hsize⟩ := hok (by simpa using hrc)
    obtain ⟨hatm, hcopy, hnew⟩ := hat found rfl m hm
    have hi : i ∈ v.used := v.opened_used q.openIn
    have hj : v₃.bytes j = v.bytes j := hadds.bytes j (v.named_used q.namedOut)
    have hnum : (s.file fpIn).forkid ≠ (s.file fpOut).forkid := by
      intro he
      have := q.openIn.symm.trans (he ▸ q.openOut)
      simp [q.distinct] at this
    have hne : m ≠ i := by
      rintro rfl
      cases hatm with
      | own _ hm => exact q.distinct hm
      | copy _ hm _ | empty hm _ => exact hm hi
    rw [← hbytes] at hatm hcopy hnew hj hsize
    refine (copyReopened_outcome h₃ q.below hatm (fun h => (hcopy h).1) (fun h h' => (hnew h h').2 false)
      (fun h => ?_) q.sizeIn_ne (fun h => ?_) (hj ▸ q.emptyOut)).mono ?_
    · exact (hsize (h ▸ q.sizeIn_ne)).symm.trans h
    · have hne0 : (u.file fpOut).cnid ≠ 0 := by
        rw [h, q.cnidOut]
        exact q.cnidOut_ne
      exact (hcnid hne0).symm.trans (h.trans q.cnidOut)
    · rintro r u' v' (hlost | ⟨rfl, hstate, hf, hres⟩)
      · exact .inl hlost
      have hopenIn : v₃.opened (s.file fpIn).forkid = some (i, false) := by
        rw [hadds.opened, close_opened_ne hnum, q.openIn]
      refine .inr ⟨m, ⟨fun h => hnum (by rw [h]), hf ▸ hopen, hnamed ▸ hm, hne, ?_, ?_, hstate⟩, hres⟩
      · rw [hbytes]
        exact hadds.bytes i hi
      · rw [hstay _ _ hopenIn, q.openIn]

/-- `copy_range_on_server` of two handles of different files leaves all as it was and returns 0;
or the handle's fork is open again on a file at its name, which is empty, with 0 returned, or a
copy of the source; or it returns `-EIO` and the handle has lost its fork. -/
theorem copyRangeOnServer_outcome (hij : i ≠ j) (hfp : fpOut < s.nextFile) (hin : OnFile v s fpIn i)
    (hout : OnFile v s fpOut j) :
    Wp serve (copyRangeOnServer vol fpIn offIn fpOut offOut len) s v fun r u v' =>
      (r = 0 ∧ u = s ∧ v' = v) ∨
      (∃ m, Reopened vol v v' s u fpIn fpOut i m ∧ (s.file fpOut).resource = .none ∧
        (r = 0 ∧ v'.bytes m false = [] ∨ r = len ∧ 0 < len ∧ offIn = 0 ∧ offOut = 0 ∧
          (s.file fpIn).resource = .none ∧ (v.bytes i false).length = len ∧ v'.bytes m = v.bytes i)) ∨
      (r = -EIO_ ∧ (s.file fpOut).resource = .none ∧ LosesFork s u fpOut) := by
  refine .guard (.inl ⟨rfl, rfl, rfl⟩) fun hq => ?_
  simp only [copyQualifies, Bool.not_eq_true', Bool.not_eq_false, Bool.and_eq_true, beq_iff_eq,
    bne_iff_ne, decide_eq_true_eq] at hq
  obtain ⟨⟨⟨⟨⟨⟨⟨⟨⟨⟨hkin, hkout⟩, hnin⟩, hnout⟩, -⟩, hzero⟩, hoffIn⟩, hoffOut⟩, hmin⟩, -⟩, -⟩ := hq
  show Wp serve (if _ then _ else _) s v _
  refine .guard (.inl ⟨rfl, rfl, rfl⟩) fun _ => ?_
  refine (forkStillNamed_wp hin (by decide) (by decide)).bind ?_
  rintro src? s v ⟨rfl, rfl, hsrc⟩
  cases src? with
  | none => exact wp_ret.2 (.inl ⟨rfl, rfl, rfl⟩)
  | some src =>
    obtain ⟨hnamedIn, -, -, hsizeIn⟩ := hsrc src rfl
    refine .guard (.inl ⟨rfl, rfl, rfl⟩) fun hfits => ?_
    have hlen : src.size = len := by
      simp only [copySourceFits, Bool.not_eq_true', Bool.not_eq_false, Bool.and_eq_true,
        beq_iff_eq] at hfits
      exact hfits.1.1
    refine (forkStillNamed_wp hout ?_ ?_).bind ?_
    · split <;> decide
    · split <;> decide
    rintro dst? s v ⟨rfl, rfl, hdst⟩
    cases dst? with
    | none => exact wp_ret.2 (.inl ⟨rfl, rfl, rfl⟩)
    | some dst =>
      obtain ⟨hnamedOut, hj, hcnid, hsizeOut⟩ := hdst dst rfl
      refine .guard (.inl ⟨rfl, rfl, rfl⟩) fun hfits => ?_
      have hempty : dst.size = 0 := by
        simp only [copyDestinationFits, Bool.not_eq_true', Bool.not_eq_false, Bool.and_eq_true,
          beq_iff_eq] at hfits
        exact hfits.1.1
      have hpos : 0 < len := Nat.lt_of_lt_of_le (by decide) hmin
      have q : Qualified vol v s fpIn fpOut i j src dst :=
        { distinct := hij, below := hfp
          openIn := by simpa [hkin] using hin.opened hnin
          openOut := by simpa [hkout] using hout.opened hnout
          namedIn := hnamedIn, namedOut := hnamedOut, sizeIn := hsizeIn, sizeIn_ne := by omega
          cnidOut := hcnid, cnidOut_ne := hj
          emptyOut := length_eq_zero_iff.1 (hsizeOut.symm.trans hempty), sizeOut := hzero }
      refine (copyIntoDestination_outcome q).mono ?_
      rintro r u v' (⟨hr, hlost⟩ | ⟨m, hre, hres⟩)
      · exact .inr (.inr ⟨hr, hkout, hlost⟩)
      refine .inr (.inl ⟨m, hre, hkout, hres.imp id ?_⟩)
      rintro ⟨hr, hb⟩
      exact ⟨by rw [hr, hlen], hpos, hoffIn, hoffOut, hkin, hsizeIn ▸ hlen, hb⟩

/-! ## The call -/

/-- What a copy of `n` bytes has left: the handle has an open fork, of the file it was on or of
the file at its name, that holds the source's bytes; and the source is as it was. -/
def CopyLeaves (vol : ServedVolume) (v v' : ForkServer) (s u : MlState) (fpIn fpOut i j : Nat)
    (offIn offOut : Int) (n : Nat) : Prop :=
  ∃ m, v'.opened (u.file fpOut).forkid = some (m, (s.file fpOut).resource != .none) ∧
    (m = j ∨ v'.named (s.file fpOut).did (vol.wireName (s.file fpOut).basename) = some m) ∧
    m ≠ i ∧ v'.bytes i = v.bytes i ∧ 0 ≤ offIn ∧
    Copied (v.bytes i ((s.file fpIn).resource != .none))
      (v'.bytes m ((s.file fpOut).resource != .none)) offIn.toNat (uint64 offOut) n

/-- The end of `ml_copy_range`, with as many bytes copied. -/
def copySynced (vol : ServedVolume) (fpOut : Nat) (copied : Int) : MlCall Int := do
  let f ← Ml.getFile fpOut
  if 0 < copied ∧ f.sync then
    let rc ← mlFsync vol fpOut
    return if rc < 0 then rc else copied
  else return copied

theorem copySynced_wp {copied : Int} (hfp : fpOut < t.nextFile)
    (h : 0 < copied → CopyLeaves vol v v' s t fpIn fpOut i j offIn offOut copied.toNat) :
    Wp serve (copySynced vol fpOut copied) t v' fun r u v' =>
      0 < r → CopyLeaves vol v v' s u fpIn fpOut i j offIn offOut r.toNat := by
  refine wp_getFile.2 (.ite (fun _ => wp_bind.2 ?_) fun _ => wp_ret.2 h)
  refine ((mlFsync_leaves.wp (Nat.le_refl _) v').and (inert_wp mlFsync_inert)).mono ?_
  rintro rc u _ ⟨hu, -, rfl⟩
  refine wp_ret.2 fun hr => ?_
  split at hr
  · omega
  · next hn =>
    rw [if_neg hn]
    obtain ⟨m, hopen, hrest⟩ := h hr
    exact ⟨m, (forkid_of_identity (hu.records fpOut hfp)).1 ▸ hopen, hrest⟩

/-- A copy through the client into the file `m`, from the source's file as it was. -/
theorem copyClient_wp {resource : Bool}
    (h : BothOpen w t fpIn fpOut i m ((s.file fpIn).resource != .none) resource)
    (hres : ((s.file fpOut).resource != .none) = resource) (hsrc : w.bytes i = v.bytes i)
    (hm : m = j ∨ w.named (s.file fpOut).did (vol.wireName (s.file fpOut).basename) = some m) :
    Wp serve (copyRangeThroughClient vol fpIn offIn fpOut offOut len >>= copySynced vol fpOut) t w
      fun r u v' => 0 < r → CopyLeaves vol v v' s u fpIn fpOut i j offIn offOut r.toNat := by
  refine ((copyRangeThroughClient_copies h).and
    (copyRangeThroughClient_leaves.wp (Nat.le_refl _) w)).bind ?_
  rintro copied u v₂ ⟨hc, hu⟩
  refine copySynced_wp (Nat.lt_of_lt_of_le h.belowOut hu.nextFile) fun hpos => ?_
  obtain ⟨hfork, hoff⟩ := hc.positive (by omega)
  refine ⟨m, ?_, hc.named ▸ hm, h.distinct.symm, (hc.others i h.distinct).trans hsrc, hoff, ?_⟩
  · rw [hc.opened, (forkid_of_identity (hu.records fpOut h.belowOut)).1, hres]
    exact h.openOut hfork
  · rw [hres, ← hsrc]
    exact hc.copied

theorem mlCopyRange_leaves_copy (hij : i ≠ j) (hin : fpIn < s.nextFile) (hout : fpOut < s.nextFile)
    (hi : OnFile v s fpIn i) (hj : OnFile v s fpOut j) :
    Wp serve (mlCopyRange vol fpIn offIn fpOut offOut len) s v fun r u v' =>
      0 < r → CopyLeaves vol v v' s u fpIn fpOut i j offIn offOut r.toNat := by
  have hneg : ∀ {r : Int} {u : MlState} {v' : ForkServer}, r ≤ 0 → 0 < r →
      CopyLeaves vol v v' s u fpIn fpOut i j offIn offOut r.toNat := fun h h' => absurd h' (by omega)
  refine .ite (fun _ => wp_ret.2 (hneg (by decide))) fun hkinds => ?_
  refine .ite (fun _ => wp_ret.2 (hneg (by decide))) fun _ => ?_
  refine .ite (fun _ => wp_ret.2 (hneg (by decide))) fun _ => ?_
  obtain ⟨hkin, hkout⟩ : ((s.file fpIn).resource = .none ∨ (s.file fpIn).resource = .resource) ∧
      ((s.file fpOut).resource = .none ∨ (s.file fpOut).resource = .resource) := by
    rw [not_or, not_and_or, not_and_or, not_not, not_not, not_not, not_not] at hkinds
    exact hkinds
  refine (copyRangeOnServer_outcome hij hout hi hj).bind ?_
  rintro r u v₁ (⟨rfl, rfl, rfl⟩ | ⟨m, hre, hk, hres⟩ | ⟨rfl, -, hlost⟩)
  · -- the copy goes through the client, into the fork that was open
    have hboth : BothOpen v₁ u fpIn fpOut i j ((u.file fpIn).resource != .none)
        ((u.file fpOut).resource != .none) := ⟨hij, hin, hout, hkin, hkout, hi.opened, hj.opened⟩
    exact copyClient_wp hboth rfl rfl (.inl rfl)
  · have hid := forkid_of_identity (hre.state.others fpIn hin hre.distinct)
    have hbelow := Nat.lt_of_lt_of_le hout hre.state.nextFile
    have hk' : ((s.file fpOut).resource != .none) = false := by simp [hk]
    obtain ⟨rfl, -⟩ | ⟨rfl, hlen, rfl, rfl, hks, hlength, hb⟩ := hres
    · -- the destination's file is another one by now
      have hboth : BothOpen v₁ u fpIn fpOut i m ((s.file fpIn).resource != .none) false := by
        refine ⟨hre.ne.symm, Nat.lt_of_lt_of_le hin hre.state.nextFile, hbelow, hid.2 ▸ hkin,
          hre.state.resource trivial ▸ hkout, fun h => ?_, fun _ => hre.opened⟩
        rw [hid.1] at h ⊢
        exact hre.sourceOpen.trans (hi.opened h)
      exact copyClient_wp hboth hk' hre.source (.inr hre.named)
    · rw [if_neg (by omega)]
      refine copySynced_wp hbelow fun _ => ⟨m, hk' ▸ hre.opened, .inr hre.named, hre.ne, hre.source,
        Int.le_refl 0, fun k hkl => ?_⟩
      simp only [Int.toNat_natCast] at hkl
      simp [hk, hks, hb, hlength, hkl, show uint64 0 = 0 from rfl]
  · exact copySynced_wp (Nat.lt_of_lt_of_le hout hlost.nextFile) fun h => absurd h (by decide)

theorem LosesFork.forkless {u : MlState} (h : LosesFork s u fpOut) (hfp : fpOut < s.nextFile)
    (hk : (s.file fpOut).resource = .none) (hl : s.openForks.Nodup) : Forkless u fpOut where
  below := Nat.lt_of_lt_of_le hfp h.nextFile
  forkid := h.forkid
  kind := h.resource.trans hk
  unlisted := h.listed ▸ hl.not_mem_erase

/-- For handles of two files, with any offsets, length and answers: where `ml_copy_range` returns
`n > 0`, the handle of the destination has an open fork that holds the `n` bytes of the source.
Where `copy_range_on_server` returns 0, it has left the handle and the server as they were, or
the handle has an open fork on an empty file at its name. Where it returns `-EIO`, the handle
has no fork, its record is off the list, and whatever calls follow, a call on the handle sends
no request with a fork's number, but for the reads of the source of a copy into it. -/
theorem mlCopyRange_correct (vol : ServedVolume) (v : ForkServer) (s : MlState)
    (fpIn fpOut i j : Nat) (offIn offOut : Int) (len : Nat) (hij : i ≠ j) (hin : fpIn < s.nextFile)
    (hout : fpOut < s.nextFile) (hi : OnFile v s fpIn i) (hj : OnFile v s fpOut j)
    (hl : s.openForks.Nodup) :
    Wp serve (mlCopyRange vol fpIn offIn fpOut offOut len) s v (fun r u v' =>
      0 < r → CopyLeaves vol v v' s u fpIn fpOut i j offIn offOut r.toNat) ∧
    Wp serve (copyRangeOnServer vol fpIn offIn fpOut offOut len) s v fun r u v' =>
      (r = 0 → (u = s ∧ v' = v) ∨ ∃ m, v'.opened (u.file fpOut).forkid = some (m, false) ∧
        v'.named (s.file fpOut).did (vol.wireName (s.file fpOut).basename) = some m ∧
        v'.bytes m false = []) ∧
      (r = -EIO_ → (u.file fpOut).forkid = 0 ∧ fpOut ∉ u.openForks ∧
        ∀ w, Onward vol u w → ∀ (c : FileCall) (hs : List Nat), fpOut ∈ c.handles →
          Wp (record MlReq.anyAnswer) (c.run vol hs) w [] fun _ _ log => ∀ x ∈ log,
            x.1.forkCarried = none ∨ c.copiesInto fpOut ∧ x.1.forReading = true) := by
  refine ⟨mlCopyRange_leaves_copy hij hin hout hi hj, (copyRangeOnServer_outcome hij hout hi hj).mono ?_⟩
  rintro r u v' (⟨rfl, rfl, rfl⟩ | ⟨m, hre, -, hres⟩ | ⟨rfl, hk, hlost⟩)
  · exact ⟨fun _ => .inl ⟨rfl, rfl⟩, fun h => absurd h (by decide)⟩
  · obtain ⟨rfl, hempty⟩ | ⟨rfl, hpos, -⟩ := hres
    · exact ⟨fun _ => .inr ⟨m, hre.opened, hre.named, hempty⟩, fun h => absurd h (by decide)⟩
    · have hEIO : (0 : Int) < EIO_ := by decide
      exact ⟨fun h => absurd h (by omega), fun h => absurd h (by omega)⟩
  · refine ⟨fun h => absurd h (by decide), fun _ => ?_⟩
    have hu := hlost.forkless hout hk hl
    refine ⟨hu.forkid, hu.unlisted, fun w hw c hs hc => ?_⟩
    refine (c.forkless_sends (hw.forkless hu) hc).mono ?_
    rintro _ _ _ ⟨-, more, rfl, hmore⟩
    simpa using hmore

/-- The files `a`, of three bytes, and `b` of the bytes given, each with its data fork open. -/
def twoFiles (dst : Bytes) : ForkServer where
  named did name := if did = 2 ∧ name = [97] then some 16 else if did = 2 ∧ name = [98] then some 17 else none
  bytes i resource := if i = 16 ∧ !resource then [1, 2, 3] else if i = 17 ∧ !resource then dst else []
  used := [16, 17]
  opened n := if n = 5 then some (16, false) else if n = 6 then some (17, false) else none
  named_used := by
    intro did name i h
    split_ifs at h <;> cases h <;> decide
  opened_used := by
    intro n x h
    split_ifs at h <;> cases h <;> decide

/-- Their handles, 0 and 1. -/
def twoHandles : MlState where
  dtrefnum := 0
  noDesktop := false
  file fp := if fp = 0 then { did := 2, forkid := 5, basename := [97] }
    else { did := 2, forkid := 6, writable := true, basename := [98] }
  nextFile := 2
  openForks := [1, 0]

theorem twoHandles_onFile (dst : Bytes) :
    OnFile (twoFiles dst) twoHandles 0 16 ∧ OnFile (twoFiles dst) twoHandles 1 17 :=
  ⟨⟨fun _ => rfl, nofun⟩, ⟨fun _ => rfl, nofun⟩⟩

/-- The answers of a server that carries out what it is asked. -/
def copyAnswer : ForkChoice where
  answer
    | .sys .alloc => true
    | .sys (.read ..) => (kFPNoErr, [1, 2, 3])
    | .sys (.write _ offset data) => (kFPNoErr, offset + data.length)
    | _ => default

/-- The three bytes are copied through the client. -/
theorem mlCopyRange_correct_three :
    ∃ cs u v', run serve (mlCopyRange plainServed 0 0 1 0 3) twoHandles (twoFiles []) cs =
      some (3, u, v', []) ∧ CopyLeaves plainServed (twoFiles []) v' twoHandles u 0 1 16 17 0 0 3 := by
  obtain ⟨u, v', hrun⟩ : ∃ u v', run serve (mlCopyRange plainServed 0 0 1 0 3) twoHandles (twoFiles [])
      (List.replicate 7 copyAnswer) = some (3, u, v', []) := ⟨_, _, rfl⟩
  have h := (mlCopyRange_correct plainServed (twoFiles []) twoHandles 0 1 16 17 0 0 3 (by decide)
    (by decide) (by decide) (twoHandles_onFile []).1 (twoHandles_onFile []).2 (by decide)).1
  exact ⟨_, u, v', hrun, h _ _ _ _ _ hrun (by decide)⟩

/-- A destination with bytes does not qualify: `copy_range_on_server` returns 0, and the handle's
file is not empty. -/
theorem copy_on_server_not_empty :
    OnFile (twoFiles [7]) twoHandles 0 16 ∧ OnFile (twoFiles [7]) twoHandles 1 17 ∧
      run serve (copyRangeOnServer plainServed 0 0 1 0 3) twoHandles (twoFiles [7]) [] =
        some (0, twoHandles, twoFiles [7], []) ∧
      (twoFiles [7]).opened (twoHandles.file 1).forkid = some (17, false) ∧
      (twoFiles [7]).bytes 17 false ≠ [] :=
  ⟨(twoHandles_onFile [7]).1, (twoHandles_onFile [7]).2, rfl, rfl, by decide⟩

end NC
