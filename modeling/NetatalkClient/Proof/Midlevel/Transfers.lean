import NetatalkClient.Proof.Midlevel.Records
import NetatalkClient.Proof.Midlevel.Writing
import NetatalkClient.Proof.Midlevel.Opening

/-!
# Reading and writing a server's files

On a server of files (`ForkServer`), `ml_read` changes nothing and returns bytes of the
fork's from the offset on (`mlRead_tells`), and `ml_write` changes no byte before its offset
and no other file, and stores the bytes it counts (`mlWrite_stores`).
-/

namespace NC

open List Prog ForkServer

/-! ## The requests of a read -/

variable {vol : ServedVolume} {forkid offset size fp i : Nat} {resource : Bool} {s : MlState}
  {v v' : ForkServer} {c : ForkChoice}

theorem forReading_tends (vol : ServedVolume) (fp : Nat) :
    TendsReading vol fp (MlReq.forReading · = true) fun _ => True :=
  ⟨fun _ _ _ _ => trivial, fun _ _ h _ => h, fun h _ => h⟩

theorem llHandleLocking_forReading :
    (llHandleLocking vol forkid offset size).Within (MlReq.forReading · = true) fun _ => True :=
  (llHandleLocking_tends (forReading_tends vol 0) ..).within

theorem llHandleUnlocking_forReading :
    (llHandleUnlocking vol forkid offset size).Within (MlReq.forReading · = true) fun _ => True :=
  (llHandleUnlocking_tends (forReading_tends vol 0) ..).within

theorem afp2ForkReaches_forReading {f : FileInfo} :
    (afp2ForkReaches vol f offset).Within (MlReq.forReading · = true) fun r =>
      ∀ e, r = .error e → e ≤ 0 := by
  refine .ite (fun _ => ⟨rfl, fun a => .ite (fun _ e he => ?_) fun _ => nofun⟩) fun _ => nofun
  cases he
  exact Int.neg_nonpos_of_nonneg (llAnswerErrno_nonneg a.1)

/-- What only reads leaves the server's files and forks as they are. -/
theorem wp_reading {α β : Type} {p : MlCall β} {P : β → Prop} {k : β → MlCall α} {s : MlState}
    {v : ForkServer} {Q : α → MlState → ForkServer → Prop}
    (hp : p.Within (MlReq.forReading · = true) P) (h : ∀ b s', P b → Wp serve (k b) s' v Q) :
    Wp serve (p >>= k) s v Q := by
  have hinert : p.Within (inert · = true) P := hp.mono (fun r hr => ?_) fun _ h => h
  · refine (inert_wp hinert).bind ?_
    rintro b s' _ ⟨hb, rfl⟩
    exact h b s' hb
  · rcases r with c | r
    · rfl
    · cases r <;> first | rfl | cases hr

theorem mlFsync_inert : (mlFsync vol fp).Within (inert · = true) fun _ => True := by
  refine fun s => .ite (fun _ => trivial) fun _ => .ite (fun _ => trivial) fun _ _ => ?_
  refine .choice ⟨rfl, fun _ => trivial⟩ trivial fun rc => ?_
  refine .choice ⟨rfl, fun _ => trivial⟩ trivial fun rc => ?_
  exact .ite (fun _ => trivial) fun _ => .ite (fun _ _ => trivial) fun _ => trivial

/-! ## Reading -/

variable {got old : Bytes} {fuel : Nat}

theorem serve_read {count rc : _} (hopen : v.opened forkid = some (i, resource))
    (h : v.serve (.sys (.read forkid offset count)) c = some ((rc, got), v')) :
    v' = v ∧ (rc = kFPNoErr ∨ rc = kFPEOFErr → got <+: (v.bytes i resource).drop offset) := by
  refine ⟨serve_inert rfl h, fun hrc => ?_⟩
  have ht := (serve_cases h).1
  simp only [tells, hopen] at ht
  obtain rfl | rfl := hrc <;> simpa using ht

theorem prefix_append_take {F data : Bytes} {offset count : Nat} (hd : data <+: F.drop offset)
    (hg : got <+: F.drop (offset + data.length)) : data ++ got.take count <+: F.drop offset := by
  obtain ⟨rest, hrest⟩ := hd
  have hdrop : F.drop (offset + data.length) = rest := by
    rw [← drop_drop, ← hrest, drop_left]
  rw [← hrest, prefix_append_right_inj, ← hdrop]
  exact (List.take_prefix ..).trans hg

/-- The bytes that a result of the loop holds are the fork's, and no more than were asked for; its
errno is not negative. -/
def Told (F : Bytes) (offset size : Nat) : ReadResult → Prop
  | .ok (data, _) => data.length ≤ size ∧ data <+: F.drop offset
  | .error e => 0 ≤ e

theorem llReadLoop_tells (hopen : v.opened forkid = some (i, resource)) {data : Bytes}
    (hlen : data.length ≤ size) (hd : data <+: (v.bytes i resource).drop offset) :
    Wp serve (llReadLoop vol forkid offset size fuel data) s v fun r _ v' =>
      v' = v ∧ Told (v.bytes i resource) offset size r := by
  have herrno : ∀ {e : Int}, 0 ≤ e → Told (v.bytes i resource) offset size (.error e) := id
  induction fuel generalizing data with
  | zero => exact wp_ret.2 ⟨rfl, hlen, hd⟩
  | succ fuel ih =>
    refine .guard ⟨rfl, hlen, hd⟩ fun _ => wp_send.2 fun c a v' hs => ?_
    have hmore : (data ++ a.2.take (min vol.quantum (size - data.length))).length ≤ size := by
      simp only [length_append, length_take]
      omega
    obtain ⟨rfl, hgot⟩ := serve_read hopen hs
    refine .ite (fun _ => wp_ret.2 ⟨rfl, herrno (by decide)⟩) fun _ => ?_
    refine .ite (fun _ => wp_ret.2 ⟨rfl, herrno (by decide)⟩) fun _ => ?_
    refine .ite (fun he => ?_) fun _ => ?_
    · exact wp_ret.2 ⟨rfl, hmore, prefix_append_take hd (hgot (.inr he))⟩
    refine .ite (fun _ => wp_ret.2 ⟨rfl, herrno (by decide)⟩) fun hrc => ?_
    refine .guard ⟨rfl, hlen, hd⟩ fun _ => ?_
    exact ih hmore (prefix_append_take hd (hgot (.inl (by simpa using hrc))))

/-- A read at an offset of any sign: bytes come from a valid offset alone, no more than were asked
for, and are the fork's from there on; its errno is not positive. -/
def ToldAt (F : Bytes) (offset : Int) (size : Nat) : ReadResult → Prop
  | .ok (data, _) => data ≠ [] → data.length ≤ size ∧ 0 ≤ offset ∧ data <+: F.drop offset.toNat
  | .error e => e ≤ 0

theorem llReadLocked_tells {offset : Int} (hoff : 0 ≤ offset)
    (hopen : v.opened forkid = some (i, resource)) :
    Wp serve (llReadLocked vol forkid offset.toNat size) s v fun r _ v' =>
      v' = v ∧ ToldAt (v.bytes i resource) offset size r := by
  have herrno : ∀ {e : Int}, e ≤ 0 → ToldAt (v.bytes i resource) offset size (.error e) := id
  refine wp_reading llHandleLocking_forReading fun _ s₁ _ => ?_
  refine .ite (fun _ => wp_ret.2 ⟨rfl, herrno (by decide)⟩) fun _ => ?_
  refine (llReadLoop_tells hopen (Nat.zero_le _) (List.nil_prefix ..)).bind ?_
  rintro (e | ⟨data, eof⟩) s₂ _ ⟨rfl, htold⟩
  · refine wp_reading llHandleUnlocking_forReading fun _ s₃ _ => ?_
    exact wp_ret.2 ⟨rfl, herrno (Int.neg_nonpos_of_nonneg htold)⟩
  · refine wp_reading llHandleUnlocking_forReading fun _ s₃ _ => .ite (fun _ => ?_) fun _ => ?_
    · exact wp_reading llHandleUnlocking_forReading fun _ _ _ => wp_ret.2 ⟨rfl, herrno (by decide)⟩
    · exact wp_ret.2 ⟨rfl, fun _ => ⟨htold.1, hoff, htold.2⟩⟩

theorem ToldAt.mono {F : Bytes} {offset : Int} {n : Nat} {r : ReadResult} (h : ToldAt F offset n r)
    (hn : n ≤ size) : ToldAt F offset size r :=
  match r, h with
  | .ok _, h => fun hne => ⟨(h hne).1.trans hn, (h hne).2⟩
  | .error _, h => h

variable (hopen : (s.file fp).forkid ≠ 0 → v.opened (s.file fp).forkid = some (i, resource))
  (hkind : (s.file fp).resource = .none ∨ (s.file fp).resource = .resource)

include hopen in
theorem llRead_tells {offset : Int} :
    Wp serve (llRead vol size offset fp) s v fun r _ v' =>
      v' = v ∧ ToldAt (v.bytes i resource) offset size r := by
  have herrno : ∀ {e : Int}, e ≤ 0 → ToldAt (v.bytes i resource) offset size (.error e) := id
  have hnil : ∀ {eof : Bool}, ToldAt (v.bytes i resource) offset size (.ok ([], eof)) :=
    fun h => absurd rfl h
  refine .ite (fun _ => wp_ret.2 ⟨rfl, herrno (by decide)⟩) fun hne => ?_
  refine .guard ⟨rfl, hnil⟩ fun _ => ?_
  refine .ite (fun _ => wp_ret.2 ⟨rfl, herrno (by decide)⟩) fun hoff => ?_
  have hlocked : ∀ {n : Nat} {s' : MlState}, n ≤ size →
      Wp serve (llReadLocked vol (s.file fp).forkid offset.toNat n) s' v fun r _ v' =>
        v' = v ∧ ToldAt (v.bytes i resource) offset size r := fun hn =>
    (llReadLocked_tells (Int.not_lt.1 hoff) (hopen hne)).mono fun _ _ _ h => ⟨h.1, h.2.mono hn⟩
  have hrest : ∀ s', Wp serve (llReadRest vol size offset (s.file fp)) s' v fun r _ v' =>
      v' = v ∧ ToldAt (v.bytes i resource) offset size r := by
    intro s'
    refine .ite (fun _ => wp_ret.2 ⟨rfl, herrno (by decide)⟩) fun _ => .ite (fun _ => ?_) fun _ =>
      hlocked (Nat.min_le_left ..)
    refine .ite (fun _ => wp_reading afp2ForkReaches_forReading ?_) fun _ =>
      hlocked ((Nat.min_le_left ..).trans (Nat.min_le_left ..))
    rintro (e | _ | _) s₁ he
    · exact wp_ret.2 ⟨rfl, herrno (he e rfl)⟩
    · exact wp_ret.2 ⟨rfl, hnil⟩
    · exact wp_ret.2 ⟨rfl, herrno (by decide)⟩
  have hflush := (flushDirtyForksForFile_tends (forReading_tends vol 0) fp).within
  exact .ite (fun _ => wp_reading hflush fun _ s₁ _ => hrest s₁) fun _ => hrest s

include hopen hkind in
/-- `ml_read` of a data fork or a resource fork changes nothing on the server, and its bytes are
the fork's. -/
theorem mlRead_tells {offset : Int} :
    Wp serve (mlRead vol size offset fp) s v fun r _ v' =>
      v' = v ∧ ToldAt (v.bytes i resource) offset size r := by
  rw [mlRead, wp_getFile]
  obtain hk | hk := hkind
  · rw [if_pos hk]
    exact llRead_tells hopen
  · rw [if_neg (by rw [hk]; decide), appledoubleRead, wp_bind, wp_getFile, hk]
    refine (llRead_tells hopen).bind ?_
    rintro (e | r) s₁ v₁ h <;> exact wp_ret.2 (wp_ret.2 h)

/-! ## Writing -/

theorem getElem?_overwrite_lt {data : Bytes} {offset k : Nat} (h : k < offset)
    (hold : k < old.length) : (overwrite old offset data)[k]? = old[k]? := by
  rw [overwrite, append_assoc, append_assoc, getElem?_append_left (by simp; omega),
    getElem?_take_of_lt h]

theorem getElem?_overwrite_add {data : Bytes} {offset k : Nat} (h : k < data.length) :
    (overwrite old offset data)[offset + k]? = data[k]? := by
  have hpad : (old.take offset ++ List.replicate (offset - old.length) (0 : UInt8)).length = offset := by
    simp
    omega
  rw [overwrite, append_assoc, getElem?_append_right (by omega), hpad,
    Nat.add_sub_cancel_left, getElem?_append_left h]

/-- No other file and no open fork has changed. -/
structure Beside (v v' : ForkServer) (i : Nat) : Prop where
  named : v'.named = v.named
  opened : v'.opened = v.opened
  others : ∀ j, j ≠ i → v'.bytes j = v.bytes j

/-- The first `total` bytes of `data` are at the offset of the fork, what was before the offset
is still there, and no other file and no open fork has changed. -/
structure Stores (v v' : ForkServer) (i : Nat) (resource : Bool) (offset : Nat) (data : Bytes)
    (total : Nat) : Prop extends Beside v v' i where
  kept : ∀ k, k < offset → k < (v.bytes i resource).length →
    (v'.bytes i resource)[k]? = (v.bytes i resource)[k]?
  stored : ∀ k, k < total → (v'.bytes i resource)[offset + k]? = data[k]?
  total_le : total ≤ data.length

variable {total : Nat} {data : Bytes}

theorem Stores.none : Stores v v i resource offset data 0 :=
  ⟨⟨rfl, rfl, fun _ _ => rfl⟩, fun _ _ _ => rfl, fun _ h => absurd h (Nat.not_lt_zero _),
    Nat.zero_le _⟩

theorem Stores.fewer (h : Stores v v' i resource offset data total) {n : Nat} (hn : n ≤ total) :
    Stores v v' i resource offset data n :=
  ⟨h.toBeside, h.kept, fun k hk => h.stored k (Nat.lt_of_lt_of_le hk hn),
    Nat.le_trans hn h.total_le⟩

/-- The bytes stored are there, so the fork is as long. -/
theorem Stores.lt_length (h : Stores v v' i resource offset data total) {k : Nat} (hk : k < total) :
    offset + k < (v'.bytes i resource).length := by
  have hlt : k < data.length := Nat.lt_of_lt_of_le hk h.total_le
  have hs := h.stored k hk
  rw [List.getElem?_eq_getElem hlt] at hs
  exact (List.getElem?_eq_some_iff.1 hs).1

/-- A write goes on from where the last one ended. -/
theorem Stores.next (h : Stores v v' i resource offset data total) {size : Nat} :
    Stores v (v'.store i resource
      (overwrite (v'.bytes i resource) (offset + total) ((data.drop total).take size))) i resource offset
      data (total + ((data.drop total).take size).length) where
  named := h.named
  opened := h.opened
  others j hj := (store_bytes_ne hj).trans (h.others j hj)
  kept k hk hlt := by
    have hget := h.kept k hk hlt
    rw [List.getElem?_eq_getElem hlt] at hget
    rw [store_bytes_self, getElem?_overwrite_lt (by omega) (List.getElem?_eq_some_iff.1 hget).1,
      hget, List.getElem?_eq_getElem hlt]
  stored k hk := by
    rw [store_bytes_self]
    by_cases hlt : k < total
    · rw [getElem?_overwrite_lt (by omega) (h.lt_length hlt), h.stored k hlt]
    · have hchunk : k - total < ((data.drop total).take size).length := by omega
      have hsize : k - total < size := by
        rw [length_take] at hchunk
        omega
      rw [show offset + k = offset + total + (k - total) by omega, getElem?_overwrite_add hchunk,
        getElem?_take_of_lt hsize, getElem?_drop, show total + (k - total) = k by omega]
  total_le := by
    have := h.total_le
    simp only [length_take, length_drop]
    omega

theorem serve_write {rc : Int} {reply : Nat} (hopen : v.opened forkid = some (i, resource))
    (h : v.serve (.sys (.write forkid offset data)) c = some ((rc, reply), v')) :
    v' = v ∧ rc ≠ kFPNoErr ∨ v' = v.store i resource (overwrite (v.bytes i resource) offset data) ∧
      (rc = kFPNoErr → reply = offset + data.length ∧ reply < 2 ^ 64) := by
  obtain ⟨ht, h | h⟩ := serve_cases h
  · exact .inl h
  · refine .inr ⟨?_, fun hrc => ?_⟩
    · simpa [carryOut, hopen, eq_comm] using h
    · simpa [tells, hrc] using ht

theorem llWriteLoop_stores {w : ForkServer} (hopen : w.opened forkid = some (i, resource))
    (hholds : vol.Holds offset data.length) (hlt : offset + total < 2 ^ 64)
    (hst : Stores w v i resource offset data total) :
    Wp serve (llWriteLoop vol forkid offset fp data fuel total) s v fun r _ v' =>
      Stores w v' i resource offset data r.2 ∧ offset + r.2 < 2 ^ 64 := by
  induction fuel generalizing total s v with
  | zero => exact wp_ret.2 ⟨hst, hlt⟩
  | succ fuel ih =>
    refine .guard ⟨hst, hlt⟩ fun hmore => wp_send.2 fun c a v' hs => ?_
    have hat : (offset + total) % 2 ^ 64 = offset + total := Nat.mod_eq_of_lt hlt
    have hwire := hholds total (Nat.not_le.1 hmore)
    rw [place64, hat] at hwire
    rw [hat, hwire] at hs
    obtain ⟨rfl, hrc⟩ | ⟨rfl, hreply⟩ := serve_write (hst.opened ▸ hopen) hs
    · -- not carried out, so not answered with success
      exact .guard ⟨hst, hlt⟩ fun h => absurd (writeErrno_eq_zero.1 (by simpa using h)) hrc
    · have hnext := @Stores.next _ _ _ _ _ _ _ hst (min vol.quantum (data.length - total))
      have hkept := hnext.fewer (Nat.le_add_right ..)
      refine .ite (fun _ => wp_ret.2 ⟨hkept, hlt⟩) fun h => ?_
      refine .ite (fun _ => wp_ret.2 ⟨hkept, hlt⟩) fun _ => ?_
      show Wp serve (Ml.modifyFile fp _ >>= _) _ _ _
      obtain ⟨hend, hfit⟩ := hreply (writeErrno_eq_zero.1 (by simpa using h))
      have hsum : total + (a.2 - (offset + total) % 2 ^ 64) =
          total + ((data.drop total).take (min vol.quantum (data.length - total))).length := by
        rw [hat, hend, Nat.add_sub_cancel_left]
      simp only [hsum]
      exact ih (by omega) hnext

/-- A write that AFP 2 misplaces fails with its first request, which changes no other file. -/
theorem llWriteLoop_misplaced (hopen : v.opened forkid = some (i, resource)) (hv : vol.avNumber < 30)
    (hlt : offset < 2 ^ 64) (hsum : 2 ^ 64 ≤ offset + data.length) (hlen : data.length < 2 ^ 62) :
    Wp serve (llWriteLoop vol forkid offset fp data data.length 0) s v fun r _ v' =>
      Beside v v' i ∧ r.2 = 0 := by
  obtain ⟨n, hn⟩ := Nat.exists_eq_succ_of_ne_zero (show data.length ≠ 0 by omega)
  have hat : (offset + 0) % 2 ^ 64 = offset := Nat.mod_eq_of_lt hlt
  rw [hn, llWriteLoop]
  refine .ite (fun h => by omega) fun _ => wp_send.2 fun c a v' hs => ?_
  rw [hat, ServedVolume.wireCount, if_pos hv] at hs
  have hbeside : Beside v v' i := by
    obtain ⟨rfl, -⟩ | ⟨rfl, -⟩ := serve_write hopen hs
    · exact ⟨rfl, rfl, fun _ _ => rfl⟩
    · exact ⟨rfl, rfl, fun j hj => store_bytes_ne hj⟩
  refine .guard ⟨hbeside, rfl⟩ fun h => ?_
  -- The reply counts from the place in 32 bits, far below the offset.
  refine .guard ⟨hbeside, rfl⟩ fun hfar => ?_
  obtain ⟨-, hrc⟩ | ⟨-, hreply⟩ := serve_write hopen hs
  · exact absurd (writeErrno_eq_zero.1 (by simpa using h)) hrc
  · have hend := (hreply (writeErrno_eq_zero.1 (by simpa using h))).1
    simp only [length_take, drop_zero] at hend
    omega

/-- What a write leaves: it has stored the bytes that it counts, unless AFP 2 misplaces it, and then
it counts none. -/
structure WriteLeaves (vol : ServedVolume) (v v' : ForkServer) (i : Nat) (resource : Bool)
    (offset : Nat) (data : Bytes) (total : Nat) : Prop extends Beside v v' i where
  fits : offset + total < 2 ^ 64
  below : 0 < total → vol.avNumber < 30 → offset + data.length ≤ maxAfp2Filesize
  stores : (vol.avNumber < 30 → offset + data.length < 2 ^ 64) → Stores v v' i resource offset data total
  misplaced : vol.avNumber < 30 → 2 ^ 64 ≤ offset + data.length → total = 0

theorem WriteLeaves.none (hlt : offset < 2 ^ 64) : WriteLeaves vol v v i resource offset data 0 :=
  ⟨⟨rfl, rfl, fun _ _ => rfl⟩, hlt, nofun, fun _ => .none, fun _ _ => rfl⟩

/-- A write that fails may have stored more than it counts. -/
theorem WriteLeaves.fewer (h : WriteLeaves vol v v' i resource offset data total) {n : Nat}
    (hn : n ≤ total) : WriteLeaves vol v v' i resource offset data n :=
  ⟨h.toBeside, by have := h.fits; omega, fun h0 => h.below (by omega), fun hp => (h.stores hp).fewer hn,
    fun hv hs => by have := h.misplaced hv hs; omega⟩

include hopen in
theorem llWrite_stores {offset : Int} (hlen : data.length < 2 ^ 62) :
    Wp serve (llWrite vol data offset fp) s v fun r _ v' =>
      WriteLeaves vol v v' i resource (uint64 offset) data r.2 ∧ ((s.file fp).forkid = 0 → r.1 < 0) := by
  have hlt := uint64_lt offset
  refine .guard ⟨.none hlt, fun _ => by decide⟩ fun hne => ?_
  have hfork : ∀ {r : Int}, (s.file fp).forkid = 0 → r < 0 := fun h => absurd h hne
  refine .guard ⟨.none hlt, hfork⟩ fun _ => ?_
  refine .guard ⟨.none hlt, hfork⟩ fun hbound => ?_
  refine wp_reading llHandleLocking_forReading fun _ s₁ _ => ?_
  refine .guard ⟨.none hlt, hfork⟩ fun _ => ?_
  have hloop : Wp serve (llWriteLoop vol (s.file fp).forkid (uint64 offset) fp data data.length 0) s₁ v
      fun r _ v' => WriteLeaves vol v v' i resource (uint64 offset) data r.2 := by
    by_cases hmis : vol.avNumber < 30 ∧ 2 ^ 64 ≤ uint64 offset + data.length
    · refine (llWriteLoop_misplaced (hopen hne) hmis.1 hlt hmis.2 hlen).mono ?_
      rintro ⟨err, total⟩ _ v₂ ⟨hbeside, rfl⟩
      exact ⟨hbeside, hlt, nofun, fun h => absurd (h hmis.1) (Nat.not_lt.2 hmis.2), fun _ _ => rfl⟩
    · have hbelow : vol.avNumber < 30 → uint64 offset + data.length ≤ maxAfp2Filesize := by
        intro hv
        have hsum : uint64 offset + data.length < 2 ^ 64 := Nat.not_le.1 fun h => hmis ⟨hv, h⟩
        have := Nat.not_lt.1 fun h => hbound ⟨hv, h⟩
        rwa [Nat.mod_eq_of_lt hsum] at this
      have hholds : vol.Holds (uint64 offset) data.length := by
        by_cases hv : vol.avNumber < 30
        · exact ServedVolume.holds_below (Nat.lt_of_le_of_lt (hbelow hv) (by decide))
        · exact ServedVolume.holds_afp3 hv _ _
      refine (llWriteLoop_stores (hopen hne) hholds hlt .none).mono ?_
      rintro ⟨err, total⟩ _ v₂ ⟨hst, hfits⟩
      exact ⟨hst.toBeside, hfits, fun _ => hbelow, fun _ => hst, fun hv hs => absurd ⟨hv, hs⟩ hmis⟩
  refine hloop.bind ?_
  rintro ⟨err, total⟩ s₂ v₂ hst
  refine wp_reading llHandleUnlocking_forReading fun _ s₃ _ => .guard ⟨hst, hfork⟩ fun _ => ?_
  refine .ite (fun _ => ?_) fun _ => wp_ret.2 ⟨hst, hfork⟩
  exact wp_reading llHandleUnlocking_forReading fun _ _ _ => wp_ret.2 ⟨hst, hfork⟩

include hopen hkind in
/-- `ml_write` to a data fork or a resource fork stores the bytes that it counts, and none
without a fork. -/
theorem mlWrite_stores {offset : Int} (hlen : data.length < 2 ^ 62) :
    Wp serve (mlWrite vol data offset fp) s v fun r _ v' =>
      WriteLeaves vol v v' i resource (uint64 offset) data r.toNat ∧
        ((s.file fp).forkid = 0 → r < 0) := by
  have hfail : ∀ {total : Nat} {e : Int} {w : ForkServer}, e < 0 →
      WriteLeaves vol v w i resource (uint64 offset) data total →
      WriteLeaves vol v w i resource (uint64 offset) data e.toNat ∧ ((s.file fp).forkid = 0 → e < 0) :=
    fun he h => ⟨h.fewer (by omega), fun _ => he⟩
  refine .ite (fun _ => wp_ret.2 (hfail (by decide) (.none (uint64_lt offset)))) fun _ => ?_
  rw [appledoubleWrite, wp_bind, wp_getFile]
  obtain hk | hk := hkind
  · rw [hk]
    refine wp_ret.2 (.ite (fun h => absurd h (by decide)) fun _ => ?_)
    refine .ite (fun h => absurd h (by decide)) fun _ => (llWrite_stores hopen hlen).bind ?_
    rintro ⟨ret, total⟩ s₁ v₁ ⟨hst, hfork⟩
    refine .ite (fun he => wp_ret.2 (hfail he hst)) fun hn => ?_
    rw [wp_modifyFile]
    exact wp_ret.2 ⟨hst, fun h => absurd (hfork h) hn⟩
  · rw [hk]
    refine (llWrite_stores hopen hlen).bind ?_
    rintro ⟨ret, total⟩ s₁ v₁ ⟨hst, hfork⟩
    refine wp_ret.2 ?_
    by_cases he : ret < 0
    · rw [if_pos he]
      exact .guard (hfail he hst) fun h => absurd he h
    · rw [if_neg he]
      refine .ite (fun h => absurd h (by decide)) fun _ => ?_
      exact .ite (fun _ => wp_ret.2 ⟨hst, fun h => absurd (hfork h) he⟩) fun h => absurd rfl h

end NC
