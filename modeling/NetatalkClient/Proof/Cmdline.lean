import Mathlib.Order.WellFounded
import NetatalkClient.Model.Cmdline

/-!
# Copies made by the command line are whole

`retrieve_file` returns after finitely many reads whatever the server sends. `copy_remote_file` does
exactly when its reads do not come to an offset at which each further one is empty without the end of
the file (`CopyCalls.Stalls`). Both return 0 with the whole file only: the one compares what it got
with the size of the file, and the other leaves its loop at the end of the file alone.
-/

namespace NC

open List

variable {file : Bytes} {s t : CopyState} {c : CopyCalls} {e : Bool}

/-- Successful reads give a prefix of the bytes asked for, and tell the end of the file only where it
is reached. -/
def CopyCalls.Honest (file : Bytes) (c : CopyCalls) : Prop :=
  ∀ k offset, (c.read k offset).ret = 0 →
    (c.read k offset).data <+: (file.drop offset).take copyBufsize ∧
      ((c.read k offset).eof → file.length ≤ offset + (c.read k offset).data.length)

/-- The destination holds the bytes of the file up to the offset. -/
structure CopyState.Holds (file : Bytes) (s : CopyState) : Prop where
  offset : s.dest.length = s.offset
  dest : s.dest <+: file

namespace CopyState.Holds

theorem start : Holds file {} := ⟨rfl, nil_prefix⟩

theorem whole (h : s.Holds file) (hle : file.length ≤ s.offset) : s.dest = file :=
  h.dest.eq_of_length_le (h.offset.symm ▸ hle)

theorem more {data : Bytes} {n : Nat} (h : s.Holds file)
    (hdata : data <+: (file.drop s.offset).take n) (k : Nat) :
    Holds file ⟨k, s.offset + data.length, overwrite s.dest s.offset data⟩ := by
  have hdest : overwrite s.dest s.offset data = s.dest ++ data := by simp [overwrite, ← h.offset]
  obtain ⟨rest, hfile⟩ := h.dest
  have hrest := hdata.trans <| take_prefix _ _
  rw [← hfile, ← h.offset, drop_left] at hrest
  rw [hdest]
  exact ⟨by simp [h.offset], hfile ▸ (prefix_append_right_inj _).2 hrest⟩

end CopyState.Holds

namespace CopyCalls

/-- The offset of the read of number `k`, if the loop comes to it. -/
def offsetAt (c : CopyCalls) : Nat → Nat
  | 0 => 0
  | k + 1 => c.offsetAt k + (c.read k (c.offsetAt k)).data.length

/-- The read of number `k` does not end the loop. -/
def GoesOn (c : CopyCalls) (e : Bool) (k : Nat) : Prop :=
  (c.read k (c.offsetAt k)).ret = 0 ∧ ¬((c.read k (c.offsetAt k)).data = [] ∧ e = true) ∧
    ((c.read k (c.offsetAt k)).data ≠ [] → c.written k = true) ∧ (c.read k (c.offsetAt k)).eof = false

/-- The first reads succeed before the end of the file, and their bytes are written; and at the offset
to which they lead each further read is an empty success without the end of the file. -/
def Stalls (c : CopyCalls) : Prop :=
  ∃ n, (∀ k < n, c.GoesOn false k) ∧ ∀ k ≥ n, (c.read k (c.offsetAt n)).ret = 0 ∧
    (c.read k (c.offsetAt n)).data = [] ∧ (c.read k (c.offsetAt n)).eof = false

/-- The loop makes one read after the other until one ends it. -/
theorem loop_succ (fuel : Nat) (hs : s.offset = c.offsetAt s.reads) :
    (c.GoesOn e s.reads ∧ ∃ t, t.reads = s.reads + 1 ∧ t.offset = c.offsetAt t.reads ∧
      c.loop e (fuel + 1) s = c.loop e fuel t) ∨
    ¬c.GoesOn e s.reads ∧ ∃ r, c.loop e (fuel + 1) s = some r := by
  simp only [loop, hs, GoesOn]
  split
  · next h => exact .inr ⟨fun hg => h hg.1, _, rfl⟩
  split
  · next h => exact .inr ⟨fun hg => hg.2.1 h, _, rfl⟩
  split
  · next h => exact .inr ⟨fun hg => by simp [hg.2.2.1 h.1] at h, _, rfl⟩
  split
  · next h => exact .inr ⟨fun hg => by simp [hg.2.2.2] at h, _, rfl⟩
  · next hret hempty hwritten heof =>
    exact .inl ⟨⟨not_not.1 hret, hempty, by simpa using hwritten, by simpa using heof⟩, _, rfl, rfl, rfl⟩

theorem loop_ends_of_not_goesOn {n : Nat} (hn : ¬c.GoesOn e (s.reads + n))
    (hs : s.offset = c.offsetAt s.reads) : ∃ r, c.loop e (n + 1) s = some r := by
  induction n generalizing s with
  | zero => exact (loop_succ 0 hs).elim (fun h => absurd h.1 hn) fun h => h.2
  | succ n ih =>
    obtain ⟨-, t, hreads, hoffset, ht⟩ | ⟨-, h⟩ := loop_succ (n + 1) hs
    · rw [ht]
      exact ih (by rwa [hreads, Nat.add_right_comm, Nat.add_assoc]) hoffset
    · exact h

/-- The loop ends if and only if one of its reads ends it. -/
theorem loop_ends_iff : (∃ fuel r, c.loop e fuel {} = some r) ↔ ∃ k, ¬c.GoesOn e k := by
  refine ⟨fun ⟨fuel, r, h⟩ => ?_, fun ⟨k, hk⟩ => ?_⟩
  · by_contra hall
    have hgo : ∀ s : CopyState, s.offset = c.offsetAt s.reads → c.loop e fuel s = none := by
      clear h
      induction fuel with
      | zero => exact fun _ _ => rfl
      | succ fuel ih =>
        intro s hs
        obtain ⟨-, t, -, hoffset, ht⟩ | ⟨hnot, -⟩ := loop_succ fuel hs
        · exact ht.trans (ih t hoffset)
        · exact absurd ⟨_, hnot⟩ hall
    rw [hgo {} rfl] at h
    cases h
  · have hk : ¬c.GoesOn e (0 + k) := by rwa [Nat.zero_add]
    exact ⟨k + 1, loop_ends_of_not_goesOn hk rfl⟩

theorem offsetAt_mono : Monotone c.offsetAt := monotone_nat_of_le_succ fun _ => Nat.le_add_right ..

section Honest

variable {fuel : Nat} (hc : c.Honest file)
include hc

/-- The loop ends at the end of the file, or with an empty read where that ends it. -/
theorem loop_holds (h : c.loop e fuel s = some (some t)) (hs : s.Holds file) :
    t.Holds file ∧ (e = false → t.dest = file) := by
  induction fuel generalizing s with
  | zero => cases h
  | succ fuel ih =>
    simp only [loop] at h
    split at h
    · cases h
    · next hok =>
      have hread := hc s.reads s.offset (not_not.1 hok)
      have hmore := hs.more hread.1 (s.reads + 1)
      split at h
      · next hempty =>
        cases h
        exact ⟨hs, by simp [hempty.2]⟩
      split at h
      · cases h
      split at h
      · next heof =>
        cases h
        exact ⟨hmore, fun _ => hmore.whole (hread.2 heof)⟩
      · exact ih h hmore

theorem offsetAt_le (hgo : ∀ k, c.GoesOn e k) (k : Nat) : c.offsetAt k ≤ file.length := by
  induction k with
  | zero => exact Nat.zero_le _
  | succ k ih =>
    have hlen := (hc k _ (hgo k).1).1.length_le
    rw [length_take, length_drop] at hlen
    rw [offsetAt]
    omega

/-- An empty read ends the loop of `retrieve_file`, so each of its reads gets a byte. -/
theorem retrieve_ends : ∃ k, ¬c.GoesOn true k := by
  by_contra hall
  have hgo : ∀ k, c.GoesOn true k := fun k => not_not.1 fun h => hall ⟨k, h⟩
  have hgrows : StrictMono c.offsetAt := strictMono_nat_of_lt_succ fun k =>
    Nat.lt_add_of_pos_right (length_pos_iff.2 fun h => (hgo k).2.1 ⟨h, rfl⟩)
  have hle := offsetAt_le hc hgo (file.length + 1)
  exact absurd (hgrows.le_apply.trans hle) (by omega)

/-- The offset grows up to the length of the file at most, so a loop that goes on comes to one at
which it stays. -/
theorem goesOn_iff_stalls : (∀ k, c.GoesOn false k) ↔ c.Stalls := by
  refine ⟨fun hgo => ?_, fun ⟨n, hbefore, hstall⟩ k => ?_⟩
  · obtain ⟨n, hn⟩ : ∃ n, ∀ k ≥ n, c.offsetAt k = c.offsetAt n := by
      refine ⟨Function.argmin fun k => file.length - c.offsetAt k, fun k hk => ?_⟩
      have hleast := Function.argmin_le (fun k => file.length - c.offsetAt k) k
      have hmono : c.offsetAt _ ≤ c.offsetAt k := offsetAt_mono hk
      have hle := offsetAt_le hc hgo k
      omega
    refine ⟨n, fun k _ => hgo k, fun k hk => ?_⟩
    have hnext := hn (k + 1) (by omega)
    rw [offsetAt, hn k hk] at hnext
    have hgo := hgo k
    rw [GoesOn, hn k hk] at hgo
    exact ⟨hgo.1, length_eq_zero_iff.1 (by omega), hgo.2.2.2⟩
  · have hstays : ∀ k, c.offsetAt (n + k) = c.offsetAt n := by
      intro k
      induction k with
      | zero => rfl
      | succ k ih => rw [← Nat.add_assoc, offsetAt, ih, (hstall _ (by omega)).2.1]; rfl
    by_cases hk : k < n
    · exact hbefore k hk
    · obtain ⟨j, rfl⟩ := Nat.exists_eq_add_of_le (Nat.not_lt.1 hk)
      obtain ⟨hret, hempty, heof⟩ := hstall (n + j) (by omega)
      rw [GoesOn, hstays, hempty]
      exact ⟨hret, by simp, by simp, heof⟩

end Honest

end CopyCalls

theorem RemoteCopy.ends_iff {c : RemoteCopy} :
    (∃ fuel r, c.copyRemoteFile fuel = some r) ↔ c.Unstarted ∨ ∃ fuel r, c.loop false fuel {} = some r := by
  by_cases hr : c.Unstarted
  · refine iff_of_true ⟨0, _, if_pos hr⟩ (.inl hr)
  · have hrun (fuel : Nat) : (∃ r, c.copyRemoteFile fuel = some r) ↔ ∃ r, c.loop false fuel {} = some r := by
      rw [copyRemoteFile, if_neg hr]
      cases c.loop false fuel {} <;> simp
    simp only [hrun, hr, false_or]

/-- `retrieve_file` returns; `copy_remote_file` returns if and only if it fails before its first read
or does not stall; and both return 0 with the whole file only. -/
theorem copies_end_whole {d : Retrieve} {c : RemoteCopy} (hsize : d.stSize = file.length)
    (hd : d.Honest file) (hc : c.Honest file) :
    (∃ fuel r, d.retrieveFile fuel = some r) ∧
    (∀ fuel b, d.retrieveFile fuel = some (.ok b) → b = file) ∧
    ((∃ fuel r, c.copyRemoteFile fuel = some r) ↔ c.Unstarted ∨ ¬c.Stalls) ∧
    ∀ fuel b, c.copyRemoteFile fuel = some (.ok b) → b = file := by
  refine ⟨?_, fun fuel b h => ?_, ?_, fun fuel b h => ?_⟩
  · obtain ⟨fuel, r, h⟩ := CopyCalls.loop_ends_iff.2 (CopyCalls.retrieve_ends hd)
    refine ⟨fuel, ?_⟩
    rw [Retrieve.retrieveFile, h]
    split <;> exact ⟨_, rfl⟩
  · obtain ⟨s, hs, hfull, rfl⟩ : ∃ s, d.loop true fuel {} = some (some s) ∧ s.offset = d.stSize ∧
        s.dest = b := by
      grind [Retrieve.retrieveFile, Option.map_eq_some_iff]
    exact (CopyCalls.loop_holds hd hs .start).1.whole (by omega)
  · rw [RemoteCopy.ends_iff, CopyCalls.loop_ends_iff, ← CopyCalls.goesOn_iff_stalls hc, not_forall]
  · obtain ⟨s, hs, rfl⟩ : ∃ s, c.loop false fuel {} = some (some s) ∧ s.dest = b := by
      grind [RemoteCopy.copyRemoteFile, Option.map_eq_some_iff]
    exact (CopyCalls.loop_holds hc hs .start).2 rfl

/-- Reads of three bytes, one at a time; the second read is empty. -/
def byteReads (k offset : Nat) : SlRead :=
  if k = 1 then {} else { data := (([1, 2, 3] : Bytes).drop offset).take 1, eof := decide (2 ≤ offset) }

theorem byteReads_honest : CopyCalls.Honest [1, 2, 3] { read := byteReads } := by
  intro k offset _
  show (byteReads k offset).data <+: _ ∧ ((byteReads k offset).eof = true →
    3 ≤ offset + (byteReads k offset).data.length)
  unfold byteReads
  split
  · exact ⟨by simp, nofun⟩
  · refine ⟨take_prefix_take_left (by decide), fun heof => ?_⟩
    have := of_decide_eq_true heof
    simp
    omega

/-- A copy of three bytes, with an empty read among those that get them. -/
theorem copies_end_whole_bytewise :
    (∃ fuel r, RemoteCopy.copyRemoteFile { read := byteReads } fuel = some r) ∧
      ∀ fuel b, RemoteCopy.copyRemoteFile { read := byteReads } fuel = some (.ok b) → b = [1, 2, 3] := by
  obtain ⟨-, -, hends, hwhole⟩ := copies_end_whole (d := { stSize := 3, read := byteReads })
    (c := { read := byteReads }) rfl byteReads_honest byteReads_honest
  refine ⟨hends.2 (.inr ?_), hwhole⟩
  rintro ⟨n, -, hstall⟩
  obtain ⟨-, hempty, heof⟩ := hstall (n + 2) (by omega)
  simp only [byteReads, if_neg (show n + 2 ≠ 1 by omega)] at hempty heof
  have := of_decide_eq_false heof
  have := congrArg List.length hempty
  simp at this
  omega

/-- A server that answers each read of an empty file with an empty success: the copy goes on reading. -/
theorem copy_never_ends : ∃ c : RemoteCopy, c.Honest [] ∧
    (∀ k offset, c.read k offset = c.read 0 offset) ∧ ∀ fuel, c.copyRemoteFile fuel = none := by
  refine ⟨{ read := fun _ _ => {} }, fun _ _ _ => ⟨by simp, nofun⟩, fun _ _ => rfl,
    fun fuel => ?_⟩
  suffices ∀ s, CopyCalls.loop { read := fun _ _ => {} } false fuel s = none from
    congrArg (Option.map _) (this {})
  induction fuel with
  | zero => exact fun _ => rfl
  | succ fuel ih => exact fun s => ih _

end NC
