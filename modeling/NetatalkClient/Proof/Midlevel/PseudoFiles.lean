import NetatalkClient.Framework.Cost
import NetatalkClient.Model.Midlevel.View

/-!
# Comments and Finder information as byte arrays

The calls on an open pseudo-file, against a server that keeps what it is given (`MetaStore`), do to the
comment what `commentOp` does to an array of at most 199 bytes, and to the Finder information what
`finderOp` does to one of 32 (`pseudo_files_are_arrays`), as long as no write of Finder information has
a size that is not an `int`: of such a size `appledouble_write` keeps the low bits
(`finderinfo_write_cut`).
-/

namespace NC

open List

/-! ## Arrays -/

/-- A call on an open pseudo-file. -/
inductive PseudoOp where
  | write (data : Bytes) (offset : Int)
  | read (size : Nat) (offset : Int)
  | ftruncate (length : Int)

/-- What it returns. -/
inductive PseudoResult where
  | wrote (ret : Int) (count : Nat)
  | got (read : Except Int (Option (Bytes × Bool)))
  | length (ret : Int)

/-- The call on a comment, as an array of at most `AFP_COMMENT_MAX` bytes. -/
def commentOp (a : Bytes) : PseudoOp → PseudoResult × Bytes
  | .write data offset =>
    if offset < 0 then (.wrote (-EINVAL) 0, a)
    else if AFP_COMMENT_MAX ≤ offset.toNat then (.wrote (-EFBIG) 0, a)
    else if data = [] then (.wrote 1 0, a)
    else (.wrote 1 (min (AFP_COMMENT_MAX - offset.toNat) data.length),
      overwrite a offset.toNat (data.take (AFP_COMMENT_MAX - offset.toNat)))
  | .read size offset =>
    if offset < 0 then (.got (.error (-EINVAL)), a)
    else
      let slice := (a.drop offset.toNat).take size
      (.got (.ok (some (slice, decide (a.length ≤ offset.toNat + slice.length)))), a)
  | .ftruncate length =>
    if length < 0 then (.length (-EINVAL), a)
    else if (AFP_COMMENT_MAX : Int) < length then (.length (-EFBIG), a)
    else (.length 1, a.take length.toNat ++ List.replicate (length.toNat - a.length) 0)

/-- The call on Finder information, as an array of 32 bytes. -/
def finderOp (a : Bytes) : PseudoOp → PseudoResult × Bytes
  | .write data offset =>
    if offset < 0 ∨ 32 ≤ offset then (.wrote (-EINVAL) 0, a)
    else (.wrote 1 (min (32 - offset.toNat) data.length),
      overwrite a offset.toNat (data.take (32 - offset.toNat)))
  | .read size offset =>
    if offset < 0 ∨ 32 < offset then (.got (.error (-EFAULT)), a)
    else
      let slice := (a.drop offset.toNat).take size
      (.got (.ok (some (slice, decide (a.length ≤ offset.toNat + slice.length)))), a)
  | .ftruncate _ => (.length 1, a)

/-- One call after another on an array. -/
def arrayOps (step : Bytes → PseudoOp → PseudoResult × Bytes) :
    Bytes → List PseudoOp → List PseudoResult × Bytes
  | a, [] => ([], a)
  | a, op :: ops => ((step a op).1 :: (arrayOps step (step a op).2 ops).1,
      (arrayOps step (step a op).2 ops).2)

/-! ## The calls, and the server -/

/-- The call on the record at `fp`. -/
def pseudoCall (vol : ServedVolume) (fp : Nat) : PseudoOp → MlCall PseudoResult
  | .write data offset => do
    let (ret, count) ← appledoubleWrite vol fp data offset
    return .wrote ret count
  | .read size offset => do return .got (← appledoubleRead vol fp size offset)
  | .ftruncate length => do return .length (← appledoubleFtruncate vol fp length)

/-- One call after another. -/
def pseudoCalls (vol : ServedVolume) (fp : Nat) : List PseudoOp → MlCall (List PseudoResult)
  | [] => return []
  | op :: ops => do
    let r ← pseudoCall vol fp op
    let rs ← pseudoCalls vol fp ops
    return r :: rs

/-- What a server keeps of a file, and the requests it has answered. -/
structure MetaStore where
  comment : Bytes
  finder : Bytes
  answered : Nat := 0

/-- What the server is free to choose at a request: a file's other parameters, the number of the
desktop database, and whether an empty comment is one that is not found. -/
structure MetaTurn where
  params : Params := {}
  refnum : Nat := 1
  absent : Bool := false

/-- The server, for the file of this name in this directory. -/
def MetaStore.serve (did : Nat) (name : Path) (turns : Nat → MetaTurn) (v : MetaStore) :
    (r : MlReq) → r.Ans × MetaStore
  | .sys (.getFileDirParms d _ _ n) =>
    (if d = did ∧ n = name then
        (kFPNoErr, { (turns v.answered).params with finderinfo := v.finder })
      else (kFPObjectNotFound, {}), { v with answered := v.answered + 1 })
  | .sys (.setParms _ d n bitmap values) =>
    if d = did ∧ n = name then
      (kFPNoErr, if bitmap &&& kFPFinderInfoBit ≠ 0 then { v with finder := values.finderinfo } else v)
    else (kFPObjectNotFound, v)
  | .sys .openDT => ((kFPNoErr, (turns v.answered).refnum), { v with answered := v.answered + 1 })
  | .sys (.getComment _ d n) =>
    (if d = did ∧ n = name then
        if v.comment = [] ∧ (turns v.answered).absent then (kFPItemNotFound, []) else (kFPNoErr, v.comment)
      else (kFPObjectNotFound, []), { v with answered := v.answered + 1 })
  | .sys (.addComment _ d n comment) =>
    if d = did ∧ n = name then (kFPNoErr, { v with comment := comment }) else (kFPObjectNotFound, v)
  | .sys r => ((default : r.Ans), v)
  | .did c => ((default : c.Ans), v)

open MetaStore Prog

section Calls

variable {vol : ServedVolume} {fp : Nat} {f : FileInfo} {turns : Nat → MetaTurn} {s : MlState}
  {v : MetaStore}

/-- The record is that of the file, on a server with a desktop database. -/
structure PseudoOpen (fp : Nat) (f : FileInfo) (s : MlState) : Prop where
  file : s.file fp = f
  desktop : s.noDesktop = false

/-- Every run of the call against the server of the file. -/
abbrev WpMeta (vol : ServedVolume) (f : FileInfo) (turns : Nat → MetaTurn) {α : Type} (p : MlCall α)
    (s : MlState) (v : MetaStore) (Q : α → MlState → MetaStore → Prop) : Prop :=
  Wp (always (MetaStore.serve f.did (vol.wireName f.basename) turns)) p s v Q

/-! ## Comments -/

theorem wp_ensureDtOpened (h : PseudoOpen fp f s) :
    WpMeta vol f turns ensureDtOpened s v fun r s' v' =>
      r = 0 ∧ PseudoOpen fp f s' ∧ v'.comment = v.comment ∧ v'.finder = v.finder := by
  refine wp_bind.2 (wp_modifyGet.2 (.guard ⟨rfl, h, rfl, rfl⟩ fun _ => ?_))
  refine .ite (fun hno => absurd hno (by simp [h.desktop])) fun _ => ?_
  refine wp_bind.2 (wp_always_request.2 ?_)
  refine .ite (fun hno => absurd hno (by simp [serve, kFPCallNotSupported])) ?_
  refine fun _ => .ite (fun hno => absurd rfl hno) fun _ => ?_
  exact wp_bind.2 (wp_modify.2 (wp_ret.2 ⟨rfl, ⟨h.file, h.desktop⟩, rfl, rfl⟩))

theorem wp_readComment (h : PseudoOpen fp f s) (hlen : v.comment.length ≤ AFP_COMMENT_MAX) :
    WpMeta vol f turns (readComment vol f.basename f.did) s v fun r s' v' =>
      r = .ok v.comment ∧ PseudoOpen fp f s' ∧ v'.comment = v.comment ∧ v'.finder = v.finder := by
  refine (wp_ensureDtOpened h).bind ?_
  rintro _ s' v' ⟨rfl, hs, hc, hf⟩
  refine .ite (fun hno => absurd rfl hno) fun _ => wp_bind.2 (wp_modifyGet.2 ?_)
  refine wp_bind.2 (wp_always_request.2 (wp_ret.2 ⟨?_, hs, hc, hf⟩))
  have htake : v.comment.take 255 = v.comment := 
    take_of_length_le (Nat.le_trans hlen (by decide))
  simp only [serve, and_self, if_true, hc]
  split
  · next hnone => simp [hnone.1]
  · simp [htake]

theorem wp_addComment {dtrefnum : Nat} {c : Bytes} {Q : Int → MlState → MetaStore → Prop}
    (h : Q kFPNoErr s { v with comment := c }) :
    WpMeta vol f turns (Ml.afpAddcomment vol dtrefnum f.did f.basename c) s v Q := by
  refine wp_always_request.2 ?_
  simpa [serve] using h

variable {n offset : Nat} {a : Bytes}

theorem wp_setCommentLength (h : PseudoOpen fp f s) (hlen : v.comment.length ≤ AFP_COMMENT_MAX)
    (hn : n ≤ AFP_COMMENT_MAX) :
    WpMeta vol f turns (setCommentLength vol f.basename f.did n) s v fun r s' v' =>
      r = 0 ∧ PseudoOpen fp f s' ∧ v'.finder = v.finder ∧
        v'.comment = v.comment.take n ++ List.replicate (n - v.comment.length) 0 := by
  refine .ite (fun hneg => absurd hneg (by omega)) fun _ => ?_
  refine .ite (fun hbig => absurd hbig (by simpa using hn)) fun _ => ?_
  refine (wp_ensureDtOpened h).bind ?_
  rintro _ s₁ v₁ ⟨rfl, hs₁, hc₁, hf₁⟩
  simp only [Int.toNat_natCast]
  by_cases hpos : 0 < n
  · simp only [if_pos hpos]
    refine (wp_readComment hs₁ (hc₁ ▸ hlen)).bind ?_
    rintro _ s₂ v₂ ⟨rfl, hs₂, hc₂, hf₂⟩
    refine wp_bind.2 (wp_modifyGet.2 (wp_bind.2 (wp_addComment (wp_ret.2 ?_))))
    refine ⟨rfl, hs₂, hf₂.trans hf₁, ?_⟩
    have hpad : n - min n v.comment.length = n - v.comment.length := by omega
    rw [hc₁, take_of_length_le hlen, length_take, hpad]
  · simp only [if_neg hpos]
    refine wp_bind.2 (wp_ret.2 (wp_bind.2 (wp_modifyGet.2 (wp_bind.2 (wp_addComment (wp_ret.2 ?_))))))
    obtain rfl : n = 0 := by omega
    exact ⟨rfl, hs₁, hf₁, by simp⟩

theorem overwrite_length_le {data : Bytes} (ha : a.length ≤ n) (hd : offset + data.length ≤ n) :
    (overwrite a offset data).length ≤ n := by
  simp only [overwrite, length_append, length_take, length_replicate, length_drop]
  omega

theorem wp_commentOp (h : PseudoOpen fp f s) (hkind : f.resource = .comment)
    (hlen : v.comment.length ≤ AFP_COMMENT_MAX) (op : PseudoOp) :
    WpMeta vol f turns (pseudoCall vol fp op) s v fun r s' v' =>
      r = (commentOp v.comment op).1 ∧ PseudoOpen fp f s' ∧ v'.finder = v.finder ∧
        v'.comment = (commentOp v.comment op).2 := by
  have htake : v.comment.take AFP_COMMENT_MAX = v.comment := take_of_length_le hlen
  cases op with
  | write data offset =>
    refine wp_bind.2 (wp_bind.2 (wp_modifyGet.2 ?_))
    simp only [h.file, hkind, commentOp]
    refine .ite (fun hneg => wp_ret.2 (wp_ret.2 ?_)) fun hneg => ?_
    · rw [if_pos hneg]
      exact ⟨rfl, h, rfl, rfl⟩
    refine .ite (fun hbig => wp_ret.2 (wp_ret.2 ?_)) fun hbig => ?_
    · rw [if_neg hneg, if_pos hbig]
      exact ⟨rfl, h, rfl, rfl⟩
    refine .ite (fun hnil => wp_ret.2 (wp_ret.2 ?_)) fun hnil => ?_
    · rw [if_neg hneg, if_neg hbig, if_pos hnil]
      exact ⟨rfl, h, rfl, rfl⟩
    refine (wp_readComment h hlen).bind ?_
    rintro _ s₁ v₁ ⟨rfl, hs₁, -, hf₁⟩
    refine wp_bind.2 (wp_modifyGet.2 (wp_bind.2 (wp_addComment (wp_ret.2 (wp_ret.2 ?_)))))
    rw [if_neg hneg, if_neg hbig, if_neg hnil, htake]
    exact ⟨by rw [length_take]; rfl, hs₁, hf₁, rfl⟩
  | read size offset =>
    refine wp_bind.2 (wp_bind.2 (wp_modifyGet.2 ?_))
    simp only [h.file, hkind, commentOp]
    refine (wp_readComment h hlen).bind ?_
    rintro _ s₁ v₁ ⟨rfl, hs₁, hc₁, hf₁⟩
    refine .ite (fun hneg => wp_ret.2 (wp_ret.2 ?_)) fun hneg => wp_ret.2 (wp_ret.2 ?_)
    · rw [if_pos hneg]
      exact ⟨rfl, hs₁, hf₁, hc₁⟩
    · rw [if_neg hneg, htake]
      exact ⟨rfl, hs₁, hf₁, hc₁⟩
  | ftruncate length =>
    refine wp_bind.2 (wp_bind.2 (wp_modifyGet.2 ?_))
    simp only [h.file, hkind, commentOp]
    by_cases hneg : length < 0
    · simp only [setCommentLength, if_pos hneg]
      exact wp_ret.2 (wp_ret.2 ⟨rfl, h, rfl, rfl⟩)
    obtain ⟨n, rfl⟩ := Int.eq_ofNat_of_zero_le (Int.not_lt.1 hneg)
    by_cases hbig : AFP_COMMENT_MAX < n
    · have hbig' : (AFP_COMMENT_MAX : Int) < n := by omega
      simp only [setCommentLength, Int.toNat_natCast, if_pos hbig, if_pos hbig']
      exact wp_ret.2 (wp_ret.2 ⟨rfl, h, rfl, rfl⟩)
    have hbig' : ¬(AFP_COMMENT_MAX : Int) < n := by omega
    refine (wp_setCommentLength h hlen (Nat.not_lt.1 hbig)).bind ?_
    rintro _ s₁ v₁ ⟨rfl, hs₁, hf₁, hc₁⟩
    simp only [if_neg hbig']
    exact wp_ret.2 (wp_ret.2 ⟨rfl, hs₁, hf₁, hc₁⟩)

theorem commentOp_length (ha : a.length ≤ AFP_COMMENT_MAX) (op : PseudoOp) :
    (commentOp a op).2.length ≤ AFP_COMMENT_MAX := by
  cases op with
  | write data offset =>
    simp only [commentOp]
    split
    · exact ha
    split
    · exact ha
    split
    · exact ha
    · refine overwrite_length_le ha ?_
      rw [length_take]
      omega
  | read size offset =>
    simp only [commentOp]
    split <;> exact ha
  | ftruncate length =>
    simp only [commentOp]
    split
    · exact ha
    split
    · exact ha
    · rw [length_append, length_take, length_replicate]
      omega

/-! ## Finder information -/

theorem wp_writeFinderinfo (h : PseudoOpen fp f s) {data : Bytes} (hoff : offset < 32) :
    WpMeta vol f turns (writeFinderinfo vol f data offset) s v fun r s' v' =>
      r = (1, min (finderinfoCount data.length offset) data.length) ∧ PseudoOpen fp f s' ∧
        v'.comment = v.comment ∧
        v'.finder = overwrite v.finder offset (data.take (finderinfoCount data.length offset)) := by
  refine .ite (fun hbig => by omega) fun _ => wp_bind.2 ?_
  refine wp_always_request.2 ?_
  simp only [serve]
  refine .ite (fun hno => absurd rfl hno) fun _ => wp_bind.2 (wp_always_request.2 ?_)
  simp only [serve, and_self, if_true, Int.toNat_natCast]
  refine wp_ret.2 ⟨?_, h, ?_, ?_⟩
  · rw [if_neg (not_not.2 rfl), length_take]
  · split <;> rfl
  · rw [if_pos]
    split <;> decide

/-- A write within Finder information has a size that is an `int`, or that is still large enough as
one. -/
def PseudoOp.sized : PseudoOp → Prop
  | .write data offset => 0 ≤ offset → offset < 32 →
      data.length < 2 ^ 31 ∨ 32 - offset ≤ Int.bmod data.length (2 ^ 32)
  | _ => True

theorem finderinfoCount_int {size : Nat} (hoff : offset < 32)
    (hsize : size < 2 ^ 31 ∨ 32 - (offset : Int) ≤ Int.bmod size (2 ^ 32)) :
    finderinfoCount size offset = min size (32 - offset) := by
  rw [finderinfoCount]
  rcases hsize with hsize | hsize
  · rw [show Int.bmod size (2 ^ 32) = size from Int.bmod_eq_of_le (by omega) (by omega)]
    omega
  · have hle : Int.bmod size (2 ^ 32) ≤ size := by
      rw [Int.bmod]
      split <;> omega
    omega

theorem wp_finderOp (h : PseudoOpen fp f s) (hkind : f.resource = .finderinfo)
    (hlen : v.finder.length = 32) {op : PseudoOp} (hop : op.sized) :
    WpMeta vol f turns (pseudoCall vol fp op) s v fun r s' v' =>
      r = (finderOp v.finder op).1 ∧ PseudoOpen fp f s' ∧ v'.comment = v.comment ∧
        v'.finder = (finderOp v.finder op).2 := by
  cases op with
  | write data offset =>
    refine wp_bind.2 (wp_bind.2 (wp_modifyGet.2 ?_))
    simp only [h.file, hkind, finderOp]
    by_cases hout : offset < 0 ∨ 32 ≤ offset
    · simp only [writeFinderinfo, if_pos hout]
      exact wp_ret.2 (wp_ret.2 ⟨rfl, h, rfl, rfl⟩)
    obtain ⟨n, rfl⟩ := Int.eq_ofNat_of_zero_le (show 0 ≤ offset by omega)
    have hn : n < 32 := by omega
    have hcount := finderinfoCount_int hn (hop (by omega) (by omega))
    have hmin : data.take (min data.length (32 - n)) = data.take (32 - n) := by
      rw [Nat.min_comm, ← take_take, take_length]
    refine (wp_writeFinderinfo h hn).mono ?_
    rintro _ s₁ v₁ ⟨rfl, hs₁, hc₁, hf₁⟩
    refine wp_ret.2 ⟨?_, hs₁, hc₁, ?_⟩
    · rw [if_neg hout, hcount, Int.toNat_natCast]
      congr 1
      omega
    · rw [if_neg hout, hf₁, hcount, hmin, Int.toNat_natCast]
  | read size offset =>
    refine wp_bind.2 (wp_bind.2 (wp_modifyGet.2 ?_))
    simp only [h.file, hkind, finderOp]
    refine .ite (fun hout => wp_ret.2 (wp_ret.2 ?_)) fun hout => wp_bind.2 (wp_always_request.2 ?_)
    · rw [if_pos hout]
      exact ⟨rfl, h, rfl, rfl⟩
    simp only [serve, and_self, if_true]
    refine .ite (fun hno => absurd rfl hno) fun _ => wp_ret.2 (wp_ret.2 ?_)
    have hslice : (v.finder.drop offset.toNat).take (min size (32 - offset.toNat)) =
        (v.finder.drop offset.toNat).take size := by
      rw [← hlen, ← length_drop, ← take_take, take_length]
    have hend : (offset.toNat + min size (32 - offset.toNat) == 32) =
        decide (v.finder.length ≤ offset.toNat + ((v.finder.drop offset.toNat).take size).length) := by
      rw [length_take, length_drop, hlen, Bool.eq_iff_iff, beq_iff_eq, decide_eq_true_iff]
      omega
    rw [if_neg hout, hslice, hend]
    exact ⟨rfl, h, rfl, rfl⟩
  | ftruncate length =>
    refine wp_bind.2 (wp_bind.2 (wp_modifyGet.2 ?_))
    simp only [h.file, hkind]
    exact wp_ret.2 (wp_ret.2 ⟨rfl, h, rfl, rfl⟩)

theorem finderOp_length (ha : a.length = 32) (op : PseudoOp) : (finderOp a op).2.length = 32 := by
  cases op with
  | write data offset =>
    simp only [finderOp]
    split
    · exact ha
    · simp only [overwrite, length_append, length_take, length_replicate, length_drop]
      omega
  | read size offset =>
    simp only [finderOp]
    split <;> exact ha
  | ftruncate length => exact ha

/-! ## Any sequence of calls -/

/-- What holds of one call and is kept by it holds of all. -/
theorem wp_pseudoCalls {step : Bytes → PseudoOp → PseudoResult × Bytes} (part rest : MetaStore → Bytes)
    (inv : Bytes → Prop) (allowed : PseudoOp → Prop)
    (hstep : ∀ {s v op}, PseudoOpen fp f s → inv (part v) → allowed op →
      WpMeta vol f turns (pseudoCall vol fp op) s v fun r s' v' =>
        r = (step (part v) op).1 ∧ PseudoOpen fp f s' ∧ rest v' = rest v ∧
          part v' = (step (part v) op).2)
    (hinv : ∀ {a op}, inv a → allowed op → inv (step a op).2) {ops : List PseudoOp}
    (hops : ∀ op ∈ ops, allowed op) (h : PseudoOpen fp f s) (hv : inv (part v)) :
    WpMeta vol f turns (pseudoCalls vol fp ops) s v fun r _ v' =>
      r = (arrayOps step (part v) ops).1 ∧ rest v' = rest v ∧
        part v' = (arrayOps step (part v) ops).2 := by
  induction ops generalizing s v with
  | nil => exact wp_ret.2 ⟨rfl, rfl, rfl⟩
  | cons op ops ih =>
    obtain ⟨hop, hrest⟩ := forall_mem_cons.1 hops
    refine (hstep h hv hop).bind ?_
    rintro _ s₁ v₁ ⟨rfl, hs₁, hr₁, hp₁⟩
    refine (ih hrest hs₁ (hp₁ ▸ hinv hv hop)).bind ?_
    rintro _ s₂ v₂ ⟨rfl, hr₂, hp₂⟩
    refine wp_ret.2 ⟨?_, hr₂.trans hr₁, ?_⟩
    · rw [arrayOps, hp₁]
    · rw [arrayOps, hp₂, hp₁]

/-- The calls on an open comment give what they give on an array of at most 199 bytes, and leave the
Finder information; those on open Finder information, with sizes that are an `int`, what they give on an
array of 32 bytes, and leave the comment. -/
theorem pseudo_files_are_arrays (h : PseudoOpen fp f s) (hcomment : v.comment.length ≤ AFP_COMMENT_MAX)
    (hfinder : v.finder.length = 32) (ops : List PseudoOp) :
    let out := (pseudoCalls vol fp ops).exec
      (serve f.did (vol.wireName f.basename) turns) s v
    (f.resource = .comment →
      out.1 = (arrayOps commentOp v.comment ops).1 ∧ out.2.2.finder = v.finder ∧
        out.2.2.comment = (arrayOps commentOp v.comment ops).2) ∧
    (f.resource = .finderinfo → (∀ op ∈ ops, op.sized) →
      out.1 = (arrayOps finderOp v.finder ops).1 ∧ out.2.2.comment = v.comment ∧
        out.2.2.finder = (arrayOps finderOp v.finder ops).2) := by
  refine ⟨fun hkind => ?_, fun hkind hops => ?_⟩
  · exact exec_of_wp (wp_pseudoCalls comment finder
      (fun a => a.length ≤ AFP_COMMENT_MAX) (fun _ => True) (fun hs hv _ => wp_commentOp hs hkind hv _)
      (fun ha _ => commentOp_length ha _) (fun _ _ => trivial) h hcomment)
  · exact exec_of_wp (wp_pseudoCalls finder comment
      (fun a => a.length = 32) PseudoOp.sized (fun hs hv hop => wp_finderOp hs hkind hv hop)
      (fun ha _ => finderOp_length ha _) hops h hfinder)

end Calls

/-- Open Finder information, at address 0. -/
def openFinder : MlState :=
  { dtrefnum := 0, noDesktop := false, file := fun _ => { resource := .finderinfo }, nextFile := 1,
    openForks := [] }

/-- Nothing stored yet. -/
def blankStore : MetaStore := { comment := [], finder := List.replicate 32 0 }

/-- A write to open Finder information and a read of it. -/
theorem pseudo_files_are_arrays_two :
    ((pseudoCalls plainServed 0 [.write [1, 2] 3, .read 8 2]).exec
      (MetaStore.serve 0 [] fun _ => {}) openFinder blankStore).2.2.finder =
      (arrayOps finderOp blankStore.finder [.write [1, 2] 3, .read 8 2]).2 :=
  ((@pseudo_files_are_arrays plainServed 0 { resource := .finderinfo } (fun _ => {}) openFinder
    blankStore ⟨rfl, rfl⟩ (by decide) (by decide) [.write [1, 2] 3, .read 8 2]).2 rfl (by
      simp [PseudoOp.sized])).2.2

/-- Of a write of 2 ^ 32 bytes to Finder information nothing is written: its size is 0 as an `int`. -/
theorem finderinfo_write_cut :
    ((appledoubleWrite plainServed 0 (List.replicate (2 ^ 32) 1) 0).exec
      (MetaStore.serve 0 [] fun _ => {}) openFinder blankStore).1 = (1, 0) ∧
    (finderOp blankStore.finder (.write (List.replicate (2 ^ 32) 1) 0)).1 = .wrote 1 32 := by
  have hcount : finderinfoCount (List.replicate (2 ^ 32) (1 : UInt8)).length 0 = 0 := by
    rw [length_replicate]
    decide
  have h := exec_of_wp (@wp_writeFinderinfo plainServed 0 { resource := .finderinfo } (fun _ => {})
    openFinder blankStore 0 ⟨rfl, rfl⟩ (List.replicate (2 ^ 32) 1) (by decide))
  rw [hcount, Nat.zero_min] at h
  refine ⟨h.1, ?_⟩
  rw [finderOp, if_neg (by decide), length_replicate]
  rfl

end NC
