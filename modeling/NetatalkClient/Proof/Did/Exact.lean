import NetatalkClient.Model.Midlevel.Requests
import NetatalkClient.Proof.Did.Paths

/-!
# What the cache forgets

`check_did_entry` compares raw lengths and bytes: `contradictsListing_iff` is what its tests come to.
`did_cache_exact` has what the functions that forget leave of a cache.
-/

namespace NC

open List

/-- `d` is directly in the path. -/
def ChildOf (p d : Path) : Prop := ∃ n, slash ∉ n ∧ d = stem p ++ slash :: n

/-- A folder of the name in a listing. -/
def Entry.isFolder (name : Name) (f : Entry) : Bool :=
  f.isdir && f.valid &&& kFPNodeIDBit != 0 && f.name == name

/-- A folder's ID, or its listing, contradicts an entry: its own, or a child's. -/
def Contradicted (p : Path) (did : Nat) (l : Option (List Entry)) (e : DidEntry) : Prop :=
  if did ≠ 0 ∧ e.dirname = bare p then e.did ≠ did
  else ChildOf p e.dirname ∧ (did ≠ 0 ∧ e.parentdid ≠ did ∨
    ∃ fs ∈ l, ∀ f ∈ fs, f.isFolder e.name = true → f.cnid ≠ e.did)

/-- `check_did_entry` keeps an entry of the cache: neither it nor an entry at a path above it is
contradicted, and if any is, it has not expired. -/
def Survives (p : Path) (did : Nat) (l : Option (List Entry)) (now : Nat) (c : List DidEntry)
    (e : DidEntry) : Prop :=
  ¬Contradicted p did l e ∧ ∀ r ∈ c, Contradicted p did l r →
    didEntryExpired e now = false ∧ ¬AtOrBeneath r.dirname e.dirname

/-- No two folders of a listing have one name. -/
def FoldersDiffer (fs : List Entry) : Prop :=
  ∀ f ∈ fs, ∀ g ∈ fs, ∀ name, f.isFolder name = true → g.isFolder name = true → f.cnid = g.cnid

/-- The clock shows `now`, and there is memory. -/
def atTime (now : Nat) : Unit → (r : Req) → Unit → Option (r.Ans × Unit)
  | _, .alloc, _ => some (true, ())
  | _, .now, _ => some (now, ())
  | _, _, _ => none

/-- A call leaves of a cache exactly the entries that satisfy `P`, in their old order. -/
def LeavesExactly (now : Nat) (call : Call Unit) (c : List DidEntry) (P : DidEntry → Prop) : Prop :=
  ∃ keep : DidEntry → Bool, (∀ e ∈ c, (keep e = true ↔ P e)) ∧
    (call.run (atTime now) ⟨c⟩ () [(), ()]).map (·.2.1.didCache) = some (c.filter keep)

variable {fs : List Entry}

section Paths

variable {p d : Path} (hp : p.head? = some slash)

include hp

theorem didChildOf_iff : didChildOf d p (didPathLength p) = true ↔ ChildOf p d := by
  obtain ⟨hlen, hsep⟩ := didPathLength_eq hp
  simp only [didChildOf, hlen, hsep, take_stem, Bool.and_eq_true, beq_iff_eq]
  constructor
  · rintro ⟨hd, hn⟩
    obtain ⟨n, rfl⟩ := exists_eq_append_cons.2 hd
    exact ⟨n, by simpa using hn, rfl⟩
  · rintro ⟨n, hn, rfl⟩
    simpa using hn

omit hp in
theorem listingHoldsFolder_iff (h : FoldersDiffer fs) {name : Name} {did : Nat} :
    listingHoldsFolder fs name did = true ↔ ∃ f ∈ fs, f.isFolder name = true ∧ f.cnid = did := by
  unfold listingHoldsFolder
  split
  · next f hf =>
    have hmem := mem_of_find?_eq_some hf
    have hname : f.isFolder name = true := find?_some hf
    rw [beq_iff_eq]
    refine ⟨fun e => ⟨f, hmem, hname, e⟩, ?_⟩
    rintro ⟨g, hg, hgname, rfl⟩
    exact h f hmem g hg name hname hgname
  · next hf =>
    refine ⟨nofun, ?_⟩
    rintro ⟨g, hg, hgname, -⟩
    exact absurd hgname (find?_eq_none.1 hf g hg)

theorem contradictsListing_iff {did : Nat} {l : Option (List Entry)} (hl : ∀ fs ∈ l, FoldersDiffer fs)
    (e : DidEntry) : contradictsListing p did l e = true ↔ Contradicted p did l e := by
  have hlist : (l.any fun fs => !listingHoldsFolder fs e.name e.did) = true ↔
      ∃ fs ∈ l, ∀ f ∈ fs, f.isFolder e.name = true → f.cnid ≠ e.did := by
    cases l with
    | none => simp
    | some fs => simp [listingHoldsFolder_iff (hl fs rfl), ← Bool.not_eq_true]
  unfold contradictsListing Contradicted
  dsimp only
  rw [(didPathLength_eq hp).1, take_bare hp, ← (didPathLength_eq hp).1]
  split
  · simp
  · split
    · next hc => simp [← didChildOf_iff hp, hc, hlist]
    · next hc => simp [← didChildOf_iff hp, hc]

theorem forgets_exactly (now : Nat) (ancestors : Bool) (c : List DidEntry) :
    LeavesExactly now (forgetDidPaths p ancestors) c fun e => didEntryExpired e now = false ∧
      ¬AtOrBeneath p e.dirname ∧ ¬(ancestors = true ∧ Above p e.dirname) := by
  refine ⟨_, fun e _ => ?_, rfl⟩
  dsimp only
  rw [← not_or, ← forgets_iff hp]
  simp

theorem AtOrBeneath.head? (h : AtOrBeneath p d) : d.head? = some slash := by
  obtain ⟨rest, hrest⟩ := stem_isPrefix p
  unfold AtOrBeneath bare at h
  cases hs : stem p with
  | nil =>
    rw [hs, if_pos rfl] at h
    obtain rfl | ⟨r, rfl⟩ := h <;> rfl
  | cons c x =>
    rw [← hrest, hs] at hp
    rw [hs, if_neg (cons_ne_nil c x)] at h
    obtain rfl | ⟨r, rfl⟩ := h <;> exact hp

end Paths

theorem foldl_forgetLocked (now : Nat) (taken kept : List DidEntry) :
    taken.foldl (fun c p => forgetLocked p.dirname false now c) kept = kept.filter fun e =>
      taken.all fun r => !(didEntryExpired e now || forgets r.dirname false e.dirname) := by
  induction taken generalizing kept with
  | nil => simp
  | cons r taken ih =>
    rw [foldl_cons, ih, forgetLocked, filter_filter]
    simp [Bool.and_comm]

section Checks

variable {p : Path} {did now : Nat} {l : Option (List Entry)} {c : List DidEntry} {e : DidEntry}

theorem Contradicted.atOrBeneath (h : Contradicted p did l e) : AtOrBeneath p e.dirname := by
  unfold Contradicted at h
  split at h
  · next hown => exact .inl hown.2
  · obtain ⟨⟨n, -, hd⟩, -⟩ := h
    exact .inr ⟨n, hd⟩

/-- Without a child in the cache the listing contradicts nothing. -/
theorem contradicted_none (h : ¬ChildOf p e.dirname) :
    Contradicted p did none e ↔ Contradicted p did l e := by
  simp [Contradicted, h]

variable (hp : p.head? = some slash)

include hp

theorem checkDidListing_eq (hl : ∀ fs ∈ l, FoldersDiffer fs) : ∃ keep : DidEntry → Bool,
    (∀ e, keep e = true ↔ Survives p did l now c e) ∧
      checkDidListing p did l now c = c.filter keep := by
  rw [checkDidListing, foldl_forgetLocked, filter_filter]
  refine ⟨_, fun e => ?_, rfl⟩
  rw [Bool.and_eq_true, and_comm, Bool.not_eq_true', ← Bool.not_eq_true, contradictsListing_iff hp hl,
    all_eq_true]
  refine and_congr_right fun _ => ?_
  simp only [mem_filter, contradictsListing_iff hp hl, and_imp]
  refine forall₃_congr fun r _ hr => ?_
  simp [← Bool.not_eq_true, forgets_iff (hr.atOrBeneath.head? hp)]

theorem checkDidEntryAlone_exactly :
    LeavesExactly now (checkDidEntryAlone p did) c (Survives p did none now c) := by
  have hsame : contradicts p did = contradictsListing p did none := by
    funext e
    simp [contradicts, contradictsListing]
  obtain ⟨keep, hkeep, heq⟩ := @checkDidListing_eq p did now none c hp (by simp)
  refine ⟨keep, fun e _ => hkeep e, ?_⟩
  rw [← heq, checkDidListing, ← hsame]
  rfl

theorem checkDidEntryListing_exactly (hfs : FoldersDiffer fs) :
    LeavesExactly now (checkDidEntryListing p did fs) c (Survives p did (some fs) now c) := by
  unfold LeavesExactly
  simp only [checkDidEntryListing, Prog.modifyGet_bind, Prog.run]
  by_cases hlist : (c.any fun e => didChildOf e.dirname p (didPathLength p)) = true ∨ fs = []
  · obtain ⟨keep, hkeep, heq⟩ := @checkDidListing_eq p did now (some fs) c hp (by simpa using hfs)
    refine ⟨keep, fun e _ => hkeep e, heq ▸ ?_⟩
    split
    · rfl
    · next hnot =>
      have hnil : fs = [] := not_not.1 fun h => hnot ⟨hlist.resolve_right h, h⟩
      subst hnil
      rfl
  · obtain ⟨keep, hkeep, heq⟩ := @checkDidListing_eq p did now none c hp (by simp)
    obtain ⟨hchild, hne⟩ := not_or.1 hlist
    have hnone : ∀ e ∈ c, (Contradicted p did none e ↔ Contradicted p did (some fs) e) :=
      fun e he => contradicted_none fun h => hchild (any_eq_true.2 ⟨e, he, (didChildOf_iff hp).2 h⟩)
    refine ⟨keep, fun e he => ?_, ?_⟩
    · rw [hkeep, Survives, Survives, hnone e he]
      refine and_congr_right fun _ => forall₂_congr fun r hr => ?_
      rw [hnone r hr]
    · rw [if_neg fun h => hchild h.1, isEmpty_eq_false_iff.2 hne, ← heq]
      rfl

end Checks

/-- What `remove_did_subtree`, `remove_did_lineage` and `check_did_entry` leave of any cache. -/
theorem did_cache_exact (p : Path) (did now : Nat) (c : List DidEntry) {fs : List Entry}
    (hfs : FoldersDiffer fs) :
    LeavesExactly now (removeDidSubtree (slash :: p)) c (fun e => didEntryExpired e now = false ∧
      ¬AtOrBeneath (slash :: p) e.dirname) ∧
    LeavesExactly now (removeDidLineage (slash :: p)) c (fun e => didEntryExpired e now = false ∧
      ¬AtOrBeneath (slash :: p) e.dirname ∧ ¬Above (slash :: p) e.dirname) ∧
    LeavesExactly now (checkDidEntryAlone (slash :: p) did) c
      (Survives (slash :: p) did none now c) ∧
    LeavesExactly now (checkDidEntryListing (slash :: p) did fs) c
      (Survives (slash :: p) did (some fs) now c) := by
  have hp : (slash :: p).head? = some slash := rfl
  refine ⟨?_, ?_, checkDidEntryAlone_exactly hp, checkDidEntryListing_exactly hp hfs⟩
  · simpa [removeDidSubtree] using forgets_exactly hp now false c
  · simpa [removeDidLineage] using forgets_exactly hp now true c

/-- A listed folder `a` of ID 5. -/
def folderA : Entry :=
  { (default : Entry) with name := [97], isdir := true, valid := kFPNodeIDBit, cnid := 5 }

theorem did_cache_exact_folderA : FoldersDiffer [folderA] ∧
    LeavesExactly 20 (checkDidEntryListing [slash] 2 [folderA]) [⟨[slash, 97], 6, 2, [97], 20⟩]
      (Survives [slash] 2 (some [folderA]) 20 [⟨[slash, 97], 6, 2, [97], 20⟩]) :=
  have hfs : FoldersDiffer [folderA] := by simp [FoldersDiffer]
  ⟨hfs, (did_cache_exact [] 2 20 [⟨[slash, 97], 6, 2, [97], 20⟩] hfs).2.2.2⟩

/-- `/a` is beneath the root, whose entry stays. -/
theorem root_entry_stays : AtOrBeneath [slash] [slash, 97] ∧
    ((removeDidLineage [slash, 97]).run (atTime 0) ⟨[⟨[slash], 2, 1, [], 0⟩]⟩ () [()]).map
      (·.2.1.didCache) = some [⟨[slash], 2, 1, [], 0⟩] :=
  ⟨.inr ⟨[97], rfl⟩, by decide⟩

end NC
