import Mathlib.Data.List.Perm.Basic
import NetatalkClient.Model.Paging

/-!
# Which parts of a list arrive

`getvols_exact_iff` says for which requests `process_getvols` answers with the volumes asked for:
it compares the start with the number of volumes it is going to send, and does not take it off that
number.

The pages of a directory hold every entry once if no two names are the same without regard to case
(`readdir_pages_exact`): only then is the sorted list the same for every order in which the server
lists the entries (`Sorts.unique`).
-/

namespace NC

open List

/-! ## Volumes -/

/-- The volumes from `start` on, at most `count`, and none that is not there. -/
structure GetvolsAnswer.Exact (a : GetvolsAnswer) (numVolumes start count : Nat) : Prop where
  result : a.result = AFPSL_IPC_RESULT_OK
  read : ∀ i ∈ a.slots, i < numVolumes
  slots : a.slots = List.range' start (min (start + count) numVolumes - start)
  num : a.num = a.slots.length

theorem processGetvols_of_nonneg {n : Nat} {start : Int} (count : Int) (h0 : 0 ≤ start)
    (hstart : start < 2 ^ 31) :
    processGetvols n start count =
      if min (asUnsigned count) n < start.toNat then { result := AFPSL_IPC_RESULT_ERROR }
      else { result := AFPSL_IPC_RESULT_OK, num := min (asUnsigned count) n,
             slots := List.range' start.toNat (min (asUnsigned count) n) } := by
  have hs : asUnsigned start = start.toNat := by
    unfold asUnsigned
    omega
  have hmin : (if asUnsigned count < n then asUnsigned count else n) = min (asUnsigned count) n := by
    split <;> omega
  simp [processGetvols, hs, hmin, if_neg (Int.not_lt.2 h0)]

/-- The answer is right for exactly the requests whose start is not negative and neither beyond the
number of volumes to be sent nor so far on that fewer are left, a negative count being a large one;
and a first request for all volumes gets all. -/
theorem getvols_exact_iff (n : Nat) :
    (∀ start count : Int, start < 2 ^ 31 →
      ((processGetvols n start count).Exact n start.toNat (asUnsigned count) ↔
        0 ≤ start ∧ start.toNat ≤ min (asUnsigned count) n ∧
          start.toNat + min (asUnsigned count) n ≤ n)) ∧
    ∀ count : Int, n ≤ asUnsigned count → (processGetvols n 0 count).slots = List.range n := by
  refine ⟨fun start count hstart => ?_, fun count hn => ?_⟩
  · by_cases h0 : 0 ≤ start
    · rw [processGetvols_of_nonneg count h0 hstart]
      split
      · next hlt => exact iff_of_false (fun h => nomatch h.result) (by omega)
      · next hle =>
        refine ⟨fun h => ⟨h0, Nat.le_of_not_lt hle, ?_⟩, fun h => ⟨rfl, fun i hi => ?_, ?_, ?_⟩⟩
        · have hlen := congrArg List.length h.slots
          simp only [length_range'] at hlen
          omega
        · have hi := mem_range'_1.1 hi
          omega
        · rw [show min (asUnsigned count) n = min (start.toNat + asUnsigned count) n - start.toNat by
            omega]
        · exact (length_range' ..).symm
    · refine iff_of_false (fun h => ?_) (fun h => h0 h.1)
      have hr := h.result
      rw [processGetvols, if_pos (Int.not_le.1 h0)] at hr
      cases hr
  · rw [processGetvols_of_nonneg count (Int.le_refl 0) (by decide), Nat.min_eq_right hn,
      Int.toNat_zero, if_neg (Nat.not_lt_zero _), range_eq_range']

/-- The first two of three volumes, and with a count of -1 all three. -/
theorem getvols_exact_first : (processGetvols 3 0 2).Exact 3 0 2 ∧
    (processGetvols 3 0 (-1)).Exact 3 0 4294967295 :=
  ⟨((getvols_exact_iff 3).1 0 2 (by decide)).2 (by decide),
    ((getvols_exact_iff 3).1 0 (-1) (by decide)).2 (by decide)⟩

/-- A client that asks for three volumes from the second of three on reads a slot that is not there,
and one that asks for one volume at a time is refused the third. -/
theorem getvols_misses : (processGetvols 3 1 3).slots = [1, 2, 3] ∧
    (processGetvols 3 2 1).result = AFPSL_IPC_RESULT_ERROR := by decide

/-! ## Directories -/

section Directories

variable {entries names names' es : List ListedEntry}

/-- Names that differ also without regard to case have one order. -/
theorem Sorts.unique (hcase : (entries.map ListedEntry.folded).Nodup) (h : Sorts entries names)
    (h' : Sorts entries names') : names = names' := by
  refine List.Perm.eq_of_pairwise (fun a b ha hb hab hba => ?_) h.sorted h'.sorted
    (h.perm.trans h'.perm.symm)
  exact inj_on_of_nodup_map hcase (h.perm.mem_iff.1 ha) (h'.perm.mem_iff.1 hb)
    (Std.le_antisymm hab hba)

theorem packEntries_isPrefix (room : Nat) (es : List ListedEntry) : (packEntries room es).1 <+: es := by
  induction es generalizing room with
  | nil => exact prefix_refl _
  | cons e es ih =>
    simp only [packEntries]
    split
    · exact nil_prefix
    split
    · exact nil_prefix
    · exact cons_prefix_cons.2 ⟨rfl, ih _⟩

theorem packEntries_shown (hshown : ∀ e ∈ es, e.shown = true) (room : Nat) :
    (packEntries room es).2 = true := by
  induction es generalizing room with
  | nil => rfl
  | cons e es ih =>
    obtain ⟨he, hes⟩ := forall_mem_cons.1 hshown
    simp only [packEntries, he]
    split
    · rfl
    · exact ih hes _

/-- There is room for one entry at least. -/
theorem packEntries_ne_nil (hshown : ∀ e ∈ es, e.shown = true) (hne : es ≠ []) :
    (packEntries (ipcMaxResponse - 16) es).1 ≠ [] := by
  cases es with
  | nil => exact absurd rfl hne
  | cons e es =>
    have hroom : ¬ipcMaxResponse - 16 < e.size := by
      have := e.short
      simp only [ListedEntry.size, ipcMaxResponse, maxNameBytes] at *
      omega
    simp [packEntries, hroom, hshown e mem_cons_self]

/-- One page is the entries at its position, some of them if any are left. -/
theorem processReaddir_page (hshown : ∀ e ∈ names, e.shown = true) {start : Nat}
    (hstart : start ≤ names.length) {count : Int} (hcount : count ≠ 0) :
    (processReaddir names start count).result = AFPSL_IPC_RESULT_OK ∧
    (processReaddir names start count).entries <+: names.drop start ∧
    (start < names.length → (processReaddir names start count).entries ≠ []) := by
  have hasked : (if count < 0 then names.drop start else (names.drop start).take count.toNat) <+:
      names.drop start := by
    split
    · exact prefix_refl _
    · exact take_prefix ..
  have hall : ∀ e ∈ if count < 0 then names.drop start else (names.drop start).take count.toNat,
      e.shown = true := fun e he => hshown e (mem_of_mem_drop (hasked.subset he))
  simp only [processReaddir, if_neg (Nat.not_lt.2 hstart), packEntries_shown hall, if_true, true_and]
  refine ⟨(packEntries_isPrefix ..).trans hasked, fun hlt => packEntries_ne_nil hall fun hnil => ?_⟩
  have hlen := congrArg List.length hnil
  split at hlen <;> simp at hlen <;> omega

/-- The pages from a position on. -/
theorem slReaddirPages_from (hshown : ∀ e ∈ names, e.shown = true)
    {requests : List (List ListedEntry × Int)} (hreq : ∀ r ∈ requests, r.1 = names ∧ r.2 ≠ 0)
    {start : Nat} (hstart : start ≤ names.length) :
    ∃ got eod, slReaddirPages start requests = some (got, eod) ∧ got <+: names.drop start ∧
      (eod = true → got = names.drop start) ∧
      (names.length - start < requests.length → eod = true) := by
  induction requests generalizing start with
  | nil => exact ⟨[], false, rfl, nil_prefix, nofun, nofun⟩
  | cons r rest ih =>
    obtain ⟨⟨rfl, hcount⟩, hrest⟩ := forall_mem_cons.1 hreq
    obtain ⟨hok, hpage, hne⟩ := processReaddir_page hshown hstart hcount
    have heod : (processReaddir r.1 start r.2).eod =
        decide (r.1.length ≤ start + (processReaddir r.1 start r.2).entries.length) := by
      simp [processReaddir, if_neg (Nat.not_lt.2 hstart)]
    simp only [slReaddirPages, hok, heod]
    obtain ⟨tail, htail⟩ := hpage
    have hlen := congrArg List.length htail
    rw [length_append, length_drop] at hlen
    generalize (processReaddir r.1 start r.2).entries = page at *
    by_cases hend : r.1.length ≤ start + page.length
    · have hnil : tail = [] := eq_nil_of_length_eq_zero (by omega)
      rw [hnil, append_nil] at htail
      exact ⟨page, true, by simp [hend], htail ▸ prefix_refl _, fun _ => htail, fun _ => rfl⟩
    · obtain ⟨more, eod, hrun, hmore, hall, hends⟩ := @ih hrest (start + page.length) (by omega)
      have hdrop : r.1.drop (start + page.length) = tail := by
        rw [← drop_drop, ← htail, drop_left]
      rw [hdrop] at hmore hall
      refine ⟨page ++ more, eod, by simp [hend, hrun], ?_, fun h => ?_, fun h => hends ?_⟩
      · exact htail ▸ (prefix_append_right_inj page).2 hmore
      · rw [hall h, htail]
      · have := length_pos_iff.2 (hne (by omega))
        rw [length_cons] at h
        omega

/-- A client that goes on from page to page gets no entry twice, and every entry once it is at the end,
where it is after as many pages as there are entries and one. -/
theorem readdir_pages_exact (hcase : (entries.map ListedEntry.folded).Nodup)
    (hshown : ∀ e ∈ entries, e.shown = true) {requests : List (List ListedEntry × Int)}
    (hreq : ∀ r ∈ requests, Sorts entries r.1 ∧ r.2 ≠ 0) :
    ∃ got eod, slReaddirPages 0 requests = some (got, eod) ∧ got.Subperm entries ∧
      (eod = true → got.Perm entries) ∧ (entries.length < requests.length → eod = true) := by
  cases requests with
  | nil => exact ⟨[], false, rfl, nil_subperm, nofun, nofun⟩
  | cons r rest =>
    have hr := (hreq r mem_cons_self).1
    obtain ⟨got, eod, hrun, hgot, hall, hends⟩ := slReaddirPages_from
      (fun e he => hshown e (hr.perm.mem_iff.1 he))
      (fun q hq => ⟨(hreq q hq).1.unique hcase hr, (hreq q hq).2⟩) (Nat.zero_le r.1.length)
    refine ⟨got, eod, hrun, hgot.sublist.subperm.trans hr.perm.subperm, fun h => ?_, fun h => hends ?_⟩
    · rw [hall h]
      exact hr.perm
    · rwa [hr.perm.length_eq]

end Directories

/-- The entry with a name of one letter. -/
def letterEntry (c : UInt8) : ListedEntry := ⟨[c], by simp, true⟩

/-- Two entries, in pages of one, which the server lists in two orders. -/
theorem readdir_pages_exact_two : ∃ got eod,
    slReaddirPages 0 [([letterEntry 97, letterEntry 98], 1), ([letterEntry 97, letterEntry 98], 1),
      ([letterEntry 97, letterEntry 98], -1)] = some (got, eod) ∧
    got.Subperm [letterEntry 98, letterEntry 97] ∧
    (eod = true → got.Perm [letterEntry 98, letterEntry 97]) ∧ (2 < 3 → eod = true) := by
  have hsorts : Sorts [letterEntry 98, letterEntry 97] [letterEntry 97, letterEntry 98] :=
    ⟨by decide, by decide⟩
  refine readdir_pages_exact (by decide) (by decide) fun r hr => ?_
  simp only [mem_cons, not_mem_nil, or_false] at hr
  rcases hr with rfl | rfl | rfl <;> exact ⟨hsorts, by decide⟩

/-- Of two entries whose names differ in case only, the first page has one; the second, for which the
server lists them the other way round, has it again. -/
theorem readdir_page_repeats :
    Sorts [letterEntry 97, letterEntry 65] [letterEntry 97, letterEntry 65] ∧
    Sorts [letterEntry 97, letterEntry 65] [letterEntry 65, letterEntry 97] ∧
    slReaddirPages 0 [([letterEntry 97, letterEntry 65], 1), ([letterEntry 65, letterEntry 97], 1)] =
      some ([letterEntry 97, letterEntry 97], true) :=
  ⟨⟨by decide, by decide⟩, ⟨by decide, by decide⟩, by decide⟩

end NC
