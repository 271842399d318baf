import NetatalkClient.Proof.Names.Components
import NetatalkClient.Proof.Names.MacRoman

/-!
# Paths whose components stay apart

An absolute path without empty components (`AbsolutePath`) converts to such a path
(`convertPathToAfp_absolute`), in either encoding: every character is converted by
itself, a slash to a slash, and nothing else to one. A path that is converted is no longer
than the length fields of its encoding can announce (`convertPathToAfpAlloc_ok`).
-/

namespace NC

open List

/-- An absolute path without empty components: the root's, or a list of names'. -/
def AbsolutePath (p : Path) : Prop :=
  p = [slash] ∨ ∃ ns : List Name, ns ≠ [] ∧ (∀ n ∈ ns, IsName n) ∧ p = joinPath ns

theorem joinPath_eq_intercalate (ns : List Name) :
    joinPath ns = [slash].intercalate ([] :: ns) := by
  have hcons (n : Name) (ns : List Name) : [slash].intercalate (n :: ns) = n ++ joinPath ns := by
    induction ns generalizing n with
    | nil => simp
    | cons m ms ih =>
      rw [joinPath_cons, ← ih]
      simp
  rw [hcons, nil_append]

theorem splitOn_joinPath {ns : List Name} (hns : ∀ n ∈ ns, IsName n) :
    (joinPath ns).splitOn slash = [] :: ns := by
  rw [joinPath_eq_intercalate]
  refine splitOn_intercalate slash (fun n hn => ?_) (by simp)
  rcases mem_cons.1 hn with rfl | hn
  · simp
  · exact (hns n hn).2

theorem absolutePath_iff {p : Path} : AbsolutePath p ↔
    ∃ ns, p.splitOn slash = [] :: ns ∧ (ns = [[]] ∨ ns ≠ [] ∧ ∀ n ∈ ns, n ≠ []) := by
  constructor
  · rintro (rfl | ⟨ns, hne, hns, rfl⟩)
    · exact ⟨[[]], by decide, .inl rfl⟩
    · exact ⟨ns, splitOn_joinPath hns, .inr ⟨hne, fun n hn => (hns n hn).1⟩⟩
  · rintro ⟨ns, hs, hns⟩
    have hp : p = [slash].intercalate ([] :: ns) := by rw [← hs, intercalate_splitOn]
    rcases hns with rfl | ⟨hne, hns⟩
    · exact .inl hp
    · refine .inr ⟨ns, hne, fun n hn => ⟨hns n hn, ?_⟩, by rw [hp, joinPath_eq_intercalate]⟩
      exact not_mem_of_mem_splitOn (hs ▸ mem_cons_of_mem _ hn)

/-! ## Translations of characters -/

/-- Each character of the list is written by itself, a slash as a slash, and nothing else
with one. -/
structure Apart (cs : List Char) (g : Char → Bytes) : Prop where
  slash : g '/' = [slash]
  other : ∀ c ∈ cs, c ≠ '/' → NC.slash ∉ g c
  ne_nil : ∀ c ∈ cs, g c ≠ []

variable {g : Char → Bytes} {encoding : PathEncoding}

theorem Apart.flatMap_eq_nil {cs ds : List Char} (hg : Apart cs g) (hd : ds ∈ cs.splitOn '/') :
    ds.flatMap g = [] ↔ ds = [] := by
  rw [flatMap_eq_nil_iff]
  constructor
  · intro h
    cases ds with
    | nil => rfl
    | cons c ds => exact absurd (h c (by simp)) (hg.ne_nil c (subset_of_mem_splitOn hd (by simp)))
  · exact nofun

theorem AbsolutePath.flatMap {cs : List Char} {g' : Char → Bytes} (hg : Apart cs g)
    (hg' : Apart cs g') (h : AbsolutePath (cs.flatMap g)) : AbsolutePath (cs.flatMap g') := by
  rw [absolutePath_iff, splitOn_flatMap hg.slash hg.other] at h
  rw [absolutePath_iff, splitOn_flatMap hg'.slash hg'.other]
  obtain ⟨ns, hs, hns⟩ := h
  obtain ⟨d, ds, hcs, hd, rfl⟩ := map_eq_cons_iff.1 hs
  have hmem : ∀ x ∈ d :: ds, x ∈ cs.splitOn '/' := fun x hx => hcs ▸ hx
  have hiff : ∀ x ∈ d :: ds, (x.flatMap g' = [] ↔ x.flatMap g = []) := fun x hx =>
    (hg'.flatMap_eq_nil (hmem x hx)).trans (hg.flatMap_eq_nil (hmem x hx)).symm
  rw [forall_mem_cons] at hiff
  refine ⟨ds.map (·.flatMap g'), by rw [hcs, map_cons, hiff.1.2 hd], ?_⟩
  rcases hns with hns | ⟨hne, hns⟩
  · obtain ⟨x, xs, rfl, hx, hxs⟩ := map_eq_cons_iff.1 hns
    obtain rfl := map_eq_nil_iff.1 hxs
    exact .inl (by simp [(hiff.2 x (by simp)).2 hx])
  · refine .inr ⟨by simpa using hne, fun n hn => ?_⟩
    obtain ⟨x, hx, rfl⟩ := mem_map.1 hn
    exact fun h => hns _ (mem_map_of_mem hx) ((hiff.2 x hx).1 h)

theorem apart_utf8 (cs : List Char) : Apart cs String.utf8EncodeChar where
  slash := rfl
  other c _ hc hm := by
    have hs : slash ∈ utf8 [c] := by simpa using hm
    obtain ⟨d, hd, ⟨hb, hlt⟩ | hge⟩ := mem_utf8 hs
    · obtain rfl := mem_singleton.1 hd
      refine hc (Char.toNat_inj.1 ?_)
      have := congrArg UInt8.toNat hb
      rw [toNat_ofNat (by omega)] at this
      exact this.symm
    · exact absurd hge (by decide)
  ne_nil _ _ := String.utf8EncodeChar_ne_nil

/-! ## The conversions -/

variable {heap : Nat → Bool} {cs : List Char} {destLen : Nat} {p q : Path}

theorem decomposeTo_ne_nil (depth c : Nat) : decomposeTo depth c ≠ [] := by
  induction depth generalizing c with
  | zero => simp [decomposeTo]
  | succ depth ih =>
    rw [decomposeTo]
    cases ucs2decompose c with
    | none => simp
    | some x => simp [ih]

theorem apart_decomposed (h : Bmp cs) :
    Apart cs fun c => utf8 (ofCodes (decomposeChar c.toNat)) where
  slash := by
    rw [decomposeChar_ascii (by decide)]
    rfl
  other c hc hne := by
    have hu : Ucs2 c.toNat := h.ucs2 _ (mem_map_of_mem hc)
    have hsep := separator_decomposed (.inl rfl) hu fun he => hne (Char.toNat_inj.1 he)
    exact not_mem_utf8 (by decide) hsep
  ne_nil c _ hnil := by
    have hlen := length_le_utf8 (ofCodes (decomposeChar c.toNat))
    rw [hnil, length_nil, Nat.le_zero, length_eq_zero_iff] at hlen
    exact decomposeTo_ne_nil _ _ (map_eq_nil_iff.1 hlen)

theorem sent_absolute (h0 : ∀ c ∈ cs, c.toNat ≠ 0) (h : AbsolutePath (utf8 cs)) :
    AbsolutePath (utf8 (sent cs)) := by
  by_cases hs : cs.any supplementary
  · rwa [sent_supplementary hs]
  · have hb := bmp_of_not_supplementary h0 hs
    rw [sent_bmp hb, decomposed_eq, utf8, flatMap_assoc]
    exact h.flatMap (apart_utf8 cs) (apart_decomposed hb)

theorem convertUtf8ToMacRoman_some (hc : containsSupplementaryUtf8 p = false)
    (h : convertUtf8ToMacRoman heap p destLen = some q) :
    ∃ cs, p = utf8 cs ∧
      List.Forall₂ (fun c b => macRomanByte c = some b) (cs.map Char.toNat) q := by
  rw [convertUtf8ToMacRoman] at h
  split at h
  · cases h
  · split at h
    · cases h
    · next d hd =>
      split at h
      · cases h
      · next hw =>
        simp only [Bool.or_eq_true, decide_eq_true_eq, not_or, not_not] at hw
        obtain ⟨cs, -, rfl, e⟩ := exists_bmp hc hd hw
        exact ⟨cs, rfl, forall₂_mapM (e ▸ h)⟩

/-- Bytes that stand for the characters one by one are the characters' own. -/
theorem eq_flatMap_macRoman (h : List.Forall₂ (fun c b => macRomanByte c = some b)
    (cs.map Char.toNat) q) : q = cs.flatMap fun c => [(macRomanByte c.toNat).getD 0] := by
  induction cs generalizing q with
  | nil =>
    cases h
    rfl
  | cons c cs ih =>
    obtain ⟨b, q, hb, hq, rfl⟩ := List.forall₂_cons_left_iff.1 h
    rw [flatMap_cons, hb, Option.getD_some, singleton_append, ← ih hq]

theorem macRomanByte_slash {c : Nat} (h : macRomanByte c = some slash) : c = 0x2f := by
  by_cases hc : c < 0x80
  · rw [macRomanByte, if_pos hc, Option.some.injEq] at h
    have := congrArg UInt8.toNat h
    rwa [toNat_ofNat (by omega)] at this
  · have hback := macRomanChar_byte h (Nat.not_lt.1 hc)
    have hslash : macRomanChar slash = 0x2f := rfl
    by_cases hm : c ∈ misplacedChars
    · have hnone : ∀ c ∈ misplacedChars, macRomanByte c ≠ some slash := by decide +kernel
      exact absurd h (hnone c hm)
    · exact (hback.2 hm).symm.trans hslash

theorem apart_macRoman (h : List.Forall₂ (fun c b => macRomanByte c = some b)
    (cs.map Char.toNat) q) : Apart cs fun c => [(macRomanByte c.toNat).getD 0] where
  slash := rfl
  other c hc hne hm := by
    obtain ⟨i, hi, hci⟩ := mem_iff_getElem.1 (mem_map_of_mem (f := Char.toNat) hc)
    have hb := (List.forall₂_iff_get.1 h).2 i hi (h.length_eq ▸ hi)
    rw [get_eq_getElem, hci] at hb
    rw [hb, Option.getD_some, mem_singleton] at hm
    rw [← hm] at hb
    exact hne (Char.toNat_inj.1 (macRomanByte_slash hb))
  ne_nil _ _ := by simp

theorem convertPathToAfp_absolute (h0 : 0 ∉ p) (ha : AbsolutePath p)
    (h : convertPathToAfp heap encoding p destLen = some q) : AbsolutePath q := by
  cases encoding with
  | utf8Name =>
    obtain ⟨cs, hcs, rfl, rfl⟩ := convertPathToAfp_some h0 h
    exact sent_absolute hcs ha
  | longName =>
    rw [convertPathToAfp] at h
    split at h
    · cases h
    obtain ⟨h, -⟩ := Option.filter_eq_some_iff.1 h
    split at h
    · rwa [copyIdentity_some h0 h]
    · split at h
      · cases h
      · rename_i hs
        obtain ⟨cs, rfl, hq⟩ := convertUtf8ToMacRoman_some (Bool.not_eq_true _ ▸ hs) h
        rw [eq_flatMap_macRoman hq]
        exact ha.flatMap (apart_utf8 cs) (apart_macRoman hq)

/-- The longest name a request can carry in the encoding, in bytes. -/
def PathEncoding.maxLength : PathEncoding → Nat
  | .utf8Name => 65535
  | .longName => 255

theorem convertPathToAfpAlloc_ok (h : convertPathToAfpAlloc heap encoding p = .ok q) :
    convertPathToAfp heap encoding p (p.length * 4 + 1) = some q ∧ q.length ≤ encoding.maxLength := by
  rw [convertPathToAfpAlloc] at h
  split at h
  · cases h
  dsimp only at h
  split at h
  · cases h
  split at h
  · cases h
  rename_i hq
  split at h
  · cases h
  rename_i hlen
  cases h
  refine ⟨hq, ?_⟩
  cases encoding with
  | utf8Name => exact Nat.not_lt.1 hlen
  | longName =>
    rw [convertPathToAfp] at hq
    split at hq
    · cases hq
    · exact of_decide_eq_true (Option.filter_eq_some_iff.1 hq).2

end NC
