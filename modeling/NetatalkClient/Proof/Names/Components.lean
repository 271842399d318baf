import NetatalkClient.Proof.Names.RoundTrip

/-!
# Paths and their components

A path that `convert_path_to_afp` accepts is the UTF-8 of a string, and what it
converts to is `sent` (`convertPathToAfp_some`). The conversion of a folder's path
and a name, joined, is the join of their conversions if none of the two has a
character beyond UCS-2, or both (`sent_join`). If only one has, it takes the other
along undecomposed: then they agree just when no character of the other decomposes
(`convertPathToAfp_join`).
-/

namespace NC

open List Char

variable {heap : Nat → Bool} {destLen : Nat} {cs ds xs : List Char}

/-! ## What is accepted -/

theorem ascii_utf8 {p : Bytes} (h : utf8IsAscii p) (h0 : 0 ∉ p) :
    ∃ cs : List Char, (∀ c ∈ cs, c.toNat ≠ 0) ∧ p = utf8 cs := by
  induction p with
  | nil => exact ⟨[], nofun, rfl⟩
  | cons b p ih =>
    rw [utf8IsAscii, all_cons, Bool.and_eq_true, decide_eq_true_eq] at h
    rw [mem_cons, not_or] at h0
    obtain ⟨cs, hcs, rfl⟩ := ih h.2 h0.2
    have hb : (ofNat b.toNat).toNat = b.toNat := toNat_ofNat_of_scalar (.inl (by omega))
    refine ⟨ofNat b.toNat :: cs, forall_mem_cons.2 ⟨?_, hcs⟩, ?_⟩
    · rw [hb]
      intro e
      exact h0.1 (UInt8.toNat_inj.1 e.symm)
    · rw [utf8_cons, utf8EncodeChar_eq, hb, encodeNat_ascii h.1, UInt8.ofNat_toNat]
      rfl

theorem copyIdentity_some {p q : Bytes} (h0 : 0 ∉ p) (h : copyIdentity p destLen = some q) :
    q = p := by
  rw [copyIdentity] at h
  split at h
  · cases h
  · cases h
    exact takeWhile_eq_self_iff.2 fun b hb => by simpa using ne_of_mem_of_not_mem hb h0

theorem utf8_of_decodesWhole {p : Bytes} (h : utf8DecodesWhole heap p) :
    ∃ cs : List Char, (∀ c ∈ cs, c.toNat ≠ 0) ∧ p = utf8 cs := by
  rw [utf8DecodesWhole, Bool.and_eq_true] at h
  obtain ⟨-, h⟩ := h
  split at h
  · cases h
  · next d hd =>
    simp only [Bool.and_eq_true, decide_eq_true_eq] at h
    exact exists_utf8 hd h.1 h.2

/-- A path that is decoded whole, with nothing beyond UCS-2, is one of UCS-2 characters. -/
theorem exists_bmp {p : Bytes} {d : Decoded} (hc : containsSupplementaryUtf8 p = false)
    (hd : utf8toUcs2 p (p.length + 1) = some d) (hw : d.substituted = 0 ∧ d.bytesConsumed = p.length) :
    ∃ cs, Bmp cs ∧ p = utf8 cs ∧ d.chars = cs.map toNat := by
  obtain ⟨cs, h0, rfl⟩ := exists_utf8 hd hw.1 hw.2
  rw [containsSupplementaryUtf8_utf8] at hc
  have hb := bmp_of_not_supplementary h0 (by simp [hc])
  rw [utf8toUcs2_utf8 h0, hb.map_ucs2Of] at hd
  cases hd
  exact ⟨cs, hb, rfl, rfl⟩

theorem convertUtf8preToUtf8dec_some {p q : Bytes} (hc : containsSupplementaryUtf8 p = false)
    (h : convertUtf8preToUtf8dec heap p destLen = some q) :
    ∃ cs, Bmp cs ∧ p = utf8 cs ∧ q = utf8 (decomposed cs) := by
  rw [convertUtf8preToUtf8dec] at h
  split at h
  · cases h
  · split at h
    · cases h
    · next d hd =>
      split at h
      · cases h
      · next hw =>
        simp only [Bool.or_eq_true, decide_eq_true_eq, not_or, not_not] at hw
        obtain ⟨cs, hb, rfl, e⟩ := exists_bmp hc hd hw.1
        rw [e, ucs2toUtf8_ofCodes (decomposeChar_ucs2 hb.ucs2)] at h
        split at h
        · cases h
          exact ⟨cs, hb, rfl, rfl⟩
        · cases h

/-- A path that is accepted is one of characters, and what it converts to. -/
theorem convertPathToAfp_some {p q : Path} (h0 : 0 ∉ p)
    (h : convertPathToAfp heap .utf8Name p destLen = some q) :
    ∃ cs : List Char, (∀ c ∈ cs, c.toNat ≠ 0) ∧ p = utf8 cs ∧ q = utf8 (sent cs) := by
  rw [convertPathToAfp] at h
  split at h
  · cases h
  split at h
  · next ha =>
    obtain ⟨cs, hcs, rfl⟩ := ascii_utf8 ha h0
    rw [utf8IsAscii_utf8] at ha
    have hb : cs.any supplementary = false := by
      rw [← Bool.not_eq_true]
      intro hs
      rw [not_ascii_of_supplementary hs] at ha
      cases ha
    refine ⟨cs, hcs, rfl, ?_⟩
    rw [copyIdentity_some h0 h, sent, hb, if_neg (by decide), decomposed_ascii ha]
  · rw [copyIfSupplementaryUtf8] at h
    by_cases hc : containsSupplementaryUtf8 p
    · rw [hc] at h
      split at h
      · cases h
      · next dest hd =>
        split at h
        · next hw =>
          cases h
          obtain ⟨cs, hcs, rfl⟩ := utf8_of_decodesWhole hw
          obtain ⟨q, hq, e⟩ := Option.map_eq_some_iff.1 hd
          cases e
          rw [containsSupplementaryUtf8_utf8] at hc
          exact ⟨cs, hcs, rfl, by rw [copyIdentity_some h0 hq, sent_supplementary hc]⟩
        · cases h
      · next hd =>
        obtain ⟨q, hq, e⟩ := Option.map_eq_some_iff.1 hd
        cases e
    · have hc := Bool.not_eq_true _ ▸ hc
      rw [hc] at h
      simp only [Bool.not_false, if_true] at h
      split at h
      · obtain ⟨cs, hb, e, hq⟩ := convertUtf8preToUtf8dec_some hc h
        exact ⟨cs, fun c hm => (hb c hm).1, e, by rw [hq, sent_bmp hb]⟩
      · next hl =>
        cases h
        exact ⟨[], by simp, length_eq_zero_iff.1 (by omega), rfl⟩

theorem sent_congr {cs cs' : List Char} (h0 : ∀ c ∈ cs, c.toNat ≠ 0) (h0' : ∀ c ∈ cs', c.toNat ≠ 0)
    (h : utf8 cs = utf8 cs') : utf8 (sent cs) = utf8 (sent cs') := by
  have hany : cs.any supplementary = cs'.any supplementary := by
    rw [← containsSupplementaryUtf8_utf8, h, containsSupplementaryUtf8_utf8]
  by_cases hs : cs.any supplementary
  · rw [sent_supplementary hs, sent_supplementary (hany ▸ hs), h]
  · have hb := bmp_of_not_supplementary h0 hs
    have hb' := bmp_of_not_supplementary h0' (hany ▸ hs)
    rw [← ofCodes_map_toNat cs, ← ofCodes_map_toNat cs', hb.codes_inj hb' h]

/-! ## Folder and name -/

theorem decomposed_append (cs cs' : List Char) :
    decomposed (cs ++ cs') = decomposed cs ++ decomposed cs' := by
  rw [decomposed_eq, decomposed_eq, decomposed_eq, flatMap_append]

theorem decomposed_join (ds xs : List Char) :
    decomposed (ds ++ '/' :: xs) = decomposed ds ++ '/' :: decomposed xs := by
  have hs : decomposed ['/'] = ['/'] := decomposed_ascii rfl
  rw [append_cons, decomposed_append, decomposed_append, hs, ← append_cons]

theorem any_join (ds xs : List Char) :
    (ds ++ '/' :: xs).any supplementary = (ds.any supplementary || xs.any supplementary) := by
  rw [any_append, any_cons]
  rfl

/-- The path is of UCS-2 characters, none of which decomposes. -/
def Undecomposed (p : Path) : Prop :=
  ∃ cs : List Char, Bmp cs ∧ p = utf8 cs ∧ ∀ c ∈ cs, decomposeChar c.toNat = [c.toNat]

/-- One of the two has a character beyond UCS-2 and the other has none, but one that decomposes. -/
def Mixed (d x : Path) : Prop :=
  containsSupplementaryUtf8 d ∧ ¬containsSupplementaryUtf8 x ∧ ¬Undecomposed x ∨
    ¬containsSupplementaryUtf8 d ∧ containsSupplementaryUtf8 x ∧ ¬Undecomposed d

theorem decomposeChar_ne_nil (c : Nat) : decomposeChar c ≠ [] := by
  have h := decomposes_decomposeChar c
  generalize decomposeChar c = xs at h
  induction h with
  | self => exact cons_ne_nil _ _
  | pair _ _ _ _ ih => exact append_ne_nil_of_left_ne_nil ih _

/-- A string that decomposes to itself has no character that decomposes. -/
theorem decomposeChar_of_flatMap {l : List Nat} (h : l.flatMap decomposeChar = l) :
    ∀ c ∈ l, decomposeChar c = [c] := by
  have grows (l : List Nat) : l.length ≤ (l.flatMap decomposeChar).length := by
    induction l with
    | nil => exact Nat.zero_le _
    | cons c l ih =>
      have := length_pos_iff.2 (decomposeChar_ne_nil c)
      rw [flatMap_cons, length_append, length_cons]
      omega
  induction l with
  | nil => exact nofun
  | cons c l ih =>
    obtain ⟨y, ys, hy⟩ := exists_cons_of_ne_nil (decomposeChar_ne_nil c)
    rw [flatMap_cons, hy, cons_append] at h
    obtain ⟨rfl, hrest⟩ := cons.inj h
    have hys : ys = [] := by
      have hlen := congrArg List.length hrest
      have := grows l
      rw [length_append] at hlen
      exact length_eq_zero_iff.1 (by omega)
    subst hys
    exact forall_mem_cons.2 ⟨hy, ih hrest⟩

theorem undecomposed_iff (hb : Bmp cs) : utf8 (sent cs) = utf8 cs ↔ Undecomposed (utf8 cs) := by
  rw [sent_bmp hb]
  constructor
  · intro h
    have hp := decomposeChar_ucs2 hb.ucs2
    have hcodes := (bmp_ofCodes hp).codes_inj hb h
    rw [map_toNat_ofCodes hp] at hcodes
    exact ⟨cs, hb, rfl, fun c hc => decomposeChar_of_flatMap hcodes _ (mem_map_of_mem hc)⟩
  · rintro ⟨ds, hds, e, hself⟩
    have hcs : cs = ds := by
      rw [← ofCodes_map_toNat cs, hb.codes_inj hds e, ofCodes_map_toNat]
    rw [hcs, decomposed_self hself]

theorem utf8_join (ds xs : List Char) : utf8 ds ++ slash :: utf8 xs = utf8 (ds ++ '/' :: xs) := by
  rw [utf8_append, utf8_cons]
  rfl

theorem sent_join (hds : ∀ c ∈ ds, c.toNat ≠ 0) (hxs : ∀ c ∈ xs, c.toNat ≠ 0) :
    utf8 (sent (ds ++ '/' :: xs)) = utf8 (sent ds) ++ slash :: utf8 (sent xs) ↔
      ¬Mixed (utf8 ds) (utf8 xs) := by
  simp only [Mixed, containsSupplementaryUtf8_utf8]
  have whole : (ds ++ '/' :: xs).any supplementary = true →
      utf8 (sent (ds ++ '/' :: xs)) = utf8 ds ++ slash :: utf8 xs := by
    intro h
    rw [sent_supplementary h, utf8_join]
  rw [any_join] at whole
  by_cases hd : ds.any supplementary
  · rw [whole (by rw [hd, Bool.true_or]), sent_supplementary hd, append_cancel_left_eq]
    by_cases hx : xs.any supplementary
    · simp only [sent_supplementary hx, hd, hx, not_true_eq_false, false_and, and_false, or_false,
        not_false_eq_true]
    · simp [hd, hx, ← undecomposed_iff (bmp_of_not_supplementary hxs hx), eq_comm]
  · by_cases hx : xs.any supplementary
    · rw [whole (by rw [hx, Bool.or_true]), sent_supplementary hx, append_cancel_right_eq]
      simp [hd, hx, ← undecomposed_iff (bmp_of_not_supplementary hds hd), eq_comm]
    · have hn : ¬(ds ++ '/' :: xs).any supplementary := by
        rw [any_join]
        simp [hd, hx]
      rw [sent, if_neg hn, sent, if_neg hd, sent, if_neg hx, decomposed_join, ← utf8_join]
      simp [hd, hx]

theorem join_iff {d x qd qx q : Path} {dLen xLen : Nat} (h0 : 0 ∉ d ++ slash :: x)
    (hd : convertPathToAfp heap .utf8Name d dLen = some qd)
    (hx : convertPathToAfp heap .utf8Name x xLen = some qx)
    (h : convertPathToAfp heap .utf8Name (d ++ slash :: x) destLen = some q) :
    q = qd ++ slash :: qx ↔ ¬Mixed d x := by
  rw [mem_append, mem_cons, not_or, not_or] at h0
  obtain ⟨ds, hds, rfl, rfl⟩ := convertPathToAfp_some h0.1 hd
  obtain ⟨xs, hxs, rfl, rfl⟩ := convertPathToAfp_some h0.2.2 hx
  have hj : ∀ c ∈ ds ++ '/' :: xs, c.toNat ≠ 0 :=
    forall_mem_append.2 ⟨hds, forall_mem_cons.2 ⟨by decide, hxs⟩⟩
  rw [utf8_join] at h
  obtain ⟨cs, hcs, e, rfl⟩ := convertPathToAfp_some (not_mem_utf8 (by decide) hj) h
  rw [sent_congr hcs hj e.symm, sent_join hds hxs]

/-- The conversion of a folder's path and a name is the join of their conversions just
when the path is not mixed, and two paths that are not share their folder's conversion. -/
theorem convertPathToAfp_join {d x y qd qx qy q q' : Path} {dLen xLen yLen : Nat}
    (h0 : 0 ∉ d ++ slash :: x) (h0' : 0 ∉ d ++ slash :: y)
    (hd : convertPathToAfp heap .utf8Name d dLen = some qd)
    (hx : convertPathToAfp heap .utf8Name x xLen = some qx)
    (hy : convertPathToAfp heap .utf8Name y yLen = some qy)
    (h : convertPathToAfp heap .utf8Name (d ++ slash :: x) destLen = some q)
    (h' : convertPathToAfp heap .utf8Name (d ++ slash :: y) destLen = some q') :
    (q = qd ++ slash :: qx ↔ ¬Mixed d x) ∧
      (¬Mixed d x → ¬Mixed d y →
        ∃ folder, q = folder ++ slash :: qx ∧ q' = folder ++ slash :: qy) := by
  have first := join_iff h0 hd hx h
  exact ⟨first, fun hn hn' => ⟨qd, first.2 hn, (join_iff h0' hd hy h').2 hn'⟩⟩

theorem decomposeChar_acute : decomposeChar 0xe9 = [0x65, 0x301] := by
  have he : Composes 0xe9 0x65 0x301 := by decide +kernel
  have hs : ∀ e ∈ table.tail, e.1 ≠ 0x301 := by decide +kernel
  rw [he.decomposeChar (by decide), decomposeChar_ascii (by decide), decomposeChar_self hs]
  rfl

/-- What is sent for an ASCII character or an e with an acute accent. -/
def acuteSent (c : Char) : List Char := if c.toNat = 0xe9 then ['e', ofNat 0x301] else [c]

/-- A path of ASCII characters and e with an acute accent. -/
theorem convertPathToAfp_acute (h : ∀ c ∈ cs, c.toNat ≠ 0 ∧ (c.toNat < 0x80 ∨ c.toNat = 0xe9))
    (hl : (utf8 cs).length < destLen) (hl' : (utf8 (cs.flatMap acuteSent)).length < destLen) :
    convertPathToAfp (fun _ => true) .utf8Name (utf8 cs) destLen =
      some (utf8 (cs.flatMap acuteSent)) := by
  have hb : Bmp cs := fun c hc => ⟨(h c hc).1, by have := (h c hc).2; omega⟩
  have hsent : sent cs = cs.flatMap acuteSent := by
    rw [sent_bmp hb, decomposed_eq]
    refine flatMap_congr fun c hc => ?_
    by_cases he : c.toNat = 0xe9
    · rw [acuteSent, if_pos he, he, decomposeChar_acute]
      rfl
    · rw [acuteSent, if_neg he, decomposeChar_ascii ((h c hc).2.resolve_right he), ofCodes, map_singleton,
        ofNat_toNat]
  rw [← hsent] at hl' ⊢
  exact convertPathToAfp_utf8 (fun _ => rfl) (fun c hc => (h c hc).1) hl hl'

/-- Two names in a folder with an accent, one with an accent too. -/
theorem convertPathToAfp_join_accented :
    ∃ folder, convertPathToAfp (fun _ => true) .utf8Name
          ([0x2f, 0xc3, 0xa9] ++ slash :: [0xc3, 0xa9]) 100 =
        some (folder ++ slash :: [0x65, 0xcc, 0x81]) ∧
      convertPathToAfp (fun _ => true) .utf8Name ([0x2f, 0xc3, 0xa9] ++ slash :: [0x62]) 100 =
        some (folder ++ slash :: [0x62]) := by
  have plain (x : Path) (hx : ¬containsSupplementaryUtf8 x) : ¬Mixed [0x2f, 0xc3, 0xa9] x := by
    rintro (⟨h, -⟩ | ⟨-, h, -⟩)
    · exact absurd h (by decide)
    · exact hx h
  have conv (cs : List Char) := @convertPathToAfp_acute 100 cs
  have hd := conv ['/', ofNat 0xe9] (by simp) (by decide +kernel) (by decide +kernel)
  have hx := conv [ofNat 0xe9] (by simp) (by decide +kernel) (by decide +kernel)
  have hy := conv ['b'] (by simp) (by decide +kernel) (by decide +kernel)
  have hb := conv ['/', ofNat 0xe9, '/', ofNat 0xe9] (by simp) (by decide +kernel) (by decide +kernel)
  have hc := conv ['/', ofNat 0xe9, '/', 'b'] (by simp) (by decide +kernel) (by decide +kernel)
  obtain ⟨folder, e, e'⟩ := (convertPathToAfp_join (d := [0x2f, 0xc3, 0xa9]) (x := [0xc3, 0xa9])
    (y := [0x62]) (by decide) (by decide) hd hx hy hb hc).2 (plain _ (by decide)) (plain _ (by decide))
  exact ⟨folder, hb.trans (congrArg some e), hc.trans (congrArg some e')⟩

/-- A folder with an accented name, decomposed on its own, is not decomposed in the
path of a file with an emoji for its name. -/
theorem convertPathToAfp_folder_differs :
    convertPathToAfp (fun _ => true) .utf8Name [0x2f, 0xc3, 0xa9] 100 =
        some [0x2f, 0x65, 0xcc, 0x81] ∧
      convertPathToAfp (fun _ => true) .utf8Name [0xf0, 0x9f, 0x98, 0x80] 100 =
        some [0xf0, 0x9f, 0x98, 0x80] ∧
      convertPathToAfp (fun _ => true) .utf8Name
          ([0x2f, 0xc3, 0xa9] ++ slash :: [0xf0, 0x9f, 0x98, 0x80]) 100 =
        some ([0x2f, 0xc3, 0xa9] ++ slash :: [0xf0, 0x9f, 0x98, 0x80]) ∧
      [0x2f, 0xc3, 0xa9] ++ slash :: [0xf0, 0x9f, 0x98, 0x80] ≠
        [0x2f, 0x65, 0xcc, 0x81] ++ slash :: [0xf0, 0x9f, 0x98, 0x80] := by
  refine ⟨?_, by decide +kernel, by decide +kernel, by decide⟩
  exact @convertPathToAfp_acute _ ['/', ofNat 0xe9] (by simp) (by decide +kernel) (by decide +kernel)

end NC
