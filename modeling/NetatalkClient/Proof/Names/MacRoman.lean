import NetatalkClient.Proof.Names.RoundTrip

/-!
# Mac Roman names

On a volume with long names, a byte of a name stands for the character that
`mac_roman_2uni[]` gives it, and the pages of `mac_roman.h` give the byte of a
character. Three entries of the pages are two places too early: those of U+2030,
U+222B and U+2248, the bytes E4, BA and C5, are at U+202E, U+2229 and U+2246. A
name with one of the bytes is shown and then refused, and a path with one of the
characters that have the bytes instead is accepted. Everything else comes back
(`macRoman_round_trip`).
-/

namespace NC

open List UInt8

/-! ## The tables -/

/-- The bytes whose characters the pages lack. -/
def unmappedBytes : List UInt8 := [0xba, 0xc5, 0xe4]

/-- The characters for which the pages give the byte of another. -/
def misplacedChars : List Nat := [0x2229, 0x2246, 0x202e]

/-- The characters that have an entry in the pages, or a byte of their own. -/
def pagedChars : List Nat :=
  List.range' 0xa0 96 ++ List.range' 0x131 98 ++ List.range' 0x2c6 24 ++ [0x3c0] ++
    List.range' 0x2013 50 ++ [0x20ac] ++ List.range' 0x2122 5 ++ List.range' 0x2202 100 ++
    [0x25ca, 0xf8ff] ++ List.range' 0xfb01 2

theorem macRomanByte_char_ofNat : ∀ b < 256, b ≠ 0 →
    macRomanByte (macRomanChar (ofNat b)) =
      if ofNat b ∈ unmappedBytes then none else some (ofNat b) := by
  decide +kernel

variable {b : UInt8} {c : Nat} {l : List Nat} {n : Name}

theorem macRomanByte_char (h : b ≠ 0) :
    macRomanByte (macRomanChar b) = if b ∈ unmappedBytes then none else some b := by
  have := macRomanByte_char_ofNat b.toNat b.toNat_lt fun e => h (UInt8.toNat_inj.1 e)
  rwa [UInt8.ofNat_toNat] at this

theorem macRomanChar_ofNat : ∀ b < 256, b ≠ 0 →
    Ucs2 (macRomanChar (ofNat b)) ∧ (0x80 ≤ b → 0x80 ≤ macRomanChar (ofNat b)) := by
  decide +kernel

theorem macRomanChar_ucs2 (h : b ≠ 0) : Ucs2 (macRomanChar b) := by
  have := (macRomanChar_ofNat b.toNat b.toNat_lt fun e => h (UInt8.toNat_inj.1 e)).1
  rwa [UInt8.ofNat_toNat] at this

theorem macRomanChar_distinct :
    distinct ((List.range 256).map fun b => macRomanChar (ofNat b)) := by
  decide +kernel

theorem macRomanChar_inj {a : UInt8} (h : macRomanChar a = macRomanChar b) : a = b := by
  have := inj_on_of_nodup_map (nodup_of_distinct macRomanChar_distinct)
    (mem_range.2 a.toNat_lt) (mem_range.2 b.toNat_lt)
  rw [UInt8.ofNat_toNat, UInt8.ofNat_toNat] at this
  exact UInt8.toNat_inj.1 (this h)

theorem pagedChars_back : ∀ c ∈ pagedChars, unicodeToMacRoman c ≠ 0 →
    (macRomanChar (ofNat (unicodeToMacRoman c)) = c ↔ c ∉ misplacedChars) := by
  decide +kernel

theorem mem_pagedChars (h : unicodeToMacRoman c ≠ 0) : c ∈ pagedChars := by
  by_contra hn
  simp only [pagedChars, mem_append, mem_range'_1, mem_cons] at hn
  have out {a b : Nat} (hout : ¬(a ≤ c ∧ c ≤ b)) : ¬(decide (a ≤ c) && decide (c ≤ b)) = true := by
    simpa using hout
  refine h ?_
  rw [unicodeToMacRoman, if_neg (out (by omega)), if_neg (out (by omega)), if_neg (out (by omega)),
    if_neg (by omega), if_neg (out (by omega)), if_neg (by omega), if_neg (out (by omega)),
    if_neg (out (by omega)), if_neg (by omega), if_neg (by omega), if_neg (out (by omega))]

/-- The byte of a character stands for it, but for the three misplaced ones. -/
theorem macRomanChar_byte (h : macRomanByte c = some b) (hc : 0x80 ≤ c) :
    macRomanChar b = c ↔ c ∉ misplacedChars := by
  rw [macRomanByte, if_neg (by omega)] at h
  split at h
  · cases h
  · next hu =>
    cases h
    exact pagedChars_back c (mem_pagedChars hu) hu

/-! ## Strings -/

variable {heap : Nat → Bool} {cs : List Char} {destLen : Nat}

theorem mapM_macRomanChar {m : Bytes} (h : 0 ∉ m) :
    (m.map macRomanChar).mapM macRomanByte =
      if ∃ b ∈ m, b ∈ unmappedBytes then none else some m := by
  induction m with
  | nil => simp
  | cons b m ih =>
    rw [mem_cons, not_or] at h
    rw [map_cons, mapM_cons, ih h.2, macRomanByte_char (Ne.symm h.1)]
    by_cases hb : b ∈ unmappedBytes
    · simp [hb]
    · by_cases hm : ∃ b ∈ m, b ∈ unmappedBytes <;> simp [hb, hm]

/-- Each byte of the result is that of its character. -/
theorem forall₂_mapM {q : Bytes} (h : l.mapM macRomanByte = some q) :
    List.Forall₂ (fun c b => macRomanByte c = some b) l q := by
  induction l generalizing q with
  | nil =>
    cases h
    exact .nil
  | cons c l ih =>
    rw [mapM_cons] at h
    obtain ⟨b, hb, h⟩ := Option.bind_eq_some_iff.1 h
    obtain ⟨q', hq, h⟩ := Option.bind_eq_some_iff.1 h
    cases h
    exact .cons hb (ih hq)

theorem mapM_ascii (ha : cs.all (·.toNat < 0x80)) :
    (cs.map Char.toNat).mapM macRomanByte = some (utf8 cs) := by
  induction cs with
  | nil => rfl
  | cons c cs ih =>
    rw [all_cons, Bool.and_eq_true, decide_eq_true_eq] at ha
    rw [map_cons, mapM_cons, ih ha.2, macRomanByte, if_pos ha.1, utf8_cons,
      utf8EncodeChar_eq, encodeNat_ascii ha.1]
    rfl

theorem convertUtf8ToMacRoman_utf8 (hm : Memory heap) (h : Bmp cs) (hne : cs ≠ [])
    (hd : destLen ≠ 0) :
    convertUtf8ToMacRoman heap (utf8 cs) destLen = (cs.map Char.toNat).mapM macRomanByte := by
  have hpos := mt length_eq_zero_iff.1 (utf8_ne_nil hne)
  rw [convertUtf8ToMacRoman, utf8toUcs2_utf8 fun c hc => (h c hc).1, h.map_ucs2Of]
  simp [hpos, hd, ucs2BufferGet_eq hm]

/-- A path of UCS-2 characters converts character by character. -/
theorem convertPathToAfp_longName (hm : Memory heap) (h : Bmp cs) (hl : (utf8 cs).length < destLen) :
    convertPathToAfp heap .longName (utf8 cs) destLen =
      ((cs.map Char.toNat).mapM macRomanByte).filter (·.length ≤ 255) := by
  have hbound : ¬(decide (destLen = 0) || decide (destLen ≤ (utf8 cs).length)) := by
    simp
    omega
  rw [convertPathToAfp, if_neg hbound, utf8IsAscii_utf8]
  by_cases ha : cs.all (·.toNat < 0x80)
  · simp [ha, copyIdentity_utf8 fun c hc => (h c hc).1, hl, mapM_ascii ha]
  · have hne := ne_nil_of_not_ascii ha
    have hd : destLen ≠ 0 := by omega
    simp [ha, containsSupplementaryUtf8_utf8,
      h.not_supplementary, convertUtf8ToMacRoman_utf8 hm h hne hd]

theorem convertPathToAfp_longName_supplementary (h : cs.any supplementary) :
    convertPathToAfp heap .longName (utf8 cs) destLen = none := by
  rw [convertPathToAfp, utf8IsAscii_utf8, not_ascii_of_supplementary h,
    containsSupplementaryUtf8_utf8, h]
  split <;> rfl

/-! ## Names -/

/-- A name of a server with Mac Roman names. -/
structure MacRomanName (n : Name) : Prop where
  nonempty : 0 < n.length
  short : n.length ≤ 31
  no_nul : 0 ∉ n
  no_colon : colon ∉ n

/-- The characters of a Mac Roman name. -/
def macRomanChars (n : Name) : List Char := ofCodes (n.map macRomanChar)

theorem macRoman_ucs2 (h : 0 ∉ n) : ∀ c ∈ n.map macRomanChar, Ucs2 c := by
  intro c hc
  obtain ⟨b, hb, rfl⟩ := mem_map.1 hc
  exact macRomanChar_ucs2 (ne_of_mem_of_not_mem hb h)

theorem length_macRomanChars (n : Name) : (macRomanChars n).length = n.length := by
  rw [macRomanChars, ofCodes, length_map, length_map]

theorem MacRomanName.bmp (h : MacRomanName n) : Bmp (macRomanChars n) :=
  bmp_ofCodes (macRoman_ucs2 h.no_nul)

theorem convertNameToUnix_longName (h : MacRomanName n) (hl : 93 < destLen)
    (hd : destLen ≤ intMax) :
    convertNameToUnix heap .longName n destLen = some (slashToColon (utf8 (macRomanChars n))) := by
  have hshort := h.short
  have hlen := length_utf8_le h.bmp
  rw [length_macRomanChars] at hlen
  have hu := macRoman_ucs2 h.no_nul
  have hbound : ¬(decide (destLen = 0) || decide (intMax < n.length) || decide (intMax < destLen)) := by
    simp
    omega
  have hc : (cString n).take 255 = n := by
    have hn : cString n = n :=
      takeWhile_eq_self_iff.2 fun b hb => by simpa using ne_of_mem_of_not_mem hb h.no_nul
    rw [hn, take_of_length_le (by omega)]
  have hconv : convertMacRomanToUtf8 n destLen = some (utf8 (macRomanChars n)) := by
    rw [convertMacRomanToUtf8, if_neg (by simpa using ⟨length_pos_iff.1 h.nonempty, by omega⟩),
      hc, ucs2toUtf8_ofCodes hu, if_pos]
    · rfl
    · show (utf8 (macRomanChars n)).length < destLen
      omega
  rw [convertNameToUnix, if_neg hbound]
  simp [hconv]

theorem mem_slashToColon (h : b ∈ slashToColon n) : b ∈ n ∨ b = colon := by
  obtain ⟨c, hc, rfl⟩ := mem_map.1 h
  split
  · exact .inr rfl
  · exact .inl hc

theorem slashToColon_no_nul (h : 0 ∉ n) : 0 ∉ slashToColon n := by
  intro hm
  rcases mem_slashToColon hm with hm | hm
  · exact h hm
  · cases hm

/-- The characters of the path of a shown name are those of its bytes. -/
theorem shown_codes (h : 0 ∉ n) :
    ('/' :: (macRomanChars n).map shownChar).map Char.toNat =
      (slash :: slashToColon n).map macRomanChar := by
  have hu := macRoman_ucs2 h
  have each : ∀ b ∈ n, (shownChar (Char.ofNat (macRomanChar b))).toNat =
      macRomanChar (if b = slash then colon else b) := by
    intro b hb
    have hc : (Char.ofNat (macRomanChar b)).toNat = macRomanChar b :=
      toNat_ofNat_of_scalar (hu _ (mem_map_of_mem hb)).scalar
    by_cases hs : b = slash
    · subst hs
      rfl
    · rw [if_neg hs, shownChar, if_neg, hc]
      intro e
      refine hs (macRomanChar_inj ?_)
      rw [← hc, e]
      rfl
  rw [map_cons, map_cons, macRomanChars, ofCodes, slashToColon]
  simp only [map_map]
  exact congrArg₂ _ rfl (map_congr_left each)

theorem exists_unmapped_iff (n : Name) : (∃ b ∈ slash :: slashToColon n, b ∈ unmappedBytes) ↔
    ∃ b ∈ n, b ∈ unmappedBytes := by
  constructor
  · rintro ⟨b, hb, hu⟩
    rcases mem_cons.1 hb with rfl | hb
    · exact absurd hu (by decide)
    rcases mem_slashToColon hb with hb | rfl
    · exact ⟨b, hb, hu⟩
    · exact absurd hu (by decide)
  · rintro ⟨b, hb, hu⟩
    refine ⟨b, mem_cons_of_mem _ (mem_map.2 ⟨b, hb, if_neg ?_⟩), hu⟩
    rintro rfl
    exact absurd hu (by decide)

theorem shown_path (n : Name) : slash :: slashToColon (utf8 (macRomanChars n)) =
    utf8 ('/' :: (macRomanChars n).map shownChar) := by
  rw [slashToColon_utf8]
  rfl

theorem MacRomanName.bmp_path (h : MacRomanName n) :
    Bmp ('/' :: (macRomanChars n).map shownChar) := by
  refine bmp_of_not_supplementary
    (forall_mem_cons.2 ⟨by decide, shownChar_ne_nul fun c hc => (h.bmp c hc).1⟩) ?_
  rw [any_cons, supplementary_map_shownChar, h.bmp.not_supplementary]
  decide

theorem nameOnWire_longName {vol : Volume} (hv : vol.pathEncoding = .longName) (hm : Memory heap)
    (h : MacRomanName n) (hl : (utf8 (macRomanChars n)).length + 1 < destLen) :
    nameOnWire vol heap (slash :: slashToColon (utf8 (macRomanChars n))) destLen =
      if ∃ b ∈ n, b ∈ unmappedBytes then none else some n := by
  have hpath := shown_path n
  have hb := h.bmp_path
  have hlen : (slash :: slashToColon n).length ≤ 255 := by
    have := h.short
    rw [length_cons, slashToColon, length_map]
    omega
  have hnul : 0 ∉ slash :: slashToColon n := by
    rw [mem_cons, not_or]
    exact ⟨by decide, slashToColon_no_nul h.no_nul⟩
  rw [nameOnWire, hv, hpath, convertPathToAfp_longName hm hb, shown_codes h.no_nul,
    mapM_macRomanChar hnul]
  · by_cases hu : ∃ b ∈ n, b ∈ unmappedBytes
    · rw [if_pos hu, if_pos ((exists_unmapped_iff n).2 hu)]
      rfl
    · rw [if_neg hu, if_neg fun hs => hu ((exists_unmapped_iff n).1 hs),
        Option.filter_some, if_pos (decide_eq_true hlen), Option.bind_some,
        show slash :: slashToColon n = [] ++ slash :: slashToColon n from rfl,
        splitLast_append (slash_not_mem_slashToColon n), Option.map_some, Volume.wireName, copyPath,
        hv]
      dsimp only
      rw [take_of_length_le (by simp at hlen; omega), unixpathToAfppath_slashToColon h.no_colon]
  · rw [← hpath, length_cons, slashToColon, length_map]
    exact hl

/-- Names that are shown alike are the same. -/
theorem MacRomanName.eq_of_shown {n' : Name} (h : MacRomanName n) (h' : MacRomanName n')
    (e : slashToColon (utf8 (macRomanChars n)) = slashToColon (utf8 (macRomanChars n'))) :
    n = n' := by
  have hp : utf8 ('/' :: (macRomanChars n).map shownChar) =
      utf8 ('/' :: (macRomanChars n').map shownChar) := by
    rw [← shown_path, ← shown_path, e]
  have hc := h.bmp_path.codes_inj h'.bmp_path hp
  rw [shown_codes h.no_nul, shown_codes h'.no_nul] at hc
  have hs := map_injective_iff.2 (fun _ _ => macRomanChar_inj) hc
  rw [← unixpathToAfppath_slashToColon h.no_colon, ← unixpathToAfppath_slashToColon h'.no_colon,
    tail_eq_of_cons_eq hs]

theorem convertPathToAfp_longName_some (hm : Memory heap) {q : Path} (h0 : ∀ c ∈ cs, c.toNat ≠ 0)
    (h : convertPathToAfp heap .longName (utf8 cs) destLen = some q) :
    List.Forall₂ (fun c b => macRomanByte c = some b) (cs.map Char.toNat) q := by
  have hs : ¬cs.any supplementary := by
    intro hs
    rw [convertPathToAfp_longName_supplementary hs] at h
    cases h
  have hl : (utf8 cs).length < destLen := by
    by_contra hl
    rw [convertPathToAfp, if_pos (by simp; omega)] at h
    cases h
  rw [convertPathToAfp_longName hm (bmp_of_not_supplementary h0 hs) hl] at h
  exact forall₂_mapM (Option.filter_eq_some_iff.1 h).1

/-- Every byte is that of its character just when no character is a misplaced one. -/
theorem forall₂_misplaced {q : Bytes} (h : List.Forall₂ (fun c b => macRomanByte c = some b) l q) :
    List.Forall₂ (fun c b => 0x7f < c → macRomanChar b = c) l q ↔ ∀ c ∈ l, c ∉ misplacedChars := by
  induction h with
  | nil => simp
  | @cons c b l q hb _ ih =>
    rw [List.forall₂_cons, ih, forall_mem_cons]
    refine and_congr_left fun _ => ?_
    by_cases hc : 0x7f < c
    · simp only [hc, forall_const]
      exact macRomanChar_byte hb hc
    · refine iff_of_true (fun hlt => absurd hlt hc) fun hm => ?_
      simp only [misplacedChars, mem_cons, not_mem_nil, or_false] at hm
      omega

/-- A Mac Roman name comes back just when it has none of the bytes whose characters
the pages lack, two names are never shown alike, and a path's characters are those
of the bytes they become just when none is misplaced. -/
theorem macRoman_round_trip {vol : Volume} (hv : vol.pathEncoding = .longName)
    (hm : Memory heap) :
    (∀ (n : Name) (nameLen pathLen : Nat), MacRomanName n → 93 < nameLen → nameLen ≤ intMax →
      ∃ u, convertNameToUnix heap vol.pathEncoding n nameLen = some u ∧
        (u.length + 1 < pathLen →
          (nameOnWire vol heap (slash :: u) pathLen = some n ↔ ∀ b ∈ n, b ∉ unmappedBytes))) ∧
    (∀ (n n' : Name) (nameLen : Nat), MacRomanName n → MacRomanName n' → 93 < nameLen →
      nameLen ≤ intMax →
      convertNameToUnix heap vol.pathEncoding n nameLen =
        convertNameToUnix heap vol.pathEncoding n' nameLen → n = n') ∧
    (∀ (cs : List Char) (pathLen : Nat) (q : Path), '\x00' ∉ cs →
      convertPathToAfp heap vol.pathEncoding (utf8 cs) pathLen = some q →
      (List.Forall₂ (fun c b => 0x7f < c → macRomanChar b = c) (cs.map Char.toNat) q ↔
        ∀ c ∈ cs, c.toNat ∉ misplacedChars)) := by
  refine ⟨fun n _ _ h hl hi => ⟨_, hv ▸ convertNameToUnix_longName h hl hi, fun hp => ?_⟩,
    fun n n' _ h h' hl hi e => ?_, fun cs _ _ h0 h => ?_⟩
  · rw [slashToColon, length_map] at hp
    rw [nameOnWire_longName hv hm h hp]
    constructor
    · intro e b hb hu
      rw [if_pos ⟨b, hb, hu⟩] at e
      cases e
    · intro hn
      refine if_neg ?_
      rintro ⟨b, hb, hu⟩
      exact hn b hb hu
  · rw [hv, convertNameToUnix_longName h hl hi, convertNameToUnix_longName h' hl hi] at e
    exact h.eq_of_shown h' (Option.some.inj e)
  · rw [hv] at h
    have h0 : ∀ c ∈ cs, c.toNat ≠ 0 := fun c hc e => h0 (eq_of_toNat_eq (d := '\x00') e ▸ hc)
    rw [forall₂_misplaced (convertPathToAfp_longName_some hm h0 h), forall_mem_map]

/-- An e with an acute accent, the byte 8E, comes back. -/
theorem macRoman_round_trip_acute :
    ∃ u, convertNameToUnix (fun _ => true) .longName [0x8e] maxNameBytes = some u ∧
      nameOnWire { plainVolume with pathEncoding := .longName } (fun _ => true) (slash :: u) 100 =
        some [0x8e] := by
  have trip := (macRoman_round_trip
    (show ({ plainVolume with pathEncoding := .longName } : Volume).pathEncoding = .longName from rfl)
    (show Memory (fun _ => true) from fun _ => rfl)).1
  obtain ⟨u, hu, back⟩ := trip [0x8e] maxNameBytes 100
    ⟨by decide, by decide, by decide, by decide⟩ (by decide) (by decide)
  have shows : convertNameToUnix (fun _ => true) .longName [0x8e] maxNameBytes =
      some [0xc3, 0xa9] := by decide +kernel
  have e : u = [0xc3, 0xa9] := Option.some.inj (hu.symm.trans shows)
  exact ⟨u, hu, (back (by rw [e]; decide)).2 (all_iff_forall_prop.1 (by decide))⟩

/-- The per mille sign, the byte E4, is shown and then refused, and a name with the
control character U+202E is sent as if it had the sign. -/
theorem macRoman_per_mille :
    convertNameToUnix (fun _ => true) .longName [0xe4] maxNameBytes = some [0xe2, 0x80, 0xb0] ∧
      convertPathToAfp (fun _ => true) .longName [0x2f, 0xe2, 0x80, 0xb0] 100 = none ∧
      convertPathToAfp (fun _ => true) .longName [0x2f, 0xe2, 0x80, 0xae] 100 =
        some [0x2f, 0xe4] := by
  decide +kernel

end NC
