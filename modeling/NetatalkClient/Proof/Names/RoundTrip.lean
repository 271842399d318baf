import Mathlib.Data.Bool.AllAny
import NetatalkClient.Proof.Did.Paths
import NetatalkClient.Proof.Names.Table
import NetatalkClient.Proof.Names.Utf8

/-!
# A name shown and sent back

On a volume with UTF-8 names, the client shows the name of a server's object
precomposed and with a colon for each slash (`convertNameToUnix_bmp`), and sends
a path decomposed (`convertPathToAfp_bmp`), unless it has a character beyond
UCS-2, which both conversions leave alone (`convertNameToUnix_supplementary`,
`convertPathToAfp_supplementary`). So the name of the server's object comes back
fully decomposed, which is how a server spells it.
-/

namespace NC

open List Char

/-- The character needs more than UCS-2. -/
def supplementary (c : Char) : Bool := 0x10000 ≤ c.toNat

/-! ## What the conversions ask of a string -/

theorem encodeNat_ge {v : Nat} (h : 0x80 ≤ v) : ∀ b ∈ encodeNat v, 0x80 ≤ b.toNat := by
  have byte {n : Nat} (h : 128 ≤ n % 256) : 0x80 ≤ (UInt8.ofNat n).toNat := by
    rwa [UInt8.toNat_ofNat']
  rw [encodeNat, if_neg (by omega)]
  split_ifs <;> simp only [forall_mem_cons, not_mem_nil, false_imp_iff, implies_true, and_true]
  · exact ⟨byte (by omega), byte (by omega)⟩
  · exact ⟨byte (by omega), byte (by omega), byte (by omega)⟩
  · exact ⟨byte (by omega), byte (by omega), byte (by omega), byte (by omega)⟩

theorem encodeNat_ascii {v : Nat} (h : v < 0x80) : encodeNat v = [UInt8.ofNat v] := by
  rw [encodeNat, if_pos (by omega)]

theorem encodeNat_lt {v : Nat} (h : v < 0x10000) : ∀ b ∈ encodeNat v, b.toNat < 0xf0 := by
  have byte {n : Nat} (h : n % 256 < 0xf0) : (UInt8.ofNat n).toNat < 0xf0 := by
    rwa [UInt8.toNat_ofNat']
  rw [encodeNat]
  split_ifs <;> simp only [forall_mem_cons, not_mem_nil, false_imp_iff, implies_true, and_true]
  · exact byte (by omega)
  · exact ⟨byte (by omega), byte (by omega)⟩
  · exact ⟨byte (by omega), byte (by omega), byte (by omega)⟩
  · omega

theorem utf8IsAscii_append (a b : Bytes) :
    utf8IsAscii (a ++ b) = (utf8IsAscii a && utf8IsAscii b) := all_append

theorem utf8IsAscii_utf8 (cs : List Char) : utf8IsAscii (utf8 cs) = cs.all (·.toNat < 0x80) := by
  induction cs with
  | nil => rfl
  | cons c cs ih =>
    rw [utf8_cons, utf8IsAscii_append, ih, all_cons, utf8EncodeChar_eq]
    congr 1
    by_cases h : c.toNat < 0x80
    · simp [utf8IsAscii, encodeNat_ascii h, toNat_ofNat (show c.toNat < 256 by omega)]
    · have hb : ∃ b, b ∈ encodeNat c.toNat :=
        exists_mem_of_ne_nil _ (String.utf8EncodeChar_ne_nil (c := c))
      obtain ⟨b, hb⟩ := hb
      have := encodeNat_ge (by omega) b hb
      rw [decide_eq_false h, utf8IsAscii, all_eq_false]
      exact ⟨b, hb, by simpa using this⟩

theorem containsSupplementaryUtf8_skip {a : Bytes} (h : ∀ b ∈ a, b.toNat < 0xf0) (rest : Bytes) :
    containsSupplementaryUtf8 (a ++ rest) = containsSupplementaryUtf8 rest := by
  induction a with
  | nil => rfl
  | cons b a ih =>
    obtain ⟨hb, h⟩ := forall_mem_cons.1 h
    rw [cons_append, containsSupplementaryUtf8, ih h, decide_eq_false (by omega)]
    simp

theorem containsSupplementaryUtf8_utf8 (cs : List Char) :
    containsSupplementaryUtf8 (utf8 cs) = cs.any supplementary := by
  induction cs with
  | nil => rfl
  | cons c cs ih =>
    rw [utf8_cons, any_cons, supplementary, ← ih, utf8EncodeChar_eq]
    by_cases h : c.toNat < 0x10000
    · rw [containsSupplementaryUtf8_skip (encodeNat_lt h), decide_eq_false (by omega),
        Bool.false_or]
    · have hs := scalar_toNat c
      rw [Scalar] at hs
      rw [encodeNat, if_neg (by omega), if_neg (by omega), if_neg (by omega),
        decide_eq_true (by omega : 0x10000 ≤ c.toNat), Bool.true_or]
      simp only [cons_append, containsSupplementaryUtf8, byteAt,
        getD_cons_zero, getD_cons_succ, isContinuation_eq]
      rw [toNat_ofNat (by omega), toNat_ofNat (by omega), toNat_ofNat (by omega),
        toNat_ofNat (by omega)]
      simp only [Bool.or_eq_true, Bool.and_eq_true, decide_eq_true_eq]
      refine .inl ⟨⟨⟨⟨⟨?_, ?_⟩, ?_⟩, ?_⟩, ?_⟩, ?_⟩
      · omega
      · omega
      · exact Nat.le_add_left 3 _
      all_goals omega

variable {cs : List Char}

theorem mem_utf8 {b : UInt8} (h : b ∈ utf8 cs) :
    ∃ c ∈ cs, b = UInt8.ofNat c.toNat ∧ c.toNat < 0x80 ∨ 0x80 ≤ b.toNat := by
  obtain ⟨c, hc, hb⟩ := mem_flatMap.1 h
  rw [utf8EncodeChar_eq] at hb
  refine ⟨c, hc, ?_⟩
  by_cases hlt : c.toNat < 0x80
  · rw [encodeNat_ascii hlt] at hb
    exact .inl ⟨mem_singleton.1 hb, hlt⟩
  · exact .inr (encodeNat_ge (by omega) b hb)

/-- A byte of ASCII stands in the UTF-8 of a string only for its character. -/
theorem not_mem_utf8 {b : UInt8} (hb : b.toNat < 0x80)
    (h : ∀ c ∈ cs, c.toNat ≠ b.toNat) : b ∉ utf8 cs := by
  intro hm
  obtain ⟨c, hc, ⟨rfl, hlt⟩ | hge⟩ := mem_utf8 hm
  · rw [toNat_ofNat (by omega)] at h
    exact h c hc rfl
  · omega

theorem cString_utf8 (h : ∀ c ∈ cs, c.toNat ≠ 0) : cString (utf8 cs) = utf8 cs := by
  have h0 := not_mem_utf8 (b := 0) (by decide) h
  exact takeWhile_eq_self_iff.2 fun b hb => by simpa using ne_of_mem_of_not_mem hb h0

theorem map_eq_self {α : Type} {f : α → α} {l : List α} (h : ∀ a ∈ l, f a = a) : l.map f = l :=
  (map_congr_left h).trans (map_id l)

theorem utf8_map {f : UInt8 → UInt8} {g : Char → Char} (hf : ∀ b, 0x80 ≤ b.toNat → f b = b)
    (hg : ∀ c : Char, String.utf8EncodeChar (g c) =
      if c.toNat < 0x80 then [f (UInt8.ofNat c.toNat)] else String.utf8EncodeChar c)
    (cs : List Char) : (utf8 cs).map f = utf8 (cs.map g) := by
  induction cs with
  | nil => rfl
  | cons c cs ih =>
    rw [utf8_cons, map_append, ih, map_cons, utf8_cons, hg]
    congr 1
    split
    · next h => rw [utf8EncodeChar_eq, encodeNat_ascii h, map_singleton]
    · next h =>
      rw [utf8EncodeChar_eq]
      exact map_eq_self fun b hb => hf b (encodeNat_ge (by omega) b hb)

/-! ## Codes and characters -/

/-- The characters of UCS-2 codes. -/
def ofCodes (l : List Nat) : List Char := l.map Char.ofNat

/-- The string without NUL whose characters UCS-2 has. -/
def Bmp (cs : List Char) : Prop := ∀ c ∈ cs, c.toNat ≠ 0 ∧ c.toNat < 0x10000

theorem Ucs2.scalar {c : Nat} (h : Ucs2 c) : Scalar c := by
  have := h.2
  rw [Scalar]
  omega

variable {l : List Nat}

theorem map_toNat_ofCodes (h : ∀ c ∈ l, Ucs2 c) : (ofCodes l).map toNat = l := by
  rw [ofCodes, map_map]
  exact map_eq_self fun c hc => toNat_ofNat_of_scalar (h c hc).scalar

theorem bmp_ofCodes (h : ∀ c ∈ l, Ucs2 c) : Bmp (ofCodes l) := by
  intro c hc
  have hm := mem_map_of_mem (f := toNat) hc
  rw [map_toNat_ofCodes h] at hm
  exact ⟨Nat.ne_of_gt (h _ hm).1, (h _ hm).lt⟩

theorem Bmp.ucs2 (h : Bmp cs) : ∀ c ∈ cs.map toNat, Ucs2 c := by
  intro v hv
  obtain ⟨c, hc, rfl⟩ := mem_map.1 hv
  obtain ⟨h0, hlt⟩ := h c hc
  have hs := scalar_toNat c
  rw [Scalar] at hs
  exact ⟨by omega, by omega⟩

theorem Bmp.map_ucs2Of (h : Bmp cs) : cs.map ucs2Of = cs.map toNat :=
  map_congr_left fun c hc => if_pos (h c hc).2

theorem Bmp.codes_inj {cs' : List Char} (h : Bmp cs) (h' : Bmp cs') (e : utf8 cs = utf8 cs') :
    cs.map toNat = cs'.map toNat := by
  have hd := utf8toUcs2_utf8 fun c hc => (h c hc).1
  rw [e, utf8toUcs2_utf8 fun c hc => (h' c hc).1, h.map_ucs2Of, h'.map_ucs2Of] at hd
  exact (Decoded.mk.inj (Option.some.inj hd)).1.symm

theorem Bmp.not_supplementary (h : Bmp cs) : cs.any supplementary = false := by
  rw [any_eq_false]
  intro c hc
  have := (h c hc).2
  simp only [supplementary, decide_eq_true_eq]
  omega

theorem flatMap_ofCodes (h : ∀ c ∈ l, Ucs2 c) : l.flatMap utf8Char = utf8 (ofCodes l) := by
  have := flatMap_utf8Char fun c hc => (bmp_ofCodes h c hc).2
  rwa [map_toNat_ofCodes h] at this

theorem ofCodes_map_toNat (cs : List Char) : ofCodes (cs.map toNat) = cs := by
  rw [ofCodes, map_map]
  exact map_eq_self fun c _ => ofNat_toNat c

/-! ## UCS-2 and back -/

theorem length_utf8_le (h : Bmp cs) : (utf8 cs).length ≤ 3 * cs.length := by
  induction cs with
  | nil => exact Nat.le_refl 0
  | cons c cs ih =>
    obtain ⟨hc, h⟩ := forall_mem_cons.1 h
    have := ih h
    have hlen : (encodeNat c.toNat).length ≤ 3 := by
      rw [encodeNat]
      split
      · exact Nat.le_add_left 1 2
      split
      · exact Nat.le_add_left 2 1
      split
      · exact Nat.le_refl 3
      · omega
    rw [utf8_cons, length_append, length_cons, utf8EncodeChar_eq]
    omega

theorem ucs2toUtf8_ofCodes {destLen : Nat} (h : ∀ c ∈ l, Ucs2 c) : ucs2toUtf8 l destLen =
    if (utf8 (ofCodes l)).length < destLen then some (utf8 (ofCodes l)) else none := by
  rw [ucs2toUtf8_eq fun c hc => Nat.ne_of_gt (h c hc).1, flatMap_ofCodes h]

theorem utf8toUcs2_ofCodes {destChars : Nat} (h : ∀ c ∈ l, Ucs2 c) (hd : l.length < destChars) :
    utf8toUcs2 (utf8 (ofCodes l)) destChars = some ⟨l, (utf8 (ofCodes l)).length, 0⟩ := by
  have hb := bmp_ofCodes h
  rw [utf8toUcs2, if_neg (by omega), utf8toUcs2Loop_utf8 (fun c hc => (hb c hc).1) (Nat.le_refl _)
    (by simpa [ofCodes] using hd), hb.map_ucs2Of, map_toNat_ofCodes h]

theorem utf8toUcs2_length (b : Bytes) (destChars : Nat) :
    (utf8toUcs2 b destChars).map (·.chars.length) =
      if mbStrLen b.length b < destChars then some (mbStrLen b.length b) else none := by
  unfold utf8toUcs2
  split
  · exact (if_neg (by omega)).symm
  · exact utf8toUcs2Loop_length (by omega)

/-- A string that decodes whole and has no sequence of four bytes is the UTF-8 of what it decodes to. -/
theorem utf8_of_utf8toUcs2 {b : Bytes} {destChars : Nat} {d : Decoded}
    (h : utf8toUcs2 b destChars = some d) (hc : d.bytesConsumed = b.length) (hs : d.substituted = 0)
    (hb : ∀ x ∈ b, x.toNat < 0xf0) : (∀ c ∈ d.chars, Ucs2 c) ∧ b = utf8 (ofCodes d.chars) := by
  obtain ⟨cs, h0, rfl⟩ := exists_utf8 h hs hc
  have hany : cs.any supplementary = false := by
    rw [← containsSupplementaryUtf8_utf8, ← append_nil (utf8 cs)]
    exact containsSupplementaryUtf8_skip hb []
  have hbmp : Bmp cs := fun c hc => ⟨h0 c hc, by simpa [supplementary] using any_eq_false.1 hany c hc⟩
  -- the same string with room for all of it has as many characters, so there was room
  have hroom : cs.length < destChars := by
    have hall := utf8toUcs2_length (utf8 cs) ((utf8 cs).length + 1)
    have hlen := utf8toUcs2_length (utf8 cs) destChars
    rw [utf8toUcs2_utf8 h0] at hall
    rw [h] at hlen
    grind
  have hd : d.chars = cs.map toNat := by
    rw [utf8toUcs2, if_neg (by omega), utf8toUcs2Loop_utf8 h0 (Nat.le_refl _) hroom, hbmp.map_ucs2Of] at h
    exact congrArg Decoded.chars (Option.some.inj h).symm
  rw [hd, ofCodes_map_toNat]
  exact ⟨hbmp.ucs2, rfl⟩

/-- The two conversions undo each other on a little-endian host, and only there; the number of
characters does not depend on the host. -/
theorem utf8_ucs2_inverse (bigEndian : Bool) :
    (((∀ s : List Nat, (∀ c ∈ s, Ucs2 c) → ∀ destLen,
        (3 * s.length < destLen → ∃ b, ucs2toUtf8On bigEndian s destLen = some b) ∧
        ∀ b destChars, ucs2toUtf8On bigEndian s destLen = some b → s.length < destChars →
          utf8toUcs2 b destChars = some ⟨s, b.length, 0⟩) ∧
      (∀ b destChars d destLen, utf8toUcs2 b destChars = some d → d.bytesConsumed = b.length →
        d.substituted = 0 → (∀ x ∈ b, x.toNat < 0xf0) → b.length < destLen →
          ucs2toUtf8On bigEndian d.chars destLen = some b)) ↔ bigEndian = false) ∧
    ∀ b destChars, mbStrLen b.length b < destChars →
      ∃ d, utf8toUcs2 b destChars = some d ∧ d.chars.length = mbStrLen b.length b := by
  refine ⟨⟨fun h => ?_, fun hhost => ?_⟩,
    fun b destChars hlen => Option.map_eq_some_iff.1 ((utf8toUcs2_length b destChars).trans (if_pos hlen))⟩
  · cases bigEndian with
    | false => rfl
    | true =>
      -- `A` is written as a NUL, which decodes to nothing
      have hlost := (h.1 [0x41] (by decide) 4).2 [0] 4 (by decide) (by decide)
      exact absurd hlost (by decide)
  subst hhost
  refine ⟨fun s hs destLen => ?_, fun b destChars d destLen h hc hsub hx hlen => ?_⟩
  · rw [← ucs2toUtf8, ucs2toUtf8_ofCodes hs]
    refine ⟨fun hlen => ?_, fun b destChars h hd => ?_⟩
    · have := length_utf8_le (bmp_ofCodes hs)
      rw [ofCodes, length_map] at this
      exact ⟨_, if_pos (by rw [ofCodes]; omega)⟩
    · obtain ⟨-, h⟩ := Option.ite_none_right_eq_some.1 h
      cases h
      exact utf8toUcs2_ofCodes hs hd
  · obtain ⟨hu, hb⟩ := utf8_of_utf8toUcs2 h hc hsub hx
    rw [← ucs2toUtf8, ucs2toUtf8_ofCodes hu, ← hb, if_pos hlen]

theorem utf8_ucs2_inverse_eAcute : ∃ b, ucs2toUtf8On false [0xe9] 4 = some b :=
  (((utf8_ucs2_inverse false).1.2 rfl).1 [0xe9] (by decide) 4).1 (by decide)

/-- On a big-endian host `A` is written as a NUL. -/
theorem big_endian_lost : ucs2toUtf8On true [0x41] 4 = some [0] ∧ utf8toUcs2 [0] 4 = some ⟨[], 0, 0⟩ := by
  decide

/-! ## The conversions of a string -/

/-- The string as the client shows it, but for its slashes. -/
def precomposed (cs : List Char) : List Char := ofCodes (precomposeAll (cs.map Char.toNat))

/-- The string as the client sends it, but for its separators. -/
def decomposed (cs : List Char) : List Char :=
  ofCodes ((cs.map Char.toNat).flatMap decomposeChar)

/-- A conversion that needs no more memory than there is. -/
abbrev Memory (heap : Nat → Bool) : Prop := ∀ n, heap n

theorem ucs2BufferGet_eq {heap : Nat → Bool} (h : Memory heap) (chars : Nat) :
    ucs2BufferGet heap chars = true := by
  rw [ucs2BufferGet, h, Bool.or_true]

theorem decomposeChar_ucs2 (h : ∀ c ∈ l, Ucs2 c) : ∀ c ∈ l.flatMap decomposeChar, Ucs2 c := by
  intro x hx
  obtain ⟨c, hc, hx⟩ := mem_flatMap.1 hx
  exact (decomposes_decomposeChar c).all (fun hs hm _ => (hm.ucs2 hs).2) (h c hc) x hx

variable {heap : Nat → Bool} {destLen : Nat}

theorem convertUtf8decToUtf8pre_utf8 (hm : Memory heap) (h : Bmp cs) (hne : cs ≠ []) :
    convertUtf8decToUtf8pre heap (utf8 cs) destLen =
      if (utf8 (precomposed cs)).length < destLen then some (utf8 (precomposed cs), false)
      else none := by
  have hpos := mt length_eq_zero_iff.1 (utf8_ne_nil hne)
  have hp := precomposeAll_ucs2 h.ucs2
  rw [convertUtf8decToUtf8pre, utf8toUcs2_utf8 fun c hc => (h c hc).1, h.map_ucs2Of]
  simp only [hpos, ucs2BufferGet_eq hm, Bool.not_true, Bool.false_eq_true, if_false]
  rw [ucs2toUtf8_ofCodes hp, precomposed]
  by_cases hd : destLen = 0
  · rw [hd, if_pos (by decide), if_neg (by omega)]
  · rw [if_neg (by simpa using hd)]
    split <;> simp

theorem convertUtf8preToUtf8dec_utf8 (hm : Memory heap) (h : Bmp cs) (hne : cs ≠ []) :
    convertUtf8preToUtf8dec heap (utf8 cs) destLen =
      if (utf8 (decomposed cs)).length < destLen then some (utf8 (decomposed cs)) else none := by
  have hpos := mt length_eq_zero_iff.1 (utf8_ne_nil hne)
  have hp := decomposeChar_ucs2 h.ucs2
  rw [convertUtf8preToUtf8dec, utf8toUcs2_utf8 fun c hc => (h c hc).1, h.map_ucs2Of]
  simp only [hpos, ucs2BufferGet_eq hm, decide_false, Bool.not_true, Bool.false_or,
    Bool.false_eq_true, if_false, ne_eq, not_true_eq_false]
  rw [ucs2toUtf8_ofCodes hp, decomposed]
  by_cases hd : destLen = 0
  · rw [hd, if_pos (by decide), if_neg (by omega)]
  · rw [if_neg (by simpa using hd)]

theorem copyIdentity_utf8 (h : ∀ c ∈ cs, c.toNat ≠ 0) :
    copyIdentity (utf8 cs) destLen = if (utf8 cs).length < destLen then some (utf8 cs) else none := by
  rw [copyIdentity, cString_utf8 h]
  by_cases hd : (utf8 cs).length < destLen
  · rw [if_pos hd, if_neg (by omega)]
  · rw [if_neg hd, if_pos (by omega)]

theorem ascii_codes (h : Bmp cs) (ha : cs.all (·.toNat < 0x80)) :
    ∀ c ∈ cs.map toNat, 0 < c ∧ c < 0x80 := by
  intro v hv
  obtain ⟨c, hc, rfl⟩ := mem_map.1 hv
  exact ⟨Nat.pos_of_ne_zero (h c hc).1, of_decide_eq_true (all_eq_true.1 ha c hc)⟩

theorem precomposed_ascii (h : Bmp cs) (ha : cs.all (·.toNat < 0x80)) : precomposed cs = cs := by
  rw [precomposed, precomposeAll_ascii (ascii_codes h ha), ofCodes_map_toNat]

theorem flatMap_decomposeChar_self (h : ∀ c ∈ l, decomposeChar c = [c]) :
    l.flatMap decomposeChar = l := by
  rw [flatMap_congr h, flatMap_singleton']

theorem decomposed_self (h : ∀ c ∈ cs, decomposeChar c.toNat = [c.toNat]) : decomposed cs = cs := by
  rw [decomposed, flatMap_decomposeChar_self, ofCodes_map_toNat]
  intro v hv
  obtain ⟨c, hc, rfl⟩ := mem_map.1 hv
  exact h c hc

theorem decomposed_ascii (ha : cs.all (·.toNat < 0x80)) : decomposed cs = cs :=
  decomposed_self fun c hc => decomposeChar_ascii (of_decide_eq_true (all_eq_true.1 ha c hc))

theorem ne_nil_of_not_ascii (ha : ¬cs.all (·.toNat < 0x80)) : cs ≠ [] := by
  rintro rfl
  exact ha rfl

/-- A name with UCS-2 characters only is shown precomposed. -/
theorem convertNameToUnix_bmp (hm : Memory heap) (h : Bmp cs) (hs : (utf8 cs).length ≤ intMax)
    (hd : destLen ≤ intMax) (hl : (utf8 (precomposed cs)).length < destLen) :
    convertNameToUnix heap .utf8Name (utf8 cs) destLen =
      some (slashToColon (utf8 (precomposed cs))) := by
  have hbound : ¬(decide (destLen = 0) || decide (intMax < (utf8 cs).length)
      || decide (intMax < destLen)) := by
    simp
    omega
  rw [convertNameToUnix, if_neg hbound, utf8IsAscii_utf8]
  by_cases ha : cs.all (·.toNat < 0x80)
  · rw [precomposed_ascii h ha] at hl ⊢
    simp [ha, copyIdentity_utf8 fun c hc => (h c hc).1, hl]
  · have hne := ne_nil_of_not_ascii ha
    have hpos := length_pos_iff.2 (utf8_ne_nil hne)
    simp [ha, copyIfSupplementaryUtf8, containsSupplementaryUtf8_utf8, h.not_supplementary, hpos,
      convertUtf8decToUtf8pre_utf8 hm h hne, hl]

theorem not_ascii_of_supplementary (h : cs.any supplementary) :
    cs.all (·.toNat < 0x80) = false := by
  obtain ⟨c, hc, hs⟩ := any_eq_true.1 h
  rw [supplementary, decide_eq_true_eq] at hs
  rw [all_eq_false]
  refine ⟨c, hc, ?_⟩
  simp only [decide_eq_true_eq]
  omega

/-- A name with another character is shown as it is. -/
theorem convertNameToUnix_supplementary (h0 : ∀ c ∈ cs, c.toNat ≠ 0) (h : cs.any supplementary)
    (hs : (utf8 cs).length ≤ intMax) (hd : destLen ≤ intMax) (hl : (utf8 cs).length < destLen) :
    convertNameToUnix heap .utf8Name (utf8 cs) destLen = some (slashToColon (utf8 cs)) := by
  have hbound : ¬(decide (destLen = 0) || decide (intMax < (utf8 cs).length)
      || decide (intMax < destLen)) := by
    simp
    omega
  have ha := not_ascii_of_supplementary h
  have hne := isEmpty_eq_false_iff.2 (utf8_ne_nil (ne_nil_of_not_ascii (Bool.eq_false_iff.1 ha)))
  rw [convertNameToUnix, if_neg hbound, utf8IsAscii_utf8]
  simp [copyIfSupplementaryUtf8, containsSupplementaryUtf8_utf8, h, copyIdentity_utf8 h0, hl, hne]

/-- What a path converts to. -/
def sent (cs : List Char) : List Char := if cs.any supplementary then cs else decomposed cs

theorem sent_bmp (h : Bmp cs) : sent cs = decomposed cs := by
  rw [sent, h.not_supplementary]
  rfl

theorem sent_supplementary (h : cs.any supplementary) : sent cs = cs := if_pos h

theorem utf8DecodesWhole_utf8 (hm : Memory heap) (h0 : ∀ c ∈ cs, c.toNat ≠ 0) :
    utf8DecodesWhole heap (utf8 cs) = true := by
  rw [utf8DecodesWhole, ucs2BufferGet_eq hm, utf8toUcs2_utf8 h0]
  simp

theorem bmp_of_not_supplementary (h0 : ∀ c ∈ cs, c.toNat ≠ 0) (h : ¬cs.any supplementary) :
    Bmp cs := by
  intro c hc
  have hs : ¬supplementary c := fun hs => h (any_eq_true.2 ⟨c, hc, hs⟩)
  simp only [supplementary, decide_eq_true_eq] at hs
  exact ⟨h0 c hc, by omega⟩

/-- A path that fits, its conversion with it, is converted. -/
theorem convertPathToAfp_utf8 (hm : Memory heap) (h0 : ∀ c ∈ cs, c.toNat ≠ 0)
    (hl : (utf8 cs).length < destLen) (hl' : (utf8 (sent cs)).length < destLen) :
    convertPathToAfp heap .utf8Name (utf8 cs) destLen = some (utf8 (sent cs)) := by
  have hbound : ¬(decide (destLen = 0) || decide (destLen ≤ (utf8 cs).length)) := by
    simp
    omega
  rw [convertPathToAfp, if_neg hbound, utf8IsAscii_utf8]
  by_cases h : cs.any supplementary
  · simp [copyIfSupplementaryUtf8,
      containsSupplementaryUtf8_utf8, h, copyIdentity_utf8 h0, hl, utf8DecodesWhole_utf8 hm h0,
      sent_supplementary h]
  · have hb := bmp_of_not_supplementary h0 h
    rw [sent_bmp hb] at hl' ⊢
    by_cases ha : cs.all (·.toNat < 0x80)
    · simp [ha, copyIdentity_utf8 h0, hl, decomposed_ascii ha]
    · have hne := ne_nil_of_not_ascii ha
      have hpos := length_pos_iff.2 (utf8_ne_nil hne)
      simp [ha, copyIfSupplementaryUtf8, containsSupplementaryUtf8_utf8, h, hpos,
        convertUtf8preToUtf8dec_utf8 hm hb hne, hl']

/-! ## Separators -/

/-- A slash of the server's name is shown as a colon. -/
def shownChar (c : Char) : Char := if c = '/' then ':' else c

theorem eq_of_toNat_eq {c d : Char} (h : c.toNat = d.toNat) : c = d := by
  rw [← ofNat_toNat c, h, ofNat_toNat]

theorem slashToColon_utf8 (cs : List Char) : slashToColon (utf8 cs) = utf8 (cs.map shownChar) := by
  refine utf8_map (fun b hb => if_neg ?_) (fun c => ?_) cs
  · rintro rfl
    revert hb
    decide
  · by_cases h : c = '/'
    · subst h
      rfl
    · rw [shownChar, if_neg h]
      split
      · next hlt =>
        rw [utf8EncodeChar_eq, encodeNat_ascii hlt, if_neg]
        intro hb
        have hv := congrArg UInt8.toNat hb
        rw [toNat_ofNat (by omega)] at hv
        exact h (eq_of_toNat_eq hv)
      · rfl

theorem unixpathToAfppath_slashToColon {b : Bytes} (h : colon ∉ b) :
    unixpathToAfppath (slashToColon b) = b := by
  rw [unixpathToAfppath, slashToColon, map_map]
  refine map_eq_self fun c hc => ?_
  have hne : c ≠ colon := ne_of_mem_of_not_mem hc h
  by_cases hs : c = slash
  · subst hs
    rfl
  · simp [hs, hne]

theorem slash_not_mem_slashToColon (b : Bytes) : slash ∉ slashToColon b := by
  intro h
  obtain ⟨c, -, hc⟩ := mem_map.1 h
  split at hc
  · cases hc
  · next hn => exact hn hc

theorem decomposed_eq (cs : List Char) :
    decomposed cs = cs.flatMap fun c => ofCodes (decomposeChar c.toNat) := by
  rw [decomposed, ofCodes, map_flatMap, flatMap_map]
  rfl

/-- The decomposition of a character that is not a separator has no separator. -/
theorem separator_decomposed {c : Char} {v : Nat} (hv : v = 0x2f ∨ v = 0x3a) (hc : Ucs2 c.toNat)
    (hne : c.toNat ≠ v) : ∀ x ∈ ofCodes (decomposeChar c.toNat), x.toNat ≠ v := by
  intro x hx
  have h := decomposes_decomposeChar c.toNat
  have hu := h.all (fun hs hm _ => (hm.ucs2 hs).2) hc
  have hx := mem_map_of_mem (f := toNat) hx
  rw [map_toNat_ofCodes hu] at hx
  refine h.all (P := (· ≠ v)) (fun hs hm _ => ?_) hne _ hx
  have := hm.ascii hs
  exact ⟨by omega, by omega⟩

theorem decomposed_map_shownChar (h : Bmp cs) :
    decomposed (cs.map shownChar) = (decomposed cs).map shownChar := by
  rw [decomposed_eq, decomposed_eq, map_flatMap, flatMap_map]
  refine flatMap_congr fun c hc => ?_
  by_cases hs : c = '/'
  · subst hs
    rw [decomposeChar_ascii (by decide), show (shownChar '/') = ':' from rfl,
      decomposeChar_ascii (by decide)]
    rfl
  · have hu : Ucs2 c.toNat := h.ucs2 _ (mem_map_of_mem hc)
    have hne : c.toNat ≠ 0x2f := fun e => hs (eq_of_toNat_eq e)
    rw [show shownChar c = c from if_neg hs]
    refine (map_eq_self fun x hx => if_neg fun hx' => ?_).symm
    exact separator_decomposed (.inl rfl) hu hne x hx (by rw [hx']; rfl)

theorem supplementary_map_shownChar (cs : List Char) :
    (cs.map shownChar).any supplementary = cs.any supplementary := by
  rw [any_map]
  congr 1
  funext c
  by_cases h : c = '/'
  · subst h
    rfl
  · rw [Function.comp, shownChar, if_neg h]

theorem shownChar_ne_nul (h0 : ∀ c ∈ cs, c.toNat ≠ 0) : ∀ c ∈ cs.map shownChar, c.toNat ≠ 0 := by
  intro x hx
  obtain ⟨c, hc, rfl⟩ := mem_map.1 hx
  rw [shownChar]
  split
  · decide
  · exact h0 c hc

theorem sent_path (h0 : ∀ c ∈ cs, c.toNat ≠ 0) :
    sent ('/' :: cs.map shownChar) = '/' :: (sent cs).map shownChar := by
  have hroot : ('/' :: cs.map shownChar).any supplementary = cs.any supplementary := by
    rw [any_cons, supplementary_map_shownChar]
    rfl
  rw [sent, sent, hroot]
  split
  · rfl
  · next h =>
    rw [decomposed_eq, flatMap_cons, ← decomposed_eq,
      decomposed_map_shownChar (bmp_of_not_supplementary h0 h),
      decomposeChar_ascii (by decide)]
    rfl

/-! ## The round trip -/

/-- The bytes of the last name of a path, as a request carries them. -/
def nameOnWire (vol : Volume) (heap : Nat → Bool) (path : Path) (destLen : Nat) : Option Path :=
  (convertPathToAfp heap vol.pathEncoding path destLen).bind fun converted =>
    (splitLast converted).map fun p => vol.wireName p.2

theorem nameOnWire_eq {vol : Volume} (hv : vol.pathEncoding = .utf8Name) (hm : Memory heap)
    (h0 : ∀ c ∈ cs, c.toNat ≠ 0) (hl : (utf8 cs).length + 1 < destLen)
    (hl' : (utf8 (sent cs)).length + 1 < destLen) (hw : (utf8 (sent cs)).length ≤ 65535)
    (hcolon : colon ∉ utf8 (sent cs)) :
    nameOnWire vol heap (slash :: slashToColon (utf8 cs)) destLen = some (utf8 (sent cs)) := by
  have hpath (cs : List Char) : slash :: slashToColon (utf8 cs) = utf8 ('/' :: cs.map shownChar) := by
    rw [slashToColon_utf8]
    rfl
  have hlen (b : Bytes) : (slashToColon b).length = b.length := length_map _
  rw [nameOnWire, hv, hpath, convertPathToAfp_utf8 hm, sent_path h0, ← hpath, Option.bind_some]
  · rw [show slash :: slashToColon (utf8 (sent cs)) = [] ++ slash :: slashToColon (utf8 (sent cs))
        from rfl, splitLast_append (slash_not_mem_slashToColon _), Option.map_some,
      Volume.wireName, copyPath, hv]
    rw [take_of_length_le (by rwa [hlen]), unixpathToAfppath_slashToColon hcolon]
  · exact forall_mem_cons.2 ⟨by decide, shownChar_ne_nul h0⟩
  · rw [← hpath, length_cons, hlen]
    exact hl
  · rw [sent_path h0, ← hpath, length_cons, hlen]
    exact hl'

/-- The string as the client shows it, but for its slashes. -/
def shown (cs : List Char) : List Char := if cs.any supplementary then cs else precomposed cs

/-- The conversions of a name there and back have room. -/
structure Fits (n : List Char) (nameLen pathLen : Nat) : Prop where
  name : (utf8 n).length ≤ intMax
  int : nameLen ≤ intMax
  shows : (utf8 (shown n)).length < nameLen
  path : (utf8 (shown n)).length + 1 < pathLen
  converted : (utf8 (sent n)).length + 1 < pathLen
  wire : (utf8 (sent n)).length ≤ 65535

section

variable (h0 : ∀ c ∈ cs, c.toNat ≠ 0)

include h0

theorem shown_ne_nul : ∀ c ∈ shown cs, c.toNat ≠ 0 := by
  rw [shown]
  split
  · exact h0
  · next h =>
    have hb := bmp_of_not_supplementary h0 h
    exact fun c hc => (bmp_ofCodes (precomposeAll_ucs2 hb.ucs2) c hc).1

/-- Showing a name does not change what is sent for it. -/
theorem sent_shown : sent (shown cs) = sent cs := by
  rw [shown]
  split
  · rfl
  · next h =>
    have hb := bmp_of_not_supplementary h0 h
    have hp := precomposeAll_ucs2 hb.ucs2
    rw [sent_bmp hb, precomposed, sent_bmp (bmp_ofCodes hp), decomposed, map_toNat_ofCodes hp,
      decompose_precomposeAll hb.ucs2]
    rfl

theorem sent_no_colon (hc : ':' ∉ cs) : colon ∉ utf8 (sent cs) := by
  refine not_mem_utf8 (by decide) fun x hx => ?_
  have hne : ∀ c ∈ cs, c.toNat ≠ 0x3a := fun c hm e => hc (eq_of_toNat_eq (d := ':') e ▸ hm)
  rw [sent] at hx
  split at hx
  · exact hne x hx
  · next h =>
    have hb := bmp_of_not_supplementary h0 h
    rw [decomposed_eq] at hx
    obtain ⟨c, hm, hx⟩ := mem_flatMap.1 hx
    exact separator_decomposed (.inr rfl) (hb.ucs2 _ (mem_map_of_mem hm)) (hne c hm) x hx

end

theorem convertNameToUnix_utf8 {n : List Char} {nameLen pathLen : Nat} (hm : Memory heap)
    (h0 : ∀ c ∈ n, c.toNat ≠ 0) (hf : Fits n nameLen pathLen) :
    convertNameToUnix heap .utf8Name (utf8 n) nameLen = some (slashToColon (utf8 (shown n))) := by
  have hs := hf.shows
  rw [shown] at hs ⊢
  split at hs
  · next h =>
    rw [if_pos h]
    exact convertNameToUnix_supplementary h0 h hf.name hf.int hs
  · next h =>
    rw [if_neg h]
    exact convertNameToUnix_bmp hm (bmp_of_not_supplementary h0 h) hf.name
      hf.int hs

/-- The name of an object of the server, shown and sent back, is its full
decomposition by the table; a name with a character beyond UCS-2 is sent as it was. -/
theorem name_comes_back {vol : Volume} (hv : vol.pathEncoding = .utf8Name) (hm : Memory heap)
    {n : List Char} {nameLen pathLen : Nat} (h0 : '\x00' ∉ n) (hc : ':' ∉ n)
    (hf : Fits n nameLen pathLen) :
    ∃ u w, convertNameToUnix heap vol.pathEncoding (utf8 n) nameLen = some u ∧
      nameOnWire vol heap (slash :: u) pathLen = some w ∧
      ((∀ c ∈ n, c.toNat < 0x10000) →
        ∃ d, FullDecomposition (n.map Char.toNat) d ∧ w = utf8 (ofCodes d)) ∧
      ((∀ c ∈ n, c.toNat < 0x10000 ∧ ∀ e ∈ table.tail, e.1 ≠ c.toNat) → w = utf8 n) ∧
      ((∃ c ∈ n, 0x10000 ≤ c.toNat) → w = utf8 n) := by
  have h0 : ∀ c ∈ n, c.toNat ≠ 0 := fun c hm e => h0 (eq_of_toNat_eq (d := '\x00') e ▸ hm)
  refine ⟨_, utf8 (sent n), hv ▸ convertNameToUnix_utf8 hm h0 hf, ?_, fun h => ?_, fun h => ?_,
    fun h => ?_⟩
  · have := sent_shown h0
    rw [nameOnWire_eq hv hm (shown_ne_nul h0) hf.path (this ▸ hf.converted) (this ▸ hf.wire)
      (this ▸ sent_no_colon h0 hc), this]
  · have hb : Bmp n := fun c hm => ⟨h0 c hm, h c hm⟩
    exact ⟨_, fullDecomposition_iff.2 rfl, by rw [sent_bmp hb, decomposed]⟩
  · have hb : Bmp n := fun c hm => ⟨h0 c hm, (h c hm).1⟩
    rw [sent_bmp hb, decomposed_self fun c hm => decomposeChar_self (h c hm).2]
  · obtain ⟨c, hm, hs⟩ := h
    rw [sent_supplementary (any_eq_true.2 ⟨c, hm, decide_eq_true hs⟩)]

/-- An e and an acute accent, shown as one character, come back as two. -/
theorem name_comes_back_acute :
    ∃ u, convertNameToUnix (fun _ => true) .utf8Name [0x65, 0xcc, 0x81] maxNameBytes = some u ∧
      nameOnWire plainVolume (fun _ => true) (slash :: u) maxNameBytes = some [0x65, 0xcc, 0x81] := by
  let n := ['e', ofNat 0x301]
  have alone : ∀ c ∈ n, c.toNat < 0x10000 ∧ ∀ e ∈ table.tail, e.1 ≠ c.toNat :=
    all_iff_forall_prop.1 (by decide +kernel)
  have terminated : ∀ c ∈ n, c.toNat ≠ 0 := all_iff_forall_prop.1 (by decide)
  have hsent : sent n = n := by
    have hb : Bmp n := fun c hc => ⟨terminated c hc, (alone c hc).1⟩
    rw [sent_bmp hb, decomposed_self fun c hc => decomposeChar_self (alone c hc).2]
  have fits : Fits n maxNameBytes maxNameBytes := by
    refine ⟨by decide, by decide, by decide +kernel, by decide +kernel, ?_, ?_⟩
    · rw [hsent]
      decide
    · rw [hsent]
      decide
  obtain ⟨u, w, hu, hw, -, same, -⟩ :=
    name_comes_back (show plainVolume.pathEncoding = .utf8Name from rfl)
      (show Memory (fun _ => true) from fun _ => rfl) (by decide) (by decide) fits
  exact ⟨u, hu, by rw [hw, same alone]; rfl⟩

end NC
