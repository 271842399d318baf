import NetatalkClient.Model.Names.Codepage

/-!
# UTF-8 in and out of UCS-2

`utf8 cs` is the UTF-8 of a string of Unicode characters. `utf8toUcs2` decodes it
whole (`utf8toUcs2_utf8`), with a tilde for a character that UCS-2 lacks, and a
string it decodes whole and without a replacement is of that form
(`exists_utf8`). `ucs2toUtf8` writes the same bytes (`ucs2toUtf8_eq`).
-/

namespace NC

open List

/-- The UTF-8 of a string. -/
def utf8 (cs : List Char) : Bytes := cs.flatMap String.utf8EncodeChar

@[simp] theorem utf8_nil : utf8 [] = [] := rfl

@[simp] theorem utf8_cons (c : Char) (cs : List Char) :
    utf8 (c :: cs) = String.utf8EncodeChar c ++ utf8 cs := rfl

@[simp] theorem utf8_append (cs cs' : List Char) : utf8 (cs ++ cs') = utf8 cs ++ utf8 cs' :=
  flatMap_append

/-- What a character decodes to: beyond UCS-2, a tilde. -/
def ucs2Of (c : Char) : Nat := if c.toNat < 0x10000 then c.toNat else 0x7e

/-- A Unicode scalar value. -/
def Scalar (v : Nat) : Prop := v < 0xd800 ∨ 0xdfff < v ∧ v < 0x110000

theorem scalar_toNat (c : Char) : Scalar c.toNat := by
  have := c.valid
  simp only [UInt32.isValidChar] at this
  simp only [Scalar, Char.toNat]
  omega

/-! ## Bytes -/

theorem and_c0 : ∀ b < 256, b &&& 0xc0 = b / 64 * 64 := by decide +kernel

theorem and_3f (b : Nat) : b &&& 0x3f = b % 64 := Nat.and_two_pow_sub_one_eq_mod b 6

theorem and_1f (b : Nat) : b &&& 0x1f = b % 32 := Nat.and_two_pow_sub_one_eq_mod b 5

theorem and_f (b : Nat) : b &&& 0xf = b % 16 := Nat.and_two_pow_sub_one_eq_mod b 4

theorem isContinuation_eq (b : UInt8) :
    isContinuation b.toNat = decide (128 ≤ b.toNat ∧ b.toNat < 192) := by
  have hb := b.toNat_lt
  rw [isContinuation, and_c0 _ hb]
  congr 1
  rw [eq_iff_iff]
  omega

/-- The length of the sequence a byte leads. -/
def leads (b : Nat) : Nat :=
  if b = 0 then 0
  else if b < 0x80 then 1
  else if b < 0xc0 then 0
  else if b < 0xe0 then 2
  else if b < 0xf0 then 3
  else if b < 0xf8 then 4
  else if b < 0xfc then 5
  else if b < 0xfe then 6
  else if b < 0xff then 7
  else 8

theorem mbCharLen_ofNat : ∀ b < 256, mbCharLen (UInt8.ofNat b) = leads b := by decide +kernel

theorem mbCharLen_eq (b : UInt8) : mbCharLen b = leads b.toNat := by
  rw [← mbCharLen_ofNat _ b.toNat_lt, UInt8.ofNat_toNat]

theorem leads_cases : ∀ b < 256, leads b ≠ 0 →
    leads b = 1 ∧ 0 < b ∧ b < 0x80 ∨ leads b = 2 ∧ 0xc0 ≤ b ∧ b < 0xe0 ∨
      leads b = 3 ∧ 0xe0 ≤ b ∧ b < 0xf0 ∨ leads b = 4 ∧ 0xf0 ≤ b ∧ b < 0xf8 ∨ 4 < leads b := by
  decide +kernel

theorem leads_one {b : Nat} (h : 0 < b ∧ b < 0x80) : leads b = 1 := by
  rw [leads, if_neg (by omega), if_pos (by omega)]

theorem leads_two {b : Nat} (h : 0xc0 ≤ b ∧ b < 0xe0) : leads b = 2 := by
  rw [leads]
  split_ifs <;> omega

theorem leads_three {b : Nat} (h : 0xe0 ≤ b ∧ b < 0xf0) : leads b = 3 := by
  rw [leads]
  split_ifs <;> omega

theorem leads_four {b : Nat} (h : 0xf0 ≤ b ∧ b < 0xf8) : leads b = 4 := by
  rw [leads]
  split_ifs <;> omega

variable {n v fuel room destLen : Nat} {a b : UInt8} {rest p : Bytes} {cs : List Char}
  {chars : List Nat}

theorem toNat_ofNat (h : n < 256) : (UInt8.ofNat n).toNat = n := by
  rw [UInt8.toNat_ofNat']
  exact Nat.mod_eq_of_lt h

/-! ## Decoding a sequence -/

theorem decodeChar_one : decodeChar (a :: rest) 1 = (a.toNat, false) :=
  rfl

theorem decodeChar_two (hv : v = a.toNat % 32 * 64 + b.toNat % 64) :
    decodeChar (a :: b :: rest) 2 =
      if 0x7f < v ∧ 128 ≤ b.toNat ∧ b.toNat < 192 then (v, false) else (0x2a, true) := by
  simp only [decodeChar, byteAt, getD_cons_zero, getD_cons_succ, isContinuation_eq,
    and_3f, and_1f, Nat.shiftLeft_eq]
  rw [show b.toNat % 64 + a.toNat % 32 * 2 ^ 6 = v by omega]
  grind

theorem decodeChar_three {c : UInt8}
    (hv : v = a.toNat % 16 * 4096 + b.toNat % 64 * 64 + c.toNat % 64) :
    decodeChar (a :: b :: c :: rest) 3 =
      if 0x7ff < v ∧ (v < 0xd800 ∨ 0xdfff < v) ∧ (128 ≤ b.toNat ∧ b.toNat < 192) ∧
        (128 ≤ c.toNat ∧ c.toNat < 192) then (v, false) else (0x2a, true) := by
  simp only [decodeChar, byteAt, getD_cons_zero, getD_cons_succ, isContinuation_eq,
    and_3f, and_f, Nat.shiftLeft_eq]
  rw [show c.toNat % 64 + b.toNat % 64 * 2 ^ 6 + a.toNat % 16 * 2 ^ 12 = v by omega]
  grind

theorem decodeChar_four {c d : UInt8}
    (hv : v = a.toNat % 8 * 262144 + b.toNat % 64 * 4096 + c.toNat % 64 * 64 + d.toNat % 64)
    (ha : 0xf0 ≤ a.toNat ∧ a.toNat < 0xf8) :
    decodeChar (a :: b :: c :: d :: rest) 4 =
      if 0xffff < v ∧ v < 0x110000 ∧ (128 ≤ b.toNat ∧ b.toNat < 192) ∧
        (128 ≤ c.toNat ∧ c.toNat < 192) ∧ (128 ≤ d.toNat ∧ d.toNat < 192) then (0x7e, false)
      else (0x2a, true) := by
  simp only [decodeChar, byteAt, isContinuation_eq]
  congr 1
  simp
  omega

theorem decodeChar_long {clen : Nat} (h : 4 < clen) : decodeChar p clen = (0x2a, true) := by
  unfold decodeChar
  split
  · omega
  · omega
  · omega
  · rw [if_neg]
    simp only [Bool.and_eq_true, decide_eq_true_eq]
    omega

/-! ## Sequences and characters -/

/-- The UTF-8 of a scalar value. -/
def encodeNat (v : Nat) : Bytes :=
  if v ≤ 0x7f then [UInt8.ofNat v]
  else if v ≤ 0x7ff then [UInt8.ofNat (v / 64 % 32 + 192), UInt8.ofNat (v % 64 + 128)]
  else if v ≤ 0xffff then
    [UInt8.ofNat (v / 4096 % 16 + 224), UInt8.ofNat (v / 64 % 64 + 128),
      UInt8.ofNat (v % 64 + 128)]
  else
    [UInt8.ofNat (v / 262144 % 8 + 240), UInt8.ofNat (v / 4096 % 64 + 128),
      UInt8.ofNat (v / 64 % 64 + 128), UInt8.ofNat (v % 64 + 128)]

theorem utf8EncodeChar_eq (c : Char) : String.utf8EncodeChar c = encodeNat c.toNat := rfl

theorem toNat_ofNat_of_scalar (h : Scalar v) : (Char.ofNat v).toNat = v := by
  have hv : v.isValidChar := by
    simp only [Scalar] at h ⊢
    omega
  rw [Char.ofNat, dif_pos hv]
  rfl

theorem encodeNat_eq (h : Scalar v) : encodeNat v = String.utf8EncodeChar (Char.ofNat v) := by
  rw [utf8EncodeChar_eq, toNat_ofNat_of_scalar h]

/-- The sequence of a character is led by a byte that says its length, and decodes to
the character. -/
theorem decode_encode (c : Char) (h0 : c.toNat ≠ 0) (rest : Bytes) :
    ∃ b bs, String.utf8EncodeChar c = b :: bs ∧ mbCharLen b = bs.length + 1 ∧
      decodeChar (b :: (bs ++ rest)) (bs.length + 1) = (ucs2Of c, false) := by
  have hs := scalar_toNat c
  rw [utf8EncodeChar_eq, ucs2Of]
  generalize c.toNat = v at h0 hs
  rw [Scalar] at hs
  rw [encodeNat]
  split
  · refine ⟨_, _, rfl, ?_, ?_⟩
    · rw [mbCharLen_eq, toNat_ofNat (by omega), leads_one (by omega)]
      rfl
    · rw [length_nil, decodeChar_one, toNat_ofNat (by omega), if_pos (by omega)]
  split
  · refine ⟨_, _, rfl, ?_, ?_⟩
    · rw [mbCharLen_eq, toNat_ofNat (by omega), leads_two (by omega)]
      rfl
    · simp only [length_cons, length_nil, cons_append]
      rw [decodeChar_two rfl, toNat_ofNat (by omega), toNat_ofNat (by omega),
        if_pos (by omega), if_pos (by omega)]
      congr 1
      omega
  split
  · refine ⟨_, _, rfl, ?_, ?_⟩
    · rw [mbCharLen_eq, toNat_ofNat (by omega), leads_three (by omega)]
      rfl
    · simp only [length_cons, length_nil, cons_append]
      rw [decodeChar_three rfl, toNat_ofNat (by omega), toNat_ofNat (by omega),
        toNat_ofNat (by omega), if_pos (by omega), if_pos (by omega)]
      congr 1
      omega
  · refine ⟨_, _, rfl, ?_, ?_⟩
    · rw [mbCharLen_eq, toNat_ofNat (by omega), leads_four (by omega)]
      rfl
    · simp only [length_cons, length_nil, cons_append]
      rw [decodeChar_four rfl (by rw [toNat_ofNat (by omega)]; omega), toNat_ofNat (by omega),
        toNat_ofNat (by omega), toNat_ofNat (by omega), toNat_ofNat (by omega), if_pos (by omega),
        if_neg (by omega)]

theorem ofNat_eq (h : n = b.toNat) : UInt8.ofNat n = b := by
  rw [h, UInt8.ofNat_toNat]

theorem encodeNat_two (hv : v = a.toNat % 32 * 64 + b.toNat % 64)
    (ha : 0xc0 ≤ a.toNat ∧ a.toNat < 0xe0) (hb : 128 ≤ b.toNat ∧ b.toNat < 192) (h : 0x7f < v) :
    encodeNat v = [a, b] := by
  rw [encodeNat, if_neg (by omega), if_pos (by omega), ofNat_eq (b := a) (by omega),
    ofNat_eq (b := b) (by omega)]

theorem encodeNat_three {c : UInt8}
    (hv : v = a.toNat % 16 * 4096 + b.toNat % 64 * 64 + c.toNat % 64)
    (ha : 0xe0 ≤ a.toNat ∧ a.toNat < 0xf0) (hb : 128 ≤ b.toNat ∧ b.toNat < 192)
    (hc : 128 ≤ c.toNat ∧ c.toNat < 192) (h : 0x7ff < v) : encodeNat v = [a, b, c] := by
  rw [encodeNat, if_neg (by omega), if_neg (by omega), if_pos (by omega),
    ofNat_eq (b := a) (by omega), ofNat_eq (b := b) (by omega), ofNat_eq (b := c) (by omega)]

theorem encodeNat_four {c d : UInt8}
    (hv : v = a.toNat % 8 * 262144 + b.toNat % 64 * 4096 + c.toNat % 64 * 64 + d.toNat % 64)
    (ha : 0xf0 ≤ a.toNat ∧ a.toNat < 0xf8) (hb : 128 ≤ b.toNat ∧ b.toNat < 192)
    (hc : 128 ≤ c.toNat ∧ c.toNat < 192) (hd : 128 ≤ d.toNat ∧ d.toNat < 192) (h : 0xffff < v) :
    encodeNat v = [a, b, c, d] := by
  rw [encodeNat, if_neg (by omega), if_neg (by omega), if_neg (by omega),
    ofNat_eq (b := a) (by omega), ofNat_eq (b := b) (by omega), ofNat_eq (b := c) (by omega),
    ofNat_eq (b := d) (by omega)]

/-- A sequence that is not replaced is that of a character. -/
theorem encode_decode (h0 : mbCharLen b ≠ 0) (hl : mbCharLen b ≤ (b :: p).length)
    (hd : (decodeChar (b :: p) (mbCharLen b)).2 = false) :
    ∃ c : Char, c.toNat ≠ 0 ∧ (b :: p).take (mbCharLen b) = String.utf8EncodeChar c := by
  rw [mbCharLen_eq] at *
  suffices h : ∃ v, Scalar v ∧ v ≠ 0 ∧ (b :: p).take (leads b.toNat) = encodeNat v by
    obtain ⟨v, hs, hv, e⟩ := h
    exact ⟨Char.ofNat v, by rwa [toNat_ofNat_of_scalar hs], by rw [e, encodeNat_eq hs]⟩
  rcases leads_cases _ b.toNat_lt h0 with ⟨e, hr⟩ | ⟨e, hr⟩ | ⟨e, hr⟩ | ⟨e, hr⟩ | h
  · refine ⟨b.toNat, .inl (by omega), by omega, ?_⟩
    rw [e, encodeNat, if_pos (by omega), UInt8.ofNat_toNat]
    rfl
  · rw [e] at hl hd ⊢
    obtain _ | ⟨b1, p⟩ := p
    · simp at hl
    rw [decodeChar_two rfl] at hd
    split at hd
    · next hv => exact ⟨_, .inl (by omega), by omega, (encodeNat_two rfl hr hv.2 hv.1).symm⟩
    · cases hd
  · rw [e] at hl hd ⊢
    obtain _ | ⟨b1, _ | ⟨b2, p⟩⟩ := p
    · simp at hl
    · simp at hl
    rw [decodeChar_three rfl] at hd
    split at hd
    · next hv =>
      obtain ⟨hv, hs, h1, h2⟩ := hv
      exact ⟨_, hs.imp_right (⟨·, by omega⟩), by omega, (encodeNat_three rfl hr h1 h2 hv).symm⟩
    · cases hd
  · rw [e] at hl hd ⊢
    obtain _ | ⟨b1, _ | ⟨b2, _ | ⟨b3, p⟩⟩⟩ := p
    · simp at hl
    · simp at hl
    · simp at hl
    rw [decodeChar_four rfl hr] at hd
    split at hd
    · next hv =>
      obtain ⟨hv, hs, h1, h2, h3⟩ := hv
      exact ⟨_, .inr ⟨by omega, hs⟩, by omega, (encodeNat_four rfl hr h1 h2 h3 hv).symm⟩
    · cases hd
  · rw [decodeChar_long h] at hd
    cases hd

/-! ## Decoding a string -/

theorem length_le_utf8 (cs : List Char) : cs.length ≤ (utf8 cs).length := by
  induction cs with
  | nil => exact Nat.le_refl 0
  | cons c cs ih =>
    have := length_pos_iff.2 (String.utf8EncodeChar_ne_nil (c := c))
    rw [utf8_cons, length_append, length_cons]
    omega

theorem utf8_ne_nil (h : cs ≠ []) : utf8 cs ≠ [] := by
  have := length_pos_iff.2 h
  have := length_le_utf8 cs
  exact length_pos_iff.1 (by omega)

theorem utf8toUcs2Loop_utf8 (h0 : ∀ c ∈ cs, c.toNat ≠ 0) (hf : (utf8 cs).length ≤ fuel)
    (hr : cs.length < room) :
    utf8toUcs2Loop fuel (utf8 cs) room = some ⟨cs.map ucs2Of, (utf8 cs).length, 0⟩ := by
  induction cs generalizing fuel room with
  | nil => cases fuel <;> rfl
  | cons c cs ih =>
    obtain ⟨b, bs, e, hl, hd⟩ := decode_encode c (h0 c mem_cons_self) (utf8 cs)
    rw [utf8_cons, e, cons_append, length_cons, length_append] at hf ⊢
    rw [length_cons] at hr
    obtain ⟨fuel, rfl⟩ := Nat.exists_eq_add_of_le' (show 1 ≤ fuel by omega)
    have hdrop : (b :: (bs ++ utf8 cs)).drop (bs.length + 1) = utf8 cs := by
      rw [drop_succ_cons, drop_left]
    simp only [utf8toUcs2Loop, hl, hd, hdrop]
    rw [if_neg (by simp), if_neg (by omega),
      ih (fun c hc => h0 c (mem_cons_of_mem _ hc)) (by omega) (by omega)]
    simp only [Option.map_some, Decoded.cons]
    congr 2
    omega

/-- A string of characters without NUL decodes whole. -/
theorem utf8toUcs2_utf8 (h0 : ∀ c ∈ cs, c.toNat ≠ 0) :
    utf8toUcs2 (utf8 cs) ((utf8 cs).length + 1) = some ⟨cs.map ucs2Of, (utf8 cs).length, 0⟩ := by
  rw [utf8toUcs2, if_neg (by omega)]
  exact utf8toUcs2Loop_utf8 h0 (Nat.le_refl _) (Nat.lt_succ_of_le (length_le_utf8 cs))

/-- `UTF8toUCS2` writes as many characters as `mbStrLen` counts, if there is room for them. -/
theorem utf8toUcs2Loop_length (hr : 0 < room) :
    (utf8toUcs2Loop fuel p room).map (·.chars.length) =
      if mbStrLen fuel p < room then some (mbStrLen fuel p) else none := by
  induction fuel generalizing p room with
  | zero => exact (if_pos hr).symm
  | succ fuel ih =>
    cases p with
    | nil => exact (if_pos hr).symm
    | cons b p =>
      by_cases hl : mbCharLen b = 0 ∨ p.length + 1 < mbCharLen b
      · simp [utf8toUcs2Loop, mbStrLen, hl, hr]
      by_cases hroom : room ≤ 1
      · simp [utf8toUcs2Loop, mbStrLen, hl, hroom]
        omega
      · have hstep : (utf8toUcs2Loop (fuel + 1) (b :: p) room).map (·.chars.length) =
            ((utf8toUcs2Loop fuel ((b :: p).drop (mbCharLen b)) (room - 1)).map
              (·.chars.length)).map (· + 1) := by
          simp [utf8toUcs2Loop, hl, hroom, Function.comp_def, Decoded.cons]
        have hlen : mbStrLen (fuel + 1) (b :: p) = mbStrLen fuel ((b :: p).drop (mbCharLen b)) + 1 :=
          if_neg hl
        rw [hstep, hlen, ih (by omega)]
        grind

theorem utf8_of_utf8toUcs2Loop {d : Decoded} (h : utf8toUcs2Loop fuel p room = some d)
    (hs : d.substituted = 0) (hc : d.bytesConsumed = p.length) :
    ∃ cs : List Char, (∀ c ∈ cs, c.toNat ≠ 0) ∧ p = utf8 cs := by
  induction fuel generalizing p room d with
  | zero =>
    cases h
    exact ⟨[], nofun, length_eq_zero_iff.1 hc.symm⟩
  | succ fuel ih =>
    cases p with
    | nil => exact ⟨[], nofun, rfl⟩
    | cons b p =>
      simp only [utf8toUcs2Loop] at h
      split at h
      · cases h
        cases hc
      · next hl =>
        simp only [Bool.or_eq_true, decide_eq_true_eq, not_or, Nat.not_lt] at hl
        split at h
        · cases h
        · obtain ⟨d', hd', rfl⟩ := Option.map_eq_some_iff.1 h
          simp only [Decoded.cons] at hs hc
          have hr : (decodeChar (b :: p) (mbCharLen b)).2 = false := by
            rw [← Bool.not_eq_true]
            intro hr
            rw [if_pos hr] at hs
            omega
          obtain ⟨c, h0, e⟩ := encode_decode hl.1 hl.2 hr
          obtain ⟨cs, hcs, e'⟩ := ih hd' (by omega) (by rw [length_drop]; omega)
          refine ⟨c :: cs, forall_mem_cons.2 ⟨h0, hcs⟩, ?_⟩
          rw [utf8_cons, ← e, ← e', take_append_drop]

/-- A string that decodes whole is one of characters. -/
theorem exists_utf8 {d : Decoded} (h : utf8toUcs2 p room = some d) (hs : d.substituted = 0)
    (hc : d.bytesConsumed = p.length) :
    ∃ cs : List Char, (∀ c ∈ cs, c.toNat ≠ 0) ∧ p = utf8 cs := by
  rw [utf8toUcs2] at h
  split at h
  · cases h
  · exact utf8_of_utf8toUcs2Loop h hs hc

/-! ## Encoding a string -/

theorem or_80 : ∀ x < 64, 0x80 ||| x = x + 128 := by decide

theorem or_c0 : ∀ hi < 8, ∀ lo < 4, 0xc0 ||| hi * 4 ||| lo = hi * 4 + lo + 192 := by decide

theorem or_e0 : ∀ hi < 16, 0xe0 ||| hi = hi + 224 := by decide

theorem or_80_or : ∀ hi < 16, ∀ lo < 4, 0x80 ||| hi * 4 ||| lo = hi * 4 + lo + 128 := by decide

theorem and_f0 : ∀ b < 256, b &&& 0xf0 = b / 16 * 16 := by decide +kernel

theorem utf8Char_eq {c : Nat} (h : c < 0x10000) : utf8Char c = encodeNat c := by
  have hlo : c &&& 0xff = c % 256 := Nat.and_two_pow_sub_one_eq_mod c 8
  have hhi : c >>> 8 = c / 256 := Nat.shiftRight_eq_div_pow c 8
  have h7 : c / 256 &&& 0x7 = c / 256 % 8 := Nat.and_two_pow_sub_one_eq_mod _ 3
  have hc0 : (c % 256 &&& 0xc0) >>> 6 = c % 256 / 64 := by
    rw [and_c0 _ (Nat.mod_lt c (by decide)), Nat.shiftRight_eq_div_pow]
    omega
  have hf0 : (c / 256 &&& 0xf0) >>> 4 = c / 4096 := by
    rw [and_f0 _ (by omega), Nat.shiftRight_eq_div_pow]
    omega
  have h3f : 0x80 ||| c % 256 &&& 0x3f = c % 64 + 128 := by
    rw [and_3f, or_80 _ (by omega)]
    omega
  have hmid : 0x80 ||| (c / 256 &&& 0xf) <<< 2 ||| c % 256 / 64 = c / 64 % 64 + 128 := by
    rw [and_f, Nat.shiftLeft_eq, or_80_or _ (by omega) _ (by omega)]
    omega
  simp only [utf8Char, utf8CharOn, Bool.false_eq_true, if_false, encodeNat, hlo, hhi, h7, hc0,
    hf0, h3f, hmid]
  by_cases h1 : c < 0x80
  · rw [if_pos h1, if_pos (by omega), Nat.mod_eq_of_lt (by omega)]
  rw [if_neg h1, if_neg (show ¬c ≤ 0x7f by omega)]
  by_cases h2 : c < 0x800
  · have htwo : 0xc0 ||| (c / 256 % 8) <<< 2 ||| c % 256 / 64 = c / 64 % 32 + 192 := by
      rw [Nat.shiftLeft_eq, or_c0 _ (by omega) _ (by omega)]
      omega
    rw [if_pos h2, if_pos (by omega), htwo]
  · rw [if_neg h2, if_neg (by omega), if_pos (by omega), or_e0 _ (by omega),
      Nat.mod_eq_of_lt (show c / 4096 < 16 by omega)]

theorem ucs2toUtf8Loop_eq {used : Nat} (h0 : ∀ c ∈ chars, c ≠ 0) (hu : used < destLen) :
    ucs2toUtf8Loop utf8Char destLen chars used =
      if used + (chars.flatMap utf8Char).length < destLen then some (chars.flatMap utf8Char)
      else none := by
  induction chars generalizing used with
  | nil => exact (if_pos hu).symm
  | cons c chars ih =>
    rw [ucs2toUtf8Loop, if_neg (h0 c mem_cons_self), flatMap_cons, length_append]
    by_cases hc : destLen < used + (utf8Char c).length + 1
    · rw [if_pos hc, if_neg (by omega)]
    · rw [if_neg hc, ih (fun c hc => h0 c (mem_cons_of_mem _ hc)) (by omega), Nat.add_assoc]
      split <;> rfl

theorem ucs2toUtf8_eq (h0 : ∀ c ∈ chars, c ≠ 0) :
    ucs2toUtf8 chars destLen =
      if (chars.flatMap utf8Char).length < destLen then some (chars.flatMap utf8Char) else none := by
  by_cases hd : destLen = 0
  · rw [ucs2toUtf8, ucs2toUtf8On, if_pos hd, if_neg (by omega)]
  · rw [ucs2toUtf8, ucs2toUtf8On, if_neg hd, ← utf8Char, ucs2toUtf8Loop_eq h0 (by omega), Nat.zero_add]

/-- The bytes written for characters that UCS-2 has are their UTF-8. -/
theorem flatMap_utf8Char (h : ∀ c ∈ cs, c.toNat < 0x10000) :
    (cs.map Char.toNat).flatMap utf8Char = utf8 cs := by
  induction cs with
  | nil => rfl
  | cons c cs ih =>
    rw [map_cons, flatMap_cons, utf8_cons, utf8EncodeChar_eq,
      utf8Char_eq (h c mem_cons_self), ih fun c hc => h c (mem_cons_of_mem _ hc)]

end NC
