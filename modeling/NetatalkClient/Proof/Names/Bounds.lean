import NetatalkClient.Proof.Names.MacRoman

/-!
# The buffers of a conversion

A character decomposes into four at most (`length_decomposeChar`), as no chain of decompositions is
longer than three and only base characters go on. The UTF-8 of the four is at most four times as
long as the character's (`length_utf8_sent`), since those of a character of two bytes have no more
than two bytes each. So a buffer of four times the path and a terminator holds the conversion
(`path_buffers_hold`).
-/

namespace NC

open List

variable {c n : Nat} {cs : List Char} {heap : Nat → Bool}

/-- A character of two bytes decomposes into such. -/
theorem table_two_bytes : ∀ e ∈ table.tail, e.1 < 0x800 →
    e.2 >>> 16 < 0x800 ∧ e.2 &&& 0xffff < 0x800 := by
  decide +kernel

theorem decomposeTo_three (c n : Nat) : decomposeTo (n + 3) c = decomposeTo 3 c := by
  induction n with
  | zero => rfl
  | succ n ih =>
    rw [← ih]
    exact decomposeTo_succ not_deep

/-- Each decomposition of a base character adds one combining character. -/
theorem length_decomposeTo (c n : Nat) : (decomposeTo n c).length ≤ n + 1 := by
  induction n generalizing c with
  | zero => exact Nat.le_refl 1
  | succ n ih =>
    rw [decomposeTo]
    split
    · next first second hd =>
      have hs := second_lt_of_decompose hd
      have hnot : second ∉ deep 0 := by
        have := combining_not_precomposed _ (composes_of_decompose hd)
        rwa [pattern_second hs, testBit_bitsOf] at this
      have hself : decomposeTo n second = [second] := by
        cases n with
        | zero => rfl
        | succ n => rw [decomposeTo, decompose_none hnot]
      rw [hself, length_append]
      exact Nat.succ_le_succ (ih first)
    · exact Nat.le_add_left 1 _

theorem length_decomposeChar (c : Nat) : (decomposeChar c).length ≤ 4 := by
  rw [decomposeChar, length_table, decomposeTo_three]
  exact length_decomposeTo c 3

theorem length_flatMap_le {α β : Type} {l : List α} {f : α → List β} {m : Nat}
    (h : ∀ x ∈ l, (f x).length ≤ m) : (l.flatMap f).length ≤ m * l.length := by
  induction l with
  | nil => exact Nat.le_refl 0
  | cons x l ih =>
    obtain ⟨hx, h⟩ := forall_mem_cons.1 h
    rw [flatMap_cons, length_append, length_cons, Nat.mul_succ, Nat.add_comm]
    exact Nat.add_le_add (ih h) hx

theorem length_encodeNat (c : Nat) (h : c < 0x10000) :
    (encodeNat c).length = if c < 0x80 then 1 else if c < 0x800 then 2 else 3 := by
  unfold encodeNat
  split
  · rw [if_pos (by omega)]
    rfl
  split
  · rw [if_neg (by omega), if_pos (by omega)]
    rfl
  · rw [if_pos (by omega), if_neg (by omega), if_neg (by omega)]
    rfl

/-- The decomposition of a character has at most four times its bytes. -/
theorem length_encode_decomposeChar (h : Ucs2 c) :
    ((decomposeChar c).flatMap encodeNat).length ≤ 4 * (encodeNat c).length := by
  have hlt : ∀ x ∈ decomposeChar c, x < 0x10000 := fun x hx =>
    ((decomposes_decomposeChar c).all (fun hs hm _ => (hm.ucs2 hs).2) h x hx).lt
  have bound : ∀ {m : Nat}, (∀ x ∈ decomposeChar c, (encodeNat x).length ≤ m) →
      ((decomposeChar c).flatMap encodeNat).length ≤ 4 * m := fun hm =>
    Nat.le_trans (length_flatMap_le hm)
      (Nat.mul_comm 4 _ ▸ Nat.mul_le_mul_left _ (length_decomposeChar c))
  rw [length_encodeNat c h.lt]
  split
  · next hc =>
    rw [decomposeChar_ascii hc, flatMap_singleton, length_encodeNat c h.lt, if_pos hc]
    decide
  split
  · next hc =>
    have hsmall : ∀ x ∈ decomposeChar c, x < 0x800 := by
      refine (decomposes_decomposeChar c).all (fun hs hm hx => ?_) hc
      have := table_two_bytes _ hm hx
      rwa [pattern_first hs, pattern_second hs] at this
    refine bound fun x hx => ?_
    rw [length_encodeNat x (hlt x hx), if_pos (hsmall x hx)]
    split <;> decide
  · refine bound fun x hx => ?_
    rw [length_encodeNat x (hlt x hx)]
    split
    · decide
    · split <;> decide

theorem length_utf8_decomposed (h : Bmp cs) :
    (utf8 (decomposed cs)).length ≤ 4 * (utf8 cs).length := by
  have hchar : ∀ c ∈ cs, (utf8 (ofCodes (decomposeChar c.toNat))).length ≤
      4 * (String.utf8EncodeChar c).length := by
    intro c hc
    have hu : Ucs2 c.toNat := h.ucs2 _ (mem_map_of_mem hc)
    have hd := (decomposes_decomposeChar c.toNat).all (fun hs hm _ => (hm.ucs2 hs).2) hu
    have hb := length_encode_decomposeChar hu
    rwa [← flatMap_congr fun x hx => utf8Char_eq (hd x hx).lt, flatMap_ofCodes hd] at hb
  rw [decomposed_eq]
  clear h
  induction cs with
  | nil => exact Nat.le_refl 0
  | cons c cs ih =>
    obtain ⟨hc, hcs⟩ := forall_mem_cons.1 hchar
    have := ih hcs
    rw [flatMap_cons, utf8_append, utf8_cons, length_append, length_append]
    omega

theorem length_utf8_sent (h0 : ∀ c ∈ cs, c.toNat ≠ 0) :
    (utf8 (sent cs)).length ≤ 4 * (utf8 cs).length := by
  by_cases hs : cs.any supplementary
  · rw [sent_supplementary hs]
    omega
  · have hb := bmp_of_not_supplementary h0 hs
    rw [sent_bmp hb]
    exact length_utf8_decomposed hb

/-- The buffers of the conversion of a path in UTF-8: the one for the result, of four times the path
and a terminator, gives what any larger one would, and for a volume of UTF-8 names a result; a
character decomposes, fully, into four at most, so that the buffer for all characters holds them. -/
theorem path_buffers_hold (hm : Memory heap) (h0 : ∀ c ∈ cs, c.toNat ≠ 0)
    (encoding : PathEncoding) :
    (∀ destLen, (utf8 cs).length * 4 + 1 ≤ destLen →
      convertPathToAfp heap encoding (utf8 cs) destLen =
        convertPathToAfp heap encoding (utf8 cs) ((utf8 cs).length * 4 + 1)) ∧
    (convertPathToAfp heap .utf8Name (utf8 cs) ((utf8 cs).length * 4 + 1)).isSome ∧
    (∀ c, Decomposes c (decomposeChar c) ∧ (decomposeChar c).length ≤ 4) ∧
    ∀ chars : List Nat, (chars.flatMap decomposeChar).length + 1 ≤ chars.length * 4 + 1 := by
  have hlen := length_utf8_sent h0
  have hutf8 (destLen : Nat) (h : (utf8 cs).length * 4 + 1 ≤ destLen) :
      convertPathToAfp heap .utf8Name (utf8 cs) destLen = some (utf8 (sent cs)) :=
    convertPathToAfp_utf8 hm h0 (by omega) (by omega)
  refine ⟨fun destLen hd => ?_, ?_, fun c => ?_, fun chars => ?_⟩
  · cases encoding with
    | utf8Name => rw [hutf8 destLen hd, hutf8 _ (Nat.le_refl _)]
    | longName =>
      by_cases hs : cs.any supplementary
      · rw [convertPathToAfp_longName_supplementary hs, convertPathToAfp_longName_supplementary hs]
      · have hb := bmp_of_not_supplementary h0 hs
        rw [convertPathToAfp_longName hm hb (by omega), convertPathToAfp_longName hm hb (by omega)]
  · rw [hutf8 _ (Nat.le_refl _)]
    rfl
  · exact ⟨decomposes_decomposeChar c, length_decomposeChar c⟩
  · have := length_flatMap_le fun c (_ : c ∈ chars) => length_decomposeChar c
    omega

theorem path_buffers_hold_acute :
    (convertPathToAfp (fun _ => true) .utf8Name (utf8 ['/', Char.ofNat 0xe9])
      ((utf8 ['/', Char.ofNat 0xe9]).length * 4 + 1)).isSome :=
  (path_buffers_hold (fun _ => rfl) (by simp) .utf8Name).2.1

/-- Without memory for the characters a valid path that is too long for the stack fails too. -/
theorem valid_path_without_memory :
    convertPathToAfp (fun _ => false) .utf8Name (utf8 (List.replicate 513 (Char.ofNat 0xe9)))
      ((utf8 (List.replicate 513 (Char.ofNat 0xe9))).length * 4 + 1) = none := by
  decide +kernel

end NC
