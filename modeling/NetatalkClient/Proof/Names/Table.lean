import NetatalkClient.Model.Names.Codepage

/-!
# The composition table

What the rest of the development needs of `table[]`. `Composes c first second`
says that the table has an entry for the three characters; `ucs2precompose` and
`ucs2decompose` find it, whichever way they search (`ucs2precompose_eq_some`,
`ucs2decompose_eq_some`), so the two undo each other. The recursion of
`decompose_char` ends (`decomposeChar_eq`): a combining character is in no
entry's first column, and no chain of base characters is longer than three.
-/

namespace NC

open List

/-- The table composes `first` and `second` to `c`. -/
def Composes (c first second : Nat) : Prop := (c, first <<< 16 ||| second) ∈ table.tail

instance (c first second : Nat) : Decidable (Composes c first second) :=
  inferInstanceAs (Decidable (_ ∈ table.tail))

/-! ## Checks of the table -/

theorem length_table : table.length = 998 := by decide +kernel

theorem patterns_increase : (table.map Prod.snd).IsChain (· < ·) := by decide +kernel

/-- The characters a chain of `n + 1` decompositions of base characters starts from. -/
def deep : Nat → List Nat
  | 0 => table.tail.map Prod.fst
  | n + 1 =>
    (table.tail.filter fun e => (bitsOf (deep n)).testBit (e.2 >>> 16)).map Prod.fst

theorem precomposed_distinct : distinct (deep 0) := by decide +kernel

theorem not_deep_three : deep 3 = [] := by decide +kernel

theorem combining_not_precomposed :
    ∀ e ∈ table.tail, ¬(bitsOf (deep 0)).testBit (e.2 &&& 0xffff) := by decide +kernel

/-- A character other than NUL and the surrogates. -/
def Ucs2 (c : Nat) : Prop := 0 < c ∧ (c < 0xd800 ∨ 0xdfff < c ∧ c < 0x10000)

variable {c first second i n prev : Nat} {e : Nat × Nat} {xs chars : List Nat}

theorem Ucs2.lt (h : Ucs2 c) : c < 0x10000 := by
  have := h.2
  omega

instance (c : Nat) : Decidable (Ucs2 c) := inferInstanceAs (Decidable (_ ∧ _))

theorem table_ucs2 : ∀ e ∈ table.tail, Ucs2 e.1 ∧ Ucs2 (e.2 >>> 16) ∧ Ucs2 (e.2 &&& 0xffff) := by
  decide +kernel

/-- Only base characters are in ASCII, and neither separator is one of them. -/
theorem table_ascii :
    ∀ e ∈ table.tail, 0x80 ≤ e.1 ∧ 0x80 ≤ e.2 &&& 0xffff ∧
      e.2 >>> 16 ≠ 0x2f ∧ e.2 >>> 16 ≠ 0x3a := by
  decide +kernel

/-! ## Patterns -/

theorem pattern_first (h : second < 0x10000) : (first <<< 16 ||| second) >>> 16 = first := by
  rw [Nat.shiftRight_or_distrib, Nat.shiftLeft_shiftRight, Nat.shiftRight_eq_div_pow,
    Nat.div_eq_of_lt h, Nat.or_zero]

theorem pattern_second (h : second < 0x10000) : (first <<< 16 ||| second) &&& 0xffff = second := by
  rw [Nat.and_or_distrib_right, Nat.and_two_pow_sub_one_eq_mod _ 16,
    Nat.and_two_pow_sub_one_eq_mod _ 16, Nat.shiftLeft_eq, Nat.mul_mod_left, Nat.zero_or,
    Nat.mod_eq_of_lt h]

theorem pattern_eq (p : Nat) : (p >>> 16) <<< 16 ||| (p &&& 0xffff) = p := by
  rw [Nat.and_two_pow_sub_one_eq_mod _ 16, Nat.shiftRight_eq_div_pow, Nat.shiftLeft_eq,
    Nat.mul_comm, ← Nat.two_pow_add_eq_or_of_lt (Nat.mod_lt _ (by decide))]
  exact Nat.div_add_mod p (2 ^ 16)

theorem Composes.ucs2 (h : Composes c first second) (hs : second < 0x10000) :
    Ucs2 c ∧ Ucs2 first ∧ Ucs2 second := by
  have := table_ucs2 _ h
  rwa [pattern_first hs, pattern_second hs] at this

theorem Composes.ascii (h : Composes c first second) (hs : second < 0x10000) :
    0x80 ≤ c ∧ 0x80 ≤ second ∧ first ≠ 0x2f ∧ first ≠ 0x3a := by
  have := table_ascii _ h
  rwa [pattern_first hs, pattern_second hs] at this

/-! ## Places of the table -/

theorem getD_table (h : i < table.length) : table.getD i (0, 0) = table[i] := by
  simp [h]

theorem patternAt_lt {j : Nat} (h : i < j) (hj : j ≤ 997) : patternAt i < patternAt j := by
  have hlen := length_table
  have hi : i < table.length := by omega
  have hj : j < table.length := by omega
  have sorted := pairwise_iff_getElem.1 (isChain_iff_pairwise.1 patterns_increase) i j
    (by rwa [length_map]) (by rwa [length_map]) h
  rw [patternAt, patternAt, getD_table hi, getD_table hj]
  simpa using sorted

theorem mem_tail_table (h : i + 1 < table.length) :
    (precomposedAt (i + 1), patternAt (i + 1)) ∈ table.tail := by
  have hi : i < table.tail.length := by
    rw [length_tail]
    omega
  rw [precomposedAt, patternAt, getD_table h, ← getElem_tail hi]
  exact getElem_mem hi

theorem exists_place (h : e ∈ table.tail) :
    ∃ i, i + 1 < table.length ∧ precomposedAt (i + 1) = e.1 ∧ patternAt (i + 1) = e.2 := by
  obtain ⟨i, hi, rfl⟩ := getElem_of_mem h
  have hlt : i + 1 < table.length := by
    rw [length_tail] at hi
    omega
  refine ⟨i, hlt, ?_, ?_⟩
  · rw [precomposedAt, getD_table hlt, getElem_tail]
  · rw [patternAt, getD_table hlt, getElem_tail]

theorem pattern_unique {e' : Nat × Nat} (h : e ∈ table.tail) (h' : e' ∈ table.tail)
    (he : e.1 = e'.1) : e = e' :=
  inj_on_of_nodup_map (nodup_of_distinct precomposed_distinct) h h' he

/-! ## The two searches -/

/-- The search stays behind the dummy entry and within the table. -/
theorem mem_precomposeReads (h : i ∈ precomposeReads first second) : 1 ≤ i ∧ i < table.length := by
  have hnear := uniformReads_near h
  rw [show delta.tail.sum = 498 from rfl, show delta.headD 0 = 499 from rfl] at hnear
  rw [length_table]
  omega

theorem ucs2precompose_eq_some :
    ucs2precompose first second = some c ↔ Composes c first second := by
  rw [ucs2precompose, Option.map_eq_some_iff]
  constructor
  · rintro ⟨i, h, rfl⟩
    obtain ⟨hp, hi⟩ := uniformSearch_sound h
    obtain ⟨h0, hi⟩ := mem_precomposeReads hi
    obtain ⟨i, rfl⟩ := Nat.exists_eq_add_of_le' h0
    have := mem_tail_table hi
    rwa [hp] at this
  · intro h
    obtain ⟨i, hi, hc, hp⟩ := exists_place h
    rw [length_table] at hi
    refine ⟨i + 1, ?_, hc⟩
    rw [← show patternAt (i + 1) = first <<< 16 ||| second from hp]
    -- the steps lead from place 499 to each of the places 1 to 997
    exact uniformSearch_eq (fun a b => patternAt_lt) (by omega) (show Reaches 498 delta by decide)
      (by decide) (show 499 ≤ i + 1 + 498 by omega) (show i + 1 ≤ 499 + 498 by omega)

/-- The places in the order of their precomposed characters. -/
def sortedPlaces : List Nat :=
  (List.range' 1 (table.length - 1)).mergeSort fun i j => precomposedAt i ≤ precomposedAt j

theorem mem_sortedPlaces : i ∈ sortedPlaces ↔ 0 < i ∧ i < table.length := by
  rw [sortedPlaces, (mergeSort_perm _ _).mem_iff, mem_range'_1, length_table]
  omega

theorem length_sortedPlaces : sortedPlaces.length = 997 := by
  rw [sortedPlaces, length_mergeSort, length_range', length_table]

theorem sortedPlaces_le : sortedPlaces.Pairwise fun i j => precomposedAt i ≤ precomposedAt j := by
  have sorted : sortedPlaces.Pairwise fun i j => decide (precomposedAt i ≤ precomposedAt j) = true :=
    pairwise_mergeSort (fun a b c => by simpa using Nat.le_trans)
      (fun a b => by simpa using Nat.le_total _ _) _
  simpa using sorted

theorem decomposeIndex_getD {k : Nat} (h : k < sortedPlaces.length) :
    decomposeIndex.getD (k + 1) 0 = sortedPlaces[k] := by
  rw [show decomposeIndex = 0 :: sortedPlaces from rfl]
  simp [h]

/-- The key of the search of `ucs2decompose`. -/
def sortedKey (mid : Nat) : Nat := precomposedAt (decomposeIndex.getD mid 0)

theorem sortedKey_le {a b : Nat} (h0 : 1 ≤ a) (h : a < b) (hb : b < table.length) :
    sortedKey a ≤ sortedKey b := by
  rw [length_table] at hb
  obtain ⟨a, rfl⟩ := Nat.exists_eq_add_of_le' h0
  obtain ⟨b, rfl⟩ := Nat.exists_eq_add_of_le' (show 1 ≤ b by omega)
  have hlen := length_sortedPlaces
  have ha : a < sortedPlaces.length := by omega
  have hb : b < sortedPlaces.length := by omega
  rw [sortedKey, sortedKey, decomposeIndex_getD ha, decomposeIndex_getD hb]
  exact pairwise_iff_getElem.1 sortedPlaces_le a b ha hb (by omega)

/-- The place the search ends at is that of an entry. -/
theorem sortedKey_mem {mid : Nat} (h0 : 1 ≤ mid) (h : mid < table.length) :
    (sortedKey mid, patternAt (decomposeIndex.getD mid 0)) ∈ table.tail := by
  rw [length_table] at h
  obtain ⟨k, rfl⟩ := Nat.exists_eq_add_of_le' h0
  have hk : k < sortedPlaces.length := by
    rw [length_sortedPlaces]
    omega
  rw [sortedKey, decomposeIndex_getD hk]
  obtain ⟨hp, hlt⟩ := mem_sortedPlaces.1 (getElem_mem hk)
  obtain ⟨i, hi⟩ := Nat.exists_eq_add_of_le' (Nat.succ_le_of_lt hp)
  rw [hi] at hlt ⊢
  exact mem_tail_table hlt

theorem exists_sortedKey (h : e ∈ table.tail) :
    ∃ mid, 1 ≤ mid ∧ mid < table.length ∧ sortedKey mid = e.1 := by
  obtain ⟨i, hi, hc, -⟩ := exists_place h
  obtain ⟨k, hk, hki⟩ := getElem_of_mem (mem_sortedPlaces.2 ⟨Nat.succ_pos i, hi⟩)
  have hlen := length_sortedPlaces
  refine ⟨k + 1, by omega, by rw [length_table]; omega, ?_⟩
  rw [sortedKey, decomposeIndex_getD hk, hki, hc]

theorem first_and (h : e ∈ table.tail) : (e.2 >>> 16) &&& 0xffff = e.2 >>> 16 := by
  obtain ⟨-, hf, -⟩ := table_ucs2 e h
  rw [Nat.and_two_pow_sub_one_eq_mod _ 16, Nat.mod_eq_of_lt]
  have := hf.2
  omega

theorem ucs2decompose_eq_some (hs : second < 0x10000) :
    ucs2decompose c = some (first, second) ↔ Composes c first second := by
  rw [ucs2decompose, Option.map_eq_some_iff]
  constructor
  · rintro ⟨mid, h, hp⟩
    obtain ⟨h0, hlt, hc⟩ := binarySearch_sound h
    have hm := sortedKey_mem h0 hlt
    obtain ⟨rfl, rfl⟩ := Prod.mk.inj hp
    rw [Composes, first_and hm, pattern_eq, ← hc]
    exact hm
  · intro h
    obtain ⟨mid, h0, hlt, hc⟩ := exists_sortedKey h
    have found := binarySearch_complete (fun a b => sortedKey_le) h0 hlt
    rw [hc] at found
    obtain ⟨mid', hm⟩ := Option.isSome_iff_exists.1 found
    refine ⟨mid', hm, ?_⟩
    obtain ⟨h0, hlt, hc'⟩ := binarySearch_sound hm
    have hmem := sortedKey_mem h0 hlt
    have hp : patternAt (decomposeIndex.getD mid' 0) = first <<< 16 ||| second :=
      congrArg Prod.snd (pattern_unique hmem h hc')
    have hf := first_and hmem
    simp only [hp, pattern_first hs] at hf
    simp only [hp, pattern_first hs, hf, pattern_second hs]

theorem second_lt_of_decompose (h : ucs2decompose c = some (first, second)) : second < 0x10000 := by
  rw [ucs2decompose, Option.map_eq_some_iff] at h
  obtain ⟨mid, -, hp⟩ := h
  rw [← (Prod.mk.inj hp).2]
  exact Nat.lt_of_le_of_lt Nat.and_le_right (by decide)

theorem composes_of_decompose (h : ucs2decompose c = some (first, second)) :
    Composes c first second :=
  (ucs2decompose_eq_some (second_lt_of_decompose h)).1 h

/-- Dummy entry aside, both searches find exactly the entries of the table, and read no place outside
it. -/
theorem table_searches (first second c : Nat) :
    (∀ i ∈ precomposeReads first second, i < table.length) ∧
    (ucs2precompose first second = some c ↔ (c, first <<< 16 ||| second) ∈ table.tail) ∧
    ((ucs2decompose c).isSome ↔ ∃ pattern, (c, pattern) ∈ table.tail) ∧
    (ucs2decompose c = some (first, second) → ucs2precompose first second = some c) ∧
    (table.map Prod.fst).Nodup := by
  refine ⟨fun i hi => (mem_precomposeReads hi).2, ucs2precompose_eq_some, ?_,
    fun h => ucs2precompose_eq_some.2 (composes_of_decompose h), ?_⟩
  · rw [Option.isSome_iff_exists]
    constructor
    · rintro ⟨⟨first, second⟩, h⟩
      exact ⟨_, composes_of_decompose h⟩
    · rintro ⟨pattern, h⟩
      have hlt : pattern &&& 0xffff < 0x10000 := Nat.lt_of_le_of_lt Nat.and_le_right (by decide)
      rw [← pattern_eq pattern] at h
      exact ⟨_, (ucs2decompose_eq_some hlt).2 h⟩
  · exact nodup_of_distinct (by decide +kernel)

/-- Neither search finds the dummy entry. -/
theorem dummy_not_found : (0, 0) ∈ table ∧ ucs2precompose 0 0 = none ∧ ucs2decompose 0 = none := by
  refine ⟨by decide +kernel, by decide +kernel, ?_⟩
  rw [Option.eq_none_iff_forall_not_mem]
  intro p hp
  exact absurd ((composes_of_decompose hp).ucs2 (second_lt_of_decompose hp)).1.1 (Nat.lt_irrefl 0)

/-! ## The depth of a decomposition -/

theorem mem_deep_succ : c ∈ deep (n + 1) ↔ ∃ p, (c, p) ∈ table.tail ∧ p >>> 16 ∈ deep n := by
  simp [deep, testBit_bitsOf]

theorem deep_subset (h : c ∈ deep n) : c ∈ deep 0 := by
  cases n with
  | zero => exact h
  | succ n =>
    obtain ⟨p, hm, -⟩ := mem_deep_succ.1 h
    exact mem_map_of_mem hm

theorem decompose_none (h : c ∉ deep 0) : ucs2decompose c = none := by
  rw [Option.eq_none_iff_forall_not_mem]
  rintro ⟨first, second⟩ hd
  exact h (mem_map_of_mem (composes_of_decompose hd))

/-- The two characters of an entry end shorter chains than its own. -/
theorem Composes.not_deep (h : Composes c first second) (hs : second < 0x10000)
    (hc : c ∉ deep (n + 1)) : first ∉ deep n ∧ second ∉ deep n := by
  constructor
  · intro hf
    refine hc (mem_deep_succ.2 ⟨_, h, ?_⟩)
    rwa [pattern_first hs]
  · intro hd
    have := combining_not_precomposed _ h
    rw [pattern_second hs, testBit_bitsOf] at this
    exact this (deep_subset hd)

theorem decomposeTo_succ (h : c ∉ deep n) : decomposeTo (n + 1) c = decomposeTo n c := by
  induction n generalizing c with
  | zero => simp [decomposeTo, decompose_none h]
  | succ n ih =>
    rw [decomposeTo]
    conv => rhs; rw [decomposeTo]
    split
    · next first second hd =>
      obtain ⟨hf, hs⟩ := (composes_of_decompose hd).not_deep (second_lt_of_decompose hd) h
      rw [ih hf, ih hs]
    · rfl

theorem not_deep : c ∉ deep (n + 3) := by
  induction n generalizing c with
  | zero => simp [not_deep_three]
  | succ n ih =>
    intro hc
    obtain ⟨p, -, hp⟩ := mem_deep_succ.1 hc
    exact ih hp

/-- `decompose_char` as the source has it, without a bound on its depth. -/
theorem decomposeChar_eq (c : Nat) :
    decomposeChar c =
      match ucs2decompose c with
      | some (first, second) => decomposeChar first ++ decomposeChar second
      | none => [c] := by
  have depth (c : Nat) : decomposeChar c = decomposeTo (994 + 3) c := by
    rw [decomposeChar, length_table]
    exact decomposeTo_succ not_deep
  rw [decomposeChar, length_table, decomposeTo]
  cases ucs2decompose c with
  | none => rfl
  | some p => simp [depth]

theorem Composes.decomposeChar (h : Composes c first second) (hs : second < 0x10000) :
    NC.decomposeChar c = NC.decomposeChar first ++ NC.decomposeChar second := by
  rw [decomposeChar_eq c, (ucs2decompose_eq_some hs).2 h]

/-! ## Full decompositions -/

/-- The full decomposition of a character by the table. -/
inductive Decomposes : Nat → List Nat → Prop where
  | self {c : Nat} : (∀ e ∈ table.tail, e.1 ≠ c) → Decomposes c [c]
  | pair {c first second : Nat} {xs ys : List Nat} : second < 0x10000 → Composes c first second →
      Decomposes first xs → Decomposes second ys → Decomposes c (xs ++ ys)

/-- The full decomposition of a string, character by character. -/
def FullDecomposition (chars decomposed : List Nat) : Prop :=
  ∃ parts, List.Forall₂ Decomposes chars parts ∧ decomposed = parts.flatten

theorem decomposeChar_self (h : ∀ e ∈ table.tail, e.1 ≠ c) : decomposeChar c = [c] := by
  have : c ∉ deep 0 := by
    intro hc
    obtain ⟨e, he, rfl⟩ := mem_map.1 hc
    exact h e he rfl
  rw [decomposeChar_eq, decompose_none this]

theorem Decomposes.eq (h : Decomposes c xs) : xs = decomposeChar c := by
  induction h with
  | self h => rw [decomposeChar_self h]
  | pair hs hc _ _ ihf ihs => rw [hc.decomposeChar hs, ← ihf, ← ihs]

theorem decomposes_decomposeTo (h : c ∉ deep n) : Decomposes c (decomposeTo n c) := by
  induction n generalizing c with
  | zero => exact .self fun e he hc => h (mem_map.2 ⟨e, he, hc⟩)
  | succ n ih =>
    rw [decomposeTo]
    cases hd : ucs2decompose c with
    | some p =>
      have hs := second_lt_of_decompose hd
      have hc := composes_of_decompose hd
      obtain ⟨hf, hs'⟩ := hc.not_deep hs h
      exact .pair hs hc (ih hf) (ih hs')
    | none =>
      refine .self fun e he hc => ?_
      have hlt : e.2 &&& 0xffff < 0x10000 := Nat.lt_of_le_of_lt Nat.and_le_right (by decide)
      have hm : Composes c (e.2 >>> 16) (e.2 &&& 0xffff) := by
        rwa [Composes, pattern_eq, ← hc]
      rw [(ucs2decompose_eq_some hlt).2 hm] at hd
      cases hd

theorem decomposes_decomposeChar (c : Nat) : Decomposes c (decomposeChar c) := by
  rw [decomposeChar, length_table]
  exact decomposes_decomposeTo not_deep

theorem fullDecomposition_iff {decomposed : List Nat} :
    FullDecomposition chars decomposed ↔ decomposed = chars.flatMap decomposeChar := by
  constructor
  · rintro ⟨parts, h, rfl⟩
    induction h with
    | nil => rfl
    | cons hc _ ih => rw [flatten_cons, flatMap_cons, hc.eq, ih]
  · rintro rfl
    refine ⟨chars.map decomposeChar, ?_, rfl⟩
    induction chars with
    | nil => exact .nil
    | cons c chars ih => exact .cons (decomposes_decomposeChar c) ih

/-- What the table passes on from a character to its pair holds of a full decomposition. -/
theorem Decomposes.all {P : Nat → Prop}
    (hP : ∀ {c first second}, second < 0x10000 → Composes c first second → P c → P first ∧ P second)
    (h : Decomposes c xs) (hc : P c) : ∀ x ∈ xs, P x := by
  induction h with
  | self h => simpa using hc
  | pair hs hm _ _ ihf ihs =>
    obtain ⟨hf, hs⟩ := hP hs hm hc
    exact forall_mem_append.2 ⟨ihf hf, ihs hs⟩

/-! ## Composition keeps the decomposition -/

theorem precomposeFrom_ucs2 (hp : Ucs2 prev) (h : ∀ c ∈ chars, Ucs2 c) :
    ∀ c ∈ precomposeFrom prev chars, Ucs2 c := by
  induction chars generalizing prev with
  | nil => simpa [precomposeFrom] using hp
  | cons c chars ih =>
    obtain ⟨hc, h⟩ := forall_mem_cons.1 h
    rw [precomposeFrom]
    split
    · next comp he =>
      have := ucs2precompose_eq_some.1 he
      exact ih (this.ucs2 hc.lt).1 h
    · exact forall_mem_cons.2 ⟨hp, ih hc h⟩

theorem decompose_precomposeFrom (hp : Ucs2 prev) (h : ∀ c ∈ chars, Ucs2 c) :
    (precomposeFrom prev chars).flatMap decomposeChar =
      decomposeChar prev ++ chars.flatMap decomposeChar := by
  induction chars generalizing prev with
  | nil => simp [precomposeFrom]
  | cons c chars ih =>
    obtain ⟨hc, h⟩ := forall_mem_cons.1 h
    rw [precomposeFrom]
    split
    · next comp he =>
      -- the composed character decomposes to what `prev` and `c` do
      have hm := ucs2precompose_eq_some.1 he
      rw [ih (hm.ucs2 hc.lt).1 h, hm.decomposeChar hc.lt, flatMap_cons, append_assoc]
    · rw [flatMap_cons, ih hc h, flatMap_cons]

theorem precomposeAll_ucs2 (h : ∀ c ∈ chars, Ucs2 c) : ∀ c ∈ precomposeAll chars, Ucs2 c := by
  cases chars with
  | nil => exact nofun
  | cons c chars =>
    obtain ⟨hc, h⟩ := forall_mem_cons.1 h
    exact precomposeFrom_ucs2 hc h

/-- Greedy composition never changes what a string decomposes to. -/
theorem decompose_precomposeAll (h : ∀ c ∈ chars, Ucs2 c) :
    (precomposeAll chars).flatMap decomposeChar = chars.flatMap decomposeChar := by
  cases chars with
  | nil => rfl
  | cons c chars =>
    obtain ⟨hc, h⟩ := forall_mem_cons.1 h
    exact decompose_precomposeFrom hc h

theorem precomposeFrom_ascii (hp : 0 < prev) (h : ∀ c ∈ chars, 0 < c ∧ c < 0x80) :
    precomposeFrom prev chars = prev :: chars := by
  induction chars generalizing prev with
  | nil => rfl
  | cons c chars ih =>
    obtain ⟨hc, h⟩ := forall_mem_cons.1 h
    rw [precomposeFrom]
    split
    · next comp he =>
      have := ((ucs2precompose_eq_some.1 he).ascii (by omega)).2.1
      omega
    · rw [ih hc.1 h]

theorem precomposeAll_ascii (h : ∀ c ∈ chars, 0 < c ∧ c < 0x80) : precomposeAll chars = chars := by
  cases chars with
  | nil => rfl
  | cons c chars =>
    obtain ⟨hc, h⟩ := forall_mem_cons.1 h
    exact precomposeFrom_ascii hc.1 h

theorem decomposeChar_ascii (h : c < 0x80) : decomposeChar c = [c] :=
  decomposeChar_self fun e he hc => by
    have := (table_ascii e he).1
    omega

end NC
