import Mathlib.Data.List.Basic

/-!
# Strings in memory

A buffer is a list of bytes, and a string is what stands in one from a position up to the next
NUL. The functions of the C library read a buffer byte by byte from a position: a read outside
the buffer is the fault `outside`, and code that is given too few steps ends in `unfinished`.

`StringAt b i s` says that the string `s` stands at position `i` of `b`. The lemmas `strchr_eq`,
`strrchr_eq`, `strstr_eq` and `cstr_eq` say what the functions return there, in terms of where
the list `s` is cut: `cutAt c` cuts a list at the first `c`, `cutLast c` at the last and
`cutString n` at the first place of the list `n`. Writing a NUL over the byte that was found
leaves two strings (`StringAt.cut`).
-/

namespace NC

open List Option

/-- Why code does not return: it reads outside a buffer, or it takes more steps than it is
given. -/
inductive Fault where
  | outside
  | unfinished
  deriving DecidableEq, Repr

/-- Code that reads buffers. -/
abbrev Scan := Except Fault

@[simp] theorem Scan.ok_bind {α β : Type} (a : α) (f : α → Scan β) : (.ok a : Scan α) >>= f = f a :=
  rfl

@[simp] theorem Scan.pure_eq {α : Type} (a : α) : (pure a : Scan α) = .ok a := rfl

/-! ## The functions -/

/-- The byte at a position. -/
def peek (b : List UInt8) (i : Int) : Scan UInt8 :=
  if i < 0 then .error .outside
  else match b[i.toNat]? with
    | some c => .ok c
    | none => .error .outside

/-- The loop of `strchr` over what is left of the buffer, `i` being the position. -/
def strchrFrom (c : UInt8) : List UInt8 → Int → Scan (Option Int)
  | [], _ => .error .outside
  | d :: ds, i =>
    if d = c then .ok (some i) else if d = 0 then .ok none else strchrFrom c ds (i + 1)

/-- `strchr`: the position of the first `c` of the string at `i`. -/
def strchr (b : List UInt8) (i : Int) (c : UInt8) : Scan (Option Int) :=
  if i < 0 then .error .outside else strchrFrom c (b.drop i.toNat) i

/-- The loop of `strrchr`, with the last position found. -/
def strrchrFrom (c : UInt8) : List UInt8 → Int → Option Int → Scan (Option Int)
  | [], _, _ => .error .outside
  | d :: ds, i, last =>
    if d = 0 then .ok last else strrchrFrom c ds (i + 1) (if d = c then some i else last)

/-- `strrchr`: the position of the last `c` of the string at `i`. -/
def strrchr (b : List UInt8) (i : Int) (c : UInt8) : Scan (Option Int) :=
  if i < 0 then .error .outside else strrchrFrom c (b.drop i.toNat) i none

/-- The loop of `strstr`. -/
def strstrFrom (n : List UInt8) : List UInt8 → Int → Scan (Option Int)
  | [], _ => .error .outside
  | d :: ds, i =>
    if n.isPrefixOf (d :: ds) then .ok (some i)
    else if d = 0 then .ok none else strstrFrom n ds (i + 1)

/-- `strstr`: the position of the first `n` in the string at `i`. -/
def strstr (b : List UInt8) (i : Int) (n : List UInt8) : Scan (Option Int) :=
  if i < 0 then .error .outside else strstrFrom n (b.drop i.toNat) i

/-- The bytes before the NUL of what is left of the buffer. -/
def cstrFrom : List UInt8 → Scan (List UInt8)
  | [] => .error .outside
  | d :: ds => if d = 0 then .ok [] else (cstrFrom ds).map (d :: ·)

/-- The string at `i`, as code reads it that copies or measures it. -/
def cstr (b : List UInt8) (i : Int) : Scan (List UInt8) :=
  if i < 0 then .error .outside else cstrFrom (b.drop i.toNat)

/-- The byte at a position made a NUL. -/
def cutBuffer (b : List UInt8) (i : Int) : List UInt8 := b.set i.toNat 0

/-! ## Cutting lists -/

section Cut

variable {α : Type} [DecidableEq α]

/-- What stands before and behind the first `c`. -/
def cutAt (c : α) : List α → Option (List α × List α)
  | [] => none
  | d :: ds => if d = c then some ([], ds) else (cutAt c ds).map fun x => (d :: x.1, x.2)

/-- What stands before and behind the last `c`. -/
def cutLast (c : α) (s : List α) : Option (List α × List α) :=
  (cutAt c s.reverse).map fun x => (x.2.reverse, x.1.reverse)

/-- What stands before and behind the first place of the list `n`. -/
def cutString (n : List α) : List α → Option (List α × List α)
  | [] => none
  | d :: ds =>
    if n.isPrefixOf (d :: ds) then some ([], (d :: ds).drop n.length)
    else (cutString n ds).map fun x => (d :: x.1, x.2)

variable {c : α} {n s x y : List α}

theorem cutAt_eq_none : cutAt c s = none ↔ c ∉ s := by
  induction s with
  | nil => simp [cutAt]
  | cons d ds ih =>
    by_cases hd : d = c
    · simp [cutAt, hd]
    · simp [cutAt, hd, ih, Ne.symm hd]

theorem cutAt_eq_some : cutAt c s = some (x, y) ↔ s = x ++ c :: y ∧ c ∉ x := by
  induction s generalizing x with
  | nil => simp [cutAt]
  | cons d ds ih =>
    by_cases hd : d = c
    · subst hd
      simp only [cutAt]
      constructor
      · rintro ⟨rfl, rfl⟩
        simp
      · rintro ⟨h, hx⟩
        cases x with
        | nil => simpa using h
        | cons a x => simp_all
    · simp only [cutAt, hd, if_false, map_eq_some_iff, Prod.exists, Prod.mk.injEq]
      constructor
      · rintro ⟨x', y', h, rfl, rfl⟩
        obtain ⟨rfl, hx⟩ := ih.1 h
        simp [hx, Ne.symm hd]
      · rintro ⟨h, hx⟩
        cases x with
        | nil => exact absurd (List.cons.inj h).1 hd
        | cons a x =>
          obtain ⟨rfl, rfl⟩ := List.cons.inj h
          exact ⟨x, y, ih.2 ⟨rfl, fun h => hx (mem_cons_of_mem _ h)⟩, rfl, rfl⟩

theorem cutLast_eq_none : cutLast c s = none ↔ c ∉ s := by
  rw [cutLast, map_eq_none_iff, cutAt_eq_none, mem_reverse]

theorem cutLast_eq_some : cutLast c s = some (x, y) ↔ s = x ++ c :: y ∧ c ∉ y := by
  simp only [cutLast, map_eq_some_iff, Prod.exists, Prod.mk.injEq]
  constructor
  · rintro ⟨u, v, h, rfl, rfl⟩
    obtain ⟨h, hu⟩ := cutAt_eq_some.1 h
    rw [← s.reverse_reverse, h]
    simp [hu]
  · rintro ⟨rfl, hy⟩
    exact ⟨y.reverse, x.reverse, cutAt_eq_some.2 (by simp [hy]), by simp, by simp⟩

theorem cutLast_cons (d : α) (s : List α) : cutLast c (d :: s) =
    match cutLast c s with
    | some x => some (d :: x.1, x.2)
    | none => if d = c then some ([], s) else none := by
  cases h : cutLast c s with
  | some x =>
    obtain ⟨hs, hx⟩ := cutLast_eq_some.1 h
    exact cutLast_eq_some.2 ⟨by rw [hs, cons_append], hx⟩
  | none =>
    have hs := cutLast_eq_none.1 h
    by_cases hd : d = c
    · rw [if_pos hd]
      exact cutLast_eq_some.2 ⟨by rw [hd, nil_append], hs⟩
    · rw [if_neg hd]
      exact cutLast_eq_none.2 (by simp [hs, Ne.symm hd])

theorem eq_of_cutString (h : cutString n s = some (x, y)) : s = x ++ n ++ y := by
  induction s generalizing x with
  | nil => cases h
  | cons d ds ih =>
    rw [cutString] at h
    split at h
    · next hn =>
      obtain ⟨t, ht⟩ := isPrefixOf_iff_prefix.1 hn
      cases h
      rw [← ht]
      simp
    · obtain ⟨z, hz, he⟩ := map_eq_some_iff.1 h
      cases he
      rw [ih hz]
      simp

theorem cutString_eq_none (hn : n ≠ []) : cutString n s = none ↔ ¬n <:+: s := by
  induction s with
  | nil => simp [cutString, hn]
  | cons d ds ih =>
    rw [cutString, infix_cons_iff]
    split
    · next h => simp [List.isPrefixOf_iff_prefix.1 h]
    · next h =>
      rw [List.isPrefixOf_iff_prefix] at h
      simp [h, ih]

/-- The first place of a list whose first element does not stand before it. -/
theorem cutString_append {a : α} (ha : a ∉ x) (n y : List α) :
    cutString (a :: n) (x ++ a :: n ++ y) = some (x, y) := by
  induction x with
  | nil => simp [cutString]
  | cons d x ih =>
    rw [mem_cons, not_or] at ha
    have hd : ¬(a :: n).isPrefixOf (d :: (x ++ a :: n ++ y)) := by simp [ha.1]
    rw [cons_append, cons_append, cutString, if_neg hd, ih ha.2]
    rfl

end Cut

/-! ## Strings at a position -/

/-- The string `s` stands at position `i`. -/
structure StringAt (b : List UInt8) (i : Int) (s : List UInt8) : Prop where
  nonneg : 0 ≤ i
  nul : 0 ∉ s
  rest : ∃ r, b.drop i.toNat = s ++ 0 :: r

namespace StringAt

variable {b s x y : List UInt8} {i : Int} {c : UInt8}

theorem terminated (h : 0 ∉ s) : StringAt (s ++ [0]) 0 s := ⟨Int.le_refl 0, h, [], rfl⟩

theorem strchr_eq (h : StringAt b i s) (hc : c ≠ 0) :
    strchr b i c = .ok ((cutAt c s).map fun x => i + x.1.length) := by
  obtain ⟨hi, hs, r, hr⟩ := h
  rw [strchr, if_neg (by omega), hr]
  clear hr
  induction s generalizing i with
  | nil => simp [strchrFrom, hc.symm, cutAt]
  | cons d s ih =>
    rw [mem_cons, not_or] at hs
    rw [cons_append, strchrFrom, cutAt]
    split
    · simp
    · rw [if_neg (Ne.symm hs.1), ih (by omega) hs.2]
      simp only [Option.map_map]
      congr 2
      funext x
      simp
      omega

theorem strrchrFrom_eq (hs : 0 ∉ s) (r : List UInt8) (i : Int) (last : Option Int) :
    strrchrFrom c (s ++ 0 :: r) i last =
      .ok (((cutLast c s).map fun x => i + x.1.length).or last) := by
  induction s generalizing i last with
  | nil => simp [strrchrFrom, cutLast, cutAt]
  | cons d s ih =>
    rw [mem_cons, not_or] at hs
    rw [cons_append, strrchrFrom, if_neg (Ne.symm hs.1), ih hs.2, cutLast_cons]
    cases cutLast c s with
    | some x =>
      simp only [map_some, some_or, length_cons, Except.ok.injEq, some.injEq]
      omega
    | none => by_cases hd : d = c <;> simp [hd]

theorem strrchr_eq (h : StringAt b i s) :
    strrchr b i c = .ok ((cutLast c s).map fun x => i + x.1.length) := by
  obtain ⟨hi, hs, r, hr⟩ := h
  rw [strrchr, if_neg (by omega), hr, strrchrFrom_eq hs, or_none]

theorem cstr_eq (h : StringAt b i s) : cstr b i = .ok s := by
  obtain ⟨hi, hs, r, hr⟩ := h
  rw [cstr, if_neg (by omega), hr]
  clear hr
  induction s with
  | nil => simp [cstrFrom]
  | cons d s ih =>
    rw [mem_cons, not_or] at hs
    rw [cons_append, cstrFrom, if_neg (Ne.symm hs.1), ih hs.2]
    rfl

theorem strstr_eq (h : StringAt b i s) {n : List UInt8} (hn : n ≠ []) (hz : 0 ∉ n) :
    strstr b i n = .ok ((cutString n s).map fun x => i + x.1.length) := by
  obtain ⟨hi, hs, r, hr⟩ := h
  rw [strstr, if_neg (by omega), hr]
  clear hr
  -- no place of `n` reaches over the NUL
  have hpre (s : List UInt8) (hs : 0 ∉ s) : n.isPrefixOf (s ++ 0 :: r) = n.isPrefixOf s := by
    rw [Bool.eq_iff_iff, isPrefixOf_iff_prefix, isPrefixOf_iff_prefix]
    refine ⟨fun h => ?_, fun h => h.trans (prefix_append ..)⟩
    rcases prefix_or_prefix_of_prefix h (prefix_append s (0 :: r)) with h' | ⟨t, rfl⟩
    · exact h'
    · rw [prefix_append_right_inj] at h
      cases t with
      | nil => simp
      | cons a t =>
        rw [cons_prefix_cons] at h
        simp [h.1] at hz
  induction s generalizing i with
  | nil =>
    have h0 := hpre [] (by simp)
    rw [nil_append] at h0
    have hnil : n.isPrefixOf ([] : List UInt8) = false := by
      cases n with
      | nil => exact absurd rfl hn
      | cons a n => rfl
    simp [strstrFrom, h0, hnil, cutString]
  | cons d s ih =>
    rw [mem_cons, not_or] at hs
    have hd := hpre (d :: s) (by simp [hs.1, hs.2])
    rw [cons_append] at hd ⊢
    rw [strstrFrom, cutString, hd, if_neg (Ne.symm hs.1), ih (by omega) hs.2]
    split
    · simp
    · simp only [Option.map_map]
      congr 2
      funext x
      simp
      omega

theorem drop (h : StringAt b i (x ++ y)) : StringAt b (i + x.length) y := by
  obtain ⟨hi, hs, r, hr⟩ := h
  refine ⟨by omega, fun h0 => hs (mem_append_right x h0), r, ?_⟩
  have : (i + x.length).toNat = i.toNat + x.length := by omega
  rw [this, ← drop_drop, hr, append_assoc, drop_left]

theorem behind (h : StringAt b i (x ++ c :: y)) : StringAt b (i + x.length + 1) y := by
  rw [append_cons] at h
  simpa [Int.add_assoc] using h.drop

theorem peek_eq (h : StringAt b i (c :: y)) : peek b i = .ok c := by
  obtain ⟨hi, -, r, hr⟩ := h
  have hget : b[i.toNat]? = some c := by
    have := congrArg (·[0]?) hr
    simpa using this
  rw [peek, if_neg (by omega), hget]

theorem peek_nul (h : StringAt b i []) : peek b i = .ok 0 := by
  obtain ⟨hi, -, r, hr⟩ := h
  have hget : b[i.toNat]? = some 0 := by
    have := congrArg (·[0]?) hr
    simpa using this
  rw [peek, if_neg (by omega), hget]

/-- A NUL over the byte behind `x` leaves `x`, and what stands behind the byte. -/
theorem cut (h : StringAt b i (x ++ c :: y)) :
    StringAt (cutBuffer b (i + x.length)) i x ∧
      StringAt (cutBuffer b (i + x.length)) (i + x.length + 1) y := by
  obtain ⟨hi, hs, r, hr⟩ := h
  have hx : 0 ∉ x := fun h0 => hs (by simp [h0])
  have hy : 0 ∉ y := fun h0 => hs (by simp [h0])
  have hpos : (i + x.length).toNat = i.toNat + x.length := by omega
  have hset : (cutBuffer b (i + x.length)).drop i.toNat = x ++ 0 :: (y ++ 0 :: r) := by
    rw [cutBuffer, hpos, drop_set, if_neg (by omega), hr]
    simp
  refine ⟨⟨hi, hx, _, hset⟩, by omega, hy, r, ?_⟩
  have hnext : (i + x.length + 1).toNat = i.toNat + (x.length + 1) := by omega
  rw [hnext, ← drop_drop, hset]
  simp

theorem cut_behind (h : StringAt b i s) {j : Int} (hj : i + s.length < j) :
    StringAt (cutBuffer b j) i s := by
  obtain ⟨hi, hs, r, hr⟩ := h
  obtain ⟨k, hk⟩ : ∃ k, j.toNat - i.toNat = s.length + (k + 1) :=
    ⟨j.toNat - i.toNat - s.length - 1, by omega⟩
  refine ⟨hi, hs, r.set k 0, ?_⟩
  rw [cutBuffer, drop_set, if_neg (by omega), hr, hk, set_append_right _ _ (by omega)]
  simp

end StringAt

end NC
