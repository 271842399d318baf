import Mathlib.Tactic.Ring

/-!
# Searches of a sorted table

`key i` is the key of place `i` of a table, in increasing order up to its last
place `n`. Two searches for the place of a key:

* `uniformSearch` moves by the steps of a fixed list, whatever the outcome of the
  comparisons; `Reaches r steps` says that the steps lead from a place to every
  place at most `r` away (`uniformSearch_eq`);
* `binarySearch` halves the part of the table that can hold the key
  (`binarySearch_eq`).
-/

namespace NC

variable {key : Nat → Nat} {needle : Nat}

/-! ## By fixed steps -/

/-- One comparison for each step but the closing `0`; the step that follows says how
far the search moves. -/
def uniformSearch (key : Nat → Nat) (needle : Nat) : List Nat → Nat → Option Nat
  | c :: d :: ds, i =>
    if c = 0 then none
    else if needle < key i then uniformSearch key needle (d :: ds) (i - d)
    else if key i < needle then uniformSearch key needle (d :: ds) (i + d)
    else some i
  | _, _ => none

/-- The places that `uniformSearch` compares. -/
def uniformReads (key : Nat → Nat) (needle : Nat) : List Nat → Nat → List Nat
  | c :: d :: ds, i =>
    if c = 0 then []
    else i :: (if needle < key i then uniformReads key needle (d :: ds) (i - d)
      else if key i < needle then uniformReads key needle (d :: ds) (i + d) else [])
  | _, _ => []

/-- The steps lead to every place at most `r` away. -/
def Reaches : Nat → List Nat → Bool
  | r, c :: d :: ds => c ≠ 0 && (r = 0 || Reaches (max (d - 1) (r - d)) (d :: ds))
  | _, _ => false

theorem uniformSearch_sound {steps : List Nat} {i k : Nat}
    (h : uniformSearch key needle steps i = some k) :
    key k = needle ∧ k ∈ uniformReads key needle steps i := by
  induction steps generalizing i with
  | nil => cases h
  | cons c steps ih =>
    cases steps with
    | nil => cases h
    | cons d ds =>
      rw [uniformSearch] at h
      split_ifs at h with hc hlt hgt
      · simpa [uniformReads, hc, hlt] using (ih h).imp_right .inr
      · simpa [uniformReads, hc, hlt, hgt] using (ih h).imp_right .inr
      · cases h
        simp only [uniformReads, hc, if_false, List.mem_cons, true_or, and_true]
        omega

/-- No place compared is further from the first than all steps together. -/
theorem uniformReads_near {steps : List Nat} {i k : Nat} (h : k ∈ uniformReads key needle steps i) :
    i ≤ k + steps.tail.sum ∧ k ≤ i + steps.tail.sum := by
  induction steps generalizing i with
  | nil => cases h
  | cons c steps ih =>
    cases steps with
    | nil => cases h
    | cons d ds =>
      simp only [List.tail_cons, List.sum_cons] at ih ⊢
      rw [uniformReads] at h
      split at h
      · cases h
      obtain rfl | h := List.mem_cons.1 h
      · omega
      split_ifs at h
      · have := ih h
        omega
      · have := ih h
        omega
      · cases h

/-- In a sorted table the search finds every key that its steps reach. -/
theorem uniformSearch_eq {n k : Nat} (mono : ∀ a b, a < b → b ≤ n → key a < key b) (hk : k ≤ n)
    {steps : List Nat} {i r : Nat} (hr : Reaches r steps) (hi : i + steps.tail.sum ≤ n)
    (hl : i ≤ k + r) (hu : k ≤ i + r) : uniformSearch key (key k) steps i = some k := by
  induction steps generalizing i r with
  | nil => cases hr
  | cons c steps ih =>
    cases steps with
    | nil => cases hr
    | cons d ds =>
      simp only [Reaches, Bool.and_eq_true, Bool.or_eq_true, decide_eq_true_eq] at hr
      simp only [List.tail_cons, List.sum_cons] at hi ih
      obtain ⟨hc, hr⟩ := hr
      rw [uniformSearch, if_neg hc]
      -- the place sought is left of, right of, or at the place compared
      rcases Nat.lt_trichotomy k i with h | h | h
      · rw [if_pos (mono k i h (by omega))]
        have hr := hr.resolve_left (by omega)
        exact ih hr (by omega) (by omega) (by omega)
      · subst h
        rw [if_neg (by omega), if_neg (by omega)]
      · have := mono i k h hk
        rw [if_neg (by omega), if_pos this]
        have hr := hr.resolve_left (by omega)
        exact ih hr (by omega) (by omega) (by omega)

/-! ## By halves -/

/-- The places from `low` up to `high` can hold the key. -/
def binarySearch (key : Nat → Nat) (needle low high : Nat) : Option Nat :=
  if low < high then
    let mid := low + (high - low) / 2
    if key mid < needle then binarySearch key needle (mid + 1) high
    else if needle < key mid then binarySearch key needle low mid
    else some mid
  else none
termination_by high - low
decreasing_by all_goals omega

theorem binarySearch_sound {low high k : Nat} (h : binarySearch key needle low high = some k) :
    low ≤ k ∧ k < high ∧ key k = needle := by
  fun_induction binarySearch key needle low high with
  | case1 low high hlt mid hm ih | case2 low high hlt mid hm hm' ih =>
    have := ih h
    omega
  | case3 low high hlt mid hm hm' =>
    have hk : mid = k := Option.some.inj h
    rw [← hk]
    omega
  | case4 => cases h

/-- A key of a sorted range is found. -/
theorem binarySearch_complete {low high k : Nat}
    (mono : ∀ a b, low ≤ a → a < b → b < high → key a ≤ key b) (hl : low ≤ k) (hh : k < high) :
    (binarySearch key (key k) low high).isSome := by
  fun_induction binarySearch key (key k) low high with
  | case1 low high hlt mid hm ih =>
    refine ih (fun a b ha => mono a b (by omega)) ?_ hh
    by_contra hn
    rcases Nat.lt_or_eq_of_le (show k ≤ mid by omega) with h | h
    · have := mono k mid hl h (by omega)
      omega
    · rw [h] at hm
      omega
  | case2 low high hlt mid hm hm' ih =>
    refine ih (fun a b ha hb hm => mono a b ha hb (by omega)) hl ?_
    by_contra hn
    rcases Nat.lt_or_eq_of_le (show mid ≤ k by omega) with h | h
    · have := mono mid k (by omega) h hh
      omega
    · rw [h] at hm'
      omega
  | case3 => rfl
  | case4 => omega

end NC
