import Mathlib.Data.List.GetD
import Mathlib.Data.List.Nodup

/-!
# Lists as queues and as sets

`updateFirst P f l` applies `f` to the first element of `l` that satisfies `P`,
as code does that walks a queue to the element it looks for. If `f` keeps `P`,
the next search finds the updated element (`find?_updateFirst`), and two updates
are one (`updateFirst_updateFirst`).

`bitsOf l` holds the numbers of `l` as the bits of one number, so that large
tables can be checked for membership and for repeated entries (`testBit_bitsOf`,
`nodup_of_distinct`).

A list is split at a separator by `List.splitOn`. The parts have no separator
(`not_mem_of_mem_splitOn`), and a translation that keeps the separators apart from the
rest translates each part (`splitOn_flatMap`).

A table of threads is a list in which a number without a thread has a default (`getD_set`,
`getD_concat`).
-/

namespace NC

open List

variable {α : Type} {P : α → Bool} {f g : α → α}

/-- `f` applied to the first element that satisfies `P`. -/
def updateFirst (P : α → Bool) (f : α → α) : List α → List α
  | [] => []
  | a :: l => if P a then f a :: l else a :: updateFirst P f l

theorem find?_updateFirst (hP : ∀ a, P (f a) = P a) (l : List α) :
    (updateFirst P f l).find? P = (l.find? P).map f := by
  induction l with
  | nil => rfl
  | cons a l ih =>
    rw [updateFirst]
    by_cases h : P a
    · simp [h, hP]
    · simp [h, ih]

theorem updateFirst_updateFirst (hP : ∀ a, P (f a) = P a) (l : List α) :
    updateFirst P g (updateFirst P f l) = updateFirst P (fun a => g (f a)) l := by
  induction l with
  | nil => rfl
  | cons a l ih =>
    by_cases h : P a
    · simp [updateFirst, h, hP]
    · simp [updateFirst, h, ih]

theorem updateFirst_id (hf : ∀ a, f a = a) (l : List α) : updateFirst P f l = l := by
  induction l with
  | nil => rfl
  | cons a l ih => simp [updateFirst, hf, ih]

theorem map_updateFirst {β : Type} {h : α → β} (hf : ∀ a, h (f a) = h a) (l : List α) :
    (updateFirst P f l).map h = l.map h := by
  induction l with
  | nil => rfl
  | cons a l ih =>
    rw [updateFirst]
    split <;> simp [hf, ih]

theorem eraseP_updateFirst (hP : ∀ a, P (f a) = P a) (l : List α) :
    (updateFirst P f l).eraseP P = l.eraseP P := by
  induction l with
  | nil => rfl
  | cons a l ih => by_cases h : P a <;> simp [updateFirst, h, hP, ih]

theorem mem_updateFirst {a : α} {l : List α} (h : a ∈ updateFirst P f l) :
    a ∈ l ∨ ∃ b ∈ l, P b ∧ a = f b := by
  induction l with
  | nil => cases h
  | cons b l ih =>
    rw [updateFirst] at h
    split at h
    · next hb =>
      rcases mem_cons.1 h with rfl | h
      · exact .inr ⟨b, mem_cons_self, hb, rfl⟩
      · exact .inl (mem_cons_of_mem b h)
    · rcases mem_cons.1 h with rfl | h
      · exact .inl mem_cons_self
      · rcases ih h with h | ⟨c, hc, hp, e⟩
        · exact .inl (mem_cons_of_mem b h)
        · exact .inr ⟨c, mem_cons_of_mem b hc, hp, e⟩

/-- A list is split at its first element, or behind it. -/
theorem exists_split_cons {Q : List α → α → Prop} {b : α} {l : List α} :
    (∃ pre a post, b :: l = pre ++ a :: post ∧ Q pre a) ↔
      Q [] b ∨ ∃ pre a post, l = pre ++ a :: post ∧ Q (b :: pre) a := by
  constructor
  · rintro ⟨_ | ⟨c, pre⟩, a, post, e, h⟩ <;> cases e
    · exact .inl h
    · exact .inr ⟨pre, a, post, rfl, h⟩
  · rintro (h | ⟨pre, a, post, rfl, h⟩)
    · exact ⟨[], b, l, rfl, h⟩
    · exact ⟨b :: pre, a, post, rfl, h⟩

/-! ## Numbers as bits -/

/-- The numbers of a list as the bits of one number. -/
def bitsOf : List Nat → Nat
  | [] => 0
  | x :: l => 1 <<< x ||| bitsOf l

theorem testBit_bitsOf (l : List Nat) (n : Nat) : (bitsOf l).testBit n ↔ n ∈ l := by
  induction l with
  | nil => simp [bitsOf]
  | cons x l ih =>
    rw [bitsOf, Nat.testBit_or, Nat.one_shiftLeft, Nat.testBit_two_pow, Bool.or_eq_true, ih,
      decide_eq_true_eq, mem_cons, eq_comm]

/-- No number stands twice. -/
def distinct : List Nat → Bool
  | [] => true
  | x :: l => !(bitsOf l).testBit x && distinct l

theorem nodup_of_distinct {l : List Nat} (h : distinct l) : l.Nodup := by
  induction l with
  | nil => exact nodup_nil
  | cons x l ih =>
    rw [distinct, Bool.and_eq_true, Bool.not_eq_true'] at h
    refine nodup_cons.2 ⟨fun hx => ?_, ih h.2⟩
    rw [(testBit_bitsOf l x).2 hx] at h
    exact absurd h.1 nofun

/-! ## Splitting at a separator -/

section SplitOn

variable {α β : Type} [DecidableEq α] [DecidableEq β]

theorem splitOn_cons_self (a : α) (l : List α) : (a :: l).splitOn a = [] :: l.splitOn a := by
  simpa using splitOn_append_cons_self [] l (a := a)

theorem splitOn_append_of_not_mem {a : α} {xs : List α} (h : a ∉ xs) (l : List α) :
    (xs ++ l).splitOn a = (l.splitOn a).modifyHead (xs ++ ·) := by
  induction xs with
  | nil => cases h : l.splitOn a <;> simp [h]
  | cons x xs ih =>
    rw [mem_cons, not_or] at h
    have hx : (x == a) = false := by simpa using Ne.symm h.1
    have hcons : (x :: (xs ++ l)).splitOn a = ((xs ++ l).splitOn a).modifyHead (x :: ·) := by
      simp [List.splitOn, splitOnP_cons_eq_if_modifyHead, hx]
    rw [cons_append, hcons, ih h.2]
    cases l.splitOn a <;> rfl

/-- The parts of a list with one more element: a new one, or one of the old ones, which may
have the element in front. -/
theorem mem_splitOn_cons {a x : α} {l n : List α} (h : n ∈ (x :: l).splitOn a) :
    n = [] ∨ n ∈ l.splitOn a ∨ x ≠ a ∧ ∃ m ∈ l.splitOn a, n = x :: m := by
  by_cases hx : x = a
  · subst hx
    rw [splitOn_cons_self, mem_cons] at h
    exact h.imp_right .inl
  · rw [← singleton_append, splitOn_append_of_not_mem (by simpa using Ne.symm hx)] at h
    cases hs : l.splitOn a with
    | nil => simp [hs] at h
    | cons m ms =>
      rw [hs, modifyHead_cons, mem_cons] at h
      rcases h with rfl | h
      · exact .inr (.inr ⟨hx, m, mem_cons_self .., rfl⟩)
      · exact .inr (.inl (mem_cons_of_mem _ h))

theorem not_mem_of_mem_splitOn {a : α} {l n : List α} (h : n ∈ l.splitOn a) : a ∉ n := by
  induction l generalizing n with
  | nil =>
    rw [splitOn_nil, mem_singleton] at h
    simp [h]
  | cons x l ih =>
    rcases mem_splitOn_cons h with rfl | h | ⟨hx, m, hm, rfl⟩
    · simp
    · exact ih h
    · simp [Ne.symm hx, ih hm]

theorem subset_of_mem_splitOn {a : α} {l n : List α} (h : n ∈ l.splitOn a) : n ⊆ l := by
  induction l generalizing n with
  | nil =>
    rw [splitOn_nil, mem_singleton] at h
    simp [h]
  | cons x l ih =>
    rcases mem_splitOn_cons h with rfl | h | ⟨-, m, hm, rfl⟩
    · simp
    · exact subset_cons_of_subset x (ih h)
    · exact cons_subset_cons x (ih hm)

/-- A map that keeps the separator apart maps piece by piece. -/
theorem splitOn_flatMap {a : α} {b : β} {g : α → List β} {l : List α} (ha : g a = [b])
    (hg : ∀ c ∈ l, c ≠ a → b ∉ g c) :
    (l.flatMap g).splitOn b = (l.splitOn a).map (·.flatMap g) := by
  induction l with
  | nil => simp
  | cons c l ih =>
    rw [forall_mem_cons] at hg
    rw [flatMap_cons]
    by_cases hc : c = a
    · subst hc
      rw [ha, singleton_append, splitOn_cons_self, splitOn_cons_self, ih hg.2]
      rfl
    · rw [splitOn_append_of_not_mem (hg.1 hc), ih hg.2, ← singleton_append,
        splitOn_append_of_not_mem (by simpa using Ne.symm hc)]
      cases l.splitOn a <;> simp

end SplitOn

theorem getD_set {l : List α} {i : Nat} (h : i < l.length) (a d : α) (j : Nat) :
    (l.set i a).getD j d = if j = i then a else l.getD j d := by
  rw [getD_eq_getElem?_getD, getD_eq_getElem?_getD]
  split
  · next hj => simp [hj, h]
  · next hj => rw [getElem?_set_ne (Ne.symm hj)]

theorem getD_concat (l : List α) (a d : α) (j : Nat) :
    (l ++ [a]).getD j d = if j = l.length then a else l.getD j d := by
  rcases Nat.lt_trichotomy j l.length with h | h | h
  · rw [if_neg (Nat.ne_of_lt h), getD_append _ _ _ _ h]
  · simp [h]
  · rw [if_neg (Nat.ne_of_gt h), getD_eq_default _ _ (by simp; omega),
      getD_eq_default _ _ (by omega)]

end NC
