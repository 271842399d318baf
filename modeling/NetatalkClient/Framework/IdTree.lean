import Mathlib.Data.List.Infix

/-!
# Trees of folders with identities

A tree in which every folder has an identity `ι`: the object of the name `n`
in the folder `d` is `t d n`, a file with contents `κ` or a folder's identity.
`dirFrom` and `lookup` follow a list of names from a folder. In a well-formed
tree (`Wf`) a folder has one name and the root has none, so a folder is
reached by one path alone (`Wf.dirFrom_inj`).

`move` gives an object another name. What a path leads to after a move is
what `lookup_move_dst`, `lookup_move_src` and `lookup_move_of_ne` say: beneath
the new name, at the old one, and everywhere else.

`OnlyAt` says of a folder that it is at a path or nowhere. Every change of a tree keeps
it, but a move of a name the path comes through (`OnlyAt.set_none`, `OnlyAt.set_dir`,
`OnlyAt.move`).
-/

namespace NC

open List

/-- An object of a tree: a file with its contents, or a folder's identity. -/
inductive Obj (ι κ : Type) where
  | file (c : κ)
  | dir (i : ι)
  deriving DecidableEq, Repr

/-- A tree: the object under a name in a folder. -/
abbrev IdTree (ι ν κ : Type) := ι → ν → Option (Obj ι κ)

namespace IdTree

variable {ι ν κ : Type}

/-- The folder that a path leads to from the folder `d`. -/
def dirFrom (t : IdTree ι ν κ) : ι → List ν → Option ι
  | d, [] => some d
  | d, n :: ns =>
    match t d n with
    | some (.dir i) => dirFrom t i ns
    | _ => none

/-- The object that a path leads to from the folder `d`. -/
def lookup (t : IdTree ι ν κ) : ι → List ν → Option (Obj ι κ)
  | d, [] => some (.dir d)
  | d, n :: ns =>
    match t d n with
    | some (.dir i) => lookup t i ns
    | some (.file c) => if ns.isEmpty then some (.file c) else none
    | none => none

/-- A folder has one name, and the root none. -/
structure Wf (t : IdTree ι ν κ) (root : ι) : Prop where
  inj : ∀ {d d' n n' i}, t d n = some (.dir i) → t d' n' = some (.dir i) → d = d' ∧ n = n'
  root : ∀ {d n}, t d n ≠ some (.dir root)

variable {t t' : IdTree ι ν κ} {root d e i : ι} {n : ν} {p q : List ν}

theorem dirFrom_append : dirFrom t d (p ++ q) = (dirFrom t d p).bind (dirFrom t · q) := by
  induction p generalizing d with
  | nil => rfl
  | cons n p ih =>
    simp only [cons_append, dirFrom]
    split
    · exact ih
    · rfl

theorem dirFrom_snoc : dirFrom t d (p ++ [n]) = some i ↔
    ∃ e, dirFrom t d p = some e ∧ t e n = some (.dir i) := by
  rw [dirFrom_append, Option.bind_eq_some_iff]
  refine exists_congr fun e => and_congr_right fun _ => ?_
  simp only [dirFrom]
  split <;> simp_all

theorem lookup_append (h : dirFrom t d p = some e) : lookup t d (p ++ q) = lookup t e q := by
  induction p generalizing d with
  | nil =>
    cases h
    rfl
  | cons n p ih =>
    simp only [dirFrom] at h
    split at h
    · rename_i i hi
      simp only [cons_append, lookup, hi]
      exact ih h
    · cases h

theorem lookup_single : lookup t d [n] = t d n := by
  simp only [lookup]
  split <;> simp_all

theorem lookup_snoc (h : dirFrom t d p = some e) : lookup t d (p ++ [n]) = t e n := by
  rw [lookup_append h, lookup_single]

/-- In a well-formed tree one path alone leads to a folder. -/
theorem Wf.dirFrom_inj (h : Wf t root) (hp : dirFrom t root p = some i)
    (hq : dirFrom t root q = some i) : p = q := by
  induction p using List.reverseRecOn generalizing q i with
  | nil =>
    cases hp
    induction q using List.reverseRecOn with
    | nil => rfl
    | append_singleton q n _ =>
      obtain ⟨e, -, he⟩ := dirFrom_snoc.1 hq
      exact absurd he h.root
  | append_singleton p n ih =>
    obtain ⟨e, hpe, he⟩ := dirFrom_snoc.1 hp
    induction q using List.reverseRecOn with
    | nil =>
      cases hq
      exact absurd he h.root
    | append_singleton q m _ =>
      obtain ⟨e', hqe, he'⟩ := dirFrom_snoc.1 hq
      obtain ⟨rfl, rfl⟩ := h.inj he he'
      rw [ih hpe hqe]

/-- A walk to `d` does not come through a name of `d` itself. -/
theorem Wf.ne_of_dirFrom (hw : Wf t root) (h : dirFrom t root p = some d) {q r : List ν}
    (hp : p = q ++ n :: r) (hq : dirFrom t root q = some e) : e ≠ d := by
  rintro rfl
  have heq := hw.dirFrom_inj h hq
  rw [heq] at hp
  simp at hp

theorem dirFrom_eq_some : dirFrom t d p = some i ↔ lookup t d p = some (.dir i) := by
  induction p generalizing d with
  | nil => simp [dirFrom, lookup]
  | cons n p ih =>
    simp only [dirFrom, lookup]
    split <;> rename_i h
    · simp [h, ih]
    · split <;> simp_all

/-- Two trees agree on a path when they agree on each name it comes through. -/
theorem lookup_congr (h : ∀ q n r e, p = q ++ n :: r → dirFrom t d q = some e → t' e n = t e n) :
    lookup t' d p = lookup t d p := by
  induction p generalizing d with
  | nil => rfl
  | cons n p ih =>
    have hn : t' d n = t d n := h [] n p d rfl rfl
    simp only [lookup, hn]
    split
    · rename_i i hi
      refine ih fun q m r e hp hq => h (n :: q) m r e (by rw [hp, cons_append]) ?_
      simpa [dirFrom, hi] using hq
    · rfl
    · rfl

/-! ## Moving an object -/

variable [DecidableEq ι] [DecidableEq ν] {x : Option (Obj ι κ)}

/-- The tree with `x` under the name `n` of the folder `d`. -/
def set (t : IdTree ι ν κ) (d : ι) (n : ν) (x : Option (Obj ι κ)) : IdTree ι ν κ :=
  fun d' n' => if d' = d ∧ n' = n then x else t d' n'

/-- The tree with the object of the first name under the second instead. -/
def move (t : IdTree ι ν κ) (d₁ : ι) (n₁ : ν) (d₂ : ι) (n₂ : ν) : IdTree ι ν κ :=
  (t.set d₁ n₁ none).set d₂ n₂ (t d₁ n₁)

@[simp] theorem set_self : t.set d n x d n = x := by simp [set]

theorem set_of_ne {d' : ι} {n' : ν} (h : ¬(d' = d ∧ n' = n)) :
    t.set d n x d' n' = t d' n' := if_neg h

/-- Taking a name away opens no new walk. -/
theorem dirFrom_of_set_none {d' : ι} {p : List ν} (h : dirFrom (t.set d n none) d' p = some i) :
    dirFrom t d' p = some i := by
  induction p generalizing d' with
  | nil => exact h
  | cons m p ih =>
    simp only [dirFrom, set] at h ⊢
    split_ifs at h
    · split at h
      · exact ih h
      · cases h

section Move

variable {p₁ p₂ : List ν} {d₁ d₂ : ι} {n₁ n₂ : ν}

theorem move_of_ne (h₁ : ¬(d = d₁ ∧ n = n₁)) (h₂ : ¬(d = d₂ ∧ n = n₂)) :
    t.move d₁ n₁ d₂ n₂ d n = t d n := by
  rw [move, set_of_ne h₂, set_of_ne h₁]

theorem move_set_none (hne : ¬(d₁ = d₂ ∧ n₁ = n₂)) :
    (t.set d₂ n₂ none).move d₁ n₁ d₂ n₂ = t.move d₁ n₁ d₂ n₂ := by
  funext d n
  simp only [move, set]
  split_ifs <;> rfl

/-- Two objects exchanged, and the first name then taken away. -/
theorem set_exchange (hne : ¬(d₁ = d₂ ∧ n₁ = n₂)) :
    ((t.set d₁ n₁ x).set d₂ n₂ (t d₁ n₁)).set d₁ n₁ none = t.move d₁ n₁ d₂ n₂ := by
  funext d n
  simp only [move, set]
  split_ifs with h₁ h₂ <;> simp_all

variable (hw : Wf t root) (h₁ : dirFrom t root p₁ = some d₁) (h₂ : dirFrom t root p₂ = some d₂)

include hw h₁ h₂

/-- A path that does not begin with either name's path leads where it did. -/
theorem lookup_move_of_ne (hp₁ : ¬p₁ ++ [n₁] <+: p) (hp₂ : ¬p₂ ++ [n₂] <+: p) :
    lookup (t.move d₁ n₁ d₂ n₂) root p = lookup t root p := by
  refine lookup_congr fun q n r e hp hq => move_of_ne ?_ ?_
  · rintro ⟨rfl, rfl⟩
    refine hp₁ ⟨r, ?_⟩
    rw [hw.dirFrom_inj h₁ hq, hp, append_assoc, singleton_append]
  · rintro ⟨rfl, rfl⟩
    refine hp₂ ⟨r, ?_⟩
    rw [hw.dirFrom_inj h₂ hq, hp, append_assoc, singleton_append]

/-- What was beneath the source of a move is beneath its destination. -/
theorem lookup_move_dst (hne : ¬p₁ ++ [n₁] <+: p₂ ++ [n₂]) (s : List ν) :
    lookup (t.move d₁ n₁ d₂ n₂) root (p₂ ++ n₂ :: s) = lookup t root (p₁ ++ n₁ :: s) := by
  have hd₂ : dirFrom (t.move d₁ n₁ d₂ n₂) root p₂ = some d₂ := by
    rw [dirFrom_eq_some, ← dirFrom_eq_some.1 h₂]
    refine lookup_congr fun q n r e hp hq => move_of_ne ?_ ?_
    · rintro ⟨rfl, rfl⟩
      refine hne ⟨r ++ [n₂], ?_⟩
      simp [hw.dirFrom_inj h₁ hq, hp]
    · exact fun h => hw.ne_of_dirFrom h₂ hp hq h.1
  rw [lookup_append hd₂, lookup_append h₁]
  have hn₂ : t.move d₁ n₁ d₂ n₂ d₂ n₂ = t d₁ n₁ := set_self
  simp only [lookup, hn₂]
  split
  · rename_i i hi
    -- the moved folder's own walks come through neither name, or one name would be beneath itself
    refine lookup_congr fun q n r e _ hq => ?_
    have hpath : dirFrom t root (p₁ ++ n₁ :: q) = some e := by
      simpa [dirFrom_append, h₁, dirFrom, hi] using hq
    refine move_of_ne ?_ ?_
    · rintro ⟨rfl, rfl⟩
      have heq := hw.dirFrom_inj h₁ hpath
      simp at heq
    · rintro ⟨rfl, rfl⟩
      exact hne ⟨q ++ [n], by simp [← hw.dirFrom_inj hpath h₂]⟩
  · rfl
  · rfl

theorem lookup_move_src (hne : p₁ ++ [n₁] ≠ p₂ ++ [n₂]) (hdst : ∀ i, t d₂ n₂ ≠ some (.dir i)) :
    lookup (t.move d₁ n₁ d₂ n₂) root (p₁ ++ [n₁]) = none := by
  have hd₁ : dirFrom (t.move d₁ n₁ d₂ n₂) root p₁ = some d₁ := by
    rw [dirFrom_eq_some, ← dirFrom_eq_some.1 h₁]
    refine lookup_congr fun q n r e hp hq => move_of_ne ?_ ?_
    · exact fun h => hw.ne_of_dirFrom h₁ hp hq h.1
    · rintro ⟨rfl, rfl⟩
      rw [hp, dirFrom_append, hq, Option.bind_some, dirFrom] at h₁
      split at h₁
      · exact hdst _ ‹_›
      · cases h₁
  rw [lookup_snoc hd₁, move, set_of_ne, set_self]
  rintro ⟨rfl, rfl⟩
  exact hne (by rw [hw.dirFrom_inj h₁ h₂])

end Move

/-! ## Where a folder is

A client that remembers a folder's identity with its path is right as long as the folder
is nowhere else: it may be gone, but it must not have moved. -/

theorem Wf.set_leaf (hw : Wf t root) (hx : ∀ i, x ≠ some (.dir i)) :
    Wf (t.set d n x) root where
  inj {d₁ d₂ n₁ n₂ i} h₁ h₂ := by
    simp only [set] at h₁ h₂
    split_ifs at h₁ h₂
    · exact absurd h₁ (hx i)
    · exact absurd h₁ (hx i)
    · exact absurd h₂ (hx i)
    · exact hw.inj h₁ h₂
  root {e m} h := by
    simp only [set] at h
    split_ifs at h
    · exact hx root h
    · exact hw.root h

theorem Wf.set_none (hw : Wf t root) : Wf (t.set d n none) root := hw.set_leaf nofun

theorem Wf.set_file (hw : Wf t root) {c : κ} : Wf (t.set d n (some (.file c))) root :=
  hw.set_leaf nofun

theorem Wf.set_dir (hw : Wf t root) (hi : ∀ d n, t d n ≠ some (.dir i)) (hr : i ≠ root) :
    Wf (t.set d n (some (.dir i))) root where
  inj {d₁ d₂ n₁ n₂ j} h₁ h₂ := by
    simp only [set] at h₁ h₂
    split_ifs at h₁ h₂ with hc₁ hc₂ hc₂
    · exact ⟨hc₁.1.trans hc₂.1.symm, hc₁.2.trans hc₂.2.symm⟩
    · cases h₁
      exact absurd h₂ (hi _ _)
    · cases h₂
      exact absurd h₁ (hi _ _)
    · exact hw.inj h₁ h₂
  root {e m} h := by
    simp only [set] at h
    split_ifs at h
    · cases h
      exact hr rfl
    · exact hw.root h

/-- A move gives no folder a second name. -/
theorem Wf.move {d₁ d₂ : ι} {n₁ n₂ : ν} (hw : Wf t root) : Wf (t.move d₁ n₁ d₂ n₂) root where
  inj {d d' n n' i} h h' := by
    simp only [IdTree.move, set] at h h'
    split_ifs at h h' with hc hc' hs' hs hc'
    · exact ⟨hc.1.trans hc'.1.symm, hc.2.trans hc'.2.symm⟩
    · exact absurd (hw.inj h' h) hs'
    · exact absurd (hw.inj h h') hs
    · exact hw.inj h h'
  root {d n} h := by
    simp only [IdTree.move, set] at h
    split_ifs at h <;> exact hw.root h

/-- The folder `i` is at the path `p`, or it is none of the tree's. -/
def OnlyAt (t : IdTree ι ν κ) (root : ι) (p : List ν) (i : ι) : Prop :=
  ∀ q, dirFrom t root q = some i → q = p

omit [DecidableEq ι] [DecidableEq ν] in
theorem onlyAt_iff (hw : Wf t root) : OnlyAt t root p i ↔
    (∀ q, dirFrom t root q ≠ some i) ∨ dirFrom t root p = some i := by
  constructor
  · intro h
    by_cases hq : ∃ q, dirFrom t root q = some i
    · obtain ⟨q, hq⟩ := hq
      exact .inr (h q hq ▸ hq)
    · exact .inl (not_exists.1 hq)
  · rintro (h | h) q hq
    · exact absurd hq (h q)
    · exact hw.dirFrom_inj hq h

omit [DecidableEq ι] [DecidableEq ν] in
theorem onlyAt_root (hw : Wf t root) : OnlyAt t root [] root :=
  (onlyAt_iff hw).2 (.inr rfl)

omit [DecidableEq ι] [DecidableEq ν] in
/-- A folder in one that is only at `p` is only at its name behind `p`. -/
theorem OnlyAt.child (h : OnlyAt t root p d) (hw : Wf t root) (hn : t d n = some (.dir i)) :
    OnlyAt t root (p ++ [n]) i := by
  intro q hq
  induction q using List.reverseRecOn with
  | nil =>
    cases hq
    exact absurd hn hw.root
  | append_singleton q m _ =>
    obtain ⟨e, hqe, he⟩ := dirFrom_snoc.1 hq
    obtain ⟨rfl, rfl⟩ := hw.inj he hn
    rw [h q hqe]

theorem OnlyAt.set_none (h : OnlyAt t root p i) {d : ι} {n : ν} :
    OnlyAt (t.set d n none) root p i :=
  fun q hq => h q (dirFrom_of_set_none hq)

/-- A new folder is the end of every walk that comes through it. -/
theorem dirFrom_of_set_dir {e : ι} (hd : i ≠ d) (hchild : ∀ m, t i m = none)
    (hparent : ∀ d n, t d n ≠ some (.dir i)) (he : e ≠ i) {c : ι} {q : List ν}
    (h : dirFrom (t.set d n (some (.dir i))) c q = some e) (hc : c ≠ i) :
    dirFrom t c q = some e := by
  induction q generalizing c with
  | nil => exact h
  | cons m q ih =>
    simp only [dirFrom, set] at h ⊢
    split_ifs at h with hcm
    · exfalso
      cases q with
      | nil => exact he (Option.some.inj h).symm
      | cons m' q =>
        simp only [dirFrom, set, hd, hchild] at h
        cases h
    · split at h
      · rename_i j hj
        have hji : j ≠ i := by
          rintro rfl
          exact hparent _ _ hj
        exact ih h hji
      · cases h

theorem OnlyAt.set_dir {e : ι} (h : OnlyAt t root p e) (hd : i ≠ d) (hchild : ∀ m, t i m = none)
    (hparent : ∀ d n, t d n ≠ some (.dir i)) (hr : i ≠ root) (he : e ≠ i) {n : ν} :
    OnlyAt (t.set d n (some (.dir i))) root p e :=
  fun q hq => h q (dirFrom_of_set_dir hd hchild hparent he hq hr.symm)

section Move

variable {p₁ p₂ : List ν} {d₁ d₂ i : ι} {n₁ n₂ : ν} (hw : Wf t root)
  (h₁ : dirFrom t root p₁ = some d₁) (h₂ : dirFrom t root p₂ = some d₂) (hsrc : t d₁ n₁ ≠ none)
  (hdst : t d₂ n₂ = none) (hne : ¬p₁ ++ [n₁] <+: p₂)

include hw h₁ h₂ hsrc hdst hne

/-- What a walk after a move leads to: beneath the new name what was beneath the old one,
and else what it led to. -/
theorem dirFrom_move (h : dirFrom (t.move d₁ n₁ d₂ n₂) root q = some i) :
    (∃ s, q = p₂ ++ n₂ :: s ∧ dirFrom t root (p₁ ++ n₁ :: s) = some i) ∨
      (¬p₁ ++ [n₁] <+: q ∧ dirFrom t root q = some i) := by
  have hplace : p₁ ++ [n₁] ≠ p₂ ++ [n₂] := by
    intro heq
    obtain ⟨hp, hn⟩ := append_inj' heq rfl
    subst hp
    rw [h₁, Option.some.injEq] at h₂
    subst h₂
    rw [← (List.cons.inj hn).1] at hdst
    exact hsrc hdst
  rw [dirFrom_eq_some] at h
  by_cases hq₂ : p₂ ++ [n₂] <+: q
  · obtain ⟨s, rfl⟩ := hq₂
    have hbeneath : ¬p₁ ++ [n₁] <+: p₂ ++ [n₂] := by
      rw [prefix_concat_iff]
      exact not_or.2 ⟨hplace, hne⟩
    rw [append_assoc, singleton_append, lookup_move_dst hw h₁ h₂ hbeneath] at h
    exact .inl ⟨s, by simp, dirFrom_eq_some.2 h⟩
  by_cases hq₁ : p₁ ++ [n₁] <+: q
  · obtain ⟨s, rfl⟩ := hq₁
    have hgone := lookup_move_src hw h₁ h₂ hplace (by simp [hdst])
    have hdir := dirFrom_eq_some.2 h
    rw [dirFrom_append, Option.bind_eq_some_iff] at hdir
    obtain ⟨e, he, -⟩ := hdir
    rw [dirFrom_eq_some, hgone] at he
    cases he
  · rw [lookup_move_of_ne hw h₁ h₂ hq₁ hq₂] at h
    exact .inr ⟨hq₁, dirFrom_eq_some.2 h⟩

/-- A folder remembered at a path that does not come through the place moved is still
nowhere else. -/
theorem OnlyAt.move (h : OnlyAt t root p i) (hp : ¬p₁ ++ [n₁] <+: p) :
    OnlyAt (t.move d₁ n₁ d₂ n₂) root p i := by
  intro q hq
  rcases dirFrom_move hw h₁ h₂ hsrc hdst hne hq with ⟨s, rfl, hs⟩ | ⟨-, hq⟩
  · exact absurd ⟨s, by simp [← h _ hs]⟩ hp
  · exact h q hq

end Move

end IdTree

end NC
