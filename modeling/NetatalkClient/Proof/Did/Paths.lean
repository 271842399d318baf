import NetatalkClient.Model.Did
import Mathlib.Data.List.DropRight

/-!
# Paths and their components

The bytes of a path against the list of its components: `joinPath` writes the
path of a list of names. `walkComponents_join` is the list that `get_dirid`
walks, from the directory whose path it knows on. `forgets_iff` is what the cache drops with a
path, in terms of it without its trailing slashes (`bare`) and of what stands before the names
beneath it (`stem`, which is empty for the root).
-/

namespace NC

open List

/-- A name that can stand between two slashes. -/
def IsName (n : Name) : Prop := n ≠ [] ∧ slash ∉ n

instance (n : Name) : Decidable (IsName n) := inferInstanceAs (Decidable (_ ∧ _))

/-- The absolute path of a list of names, without a trailing slash. -/
def joinPath (ns : List Name) : Path := ns.flatMap (slash :: ·)

@[simp] theorem joinPath_nil : joinPath [] = [] := rfl

@[simp] theorem joinPath_cons (n : Name) (ns : List Name) :
    joinPath (n :: ns) = slash :: (n ++ joinPath ns) := by
  simp [joinPath]

theorem joinPath_append (ns ms : List Name) : joinPath (ns ++ ms) = joinPath ns ++ joinPath ms := by
  simp [joinPath]

theorem splitLast_of_not_mem {n : Name} (hn : slash ∉ n) : splitLast n = none := by
  induction n with
  | nil => rfl
  | cons c cs ih =>
    simp only [mem_cons, not_or] at hn
    simp [splitLast, ih hn.2, Ne.symm hn.1]

theorem splitLast_append {n : Name} (hn : slash ∉ n) (p : Path) :
    splitLast (p ++ slash :: n) = some (p, n) := by
  induction p with
  | nil => simp [splitLast, splitLast_of_not_mem hn]
  | cons c cs ih => simp [splitLast, ih]

theorem splitLast_join {n : Name} (hn : IsName n) (ns : List Name) :
    splitLast (joinPath (ns ++ [n])) = some (joinPath ns, n) := by
  rw [joinPath_append, joinPath_cons, joinPath_nil, append_nil, splitLast_append hn.2]

theorem joinPath_inj {ns ms : List Name} (hns : ∀ n ∈ ns, IsName n) (hms : ∀ m ∈ ms, IsName m)
    (h : joinPath ns = joinPath ms) : ns = ms := by
  induction ns using List.reverseRecOn generalizing ms with
  | nil =>
    cases ms with
    | nil => rfl
    | cons m ms => simp at h
  | append_singleton ns n ih =>
    induction ms using List.reverseRecOn with
    | nil => simp [joinPath_append] at h
    | append_singleton ms m _ =>
      have hs := congrArg splitLast h
      rw [splitLast_join (hns n (by simp)), splitLast_join (hms m (by simp)), Option.some.injEq,
        Prod.mk.injEq] at hs
      rw [ih (fun n hn => hns n (by simp [hn])) (fun m hm => hms m (by simp [hm])) hs.1, hs.2]

/-- The names of a walk from the folder of path `pre`, each with the path up to it. -/
def withParents (pre : List Name) : List Name → List (Name × Path)
  | [] => []
  | m :: ms => (m, joinPath (pre ++ [m])) :: withParents (pre ++ [m]) ms

theorem componentsFrom_of_not_mem {n : Name} (hn : slash ∉ n) (pre cur : Path) :
    componentsFrom pre cur n = [] := by
  induction n generalizing cur with
  | nil => rfl
  | cons c cs ih =>
    simp only [mem_cons, not_or] at hn
    rw [componentsFrom, if_neg (Ne.symm hn.1), ih hn.2]

theorem componentsFrom_append {n : Name} (hn : slash ∉ n) (pre cur rest : Path) :
    componentsFrom pre cur (n ++ slash :: rest) =
      (cur ++ n, pre ++ (cur ++ n)) :: componentsFrom (pre ++ (cur ++ n) ++ [slash]) [] rest := by
  induction n generalizing cur with
  | nil => simp [componentsFrom]
  | cons c cs ih =>
    simp only [mem_cons, not_or] at hn
    rw [cons_append, componentsFrom, if_neg (Ne.symm hn.1), ih hn.2]
    simp

variable {mid : List Name}

theorem componentsFrom_join {last : Name} (hm : ∀ m ∈ mid, IsName m) (hl : slash ∉ last)
    (pre : List Name) :
    componentsFrom (joinPath pre ++ [slash]) [] (joinPath mid ++ slash :: last).tail =
      withParents pre mid := by
  induction mid generalizing pre with
  | nil => exact componentsFrom_of_not_mem hl _ _
  | cons m ms ih =>
    have htail : joinPath ms ++ slash :: last = slash :: (joinPath ms ++ slash :: last).tail := by
      cases ms <;> simp
    have hpre : joinPath pre ++ [slash] ++ m = joinPath (pre ++ [m]) := by
      simp [joinPath_append]
    rw [joinPath_cons, cons_append, tail_cons, append_assoc, htail,
      componentsFrom_append (hm m (by simp)).2, withParents, ← ih fun m hm' => hm m (by simp [hm'])]
    simp [← hpre]

/-- The length by which `get_dirid` knows a directory: the root's path is one slash. -/
def knownLength (pre : List Name) : Nat := if pre = [] then 1 else (joinPath pre).length

theorem knownLength_gt {pre : List Name} (hne : pre ≠ []) (hnames : ∀ n ∈ pre, IsName n) :
    1 < knownLength pre := by
  obtain ⟨m, ms, rfl⟩ := exists_cons_of_ne_nil hne
  have hpos := length_pos_iff.2 (hnames m (by simp)).1
  rw [knownLength, if_neg hne, joinPath_cons, length_cons, length_append]
  omega

theorem walkComponents_join {last : Name} (hm : ∀ m ∈ mid, IsName m) (hne : mid ≠ [])
    (hl : slash ∉ last) (pre : List Name) :
    walkComponents (joinPath (pre ++ mid) ++ slash :: last) (knownLength pre) =
      withParents pre mid := by
  rw [← componentsFrom_join hm hl pre, joinPath_append, append_assoc]
  have hmid : joinPath mid ++ slash :: last = slash :: (joinPath mid ++ slash :: last).tail := by
    cases mid <;> simp
  unfold walkComponents knownLength
  split_ifs with hpre
  · -- beneath the root the walk starts at the first name, which is no slash
    subst hpre
    have hfirst : ∃ c cs, (joinPath mid ++ slash :: last).tail = c :: cs ∧ c ≠ slash := by
      obtain ⟨m, ms, rfl⟩ := exists_cons_of_ne_nil hne
      obtain ⟨hnil, hns⟩ := hm m (by simp)
      obtain ⟨c, cs, rfl⟩ := exists_cons_of_ne_nil hnil
      simp only [mem_cons, not_or] at hns
      exact ⟨c, cs ++ (joinPath ms ++ slash :: last), by simp, Ne.symm hns.1⟩
    obtain ⟨c, cs, hcs, hc⟩ := hfirst
    rw [hmid, hcs]
    simp [hc]
  · rw [drop_left, hmid]
    simp

theorem length_le_joinPath (ns : List Name) : ns.length ≤ (joinPath ns).length := by
  induction ns with
  | nil => simp
  | cons n ns ih =>
    simp only [length_cons, joinPath_cons, length_append]
    omega

/-! ## What the cache forgets -/

/-- A path without its trailing slashes; nothing is left of the root. -/
def stem (p : Path) : Path := p.rdropWhile (· == slash)

/-- A path without its trailing slashes, the root's being a slash. -/
def bare (p : Path) : Path := if stem p = [] then [slash] else stem p

/-- `d` is the path, or beneath it at a component boundary. -/
def AtOrBeneath (p d : Path) : Prop := d = bare p ∨ ∃ r, d = stem p ++ slash :: r

/-- The path is beneath `d`. -/
def Above (p d : Path) : Prop := ∃ r, bare p = d ++ slash :: r

theorem exists_eq_append_cons {α : Type} {x d : List α} {c : α} :
    (∃ r, d = x ++ c :: r) ↔ d.take x.length = x ∧ d[x.length]? = some c := by
  constructor
  · rintro ⟨r, rfl⟩
    simp
  · rintro ⟨htake, hget⟩
    obtain ⟨hlt, rfl⟩ := List.getElem?_eq_some_iff.1 hget
    have hsplit := take_append_drop x.length d
    rw [htake, drop_eq_getElem_cons hlt] at hsplit
    exact ⟨_, hsplit.symm⟩

theorem stem_isPrefix (p : Path) : stem p <+: p := rdropWhile_prefix _ p

theorem take_stem (p : Path) : p.take (stem p).length = stem p :=
  (prefix_iff_eq_take.1 (stem_isPrefix p)).symm

section Paths

variable {p d : Path} (hp : p.head? = some slash)

include hp

theorem take_bare : p.take (bare p).length = bare p := by
  unfold bare
  split
  · cases p with
    | nil => cases hp
    | cons c p => simpa using hp
  · exact take_stem p

/-- What is left without trailing slashes does not end in one, so it is no slash alone. -/
theorem length_stem_ne_one : (stem p).length ≠ 1 := by
  intro h
  obtain ⟨c, hc⟩ := length_eq_one_iff.1 h
  obtain ⟨rest, hrest⟩ := stem_isPrefix p
  have hlast : ¬(c == slash) = true := by
    have := rdropWhile_last_not (· == slash) p (hc ▸ cons_ne_nil c [] : stem p ≠ [])
    simpa [show p.rdropWhile (· == slash) = [c] from hc] using this
  rw [← hrest, hc] at hp
  exact hlast (beq_iff_eq.2 (Option.some.inj hp))

theorem didPathLength_eq : didPathLength p = (bare p).length ∧
    didSeparator (bare p).length = (stem p).length := by
  have hlen : (p.reverse.dropWhile (· == slash)).length = (stem p).length := length_reverse.symm
  have hpos : 1 ≤ p.length := length_pos_iff.2 fun h => by simp [h] at hp
  have hone := length_stem_ne_one hp
  unfold didPathLength bare didSeparator
  rw [hlen]
  by_cases hs : stem p = []
  · simp [hs, hpos]
  · obtain ⟨n, hn⟩ := Nat.exists_eq_succ_of_ne_zero (mt length_eq_zero_iff.1 hs)
    rw [if_neg hs, hn]
    rw [hn] at hone
    exact ⟨rfl, if_neg hone⟩

theorem forgets_iff (ancestors : Bool) :
    forgets p ancestors d = true ↔ AtOrBeneath p d ∨ ancestors = true ∧ Above p d := by
  obtain ⟨hlen, hsep⟩ := didPathLength_eq hp
  simp only [forgets, AtOrBeneath, Above, hlen, hsep]
  by_cases hs : stem p = []
  · obtain ⟨q, rfl⟩ : ∃ q, p = slash :: q := by
      cases p with
      | nil => cases hp
      | cons c q => exact ⟨q, by rw [Option.some.inj hp]⟩
    simp only [bare, hs]
    cases d with
    | nil => simp
    | cons c d => by_cases hc : c = slash <;> cases d <;> simp
  · obtain ⟨rest, hrest⟩ := stem_isPrefix p
    rw [bare, if_neg hs, exists_eq_append_cons, exists_eq_append_cons]
    generalize stem p = x at hrest
    rw [← hrest]
    rcases Nat.lt_trichotomy d.length x.length with hlt | heq | hgt
    · have hne : d ≠ x := fun e => by simp [e] at hlt
      grind
    · have htake : d.take x.length = d := heq ▸ take_length
      rw [heq, Nat.min_self, htake, take_left]
      simp [heq]
    · have hne : d ≠ x := fun e => by simp [e] at hgt
      have hlong : x.take d.length ≠ d := by rwa [take_of_length_le hgt.le, ne_comm]
      rw [Nat.min_eq_right hgt.le, take_left]
      simp [hne, hgt, hgt.ne', hgt.not_gt]

end Paths

section Join

variable {ns rest : List Name} {n : Name} (hn : IsName n)

include hn

theorem stem_join : stem (joinPath (ns ++ [n])) = joinPath (ns ++ [n]) := by
  rw [stem, rdropWhile_eq_self_iff]
  intro hne hlast
  have hsplit : joinPath (ns ++ [n]) = (joinPath ns ++ [slash]) ++ n := by simp [joinPath_append]
  simp only [hsplit, getLast_append_of_ne_nil _ hn.1, beq_iff_eq] at hlast
  exact hn.2 (hlast ▸ getLast_mem hn.1)

/-- A path that ends in a name is forgotten with all beneath it. -/
theorem forgets_join (ancestors : Bool) {d : Path}
    (h : d = joinPath (ns ++ [n]) ∨ ∃ r, d = joinPath (ns ++ [n]) ++ slash :: r) :
    forgets (joinPath (ns ++ [n])) ancestors d = true := by
  have hhead : (joinPath (ns ++ [n])).head? = some slash := by cases ns <;> simp
  have hne : joinPath (ns ++ [n]) ≠ [] := fun h => by simp [h] at hhead
  refine (forgets_iff hhead ancestors).2 (.inl ?_)
  rwa [AtOrBeneath, bare, stem_join hn, if_neg hne]

theorem forgets_beneath (ancestors : Bool) :
    forgets (joinPath (ns ++ [n])) ancestors (joinPath (ns ++ [n] ++ rest)) = true := by
  refine forgets_join hn ancestors ?_
  rw [joinPath_append (ns ++ [n])]
  cases rest with
  | nil => exact .inl (append_nil _)
  | cons m ms => exact .inr ⟨m ++ joinPath ms, by simp⟩

end Join

end NC
