import Mathlib.Data.List.Nodup

/-!
# Tokens with one place

A token is published in a shared variable, from which any holder may take it, and
is closed by the one that took it. `Places` says that each token that was ever
published is in one place, and so is closed at most once; taking, closing and
publishing keep it.
-/

namespace NC

open List Function

variable {ι τ : Type}

/-- Each token of `opened` is the shared one, taken by one holder, or closed once. -/
structure Places (opened : List τ) (fd : Option τ) (taken : ι → Option τ) (closed : List τ) :
    Prop where
  fd_opened : ∀ d, fd = some d → d ∈ opened
  taken_opened : ∀ p d, taken p = some d → d ∈ opened
  closed_opened : ∀ d ∈ closed, d ∈ opened
  fd_taken : ∀ p d, fd = some d → taken p ≠ some d
  fd_closed : ∀ d, fd = some d → d ∉ closed
  taken_closed : ∀ p d, taken p = some d → d ∉ closed
  taken_inj : ∀ p q d, taken p = some d → taken q = some d → p = q
  nodup : closed.Nodup
  all : ∀ d ∈ opened, fd = some d ∨ (∃ p, taken p = some d) ∨ d ∈ closed

variable {opened closed : List τ} {fd : Option τ} {taken : ι → Option τ} {d : τ} {p : ι}

/-- A new token is published. -/
theorem Places.publish (h : Places opened none taken closed) (hd : d ∉ opened) :
    Places (opened ++ [d]) (some d) taken closed := by
  have mem : ∀ d' ∈ opened, d' ∈ opened ++ [d] := fun d' => mem_append_left _
  refine ⟨fun d' e => ?_, fun q d' hq => mem d' (h.taken_opened q d' hq),
    fun d' hd' => mem d' (h.closed_opened d' hd'), fun q d' e hq => ?_, fun d' e hd' => ?_,
    h.taken_closed, h.taken_inj, h.nodup, fun d' hd' => ?_⟩
  · cases e
    exact mem_append_right _ (mem_singleton_self d)
  · cases e
    exact hd (h.taken_opened q d hq)
  · cases e
    exact hd (h.closed_opened d hd')
  · rcases mem_append.1 hd' with hd' | hd'
    · exact .inr ((h.all d' hd').resolve_left nofun)
    · rw [mem_singleton.1 hd']
      exact .inl rfl

variable [DecidableEq ι]

theorem update_eq_some {q : ι} {x : Option τ} (h : update taken p x q = some d) :
    (q = p ∧ x = some d) ∨ (q ≠ p ∧ taken q = some d) := by
  by_cases e : q = p
  · subst e
    rw [update_self] at h
    exact .inl ⟨rfl, h⟩
  · rw [update_of_ne e] at h
    exact .inr ⟨e, h⟩

/-- A holder takes the shared token. -/
theorem Places.take (h : Places opened fd taken closed) (hp : taken p = none) :
    Places opened none (update taken p fd) closed := by
  refine ⟨nofun, fun q d hq => ?_, h.closed_opened, nofun, nofun, fun q d hq => ?_,
    fun q r d hq hr => ?_, h.nodup, fun d hd => ?_⟩
  · rcases update_eq_some hq with ⟨-, e⟩ | ⟨-, e⟩
    · exact h.fd_opened d e
    · exact h.taken_opened q d e
  · rcases update_eq_some hq with ⟨-, e⟩ | ⟨-, e⟩
    · exact h.fd_closed d e
    · exact h.taken_closed q d e
  · rcases update_eq_some hq with ⟨rfl, e⟩ | ⟨hne, e⟩ <;>
      rcases update_eq_some hr with ⟨rfl, e'⟩ | ⟨hne', e'⟩
    · rfl
    · exact absurd e' (h.fd_taken r d e)
    · exact absurd e (h.fd_taken q d e')
    · exact h.taken_inj q r d e e'
  · right
    rcases h.all d hd with e | ⟨q, e⟩ | e
    · exact .inl ⟨p, by rw [update_self]; exact e⟩
    · have hne : q ≠ p := by
        rintro rfl
        rw [hp] at e
        cases e
      exact .inl ⟨q, by rw [update_of_ne hne]; exact e⟩
    · exact .inr e

/-- A holder closes what it took. -/
theorem Places.close (h : Places opened fd taken closed) (hp : taken p = some d) :
    Places opened fd (update taken p none) (closed ++ [d]) := by
  have fd_ne : fd ≠ some d := fun e => h.fd_taken p d e hp
  have other : ∀ q d', update taken p none q = some d' → taken q = some d' ∧ d' ≠ d := by
    intro q d' hq
    rcases update_eq_some hq with ⟨-, e⟩ | ⟨hne, e⟩
    · cases e
    · refine ⟨e, ?_⟩
      rintro rfl
      exact hne (h.taken_inj q p d' e hp)
  refine ⟨h.fd_opened, fun q d' hq => h.taken_opened q d' (other q d' hq).1, fun d' hd' => ?_,
    fun q d' e hq => h.fd_taken q d' e (other q d' hq).1, fun d' e hd' => ?_, fun q d' hq hd' => ?_,
    fun q r d' hq hr => h.taken_inj q r d' (other q d' hq).1 (other r d' hr).1, ?_, fun d' hd' => ?_⟩
  · rcases mem_append.1 hd' with hd' | hd'
    · exact h.closed_opened d' hd'
    · rw [mem_singleton.1 hd']
      exact h.taken_opened p d hp
  · rcases mem_append.1 hd' with hd' | hd'
    · exact h.fd_closed d' e hd'
    · exact fd_ne (mem_singleton.1 hd' ▸ e)
  · rcases mem_append.1 hd' with hd' | hd'
    · exact h.taken_closed q d' (other q d' hq).1 hd'
    · exact (other q d' hq).2 (mem_singleton.1 hd')
  · refine nodup_append.2 ⟨h.nodup, nodup_singleton d, fun x hx y hy e => ?_⟩
    rw [e, mem_singleton.1 hy] at hx
    exact h.taken_closed p d hp hx
  · rcases h.all d' hd' with e | ⟨q, e⟩ | e
    · exact .inl e
    · by_cases hq : q = p
      · rw [hq, hp] at e
        cases e
        exact .inr (.inr (mem_append_right _ (mem_singleton_self d)))
      · exact .inr (.inl ⟨q, by rw [update_of_ne hq]; exact e⟩)
    · exact .inr (.inr (mem_append_left _ e))

end NC
