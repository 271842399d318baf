import Mathlib.Data.List.Basic

/-!
# Step machines

A machine is a partial step function: `step s a` is the state that the action
`a` leads to from `s`, or `none` where the action is not possible. `runSteps`
takes a list of actions one after the other.

`Along P` holds of a run when `P` holds in every state of it, and `OkRun ok`
when every step of it is taken as `ok` asks. `runSteps_invariant` carries an
invariant along a run whose steps are all ok, `OkRun.imp` has what it says of them, and
`along_iff_okRun` says that those are exactly the runs along which it holds, if a step that is not ok
breaks it.
-/

namespace NC

variable {σ α : Type} (step : σ → α → Option σ)

/-- The state after a list of actions. -/
def runSteps : σ → List α → Option σ
  | s, [] => some s
  | s, a :: as => (step s a).bind fun s' => runSteps s' as

/-- Every state of the run, the first and the last included, satisfies `P`. -/
def Along (P : σ → Prop) : σ → List α → Prop
  | s, [] => P s
  | s, a :: as => P s ∧ ∀ s', step s a = some s' → Along P s' as

/-- Every step of the run is taken as `ok` asks. -/
def OkRun (ok : σ → α → Prop) : σ → List α → Prop
  | _, [] => True
  | s, a :: as => ok s a ∧ ∀ s', step s a = some s' → OkRun ok s' as

instance OkRun.decidable {ok : σ → α → Prop} [∀ s a, Decidable (ok s a)] :
    ∀ s as, Decidable (OkRun step ok s as)
  | _, [] => .isTrue trivial
  | s, a :: as =>
    match h : step s a with
    | none => decidable_of_iff (ok s a) (by simp [OkRun, h])
    | some s' =>
      have : Decidable (OkRun step ok s' as) := OkRun.decidable s' as
      decidable_of_iff (ok s a ∧ OkRun step ok s' as) (by simp [OkRun, h])

variable {step} {I : σ → Prop} {ok : σ → α → Prop} {s s' : σ} {as : List α}

theorem runSteps_cons {a : α} : runSteps step s (a :: as) = some s' ↔
    ∃ t, step s a = some t ∧ runSteps step t as = some s' := by
  rw [runSteps, Option.bind_eq_some_iff]

theorem runSteps_append {bs : List α} : runSteps step s (as ++ bs) = some s' ↔
    ∃ t, runSteps step s as = some t ∧ runSteps step t bs = some s' := by
  induction as generalizing s with
  | nil => simp [runSteps]
  | cons a as ih =>
    rw [List.cons_append, runSteps_cons]
    simp only [ih, runSteps_cons]
    constructor
    · rintro ⟨t, h, u, hu, hb⟩
      exact ⟨u, ⟨t, h, hu⟩, hb⟩
    · rintro ⟨u, ⟨t, h, hu⟩, hb⟩
      exact ⟨t, h, u, hu, hb⟩

theorem OkRun.cons {a : α} (hok : ok s a) (hstep : step s a = some s') (h : OkRun step ok s' as) :
    OkRun step ok s (a :: as) := by
  refine ⟨hok, fun t ht => ?_⟩
  rw [Option.some.inj (ht.symm.trans hstep)]
  exact h

/-- What a step that is ok preserves holds after every run of such steps. -/
theorem runSteps_invariant (hI : ∀ s a s', step s a = some s' → ok s a → I s → I s')
    (hs : I s) (hok : OkRun step ok s as) (h : runSteps step s as = some s') : I s' := by
  induction as generalizing s with
  | nil => cases h; exact hs
  | cons a as ih =>
    obtain ⟨t, ht, h⟩ := runSteps_cons.1 h
    exact ih (hI s a t ht hok.1 hs) (hok.2 t ht) h

/-- With what steps that are ok preserve, such steps are all `ok'`. -/
theorem OkRun.imp {ok' : σ → α → Prop} (hI : ∀ s a s', step s a = some s' → ok s a → I s → I s')
    (himp : ∀ s a, ok s a → I s → ok' s a) (hs : I s) (h : OkRun step ok s as) :
    OkRun step ok' s as := by
  induction as generalizing s with
  | nil => trivial
  | cons a as ih => exact ⟨himp s a h.1 hs, fun t ht => ih (hI s a t ht h.1 hs) (h.2 t ht)⟩

/-- What every step preserves holds after every run. -/
theorem runSteps_always (hI : ∀ s a s', step s a = some s' → I s → I s')
    (hs : I s) (h : runSteps step s as = some s') : I s' := by
  induction as generalizing s with
  | nil => cases h; exact hs
  | cons a as ih =>
    obtain ⟨t, ht, h⟩ := runSteps_cons.1 h
    exact ih (hI s a t ht hs) h

/-- What follows from what every step preserves holds along every run. -/
theorem along_of_invariant {P : σ → Prop} (hI : ∀ s a s', step s a = some s' → I s → I s')
    (hP : ∀ s, I s → P s) (hs : I s) : Along step P s as := by
  induction as generalizing s with
  | nil => exact hP s hs
  | cons a as ih => exact ⟨hP s hs, fun s' h => ih (hI s a s' h hs)⟩

/-- If from every state of `M` some step ends in `t` or lowers `μ` within `M`, then
`t` is reached. -/
theorem exists_runSteps {M : σ → Prop} {t : σ} (μ : σ → Nat)
    (hM : ∀ m, M m → ∃ a m', step m a = some m' ∧ (m' = t ∨ M m' ∧ μ m' < μ m)) (hs : M s) :
    ∃ as, runSteps step s as = some t := by
  induction hn : μ s using Nat.strongRecOn generalizing s with
  | ind n ih =>
    obtain ⟨a, m, hstep, rfl | ⟨hm, hlt⟩⟩ := hM s hs
    · exact ⟨[a], runSteps_cons.2 ⟨m, hstep, rfl⟩⟩
    · obtain ⟨as, h⟩ := ih (μ m) (hn ▸ hlt) hm rfl
      exact ⟨a :: as, runSteps_cons.2 ⟨m, hstep, h⟩⟩

/-- If a step keeps `I` exactly when it is ok, then `I` holds along a run exactly
when all its steps are ok. -/
theorem along_iff_okRun (hI : ∀ s a s', step s a = some s' → I s → (I s' ↔ ok s a))
    (hs : I s) (h : runSteps step s as = some s') : Along step I s as ↔ OkRun step ok s as := by
  induction as generalizing s with
  | nil => exact iff_of_true hs trivial
  | cons a as ih =>
    obtain ⟨t, ht, h⟩ := runSteps_cons.1 h
    constructor
    · rintro ⟨-, hrest⟩
      have ht' : I t := by
        have := hrest t ht
        cases as with
        | nil => exact this
        | cons b bs => exact this.1
      refine ⟨(hI s a t ht hs).1 ht', fun u hu => ?_⟩
      obtain rfl : t = u := Option.some.inj (ht.symm.trans hu)
      exact (ih ht' h).1 (hrest t ht)
    · rintro ⟨hok, hrest⟩
      have ht' : I t := (hI s a t ht hs).2 hok
      refine ⟨hs, fun u hu => ?_⟩
      obtain rfl : t = u := Option.some.inj (ht.symm.trans hu)
      exact (ih ht' h).2 (hrest t ht)

end NC
