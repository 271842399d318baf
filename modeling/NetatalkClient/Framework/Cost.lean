import NetatalkClient.Framework.Prog

/-!
# Running to the end, and how many requests that takes

`Prog.exec` runs a program against an environment that answers every request; a program is a finite
tree along each list of answers, so this always ends. What every run satisfies, that one does
(`exec_of_wp`).

`Prog.AtMost` bounds the requests of one kind that a program sends, whatever it is answered.
`AtMost.bind` adds the bounds of two parts, `Within.atMost` has those that send none, and
`AtMost.exec` is the bound on a run.
-/

namespace NC

namespace Prog

variable {σ R : Type} {A : R → Type} {α β V : Type} {p : Prog σ R A α}

/-- Run against an environment that answers every request. -/
def exec (serve : V → (r : R) → A r × V) : Prog σ R A α → σ → V → α × σ × V
  | ret a, s, v => (a, s, v)
  | atom f k, s, v => exec serve (k s) (f s) v
  | send r k, s, v => exec serve (k (serve v r).1) s (serve v r).2

/-- The same environment with nothing to choose. -/
def always (serve : V → (r : R) → A r × V) (v : V) (r : R) (_ : Unit) : Option (A r × V) :=
  some (serve v r)

theorem run_always (serve : V → (r : R) → A r × V) (p : Prog σ R A α) (s : σ) (v : V) :
    ∃ cs, run (always serve) p s v cs
      = some ((p.exec serve s v).1, (p.exec serve s v).2.1, (p.exec serve s v).2.2, []) := by
  induction p generalizing s v with
  | ret a => exact ⟨[], rfl⟩
  | atom f k ih => exact ih s (f s) v
  | send r k ih =>
    obtain ⟨cs, h⟩ := ih (serve v r).1 s (serve v r).2
    exact ⟨() :: cs, h⟩

variable {s : σ} {r : R} {m n : Nat}

theorem exec_of_wp {serve : V → (r : R) → A r × V} {v : V} {Q : α → σ → V → Prop}
    (h : Wp (always serve) p s v Q) :
    Q (p.exec serve s v).1 (p.exec serve s v).2.1 (p.exec serve s v).2.2 := by
  obtain ⟨cs, hrun⟩ := run_always serve p s v
  exact h cs _ _ _ _ hrun

theorem wp_always_request {serve : V → (r : R) → A r × V} {v : V} {Q : A r → σ → V → Prop} :
    Wp (always serve) (request r) s v Q ↔ Q (serve v r).1 s (serve v r).2 := by
  rw [request, wp_send]
  constructor
  · intro h
    exact wp_ret.1 (h () _ _ rfl)
  · intro h c a v' e
    rw [always, Option.some.injEq] at e
    rw [e] at h
    exact wp_ret.2 h

/-! ## Bounds -/

/-- Whatever the state and the answers, `p` sends at most `n` requests that are `counted`, and every
result satisfies `P`. -/
def AtMost (counted : R → Bool) (P : α → Prop) : Prog σ R A α → Nat → Prop
  | ret a, _ => P a
  | atom _ k, n => ∀ s, AtMost counted P (k s) n
  | send r k, n => (counted r).toNat ≤ n ∧ ∀ a, AtMost counted P (k a) (n - (counted r).toNat)

variable {counted : R → Bool} {P : α → Prop} {P' : β → Prop}

theorem AtMost.mono (h : p.AtMost counted P m) (hmn : m ≤ n) : p.AtMost counted P n := by
  induction p generalizing m n with
  | ret a => exact h
  | atom f k ih => exact fun s => ih s (h s) hmn
  | send r k ih => exact ⟨Nat.le_trans h.1 hmn, fun a => ih a (h.2 a) (Nat.sub_le_sub_right hmn _)⟩

theorem AtMost.uncounted {k : A r → Prog σ R A α} (hr : counted r = false)
    (hk : ∀ a, (k a).AtMost counted P n) : (send r k).AtMost counted P n := by
  rw [AtMost, hr]
  exact ⟨Nat.zero_le n, hk⟩

theorem AtMost.one {k : A r → Prog σ R A α} (hk : ∀ a, (k a).AtMost counted P n) :
    (send r k).AtMost counted P (n + 1) := by
  have hle : (counted r).toNat ≤ 1 := Bool.toNat_le _
  exact ⟨by omega, fun a => (hk a).mono (by omega)⟩

/-- The requests of a sequence add up. -/
theorem AtMost.bind {g : α → Prog σ R A β} (hp : p.AtMost counted P m)
    (hg : ∀ a, P a → (g a).AtMost counted P' n) : (p >>= g).AtMost counted P' (m + n) := by
  induction p generalizing m with
  | ret a => exact (hg a hp).mono (Nat.le_add_left n m)
  | atom f k ih => exact fun s => ih s (hp s)
  | send r k ih =>
    obtain ⟨hr, hk⟩ := hp
    refine ⟨by omega, fun a => ?_⟩
    rw [Nat.sub_add_comm hr]
    exact ih a (hk a)

theorem AtMost.ite {c : Prop} [Decidable c] {p q : Prog σ R A α} (hp : c → p.AtMost counted P n)
    (hq : ¬c → q.AtMost counted P n) : (if c then p else q).AtMost counted P n :=
  iteInduction (motive := (AtMost counted P · n)) hp hq

theorem Within.atMost (h : p.Within (counted · = false) P) : p.AtMost counted P 0 := by
  induction p with
  | ret a => exact h
  | atom f k ih => exact fun s => ih s (h s)
  | send r k ih =>
    obtain ⟨hr, hk⟩ := h
    exact .uncounted hr fun a => ih a (hk a)

/-- A run sends no more than the bound, by any count of what the environment was asked. -/
theorem AtMost.exec (h : p.AtMost counted P n) {serve : V → (r : R) → A r × V} {count : V → Nat}
    (hcount : ∀ v r, count (serve v r).2 = count v + (counted r).toNat) (s : σ) (v : V) :
    count (p.exec serve s v).2.2 ≤ count v + n := by
  induction p generalizing n s v with
  | ret a => exact Nat.le_add_right ..
  | atom f k ih => exact ih s (h s) (f s) v
  | send r k ih =>
    obtain ⟨hr, hk⟩ := h
    have hrest := ih (serve v r).1 (hk _) s (serve v r).2
    rw [hcount] at hrest
    rw [Prog.exec]
    omega

end Prog

end NC
