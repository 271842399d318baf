import NetatalkClient.Framework.Prog
import NetatalkClient.Framework.Machine
import Mathlib.Algebra.Order.Group.Multiset
import Mathlib.Algebra.BigOperators.Group.List.Basic

/-!
# Pools of threads

A `Pool` is a list of programs over one shared state and one environment. A step runs one
thread by one atom or one exchange (`Pool.step`), which may start further threads, or
starts a new thread of some task, so that a list of steps is one interleaving.

A `Discipline` says which tokens a thread needs for an exchange and which it has after
it, and `Discipline.Uses` that a program keeps to it, whatever the answers, with rules for
sequencing. `Pool.Owned.step` carries an invariant of the environment and all threads'
tokens along a step, if every exchange that a thread has the tokens for keeps it.

`Prog.Amid` is for a thread whose own steps keep an invariant of the shared state that the
others keep too: whatever it reads between two of its steps is in the invariant.
-/

namespace NC

open List

/-- Programs that run interleaved. -/
structure Pool (σ V R : Type) (A : R → Type) (α : Type) where
  state : σ
  env : V
  threads : List (Prog σ R A α)

/-- A new thread, or a step of one: `c` is the environment's choice. -/
inductive PoolStep (T C : Type) where
  | start (t : T)
  | run (i : Nat) (c : C)

namespace Pool

variable {σ V R : Type} {A : R → Type} {α T C : Type}
  (serve : V → (r : R) → C → Option (A r × V)) (spawns : R → List (Prog σ R A α))
  (task : T → Prog σ R A α)

/-- One step of the pool. -/
def step (p : Pool σ V R A α) : PoolStep T C → Option (Pool σ V R A α)
  | .start t => some { p with threads := p.threads ++ [task t] }
  | .run i c =>
    match p.threads[i]? with
    | some (.atom f k) =>
      some { p with state := f p.state, threads := p.threads.set i (k p.state) }
    | some (.send r k) =>
      (serve p.env r c).map fun (a, env) =>
        { p with env := env, threads := p.threads.set i (k a) ++ spawns r }
    | _ => none

/-- The exchange that a step makes, if it makes one, is as `ok` asks. -/
def StepOk (ok : V → R → Prop) (p : Pool σ V R A α) : PoolStep T C → Prop
  | .start _ => True
  | .run i _ => ∀ r k, p.threads[i]? = some (.send r k) → ok p.env r

instance {ok : V → R → Prop} [∀ v r, Decidable (ok v r)] (p : Pool σ V R A α) :
    ∀ x : PoolStep T C, Decidable (p.StepOk ok x)
  | .start _ => .isTrue trivial
  | .run i _ =>
    match h : p.threads[i]? with
    | some (.send r k) => decidable_of_iff (ok p.env r) <| by
      constructor
      · intro hr r' k' h'
        cases h.symm.trans h'
        exact hr
      · exact fun hr => hr r k h
    | some (.ret a) => .isTrue (by simp [StepOk, h])
    | some (.atom f k) => .isTrue (by simp [StepOk, h])
    | none => .isTrue (by simp [StepOk, h])

variable {serve spawns task} {p p' : Pool σ V R A α}

/-- A step starts a thread, or takes one a step further. -/
theorem step_cases {x : PoolStep T C} (h : step serve spawns task p x = some p') :
    (∃ t, x = .start t ∧ p' = { p with threads := p.threads ++ [task t] }) ∨
    (∃ i c f k, x = .run i c ∧ p.threads[i]? = some (.atom f k) ∧
      p' = { p with state := f p.state, threads := p.threads.set i (k p.state) }) ∨
    (∃ i c r k a env, x = .run i c ∧ p.threads[i]? = some (.send r k) ∧
      serve p.env r c = some (a, env) ∧
      p' = { p with env := env, threads := p.threads.set i (k a) ++ spawns r }) := by
  cases x with
  | start t => exact .inl ⟨t, rfl, (Option.some.inj h).symm⟩
  | run i c =>
    simp only [step] at h
    split at h
    · next f k hi => exact .inr (.inl ⟨i, c, f, k, rfl, hi, (Option.some.inj h).symm⟩)
    · next r k hi =>
      obtain ⟨⟨a, env⟩, he, rfl⟩ := Option.map_eq_some_iff.1 h
      exact .inr (.inr ⟨i, c, r, k, a, env, rfl, hi, he, rfl⟩)
    · cases h

end Pool

/-! ## Tokens -/

/-- The tokens that an exchange needs of a thread, and those the thread has after it.
`possible` says which answers a thread with the tokens can get. -/
structure Discipline (R : Type) (A : R → Type) (τ : Type) where
  needs : R → Multiset τ → Prop
  possible : (r : R) → A r → Multiset τ → Prop
  after : (r : R) → A r → Multiset τ → Multiset τ

namespace Discipline

variable {σ R : Type} {A : R → Type} {α β τ : Type} (D : Discipline R A τ)

/-- With the tokens `own`, the program has what each of its exchanges needs, and it ends
with a result and tokens in `Q`. -/
def Uses : Multiset τ → Prog σ R A α → (α → Multiset τ → Prop) → Prop
  | own, .ret a, Q => Q a own
  | own, .atom _ k, Q => ∀ s, Uses own (k s) Q
  | own, .send r k, Q => D.needs r own ∧ ∀ a, D.possible r a own → Uses (D.after r a own) (k a) Q

/-- The program ends with the tokens that it began with. -/
def Restores (own : Multiset τ) (p : Prog σ R A α) : Prop := D.Uses own p fun _ own' => own' = own

variable {D} {own : Multiset τ} {Q : α → Multiset τ → Prop} {p : Prog σ R A α}
  {g : α → Prog σ R A β}

theorem Uses.bind {Q' : β → Multiset τ → Prop}
    (hp : D.Uses own p Q) (hg : ∀ a own', Q a own' → D.Uses own' (g a) Q') :
    D.Uses own (p >>= g) Q' := by
  induction p generalizing own with
  | ret a => exact hg a own hp
  | atom f k ih => exact fun s => ih s (hp s)
  | send r k ih => exact ⟨hp.1, fun a ha => ih a (hp.2 a ha)⟩

theorem Uses.mono {Q' : α → Multiset τ → Prop} (hp : D.Uses own p Q)
    (hQ : ∀ a own', Q a own' → Q' a own') : D.Uses own p Q' :=
  Prog.bind_ret p ▸ hp.bind hQ

theorem Uses.ite {c : Prop} [Decidable c] {p q : Prog σ R A α} (hp : c → D.Uses own p Q)
    (hq : ¬c → D.Uses own q Q) : D.Uses own (if c then p else q) Q :=
  iteInduction (motive := (D.Uses own · Q)) hp hq

theorem Restores.ret (a : α) : D.Restores own (.ret a : Prog σ R A α) := rfl

theorem Restores.bind (hp : D.Restores own p)
    (hg : ∀ a, D.Restores own (g a)) : D.Restores own (p >>= g) :=
  Uses.bind hp fun a _ h => h ▸ hg a

theorem Restores.ite {c : Prop} [Decidable c] {p q : Prog σ R A α} (hp : c → D.Restores own p)
    (hq : ¬c → D.Restores own q) : D.Restores own (if c then p else q) :=
  Uses.ite hp hq

theorem Restores.guard {c : Prop} [Decidable c] {a : α}
    (hp : ¬c → D.Restores own p) : D.Restores own (if c then Prog.ret a else p) :=
  .ite (fun _ => .ret a) hp

theorem Restores.when {c : Prop} [Decidable c] {a : α}
    (hp : c → D.Restores own p) : D.Restores own (if c then p else Prog.ret a) :=
  .ite hp fun _ => .ret a

theorem Restores.done {f : α → β} (hp : D.Restores own p) :
    D.Restores own (p >>= fun a => .ret (f a)) :=
  hp.bind fun a => .ret (f a)

/-- After a program that restores its tokens, the rest goes on with them. -/
theorem Restores.next {Q' : β → Multiset τ → Prop}
    (hp : D.Restores own p) (hg : ∀ a, D.Uses own (g a) Q') : D.Uses own (p >>= g) Q' :=
  .bind hp fun a _ h => h ▸ hg a

end Discipline

/-! ## The tokens of a pool -/

variable {i : Nat}

namespace Pool

variable {σ V R : Type} {A : R → Type} {α τ T C : Type}

/-- With the tokens `x.1` the thread `x.2` keeps to the discipline, and it ends with
none. -/
def Keeping (D : Discipline R A τ) (x : Multiset τ × Prog σ R A α) : Prop :=
  D.Uses x.1 x.2 fun _ own => own = 0

/-- The threads keep to the discipline with tokens of their own, which together satisfy
`I`. -/
def Owned (D : Discipline R A τ) (I : V → Multiset τ → Prop) (p : Pool σ V R A α) : Prop :=
  ∃ l : List (Multiset τ × Prog σ R A α), l.map Prod.snd = p.threads ∧
    (∀ x ∈ l, Keeping D x) ∧ I p.env (l.map Prod.fst).sum

variable {l : List (Multiset τ × Prog σ R A α)}

theorem sum_set {x : Multiset τ × Prog σ R A α} (h : l[i]? = some x) :
    ∃ rest, (l.map Prod.fst).sum = x.1 + rest ∧
      ∀ y, ((l.set i y).map Prod.fst).sum = y.1 + rest := by
  induction l generalizing i with
  | nil => cases h
  | cons z l ih =>
    cases i with
    | zero =>
      cases h
      exact ⟨(l.map Prod.fst).sum, by simp, fun y => by simp⟩
    | succ i =>
      obtain ⟨rest, hx, hy⟩ := ih h
      refine ⟨z.1 + rest, ?_, fun y => ?_⟩
      · simp only [map_cons, sum_cons, hx]
        exact add_left_comm ..
      · simp only [set_cons_succ, map_cons, sum_cons, hy]
        exact add_left_comm ..

theorem keeping_set {D : Discipline R A τ} {y : Multiset τ × Prog σ R A α}
    (hl : ∀ x ∈ l, Keeping D x) (hy : Keeping D y) : ∀ x ∈ l.set i y, Keeping D x := by
  intro x hx
  obtain h | rfl := mem_or_eq_of_mem_set hx
  · exact hl x h
  · exact hy

variable {serve : V → (r : R) → C → Option (A r × V)} {spawns : R → List (Prog σ R A α)}
  {task : T → Prog σ R A α} {D : Discipline R A τ} {I : V → Multiset τ → Prop}
  {ok : V → R → Prop} {p p' : Pool σ V R A α} {x : PoolStep T C}

/-- One step of threads that keep to the discipline, if an exchange keeps `I` of the tokens
of its thread and of all others, those of the threads that it starts included. -/
theorem Owned.step (htask : ∀ t, Keeping D (0, task t))
    (hserve : ∀ v r c a v' own rest, serve v r c = some (a, v') → ok v r → D.needs r own →
      I v (own + rest) → D.possible r a own ∧ ∃ new : List (Multiset τ × Prog σ R A α),
        new.map Prod.snd = spawns r ∧ (∀ y ∈ new, Keeping D y) ∧
        I v' (D.after r a own + rest + (new.map Prod.fst).sum))
    (h : p.Owned D I) (hok : p.StepOk ok x) (hstep : Pool.step serve spawns task p x = some p') :
    p'.Owned D I := by
  obtain ⟨l, hl, hkeep, hI⟩ := h
  obtain ⟨t, rfl, rfl⟩ | ⟨i, c, f, k, rfl, hi, rfl⟩ | ⟨i, c, r, k, a, env, rfl, hi, he, rfl⟩ :=
    step_cases hstep
  · refine ⟨l ++ [(0, task t)], by simp [hl], fun y hy => ?_, by simpa using hI⟩
    obtain hy | hy := mem_append.1 hy
    · exact hkeep y hy
    · rw [mem_singleton.1 hy]
      exact htask t
  · rw [← hl, getElem?_map, Option.map_eq_some_iff] at hi
    obtain ⟨⟨own, th⟩, hi, rfl⟩ := hi
    have hth : Keeping D (own, Prog.atom f k) := hkeep _ (mem_of_getElem? hi)
    obtain ⟨rest, hx, hy⟩ := sum_set hi
    refine ⟨l.set i (own, k p.state), by rw [map_set, hl], keeping_set hkeep (hth p.state), ?_⟩
    rw [hy, ← hx]
    exact hI
  · rw [← hl, getElem?_map, Option.map_eq_some_iff] at hi
    obtain ⟨⟨own, th⟩, hli, rfl⟩ := hi
    have hth : Keeping D (own, Prog.send r k) := hkeep _ (mem_of_getElem? hli)
    obtain ⟨rest, hx, hy⟩ := sum_set hli
    rw [hx] at hI
    have hr : ok p.env r := hok r k (by rw [← hl, getElem?_map, hli]; rfl)
    obtain ⟨hposs, new, hnew, hkn, hI'⟩ := hserve _ _ _ _ _ _ _ he hr hth.1 hI
    have hnext : Keeping D (D.after r a own, k a) := hth.2 a hposs
    refine ⟨l.set i (D.after r a own, k a) ++ new, by rw [map_append, map_set, hl, hnew],
      fun y hy => ?_, ?_⟩
    · obtain hy | hy := mem_append.1 hy
      · exact keeping_set hkeep hnext y hy
      · exact hkn y hy
    · rw [map_append, sum_append, hy]
      exact hI'

/-- Once all threads have ended, nothing is owned. -/
theorem Owned.ended (h : p.Owned D I) (he : ∀ th ∈ p.threads, ∃ a, th = .ret a) : I p.env 0 := by
  obtain ⟨l, hl, hkeep, hI⟩ := h
  have hzero : ∀ x ∈ l, x.1 = 0 := by
    intro x hx
    obtain ⟨a, ha⟩ := he x.2 (hl ▸ mem_map_of_mem hx)
    have hk := hkeep x hx
    rw [Keeping, ha] at hk
    exact hk
  have hsum : (l.map Prod.fst).sum = 0 := by
    refine sum_eq_zero fun y hy => ?_
    obtain ⟨x, hx, rfl⟩ := mem_map.1 hy
    exact hzero x hx
  exact hsum ▸ hI

end Pool

/-! ## A thread amid others -/

namespace Prog

variable {σ R W : Type} {A : R → Type} {α β : Type}

/-- From whatever states with `I` the steps of `p` are taken, they keep `I`, its requests are
`ok`, and its result is in `P`. What is known grows with the answers: where `w` is known, `a` is an
answer after which `w'` is, if `ans w r a w'`. -/
def Amid (I : W → σ → Prop) (ok : R → Prop) (ans : W → (r : R) → A r → W → Prop) (P : W → α → Prop) :
    Prog σ R A α → W → Prop
  | ret a, w => P w a
  | atom f k, w => ∀ s, I w s → I w (f s) ∧ Amid I ok ans P (k s) w
  | send r k, w => ok r ∧ ∀ a w', ans w r a w' → Amid I ok ans P (k a) w'

variable {I : W → σ → Prop} {ok : R → Prop} {ans : W → (r : R) → A r → W → Prop} {P : W → α → Prop}
  {w : W}

theorem Amid.bind {P' : W → β → Prop} {p : Prog σ R A α} {g : α → Prog σ R A β}
    (hp : p.Amid I ok ans P w) (hg : ∀ w a, P w a → (g a).Amid I ok ans P' w) :
    (p >>= g).Amid I ok ans P' w := by
  induction p generalizing w with
  | ret a => exact hg w a hp
  | atom f k ih => exact fun s hs => ⟨(hp s hs).1, ih s (hp s hs).2⟩
  | send r k ih => exact ⟨hp.1, fun a w' ha => ih a (hp.2 a w' ha)⟩

theorem Amid.mono {P' : W → α → Prop} {p : Prog σ R A α} (hp : p.Amid I ok ans P w)
    (hP : ∀ w a, P w a → P' w a) : p.Amid I ok ans P' w :=
  bind_ret p ▸ hp.bind hP

theorem Amid.ite {c : Prop} [Decidable c] {p q : Prog σ R A α} (hp : c → p.Amid I ok ans P w)
    (hq : ¬c → q.Amid I ok ans P w) : (if c then p else q).Amid I ok ans P w :=
  iteInduction (motive := (Amid I ok ans P · w)) hp hq

theorem Amid.modifyGet {f : σ → α × σ} (h : ∀ s, I w s → I w (f s).2 ∧ P w (f s).1) :
    (modifyGet f : Prog σ R A α).Amid I ok ans P w :=
  h

theorem Amid.modify {f : σ → σ} {P : W → Unit → Prop} (h : ∀ s, I w s → I w (f s)) (hP : P w ()) :
    (modify f : Prog σ R A Unit).Amid I ok ans P w :=
  fun s hs => ⟨h s hs, hP⟩

/-- Alone, with an environment whose answers to what is `ok` are allowed while `J` holds. -/
theorem Amid.wp {C : Type} {serve : W → (r : R) → C → Option (A r × W)} {J : W → Prop}
    {p : Prog σ R A α} {s : σ} (hp : p.Amid I ok ans P w)
    (hserve : ∀ {w r c a w'}, J w → ok r → serve w r c = some (a, w') →
      J w' ∧ ans w r a w' ∧ ∀ s, I w s → I w' s) (hJ : J w) (hI : I w s) :
    Wp serve p s w fun a s' w' => J w' ∧ I w' s' ∧ P w' a := by
  induction p generalizing s w with
  | ret a => exact wp_ret.2 ⟨hJ, hI, hp⟩
  | atom f k ih => exact wp_atom.2 (ih s (hp s hI).2 hJ (hp s hI).1)
  | send r k ih =>
    refine wp_send.2 fun c a w' e => ?_
    obtain ⟨hJ', ha, hI'⟩ := hserve hJ hp.1 e
    exact ih a (hp.2 a w' ha) hJ' (hI' s hI)

end Prog

namespace Pool

variable {σ V R W : Type} {A : R → Type} {α T C : Type}
  {serve : V → (r : R) → C → Option (A r × V)} {task : T → Prog σ R A α}
  {I : W → σ → Prop} {ok : R → Prop} {ans : W → (r : R) → A r → W → Prop} {P : W → α → Prop} {w : W}

/-- A step of threads that all keep `I`, where a request that is `ok` leaves the environment
as it is. -/
theorem amid_step {p p' : Pool σ V R A α} {c : C}
    (hserve : ∀ r c a v', ok r → serve p.env r c = some (a, v') → v' = p.env ∧ ans w r a w)
    (hI : I w p.state) (hall : ∀ th ∈ p.threads, th.Amid I ok ans P w)
    (hstep : step serve (fun _ => []) task p (.run i c) = some p') :
    p'.env = p.env ∧ I w p'.state ∧ ∀ th ∈ p'.threads, th.Amid I ok ans P w := by
  have hset : ∀ th, th.Amid I ok ans P w → ∀ th' ∈ p.threads.set i th, th'.Amid I ok ans P w := by
    intro th hth th' hmem
    obtain h | rfl := mem_or_eq_of_mem_set hmem
    · exact hall th' h
    · exact hth
  obtain ⟨t, hx, -⟩ | ⟨i', c', f, k, hx, hi, rfl⟩ | ⟨i', c', r, k, a, env, hx, hi, he, rfl⟩ :=
    step_cases hstep
  · cases hx
  · cases hx
    have hth : (Prog.atom f k).Amid I ok ans P w := hall _ (mem_of_getElem? hi)
    exact ⟨rfl, (hth _ hI).1, hset _ (hth _ hI).2⟩
  · cases hx
    have hth : (Prog.send r k).Amid I ok ans P w := hall _ (mem_of_getElem? hi)
    obtain ⟨rfl, ha⟩ := hserve r c a env hth.1 he
    exact ⟨rfl, hI, by simpa using hset _ (hth.2 a w ha)⟩

end Pool

end NC
