import Mathlib.Data.List.Basic

/-!
# Programs that exchange requests

A `Prog σ R A α` runs over a shared state `σ`: it takes atomic steps on the
state, and it sends requests `r : R` and continues with the answer, of type
`A r`. Nothing is said about who answers: `Prog.run` runs a program against an
environment `serve`, whose every decision is one choice of a list, so that a
statement about every list of choices is a statement about every behaviour of
the environment.

`Prog.Wp` is the weakest precondition over all choices, with one rule for each
constructor (`wp_ret`, `wp_atom`, `wp_send`) and one for sequencing
(`wp_bind`). `Prog.Within` bounds the requests a program sends and the results
it returns, and `Within.wp` turns a property that every such request keeps
into one that the program keeps. `Prog.Keeps` does so for a program whose requests
depend on an invariant of its state. `Prog.Maintains` is about what a program leaves
of its environment and `Prog.Relates` about the state it leaves, each with a rule for
each way to put programs together.
-/

namespace NC

/-- A program over the state `σ` that exchanges requests `R`, the answer to `r`
being of type `A r`. `atom f k` replaces the state `s` by `f s` in one step and
goes on with `k s`. -/
inductive Prog (σ R : Type) (A : R → Type) (α : Type) : Type where
  | ret (a : α)
  | atom (f : σ → σ) (k : σ → Prog σ R A α)
  | send (r : R) (k : A r → Prog σ R A α)

namespace Prog

variable {σ R : Type} {A : R → Type} {α β : Type}

def bind : Prog σ R A α → (α → Prog σ R A β) → Prog σ R A β
  | ret a, g => g a
  | atom f k, g => atom f fun s => (k s).bind g
  | send r k, g => send r fun a => (k a).bind g

instance : Monad (Prog σ R A) where
  pure := ret
  bind := bind

/-- One exchange: send `r` and return the answer. -/
def request (r : R) : Prog σ R A (A r) := send r ret

/-- One atomic step: the state `s` becomes `(f s).2`, and `(f s).1` is returned. -/
def modifyGet (f : σ → α × σ) : Prog σ R A α := atom (fun s => (f s).2) fun s => ret (f s).1

/-- One atomic step on the state alone. -/
def modify (f : σ → σ) : Prog σ R A Unit := atom f fun _ => ret ()

@[simp] theorem pure_eq (a : α) : (pure a : Prog σ R A α) = ret a := rfl

@[simp] theorem ret_bind (a : α) (g : α → Prog σ R A β) : ret a >>= g = g a := rfl

@[simp] theorem atom_bind (f : σ → σ) (k : σ → Prog σ R A α) (g : α → Prog σ R A β) :
    atom f k >>= g = atom f fun s => k s >>= g := rfl

@[simp] theorem send_bind (r : R) (k : A r → Prog σ R A α) (g : α → Prog σ R A β) :
    send r k >>= g = send r fun a => k a >>= g := rfl

@[simp] theorem request_bind (r : R) (g : A r → Prog σ R A β) : request r >>= g = send r g := rfl

@[simp] theorem modifyGet_bind (f : σ → α × σ) (g : α → Prog σ R A β) :
    modifyGet f >>= g = atom (fun s => (f s).2) fun s => g (f s).1 := rfl

@[simp] theorem modify_bind (f : σ → σ) (g : Unit → Prog σ R A β) :
    modify f >>= g = atom f fun _ => g () := rfl

theorem bind_assoc {γ : Type} (p : Prog σ R A α) (g : α → Prog σ R A β) (h : β → Prog σ R A γ) :
    p >>= g >>= h = p >>= fun a => g a >>= h := by
  induction p with
  | ret a => rfl
  | atom f k ih | send r k ih => exact congrArg _ (funext ih)

theorem bind_ret (p : Prog σ R A α) : p >>= ret = p := by
  induction p with
  | ret a => rfl
  | atom f k ih | send r k ih => exact congrArg _ (funext ih)

/-! ## Running against an environment -/

variable {a : α} {c : Prop} {q : Prog σ R A α}

section Run

variable {V C : Type} (serve : V → (r : R) → C → Option (A r × V))

/-- Run a program: each request takes the next choice, by which `serve` answers
it and moves on its own state `V`, or refuses the choice. What is left of the
choices is returned too. -/
def run : Prog σ R A α → σ → V → List C → Option (α × σ × V × List C)
  | ret a, s, v, cs => some (a, s, v, cs)
  | atom f k, s, v, cs => run (k s) (f s) v cs
  | send _ _, _, _, [] => none
  | send r k, s, v, c :: cs => (serve v r c).bind fun x => run (k x.1) s x.2 cs

/-- Every run of `p` from `s` and `v`, whatever the choices, ends in `Q`. -/
def Wp (p : Prog σ R A α) (s : σ) (v : V) (Q : α → σ → V → Prop) : Prop :=
  ∀ cs a s' v' cs', run serve p s v cs = some (a, s', v', cs') → Q a s' v'

variable {serve} {s : σ} {v : V} {Q : α → σ → V → Prop} {p : Prog σ R A α}
  {g : α → Prog σ R A β}

theorem run_bind (p : Prog σ R A α) (g : α → Prog σ R A β) (s : σ) (v : V) (cs : List C) :
    run serve (p >>= g) s v cs =
      (run serve p s v cs).bind fun x => run serve (g x.1) x.2.1 x.2.2.1 x.2.2.2 := by
  induction p generalizing s v cs with
  | ret a => rfl
  | atom f k ih => exact ih s (f s) v cs
  | send r k ih =>
    cases cs with
    | nil => rfl
    | cons c cs =>
      simp only [send_bind, run, Option.bind_assoc]
      exact congrArg _ (funext fun x => ih x.1 s x.2 cs)

@[simp] theorem wp_ret : Wp serve (ret a) s v Q ↔ Q a s v := by
  refine ⟨fun h => h [] a s v [] rfl, fun h cs b s' v' cs' e => ?_⟩
  obtain ⟨rfl, rfl, rfl, -⟩ := e
  exact h

@[simp] theorem wp_atom {f : σ → σ} {k : σ → Prog σ R A α} :
    Wp serve (atom f k) s v Q ↔ Wp serve (k s) (f s) v Q := Iff.rfl

@[simp] theorem wp_send {r : R} {k : A r → Prog σ R A α} :
    Wp serve (send r k) s v Q ↔ ∀ c a v', serve v r c = some (a, v') → Wp serve (k a) s v' Q := by
  refine ⟨fun h c a v' e cs b s' v'' cs' hr => h (c :: cs) b s' v'' cs' (by simpa [run, e] using hr),
    fun h cs b s' v'' cs' hr => ?_⟩
  cases cs with
  | nil => cases hr
  | cons c cs =>
    simp only [run, Option.bind_eq_some_iff] at hr
    obtain ⟨⟨a, v'⟩, e, hr⟩ := hr
    exact h c a v' e cs b s' v'' cs' hr

@[simp] theorem wp_modify {f : σ → σ} {Q : Unit → σ → V → Prop} :
    Wp serve (modify f) s v Q ↔ Q () (f s) v := by simp [modify]

@[simp] theorem wp_modifyGet {f : σ → α × σ} :
    Wp serve (modifyGet f) s v Q ↔ Q (f s).1 (f s).2 v := by simp [modifyGet]

/-- A sequence is verified part by part. -/
theorem wp_bind {Q : β → σ → V → Prop} :
    Wp serve (p >>= g) s v Q ↔ Wp serve p s v fun a s v => Wp serve (g a) s v Q := by
  induction p generalizing s v with
  | ret a => simp
  | atom f k ih | send r k ih => simp [ih]

theorem Wp.ite [Decidable c] (hp : c → Wp serve p s v Q)
    (hq : ¬c → Wp serve q s v Q) : Wp serve (if c then p else q) s v Q :=
  iteInduction (motive := (Wp serve · s v Q)) hp hq

/-- A check that returns, and what follows if it passes. -/
theorem Wp.guard [Decidable c] (ha : Q a s v) (hp : ¬c → Wp serve p s v Q) :
    Wp serve (if c then ret a else p) s v Q :=
  .ite (fun _ => wp_ret.2 ha) hp

variable {Q' : α → σ → V → Prop}

theorem Wp.mono (h : Wp serve p s v Q) (hQ : ∀ a s v, Q a s v → Q' a s v) : Wp serve p s v Q' :=
  fun cs a s' v' cs' e => hQ _ _ _ (h cs a s' v' cs' e)

theorem Wp.bind {Q' : β → σ → V → Prop} (h : Wp serve p s v Q)
    (hg : ∀ a s v, Q a s v → Wp serve (g a) s v Q') : Wp serve (p >>= g) s v Q' :=
  wp_bind.2 (h.mono hg)

theorem Wp.and (h : Wp serve p s v Q) (h' : Wp serve p s v Q') :
    Wp serve p s v fun a s v => Q a s v ∧ Q' a s v :=
  fun cs a s' v' cs' e => ⟨h cs a s' v' cs' e, h' cs a s' v' cs' e⟩

end Run

/-! ## What a program may send and return -/

/-- Whatever the state and the answers, every request of `p` satisfies `ok` and
every result satisfies `P`. -/
def Within (ok : R → Prop) (P : α → Prop) : Prog σ R A α → Prop
  | ret a => P a
  | atom _ k => ∀ s, Within ok P (k s)
  | send r k => ok r ∧ ∀ a, Within ok P (k a)

variable {ok : R → Prop} {P : α → Prop} {P' : β → Prop} {p : Prog σ R A α} {g : α → Prog σ R A β}

/-- From a state with `I`, every step of `p` keeps `I`, every request satisfies `ok`
and every result satisfies `P`. -/
def Keeps (I : σ → Prop) (ok : R → Prop) (P : α → Prop) : Prog σ R A α → Prop
  | ret a => P a
  | atom f k => ∀ s, I s → I (f s) ∧ Keeps I ok P (k s)
  | send r k => ok r ∧ ∀ a, Keeps I ok P (k a)

theorem Keeps.bind {I : σ → Prop} (hp : p.Keeps I ok P)
    (hg : ∀ a, P a → (g a).Keeps I ok P') : (p >>= g).Keeps I ok P' := by
  induction p with
  | ret a => exact hg a hp
  | atom f k ih => exact fun s hs => ⟨(hp s hs).1, ih s (hp s hs).2⟩
  | send r k ih => exact ⟨hp.1, fun a => ih a (hp.2 a)⟩

theorem Keeps.ite {I : σ → Prop} [Decidable c] (hp : c → p.Keeps I ok P)
    (hq : ¬c → q.Keeps I ok P) : (if c then p else q).Keeps I ok P :=
  iteInduction hp hq

theorem Keeps.guard {I : σ → Prop} [Decidable c] (hp : ¬c → p.Keeps I ok fun _ => True) :
    (if c then ret a else p).Keeps I ok fun _ => True := .ite (fun _ => trivial) hp

theorem Within.keeps (hp : p.Within ok P) : p.Keeps (fun _ => True) ok P := by
  induction p with
  | ret a => exact hp
  | atom f k ih => exact fun s _ => ⟨trivial, ih s (hp s)⟩
  | send r k ih => exact ⟨hp.1, fun a => ih a (hp.2 a)⟩

theorem Keeps.within (hp : p.Keeps (fun _ => True) ok P) : p.Within ok P := by
  induction p with
  | ret a => exact hp
  | atom f k ih => exact fun s => ih s (hp s trivial).2
  | send r k ih => exact ⟨hp.1, fun a => ih a (hp.2 a)⟩

/-- What a program keeps to holds in all its runs. -/
theorem Keeps.wp {J : σ → Prop}
    (hp : p.Keeps J ok P) {V C : Type} {serve : V → (r : R) → C → Option (A r × V)}
    {I : V → Prop} {s : σ} {v : V} (hs : J s)
    (hI : ∀ v r c a v', ok r → serve v r c = some (a, v') → I v → I v') (hv : I v) :
    Wp serve p s v fun a s' v' => P a ∧ J s' ∧ I v' := by
  induction p generalizing s v with
  | ret a => simpa using ⟨hp, hs, hv⟩
  | atom f k ih => exact ih s (hp s hs).2 (hp s hs).1 hv
  | send r k ih =>
    rw [wp_send]
    exact fun c a v' e => ih a (hp.2 a) hs (hI v r c a v' hp.1 e hv)

theorem Within.bind (hp : p.Within ok P) (hg : ∀ a, P a → (g a).Within ok P') :
    (p >>= g).Within ok P' := (hp.keeps.bind fun a ha => (hg a ha).keeps).within

theorem Within.mono {ok ok' : R → Prop} {P P' : α → Prop} (hp : p.Within ok P)
    (hok : ∀ r, ok r → ok' r) (hP : ∀ a, P a → P' a) : p.Within ok' P' := by
  induction p with
  | ret a => exact hP a hp
  | atom f k ih => exact fun s => ih s (hp s)
  | send r k ih => exact ⟨hok r hp.1, fun a => ih a (hp.2 a)⟩

theorem Within.ite [Decidable c] (hp : c → p.Within ok P)
    (hq : ¬c → q.Within ok P) : (if c then p else q).Within ok P :=
  iteInduction hp hq

/-- One of two parts, and what follows either. -/
theorem Within.choice [Decidable c] (hp : p.Within ok fun _ => True)
    (hq : q.Within ok fun _ => True) (hg : ∀ a, (g a).Within ok P') :
    (if c then p >>= g else q >>= g).Within ok P' :=
  .ite (fun _ => hp.bind fun a _ => hg a) fun _ => hq.bind fun a _ => hg a

/-- What every answer to a request satisfying `ok` keeps, a program that sends
only such requests keeps. -/
theorem Within.wp (hp : p.Within ok P)
    {V C : Type} {serve : V → (r : R) → C → Option (A r × V)} {I : V → Prop}
    (hI : ∀ v r c a v', ok r → serve v r c = some (a, v') → I v → I v') {s : σ} {v : V}
    (hv : I v) : Wp serve p s v fun a _ v' => P a ∧ I v' :=
  (hp.keeps.wp trivial hI hv).mono fun _ _ _ h => ⟨h.1, h.2.2⟩

section Maintains

variable {V C : Type} (serve : V → (r : R) → C → Option (A r × V)) (L : V → Prop)

/-- From whatever state, every run of `p` from an environment with `L` leaves one with
`L`. -/
def Maintains (p : Prog σ R A α) : Prop := ∀ s v, L v → Wp serve p s v fun _ _ v' => L v'

variable {serve L}

theorem Maintains.ret (a : α) : Maintains serve L (ret a : Prog σ R A α) :=
  fun _ _ hv => wp_ret.2 hv

theorem Maintains.atom {f : σ → σ} {k : σ → Prog σ R A α} (h : ∀ s, Maintains serve L (k s)) :
    Maintains serve L (atom f k) :=
  fun s v hv => h s (f s) v hv

theorem Maintains.bind (hp : Maintains serve L p)
    (hg : ∀ a, Maintains serve L (g a)) : Maintains serve L (p >>= g) :=
  fun s v hv => (hp s v hv).bind fun a s' v' hv' => hg a s' v' hv'

theorem Maintains.ite [Decidable c] (hp : c → Maintains serve L p)
    (hq : ¬c → Maintains serve L q) : Maintains serve L (if c then p else q) :=
  iteInduction hp hq

theorem Maintains.guard [Decidable c] (hp : ¬c → Maintains serve L p) :
    Maintains serve L (if c then NC.Prog.ret a else p) :=
  .ite (fun _ => .ret a) hp

end Maintains

section Relates

variable {V C : Type} (serve : V → (r : R) → C → Option (A r × V)) (rel : σ → σ → Prop)

/-- Every run of `p`, from whatever state and environment, leaves a state that `rel`
relates to the first. -/
def Relates (p : Prog σ R A α) : Prop := ∀ s v, Wp serve p s v fun _ s' _ => rel s s'

variable {serve rel}

theorem Relates.ret (hrefl : ∀ s, rel s s) (a : α) : Relates serve rel (ret a : Prog σ R A α) :=
  fun s _ => wp_ret.2 (hrefl s)

theorem Relates.request (hrefl : ∀ s, rel s s) (r : R) :
    Relates serve rel (request r : Prog σ R A (A r)) :=
  fun s _ => wp_send.2 fun _ _ _ _ => wp_ret.2 (hrefl s)

theorem Relates.modifyGet {f : σ → α × σ} (h : ∀ s, rel s (f s).2) :
    Relates serve rel (modifyGet f : Prog σ R A α) :=
  fun s _ => wp_modifyGet.2 (h s)

theorem Relates.bind (htrans : ∀ s t u, rel s t → rel t u → rel s u)
    (hp : Relates serve rel p) (hg : ∀ a, Relates serve rel (g a)) : Relates serve rel (p >>= g) :=
  fun s v => (hp s v).bind fun a s' v' hs =>
    (hg a s' v').mono fun _ _ _ hs' => htrans _ _ _ hs hs'

theorem Relates.ite [Decidable c] (hp : c → Relates serve rel p)
    (hq : ¬c → Relates serve rel q) : Relates serve rel (if c then p else q) :=
  iteInduction hp hq

end Relates

end Prog

end NC
