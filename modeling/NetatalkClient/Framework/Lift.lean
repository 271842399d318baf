import NetatalkClient.Framework.Prog

/-!
# Programs within a larger system

A program over a state `σ` and requests `R` runs in a larger system in two ways,
over a state `σ'` that has `σ` as a part (`Part`):

* its requests stand among those of the system (`Among`): `Prog.lift`. What the
  small program sends and returns, the lifted one does (`within_lift`), and a
  postcondition of the lifted one is a postcondition of the small one over the rest
  of the state (`wp_lift`);
* each of its requests is answered by a program of the system: `Prog.handle`. What
  each of those programs keeps, the whole keeps (`Within.wp_handle`).
-/

namespace NC

/-- The part `σ` of a state `σ'`. -/
structure Part (σ' σ : Type) where
  get : σ' → σ
  put : σ → σ' → σ'
  get_put : ∀ s s', get (put s s') = s
  put_get : ∀ s', put (get s') s' = s'
  put_put : ∀ s t s', put s (put t s') = put s s'

attribute [simp] Part.get_put Part.put_get Part.put_put

/-- The requests `R` among the requests `R'`, whose answers may say more. -/
structure Among {R R' : Type} (A : R → Type) (A' : R' → Type) where
  req : R → R'
  ans : ∀ r, A' (req r) → A r

namespace Prog

variable {σ σ' R R' : Type} {A : R → Type} {A' : R' → Type} {α β : Type}
variable (part : Part σ' σ) (among : Among A A')

def lift : Prog σ R A α → Prog σ' R' A' α
  | ret a => ret a
  | atom f k => atom (fun s => part.put (f (part.get s)) s) fun s => lift (k (part.get s))
  | send r k => send (among.req r) fun a => lift (k (among.ans r a))

@[simp] theorem lift_bind (p : Prog σ R A α) (g : α → Prog σ R A β) :
    lift part among (p >>= g) = lift part among p >>= fun a => lift part among (g a) := by
  induction p with
  | ret a => rfl
  | atom f k ih => simp [lift, ih]
  | send r k ih => simp [lift, ih]

variable {P : α → Prop} {p : Prog σ R A α}

theorem within_lift {ok : R' → Prop} (h : p.Within (fun r => ok (among.req r)) P) :
    (lift part among p).Within ok P := by
  induction p with
  | ret a => exact h
  | atom f k ih => exact fun s => ih _ (h _)
  | send r k ih => exact ⟨h.1, fun a => ih _ (h.2 _)⟩

/-! ## Requests answered by programs -/

variable (impl : (r : R) → Prog σ' R' A' (A r))

def handle : Prog σ R A α → Prog σ' R' A' α
  | ret a => ret a
  | atom f k => atom (fun s => part.put (f (part.get s)) s) fun s => handle (k (part.get s))
  | send r k => impl r >>= fun a => handle (k a)

@[simp] theorem handle_bind (p : Prog σ R A α) (g : α → Prog σ R A β) :
    handle part impl (p >>= g) = handle part impl p >>= fun a => handle part impl (g a) := by
  induction p with
  | ret a => rfl
  | atom f k ih => simp [handle, ih]
  | send r k ih => simp [handle, bind_assoc, ih]

theorem within_handle {ok : R → Prop} {ok' : R' → Prop} (h : p.Within ok P)
    (himpl : ∀ r, ok r → (impl r).Within ok' fun _ => True) :
    (handle part impl p).Within ok' P := by
  induction p with
  | ret a => exact h
  | atom f k ih => exact fun s => ih _ (h _)
  | send r k ih => exact (himpl r h.1).bind fun a _ => ih a (h.2 a)

section Run

variable {V C : Type} {s : σ'}

theorem Within.wp_handle {serve : V → (r : R') → C → Option (A' r × V)} {ok : R → Prop}
    (hp : p.Within ok P) {I : σ' → V → Prop} (hput : ∀ s t v, I s v → I (part.put t s) v)
    (himpl : ∀ r, ok r → ∀ s v, I s v → Wp serve (impl r) s v fun _ s' v' => I s' v') {v : V}
    (hv : I s v) : Wp serve (handle part impl p) s v fun a s' v' => P a ∧ I s' v' := by
  induction p generalizing s v with
  | ret a => simpa [handle] using ⟨hp, hv⟩
  | atom f k ih => exact ih _ (hp _) (hput _ _ _ hv)
  | send r k ih =>
    rw [handle, wp_bind]
    exact (himpl r hp.1 s v hv).mono fun a s' v' h => ih a (hp.2 a) h

/-- An environment of the large system as the small program meets it. -/
def restrict (serve : V → (r : R') → C → Option (A' r × V)) (v : V) (r : R) (c : C) :
    Option (A r × V) :=
  (serve v (among.req r) c).map fun x => (among.ans r x.1, x.2)

variable {serve : V → (r : R') → C → Option (A' r × V)}

/-- A lifted program is verified on its part of the state. -/
theorem wp_lift {v : V} {Q : α → σ' → V → Prop} :
    Wp serve (lift part among p) s v Q ↔
      Wp (restrict among serve) p (part.get s) v fun a t w => Q a (part.put t s) w := by
  induction p generalizing s v with
  | ret a => simp [lift]
  | atom f k ih => simp [lift, ih]
  | send r k ih =>
    simp only [lift, wp_send, ih, restrict, Option.map_eq_some_iff, Prod.exists, Prod.mk.injEq]
    constructor
    · rintro h c _ _ ⟨a, w, e, rfl, rfl⟩
      exact h c a w e
    · exact fun h c a w e => h c _ w ⟨a, w, e, rfl, rfl⟩

end Run

end Prog

end NC
