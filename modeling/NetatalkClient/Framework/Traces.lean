import NetatalkClient.Framework.Lift

/-!
# The requests a program sends

`record` is the environment that gives any answer a relation allows and keeps what
was exchanged. `Prog.Always` is a statement about every such run: what a program
returns and what it sent, whatever the state it starts in and whatever it is answered.

`Prog.May` says that some run ends as stated, with a rule for each constructor. A
run that breaks a property shows that it does not always hold (`not_always`), and
where every request has an answer a run can be brought to its end (`may_end`), so
that the request that breaks a property may stand anywhere in a program.
-/

namespace NC.Prog

open List

variable {σ σ' R R' : Type} {A : R → Type} {A' : R' → Type} {α β : Type} {p : Prog σ R A α}

section May

variable {V C : Type} (serve : V → (r : R) → C → Option (A r × V))

/-- Some run of `p` from `s` and `v` ends in `Q`. -/
def May (p : Prog σ R A α) (s : σ) (v : V) (Q : α → σ → V → Prop) : Prop :=
  ∃ cs a s' v', run serve p s v cs = some (a, s', v', []) ∧ Q a s' v'

variable {serve} {s : σ} {v : V} {Q : α → σ → V → Prop} {v' : V} {Q' : α → σ → V → Prop}

theorem run_append {cs ds : List C} {a : α} {s' : σ}
    (h : run serve p s v cs = some (a, s', v', [])) :
    run serve p s v (cs ++ ds) = some (a, s', v', ds) := by
  induction p generalizing s v cs with
  | ret b =>
    simp only [run, Option.some.injEq, Prod.mk.injEq] at h ⊢
    simp [h]
  | atom f k ih => exact ih _ h
  | send r k ih =>
    cases cs with
    | nil => cases h
    | cons c cs =>
      simp only [run, cons_append, Option.bind_eq_some_iff] at h ⊢
      obtain ⟨x, hx, h⟩ := h
      exact ⟨x, hx, ih _ h⟩

theorem may_ret {a : α} (h : Q a s v) : May serve (ret a) s v Q :=
  ⟨[], a, s, v, rfl, h⟩

theorem may_atom {f : σ → σ} {k : σ → Prog σ R A α} (h : May serve (k s) (f s) v Q) :
    May serve (atom f k) s v Q := h

theorem may_send {r : R} {k : A r → Prog σ R A α} {c : C} {a : A r}
    (he : serve v r c = some (a, v')) (h : May serve (k a) s v' Q) : May serve (send r k) s v Q := by
  obtain ⟨cs, b, s', v'', hr, hq⟩ := h
  exact ⟨c :: cs, b, s', v'', by simpa [run, he] using hr, hq⟩

theorem may_bind {g : α → Prog σ R A β} {Q : β → σ → V → Prop}
    (h : May serve p s v fun a s v => May serve (g a) s v Q) : May serve (p >>= g) s v Q := by
  obtain ⟨cs, a, s', v', hp, ds, b, s'', v'', hg, hq⟩ := h
  exact ⟨cs ++ ds, b, s'', v'', by rw [run_bind, run_append hp]; exact hg, hq⟩

theorem May.mono (h : May serve p s v Q) (hQ : ∀ a s v, Q a s v → Q' a s v) :
    May serve p s v Q' := by
  obtain ⟨cs, a, s', v', hr, hq⟩ := h
  exact ⟨cs, a, s', v', hr, hQ _ _ _ hq⟩

/-- A run that ends without `Q'` refutes it. -/
theorem May.not_wp (h : May serve p s v Q) (hQ : ∀ a s v, Q a s v → ¬Q' a s v) :
    ¬Wp serve p s v Q' := by
  obtain ⟨cs, a, s', v', hr, hq⟩ := h
  exact fun hw => hQ _ _ _ hq (hw cs a s' v' [] hr)

/-- Where every request can be answered so that `I` stays true, a run can be brought
to its end so. -/
theorem may_end {I : V → Prop}
    (hI : ∀ v r, I v → ∃ c a v', serve v r c = some (a, v') ∧ I v') (p : Prog σ R A α) (s : σ)
    {v : V} (hv : I v) : May serve p s v fun _ _ v' => I v' := by
  induction p generalizing s v with
  | ret a => exact may_ret hv
  | atom f k ih => exact may_atom (ih _ _ hv)
  | send r k ih =>
    obtain ⟨c, a, v', he, hv'⟩ := hI v r hv
    exact may_send he (ih a s hv')

theorem may_lift {part : Part σ' σ} {among : Among A A'}
    {serve : V → (r : R') → C → Option (A' r × V)} {s : σ'} {v : V} {Q : α → σ' → V → Prop}
    (h : May (restrict among serve) p (part.get s) v fun a t w => Q a (part.put t s) w) :
    May serve (lift part among p) s v Q := by
  induction p generalizing s v with
  | ret a =>
    obtain ⟨cs, b, s', v', hr, hq⟩ := h
    obtain ⟨rfl, rfl, rfl, rfl⟩ := hr
    exact may_ret (by simpa using hq)
  | atom f k ih => exact may_atom (ih _ (by simp only [Part.get_put, Part.put_put]; exact h))
  | send r k ih =>
    obtain ⟨cs, b, s', v', hr, hq⟩ := h
    cases cs with
    | nil => cases hr
    | cons c cs =>
      simp only [run, restrict, Option.bind_eq_some_iff, Option.map_eq_some_iff] at hr
      obtain ⟨_, ⟨⟨a, w⟩, he, rfl⟩, hr⟩ := hr
      exact may_send he (ih _ ⟨cs, b, s', v', hr, hq⟩)

end May

/-! ## Every answer -/

/-- A request with its answer. -/
abbrev Exchange (A : R → Type) := (r : R) × A r

/-- The environment that gives any answer that is `ok`, and keeps what was exchanged. -/
def record (ok : (r : R) → A r → Bool) (log : List (Exchange A)) (r : R)
    (answer : (r : R) → A r) : Option (A r × List (Exchange A)) :=
  if ok r (answer r) then some (answer r, log ++ [⟨r, answer r⟩]) else none

variable {ok : (r : R) → A r → Bool} {log : List (Exchange A)} {P : α → Prop}

theorem record_eq_some {log' : List (Exchange A)} {r : R} {answer : (r : R) → A r} {a : A r} :
    record ok log r answer = some (a, log') ↔
      ok r (answer r) ∧ answer r = a ∧ log ++ [⟨r, answer r⟩] = log' := by
  unfold record
  split <;> simp_all

/-- What a program exchanged follows the log it started with, and every answer is `ok`. -/
theorem wp_record_more (p : Prog σ R A α) (s : σ) (log : List (Exchange A)) :
    Wp (record ok) p s log fun _ _ log' =>
      ∃ more, log' = log ++ more ∧ ∀ x ∈ more, ok x.1 x.2 = true := by
  induction p generalizing s log with
  | ret a => exact wp_ret.2 ⟨[], (append_nil _).symm, nofun⟩
  | atom f k ih => exact wp_atom.2 (ih s (f s) log)
  | send r k ih =>
    refine wp_send.2 fun c a _ he => ?_
    obtain ⟨hok, rfl, rfl⟩ := record_eq_some.1 he
    refine (ih _ s _).mono ?_
    rintro _ _ _ ⟨more, rfl, hmore⟩
    exact ⟨⟨r, c r⟩ :: more, by simp, forall_mem_cons.2 ⟨hok, hmore⟩⟩

/-- In every run, whatever the answers, the result and what was exchanged are as `Q`
says. -/
def Always (ok : (r : R) → A r → Bool) (p : Prog σ R A α) (Q : α → List (Exchange A) → Prop) :
    Prop :=
  ∀ s, Wp (record ok) p s [] fun a _ log => Q a log

theorem Keeps.record {I : σ → Prop} {sent : R → Prop} (h : p.Keeps I sent P) {s : σ} (hs : I s)
    (log : List (Exchange A)) :
    Wp (record ok) p s log fun a s' log' =>
      P a ∧ I s' ∧ ∃ more, log' = log ++ more ∧ ∀ x ∈ more, sent x.1 := by
  refine h.wp hs ?_ ⟨[], by simp, nofun⟩
  rintro _ r c a _ hr he ⟨more, rfl, hmore⟩
  obtain ⟨-, -, rfl⟩ := record_eq_some.1 he
  refine ⟨more ++ [⟨r, c r⟩], by rw [append_assoc], fun x hx => ?_⟩
  rcases mem_append.1 hx with hx | hx
  · exact hmore x hx
  · rwa [mem_singleton.1 hx]

theorem Within.always {sent : R → Prop} (h : p.Within sent P) :
    p.Always ok fun a log => P a ∧ ∀ x ∈ log, sent x.1 := by
  refine fun s => h.wp (fun log r c a log' hr he hlog => ?_) nofun
  obtain ⟨-, -, rfl⟩ := record_eq_some.1 he
  intro x hx
  rcases mem_append.1 hx with hx | hx
  · exact hlog x hx
  · rwa [mem_singleton.1 hx]

theorem not_always {s : σ} {Q : α → List (Exchange A) → Prop}
    (h : May (record ok) p s [] fun a _ log => ¬Q a log) : ¬p.Always ok Q :=
  fun ha => h.not_wp (fun _ _ _ hn => hn) (ha s)

section Answers

variable [∀ r, Inhabited (A r)] [DecidableEq R]

@[simp] theorem wp_record_send {r : R} {k : A r → Prog σ R A α} {s : σ}
    {Q : α → σ → List (Exchange A) → Prop} :
    Wp (record ok) (send r k) s log Q ↔
      ∀ a, ok r a → Wp (record ok) (k a) s (log ++ [⟨r, a⟩]) Q := by
  simp only [wp_send, record_eq_some]
  constructor
  · intro h a ha
    exact h (Function.update (fun _ => default) r a) a _ (by simpa using ha)
  · rintro h c _ _ ⟨hc, rfl, rfl⟩
    exact h _ hc

/-- What a program leaves whatever it is answered, it leaves in every environment. -/
theorem Wp.of_record {V C : Type} {serve : V → (r : R) → C → Option (A r × V)} {s : σ}
    {Q : α → σ → Prop} (h : Wp (record ok) p s log fun a s' _ => Q a s')
    (hok : ∀ v r c a v', serve v r c = some (a, v') → ok r a = true) (v : V) :
    Wp serve p s v fun a s' _ => Q a s' := by
  induction p generalizing s log v with
  | ret a => exact wp_ret.2 (wp_ret.1 h)
  | atom f k ih => exact ih s h v
  | send r k ih =>
    exact wp_send.2 fun c a v' hs => ih a (wp_record_send.1 h a (hok v r c a v' hs)) v'

theorem may_answer {r : R} {k : A r → Prog σ R A α} (a : A r) (ha : ok r a) {s : σ}
    {Q : α → σ → List (Exchange A) → Prop} (h : May (record ok) (k a) s (log ++ [⟨r, a⟩]) Q) : May (record ok) (send r k) s log Q :=
  may_send (c := Function.update (fun _ => default) r a) (record_eq_some.2 (by simpa using ha)) h

end Answers

end NC.Prog
