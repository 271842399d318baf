import NetatalkClient.Model.Fuse.Threads

/-!
# The references of afpfsd's threads

A thread has a token for each server it may use: `made` for one it made and has not listed,
`ref` for a reference, and `use` for a server that it uses without one. `discipline` says
which tokens an operation needs and leaves, and `Accounted` that the tokens of all threads
are what the servers' counts say: the reference of a server's creation is its maker's until
the server is listed, the list's until it is taken off, and then that of the thread that
took it off.

`serve_accounted` is the one lemma about the operations: each keeps the account, if no
server is taken off the list while a thread uses it without a reference
(`Undisturbed`).
-/

namespace NC

open List Function Servers

/-- The reference of a server's creation, unless a thread has it as its own. -/
def Listing.standing : Listing → Nat
  | .own | .listed | .abandoned => 1
  | .removed | .discarded => 0

/-- The counts of a server are those of the tokens for it. -/
structure AfpServer.Counted (x : AfpServer) (allocated : Prop) (made ref use : Nat) : Prop where
  made_le : made ≤ 1
  made_iff : 0 < made ↔ allocated ∧ x.listing = .own
  unallocated : ¬allocated → x.listing = .own
  of_ref : 0 < ref → x.listing = .listed ∨ x.listing = .removed
  of_use : 0 < use → x.listing = .listed
  users_eq : x.users = use
  refcount_eq : x.refcount = x.listing.standing + ref
  frees_eq : x.frees = if x.refcount = 0 then 1 else 0

namespace AfpServer.Counted

variable {x : AfpServer} {allocated : Prop} {made ref use : Nat}

section

variable (h : x.Counted allocated made ref use)

include h

theorem frees_zero (ht : 0 < made ∨ 0 < ref ∨ 0 < use ∨ x.listing = .listed) : x.frees = 0 := by
  have hstanding : x.listing = .own ∨ x.listing = .listed → x.listing.standing = 1 := by
    rintro (hl | hl) <;> rw [hl] <;> rfl
  have hpos : x.refcount ≠ 0 := by
    rw [h.refcount_eq]
    obtain hm | hr | hu | hl := ht
    · rw [hstanding (.inl (h.made_iff.1 hm).2)]
      omega
    · omega
    · rw [hstanding (.inr (h.of_use hu))]
      omega
    · rw [hstanding (.inr hl)]
      omega
  rw [h.frees_eq, if_neg hpos]

theorem session (y : AfpSession) :
    ({ x with session := y } : AfpServer).Counted allocated made ref use :=
  ⟨h.made_le, h.made_iff, h.unallocated, h.of_ref, h.of_use, h.users_eq, h.refcount_eq, h.frees_eq⟩

theorem hold (ht : 0 < ref ∨ 0 < use ∨ x.listing = .listed) :
    ({ x with refcount := x.refcount + 1 } : AfpServer).Counted allocated made (ref + 1) use where
  made_le := h.made_le
  made_iff := h.made_iff
  unallocated := h.unallocated
  of_ref _ := by
    obtain hr | hu | hl := ht
    · exact h.of_ref hr
    · exact .inl (h.of_use hu)
    · exact .inl hl
  of_use := h.of_use
  users_eq := h.users_eq
  refcount_eq := by
    show x.refcount + 1 = _
    rw [h.refcount_eq]
    exact Nat.add_assoc ..
  frees_eq := by
    show x.frees = if x.refcount + 1 = 0 then 1 else 0
    rw [h.frees_zero (.inr ht), if_neg (by omega)]

theorem release (hr : 0 < ref) :
    ({ x with
      refcount := x.refcount - 1
      frees := if x.refcount = 1 then x.frees + 1 else x.frees } : AfpServer).Counted
      allocated made (ref - 1) use where
  made_le := h.made_le
  made_iff := h.made_iff
  unallocated := h.unallocated
  of_ref _ := h.of_ref hr
  of_use := h.of_use
  users_eq := h.users_eq
  refcount_eq := by
    show x.refcount - 1 = x.listing.standing + (ref - 1)
    have := h.refcount_eq
    omega
  frees_eq := by
    show (if x.refcount = 1 then x.frees + 1 else x.frees) = if x.refcount - 1 = 0 then 1 else 0
    have hpos := h.refcount_eq
    rw [h.frees_zero (.inr (.inl hr))]
    by_cases h1 : x.refcount = 1
    · rw [if_pos h1, if_pos (by omega)]
    · rw [if_neg h1, if_neg (by omega)]

theorem enter (hl : x.listing = .listed) :
    ({ x with users := x.users + 1 } : AfpServer).Counted allocated made ref (use + 1) :=
  ⟨h.made_le, h.made_iff, h.unallocated, h.of_ref, fun _ => hl, congrArg (· + 1) h.users_eq,
    h.refcount_eq, h.frees_eq⟩

theorem leave :
    ({ x with users := x.users - 1 } : AfpServer).Counted allocated made ref (use - 1) :=
  ⟨h.made_le, h.made_iff, h.unallocated, h.of_ref, fun hu => h.of_use (by omega),
    congrArg (· - 1) h.users_eq, h.refcount_eq, h.frees_eq⟩

theorem publish (hm : 0 < made) :
    ({ x with listing := .listed, users := x.users + 1 } : AfpServer).Counted
      allocated (made - 1) ref (use + 1) := by
  obtain ⟨ha, hl⟩ := h.made_iff.1 hm
  have hle := h.made_le
  have hcount := h.refcount_eq
  rw [hl] at hcount
  exact ⟨by omega, ⟨fun h => by omega, fun h => nomatch h.2⟩, fun hn => absurd ha hn,
    fun _ => .inl rfl, fun _ => rfl, congrArg (· + 1) h.users_eq, hcount, h.frees_eq⟩

theorem remove (hl : x.listing = .listed) (hu : use = 0) :
    ({ x with listing := .removed } : AfpServer).Counted allocated made (ref + 1) use := by
  have hm : made = 0 := Nat.eq_zero_of_not_pos fun hm => by simpa [hl] using (h.made_iff.1 hm).2
  have ha : allocated := by
    by_contra hn
    exact absurd (h.unallocated hn) (by simp [hl])
  have hcount := h.refcount_eq
  rw [hl] at hcount
  refine ⟨h.made_le, ⟨fun h => by omega, fun h => nomatch h.2⟩, fun hn => absurd ha hn,
    fun _ => .inr rfl, fun h => by omega, h.users_eq, ?_, h.frees_eq⟩
  show x.refcount = 0 + (ref + 1)
  rw [hcount, Nat.zero_add, Nat.add_comm]
  rfl

theorem abandon (hm : 0 < made) :
    ({ x with listing := .abandoned } : AfpServer).Counted allocated (made - 1) ref use := by
  obtain ⟨ha, hl⟩ := h.made_iff.1 hm
  have hle := h.made_le
  have hcount := h.refcount_eq
  rw [hl] at hcount
  refine ⟨by omega, ⟨fun h => by omega, fun h => nomatch h.2⟩, fun hn => absurd ha hn, ?_, ?_,
    h.users_eq, hcount, h.frees_eq⟩
  · intro hr
    simpa [hl] using h.of_ref hr
  · intro hu
    simpa [hl] using h.of_use hu

theorem discard (hm : 0 < made) :
    ({ x with listing := .discarded, refcount := 0, frees := x.frees + 1 } : AfpServer).Counted
      allocated (made - 1) ref use := by
  obtain ⟨ha, hl⟩ := h.made_iff.1 hm
  have hle := h.made_le
  have hr : ¬0 < ref := fun hr => by simpa [hl] using h.of_ref hr
  have hu : ¬0 < use := fun hu => by simpa [hl] using h.of_use hu
  refine ⟨by omega, ⟨fun h => by omega, fun h => nomatch h.2⟩, fun hn => absurd ha hn,
    fun h => absurd h hr, fun h => absurd h hu, h.users_eq, ?_, ?_⟩
  · show 0 = 0 + ref
    omega
  · show x.frees + 1 = if 0 = 0 then 1 else 0
    rw [h.frees_zero (.inl hm)]
    rfl

end

end AfpServer.Counted

namespace Fuse

/-! ## Tokens -/

/-- What a thread has of a server. -/
inductive Token where
  | made (s : Nat)
  | ref (s : Nat)
  | use (s : Nat)
  deriving DecidableEq

/-- The thread may use the server. -/
def Guarded (s : Nat) (own : Multiset Token) : Prop := .made s ∈ own ∨ .ref s ∈ own ∨ .use s ∈ own

/-- What an operation needs. -/
def needs : ServerOp → Multiset Token → Prop
  | .access s _, own | .publish s, own | .fuseEnds s _, own => Guarded s own
  | .hold s, own => .ref s ∈ own ∨ .use s ∈ own
  | .unlink s leaving, own => leaving = true → .use s ∈ own
  | .release s, own | .startAttention s _, own => .ref s ∈ own
  | .next s, own | .startFuse s _, own | .startRequest s _, own | .leave s _, own => .use s ∈ own
  | .abandon s, own | .discard s, own => .made s ∈ own
  | .choose, _ | .init, _ | .findByMountpoint _, _ | .ready, _ | .base, _ | .join .., _ => True

/-- The answers that a thread with the tokens can get. -/
def possible : (r : ServerOp) → r.Ans → Multiset Token → Prop
  | .publish s, a, own => a = Published.fresh ↔ .made s ∈ own
  | .unlink s _, a, own => (.made s ∈ own → a = false) ∧ (.use s ∈ own → a = true)
  | _, _, _ => True

/-- What an operation leaves. -/
def after : (r : ServerOp) → r.Ans → Multiset Token → Multiset Token
  | .init, s, own => .made s ::ₘ own
  | .publish s, .fresh, own => .use s ::ₘ own.erase (.made s)
  | .unlink s leaving, true, own => .ref s ::ₘ if leaving then own.erase (.use s) else own
  | .hold s, _, own => .ref s ::ₘ own
  | .findByMountpoint _, some (s, _), own => .ref s ::ₘ own
  | .ready, some s, own => .ref s ::ₘ own
  | .base, some s, own => .use s ::ₘ own
  | .next _, some s, own => .use s ::ₘ own
  | .release s, _, own | .startAttention s _, _, own => own.erase (.ref s)
  | .leave s _, _, own => own.erase (.use s)
  | .abandon s, _, own | .discard s, _, own => own.erase (.made s)
  | _, _, own => own

def discipline : Discipline ServerOp ServerOp.Ans Token := ⟨needs, possible, after⟩

/-- The tokens of the threads that an operation starts. -/
def granted : ServerOp → Multiset Token
  | .startFuse s _ | .startRequest s _ => {.use s}
  | .startAttention s _ => {.ref s}
  | _ => 0

/-- A server that is taken off the list is used without a reference by no thread, apart from
the one that takes it off as its last use. -/
def Undisturbed (v : Servers) : ServerOp → Prop
  | .unlink s leaving => s ∈ v.list → (v.server s).users = if leaving then 1 else 0
  | _ => True

instance (v : Servers) : ∀ r, Decidable (Undisturbed v r)
  | .unlink s leaving =>
    inferInstanceAs (Decidable (s ∈ v.list → (v.server s).users = if leaving then 1 else 0))
  | .access .. | .choose | .init | .publish _ | .hold _ | .release _ | .findByMountpoint _ | .ready
  | .base | .next _ | .join .. | .fuseEnds .. | .startFuse .. | .startRequest ..
  | .startAttention .. | .leave .. | .abandon _ | .discard _ => .isTrue trivial

/-- No server was used after it was freed, and all tokens are accounted for. -/
structure Accounted (v : Servers) (T : Multiset Token) : Prop where
  sound : v.fault = false
  nodup : v.list.Nodup
  mem_list : ∀ s, s ∈ v.list ↔ (v.server s).listing = .listed
  counted : ∀ s, (v.server s).Counted (s < v.count) (T.count (.made s)) (T.count (.ref s))
    (T.count (.use s))

/-- The tokens differ at most in those for the server `s`. -/
def SameBut (s : Nat) (T T' : Multiset Token) : Prop :=
  ∀ t, t ≠ s → T'.count (.made t) = T.count (.made t) ∧ T'.count (.ref t) = T.count (.ref t) ∧
    T'.count (.use t) = T.count (.use t)

/-- The server of a token. -/
def Token.server : Token → Nat
  | .made s | .ref s | .use s => s

namespace SameBut

variable {s : Nat} {T T' T'' : Multiset Token} {x : Token}

theorem trans (h : SameBut s T T') (h' : SameBut s T' T'') : SameBut s T T'' := by
  intro t ht
  rw [(h' t ht).1, (h' t ht).2.1, (h' t ht).2.2]
  exact h t ht

theorem ne {y : Token} {t : Nat} (hx : x.server = s) (ht : t ≠ s) (hy : y.server = t) : y ≠ x := by
  rintro rfl
  exact ht (hy.symm.trans hx)

theorem cons (hx : x.server = s) : SameBut s T (x ::ₘ T) := by
  intro t ht
  refine ⟨?_, ?_, ?_⟩ <;> exact Multiset.count_cons_of_ne (ne hx ht rfl) T

theorem erase (hx : x.server = s) : SameBut s T (T.erase x) := by
  intro t ht
  refine ⟨?_, ?_, ?_⟩ <;> exact Multiset.count_erase_of_ne (ne hx ht rfl) T

end SameBut

theorem count_pos {own : Multiset Token} {x : Token} (h : x ∈ own) (rest : Multiset Token) :
    0 < (own + rest).count x := Multiset.count_pos.2 (Multiset.mem_add.2 (.inl h))

theorem touch_eq {v : Servers} {s : Nat} (hs : (v.server s).frees = 0) : v.touch s = v := by
  simp [Servers.touch, hs]

namespace Accounted

variable {v : Servers} {T T' own rest : Multiset Token} {s : Nat}

theorem frees_listed (h : Accounted v T) (hs : s ∈ v.list) : (v.server s).frees = 0 :=
  (h.counted s).frees_zero (.inr (.inr (.inr ((h.mem_list s).1 hs))))

theorem walk_eq (h : Accounted v T) : v.walk = v := by
  have hany : (v.list.any fun s => decide ((v.server s).frees ≠ 0)) = false := by
    simp only [any_eq_false, decide_eq_true_eq, not_not]
    exact fun s hs => h.frees_listed hs
  rw [Servers.walk, hany, Bool.or_false]

theorem guarded (h : Accounted v (own + rest)) (hs : Guarded s own) : (v.server s).frees = 0 := by
  refine (h.counted s).frees_zero ?_
  exact hs.imp (count_pos · rest) (Or.imp (count_pos · rest) fun hs => .inl (count_pos hs rest))

/-- One server changes, and the tokens for it. -/
theorem alter (h : Accounted v T) (f : AfpServer → AfpServer) (hT : SameBut s T T')
    (hl : (f (v.server s)).listing = .listed ↔ (v.server s).listing = .listed)
    (hx : (f (v.server s)).Counted (s < v.count) (T'.count (.made s)) (T'.count (.ref s))
      (T'.count (.use s))) : Accounted (v.alter s f) T' where
  sound := h.sound
  nodup := h.nodup
  mem_list t := by
    by_cases ht : t = s
    · subst ht
      simp only [Servers.alter, update_self]
      rw [hl]
      exact h.mem_list t
    · simp only [Servers.alter, update_of_ne ht]
      exact h.mem_list t
  counted t := by
    by_cases ht : t = s
    · subst ht
      simp only [Servers.alter, update_self]
      exact hx
    · simp only [Servers.alter, update_of_ne ht]
      rw [(hT t ht).1, (hT t ht).2.1, (hT t ht).2.2]
      exact h.counted t

theorem access (h : Accounted v T) (f : AfpServer → AfpSession) :
    Accounted (v.alter s fun x => { x with session := f x }) T :=
  h.alter _ (fun _ _ => ⟨rfl, rfl, rfl⟩) Iff.rfl ((h.counted s).session _)

theorem setSession (h : Accounted v T) (f : AfpSession → AfpSession) :
    Accounted (v.setSession s f) T :=
  h.access _

theorem hold (h : Accounted v T)
    (hs : 0 < T.count (.ref s) ∨ 0 < T.count (.use s) ∨ (v.server s).listing = .listed) :
    Accounted (v.hold s) (.ref s ::ₘ T) := by
  rw [Servers.hold, touch_eq ((h.counted s).frees_zero (.inr hs))]
  refine h.alter _ (.cons rfl) Iff.rfl ?_
  simpa using (h.counted s).hold hs

theorem enter (h : Accounted v T) (hs : s ∈ v.list) : Accounted (v.enter s) (.use s ::ₘ T) := by
  refine h.alter _ (.cons rfl) Iff.rfl ?_
  simpa using (h.counted s).enter ((h.mem_list s).1 hs)

section

variable (h : Accounted v (own + rest))

include h

theorem release (hs : .ref s ∈ own) : Accounted (v.release s) (own.erase (.ref s) + rest) := by
  rw [Servers.release, touch_eq (h.guarded (.inr (.inl hs))), ← Multiset.erase_add_left_pos _ hs]
  refine h.alter _ (.erase rfl) Iff.rfl ?_
  simpa using (h.counted s).release (count_pos hs rest)

theorem leave (hs : .use s ∈ own) : Accounted (v.leave s) (own.erase (.use s) + rest) := by
  rw [← Multiset.erase_add_left_pos _ hs]
  refine h.alter _ (.erase rfl) Iff.rfl ?_
  simpa using (h.counted s).leave

theorem abandon (hs : .made s ∈ own) :
    Accounted (v.alter s fun x => { x with listing := .abandoned }) (own.erase (.made s) + rest) := by
  have hm := count_pos hs rest
  rw [← Multiset.erase_add_left_pos _ hs]
  refine h.alter _ (.erase rfl) ?_ ?_
  · simp [((h.counted s).made_iff.1 hm).2]
  · simpa using (h.counted s).abandon hm

theorem discard (hs : .made s ∈ own) :
    Accounted ((v.touch s).alter s fun x => { x with
      listing := .discarded, refcount := 0, frees := x.frees + 1 }) (own.erase (.made s) + rest) := by
  have hm := count_pos hs rest
  rw [touch_eq (h.guarded (.inl hs)), ← Multiset.erase_add_left_pos _ hs]
  refine h.alter _ (.erase rfl) ?_ ?_
  · simp [((h.counted s).made_iff.1 hm).2]
  · simpa using (h.counted s).discard hm

/-- The maker of a server lists it. -/
theorem publish (hs : .made s ∈ own) :
    Accounted { (v.alter s fun x => { x with listing := .listed }).enter s with
      list := s :: v.list } ((.use s ::ₘ own.erase (.made s)) + rest) := by
  have hm := count_pos hs rest
  have hl := ((h.counted s).made_iff.1 hm).2
  have hnot : s ∉ v.list := by rw [h.mem_list, hl]; decide
  have hsame : SameBut s (own + rest) (.use s ::ₘ (own + rest).erase (.made s)) :=
    (SameBut.erase (x := .made s) rfl).trans (.cons (x := .use s) rfl)
  rw [Multiset.cons_add, ← Multiset.erase_add_left_pos _ hs]
  refine ⟨h.sound, nodup_cons.2 ⟨hnot, h.nodup⟩, fun t => ?_, fun t => ?_⟩
  · by_cases ht : t = s
    · subst ht
      simp [Servers.enter, Servers.alter]
    · simpa [Servers.enter, Servers.alter, ht] using h.mem_list t
  · by_cases ht : t = s
    · subst ht
      simpa [Servers.enter, Servers.alter] using (h.counted t).publish hm
    · simpa [Servers.enter, Servers.alter, ht] using h.counted t

end

/-- A thread takes a server off the list. -/
theorem remove (h : Accounted v T) (hs : s ∈ v.list) (hu : T.count (.use s) = 0) :
    Accounted { v.alter s fun x => { x with listing := .removed } with list := v.list.erase s }
      (.ref s ::ₘ T) := by
  have hx := (h.counted s).remove ((h.mem_list s).1 hs) hu
  refine ⟨h.sound, h.nodup.erase s, fun t => ?_, fun t => ?_⟩
  · by_cases ht : t = s
    · subst ht
      simp [Servers.alter, h.nodup.not_mem_erase]
    · simpa [Servers.alter, ht] using h.mem_list t
  · by_cases ht : t = s
    · subst ht
      simpa [Servers.alter] using hx
    · have hsame := (SameBut.cons rfl : SameBut s T (.ref s ::ₘ T)) t ht
      simpa [Servers.alter, ht] using h.counted t

theorem init (h : Accounted v T) :
    Accounted { v with server := update v.server v.count {}, count := v.count + 1 }
      (.made v.count ::ₘ T) := by
  have hc := h.counted v.count
  have hown := hc.unallocated (Nat.lt_irrefl _)
  refine ⟨h.sound, h.nodup, fun t => ?_, fun t => ?_⟩
  · by_cases ht : t = v.count
    · subst ht
      simp [h.mem_list, hown]
    · simpa [ht] using h.mem_list t
  · by_cases ht : t = v.count
    · subst ht
      have hm : T.count (.made v.count) = 0 :=
        Nat.eq_zero_of_not_pos fun hm => Nat.lt_irrefl _ (hc.made_iff.1 hm).1
      have hr : T.count (.ref v.count) = 0 :=
        Nat.eq_zero_of_not_pos fun hr => by simpa [hown] using hc.of_ref hr
      have hu : T.count (.use v.count) = 0 :=
        Nat.eq_zero_of_not_pos fun hu => by simpa [hown] using hc.of_use hu
      simp only [update_self, Multiset.count_cons_self, hm, ne_eq, reduceCtorEq,
        not_false_eq_true, Multiset.count_cons_of_ne, hr, hu]
      exact ⟨by decide, by simp, by simp, by simp, by simp, rfl, rfl, rfl⟩
    · have hsame := (SameBut.cons rfl : SameBut v.count T (.made v.count ::ₘ T)) t ht
      have hlt : t < v.count + 1 ↔ t < v.count := by omega
      simpa [ht, hlt] using h.counted t

theorem kept (h : Accounted v T) : Accounted v (T + 0) := by rwa [add_zero]

theorem gained {x : Token} (h : Accounted v (x ::ₘ (own + rest))) :
    Accounted v (x ::ₘ own + rest + 0) := by
  rwa [add_zero, Multiset.cons_add]

end Accounted

/-! ## The operations -/

variable {v v' : Servers} {own rest : Multiset Token} {s c : Nat}

section

variable (h : Accounted v (own + rest))

include h

theorem Accounted.made_unlisted (hs : .made s ∈ own) : (v.server s).listing = .own :=
  ((h.counted s).made_iff.1 (count_pos hs rest)).2

theorem Accounted.use_listed (hs : .use s ∈ own) : s ∈ v.list :=
  (h.mem_list s).2 ((h.counted s).of_use (count_pos hs rest))

theorem serve_publish {a : Published} (hn : Guarded s own)
    (hs : v.serve (.publish s) c = some (a, v')) :
    (a = .fresh ↔ .made s ∈ own) ∧ Accounted v' (after (.publish s) a own + rest) := by
  simp only [serve, h.walk_eq, touch_eq (h.guarded hn)] at hs
  split at hs
  · next hl =>
    cases hs
    refine ⟨⟨nofun, fun hm => ?_⟩, h⟩
    rw [h.made_unlisted hm] at hl
    cases hl
  · next hl =>
    have h₁ := h.setSession (s := s) fun x => { x with fd := true, state := .connecting }
    split at hs
    · next hmem =>
      cases hs
      refine ⟨⟨nofun, fun hm => ?_⟩, h₁⟩
      have hlisted := (h.mem_list s).1 hmem
      rw [h.made_unlisted hm] at hlisted
      cases hlisted
    · next hmem =>
      cases hs
      have hmade : .made s ∈ own := by
        obtain hm | hr | hu := hn
        · exact hm
        · obtain hl' | hl' := (h.counted s).of_ref (count_pos hr rest)
          · exact absurd ((h.mem_list s).2 hl') hmem
          · exact absurd hl' hl
        · exact absurd (h.use_listed hu) hmem
      exact ⟨iff_of_true rfl hmade, h₁.publish hmade⟩

theorem serve_unlink {leaving : Bool} {a : Bool} (hn : leaving = true → .use s ∈ own)
    (hok : s ∈ v.list → (v.server s).users = if leaving then 1 else 0)
    (hs : v.serve (.unlink s leaving) c = some (a, v')) :
    ((.made s ∈ own → a = false) ∧ (.use s ∈ own → a = true)) ∧
      Accounted v' (after (.unlink s leaving) a own + rest) := by
  simp only [serve, h.walk_eq] at hs
  cases leaving with
  | false =>
    simp only [Bool.false_eq_true, if_false] at hs hok
    split at hs
    · next hmem =>
      cases hs
      refine ⟨⟨fun hm => ?_, fun _ => rfl⟩, ?_⟩
      · rw [h.mem_list, h.made_unlisted hm] at hmem
        cases hmem
      · have hu := (h.counted s).users_eq
        rw [hok hmem] at hu
        simpa [after] using h.remove hmem hu.symm
    · next hmem =>
      cases hs
      exact ⟨⟨fun _ => rfl, fun hu => absurd (h.use_listed hu) hmem⟩, h⟩
  | true =>
    have huse := hn rfl
    have hmem := h.use_listed huse
    have hleft := h.leave huse
    have hu : (own.erase (.use s) + rest).count (.use s) = 0 := by
      have := hleft.counted s
      have hzero := this.users_eq
      simp only [Servers.leave, Servers.alter, update_self, hok hmem] at hzero
      exact hzero.symm
    simp only [if_true] at hs
    rw [if_pos (show s ∈ (v.leave s).list from hmem)] at hs
    cases hs
    refine ⟨⟨fun hm => ?_, fun _ => rfl⟩, ?_⟩
    · rw [h.mem_list, h.made_unlisted hm] at hmem
      cases hmem
    · simpa [after] using hleft.remove hmem hu

end

theorem add_singleton (T : Multiset Token) (x : Token) : T + {x} = x ::ₘ T := by
  rw [add_comm, Multiset.singleton_add]

/-- An operation that a thread has the tokens for keeps the account. -/
theorem serve_accounted {r : ServerOp} {a : r.Ans} (hs : v.serve r c = some (a, v'))
    (hok : Undisturbed v r) (hn : needs r own) (h : Accounted v (own + rest)) :
    possible r a own ∧ Accounted v' (after r a own + rest + granted r) := by
  cases r with
  | access s f =>
    simp only [serve, touch_eq (h.guarded hn)] at hs
    cases hs
    exact ⟨trivial, (h.access f).kept⟩
  | choose =>
    cases hs
    exact ⟨trivial, h.kept⟩
  | init =>
    cases hs
    exact ⟨trivial, h.init.gained⟩
  | publish s =>
    obtain ⟨hp, h'⟩ := serve_publish h hn hs
    exact ⟨hp, h'.kept⟩
  | unlink s leaving =>
    obtain ⟨hp, h'⟩ := serve_unlink h hn hok hs
    exact ⟨hp, h'.kept⟩
  | hold s =>
    cases hs
    have hheld := h.hold (hn.imp (count_pos · rest) fun hu => .inl (count_pos hu rest))
    exact ⟨trivial, hheld.gained⟩
  | release s =>
    cases hs
    exact ⟨trivial, (h.release hn).kept⟩
  | findByMountpoint mountpoint =>
    simp only [serve, h.walk_eq] at hs
    split at hs
    · cases hs
      exact ⟨trivial, h.kept⟩
    · next s j hf =>
      cases hs
      have hmem : s ∈ v.list := by
        obtain ⟨t, ht, hj⟩ := exists_of_findSome?_eq_some hf
        obtain ⟨_, -, he⟩ := Option.map_eq_some_iff.1 hj
        cases he
        exact ht
      exact ⟨trivial, (h.hold (.inr (.inr ((h.mem_list s).1 hmem)))).gained⟩
  | ready =>
    simp only [serve, h.walk_eq] at hs
    split at hs
    · next s hc =>
      split at hs
      · cases hs
        have hmem := (h.mem_list s).1 (mem_of_getElem? hc)
        exact ⟨trivial, (h.hold (.inr (.inr hmem))).gained⟩
      · cases hs
        exact ⟨trivial, h.kept⟩
    · cases hs
      exact ⟨trivial, h.kept⟩
  | base =>
    simp only [serve] at hs
    split at hs
    · cases hs
      exact ⟨trivial, h.kept⟩
    · next s hb =>
      cases hs
      exact ⟨trivial, (h.enter (mem_of_head? hb)).gained⟩
  | next s =>
    simp only [serve, touch_eq (h.guarded (.inr (.inr hn)))] at hs
    split at hs
    · cases hs
      exact ⟨trivial, h.kept⟩
    · next t ht =>
      cases hs
      have hmem : t ∈ v.list := (dropWhile_sublist _).mem (mem_of_mem_tail (mem_of_head? ht))
      exact ⟨trivial, (h.enter hmem).gained⟩
  | join s j =>
    simp only [serve] at hs
    split at hs
    · cases hs
      exact ⟨trivial, h.kept⟩
    · cases hs
  | fuseEnds s j =>
    simp only [serve, touch_eq (h.guarded hn)] at hs
    split at hs
    · cases hs
      exact ⟨trivial, (h.setSession _).kept⟩
    · cases hs
  | startFuse s j | startRequest s j =>
    simp only [serve, touch_eq (h.guarded (.inr (.inr hn)))] at hs
    cases hs
    refine ⟨trivial, ?_⟩
    rw [granted, add_singleton]
    exact (h.setSession _).enter (h.use_listed hn)
  | startAttention s generation =>
    cases hs
    refine ⟨trivial, ?_⟩
    show Accounted v (own.erase (.ref s) + rest + {.ref s})
    rw [add_singleton, ← Multiset.cons_add, Multiset.cons_erase hn]
    exact h
  | leave s f =>
    cases hs
    exact ⟨trivial, ((h.leave hn).setSession _).kept⟩
  | abandon s =>
    cases hs
    exact ⟨trivial, (h.abandon hn).kept⟩
  | discard s =>
    cases hs
    exact ⟨trivial, (h.discard hn).kept⟩

end Fuse

end NC
