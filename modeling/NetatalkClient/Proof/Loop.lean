import NetatalkClient.Model.Loop

/-!
# Which descriptors the main loop watches

If no access of another call comes between the accesses of one update, the calls may take turns in
any way: a descriptor is set before the bound is raised above it, and the bound drops only past
descriptors that are not set (`Watching`). Then `rds` and `max_fd` are right whenever no call is
running (`watched_when_undivided`). `add_fd` and `rm_fd` do nothing to keep another thread out, and
both a bit and the bound can be lost (`descriptor_unwatched`).
-/

namespace NC

open List

def FdPc.running : FdPc → Bool
  | .returned => false
  | _ => true

/-- A call has read what it is about to write, or to write from. -/
def FdPc.between : FdPc → Bool
  | .store .. | .raise _ | .index | .test _ | .decrement | .lower _ => true
  | .load .. | .compare _ | .cond | .returned => false

namespace LoopFds

variable {s s' : LoopFds} {u : Nat} {pc : FdPc}

def pcOf (s : LoopFds) (u : Nat) : FdPc := s.calls.getD u .returned

/-- No other call is in the middle of an update. -/
def NotBetween (s : LoopFds) : FdAct → Prop
  | .call .. => True
  | .access u => ∀ v < s.calls.length, v ≠ u → (s.pcOf v).between = false

instance (s : LoopFds) (a : FdAct) : Decidable (s.NotBetween a) := by
  unfold NotBetween
  split <;> infer_instance

/-- What a call has read is still so. -/
def Holds (s : LoopFds) : FdPc → Prop
  | .store _ _ word => word = s.rds
  | .raise fd => s.maxFd ≤ fd
  | .index => 0 < s.maxFd
  | .test m => m = s.maxFd
  | .decrement => 0 < s.maxFd ∧ s.rds (s.maxFd - 1).toNat = false
  | .lower m => m = s.maxFd ∧ 0 < m ∧ s.rds (m - 1).toNat = false
  | .load .. | .compare _ | .cond | .returned => True

/-- What holds in every state: a descriptor above the bound has a call that is about to raise it. -/
structure Watching (s : LoopFds) : Prop where
  live : s.rds = s.live
  holds : ∀ u, s.Holds (s.pcOf u)
  bound : ∀ fd, s.rds fd = true →
    (fd : Int) < s.maxFd ∨ ∃ u, s.pcOf u = .compare fd ∨ s.pcOf u = .raise fd

theorem holds_of_not_between (h : pc.between = false) : s.Holds pc := by
  cases pc <;> trivial

/-- A step of call `u`: what it has read still holds, and a descriptor above the bound is its own or
that of another call. -/
theorem Watching.access (h : s.Watching) (hu : u < s.calls.length) (hok : s.NotBetween (.access u))
    (hcalls : s'.calls = s.calls.set u pc) (hlive : s'.rds = s'.live) (hholds : s'.Holds pc)
    (hbound : ∀ fd : Nat, s'.rds fd = true → (s.rds fd = true →
        (fd : Int) < s.maxFd ∨ s.pcOf u = .compare fd ∨ s.pcOf u = .raise fd) →
      (fd : Int) < s'.maxFd ∨ pc = .compare fd ∨ pc = .raise fd) : s'.Watching := by
  have hpc : ∀ v, s'.pcOf v = if v = u then pc else s.pcOf v := by
    intro v
    rw [pcOf, hcalls]
    exact getD_set hu pc .returned v
  refine ⟨hlive, fun v => ?_, fun fd hfd => ?_⟩
  · rw [hpc]
    split
    · exact hholds
    · next hv =>
      by_cases hlt : v < s.calls.length
      · exact holds_of_not_between (hok v hlt hv)
      · rw [pcOf, getD_eq_default _ _ (Nat.not_lt.1 hlt)]
        trivial
  · by_cases hv : ∃ v, v ≠ u ∧ (s.pcOf v = .compare fd ∨ s.pcOf v = .raise fd)
    · obtain ⟨v, hne, hv⟩ := hv
      exact .inr ⟨v, by rwa [hpc, if_neg hne]⟩
    · refine (hbound fd hfd fun hold => ?_).imp_right fun he => ⟨u, by rwa [hpc, if_pos rfl]⟩
      refine (h.bound fd hold).imp_right ?_
      rintro ⟨v, he⟩
      by_cases hvu : v = u
      · rwa [hvu] at he
      · exact absurd ⟨v, hvu, he⟩ hv

theorem Watching.goto (h : s.Watching) (hu : u < s.calls.length) (hok : s.NotBetween (.access u))
    (hholds : s.Holds pc) (hraise : ∀ fd, s.pcOf u ≠ .raise fd)
    (hcompare : ∀ fd : Nat, s.pcOf u = .compare fd → (fd : Int) < s.maxFd ∨ pc = .raise fd) :
    (s.goto u pc).Watching := by
  have hholds' : (s.goto u pc).Holds pc := by cases pc <;> exact hholds
  refine h.access hu hok rfl h.live hholds' fun fd hfd hold => ?_
  rcases hold hfd with hlt | he | he
  · exact .inl hlt
  · exact (hcompare fd he).imp_right .inr
  · exact absurd he (hraise fd)

theorem Watching.call (h : s.Watching) (add : Bool) (fd : Nat) :
    ({ s with calls := s.calls ++ [.load add fd] } : LoopFds).Watching := by
  have hpc : ∀ v, ({ s with calls := s.calls ++ [.load add fd] } : LoopFds).pcOf v =
      if v = s.calls.length then .load add fd else s.pcOf v :=
    getD_concat _ _ _
  refine ⟨h.live, fun v => ?_, fun fd' hfd => (h.bound fd' hfd).imp_right ?_⟩
  · rw [hpc]
    split
    · trivial
    · have hv := h.holds v
      revert hv
      cases s.pcOf v <;> exact id
  · rintro ⟨v, he⟩
    refine ⟨v, ?_⟩
    rw [hpc, if_neg]
    · exact he
    · rintro rfl
      simp [pcOf] at he

theorem Watching.step (h : s.Watching) {a : FdAct} (hok : s.NotBetween a) (hs : s.step a = some s') :
    s'.Watching := by
  cases a with
  | call add fd =>
    cases hs
    exact h.call add fd
  | access u =>
    obtain ⟨pc, hpc, hs⟩ := Option.bind_eq_some_iff.1 hs
    have hu := (List.getElem?_eq_some_iff.1 hpc).1
    have hself : s.pcOf u = pc := by rw [pcOf, List.getD_eq_getElem?_getD, hpc, Option.getD_some]
    have hread := h.holds u
    rw [hself] at hread
    cases pc with
    | load add fd =>
      cases hs
      exact h.goto hu hok rfl (by simp [hself]) (by simp [hself])
    | store add fd word =>
      cases hs
      obtain rfl : word = s.rds := hread
      have hrds : (fun g => if g / 64 = fd / 64 then (if g = fd then add else s.rds g) else s.rds g) =
          Function.update s.rds fd add := by
        funext g
        by_cases hg : g = fd <;> simp [hg]
      refine h.access hu hok rfl (hrds.trans (by rw [h.live])) (by split <;> trivial)
        fun g hg hold => ?_
      replace hg := (congrFun hrds g).symm.trans hg
      by_cases hne : g = fd
      · subst hne
        rw [Function.update_self] at hg
        exact .inr (.inl (by rw [if_pos hg]))
      · rw [Function.update_of_ne hne] at hg
        have hlt : (g : Int) < s.maxFd := by simpa [hself] using hold hg
        exact .inl hlt
    | compare fd =>
      cases hs
      split
      · next hlt =>
        exact h.goto hu hok (Int.lt_add_one_iff.1 hlt) (by simp [hself]) (by simp [hself])
      · next hge =>
        refine h.goto hu hok trivial (by simp [hself]) fun g he => .inl ?_
        cases hself.symm.trans he
        omega
    | raise fd =>
      cases hs
      have hle : s.maxFd ≤ fd := hread
      refine h.access hu hok rfl h.live trivial fun g hg hold => .inl ?_
      show (g : Int) < fd + 1
      rcases hold hg with hlt | he | he
      · omega
      · cases hself.symm.trans he
      · cases hself.symm.trans he
        omega
    | cond =>
      cases hs
      refine h.goto hu hok ?_ (by simp [hself]) (by simp [hself])
      split
      · next hlt => exact hlt
      · trivial
    | index =>
      cases hs
      exact h.goto hu hok rfl (by simp [hself]) (by simp [hself])
    | test m =>
      obtain rfl : m = s.maxFd := hread
      obtain ⟨hpos, ⟨⟩⟩ := Option.ite_none_left_eq_some.1 hs
      refine h.goto hu hok ?_ (by simp [hself]) (by simp [hself])
      split
      · trivial
      · next hclear => exact ⟨by omega, Bool.eq_false_iff.2 hclear⟩
    | decrement =>
      cases hs
      exact h.goto hu hok ⟨rfl, hread⟩ (by simp [hself]) (by simp [hself])
    | lower m =>
      cases hs
      obtain ⟨rfl, hpos, hclear⟩ := hread
      refine h.access hu hok rfl h.live trivial fun g hg hold => .inl ?_
      have hlt : (g : Int) < s.maxFd := by simpa [hself] using hold hg
      have hne : g ≠ (s.maxFd - 1).toNat := by
        rintro rfl
        exact nomatch hclear.symm.trans hg
      show (g : Int) < s.maxFd - 1
      omega
    | returned => cases hs

/-! ## Runs -/

/-- No call is running. -/
def Idle (s : LoopFds) : Prop := ∀ pc ∈ s.calls, pc.running = false

instance (s : LoopFds) : Decidable s.Idle := inferInstanceAs (Decidable (∀ _ ∈ _, _))

/-- In every run in which no access comes between those of one update of another call, whenever no
call is running, `rds` has the descriptors added and not removed since, and `max_fd` is above each of
them. -/
theorem watched_when_undivided {as : List FdAct} (hok : OkRun step NotBetween init as)
    (h : runSteps step init as = some s) (hidle : s.Idle) (fd : Nat) :
    s.rds fd = s.live fd ∧ (s.rds fd = true → (fd : Int) < s.maxFd) := by
  have hinit : init.Watching := ⟨rfl, fun _ => trivial, nofun⟩
  have hw : s.Watching := runSteps_invariant (fun s a s' hs hok hw => hw.step hok hs) hinit hok h
  refine ⟨congrFun hw.live fd, fun hfd => (hw.bound fd hfd).resolve_right ?_⟩
  rintro ⟨u, he⟩
  have hpc : (s.pcOf u).running = false := by
    by_cases hu : u < s.calls.length
    · rw [pcOf, getD_eq_getElem _ _ hu]
      exact hidle _ (getElem_mem hu)
    · rw [pcOf, getD_eq_default _ _ (Nat.not_lt.1 hu)]
      rfl
  rcases he with he | he <;> rw [he] at hpc <;> cases hpc

/-- Descriptor 9 is added, and then removed while descriptor 20 is added. -/
def takingTurns : List FdAct :=
  .call true 9 :: List.replicate 4 (.access 0) ++ [.call false 9, .call true 20, .access 1, .access 1,
    .access 2, .access 2] ++ List.replicate 5 (.access 1) ++ [.access 2, .access 2] ++
    List.replicate 3 (.access 1)

theorem watched_when_undivided_turns : OkRun step NotBetween init takingTurns ∧
    ∃ s, runSteps step init takingTurns = some s ∧ s.Idle ∧ s.rds 20 = true ∧
      s.rds 20 = s.live 20 ∧ (s.rds 20 = true → ((20 : Nat) : Int) < s.maxFd) := by
  have hok : OkRun step NotBetween init takingTurns := by decide +kernel
  have hrun : (runSteps step init takingTurns).any fun s => s.Idle ∧ s.rds 20 = true := by
    decide +kernel
  obtain ⟨s, hs, hrun⟩ := (Option.any_eq_true ..).1 hrun
  obtain ⟨hidle, hset⟩ := of_decide_eq_true hrun
  exact ⟨hok, s, hs, hidle, hset, watched_when_undivided hok hs hidle 20⟩

/-- Two descriptors of one word are added, and the first is lost. And while descriptor 9 is removed,
descriptor 20 is added, and its bound is lost to one that was read before. -/
theorem descriptor_unwatched :
    (runSteps step init [.call true 5, .call true 9, .access 0, .access 1, .access 0, .access 1,
        .access 0, .access 0, .access 1, .access 1]).any
      (fun s => s.Idle ∧ s.live 5 = true ∧ s.rds 5 = false) ∧
    (runSteps step init (.call true 9 :: List.replicate 4 (.access 0) ++ [.call false 9, .call true 20] ++
        List.replicate 6 (.access 1) ++ List.replicate 4 (.access 2) ++
        List.replicate 47 (.access 1))).any
      (fun s => s.Idle ∧ s.rds 20 = true ∧ s.maxFd = 0) := by
  decide +kernel

end LoopFds

end NC
