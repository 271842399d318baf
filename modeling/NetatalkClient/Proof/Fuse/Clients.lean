import NetatalkClient.Model.Fuse.Clients

/-!
# One client at a time

While a command thread runs, `fuse_scan_extra_fds` is not called (`OneAtATime`). A client that is
accepted is then served in the same call and gone before the next, so the list never has a second one.
`Phase` says what the one thread at work has yet to do for it, and `Alone.step` that every step keeps
to that.
-/

namespace NC.FsdClients

open Function

/-- No thread is at work when `fuse_scan_extra_fds` is called, `fuse_add_client` succeeds with a
descriptor other than 0, and so does `pthread_create`. -/
def OneAtATime (s : FsdClients) : ClientAct → Prop
  | .call _ accepted => (∀ u < s.threads + 1, s.pc u = .idle) ∧ ∀ a ∈ accepted, a.1 ≠ 0 ∧ a.2 = true
  | .step _ got => got ≠ some false

instance {s : FsdClients} {a : ClientAct} : Decidable (OneAtATime s a) :=
  match a with
  | .call .. => inferInstanceAs (Decidable (_ ∧ _))
  | .step .. => inferInstanceAs (Decidable (_ ≠ _))

/-- The open descriptors and the client list where the thread at work is. -/
inductive Phase (fd : Nat → Nat) : List Nat → Option Nat → ClientPc → Prop
  | idle : Phase fd [] none .idle
  | unready set : Phase fd [] none (.entry set)
  | scanned set : Phase fd [] none (.scan none set)
  | ending d : Phase fd [d] none (.ending d)
  | entry {c set} (h : fd c ≠ 0) (hset : fd c ∈ set) : Phase fd [fd c] (some c) (.entry set)
  | scan {c set} (h : fd c ≠ 0) (hset : fd c ∈ set) : Phase fd [fd c] (some c) (.scan (some c) set)
  | command {c} (h : fd c ≠ 0) : Phase fd [fd c] (some c) (.command c)
  | respond {c} (h : fd c ≠ 0) : Phase fd [fd c] (some c) (.respond c)
  | retire {c} : Phase fd [fd c] (some c) (.retire c)
  | remove c d : Phase fd d.toList (some c) (.remove c d)
  | walk c d : Phase fd d.toList (some c) (.walk c (some c) none d)

/-- At most one client is listed, and all others are freed. -/
structure Kept (s : FsdClients) : Prop where
  sound : s.fault = false
  once : s.freed.Nodup
  freed : ∀ c, c ∈ s.freed ↔ c < s.made ∧ s.base ≠ some c
  last : ∀ c ∈ s.base, c < s.made ∧ s.next c = none

/-- No thread but `u` is at work. -/
structure Alone (s : FsdClients) (u : Nat) : Prop extends Kept s where
  started : u ≤ s.threads
  others : ∀ v, v ≠ u → s.pc v = .idle
  phase : Phase s.fd s.opened s.base (s.pc u)

variable {s s' : FsdClients} {u c : Nat} {a : ClientAct}

theorem Kept.goto (h : Kept s) (hu : u ≤ s.threads) (ho : ∀ v, v ≠ u → s.pc v = .idle) {pc : ClientPc}
    (hp : Phase s.fd s.opened s.base pc) : Alone (s.goto u pc) u where
  toKept := ⟨h.sound, h.once, h.freed, h.last⟩
  started := hu
  others v hv := (update_of_ne hv ..).trans (ho v hv)
  phase := by
    show Phase _ _ _ (update s.pc u pc u)
    rwa [update_self]

theorem Kept.use (h : Kept s) (hc : s.base = some c) : s.use c = s := by
  have hnot : c ∉ s.freed := fun hf => ((h.freed c).1 hf).2 hc
  simp [FsdClients.use, hnot]

theorem close_open {fd : Nat} (ho : s.opened = [fd]) : s.close fd = { s with opened := [] } := by
  simp [close, ho]

theorem removed_eq (s : FsdClients) (u : Nat) (fd : Option Nat) :
    ∃ pc, s.removed u fd = s.goto u pc ∧ Phase s.fd fd.toList none pc := by
  cases fd with
  | none => exact ⟨_, rfl, .idle⟩
  | some d => exact ⟨_, rfl, .ending d⟩

theorem Kept.unlink (h : Kept s) (hb : s.base = some c) : Kept (s.unlink c none) := by
  rw [FsdClients.unlink, h.use hb]
  refine ⟨h.sound, List.nodup_cons.2 ⟨fun hc => ((h.freed c).1 hc).2 hb, h.once⟩, fun d => ?_, nofun⟩
  rw [List.mem_cons, h.freed d, hb]
  by_cases e : d = c
  · simp [e, (h.last c hb).1]
  · simp [e, Ne.symm e]

theorem Alone.advance (h : Alone s u) {got : Option Bool} (hgot : got ≠ some false) (hs : s.advance u got (s.pc u) = some s') :
    ∃ u', Alone s' u' := by
  have hphase := h.phase
  have kept {fd opened pc} (hp : Phase fd opened s.base pc) :
      ∃ u', Alone ({ s with fd, opened }.goto u pc) u' :=
    ⟨u, Kept.goto (s := { s with fd, opened }) ⟨h.sound, h.once, h.freed, h.last⟩ h.started h.others hp⟩
  generalize ho : s.opened = o, hb : s.base = b, hpc : s.pc u = pc at hphase hs
  cases hphase with
  | idle => cases hs
  | unready set =>
    cases hs
    exact kept (ho ▸ hb ▸ .scanned set)
  | scanned set =>
    cases hs
    exact kept (ho ▸ hb ▸ .idle)
  | ending d =>
    cases hs
    rw [close_open ho]
    exact kept (hb ▸ .idle)
  | entry hd hset =>
    cases hs
    exact kept (ho ▸ hb ▸ .scan hd hset)
  | scan hd hset =>
    cases hs
    rw [h.use hb, if_pos hset]
    exact kept (ho ▸ hb ▸ .command hd)
  | command hd =>
    match got, hgot with
    | some true, _ =>
      rw [FsdClients.advance, h.use hb] at hs
      cases hs
      refine ⟨_, Kept.goto (s := { s.goto u .idle with threads := s.threads + 1 })
        ⟨h.sound, h.once, h.freed, h.last⟩ (Nat.le_refl _) (fun v _ => ?_) (ho ▸ hb ▸ .respond hd)⟩
      by_cases e : v = u
      · rw [e]; exact update_self ..
      · exact (update_of_ne e ..).trans (h.others v e)
    | none, _ =>
      rw [FsdClients.advance, h.use hb] at hs
      cases hs
      exact kept (show Phase _ s.opened s.base _ from ho ▸ hb ▸ .remove _ (some _))
  | respond hd =>
    cases hs
    rw [h.use hb, if_neg hd]
    exact kept (ho ▸ hb ▸ .retire)
  | retire =>
    cases hs
    rw [h.use hb, close_open ho]
    exact kept (hb ▸ .remove _ none)
  | remove c d =>
    cases hs
    exact kept (ho ▸ hb ▸ .walk c d)
  | walk c d =>
    rw [FsdClients.advance, if_pos rfl] at hs
    cases hs
    obtain ⟨pc, e, hp⟩ := removed_eq (s.unlink c none) u d
    rw [e]
    exact ⟨u, (h.unlink hb).goto h.started h.others (ho.symm ▸ hp)⟩

theorem Alone.step (h : Alone s u) (hok : s.OneAtATime a) (hs : s.step a = some s') :
    ∃ u', Alone s' u' := by
  cases a with
  | step v got =>
    obtain rfl | hv := eq_or_ne v u
    · exact h.advance hok hs
    · rw [FsdClients.step, h.others v hv] at hs
      cases hs
  | call set accepted =>
    obtain ⟨-, ⟨⟩⟩ := Option.ite_none_right_eq_some.1 hs
    obtain ⟨hidle, hacc⟩ := hok
    have hall : ∀ v, s.pc v = .idle := by
      intro v
      obtain rfl | hv := eq_or_ne v u
      · exact hidle v (Nat.lt_succ_of_le h.started)
      · exact h.others v hv
    have hphase := h.phase
    rw [hall u] at hphase
    generalize ho : s.opened = o, hb : s.base = b at hphase
    cases hphase with
    | idle =>
      match accepted, hacc with
      | none, _ => exact ⟨0, h.goto (Nat.zero_le _) (fun v _ => hall v) (ho ▸ hb ▸ .unready set)⟩
      | some (fd, true), hacc =>
        have hfd : update s.fd s.made fd s.made = fd := update_self ..
        have hne : update s.fd s.made fd s.made ≠ 0 := hfd.symm ▸ (hacc _ rfl).1
        have hp := Phase.entry hne (hfd.symm ▸ List.mem_cons_self : _ ∈ fd :: set)
        rw [fuseScanExtraFds, hb]
        refine ⟨0, Kept.goto (s := { s with
            base := some s.made, next := update s.next s.made none
            fd := update s.fd s.made fd, made := s.made + 1, opened := fd :: s.opened })
          ⟨h.sound, h.once, fun c => ?_, ?_⟩ (Nat.zero_le _) (fun v _ => hall v) ?_⟩
        · rw [h.freed c, hb]
          simp only [ne_eq, reduceCtorEq, not_false_eq_true, and_true, Option.some.injEq]
          omega
        · rintro _ ⟨⟩
          exact ⟨Nat.lt_succ_self _, update_self ..⟩
        · rw [ho]
          rwa [hfd] at hp
      | some (fd, false), hacc => exact nomatch (hacc _ rfl).2

/-! ## Runs -/

theorem Kept.mem_listed (h : Kept s) : c ∈ s.listed ↔ s.base = some c := by
  have hnone (n : Nat) : s.chain n none = [] := by cases n <;> rfl
  cases hb : s.base with
  | none => simp [listed, hb, hnone]
  | some b =>
    obtain ⟨hlt, hnext⟩ := h.last b hb
    obtain ⟨m, hm⟩ := Nat.exists_eq_add_one_of_ne_zero (Nat.ne_of_gt (Nat.zero_lt_of_lt hlt))
    simp [listed, hb, hm, chain, hnext, eq_comm]

/-- In every run of calls one at a time, the list has exactly the clients accepted and not freed, no
record is used or freed once it is freed, and only open descriptors are closed; and when no thread
is at work, every record is freed and every accepted descriptor closed. -/
theorem clients_kept_when_alone {as : List ClientAct} (hok : OkRun step OneAtATime init as)
    (h : runSteps step init as = some s) :
    s.fault = false ∧ s.freed.Nodup ∧ (∀ c, c ∈ s.listed ↔ c < s.made ∧ c ∉ s.freed) ∧
      ((∀ u, s.pc u = .idle) → (∀ c, c < s.made → c ∈ s.freed) ∧ s.opened = []) := by
  have hinit : ∃ u, Alone init u := ⟨0, ⟨rfl, .nil, by simp [init], nofun⟩, Nat.le_refl _,
    fun _ _ => rfl, .idle⟩
  obtain ⟨u, hu⟩ := runSteps_invariant (I := fun s => ∃ u, Alone s u)
    (fun _ _ _ hs hok ⟨_, hu⟩ => hu.step hok hs) hinit hok h
  refine ⟨hu.sound, hu.once, fun c => ?_, fun hidle => ?_⟩
  · rw [hu.mem_listed, hu.freed c]
    refine ⟨fun hb => ⟨(hu.last c hb).1, fun h => h.2 hb⟩, fun ⟨hc, hn⟩ => ?_⟩
    exact not_not.1 fun hne => hn ⟨hc, hne⟩
  · have hphase := hu.phase
    rw [hidle u] at hphase
    generalize ho : s.opened = o, hb : s.base = b at hphase
    cases hphase with
    | idle => exact ⟨fun c hc => (hu.freed c).2 ⟨hc, hb ▸ nofun⟩, rfl⟩

/-- A client sends a command, and after it one hangs up. -/
def twoClients : List ClientAct :=
  [.call [] (some (4, true)), .step 0 none, .step 0 none, .step 0 (some true)] ++
    List.replicate 4 (.step 1 none) ++ .call [] (some (4, true)) :: List.replicate 6 (.step 0 none)

theorem clients_kept_when_alone_two : OkRun step OneAtATime init twoClients ∧
    ∃ s, runSteps step init twoClients = some s ∧ s.made = 2 ∧ s.fault = false ∧ s.freed.Nodup := by
  have hok : OkRun step OneAtATime init twoClients := by decide +kernel
  have hrun : (runSteps step init twoClients).any (·.made = 2) := by decide +kernel
  obtain ⟨s, hs, hmade⟩ := (Option.any_eq_true ..).1 hrun
  have h := clients_kept_when_alone hok hs
  exact ⟨hok, s, hs, of_decide_eq_true hmade, h.1, h.2.1⟩

/-- A client is lost when one before it on the list finishes: it never finishes itself. And a client
whose command gets no thread stays, with its descriptor open. -/
theorem client_lost :
    (runSteps step init ([.call [] (some (4, true)), .step 0 none, .step 0 none, .step 0 (some true),
        .call [] (some (5, true))] ++ List.replicate 5 (.step 0 (some true)) ++
        List.replicate 4 (.step 1 none) ++ List.replicate 4 (.step 2 none))).any
      (fun s => (∀ u < s.threads + 1, s.pc u = .idle) ∧ s.made = 2 ∧ s.listed = [] ∧ s.freed = [0]) ∧
    (runSteps step init [.call [] (some (4, true)), .step 0 none, .step 0 none,
        .step 0 (some false)]).any
      (fun s => (∀ u < s.threads + 1, s.pc u = .idle) ∧ s.listed = [0] ∧ s.opened = [4]) := by
  decide +kernel

end NC.FsdClients
