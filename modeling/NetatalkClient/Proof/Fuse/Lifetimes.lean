import NetatalkClient.Proof.Fuse.Ownership

/-!
# The lifetimes of server structures

`Lifetimes` is what the reference counts are for: no server is used after it was freed, and
one that was listed is freed once, by whoever releases the last reference after it was taken
off the list. `servers_freed_once` has it of every run in which no server is taken off the
list while a thread uses it without a reference.

The forced end is such a thread, and it takes the server off itself: where the volume that
it unmounts is the last one attached, `forced_end_uses_freed_server` reads the number of
volumes of a server that is gone.
-/

namespace NC.Fuse

/-- The servers' lifetimes are as they should be. A server that never was on the list is
freed by its maker. -/
structure Lifetimes (v : Servers) : Prop where
  no_use_after_free : v.fault = false
  once : ∀ s, (v.server s).frees ≤ 1
  freed : ∀ s, (v.server s).frees = 1 → (v.server s).refcount = 0 ∧
    ((v.server s).listing = .removed ∨ (v.server s).listing = .discarded)
  released : ∀ s, (v.server s).listing = .removed → (v.server s).refcount = 0 →
    (v.server s).frees = 1

theorem Accounted.lifetimes {v : Servers} {T : Multiset Token} (h : Accounted v T) :
    Lifetimes v where
  no_use_after_free := h.sound
  once s := by
    rw [(h.counted s).frees_eq]
    split <;> omega
  freed s hs := by
    have hc := h.counted s
    have hzero : (v.server s).refcount = 0 := by
      by_contra hne
      rw [hc.frees_eq, if_neg hne] at hs
      cases hs
    have hstanding := hc.refcount_eq
    refine ⟨hzero, ?_⟩
    cases hl : (v.server s).listing with
    | own | listed | abandoned =>
      rw [hzero, hl, Listing.standing] at hstanding
      omega
    | removed => exact .inl rfl
    | discarded => exact .inr rfl
  released s _ hs := by rw [(h.counted s).frees_eq, if_pos hs]

/-- Without tokens, every server taken off the list was freed. -/
theorem Accounted.freed_of_removed {v : Servers} (h : Accounted v 0) {s : Nat}
    (hs : (v.server s).listing = .removed) : (v.server s).frees = 1 := by
  have hc := (h.counted s).refcount_eq
  rw [hs] at hc
  exact h.lifetimes.released s hs hc

theorem start_owned : start.Owned discipline Accounted := by
  refine ⟨[], rfl, nofun, rfl, List.nodup_nil, fun s => ?_, fun s => ?_⟩
  · simp [start]
  · exact ⟨by simp, by simp [start], fun _ => rfl, by simp, by simp, by simp [start], by
      simp [start, Listing.standing], rfl⟩

theorem step_owned {p p' : Daemon} {x : PoolStep Task Nat} (h : step p x = some p')
    (hok : p.StepOk Undisturbed x) (hp : p.Owned discipline Accounted) :
    p'.Owned discipline Accounted := by
  refine hp.step task_keeps (fun v r c a v' own rest hs hr hn hI => ?_) hok h
  obtain ⟨hposs, hI'⟩ := serve_accounted hs hr hn hI
  obtain ⟨new, hnew, hkeep, hsum⟩ := spawned_keeps r
  exact ⟨hposs, new, hnew, hkeep, by rw [hsum]; exact hI'⟩

/-- In every run of the daemon's threads in which no server is taken off the list while a
thread uses it without a reference, no server is used after it was freed, a server is freed
at most once, after it was taken off the list and the last reference was released, and once
all threads have ended every server that was taken off has been freed. -/
theorem servers_freed_once {as : List (PoolStep Task Nat)} {p : Daemon}
    (hok : OkRun step (Pool.StepOk Undisturbed) start as) (h : runSteps step start as = some p) :
    Lifetimes p.env ∧ ((∀ th ∈ p.threads, ∃ a, th = .ret a) →
      ∀ s, (p.env.server s).listing = .removed → (p.env.server s).frees = 1) := by
  have hp : p.Owned discipline Accounted :=
    runSteps_invariant (fun _ _ _ hstep hok hp => step_owned hstep hok hp) start_owned hok h
  refine ⟨?_, fun hend s hs => (hp.ended hend).freed_of_removed hs⟩
  obtain ⟨l, -, -, hI⟩ := hp
  exact hI.lifetimes

/-- `n` steps of a thread, each with the choice `c`. -/
def steps (i n c : Nat) : List (PoolStep Task Nat) := List.replicate n (.run i c)

/-- A server with one volume is mounted, and its FUSE thread runs. -/
def mountRun : List (PoolStep Task Nat) :=
  .start (.mount [1]) :: (steps 0 45 1 ++ steps 0 1 0 ++ steps 0 16 1 ++ steps 0 1 0 ++
    steps 0 16 1 ++ steps 0 2 0 ++ steps 1 3 1)

/-- The volume is unmounted by a command. -/
def unmountRun : List (PoolStep Task Nat) :=
  mountRun ++ .start (.unmount [1]) :: (steps 2 7 0 ++ steps 1 6 0 ++ steps 2 22 0)

/-- The volume is unmounted by the forced end. -/
def forcedEndRun : List (PoolStep Task Nat) :=
  mountRun ++ .start (.forcedEnd 1) :: (steps 2 10 0 ++ steps 1 6 0 ++ steps 2 22 0)

theorem unmount_frees_once : ∃ p, runSteps step start unmountRun = some p ∧
    (p.env.server 1).frees = 1 ∧ Lifetimes p.env := by
  obtain ⟨p, hp, hfrees⟩ : ∃ p, runSteps step start unmountRun = some p ∧
      (p.env.server 1).frees = 1 := by
    have : (runSteps step start unmountRun).any (fun p => (p.env.server 1).frees == 1) = true := by
      decide +kernel
    simpa [Option.any_eq_true] using this
  exact ⟨p, hp, hfrees, (servers_freed_once (by decide +kernel) hp).1⟩

/-- The forced end uses a server after it was freed. -/
theorem forced_end_uses_freed_server :
    ∃ p, runSteps step start forcedEndRun = some p ∧ p.env.fault = true := by
  have : (runSteps step start forcedEndRun).any (fun p => p.env.fault) = true := by decide +kernel
  simpa [Option.any_eq_true] using this

end NC.Fuse
