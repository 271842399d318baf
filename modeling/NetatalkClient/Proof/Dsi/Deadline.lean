import Mathlib.Algebra.Order.BigOperators.Group.Finset
import Mathlib.Tactic.Linarith
import NetatalkClient.Framework.Machine
import NetatalkClient.Model.Dsi.Deadline

/-!
# When no deadline expires before the reply

The latest time at which the server can answer a pending request is the time it began with the first
one plus the waits up to the request. `Punctual` says that the request's deadline is not before that.
When the sender reads the clock, the waits that its walk of the queue is about to add are those of all
that is pending (`sum_pending_le`). A request ahead that is answered or expires after the clock was
read and before the walk comes to it is left out, though the time spent on it is still to be counted:
`deadline_before_reply` has a run where the deadline is too early for it.

`no_deadline_before_reply` is the statement for every run in which that does not happen
(`Undisturbed`).
-/

namespace NC

open List Function Option

set_option linter.unusedSectionVars false

variable {T : Type} [Field T] [LinearOrder T] [IsStrictOrderedRing T]

namespace TimedState

variable {s s' : TimedState T} {u : Nat}

/-- What a walk of the queue adds for a request: its wait, if it has a deadline. -/
def addedWait (r : TimedRequest T) : T := if r.deadline.isSome then r.wait else 0

/-- What a walk of the queue adds. -/
def queueWaits (request : Nat → TimedRequest T) (queue : List Nat) : T :=
  (queue.map fun p => addedWait (request p)).sum

/-- The waits of some requests, as their senders asked for them. -/
def limits (s : TimedState T) (us : List Nat) : T := (us.map fun u => (s.request u).limit).sum

/-- What holds of a request. -/
structure Phase (s : TimedState T) (u : Nat) : Prop where
  wait : 0 ≤ (s.request u).wait
  fresh : s.count ≤ u → u ∉ s.commandRequests ∧ u ∉ s.pending ∧ s.sendMutex ≠ some u
  unsent : u ∈ s.commandRequests → (s.request u).sent = false →
    0 < (s.request u).limit ∧ (s.request u).wait = (s.request u).limit ∧
      (s.request u).replied = false ∧ (s.request u).deadline = none
  awaited : u ∈ s.pending → 0 < (s.request u).limit ∧ (s.request u).wait = (s.request u).limit ∧
    (s.request u).sent = true ∧ (s.request u).replied = false
  /-- The deadline of a pending request is set, unless its sender is about to. -/
  deadline : u ∈ s.pending → s.sendMutex = some u ∨ (s.request u).deadline.isSome = true
  writer : s.sendMutex = some u → (s.request u).sent = true ∧ (s.request u).deadline = none ∧
    ((s.request u).replied = false → u ∈ s.pending)
  unanswered : ∀ d, (s.request u).deadline = some d → (s.request u).replied = false → u ∈ s.pending
  answered : u ∈ s.commandRequests → (s.request u).replied = true → (s.request u).wait = 0

/-- A step that changes request `u` and no other. -/
structure Only (u : Nat) (s s' : TimedState T) : Prop where
  request : ∀ v, v ≠ u → s'.request v = s.request v := by exact fun v hv => update_of_ne hv ..
  queue : ∀ v, v ≠ u → (v ∈ s'.commandRequests ↔ v ∈ s.commandRequests) := by exact fun _ _ => Iff.rfl
  pending : ∀ v, v ≠ u → (v ∈ s'.pending ↔ v ∈ s.pending) := by exact fun _ _ => Iff.rfl
  mutex : ∀ v, v ≠ u → (s'.sendMutex = some v ↔ s.sendMutex = some v) := by exact fun _ _ => Iff.rfl
  count : s.count ≤ s'.count := by exact Nat.le_refl _

theorem Only.phase (ho : Only u s s') (h : ∀ v, s.Phase v) (hu : s'.Phase u) (v : Nat) :
    s'.Phase v := by
  by_cases hv : v = u
  · exact hv ▸ hu
  have hp := h v
  constructor
  all_goals simp [ho.request v hv, ho.queue v hv, ho.pending v hv, ho.mutex v hv]
  exacts [hp.wait, fun hc => hp.fresh (Nat.le_trans ho.count hc), hp.unsent, hp.awaited, hp.deadline,
    hp.writer, hp.unanswered, hp.answered]

/-- What holds in every state, but for a call of `afpc_dsi_set_deadline`. -/
structure Punctual (s : TimedState T) : Prop where
  started : s.started ≤ s.now
  busy : s.mayPass 0
  phase : ∀ u, s.Phase u
  pending_nodup : s.pending.Nodup
  queue_nodup : s.commandRequests.Nodup
  /-- Only a request whose reply is due at this very time may have left the queue. -/
  queued : ∀ u ∈ s.pending, u ∈ s.commandRequests ∨
    (s.pending.head? = some u ∧ s.now = s.started + (s.request u).limit)
  last : ∀ u, s.sendMutex = some u → u ∉ s.pending.dropLast
  bound : ∀ u d before after, (s.request u).deadline = some d → s.pending = before ++ u :: after →
    s.started + s.limits before + (s.request u).limit ≤ d

theorem Punctual.positive (h : s.Punctual) (hu : u ∈ s.pending) :
    0 < (s.request u).limit := ((h.phase u).awaited hu).1

variable {us : List Nat} {d : T}

theorem limits_of_same (h : ∀ u ∈ us, (s'.request u).limit = (s.request u).limit) :
    s'.limits us = s.limits us :=
  congrArg List.sum (map_congr_left h)

/-- The deadline of a pending request is still to come, unless the request is the first. -/
theorem Punctual.first_or_lt (h : s.Punctual) (hd : (s.request u).deadline = some d)
    (hu : u ∈ s.pending) :
    (s.pending.head? = some u ∧ s.started + (s.request u).limit ≤ d) ∨ s.now < d := by
  obtain ⟨before, after, hsplit⟩ := append_of_mem hu
  have hbound := h.bound u d before after hd hsplit
  cases before with
  | nil =>
    simp only [limits, map_nil, sum_nil, add_zero] at hbound
    exact .inl ⟨by rw [hsplit]; rfl, hbound⟩
  | cons v vs =>
    have hbusy := h.busy v (by rw [hsplit]; rfl)
    have hvs : 0 ≤ s.limits vs := sum_nonneg fun x hx => by
      obtain ⟨w, hw, rfl⟩ := mem_map.1 hx
      exact (h.positive (by rw [hsplit]; simp [hw])).le
    have hpos := h.positive hu
    simp only [limits, map_cons, sum_cons] at hbound hvs
    right
    linarith

theorem Punctual.now_le (h : s.Punctual) (hd : (s.request u).deadline = some d)
    (hr : (s.request u).replied = false) : s.now ≤ d := by
  rcases h.first_or_lt hd ((h.phase u).unanswered d hd hr) with ⟨hhead, hle⟩ | hlt
  · have hbusy := h.busy u hhead
    linarith
  · exact hlt.le

/-- A deadline that has come is that of the first pending request, whose reply is due. -/
theorem Punctual.due (h : s.Punctual) (hd : (s.request u).deadline = some d)
    (hle : d ≤ s.now) (hu : u ∈ s.pending) :
    s.pending.head? = some u ∧ s.now = s.started + (s.request u).limit := by
  rcases h.first_or_lt hd hu with ⟨hhead, hbound⟩ | hlt
  · have hbusy := h.busy u hhead
    refine ⟨hhead, ?_⟩
    linarith
  · exact absurd hle (not_le.2 hlt)

theorem Punctual.addedWait_nonneg (h : s.Punctual) (u : Nat) : 0 ≤ addedWait (s.request u) := by
  rw [addedWait]
  split
  · exact (h.phase u).wait
  · exact le_refl _

/-- Requests of the queue with a deadline have at most the waits that a walk of the queue adds. -/
theorem limits_le_queueWaits (h : s.Punctual) (hnodup : us.Nodup)
    (hus : ∀ u ∈ us, u ∈ s.pending ∧ u ∈ s.commandRequests ∧ (s.request u).deadline.isSome = true) :
    s.limits us ≤ queueWaits s.request s.commandRequests := by
  have hlimits : s.limits us = queueWaits s.request us := by
    refine congrArg List.sum (map_congr_left fun u hu => ?_)
    obtain ⟨hp, -, hdl⟩ := hus u hu
    rw [addedWait, if_pos hdl, ((h.phase u).awaited hp).2.1]
  rw [hlimits, queueWaits, queueWaits, ← sum_toFinset _ hnodup, ← sum_toFinset _ h.queue_nodup]
  refine Finset.sum_le_sum_of_subset_of_nonneg (fun u hu => ?_) fun u _ _ => h.addedWait_nonneg u
  exact mem_toFinset.2 (hus u (mem_toFinset.1 hu)).2.1

/-- What a walk of the queue adds covers all that is pending in front of the request. -/
theorem sum_pending_le (h : s.Punctual) {before : List Nat}
    (hm : s.sendMutex = some u) (hsplit : s.pending = before ++ [u]) :
    s.started + s.limits before ≤ s.now + queueWaits s.request s.commandRequests := by
  have hnodup : before.Nodup := by
    have := h.pending_nodup
    rw [hsplit] at this
    exact (nodup_append.1 this).1
  have hne : ∀ v ∈ before, v ≠ u := by
    rintro v hv rfl
    refine h.last v hm ?_
    rw [hsplit, dropLast_concat]
    exact hv
  have hin : ∀ v ∈ before, v ∈ s.pending := fun v hv => by rw [hsplit]; simp [hv]
  have hdl : ∀ v ∈ before, (s.request v).deadline.isSome = true := by
    intro v hv
    rcases (h.phase v).deadline (hin v hv) with hmv | hsome
    · exact absurd (some.inj (hm.symm.trans hmv)).symm (hne v hv)
    · exact hsome
  by_cases hall : ∀ v ∈ before, v ∈ s.commandRequests
  · have := limits_le_queueWaits h hnodup fun v hv =>
      ⟨hin v hv, hall v hv, hdl v hv⟩
    have := h.started
    linarith
  · -- The first request left the queue at the time its reply is due.
    push Not at hall
    obtain ⟨v, hv, hnot⟩ := hall
    obtain ⟨hhead, hdue⟩ := (h.queued v (hin v hv)).resolve_left hnot
    cases before with
    | nil => cases hv
    | cons w vs =>
      have hw : w = v := by
        rw [hsplit] at hhead
        exact some.inj hhead
      subst hw
      have hrest : ∀ x ∈ vs, x ∈ s.commandRequests := by
        intro x hx
        refine (h.queued x (hin x (mem_cons_of_mem _ hx))).resolve_right fun hx' => ?_
        rw [hhead] at hx'
        have hxw := some.inj hx'.1
        exact (nodup_cons.1 hnodup).1 (hxw ▸ hx)
      have := limits_le_queueWaits h (nodup_cons.1 hnodup).2 fun x hx =>
        ⟨hin x (mem_cons_of_mem _ hx), hrest x hx,
          hdl x (mem_cons_of_mem _ hx)⟩
      simp only [limits, map_cons, sum_cons] at this ⊢
      linarith

/-! ## Steps -/

theorem Punctual.pass (h : s.Punctual) {δ : T} (hδ : 0 ≤ δ) (hpass : s.mayPass δ) :
    ({ s with now := s.now + δ } : TimedState T).Punctual :=
  { h with
    started := by
      have := h.started
      linarith
    busy := fun u hu => by
      have := hpass u hu
      linarith
    phase := fun u => { h.phase u with }
    queued := fun u hu => by
      refine (h.queued u hu).imp_right fun ⟨hhead, hdue⟩ => ⟨hhead, ?_⟩
      have := hpass u hhead
      linarith }

theorem Punctual.withWalk (h : s.Punctual) (walk : Option (DeadlineWalk T)) :
    ({ s with walk := walk } : TimedState T).Punctual :=
  { h with phase := fun u => { h.phase u with } }

theorem Punctual.enqueue (h : s.Punctual) {wait : T} (hw : 0 < wait) :
    ({ s.setRequest s.count ⟨wait, wait, none, false, false⟩ with
      count := s.count + 1
      commandRequests := s.commandRequests ++ [s.count] } : TimedState T).Punctual := by
  obtain ⟨hqueue, hpending, hmutex⟩ := (h.phase s.count).fresh (Nat.le_refl _)
  have hself : update s.request s.count ⟨wait, wait, none, false, false⟩ s.count
      = ⟨wait, wait, none, false, false⟩ := update_self ..
  have hsame : ∀ u ∈ s.pending,
      update s.request s.count ⟨wait, wait, none, false, false⟩ u = s.request u :=
    fun u hu => update_of_ne (fun e : u = s.count => hpending (e ▸ hu)) ..
  constructor <;> simp only [setRequest]
  case started => exact h.started
  case busy =>
    intro u hu
    simp only at hu ⊢
    rw [hsame u (mem_of_mem_head? hu)]
    exact h.busy u hu
  case phase =>
    refine Only.phase (u := s.count) { queue := fun v hv => ?_, count := Nat.le_succ _ } h.phase ?_
    · simp [hv]
    · constructor <;> simp only [hself]
      case wait => exact hw.le
      case fresh => exact fun hc => absurd hc (Nat.not_succ_le_self _)
      case unsent => exact fun _ _ => ⟨hw, trivial, trivial, trivial⟩
      case awaited | deadline => exact fun hp => absurd hp hpending
      case writer => exact fun hm => absurd hm hmutex
      case unanswered | answered => exact nofun
  case pending_nodup => exact h.pending_nodup
  case queue_nodup =>
    refine nodup_append.2 ⟨h.queue_nodup, by simp, ?_⟩
    rintro u hu _ hv rfl
    exact hqueue (mem_singleton.1 hv ▸ hu)
  case queued =>
    intro u hu
    rw [hsame u hu]
    exact (h.queued u hu).imp_left fun hm => mem_append_left _ hm
  case last => exact h.last
  case bound =>
    intro u d before after hd hsplit
    have hmem : ∀ v ∈ before ++ u :: after, v ∈ s.pending := fun v hv => hsplit ▸ hv
    rw [limits_of_same fun v hv => congrArg _ (hsame v (hmem v (mem_append_left _ hv)))]
    rw [hsame u (hmem u (by simp))] at hd ⊢
    exact h.bound u d before after hd hsplit

theorem setRequest_limit {r : TimedRequest T} (h : r.limit = (s.request u).limit) (v : Nat) :
    ((s.setRequest u r).request v).limit = (s.request v).limit := by
  by_cases hv : v = u
  · simp [setRequest, hv, h]
  · simp [setRequest, update_of_ne hv]

def wrote (s : TimedState T) (u : Nat) : TimedState T :=
  { s.setRequest u { s.request u with sent := true } with
    sendMutex := some u
    pending := s.pending ++ [u]
    started := if s.pending = [] then s.now else s.started }

theorem Punctual.wrote (h : s.Punctual) (hqueue : u ∈ s.commandRequests)
    (hsent : (s.request u).sent = false) (hfree : s.sendMutex = none) : (s.wrote u).Punctual := by
  have hphase := (h.phase u).unsent hqueue hsent
  have hself : (s.wrote u).request u = { s.request u with sent := true } := update_self ..
  have hlimit : ∀ v, ((s.wrote u).request v).limit = (s.request v).limit := setRequest_limit rfl
  have hnot : u ∉ s.pending := by
    intro hu
    rw [((h.phase u).awaited hu).2.2.1] at hsent
    cases hsent
  constructor
  case started =>
    show (if s.pending = [] then s.now else s.started) ≤ s.now
    split
    · exact le_refl _
    · exact h.started
  case busy =>
    intro v hv
    rw [hlimit]
    show s.now + 0 ≤ (if s.pending = [] then s.now else s.started) + _
    by_cases hnil : s.pending = []
    · have hvu : v = u := by
        simp only [TimedState.wrote, hnil] at hv
        exact (some.inj hv).symm
      rw [if_pos hnil, hvu]
      linarith
    · rw [if_neg hnil]
      refine h.busy v ?_
      rwa [TimedState.wrote, head?_append_of_ne_nil _ hnil] at hv
  case phase =>
    have hne : ∀ v, v ≠ u → (some u = some v ↔ s.sendMutex = some v) := fun v hv => by
      simp [hfree, Ne.symm hv]
    refine Only.phase (u := u) { pending := fun v hv => ?_, mutex := hne } h.phase ?_
    · simp [TimedState.wrote, hv]
    · constructor
      case fresh => exact fun hc => absurd hqueue ((h.phase u).fresh hc).1
      all_goals rw [hself]
      case wait => exact (h.phase u).wait
      case unsent => exact nofun
      case awaited => exact fun _ => ⟨hphase.1, hphase.2.1, rfl, hphase.2.2.1⟩
      case deadline => exact fun _ => .inl rfl
      case writer => exact fun _ => ⟨rfl, hphase.2.2.2, fun _ => mem_append_right _ (by simp)⟩
      case unanswered => exact fun d hd => nomatch hphase.2.2.2.symm.trans hd
      case answered => exact (h.phase u).answered
  case pending_nodup =>
    refine nodup_append.2 ⟨h.pending_nodup, by simp, ?_⟩
    rintro v hv _ hw rfl
    exact hnot (mem_singleton.1 hw ▸ hv)
  case queue_nodup => exact h.queue_nodup
  case queued =>
    intro v hv
    rw [hlimit]
    rcases mem_append.1 hv with hv | hv
    · have hnil : s.pending ≠ [] := ne_nil_of_mem hv
      refine (h.queued v hv).imp_right fun ⟨hhead, hdue⟩ => ⟨?_, ?_⟩
      · rw [TimedState.wrote, head?_append_of_ne_nil _ hnil]
        exact hhead
      · show s.now = (if s.pending = [] then s.now else s.started) + _
        rw [if_neg hnil]
        exact hdue
    · rw [mem_singleton.1 hv]
      exact .inl hqueue
  case last =>
    rintro _ ⟨⟩
    rwa [TimedState.wrote, dropLast_concat]
  case bound =>
    intro v d before after hd hsplit
    have hne : v ≠ u := by
      rintro rfl
      rw [hself, hphase.2.2.2] at hd
      cases hd
    rw [show (s.wrote u).request v = s.request v from update_of_ne hne ..] at hd
    rw [limits_of_same fun w _ => hlimit w, hlimit]
    -- The request is not the one just written, so it is pending already.
    obtain ⟨rest, hpending⟩ : ∃ rest, s.pending = before ++ v :: rest := by
      rcases eq_nil_or_concat after with rfl | ⟨rest, w, rfl⟩
      · exact absurd (cons.inj (append_inj' hsplit rfl).2).1.symm hne
      · have hconcat : s.pending ++ [u] = (before ++ v :: rest) ++ [w] := hsplit.trans (by simp)
        exact ⟨rest, (append_inj' hconcat rfl).1⟩
    show (if s.pending = [] then s.now else s.started) + _ + _ ≤ _
    rw [if_neg (by simp [hpending])]
    exact h.bound v d before rest hd hpending

def withDeadline (s : TimedState T) (u : Nat) (deadline : T) : TimedState T :=
  { s.setRequest u { s.request u with deadline := some deadline } with
    sendMutex := none
    walk := none }

theorem Punctual.withDeadline (h : s.Punctual) (hm : s.sendMutex = some u)
    (hlatest : ∀ before, s.pending = before ++ [u] →
      s.started + s.limits before + (s.request u).limit ≤ d) : (s.withDeadline u d).Punctual := by
  obtain ⟨husent, hunone, hupending⟩ := (h.phase u).writer hm
  have hself : (s.withDeadline u d).request u = { s.request u with deadline := some d } :=
    update_self ..
  have hlimit : ∀ v, ((s.withDeadline u d).request v).limit = (s.request v).limit :=
    setRequest_limit rfl
  constructor
  case started => exact h.started
  case busy =>
    intro v hv
    rw [hlimit]
    exact h.busy v hv
  case phase =>
    have hne : ∀ v, v ≠ u → (none = some v ↔ s.sendMutex = some v) := fun v hv => by
      simp [hm, Ne.symm hv]
    refine Only.phase (u := u) { mutex := hne } h.phase ?_
    constructor
    case fresh => exact fun hc => absurd hm ((h.phase u).fresh hc).2.2
    all_goals rw [hself]
    case answered => exact (h.phase u).answered
    case wait => exact (h.phase u).wait
    case unsent => exact fun _ hs => nomatch husent.symm.trans hs
    case awaited => exact (h.phase u).awaited
    case deadline => exact fun _ => .inr rfl
    case writer => exact nofun
    case unanswered => exact fun _ _ => hupending
  case pending_nodup => exact h.pending_nodup
  case queue_nodup => exact h.queue_nodup
  case queued =>
    intro v hv
    rw [hlimit]
    exact h.queued v hv
  case last => exact nofun
  case bound =>
    intro v d' before after hd hsplit
    rw [limits_of_same fun w _ => hlimit w, hlimit]
    by_cases hv : v = u
    · subst hv
      rw [hself] at hd
      obtain rfl : d = d' := some.inj hd
      -- Nothing is written behind a request before its deadline is set.
      have hafter : after = [] := by
        by_contra hafter
        refine h.last v hm ?_
        rw [show s.pending = _ from hsplit, dropLast_append_of_ne_nil (by simp),
          dropLast_cons_of_ne_nil hafter]
        simp
      exact hlatest before (hafter ▸ hsplit)
    · rw [show (s.withDeadline u d).request v = s.request v from update_of_ne hv ..] at hd
      exact h.bound v d' before after hd hsplit

/-- The state with the first pending request answered. -/
def answered (s : TimedState T) (u : Nat) (pending : List Nat) : TimedState T :=
  { s.setRequest u (s.reply u) with pending := pending, started := s.now }

theorem Punctual.answered (h : s.Punctual) {pending : List Nat}
    (hp : s.pending = u :: pending) : (s.answered u pending).Punctual := by
  have hself : (s.answered u pending).request u = s.reply u := update_self ..
  have hlimit : ∀ v, ((s.answered u pending).request v).limit = (s.request v).limit :=
    setRequest_limit rfl
  have hnodup := h.pending_nodup
  rw [hp] at hnodup
  obtain ⟨hnot, hrest⟩ := nodup_cons.1 hnodup
  have hold : ∀ v ∈ pending, v ≠ u := fun v hv e => hnot (e ▸ hv)
  have hin : ∀ v ∈ pending, v ∈ s.pending := fun v hv => by
    rw [hp]
    exact mem_cons_of_mem _ hv
  have hu : u ∈ s.pending := by
    rw [hp]
    exact mem_cons_self
  constructor
  case started => exact le_refl _
  case busy =>
    intro v hv
    rw [hlimit]
    have hpos := h.positive (hin v (mem_of_mem_head? hv))
    show s.now + 0 ≤ s.now + _
    linarith
  case phase =>
    have husent := ((h.phase u).awaited hu).2.2.1
    refine Only.phase (u := u) { pending := fun v hv => ?_ } h.phase ?_
    · simp [TimedState.answered, hp, hv]
    · constructor
      case fresh => exact fun hc => absurd hu ((h.phase u).fresh hc).2.1
      all_goals rw [hself]
      case wait =>
        show 0 ≤ if u ∈ s.commandRequests then 0 else (s.request u).wait
        split
        · exact le_refl _
        · exact (h.phase u).wait
      case unsent => exact fun _ hs => nomatch husent.symm.trans hs
      case awaited | deadline => exact fun hmem => absurd hmem hnot
      case writer => exact fun hm => ⟨husent, ((h.phase u).writer hm).2.1, nofun⟩
      case unanswered => exact nofun
      case answered => exact fun hq _ => if_pos hq
  case pending_nodup => exact hrest
  case queue_nodup => exact h.queue_nodup
  case queued =>
    intro v hv
    refine .inl ((h.queued v (hin v hv)).resolve_right fun ⟨hhead, _⟩ => ?_)
    rw [hp] at hhead
    exact hold v hv (some.inj hhead).symm
  case last =>
    intro v hv hmem
    have hne : pending ≠ [] := by
      rintro rfl
      cases hmem
    refine h.last v hv ?_
    rw [hp, dropLast_cons_of_ne_nil hne]
    exact mem_cons_of_mem _ hmem
  case bound =>
    intro v d before after hd hsplit
    have hne : v ≠ u := hold v (by rw [show pending = _ from hsplit]; simp)
    rw [show (s.answered u pending).request v = s.request v from update_of_ne hne ..] at hd
    rw [limits_of_same fun w _ => hlimit w, hlimit]
    have hbound := h.bound v d (u :: before) after hd (by rw [hp, show pending = _ from hsplit]; rfl)
    have hbusy := h.busy u (by rw [hp]; rfl)
    simp only [limits, map_cons, sum_cons] at hbound ⊢
    show s.now + _ + _ ≤ d
    linarith

theorem Punctual.leaves (h : s.Punctual)
    (hu : u ∈ s.pending → s.pending.head? = some u ∧ s.now = s.started + (s.request u).limit) :
    ({ s with commandRequests := s.commandRequests.erase u } : TimedState T).Punctual :=
  { h with
    phase := fun v => { h.phase v with
      fresh := fun hc => ⟨fun hmem => ((h.phase v).fresh hc).1 (mem_of_mem_erase hmem),
        ((h.phase v).fresh hc).2⟩
      unsent := fun hmem => (h.phase v).unsent (mem_of_mem_erase hmem)
      answered := fun hmem => (h.phase v).answered (mem_of_mem_erase hmem) }
    queue_nodup := h.queue_nodup.erase u
    queued := fun v hv => by
      by_cases hvu : v = u
      · subst hvu
        exact .inr (hu hv)
      · exact (h.queued v hv).imp_left fun hmem => (mem_erase_of_ne hvu).2 hmem }

/-! ## The walk of the queue -/

/-- The requests that a call of `afpc_dsi_set_deadline` has still to look at. -/
def unread (s : TimedState T) (w : DeadlineWalk T) : List Nat := w.rest.getD s.commandRequests

/-- What holds of a call of `afpc_dsi_set_deadline` for `u`: with the waits that are still to be added,
it gets no earlier than the latest time of the reply to `u`. -/
structure Walking (s : TimedState T) (w : DeadlineWalk T) (u : Nat) : Prop where
  latest : ∀ before, s.pending = before ++ [u] →
    s.started + s.limits before + (s.request u).limit
      ≤ w.clock + w.wait + queueWaits s.request (s.unread w)
  looked : ∃ looked, s.commandRequests = looked ++ s.unread w ∧
    (u ∈ s.pending → (s.request u).limit + queueWaits s.request looked ≤ w.wait)

/-- What holds in every state. -/
structure Timely (s : TimedState T) : Prop extends s.Punctual where
  walk : ∀ w ∈ s.walk, ∃ u, s.sendMutex = some u ∧ s.Walking w u

/-- A request that is answered while a sender is in `afpc_dsi_set_deadline` is its own, or is answered
at the time that the sender read, or the walk has passed it; and no request expires later than at that
time. -/
def Undisturbed (s : TimedState T) : TimedAct T → Prop
  | .answer => ∀ v ∈ s.pending.head?, ∀ w ∈ s.walk,
      s.sendMutex = some v ∨ s.now ≤ w.clock ∨ v ∉ s.unread w
  | .expire _ => ∀ w ∈ s.walk, s.now ≤ w.clock
  | _ => True

instance (a : TimedAct T) : Decidable (s.Undisturbed a) := by
  cases a <;> simp only [Undisturbed] <;> infer_instance

variable {request request' : Nat → TimedRequest T} {queue queue' : List Nat} {w : DeadlineWalk T}
  {v : Nat}

theorem queueWaits_append :
    queueWaits request (queue ++ queue') = queueWaits request queue + queueWaits request queue' := by
  rw [queueWaits, map_append, sum_append, ← queueWaits, ← queueWaits]

theorem queueWaits_congr (h : ∀ u ∈ queue, addedWait (request' u) = addedWait (request u)) :
    queueWaits request' queue = queueWaits request queue :=
  congrArg List.sum (map_congr_left h)

theorem queueWaits_le (h : ∀ u ∈ queue, addedWait (request' u) ≤ addedWait (request u)) :
    queueWaits request' queue ≤ queueWaits request queue :=
  sum_le_sum h

/-- A request that adds nothing may leave the queue. -/
theorem queueWaits_erase (h : u ∈ queue → addedWait (request u) = 0) :
    queueWaits request (queue.erase u) = queueWaits request queue := by
  by_cases hu : u ∈ queue
  · rw [queueWaits, queueWaits, ((perm_cons_erase hu).map _).sum_eq, map_cons, sum_cons, h hu, zero_add]
  · rw [erase_of_not_mem hu]

/-- A walk is sound at the time that it began with. -/
theorem Punctual.walking (h : s.Punctual) (hm : s.sendMutex = some u) (hnow : s.now ≤ w.clock)
    (hlooked : ∃ looked, s.commandRequests = looked ++ s.unread w ∧
      (u ∈ s.pending → (s.request u).limit + queueWaits s.request looked ≤ w.wait)) :
    s.Walking w u where
  latest before hsplit := by
    obtain ⟨looked, hqueue, hwait⟩ := hlooked
    have hsum := sum_pending_le h hm hsplit
    rw [hqueue, queueWaits_append] at hsum
    have := hwait (by rw [hsplit]; simp)
    linarith
  looked := hlooked

/-- What a walk that has not begun with the queue has added. -/
theorem Walking.wait_of_free (h : s.Walking w u) (hfree : w.rest = none) (hu : u ∈ s.pending) :
    (s.request u).limit ≤ w.wait := by
  obtain ⟨looked, hqueue, hwait⟩ := h.looked
  obtain rfl : looked = [] := by
    rw [unread, hfree] at hqueue
    exact self_eq_append_left.1 hqueue
  have := hwait hu
  rwa [queueWaits, map_nil, sum_nil, add_zero] at this

theorem Walking.enqueue (h : s.Walking w u) (hp : s.Punctual) (hm : s.sendMutex = some u)
    (hfree : w.rest = none) {wait : T} :
    ({ s.setRequest s.count ⟨wait, wait, none, false, false⟩ with
      count := s.count + 1
      commandRequests := s.commandRequests ++ [s.count] } : TimedState T).Walking w u := by
  obtain ⟨hqueue, hpending, hmutex⟩ := (hp.phase s.count).fresh (Nat.le_refl _)
  have hsame : ∀ v, v ≠ s.count →
      update s.request s.count ⟨wait, wait, none, false, false⟩ v = s.request v :=
    fun v hv => update_of_ne hv ..
  have hu : u ≠ s.count := by
    rintro rfl
    exact hmutex hm
  have hold : ∀ v ∈ s.commandRequests, v ≠ s.count := fun v hv e => hqueue (e ▸ hv)
  constructor
  case latest =>
    intro before hsplit
    have hbefore : ∀ v ∈ before, v ≠ s.count := fun v hv e =>
      hpending (e ▸ (show s.pending = _ from hsplit) ▸ mem_append_left _ hv)
    have hlatest := h.latest before hsplit
    simp only [unread, hfree, getD_none, setRequest, hsame u hu] at hlatest ⊢
    rw [limits_of_same (s := s) fun v hv => congrArg _ (hsame v (hbefore v hv)), queueWaits_append,
      queueWaits_congr fun v hv => congrArg _ (hsame v (hold v hv))]
    simpa [queueWaits, addedWait] using hlatest
  case looked =>
    refine ⟨[], by simp [unread, hfree], fun hmem => ?_⟩
    simp only [setRequest, hsame u hu, queueWaits, map_nil, sum_nil, add_zero]
    exact h.wait_of_free hfree hmem

theorem addedWait_reply_le (h : s.Punctual) (v u : Nat) :
    addedWait (update s.request v (s.reply v) u) ≤ addedWait (s.request u) := by
  by_cases hu : u = v
  · subst hu
    have hwait : (s.reply u).wait ≤ (s.request u).wait := by
      show (if u ∈ s.commandRequests then 0 else (s.request u).wait) ≤ _
      split
      · exact (h.phase u).wait
      · exact le_refl _
    rw [update_self]
    show (if (s.request u).deadline.isSome then _ else _) ≤ if (s.request u).deadline.isSome then _ else _
    split
    · exact hwait
    · exact le_refl _
  · rw [update_of_ne hu]

theorem Walking.answered (h : s.Walking w u) (hp : s.Punctual) {pending : List Nat}
    (hs : s.pending = v :: pending)
    (hnext : v = u ∨ s.now ≤ w.clock ∨ v ∉ s.unread w) (hm : s.sendMutex = some u) :
    (s.answered v pending).Walking w u := by
  have hlimit : ∀ x, ((s.answered v pending).request x).limit = (s.request x).limit :=
    setRequest_limit rfl
  have hlooked : ∃ looked, (s.answered v pending).commandRequests = looked ++ s.unread w ∧
      (u ∈ pending → ((s.answered v pending).request u).limit
        + queueWaits (s.answered v pending).request looked ≤ w.wait) := by
    obtain ⟨looked, hqueue, hwait⟩ := h.looked
    refine ⟨looked, hqueue, fun hu => ?_⟩
    have := hwait (by rw [hs]; exact mem_cons_of_mem _ hu)
    have hle : queueWaits (s.answered v pending).request looked ≤ queueWaits s.request looked :=
      queueWaits_le fun x _ => addedWait_reply_le hp v x
    rw [hlimit]
    linarith
  by_cases hnow : s.now ≤ w.clock
  · exact (hp.answered hs).walking hm hnow hlooked
  refine ⟨fun before hsplit => ?_, hlooked⟩
  rcases hnext with rfl | hnow' | hread
  · -- The sender's own request is not pending any more.
    have hnodup := hp.pending_nodup
    rw [hs, show pending = _ from hsplit] at hnodup
    exact absurd (nodup_cons.1 hnodup).1 (by simp)
  · exact absurd hnow' hnow
  · have hlatest := h.latest (v :: before) (by rw [hs, show pending = _ from hsplit]; rfl)
    have hbusy := hp.busy v (by rw [hs]; rfl)
    have hsame : queueWaits (s.answered v pending).request (s.unread w)
        = queueWaits s.request (s.unread w) := by
      refine queueWaits_congr fun x hx => congrArg _ (update_of_ne ?_ ..)
      rintro rfl
      exact hread hx
    rw [limits_of_same fun x _ => hlimit x, hlimit]
    show s.now + _ + _ ≤ w.clock + w.wait + queueWaits _ (s.unread w)
    rw [hsame]
    simp only [limits, map_cons, sum_cons] at hlatest ⊢
    linarith

/-- The walk passes a request. -/
theorem Walking.visit {clock wait : T} {p : Nat} {rest : List Nat}
    (h : s.Walking ⟨clock, wait, some (p :: rest)⟩ u) {w' : DeadlineWalk T}
    (hw : w' = ⟨clock, if (s.request p).deadline.isSome then wait + (s.request p).wait else wait,
      some rest⟩) :
    ({ s with walk := some w' } : TimedState T).Walking w' u := by
  subst hw
  have hadd : (if (s.request p).deadline.isSome then wait + (s.request p).wait else wait)
      = wait + addedWait (s.request p) := by
    rw [addedWait]
    split <;> simp
  rw [hadd]
  constructor
  case latest =>
    intro before hsplit
    have hlatest := h.latest before hsplit
    simp only [unread, getD_some, queueWaits, map_cons, sum_cons] at hlatest ⊢
    show s.started + s.limits before + _ ≤ _
    linarith
  case looked =>
    obtain ⟨looked, hqueue, hwait⟩ := h.looked
    refine ⟨looked ++ [p], by simpa [unread] using hqueue, fun hu => ?_⟩
    have := hwait hu
    rw [queueWaits_append]
    simp only [queueWaits, map_cons, map_nil, sum_cons, sum_nil, add_zero] at this ⊢
    linarith

/-- A request leaves the queue: one that is answered, or at the time that the walk began with. -/
theorem Walking.leaves (h : s.Walking w u) (hm : s.sendMutex = some u) (hfree : w.rest = none)
    (hp : ({ s with commandRequests := s.commandRequests.erase v } : TimedState T).Punctual)
    (hv : (v ∈ s.commandRequests → addedWait (s.request v) = 0) ∨ s.now ≤ w.clock) :
    ({ s with commandRequests := s.commandRequests.erase v } : TimedState T).Walking w u := by
  have hlooked : ∃ looked, s.commandRequests.erase v
      = looked ++ w.rest.getD (s.commandRequests.erase v) ∧
        (u ∈ s.pending → (s.request u).limit + queueWaits s.request looked ≤ w.wait) := by
    refine ⟨[], by simp [hfree], fun hu => ?_⟩
    simpa [queueWaits] using h.wait_of_free hfree hu
  rcases hv with hv | hnow
  · refine ⟨fun before hsplit => ?_, hlooked⟩
    have hlatest := h.latest before hsplit
    simp only [unread, hfree, getD_none] at hlatest ⊢
    rw [queueWaits_erase hv]
    exact hlatest
  · exact hp.walking hm hnow hlooked

/-! ## Every step -/

theorem Timely.step (h : s.Timely) {a : TimedAct T} (hok : s.Undisturbed a)
    (hs : s.step a = some s') : s'.Timely := by
  cases a with
  | pass δ =>
    obtain ⟨⟨hδ, hpass⟩, ⟨⟩⟩ := ite_none_right_eq_some.1 hs
    refine ⟨h.toPunctual.pass hδ hpass, fun w hw => ?_⟩
    obtain ⟨u, hm, hwalk⟩ := h.walk w hw
    exact ⟨u, hm, hwalk.latest, hwalk.looked⟩
  | enqueue wait =>
    obtain ⟨⟨hw, hfree⟩, ⟨⟩⟩ := ite_none_right_eq_some.1 hs
    refine ⟨h.toPunctual.enqueue hw, fun w hw => ?_⟩
    obtain ⟨u, hm, hwalk⟩ := h.walk w hw
    exact ⟨u, hm, hwalk.enqueue h.toPunctual hm (hfree w hw)⟩
  | write u =>
    obtain ⟨⟨hqueue, hsent, hfree⟩, ⟨⟩⟩ := ite_none_right_eq_some.1 hs
    refine ⟨h.toPunctual.wrote hqueue hsent hfree, fun w hw => ?_⟩
    obtain ⟨v, hm, -⟩ := h.walk w hw
    cases hfree.symm.trans hm
  | readClock =>
    simp only [TimedState.step] at hs
    split at hs
    case h_2 => cases hs
    case h_1 u hm _ =>
      cases hs
      have hp := h.toPunctual.withWalk (some ⟨s.now, (s.request u).wait, none⟩)
      refine ⟨hp, ?_⟩
      rintro w ⟨⟩
      refine ⟨u, hm, hp.walking hm (le_refl _) ⟨[], rfl, fun hu => ?_⟩⟩
      have := ((h.phase u).awaited hu).2.1
      simp [queueWaits, this]
  | lockQueue =>
    simp only [TimedState.step] at hs
    split at hs
    case h_2 => cases hs
    case h_1 clock wait hwalk =>
      cases hs
      refine ⟨h.toPunctual.withWalk _, ?_⟩
      rintro w ⟨⟩
      obtain ⟨u, hm, hsound⟩ := h.walk _ hwalk
      exact ⟨u, hm, hsound.latest, hsound.looked⟩
  | visit =>
    simp only [TimedState.step] at hs
    split at hs
    case h_2 => cases hs
    case h_1 clock wait p rest hwalk =>
      cases hs
      refine ⟨h.toPunctual.withWalk _, ?_⟩
      rintro w ⟨⟩
      obtain ⟨u, hm, hsound⟩ := h.walk _ hwalk
      exact ⟨u, hm, hsound.visit rfl⟩
  | setDeadline =>
    simp only [TimedState.step] at hs
    split at hs
    case h_2 => cases hs
    case h_1 u clock wait hm hwalk =>
      cases hs
      obtain ⟨v, hmv, hsound⟩ := h.walk _ hwalk
      obtain rfl : u = v := some.inj (hm.symm.trans hmv)
      refine ⟨h.toPunctual.withDeadline hm fun before hsplit => ?_, nofun⟩
      have := hsound.latest before hsplit
      simpa [unread, queueWaits] using this
  | answer =>
    simp only [TimedState.step] at hs
    split at hs
    case h_1 => cases hs
    case h_2 v pending hp =>
      cases hs
      refine ⟨h.toPunctual.answered hp, fun w hw => ?_⟩
      obtain ⟨u, hm, hwalk⟩ := h.walk w hw
      have hnext := (hok v (by rw [hp]; rfl) w hw).imp_left fun hv => some.inj (hv.symm.trans hm)
      exact ⟨u, hm, hwalk.answered h.toPunctual hp hnext hm⟩
  | leave v =>
    obtain ⟨⟨hreplied, -, hfree⟩, ⟨⟩⟩ := ite_none_right_eq_some.1 hs
    have hp := h.toPunctual.leaves (u := v) fun hv =>
      nomatch ((h.phase v).awaited hv).2.2.2.symm.trans hreplied
    refine ⟨hp, fun w hw => ?_⟩
    obtain ⟨u, hm, hwalk⟩ := h.walk w hw
    refine ⟨u, hm, hwalk.leaves hm (hfree w hw) hp (.inl fun hv => ?_)⟩
    rw [addedWait, (h.phase v).answered hv hreplied, ite_self]
  | expire v =>
    simp only [TimedState.step] at hs
    split at hs
    case h_2 => cases hs
    case h_1 d hd =>
      obtain ⟨⟨-, hle, hfree⟩, ⟨⟩⟩ := ite_none_right_eq_some.1 hs
      have hp := h.toPunctual.leaves (u := v) fun hv => h.due hd hle hv
      refine ⟨hp, fun w hw => ?_⟩
      obtain ⟨u, hm, hwalk⟩ := h.walk w hw
      exact ⟨u, hm, hwalk.leaves hm (hfree w hw) hp (.inr (hok w hw))⟩

/-! ## Runs -/

theorem timely_init (now : T) : (init now).Timely where
  started := le_refl _
  busy := nofun
  phase _ := ⟨le_refl _, fun _ => ⟨nofun, nofun, nofun⟩, nofun, nofun, nofun, nofun, nofun, nofun⟩
  pending_nodup := nodup_nil
  queue_nodup := nodup_nil
  queued := nofun
  last := nofun
  bound := nofun
  walk := nofun

/-- In every run in which no request ahead is answered or expires between a sender's reading of the
clock and its walk of the queue, the deadline of a request whose reply has not arrived is never
past. -/
theorem no_deadline_before_reply {now : T} {as : List (TimedAct T)}
    (hok : OkRun step Undisturbed (init now) as) (h : runSteps step (init now) as = some s)
    {deadline : T} (hd : (s.request u).deadline = some deadline)
    (hr : (s.request u).replied = false) : s.now ≤ deadline := by
  have ht : s.Timely :=
    runSteps_invariant (fun s a s' hs hok ht => ht.step hok hs) (timely_init now) hok h
  exact ht.now_le hd hr

/-- Two requests, the second written while the server handles the first, and the first answered at
the last moment. -/
def twoRequests : List (TimedAct ℚ) :=
  [.enqueue 2, .enqueue 3, .write 1, .readClock, .lockQueue, .visit, .visit, .setDeadline,
    .pass (1 / 2), .write 0, .readClock, .pass 1, .lockQueue, .visit, .visit, .pass (3 / 2), .answer,
    .setDeadline, .leave 1, .pass 2]

theorem no_deadline_before_reply_second :
    ∃ s, OkRun step Undisturbed (init 0) twoRequests ∧
      runSteps step (init 0) twoRequests = some s ∧
      (s.request 0).deadline = some (11 / 2) ∧ (s.request 0).replied = false ∧ s.now ≤ 11 / 2 := by
  have hok : OkRun step Undisturbed (init (0 : ℚ)) twoRequests := by decide +kernel
  have hrun : (runSteps step (init (0 : ℚ)) twoRequests).map
      (fun s => ((s.request 0).deadline, (s.request 0).replied)) = some (some (11 / 2), false) := by
    decide +kernel
  obtain ⟨s, hs, heq⟩ := map_eq_some_iff.1 hrun
  obtain ⟨hd, hr⟩ := Prod.mk.inj heq
  exact ⟨s, hok, hs, hd, hr, no_deadline_before_reply hok hs hd hr⟩

/-- The first of two requests is answered after 5 of its 10 seconds, when the sender of the second has
read the clock and not walked the queue. -/
def answeredBetween : List (TimedAct ℚ) :=
  [.enqueue 10, .write 0, .readClock, .lockQueue, .visit, .setDeadline, .enqueue 10, .write 1,
    .readClock, .pass 5, .answer, .lockQueue, .visit, .visit, .setDeadline, .pass 6]

/-- The second deadline is its sender's own wait after the time it read, and the server has been busy
with the second request for six seconds when it is past. -/
theorem deadline_before_reply :
    ∃ s, runSteps step (init (0 : ℚ)) answeredBetween = some s ∧
      (s.request 1).deadline = some 10 ∧ (s.request 1).replied = false ∧ (10 : ℚ) < s.now ∧
      s.pending = [1] ∧ s.started = 5 := by
  have hrun : (runSteps step (init (0 : ℚ)) answeredBetween).map
      (fun s => ((s.request 1).deadline, (s.request 1).replied, s.now, s.pending, s.started))
        = some (some 10, false, 11, [1], 5) := by
    decide +kernel
  obtain ⟨s, hs, heq⟩ := map_eq_some_iff.1 hrun
  simp only [Prod.mk.injEq] at heq
  obtain ⟨hd, hr, hnow, hpending, hstarted⟩ := heq
  refine ⟨s, hs, hd, hr, ?_, hpending, hstarted⟩
  rw [hnow]
  norm_num

end TimedState

end NC
