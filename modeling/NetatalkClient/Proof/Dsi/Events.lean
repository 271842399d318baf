import NetatalkClient.Proof.Dsi.Shared

/-!
# Ends of a connection

An end of file, a receive error, a CloseSession or a shutdown attention is seen on
one generation, and `loop_disconnect` then acts on the generation there is. `Events`
holds as long as the generation stays between the two (`InTime`), and then no end
reaches a later connection.
-/

namespace NC

open Function

namespace Session

variable {s s' : Session} {p : Proc}

/-- The generation advances only while no thread has an end to act on, and no frame is
found broken on a connection that has been replaced. -/
def InTime (s : Session) : Act → Prop
  | .reconnect .advance => ∀ p, s.event p = none
  | .receive (.badFrame g _) => s.generation = g
  | .receive (.payloadLost g _ _ _ _) => s.generation = g
  | _ => True

/-- An end that a thread acts on is one of the connection there is, and what was closed
and failed for an end was not of a later connection. -/
structure Events (s : Session) : Prop where
  event : ∀ p g, s.event p = some g → s.generation = g
  attending : ∀ g, s.loop = .attention g → s.event .loop = some g
  context : ∀ i c g, s.attention i = .begun c g ∨ s.attention i = .running c g → c = g
  closed : ∀ d g, (d, some g) ∈ s.closed → d ≤ g
  failed : ∀ n g, (n, some g) ∈ s.failed → n ≤ g

theorem events_start (last : Nat) (replayCache : Bool) : Events (start last replayCache) :=
  ⟨nofun, nofun, fun _ _ _ h => h.elim nofun nofun, nofun, nofun⟩

theorem Events.congr (h : Events s)
    (hl : ∀ g, s'.loop = .attention g → s.loop = .attention g := by exact fun _ => id)
    (he : s'.event = s.event := by rfl) (ha : s'.attention = s.attention := by rfl)
    (hg : s'.generation = s.generation := by rfl) (hc : s'.closed = s.closed := by rfl)
    (hf : s'.failed = s.failed := by rfl) : Events s' := by
  constructor <;> simp only [he, hg, ha, hc, hf]
  exacts [h.event, fun g hl' => h.attending g (hl g hl'), h.context, h.closed, h.failed]

variable {g i : Nat}

/-- A thread closes no descriptor of a later generation than the one there is. -/
theorem Events.close (h : Events s) (hd : Descriptors s) (p : Proc) {d : Nat}
    (hm : (d, some g) ∈ s.closed ++ (s.taken p).toList.map fun d => (d, s.event p)) : d ≤ g := by
  rcases List.mem_append.1 hm with hm | hm
  · exact h.closed d g hm
  · obtain ⟨d', ht, hd'⟩ := List.mem_map.1 hm
    obtain ⟨rfl, e⟩ := Prod.mk.inj hd'
    have hle := hd.opened_le d' (hd.places.taken_opened p d' (Option.mem_toList.1 ht))
    rw [h.event p g e] at hle
    exact hle

theorem events_disconnect (hc : Closers s) (hd : Descriptors s) (hq : QueuedOn s) (h : Events s)
    {a : DisconnectAct} (hg : s.disconnectEnabled p a = true) : Events (s.disconnectStep p a) := by
  cases a with
  | loadGeneration => exact h.congr
  | take g =>
    show Events (if _ then _ else _)
    split <;> exact h.congr
  | close g =>
    show Events ((s.closeDescriptor p).setDisconnect p _)
    rw [closeDescriptor_eq]
    exact ⟨h.event, h.attending, h.context, fun _ _ => h.close hd p, h.failed⟩
  | fail g =>
    have hpc : s.disconnect p = .failing g := of_decide_eq_true hg
    refine ⟨fun q g' hq' => ?_, fun g' hl' => ?_, h.context, h.closed, fun n g' hm => ?_⟩
    · rcases update_eq_some hq' with ⟨-, e⟩ | ⟨-, e⟩
      · cases e
      · exact h.event q g' e
    · have hl : s.loop = .attention g' := hl'
      have hne : Proc.loop ≠ p := by
        rintro rfl
        have hdisc := hc.loop (by rw [hpc]; exact nofun)
        rw [hl] at hdisc
        cases hdisc
      show update s.event p none .loop = _
      rw [update_of_ne hne]
      exact h.attending g' hl
    · rcases List.mem_append.1 hm with hm | hm
      · exact h.failed n g' hm
      · obtain ⟨v, -, hv⟩ := List.mem_map.1 hm
        obtain ⟨rfl, e⟩ := Prod.mk.inj hv
        have hle := hq v
        rw [h.event p g' e] at hle
        exact hle
  | mark g =>
    show Events (if _ then _ else _)
    split <;> exact h.congr

/-- The loop goes on with no end to act on, or keeps the one that it has. -/
theorem Events.receives (h : Events s) (hs : Receives s s') (he : s'.event = s.event)
    (hl : ∀ g, s'.loop ≠ .attention g) (ha : s'.attention = s.attention) : Events s' :=
  h.congr (fun g e => absurd e (hl g)) he ha hs.generation hs.closed hs.failed

theorem Events.sees (h : Events s) (hg : s.generation = g) (hs : Receives s s')
    (he : s'.event = update s.event .loop (some g)) (hl : ∀ g', s'.loop = .attention g' → g' = g)
    (ha : s'.attention = s.attention) : Events s' := by
  refine ⟨fun q g' hq => ?_, fun g' hl' => ?_, ha ▸ h.context, hs.closed ▸ h.closed,
    hs.failed ▸ h.failed⟩
  · rw [hs.generation]
    rw [he] at hq
    rcases update_eq_some hq with ⟨-, e⟩ | ⟨-, e⟩
    · cases e
      exact hg
    · exact h.event q g' e
  · rw [he, update_self, hl g' hl']

theorem context_update (h : Events s) {k : AttentionPc}
    (hk : ∀ c g, k = .begun c g ∨ k = .running c g → c = g) :
    ∀ j c g, update s.attention i k j = .begun c g ∨
      update s.attention i k j = .running c g → c = g :=
  (forall_update_iff s.attention fun _ k =>
    ∀ c g, k = .begun c g ∨ k = .running c g → c = g).2 ⟨hk, fun j _ => h.context j⟩

theorem events_receive (h : Events s) {pc : LoopPc} {a : ReceiveAct} (hl : s.loop = pc)
    (hs : Looped s pc a s') (hok : InTime s (.receive a)) : Events s' := by
  have hr := hs.receives
  cases hs with
  | sees hg | lost hg =>
    refine h.sees ?_ hr rfl nofun rfl
    rcases hg with rfl | hg
    · exact hok
    · exact hg
  | attention hg => exact h.sees hg hr rfl (fun g' e => (LoopPc.attention.inj e).symm) rfl
  | replyEnds hpc =>
    refine h.receives hr rfl (fun g => ?_) rfl
    rcases hpc with rfl | ⟨_, _, -, rfl⟩ <;> exact nofun
  | @attend g =>
    have hgen := h.event .loop g (h.attending g hl)
    refine ⟨fun q g' hq => ?_, nofun, fun i c g' hi => ?_, h.closed, h.failed⟩
    · rcases update_eq_some hq with ⟨-, e⟩ | ⟨-, e⟩
      · cases e
      · exact h.event q g' e
    · -- the context that the handler gets is the generation that its packet came on
      have hcontext : ∀ c' g', AttentionPc.begun s.generation g = .begun c' g' ∨
          AttentionPc.begun s.generation g = .running c' g' → c' = g' := by
        rintro c' g' (e | e)
        · cases e
          exact hgen
        · cases e
      exact context_update h hcontext i c g' hi
  | _ => exact h.receives hr rfl nofun rfl

theorem events_attention (h : Events s) {a : AttentionAct} (hg : s.attentionEnabled i a = true) :
    Events (s.attentionStep i a) := by
  have goes : ∀ k : AttentionPc, (∀ c g, k = .begun c g ∨ k = .running c g → c = g) →
      Events (s.setAttention i k) := fun k hk =>
    ⟨h.event, h.attending, context_update h hk, h.closed, h.failed⟩
  cases a with
  | check context g =>
    refine goes _ fun c g' hk => ?_
    split at hk
    · rcases hk with hk | hk
      · cases hk
      · cases hk
        exact h.context i context g (.inl (of_decide_eq_true hg))
    · exact hk.elim nofun nofun
  | harmless context g => exact goes _ fun _ _ hk => hk.elim nofun nofun
  | shutdown context g =>
    have hk : s.attention i = .running context g := of_decide_eq_true hg
    have hctx := h.context i context g (.inr hk)
    show Events (if _ then _ else _)
    split
    · next hgen =>
      refine ⟨fun q g' hq => ?_, fun g' hl => ?_,
        context_update h fun _ _ hk => hk.elim nofun nofun, h.closed, h.failed⟩
      · rcases update_eq_some hq with ⟨-, e⟩ | ⟨-, e⟩
        · cases e
          exact hgen.symm.trans hctx
        · exact h.event q g' e
      · have hne : Proc.loop ≠ .attention i := nofun
        show update s.event (.attention i) (some g) .loop = _
        exact h.attending g' hl
    · exact goes _ fun _ _ hk => hk.elim nofun nofun
  | disconnected => exact goes _ fun _ _ hk => hk.elim nofun nofun

theorem events_reconnect (hd : Descriptors s) (h : Events s) {k : ReconnectPc} {a : ReconnectAct}
    (hs : Reconnected s k a s') (hok : InTime s (.reconnect a)) : Events s' := by
  cases hs with
  | advance =>
    -- only the advance can leave an end behind that some thread still acts on
    refine ⟨fun q g hq => ?_, h.attending, h.context, h.closed, h.failed⟩
    exact absurd ((hok q).symm.trans hq) nofun
  | close => exact ⟨h.event, h.attending, h.context, fun _ _ => h.close hd .reconnect, h.failed⟩
  | _ => exact h.congr

theorem events_step {a : Act} (hs : Shared s) (h : Events s) (hok : InTime s a)
    (hstep : s.step a = some s') : Events s' := by
  obtain ⟨hg, rfl⟩ := step_eq_some.1 hstep
  cases a with
  | setupHeader kind | tickle => exact h.congr
  | send u a =>
    have hs := send_sends hg
    exact h.congr (fun _ e => hs.loop ▸ e) hs.event hs.attention hs.generation hs.closed hs.failed
  | disconnect p a => exact events_disconnect hs.closers hs.descriptors hs.queuedOn h hg
  | reconnect a =>
    obtain ⟨k, -, hr⟩ := reconnected hg
    exact events_reconnect hs.descriptors h hr hok
  | receive a =>
    obtain ⟨pc, hl, hs⟩ := looped hg
    exact events_receive h hl hs hok
  | attention i a => exact events_attention h hg

/-! ## Every run -/

/-- A published descriptor is in one place: `server->fd`, one thread that is on its way
to close it, or closed, once. -/
structure ClosedOnce (s : Session) : Prop where
  places : Places s.opened s.fd s.taken (s.closed.map Prod.fst)
  closes : ∀ p d, s.taken p = some d →
    ∃ as s', runSteps step s as = some s' ∧ d ∈ s'.closed.map Prod.fst

/-- Nothing of a later connection was closed or failed for an end. -/
structure EndsInTime (s : Session) : Prop where
  closed : ∀ d g, (d, some g) ∈ s.closed → d ≤ g
  failed : ∀ n g, (n, some g) ∈ s.failed → n ≤ g

/-- Every published descriptor is closed once, in every run. In a run in which each end
is acted on in time, none reaches a later connection than its own. -/
theorem ends_in_time {as : List Act} {last : Nat} {replayCache : Bool}
    (h : runSteps step (start last replayCache) as = some s) :
    ClosedOnce s ∧ (OkRun step InTime (start last replayCache) as → EndsInTime s) := by
  constructor
  · have hs := shared_run h
    exact ⟨hs.descriptors.places, fun _ _ hd => exists_closed hs.mutex hs.closers hd⟩
  · intro hok
    have hs := runSteps_invariant (I := fun s => Shared s ∧ Events s)
      (fun _ _ _ hstep hok hi => ⟨shared_step hi.1 hstep, events_step hi.1 hi.2 hok hstep⟩)
      ⟨shared_start last replayCache, events_start last replayCache⟩ hok h
    exact ⟨hs.2.closed, hs.2.failed⟩

/-- The loop sees the end of the first connection and disconnects, and a sender then
reconnects. -/
def endThenReconnect : List Act :=
  dropSteps 0 ++ [.setupHeader (.reply true)] ++ reconnectSteps 0

theorem ends_in_time_reconnected : ∃ s, runSteps step (start 0 false) endThenReconnect = some s ∧
    s.generation = 1 ∧ s.closed = [(0, some 0)] ∧ ClosedOnce s ∧ EndsInTime s := by
  have h : runSteps step (start 0 false) endThenReconnect = some _ := rfl
  obtain ⟨honce, hends⟩ := ends_in_time h
  refine ⟨_, h, rfl, rfl, honce, hends ?_⟩
  have hnone : ∀ p, update (update (fun _ : Proc => none) .loop (some 0)) .loop none p =
      (none : Option Nat) := by
    intro p
    cases p <;> rfl
  repeat' first | exact trivial | refine .cons trivial rfl ?_ | refine .cons hnone rfl ?_

/-- The first connection's shutdown attention is being handled when the loop sees its
end. The handler disconnects, a sender reconnects, and the loop, which only now acts,
closes the new descriptor and fails the request on it. -/
def lateEnd : List Act :=
  receiveSteps 0 ++ [.receive (.attention 0 0), .receive (.attend 0), .attention 0 (.check 0 0)] ++
    receiveSteps 0 ++ [.receive (.readError 0 0), .attention 0 (.shutdown 0 0)] ++
    disconnectSteps (.attention 0) 0 ++ [.attention 0 .disconnected, .setupHeader (.reply true)] ++
    reconnectSteps 0 ++
    [.reconnect .send, .send 1 .check, .send 1 .checkFd, .send 1 .loadGeneration, .send 1 .enqueue] ++
    disconnectSteps .loop 1

theorem end_on_later_connection : ∃ s, runSteps step (start 0 false) lateEnd = some s ∧
    (1, some 0) ∈ s.closed ∧ (1, some 0) ∈ s.failed := by
  have h : runSteps step (start 0 false) lateEnd = some _ := rfl
  exact ⟨_, h, by decide, by decide⟩

end Session

end NC
