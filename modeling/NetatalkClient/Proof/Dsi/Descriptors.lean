import NetatalkClient.Framework.Places
import NetatalkClient.Proof.Dsi.Threads

/-!
# Who closes a descriptor

A descriptor is in `server->fd` from the time it is published until one thread
takes it, and that thread closes it: `Closers` says where a thread is that has
taken one, and `Descriptors` that each published descriptor has one place.

Which descriptor a thread closes, and which requests it fails, is another matter:
`loop_disconnect` acts on the connection there is when it begins, not on the one
whose end was seen.
-/

namespace NC

open List Function

namespace ReconnectPc

/-- `afp_server_connect` has taken the old descriptor and not published a new one. -/
def between : ReconnectPc → Bool
  | .exchanged | .advanced | .closed | .connected | .reset => true
  | _ => false

/-- The new generation has no descriptor yet. -/
def unpublished : ReconnectPc → Bool
  | .advanced | .closed | .connected | .reset => true
  | _ => false

end ReconnectPc

namespace Session

variable {s s' : Session} {p : Proc}

/-- Which threads are in `loop_disconnect`, and which of them have a descriptor to
close. -/
structure Closers (s : Session) : Prop where
  loop : s.disconnect .loop ≠ .idle → s.loop = .disconnecting
  attention : ∀ i, s.disconnect (.attention i) ≠ .idle → s.attention i = .disconnecting
  reconnect : s.disconnect .reconnect ≠ .idle → s.reconnect = .failing
  fresh : ∀ i, s.nextAttention ≤ i → s.attention i = .none
  taken : ∀ p, s.taken p ≠ none → (∃ g, s.disconnect p = .taken g) ∨
    (p = .reconnect ∧ (s.reconnect = .exchanged ∨ s.reconnect = .advanced))

theorem closers_start (last : Nat) (replayCache : Bool) : Closers (start last replayCache) :=
  ⟨fun h => absurd rfl h, fun _ h => absurd rfl h, fun h => absurd rfl h, fun _ _ => rfl,
    fun _ h => absurd rfl h⟩

/-- A thread within `loop_disconnect` has no descriptor before it takes one, nor
behind the close. -/
theorem Closers.taken_none (h : Closers s) {pc : DisconnectPc} (hd : s.disconnect p = pc)
    (hi : pc ≠ .idle) (ht : ∀ g, pc ≠ .taken g) : s.taken p = none := by
  by_contra hne
  rcases h.taken p hne with ⟨g, e⟩ | ⟨rfl, hr⟩
  · exact ht g (hd.symm.trans e)
  · rw [h.reconnect (by rw [hd]; exact hi)] at hr
    rcases hr with hr | hr <;> cases hr

/-- Nor has one that is not in `loop_disconnect`, the one that reconnects apart. -/
theorem Closers.taken_none_of_idle (h : Closers s) (hd : s.disconnect p = .idle)
    (hr : p = .reconnect → s.reconnect ≠ .exchanged ∧ s.reconnect ≠ .advanced) :
    s.taken p = none := by
  by_contra hne
  rcases h.taken p hne with ⟨g, e⟩ | ⟨e, hr'⟩
  · rw [hd] at e
    cases e
  · exact hr'.elim (hr e).1 (hr e).2

theorem Closers.idle_of_loop (h : Closers s) (hl : s.loop ≠ .disconnecting) :
    s.disconnect .loop = .idle := by
  by_contra hne
  exact hl (h.loop hne)

theorem Closers.idle_of_attention (h : Closers s) {i : Nat} (hl : s.attention i ≠ .disconnecting) :
    s.disconnect (.attention i) = .idle := by
  by_contra hne
  exact hl (h.attention i hne)

theorem Closers.idle_of_reconnect (h : Closers s) (hl : s.reconnect ≠ .failing) :
    s.disconnect .reconnect = .idle := by
  by_contra hne
  exact hl (h.reconnect hne)

/-- The thread is in `loop_disconnect`. -/
def inside (s : Session) : Proc → Prop
  | .loop => s.loop = .disconnecting
  | .attention i => s.attention i = .disconnecting
  | .reconnect => s.reconnect = .failing

section

variable (h : Closers s)

include h

theorem Closers.inside (hd : s.disconnect p ≠ .idle) : s.inside p := by
  cases p with
  | loop => exact h.loop hd
  | attention i => exact h.attention i hd
  | reconnect => exact h.reconnect hd

/-- A step of the thread `p`, which leaves the others where they are. -/
theorem Closers.step (p : Proc) (hp : s'.disconnect p ≠ .idle → s'.inside p)
    (htaken : s'.taken p ≠ none → (∃ g, s'.disconnect p = .taken g) ∨
      (p = .reconnect ∧ (s'.reconnect = .exchanged ∨ s'.reconnect = .advanced)))
    (hfresh : ∀ i, s'.nextAttention ≤ i → s'.attention i = .none)
    (ha : ∀ i, .attention i ≠ p → s'.attention i = s.attention i := by exact fun _ _ => rfl)
    (hl : .loop ≠ p → s'.loop = s.loop := by first | exact fun _ => rfl | exact absurd rfl)
    (hr : .reconnect ≠ p → s'.reconnect = s.reconnect := by
      first | exact fun _ => rfl | exact absurd rfl)
    (hd : ∀ q, q ≠ p → s'.disconnect q = s.disconnect q := by
      first | exact fun _ _ => rfl | exact fun _ e => update_of_ne e _ _)
    (ht : ∀ q, q ≠ p → s'.taken q = s.taken q := by
      first | exact fun _ _ => rfl | exact fun _ e => update_of_ne e _ _) : Closers s' := by
  have within : ∀ q, s'.disconnect q ≠ .idle → s'.inside q := by
    intro q hq
    by_cases e : q = p
    · subst e
      exact hp hq
    · have hin := h.inside (hd q e ▸ hq)
      cases q with
      | loop => exact (hl e).trans hin
      | attention i => exact (ha i e).trans hin
      | reconnect => exact (hr e).trans hin
  refine ⟨within .loop, fun i => within (.attention i), within .reconnect, hfresh, fun q hq => ?_⟩
  by_cases e : q = p
  · subst e
    exact htaken hq
  · rw [hd q e]
    refine (h.taken q (ht q e ▸ hq)).imp_right ?_
    rintro ⟨rfl, hrec⟩
    exact ⟨rfl, (hr e).symm ▸ hrec⟩

theorem closers_send (ht : Threads s) {u : Nat} {a : SendAct} (hg : s.sendEnabled u a = true) :
    Closers (s.send u a) := by
  have hs := send_sends hg
  have hrec := send_reconnect_cases ht hg
  refine h.step .reconnect (fun hd => ?_) (fun hp => ?_) (fun i hi => ?_)
    (fun i _ => congrFun hs.attention i) (fun _ => hs.loop) (absurd rfl)
    (fun q _ => congrFun hs.disconnect q) fun q _ => congrFun hs.taken q
  · have hf := h.reconnect (hs.disconnect ▸ hd)
    rcases hrec with e | ⟨e, -⟩
    · exact e.trans hf
    · rw [e] at hf
      cases hf
  · rw [hs.disconnect]
    refine (h.taken _ (hs.taken ▸ hp)).imp_right fun ⟨hp, hr⟩ => ⟨hp, ?_⟩
    rcases hrec with e | ⟨e, -⟩
    · rw [e]
      exact hr
    · rw [e] at hr
      rcases hr with hr | hr <;> cases hr
  · rw [hs.attention]
    exact h.fresh i (hs.nextAttention ▸ hi)

theorem closers_disconnect {a : DisconnectAct}
    (hg : s.disconnectEnabled p a = true) : Closers (s.disconnectStep p a) := by
  cases a with
  | loadGeneration =>
    have hd : s.disconnect p = .begun := of_decide_eq_true hg
    exact h.step p (fun _ => h.inside (hd ▸ nofun))
      (fun h' => absurd (h.taken_none hd nofun nofun) h') h.fresh
  | take g =>
    have hd : s.disconnect p = .loaded g := of_decide_eq_true hg
    have hin : s.inside p := h.inside (hd ▸ nofun)
    show Closers (if _ then _ else _)
    split <;> exact h.step p (fun _ => hin) (fun _ => .inl ⟨g, update_self ..⟩) h.fresh
  | close g =>
    have hd : s.disconnect p = .taken g := (of_decide_eq_true hg).1
    show Closers ((s.closeDescriptor p).setDisconnect p _)
    rw [closeDescriptor_eq]
    exact h.step p (fun _ => h.inside (hd ▸ nofun))
      (fun h' => absurd (update_self p _ s.taken) h') h.fresh
  | fail g =>
    have hd : s.disconnect p = .failing g := of_decide_eq_true hg
    exact h.step p (fun _ => h.inside (hd ▸ nofun))
      (fun h' => absurd (h.taken_none hd nofun nofun) h') h.fresh
  | mark g =>
    have hd : s.disconnect p = .marking g := of_decide_eq_true hg
    have hin : s.inside p := h.inside (hd ▸ nofun)
    have ht := h.taken_none hd nofun nofun
    show Closers (if _ then _ else _)
    split <;> exact h.step p (fun _ => hin) (fun h' => absurd ht h') h.fresh

theorem closers_reconnect {k : ReconnectPc} {a : ReconnectAct} (hr : s.reconnect = k)
    (hs : Reconnected s k a s') : Closers s' := by
  have hi : s.disconnect .reconnect = .idle := by
    cases hs with
    | endFailed hi => exact hi
    | _ => exact h.idle_of_reconnect (hr ▸ nofun)
  -- what the reconnect has taken, by where it is
  have ht : k ≠ .exchanged → k ≠ .advanced → s.taken .reconnect = none := fun he ha =>
    h.taken_none_of_idle hi fun _ => ⟨hr ▸ he, hr ▸ ha⟩
  cases hs with
  | exchange => exact h.step .reconnect (absurd hi) (fun _ => .inr ⟨rfl, .inl rfl⟩) h.fresh
  | advance => exact h.step .reconnect (absurd hi) (fun _ => .inr ⟨rfl, .inr rfl⟩) h.fresh
  | close =>
    exact h.step .reconnect (absurd hi) (absurd (update_self Proc.reconnect _ s.taken)) h.fresh
  | unverified | unconnected | refused | unfinished =>
    exact h.step .reconnect (fun _ => rfl) (absurd (ht nofun nofun)) h.fresh
  | _ => exact h.step .reconnect (absurd hi) (absurd (ht nofun nofun)) h.fresh

theorem closers_receive {pc : LoopPc} {a : ReceiveAct} (hl : s.loop = pc)
    (hs : Looped s pc a s') : Closers s' := by
  have hi : s.disconnect .loop = .idle := by
    cases hs with
    | disconnected hi => exact hi
    | _ => exact h.idle_of_loop (hl ▸ nofun)
  have ht := h.taken_none_of_idle hi nofun
  cases hs with
  | sees | unheldFails | releaseFails => exact h.step .loop (fun _ => rfl) (absurd ht) h.fresh
  | attend =>
    have hnew := h.idle_of_attention (i := s.nextAttention)
      (by rw [h.fresh _ (Nat.le_refl _)]; exact nofun)
    refine ⟨fun h' => absurd hi h', fun i h' => ?_, h.reconnect, fun i hi' => ?_, h.taken⟩
    · have hne : i ≠ s.nextAttention := by
        rintro rfl
        exact h' hnew
      show update s.attention s.nextAttention _ i = _
      rw [update_of_ne hne]
      exact h.attention i h'
    · show update s.attention s.nextAttention _ i = _
      rw [update_of_ne (Nat.ne_of_gt (Nat.lt_of_succ_le hi'))]
      exact h.fresh i (Nat.le_of_succ_le hi')
  | _ => exact h.step .loop (absurd hi) (absurd ht) h.fresh

theorem closers_attention {i : Nat} {a : AttentionAct}
    (hg : s.attentionEnabled i a = true) : Closers (s.attentionStep i a) := by
  have fresh : ∀ {k : AttentionPc}, s.attention i = k → k ≠ .none → ∀ k' j, s.nextAttention ≤ j →
      update s.attention i k' j = .none := by
    rintro _ rfl hk k' j hj
    have hne : j ≠ i := by
      rintro rfl
      exact hk (h.fresh j hj)
    rw [update_of_ne hne]
    exact h.fresh j hj
  have others : ∀ k' j, Proc.attention j ≠ .attention i →
      update s.attention i k' j = s.attention j :=
    fun k' j e => update_of_ne (fun e' => e (congrArg Proc.attention e')) _ _
  -- the handler goes on outside of `loop_disconnect`
  have goes : ∀ {k : AttentionPc}, s.attention i = k → k ≠ .none →
      s.disconnect (.attention i) = .idle → ∀ k', Closers (s.setAttention i k') :=
    fun hk hne hi k' => h.step (.attention i) (absurd hi) (absurd (h.taken_none_of_idle hi nofun))
      (fresh hk hne k') (others k')
  have idle_at : ∀ {k : AttentionPc}, s.attention i = k → k ≠ .disconnecting →
      s.disconnect (.attention i) = .idle := by
    rintro _ rfl hk
    exact h.idle_of_attention hk
  cases a with
  | check context g =>
    have hk : s.attention i = .begun context g := of_decide_eq_true hg
    exact goes hk nofun (idle_at hk nofun) _
  | harmless context g =>
    have hk : s.attention i = .running context g := of_decide_eq_true hg
    exact goes hk nofun (idle_at hk nofun) _
  | shutdown context g =>
    have hk : s.attention i = .running context g := of_decide_eq_true hg
    have hi := idle_at hk nofun
    show Closers (if _ then _ else _)
    split
    · exact h.step (.attention i) (fun _ => update_self i _ s.attention)
        (absurd (h.taken_none_of_idle hi nofun)) (fresh hk nofun _) (others _)
    · exact goes hk nofun hi _
  | disconnected =>
    obtain ⟨hk, hi⟩ : s.attention i = .disconnecting ∧ _ := of_decide_eq_true hg
    exact goes hk nofun hi _

end

theorem closers_step {a : Act} (ht : Threads s) (h : Closers s) (hstep : s.step a = some s') :
    Closers s' := by
  obtain ⟨hg, rfl⟩ := step_eq_some.1 hstep
  cases a with
  | setupHeader kind | tickle => exact ⟨h.1, h.2, h.3, h.4, h.5⟩
  | send u a => exact closers_send h ht hg
  | disconnect p a => exact closers_disconnect h hg
  | reconnect a =>
    obtain ⟨k, hr, hs⟩ := reconnected hg
    exact closers_reconnect h hr hs
  | receive a =>
    obtain ⟨pc, hl, hs⟩ := looped hg
    exact closers_receive h hl hs
  | attention i a => exact closers_attention h hg

/-! ## One place for each descriptor -/

/-- Each published descriptor has one place, and the one in `server->fd` is that of the
generation. -/
structure Descriptors (s : Session) : Prop where
  places : Places s.opened s.fd s.taken (s.closed.map Prod.fst)
  fd_eq : ∀ d, s.fd = some d → d = s.generation
  fd_none : s.reconnect.between = true → s.fd = none
  new : s.reconnect.unpublished = true → s.generation ∉ s.opened
  opened_le : ∀ d ∈ s.opened, d ≤ s.generation

theorem descriptors_start (last : Nat) (replayCache : Bool) :
    Descriptors (start last replayCache) := by
  refine ⟨⟨?_, nofun, nofun, nofun, nofun, nofun, nofun, nodup_nil, ?_⟩, ?_, nofun, nofun, ?_⟩
  · rintro d ⟨⟩
    exact mem_singleton_self 0
  · rintro d hd
    exact .inl (mem_singleton.1 hd ▸ rfl)
  · rintro d ⟨⟩
    rfl
  · rintro d hd
    exact Nat.le_of_eq (mem_singleton.1 hd)

theorem Descriptors.congr (h : Descriptors s)
    (hb : s'.reconnect.between = true → s.reconnect.between = true := by exact id)
    (hu : s'.reconnect.unpublished = true → s.reconnect.unpublished = true := by exact id)
    (hf : s'.fd = s.fd := by rfl) (hg : s'.generation = s.generation := by rfl)
    (ho : s'.opened = s.opened := by rfl) (hc : s'.closed = s.closed := by rfl)
    (ht : s'.taken = s.taken := by rfl) : Descriptors s' := by
  constructor <;> simp only [hf, hg, ho, hc, ht]
  exacts [h.places, h.fd_eq, h.fd_none ∘ hb, h.new ∘ hu, h.opened_le]

theorem Descriptors.take (h : Descriptors s) (hp : s.taken p = none)
    (hu : s'.reconnect.unpublished = true → s.reconnect.unpublished = true)
    (hf : s'.fd = none := by rfl) (ht : s'.taken = update s.taken p s.fd := by rfl)
    (hg : s'.generation = s.generation := by rfl) (ho : s'.opened = s.opened := by rfl)
    (hc : s'.closed = s.closed := by rfl) : Descriptors s' := by
  refine ⟨?_, ?_, fun _ => hf, ?_, ?_⟩ <;> simp only [hf, hg, ho, hc, ht]
  exacts [h.places.take hp, nofun, h.new ∘ hu, h.opened_le]

theorem Descriptors.close (h : Descriptors s) (p : Proc) :
    Places s.opened s.fd (update s.taken p none)
      ((s.closed ++ (s.taken p).toList.map fun d => (d, s.event p)).map Prod.fst) := by
  cases hd : s.taken p with
  | none =>
    rw [show update s.taken p none = s.taken by rw [← hd, update_eq_self]]
    simpa using h.places
  | some d => simpa using h.places.close hd

theorem descriptors_send (ht : Threads s) (h : Descriptors s) {u : Nat} {a : SendAct}
    (hg : s.sendEnabled u a = true) : Descriptors (s.send u a) := by
  have hs := send_sends hg
  have hrec : (s.send u a).reconnect = s.reconnect ∨ (s.send u a).reconnect = .begun :=
    (send_reconnect_cases ht hg).imp_right And.right
  refine h.congr (fun h' => ?_) (fun h' => ?_) hs.fd hs.generation hs.opened hs.closed hs.taken
  · rcases hrec with e | e
    · exact e ▸ h'
    · rw [e] at h'
      cases h'
  · rcases hrec with e | e
    · exact e ▸ h'
    · rw [e] at h'
      cases h'

theorem descriptors_disconnect (hc : Closers s) (h : Descriptors s) {a : DisconnectAct}
    (hg : s.disconnectEnabled p a = true) : Descriptors (s.disconnectStep p a) := by
  cases a with
  | loadGeneration => exact h.congr
  | take g =>
    have ht := hc.taken_none (of_decide_eq_true hg : s.disconnect p = .loaded g) nofun nofun
    show Descriptors (if _ then _ else _)
    split
    · exact h.take ht id
    · exact h.congr
  | close g =>
    show Descriptors ((s.closeDescriptor p).setDisconnect p _)
    rw [closeDescriptor_eq]
    exact ⟨h.close p, h.fd_eq, h.fd_none, h.new, h.opened_le⟩
  | fail g => exact h.congr
  | mark g =>
    show Descriptors (if _ then _ else _)
    split <;> exact h.congr

theorem descriptors_reconnect (hc : Closers s) (h : Descriptors s) {k : ReconnectPc}
    {a : ReconnectAct} (hr : s.reconnect = k) (hs : Reconnected s k a s') : Descriptors s' := by
  have hfd : k.between = true → s.fd = none := fun e => h.fd_none (hr ▸ e)
  have hnew : k.unpublished = true → s.generation ∉ s.opened := fun e => h.new (hr ▸ e)
  cases hs with
  | exchange =>
    have ht : s.taken .reconnect = none :=
      hc.taken_none_of_idle (hc.idle_of_reconnect (hr ▸ nofun)) fun _ => ⟨hr ▸ nofun, hr ▸ nofun⟩
    exact h.take ht nofun
  | advance =>
    have hlt : ∀ d ∈ s.opened, d < s.generation + 1 := fun d hd => Nat.lt_succ_of_le (h.opened_le d hd)
    refine ⟨h.places, fun d hd => ?_, fun _ => hfd rfl, fun _ hm => ?_, fun d hd => ?_⟩
    · exact absurd ((hfd rfl).symm.trans hd) nofun
    · exact Nat.lt_irrefl _ (hlt _ hm)
    · exact Nat.le_of_lt (hlt d hd)
  | close => exact ⟨h.close .reconnect, h.fd_eq, fun _ => hfd rfl, fun _ => hnew rfl, h.opened_le⟩
  | connected | resetRequestid =>
    exact h.congr (fun _ => by rw [hr]; rfl) fun _ => by rw [hr]; rfl
  | publish =>
    have hplaces := h.places
    rw [hfd rfl] at hplaces
    refine ⟨hplaces.publish (hnew rfl), ?_, nofun, nofun, fun d hd => ?_⟩
    · rintro d ⟨⟩
      rfl
    · rcases mem_append.1 hd with hd | hd
      · exact h.opened_le d hd
      · exact Nat.le_of_eq (mem_singleton.1 hd)
  | _ => exact h.congr nofun nofun

theorem descriptors_step {a : Act} (ht : Threads s) (hc : Closers s) (h : Descriptors s)
    (hstep : s.step a = some s') : Descriptors s' := by
  obtain ⟨hg, rfl⟩ := step_eq_some.1 hstep
  cases a with
  | setupHeader kind | tickle => exact h.congr
  | send u a => exact descriptors_send ht h hg
  | disconnect p a => exact descriptors_disconnect hc h hg
  | reconnect a =>
    obtain ⟨k, hr, hs⟩ := reconnected hg
    exact descriptors_reconnect hc h hr hs
  | receive a =>
    obtain ⟨_, -, hs⟩ := looped hg
    have hs := hs.receives
    exact h.congr (fun h' => hs.reconnect ▸ h') (fun h' => hs.reconnect ▸ h') hs.fd hs.generation
      hs.opened hs.closed hs.taken
  | attention i a =>
    have hs := attention_attends s i a
    exact h.congr (fun h' => hs.reconnect ▸ h') (fun h' => hs.reconnect ▸ h') hs.fd hs.generation
      hs.opened hs.closed hs.taken

/-- A thread that has taken a descriptor is on its way to close it, and nothing can keep
it from there but a sender that is about to write. -/
theorem exists_closed (hm : Mutex s) (hc : Closers s) {d : Nat} (hd : s.taken p = some d) :
    ∃ as s', runSteps step s as = some s' ∧ d ∈ s'.closed.map Prod.fst := by
  obtain ⟨as, t, hrun, hfree, ht, hdis, hrec, -⟩ := mutex_released hm
  have htd : t.taken p = some d := by rw [ht, hd]
  have closes : ∀ x : Session, x.taken p = some d → d ∈ (x.closeDescriptor p).closed.map Prod.fst := by
    intro x hx
    unfold closeDescriptor
    rw [hx]
    exact mem_map_of_mem (mem_append_right _ (mem_singleton_self _))
  have more : ∀ bs s', runSteps step t bs = some s' → d ∈ s'.closed.map Prod.fst →
      ∃ as s', runSteps step s as = some s' ∧ d ∈ s'.closed.map Prod.fst :=
    fun _ _ hbs hm => ⟨_, _, runSteps_append.2 ⟨t, hrun, hbs⟩, hm⟩
  rcases hc.taken p (by rw [hd]; exact nofun) with ⟨g, e⟩ | ⟨rfl, e | e⟩
  · have hclose : step t (.disconnect p (.close g)) = some (t.disconnectStep p (.close g)) :=
      step_eq_some.2 ⟨decide_eq_true ⟨by rw [hdis, e], .inr hfree⟩, rfl⟩
    exact more [.disconnect p (.close g)] _ (runSteps_cons.2 ⟨_, hclose, rfl⟩) (closes t htd)
  · have hadvance : step t (.reconnect .advance) = some (t.reconnectStep .advance) :=
      step_eq_some.2 ⟨decide_eq_true (by rw [hrec, e]), rfl⟩
    have hclose : step (t.reconnectStep .advance) (.reconnect .close) =
        some ((t.reconnectStep .advance).reconnectStep .close) :=
      step_eq_some.2 ⟨decide_eq_true ⟨rfl, .inr hfree⟩, rfl⟩
    exact more [.reconnect .advance, .reconnect .close] _
      (runSteps_cons.2 ⟨_, hadvance, runSteps_cons.2 ⟨_, hclose, rfl⟩⟩)
      (closes (t.reconnectStep .advance) htd)
  · have hclose : step t (.reconnect .close) = some (t.reconnectStep .close) :=
      step_eq_some.2 ⟨decide_eq_true ⟨by rw [hrec, e], .inr hfree⟩, rfl⟩
    exact more [.reconnect .close] _ (runSteps_cons.2 ⟨_, hclose, rfl⟩) (closes t htd)

end Session

end NC
