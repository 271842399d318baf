import NetatalkClient.Proof.Dsi.Shared

/-!
# Which request a reply goes to

A reply goes to the first request in the queue that waits for its ID. `Live` lists the
calls that can still meet a reply: those in progress, and those whose frame the server
has not answered on the current connection. As long as an ID comes into use only where
no such call has it (`Fresh`), their IDs are distinct (`distinct_step`), and a reply
goes to the request whose frame it answers (`replies_match`).
-/

namespace NC

open List SendCall

namespace SendPc

/-- In progress, and not within a reconnect. -/
def active : SendPc → Bool
  | .none | .reconnecting | .returned _ _ => false
  | _ => true

/-- Behind the write. -/
def behind : SendPc → Bool
  | .waiting | .answered | .leaving _ _ | .returned _ _ => true
  | _ => false

end SendPc

namespace LoopPc

/-- The call whose reply is to be looked up next. -/
def answers : LoopPc → Option Nat
  | .reply _ _ u _ => some u
  | _ => none

/-- Between the check of the generation and the lookup of a reply. -/
def reading : LoopPc → Bool
  | .recvFrame _ _ | .reply _ _ _ _ => true
  | _ => false

/-- With nothing that a later step of the loop relies on. -/
def quiet : LoopPc → Bool
  | .gotGeneration _ | .gotFd _ (some _) | .recvFrame _ _ | .reply _ _ _ _ => false
  | .found _ _ _ _ (some _) => false
  | _ => true

end LoopPc

theorem SendCall.connectionGeneration_of_frame {c c' : SendCall} (h : c'.frame = c.frame) :
    c'.connectionGeneration = c.connectionGeneration := by
  have hh : c'.frame.connectionGeneration = c.frame.connectionGeneration := by rw [h]
  exact hh

namespace Session

variable {s s' : Session} {u v : Nat} {pc pc' : SendPc} {a : SendAct}
  {fs : List (Nat × Nat)}

/-! ## The generation of a request -/

/-- A request's generation is not later than the connection that its frame is on. -/
structure Loaded (s : Session) : Prop where
  generation : ∀ u, (s.calls u).connectionGeneration ≤ s.generation
  sending : ∀ u d, (s.calls u).pc = .sending (some d) → (s.calls u).connectionGeneration ≤ d
  wire : ∀ d u, (d, u) ∈ s.wire →
    (s.calls u).pc.behind = true ∧ (s.calls u).connectionGeneration ≤ d

theorem loaded_start (last : Nat) (replayCache : Bool) : Loaded (start last replayCache) :=
  ⟨fun _ => Nat.le_refl 0, nofun, nofun⟩

theorem Loaded.frame (h : Loaded s) (hw : s'.wire = s.wire) (hg : s.generation ≤ s'.generation)
    (hf : ∀ v, (s'.calls v).frame = (s.calls v).frame) : Loaded s' := by
  have hpc : ∀ v, (s'.calls v).pc = (s.calls v).pc := fun v => pc_of_frame (hf v)
  have hcg := fun v => connectionGeneration_of_frame (hf v)
  constructor <;> simp only [hw, hpc, hcg]
  exacts [fun v => Nat.le_trans (h.generation v) hg, h.sending, h.wire]

theorem Moves.behind (hm : Moves s u pc a pc' fs s')
    (h : pc.behind = true) : pc'.behind = true ∧ fs = [] := by
  cases hm with
  | answered | expired | result | removed | dropped | unknown => exact ⟨rfl, rfl⟩
  | _ => cases h

theorem Moves.frames_behind (hm : Moves s u pc a pc' fs s') {f : Nat × Nat} (hf : f ∈ fs) :
    pc'.behind = true := by
  cases hm with
  | written | sent => rfl
  | _ => cases hf

theorem loaded_send (hd : Descriptors s) (h : Loaded s) {a : SendAct}
    (hg : s.sendEnabled u a = true) : Loaded (s.send u a) := by
  obtain ⟨fs, hm, hw⟩ := send_moves hg
  have hs := send_sends hg
  have hk := (send_kept hg).loaded
  -- the generation is loaded before the descriptor is
  have same : ((s.send u a).calls u).pc ≠ .loaded →
      ((s.send u a).calls u).connectionGeneration = (s.calls u).connectionGeneration :=
    fun hne => hk.resolve_right fun e => hne e.1
  refine ⟨fun v => ?_, fun v d e => ?_, fun d v hf => ?_⟩
  · rw [hs.generation]
    by_cases hv : v = u
    · subst hv
      rcases hk with e | ⟨-, e⟩
      · rw [e]
        exact h.generation v
      · exact Nat.le_of_eq e
    · rw [hs.calls v hv]
      exact h.generation v
  · by_cases hv : v = u
    · subst hv
      rw [same (by rw [e]; exact nofun)]
      rw [e] at hm
      rw [hd.fd_eq d hm.sending.2.symm]
      exact h.generation v
    · rw [hs.calls v hv] at e ⊢
      exact h.sending v d e
  · rw [hw] at hf
    by_cases hv : v = u
    · subst hv
      have hbehind : ((s.send v a).calls v).pc.behind = true ∧ (s.calls v).connectionGeneration ≤ d := by
        rcases mem_append.1 hf with hf | hf
        · exact ⟨(hm.behind (h.wire d v hf).1).1, (h.wire d v hf).2⟩
        · exact ⟨hm.frames_behind hf, h.sending v d (hm.frames hf).2⟩
      refine ⟨hbehind.1, ?_⟩
      rw [same (fun e => by rw [e] at hbehind; exact nomatch hbehind.1)]
      exact hbehind.2
    · rw [hs.calls v hv]
      rcases mem_append.1 hf with hf | hf
      · exact h.wire d v hf
      · exact absurd (hm.frames hf).1 hv

theorem loaded_setupHeader (hwr : Writes s) (h : Loaded s) {c : SendCall}
    (hc : c.connectionGeneration = 0) : Loaded (s.setupHeader c) := by
  refine ⟨fun v => ?_, fun v d e => ?_, fun d v hf => ?_⟩
  · by_cases hv : v = s.nextCall
    · rw [hv, setupHeader_self]
      exact hc ▸ Nat.zero_le _
    · rw [setupHeader_of_ne s c hv]
      exact h.generation v
  · by_cases hv : v = s.nextCall
    · rw [hv, setupHeader_self]
      exact hc ▸ Nat.zero_le _
    · rw [setupHeader_of_ne s c hv] at e ⊢
      exact h.sending v d e
  · rw [setupHeader_of_lt c (hwr.wire d v hf).2]
    exact h.wire d v hf

/-- The call that reconnected has no frame yet. -/
theorem Loaded.ends (ht : Threads s) (h : Loaded s) (hr : s.reconnect ≠ .idle) (pc : SendPc)
    (hpc : ∀ d, pc ≠ .sending (some d)) : Loaded (s.goto s.reconnectCall pc) := by
  have hcaller := ht.caller hr
  have hold := (sends_goto s s.reconnectCall pc).calls
  have hcg := goto_keeps connectionGeneration s s.reconnectCall pc rfl
  refine ⟨fun v => ?_, fun v d e => ?_, fun d v hf => ?_⟩
  · rw [hcg v]
    exact h.generation v
  · by_cases hv : v = s.reconnectCall
    · subst hv
      exact absurd (congrArg SendCall.pc (setCall_self s _ _) |>.symm.trans e) (hpc d)
    · rw [hold v hv] at e ⊢
      exact h.sending v d e
  · have hf' := h.wire d v hf
    have hv : v ≠ s.reconnectCall := by
      rintro rfl
      rw [hcaller] at hf'
      exact nomatch hf'.1
    rw [hold v hv]
    exact hf'

theorem loaded_reconnect (ht : Threads s) (hwr : Writes s) (h : Loaded s) {k : ReconnectPc}
    {a : ReconnectAct} (hr : s.reconnect = k) (hs : Reconnected s k a s') : Loaded s' := by
  have hidle := hs.ne_idle hr
  cases hs with
  | flush => exact h.frame rfl (Nat.le_refl _) flush_frame
  | advance => exact h.frame rfl (Nat.le_succ _) fun _ => rfl
  | opensession | send =>
    exact (loaded_setupHeader hwr h (c := nextRequest _) rfl).frame rfl (Nat.le_refl _) fun _ => rfl
  | ended => exact (h.ends ht hidle .checked nofun).frame rfl (Nat.le_refl _) fun _ => rfl
  | endFailed =>
    exact (h.ends ht hidle (.returned .refused (-EIO_)) nofun).frame rfl (Nat.le_refl _) fun _ => rfl
  | _ => exact h.frame rfl (Nat.le_refl _) fun _ => rfl

theorem loaded_step {a : Act} (hs : Shared s) (h : Loaded s) (hstep : s.step a = some s') :
    Loaded s' := by
  obtain ⟨hg, rfl⟩ := step_eq_some.1 hstep
  have hb := bystands hg
  cases a with
  | setupHeader kind => exact loaded_setupHeader hs.writes h rfl
  | tickle =>
    have hnew := loaded_setupHeader hs.writes h (c := { pc := .locked, kind := .tickle }) rfl
    exact hnew.frame rfl (Nat.le_refl _) fun _ => rfl
  | send u a => exact loaded_send hs.descriptors h hg
  | reconnect a =>
    obtain ⟨k, hr, hrec⟩ := reconnected hg
    exact loaded_reconnect hs.threads hs.writes h hr hrec
  | _ => exact h.frame (hb rfl).wire (Nat.le_of_eq (hb rfl).generation.symm) (hb rfl).frame

/-! ## Calls that can meet a reply -/

/-- The call `u` is in progress, its frame on the current connection has not been
answered, or the answer is being read. -/
def Live (s : Session) (u : Nat) : Prop :=
  (s.calls u).pc.active = true ∨ ((s.generation, u) ∈ s.wire ∧ u ∉ s.replied) ∨
    (s.rx = some u ∧ s.rxGeneration = s.generation) ∨ s.loop.answers = some u

/-- An ID is drawn, or taken out of a reconnect by the call that reconnected, only where no
live call has it, and the generation does not advance while the loop reads. -/
def Fresh (s : Session) : Act → Prop
  | .setupHeader _ | .tickle | .reconnect .send =>
    ∀ v, Live s v → (s.calls v).requestid ≠ s.nextRequestid
  | .reconnect .end => ∀ v, Live s v → (s.calls v).requestid ≠ (s.calls s.reconnectCall).requestid
  | .reconnect .advance => s.loop.reading = false
  | _ => True

/-- Where the loop is in a reply, and what it has handed on. -/
structure Reads (s : Session) : Prop where
  gotGeneration : ∀ g, s.loop = .gotGeneration g → g ≤ s.generation
  gotFd : ∀ g d, s.loop = .gotFd g (some d) → g ≤ d ∧ d ≤ s.generation
  recvFrame : ∀ g d, s.loop = .recvFrame g d →
    d = s.generation ∧ g = s.generation ∧ s.rxGeneration = s.generation
  reply : ∀ g d u empty, s.loop = .reply g d u empty → d = s.generation ∧ (d, u) ∈ s.wire
  found : ∀ g d u empty v, s.loop = .found g d u empty (some v) → v = u ∧ (d, u) ∈ s.wire
  rx : ∀ u, s.rx = some u → (s.rxGeneration, u) ∈ s.wire
  rx_le : s.rxGeneration ≤ s.generation
  delivered : ∀ x ∈ s.delivered,
    x.reply = x.request ∧ x.connection = x.generation ∧ (x.connection, x.request) ∈ s.wire

theorem reads_start (last : Nat) (replayCache : Bool) : Reads (start last replayCache) :=
  ⟨nofun, nofun, nofun, nofun, nofun, nofun, Nat.le_refl 0, nofun⟩

/-- The IDs of live calls are distinct. -/
def Distinct (s : Session) : Prop :=
  ∀ u v, Live s u → Live s v → (s.calls u).requestid = (s.calls v).requestid → u = v

theorem distinct_start (last : Nat) (replayCache : Bool) : Distinct (start last replayCache) := by
  rintro u v (h | ⟨h, -⟩ | ⟨h, -⟩ | h) <;> cases h

theorem Live.lt_nextCall (hs : Shared s) (hr : Reads s) (h : Live s u) : u < s.nextCall := by
  rcases h with h | ⟨h, -⟩ | ⟨h, -⟩ | h
  · refine hs.threads.lt_nextCall fun e => ?_
    rw [e] at h
    cases h
  · exact (hs.writes.wire _ _ h).2
  · exact (hs.writes.wire _ _ (hr.rx u h)).2
  · cases hl : s.loop with
    | reply g d w empty =>
      rw [hl] at h
      obtain rfl := Option.some.inj h
      exact (hs.writes.wire _ _ (hr.reply g d w empty hl).2).2
    | _ =>
      rw [hl] at h
      cases h

theorem live_of_queued (hs : Shared s) (h : u ∈ s.commandRequests) : Live s u := by
  have hreq := (Bool.and_eq_true_iff.1 ((hs.owned.calls u).owned_of_mem h)).2
  refine .inl ?_
  cases hpc : (s.calls u).pc with
  | none | reconnecting | returned why rc => rw [hpc] at hreq; cases hreq
  | _ => rfl

theorem find_eq (hs : Shared s) (h : Distinct s) {g d : Nat} {empty : Bool}
    (hl : s.loop = .reply g d u empty) (hf : s.findRequest u = some v) : v = u := by
  have hw := find?_some hf
  have hid : (s.calls v).requestid = (s.calls u).requestid :=
    of_decide_eq_true (Bool.and_eq_true_iff.1 hw).2
  exact h v u (live_of_queued hs (mem_of_find?_eq_some hf))
    (.inr (.inr (.inr (by rw [hl]; rfl)))) hid

/-! ### A step brings at most one call to life -/

theorem Live.congr (h : Live s' u) (hg : s'.generation = s.generation) (hw : s'.wire = s.wire)
    (hrep : s'.replied = s.replied) (hrx : s'.rx = s.rx) (hrg : s'.rxGeneration = s.rxGeneration)
    (hl : s'.loop = s.loop)
    (hpc : (s'.calls u).pc.active = true → (s.calls u).pc.active = true) : Live s u := by
  unfold Live at h ⊢
  rw [hg, hw, hrep, hrx, hrg, hl] at h
  exact h.imp_left hpc

theorem Live.aside (h : Live s' u) (hs : Aside s s') : Live s u :=
  h.congr hs.generation hs.wire hs.replied hs.rx hs.rxGeneration hs.loop
    fun e => pc_of_frame (hs.frame u) ▸ e

theorem Live.loop (h : Live s' u) (hs : Receives s s') (hrep : ∀ w ∈ s.replied, w ∈ s'.replied)
    (hrx : s'.rx = some u → s.rx = some u ∧ s'.rxGeneration = s.rxGeneration)
    (hl : s'.loop.answers = none) : Live s u := by
  unfold Live at h ⊢
  rw [hs.generation, hs.wire, hl, pc_of_frame (hs.frame u)] at h
  rcases h with h | ⟨h, hn⟩ | ⟨h, hg⟩ | h
  · exact .inl h
  · exact .inr (.inl ⟨h, fun hm => hn (hrep u hm)⟩)
  · obtain ⟨hrx, e⟩ := hrx h
    exact .inr (.inr (.inl ⟨hrx, e.symm.trans hg⟩))
  · cases h

theorem live_receive (hr : Reads s) {pc : LoopPc} {a : ReceiveAct} (hl : s.loop = pc)
    (hs : Looped s pc a s') (h : Live s' u) : Live s u := by
  have hrec := hs.receives
  cases hs with
  | renewed => exact h.loop hrec (fun _ => id) nofun rfl
  | @header g d w hw hn =>
    by_cases e : u = w
    · -- the frame was not answered until now
      exact e ▸ .inr (.inl ⟨(hr.recvFrame g d hl).1 ▸ hw, hn⟩)
    · exact h.loop hrec (fun _ => mem_append_left _)
        (fun e' => absurd (Option.some.inj e').symm e) rfl
  | @headerOnly g d w hw hn =>
    by_cases e : u = w
    · exact e ▸ .inr (.inl ⟨(hr.recvFrame g d hl).1 ▸ hw, hn⟩)
    · rcases h with h | ⟨h, hn⟩ | ⟨h, -⟩ | h
      · exact .inl h
      · exact .inr (.inl ⟨h, fun hm => hn (mem_append_left _ hm)⟩)
      · cases h
      · exact absurd (Option.some.inj h).symm e
  | @resume g d w hrx =>
    rcases h with h | h | h | h
    · exact .inl h
    · exact .inr (.inl h)
    · exact .inr (.inr (.inl h))
    · exact Option.some.inj h ▸ .inr (.inr (.inl ⟨hrx, (hr.recvFrame g d hl).2.2⟩))
  | replyEnds hpc =>
    refine h.loop hrec (fun _ => id) nofun ?_
    rcases hpc with rfl | ⟨_, _, -, rfl⟩ <;> rfl
  | _ => exact h.loop hrec (fun _ => id) (fun e => ⟨e, rfl⟩) rfl

theorem live_send {a : SendAct} (hg : s.sendEnabled v a = true) (h : Live (s.send v a) u) :
    Live s u := by
  obtain ⟨fs, hm, hw⟩ := send_moves hg
  have hs := send_sends hg
  by_cases e : u = v
  · -- a sender that takes a step is in progress
    subst e
    obtain ⟨hnone, hrec⟩ := hm.running
    refine .inl ?_
    have hret := hm.hasReturned
    cases hpc : (s.calls u).pc with
    | none => exact absurd hpc hnone
    | reconnecting => exact absurd hpc hrec
    | returned why rc => rw [hpc] at hret; cases hret
    | _ => rfl
  · unfold Live at h ⊢
    rw [hs.generation, hw, hs.replied, hs.rx, hs.rxGeneration, hs.loop, hs.calls u e] at h
    refine h.imp_right (Or.imp_left fun ⟨h, hn⟩ => ⟨?_, hn⟩)
    exact (mem_append.1 h).resolve_right fun hf => e (hm.frames hf).1

theorem live_setupHeader (c : SendCall) (h : Live (s.setupHeader c) u) : u = s.nextCall ∨ Live s u := by
  by_cases e : u = s.nextCall
  · exact .inl e
  · exact .inr (h.congr rfl rfl rfl rfl rfl rfl (by rw [setupHeader_of_ne s c e]; exact id))

theorem live_reconnect (hsh : Shared s) (hr : Reads s) {k : ReconnectPc} {a : ReconnectAct}
    (hs : Reconnected s k a s') (h : Live s' u) :
    Live s u ∨ (a = .send ∧ u = s.nextCall) ∨ (a = .end ∧ u = s.reconnectCall) := by
  cases hs with
  | flush =>
    have hpc := pc_of_frame (flush_frame (s := s) u)
    exact .inl (h.congr rfl rfl rfl rfl rfl rfl (by rw [← hpc]; exact id))
  | advance =>
    refine .inl ?_
    rcases h with h | ⟨h, -⟩ | ⟨-, h⟩ | h
    · exact .inl h
    · -- nothing is on the wire of a generation to come
      have hle := hsh.descriptors.opened_le _ (hsh.writes.wire _ _ h).1
      exact absurd hle (Nat.not_succ_le_self _)
    · exact absurd hr.rx_le (by
        rw [show s.rxGeneration = s.generation + 1 from h]
        exact Nat.not_succ_le_self _)
    · exact .inr (.inr (.inr h))
  | opensession | send =>
    rcases live_setupHeader (nextRequest _) h with e | h
    · exact .inr (.inl ⟨rfl, e⟩)
    · exact .inl h
  | ended =>
    by_cases e : u = s.reconnectCall
    · exact .inr (.inr ⟨rfl, e⟩)
    · have hold := (sends_goto s s.reconnectCall .checked).calls u e
      exact .inl (h.congr rfl rfl rfl rfl rfl rfl fun h' => by
        rw [← hold]
        exact h')
  | endFailed =>
    refine .inl (h.congr rfl rfl rfl rfl rfl rfl fun h' => ?_)
    by_cases e : u = s.reconnectCall
    · subst e
      exact absurd (congrArg (fun c => c.pc.active) (setCall_self s _ _) |>.symm.trans h') nofun
    · rw [← (sends_goto s s.reconnectCall (.returned .refused (-EIO_))).calls u e]
      exact h'
  | _ => exact .inl (h.congr rfl rfl rfl rfl rfl rfl id)

/-! ### What the loop has read -/

theorem Reads.congr (h : Reads s) (hg : s'.generation = s.generation)
    (hw : ∀ f ∈ s.wire, f ∈ s'.wire) (hrx : s'.rx = s.rx) (hrg : s'.rxGeneration = s.rxGeneration)
    (hl : s'.loop = s.loop) (hd : s'.delivered = s.delivered) : Reads s' := by
  constructor <;> simp only [hl, hg, hrx, hrg, hd]
  exacts [h.gotGeneration, h.gotFd, h.recvFrame,
    fun g d u empty e => (h.reply g d u empty e).imp_right (hw _),
    fun g d u empty v e => (h.found g d u empty v e).imp_right (hw _), fun u e => hw _ (h.rx u e),
    h.rx_le, fun x hx => (h.delivered x hx).imp_right (And.imp_right (hw _))]

/-- The loop goes on with nothing that it relies on, and no new reply. -/
theorem Reads.goes (h : Reads s) (hs : Receives s s') (hq : s'.loop.quiet = true)
    (hrx : s'.rx = none ∨ s'.rx = s.rx) (hrg : s'.rxGeneration = s.rxGeneration)
    (hd : s'.delivered = s.delivered) : Reads s' := by
  have ne : ∀ {pc : LoopPc}, s'.loop = pc → pc.quiet = false → False := by
    rintro _ rfl e
    rw [hq] at e
    cases e
  refine ⟨fun _ e => (ne e rfl).elim, fun _ _ e => (ne e rfl).elim, fun _ _ e => (ne e rfl).elim,
    fun _ _ _ _ e => (ne e rfl).elim, fun _ _ _ _ _ e => (ne e rfl).elim, fun u e => ?_, ?_, ?_⟩
  · rw [hrg, hs.wire]
    rcases hrx with hrx | hrx
    · cases hrx.symm.trans e
    · exact h.rx u (hrx.symm.trans e)
  · rw [hrg, hs.generation]
    exact h.rx_le
  · rw [hd, hs.wire]
    exact h.delivered

/-- A reply that passes the check of its request's generation came on the current
connection. -/
theorem reads_checkGeneration (hsh : Shared s) (hld : Loaded s) (h : Reads s) {g d w r : Nat}
    {empty : Bool} (hl : s.loop = .found g d w empty (some r))
    (hgen : (s.calls r).connectionGeneration = s.generation) {x : Delivery}
    (hx : x ∈ s.delivered ++ [⟨w, d, r, s.generation⟩]) :
    x.reply = x.request ∧ x.connection = x.generation ∧ (x.connection, x.request) ∈ s.wire := by
  rcases mem_append.1 hx with hx | hx
  · exact h.delivered x hx
  · obtain rfl := mem_singleton.1 hx
    obtain ⟨rfl, hw⟩ := h.found g d w empty r hl
    have hle := (hld.wire d r hw).2
    have hge := hsh.descriptors.opened_le d (hsh.writes.wire d r hw).1
    rw [hgen] at hle
    exact ⟨rfl, Nat.le_antisymm hge hle, hw⟩

theorem reads_receive (hsh : Shared s) (hld : Loaded s) (hdi : Distinct s) (h : Reads s)
    {pc : LoopPc} {a : ReceiveAct} (hl : s.loop = pc) (hs : Looped s pc a s') : Reads s' := by
  have hr := hs.receives
  cases hs with
  | loadGeneration =>
    refine ⟨?_, nofun, nofun, nofun, nofun, h.rx, h.rx_le, h.delivered⟩
    rintro g ⟨⟩
    exact Nat.le_refl _
  | @loadFd g =>
    have hle := h.gotGeneration g hl
    refine ⟨nofun, fun g' d e => ?_, nofun, nofun, nofun, h.rx, h.rx_le, h.delivered⟩
    obtain ⟨rfl, hfd⟩ := LoopPc.gotFd.inj e
    rw [hsh.descriptors.fd_eq d hfd]
    exact ⟨hle, Nat.le_refl _⟩
  | @renewed g d hgen =>
    obtain ⟨hgd, hdg⟩ := h.gotFd g d hl
    refine ⟨nofun, nofun, ?_, nofun, nofun, nofun, Nat.le_of_eq hgen.symm, h.delivered⟩
    rintro g' d' ⟨⟩
    exact ⟨Nat.le_antisymm hdg (hgen ▸ hgd), hgen.symm, hgen.symm⟩
  | @current g d hgen hrx =>
    obtain ⟨hgd, hdg⟩ := h.gotFd g d hl
    refine ⟨nofun, nofun, ?_, nofun, nofun, h.rx, h.rx_le, h.delivered⟩
    rintro g' d' ⟨⟩
    exact ⟨Nat.le_antisymm hdg (hgen ▸ hgd), hgen.symm, hrx.trans hgen.symm⟩
  | @header g d u hw =>
    obtain ⟨hd, -, hrg⟩ := h.recvFrame g d hl
    refine ⟨nofun, nofun, nofun, nofun, nofun, ?_, h.rx_le, h.delivered⟩
    rintro u' ⟨⟩
    show (s.rxGeneration, u) ∈ s.wire
    rw [hrg, ← hd]
    exact hw
  | @headerOnly g d u hw =>
    refine ⟨nofun, nofun, nofun, ?_, nofun, nofun, h.rx_le, h.delivered⟩
    rintro g' d' u' empty ⟨⟩
    exact ⟨(h.recvFrame g d hl).1, hw⟩
  | @resume g d u hrx =>
    obtain ⟨hd, -, hrg⟩ := h.recvFrame g d hl
    refine ⟨nofun, nofun, nofun, ?_, nofun, h.rx, h.rx_le, h.delivered⟩
    rintro g' d' u' empty ⟨⟩
    have hw := h.rx u hrx
    rw [hrg, ← hd] at hw
    exact ⟨hd, hw⟩
  | @found g d u v empty hv =>
    refine ⟨nofun, nofun, nofun, nofun, ?_, h.rx, h.rx_le, h.delivered⟩
    rintro g' d' u' empty' v' ⟨⟩
    exact ⟨find_eq hsh hdi hl hv, (h.reply g d u empty hl).2⟩
  | delivered hgen =>
    exact ⟨nofun, nofun, nofun, nofun, nofun, h.rx, h.rx_le,
      fun x hx => reads_checkGeneration hsh hld h hl hgen hx⟩
  | replyEnds hpc =>
    refine h.goes hr ?_ (.inl rfl) rfl rfl
    rcases hpc with rfl | ⟨_, _, -, rfl⟩ <;> rfl
  | _ => exact h.goes hr rfl (.inr rfl) rfl rfl

theorem reads_reconnect (h : Reads s) {k : ReconnectPc} {a : ReconnectAct} (hs : Reconnected s k a s')
    (hok : Fresh s (.reconnect a)) : Reads s' := by
  cases hs with
  | advance =>
    have reading : ∀ {pc : LoopPc}, s.loop = pc → pc.reading = true → False := by
      rintro _ rfl e
      exact absurd (hok.symm.trans e) nofun
    refine ⟨fun g e => ?_, fun g d e => ?_, fun _ _ e => (reading e rfl).elim,
      fun _ _ _ _ e => (reading e rfl).elim, h.found, h.rx, Nat.le_succ_of_le h.rx_le, h.delivered⟩
    · exact Nat.le_succ_of_le (h.gotGeneration g e)
    · exact ⟨(h.gotFd g d e).1, Nat.le_succ_of_le (h.gotFd g d e).2⟩
  | _ => exact h.congr rfl (fun _ => id) rfl rfl rfl rfl

theorem reads_step {a : Act} (hsh : Shared s) (hld : Loaded s) (hdi : Distinct s) (h : Reads s)
    (hok : Fresh s a) (hstep : s.step a = some s') : Reads s' := by
  obtain ⟨hg, rfl⟩ := step_eq_some.1 hstep
  cases a with
  | setupHeader kind | tickle => exact h.congr rfl (fun _ => id) rfl rfl rfl rfl
  | send u a =>
    obtain ⟨fs, -, hw⟩ := send_moves hg
    have hs := send_sends hg
    refine h.congr hs.generation (fun f hf => ?_) hs.rx hs.rxGeneration hs.loop hs.delivered
    show f ∈ (s.send u a).wire
    rw [hw]
    exact mem_append_left _ hf
  | disconnect p a =>
    have hs := disconnect_aside s p a
    exact h.congr hs.generation (fun _ hf => hs.wire ▸ hf) hs.rx hs.rxGeneration hs.loop hs.delivered
  | reconnect a =>
    obtain ⟨k, -, hs⟩ := reconnected hg
    exact reads_reconnect h hs hok
  | receive a =>
    obtain ⟨pc, hl, hs⟩ := looped hg
    exact reads_receive hsh hld hdi h hl hs
  | attention i a =>
    have hs := attention_attends s i a
    exact h.congr hs.generation (fun _ hf => hs.wire ▸ hf) hs.rx hs.rxGeneration hs.loop hs.delivered

/-! ## Every run -/

/-- A step that brings no call to life but one whose ID no live call has. -/
theorem Distinct.brings (hsh : Shared s) (hr : Reads s) (h : Distinct s) {a : Act}
    (hstep : s.step a = some s') (w : Nat) (hl : ∀ v, Live s' v → Live s v ∨ v = w ∧
      ∀ u, Live s u → (s.calls u).requestid ≠ (s'.calls v).requestid) : Distinct s' := by
  have hid : ∀ v, Live s v → (s'.calls v).requestid = (s.calls v).requestid := fun v hv =>
    requestid_of_header (header_step hstep (hv.lt_nextCall hsh hr))
  intro u v hu hv e
  rcases hl u hu with hu | ⟨rfl, hw⟩
  · rcases hl v hv with hv | ⟨rfl, hw⟩
    · exact h u v hu hv (by rw [← hid u hu, ← hid v hv, e])
    · exact absurd ((hid u hu).symm.trans e) (hw u hu)
  · rcases hl v hv with hv | ⟨rfl, -⟩
    · exact absurd ((hid v hv).symm.trans e.symm) (hw v hv)
    · rfl

theorem distinct_step {a : Act} (hsh : Shared s) (hr : Reads s) (h : Distinct s) (hok : Fresh s a)
    (hstep : s.step a = some s') : Distinct s' := by
  have hstep' := hstep
  obtain ⟨hg, rfl⟩ := step_eq_some.1 hstep
  -- a draw gives the new call the next ID
  have draws (c : SendCall) (hn : ∀ v, Live s v → (s.calls v).requestid ≠ s.nextRequestid) {v : Nat}
      (e : v = s.nextCall) : v = s.nextCall ∧
        ∀ u, Live s u → (s.calls u).requestid ≠ ((s.setupHeader c).calls v).requestid := by
    subst e
    rw [show ((s.setupHeader c).calls s.nextCall).requestid = s.nextRequestid from
      congrArg requestid (Function.update_self s.nextCall _ s.calls)]
    exact ⟨rfl, hn⟩
  have kept := h.brings hsh hr hstep' 0
  cases a with
  | setupHeader kind =>
    exact h.brings hsh hr hstep' s.nextCall fun v hv =>
      (live_setupHeader _ hv).symm.imp_right (draws _ hok)
  | tickle =>
    exact h.brings hsh hr hstep' s.nextCall fun v hv =>
      (live_setupHeader { pc := .locked, kind := .tickle } hv).symm.imp_right (draws _ hok)
  | send u a => exact kept fun v hv => .inl (live_send hg hv)
  | disconnect p a => exact kept fun v hv => .inl (hv.aside (disconnect_aside s p a))
  | reconnect a =>
    obtain ⟨k, -, hs⟩ := reconnected hg
    have hlive := fun v => live_reconnect (u := v) hsh hr hs
    by_cases hend : a = .end
    · subst hend
      refine h.brings hsh hr hstep' s.reconnectCall fun v hv => (hlive v hv).imp_right fun e => ?_
      obtain rfl := (e.resolve_left fun e => nomatch e.1).2
      refine ⟨rfl, fun u hu e => ?_⟩
      exact hok u hu (e.trans (goto_keeps requestid s s.reconnectCall .checked rfl _))
    · refine h.brings hsh hr hstep' s.nextCall fun v hv => (hlive v hv).imp_right fun e => ?_
      obtain ⟨rfl, hnew⟩ := e.resolve_right fun e => hend e.1
      exact draws (nextRequest (s.reconnect = .published)) hok hnew
  | receive a =>
    obtain ⟨pc, hl, hs⟩ := looped hg
    exact kept fun v hv => .inl (live_receive hr hl hs hv)
  | attention i a =>
    exact kept fun v hv => .inl (hv.aside (attention_attends s i a).toAside)

/-- The IDs in the queue are distinct, the request that a lookup finds for a reply is the one
whose frame on the current connection it answers, and so is the one of each reply that was
accepted. -/
structure RepliesMatch (s : Session) : Prop where
  distinct : ∀ u ∈ s.commandRequests, ∀ v ∈ s.commandRequests,
    (s.calls u).requestid = (s.calls v).requestid → u = v
  found : ∀ g d u empty v, s.loop = .reply g d u empty → s.findRequest u = some v →
    v = u ∧ (s.generation, v) ∈ s.wire
  delivered : ∀ x ∈ s.delivered,
    x.reply = x.request ∧ x.connection = x.generation ∧ (x.connection, x.request) ∈ s.wire

/-- In a run in which no ID comes into use that a live call has, a reply goes to the request
whose frame it answers. -/
theorem replies_match {as : List Act} {last : Nat} {replayCache : Bool}
    (h : runSteps step (start last replayCache) as = some s)
    (hok : OkRun step Fresh (start last replayCache) as) : RepliesMatch s := by
  obtain ⟨hsh, -, hr, hdi⟩ := runSteps_invariant
    (I := fun s => Shared s ∧ Loaded s ∧ Reads s ∧ Distinct s)
    (fun _ _ _ hstep hok ⟨hsh, hld, hr, hdi⟩ => ⟨shared_step hsh hstep, loaded_step hsh hld hstep,
      reads_step hsh hld hdi hr hok hstep, distinct_step hsh hr hdi hok hstep⟩)
    ⟨shared_start _ _, loaded_start _ _, reads_start _ _, distinct_start _ _⟩ hok h
  refine ⟨fun u hu v hv e => ?_, fun g d u empty v hl hf => ?_, hr.delivered⟩
  · exact hdi u v (live_of_queued hsh hu) (live_of_queued hsh hv) e
  · obtain rfl := find_eq hsh hdi hl hf
    obtain ⟨hd, hw⟩ := hr.reply g d v empty hl
    exact ⟨rfl, hd ▸ hw⟩

/-- Two requests wait, and the second is answered first. -/
def answeredOutOfOrder : List Act :=
  [.setupHeader (.reply true), .setupHeader (.reply true)] ++ sendSteps 0 0 ++ sendSteps 1 0 ++
    replySteps 0 1 1 0

theorem replies_match_out_of_order :
    ∃ s, runSteps step (start 0 false) answeredOutOfOrder = some s ∧ s.commandRequests = [0, 1] ∧
      s.delivered = [⟨1, 0, 1, 0⟩] ∧ RepliesMatch s := by
  have h : runSteps step (start 0 false) answeredOutOfOrder = some _ := rfl
  refine ⟨_, h, rfl, rfl, replies_match h ?_⟩
  -- the first draw finds no live call, the second one with the ID 1
  refine .cons (fun v hv => ?_) rfl (.cons (fun v hv => ?_) rfl ?_)
  · rcases hv with hv | ⟨hv, -⟩ | ⟨hv, -⟩ | hv <;> cases hv
  · match v with
    | 0 => decide
    | v + 1 => rcases hv with hv | ⟨hv, -⟩ | ⟨hv, -⟩ | hv <;> cases hv
  · repeat' first | exact trivial | refine .cons trivial rfl ?_

/-- Two calls have drawn their IDs when the connection ends. The first reconnects, which
resets the IDs, and a third call draws the ID that the second has. Its reply goes to the
second. -/
def drawnTwice : List Act :=
  [.setupHeader (.reply true), .setupHeader (.reply true)] ++ dropSteps 0 ++ reconnectSteps 0 ++
    openSteps 2 1 ++ [.setupHeader (.reply true)] ++ sendSteps 1 1 ++ sendSteps 3 1 ++
    replySteps 1 3 1 0

theorem reply_to_other_request : ∃ s, runSteps step (start 0 false) drawnTwice = some s ∧
    s.commandRequests = [1, 3] ∧ (s.calls 1).requestid = 2 ∧ (s.calls 3).requestid = 2 ∧
    ⟨3, 1, 1, 1⟩ ∈ s.delivered := by
  have h : runSteps step (start 0 false) drawnTwice = some _ := rfl
  exact ⟨_, h, rfl, rfl, rfl, by decide⟩

end Session

end NC
