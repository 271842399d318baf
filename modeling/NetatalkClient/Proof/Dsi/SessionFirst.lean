import NetatalkClient.Proof.Dsi.Shared

/-!
# What is written before a session is there

A sender checks the state of the connection first and loads the descriptor to write
to last, and the reconnect can publish a new descriptor between the two. Where it does
not (`Settled`), only the thread that reconnects writes on a descriptor before the
state is connected, and no frame whose request was flushed follows on the new one
(`session_first`).
-/

namespace NC

open List SendCall

namespace Session

variable {s s' : Session} {u : Nat} {pc pc' : SendPc} {a : SendAct}
  {fs : List (Nat × Nat)}

/-- No other sender is behind its check of the state when a descriptor is published, and
none passes the check, nor does a tickle go out, before the state is connected. -/
def Settled (s : Session) : Act → Prop
  | .send u .check => (s.calls u).nested = true ∨ s.connectState ≠ .connecting
  | .tickle => s.connectState = .connected
  | .reconnect .publish => ∀ u, (s.calls u).nested = false → (s.calls u).pc.underway = false
  | _ => True

/-- Some other sender is behind its check of the state. -/
def Underway (s : Session) : Prop :=
  ∃ u, (s.calls u).nested = false ∧ (s.calls u).pc.underway = true

/-- The descriptor there is has a session, where one is relied on. -/
def Connected (s : Session) : Prop := ∀ d, s.fd = some d →
  s.connectState = .connected ∨ s.reconnect = .done ∨ Underway s → d ∈ s.connectedOn

theorem connected_start (last : Nat) (replayCache : Bool) : Connected (start last replayCache) := by
  rintro d ⟨⟩ -
  exact mem_singleton_self 0

theorem Underway.of_frame (hf : ∀ v, (s'.calls v).frame = (s.calls v).frame) (h : Underway s') :
    Underway s := by
  obtain ⟨u, hn, hu⟩ := h
  rw [pc_of_frame (hf u)] at hu
  rw [nested_of_header (header_of_frame (hf u))] at hn
  exact ⟨u, hn, hu⟩

/-- A step that neither publishes a descriptor nor takes a sender behind its check. -/
theorem Connected.congr (h : Connected s) (hr : s'.reconnect = .done → s.reconnect = .done)
    (hu : Underway s' → Underway s)
    (hfd : ∀ d, s'.fd = some d → s.fd = some d := by exact fun _ => id)
    (hc : s'.connectState = .connected → s.connectState = .connected := by exact id)
    (hon : s'.connectedOn = s.connectedOn := by rfl) : Connected s' := by
  intro d hd e
  rw [hon]
  exact h d (hfd d hd) (e.imp hc (Or.imp hr hu))

theorem Moves.underway (hm : Moves s u pc a pc' fs s')
    (h : pc'.underway = true) : pc.underway = true ∨
      (a = .check ∧ s.connectState ≠ .disconnected) := by
  cases hm with
  | checked hc => exact .inr ⟨rfl, hc⟩
  | opened | loaded | queued | locked | lockedOneway | loadFd => exact .inl rfl
  | _ => cases h

theorem connected_send (ht : Threads s) (h : Connected s) {a : SendAct}
    (hg : s.sendEnabled u a = true) (hok : Settled s (.send u a)) : Connected (s.send u a) := by
  obtain ⟨fs, hm, -⟩ := send_moves hg
  have hs := send_sends hg
  have hh := send_header hg
  intro d hd e
  rw [hs.fd] at hd
  rw [hs.connectedOn]
  rw [hs.connectState] at e
  refine e.elim (fun e => h d hd (.inl e)) fun e => e.elim (fun e => h d hd (.inr (.inl ?_))) ?_
  · rcases send_reconnect_cases ht hg with e' | ⟨-, e'⟩
    · exact e'.symm.trans e
    · exact absurd (e'.symm.trans e) nofun
  · rintro ⟨v, hn, hv⟩
    rw [nested_of_header (hh v)] at hn
    by_cases hvu : v = u
    · subst hvu
      rcases hm.underway hv with hv | ⟨rfl, hc⟩
      · exact h d hd (.inr (.inr ⟨v, hn, hv⟩))
      · have hc' := hok.resolve_left fun e => absurd (hn.symm.trans e) nofun
        refine h d hd (.inl ?_)
        cases hcs : s.connectState with
        | connected => rfl
        | connecting => exact absurd hcs hc'
        | disconnected => exact absurd hcs hc
    · rw [hs.calls v hvu] at hv
      exact h d hd (.inr (.inr ⟨v, hn, hv⟩))

variable {c : SendCall} {n : Nat}

theorem Underway.of_setupHeader (hc : c.nested = true ∨ c.pc.underway = false)
    (h : Underway (s.setupHeader c)) : Underway s := by
  obtain ⟨v, hn, hv⟩ := h
  by_cases e : v = s.nextCall
  · subst e
    rw [setupHeader_self] at hn hv
    rcases hc with hc | hc
    · exact absurd (hc.symm.trans hn) nofun
    · exact absurd (hc.symm.trans hv) nofun
  · rw [setupHeader_of_ne s c e] at hn hv
    exact ⟨v, hn, hv⟩

theorem connected_reconnect (h : Connected s) {k : ReconnectPc} {a : ReconnectAct}
    (hr : s.reconnect = k) (hs : Reconnected s k a s') (hok : Settled s (.reconnect a)) :
    Connected s' := by
  -- the call that reconnected, and no other, goes on
  have ends : ∀ (pc : SendPc) d, s.fd = some d → (pc.underway = true → d ∈ s.connectedOn) →
      s.connectState = .connected ∨ Underway (s.goto s.reconnectCall pc) → d ∈ s.connectedOn := by
    intro pc d hd hpc e
    rcases e with e | ⟨v, hn, hv⟩
    · exact h d hd (.inl e)
    · by_cases hvr : v = s.reconnectCall
      · subst hvr
        exact hpc (congrArg (fun c => c.pc.underway) (setCall_self s _ _) |>.symm.trans hv)
      · rw [(sends_goto s _ pc).calls v hvr] at hn hv
        exact h d hd (.inr (.inr ⟨v, hn, hv⟩))
  cases hs with
  | flush => exact h.congr nofun (.of_frame flush_frame)
  | exchange => exact nofun
  | publish =>
    rintro d - (e | e | ⟨v, hn, hv⟩)
    · cases e
    · cases e
    · exact absurd ((hok v hn).symm.trans hv) nofun
  | opensession | send => exact h.congr nofun (.of_setupHeader (.inl rfl))
  | @finish d hd =>
    intro d' hd' _
    obtain rfl : d = d' := Option.some.inj (hd.symm.trans hd')
    exact mem_append_right _ (mem_singleton_self d)
  | ended =>
    intro d hd e
    exact ends .checked d hd (fun _ => h d hd (.inr (.inl hr))) (e.imp_right (Or.resolve_left · nofun))
  | endFailed =>
    intro d hd e
    exact ends (.returned .refused (-EIO_)) d hd nofun (e.imp_right (Or.resolve_left · nofun))
  | _ => exact h.congr nofun id

theorem connected_step {a : Act} (ht : Threads s) (h : Connected s) (hok : Settled s a)
    (hstep : s.step a = some s') : Connected s' := by
  obtain ⟨hg, rfl⟩ := step_eq_some.1 hstep
  have hb := bystands hg
  cases a with
  | setupHeader kind => exact h.congr id (.of_setupHeader (.inr rfl))
  | tickle => exact fun d hd _ => h d hd (.inl hok)
  | send u a => exact connected_send ht h hg hok
  | reconnect a =>
    obtain ⟨k, hr, hs⟩ := reconnected hg
    exact connected_reconnect h hr hs hok
  | _ =>
    have hb := hb rfl
    exact h.congr (fun e => hb.reconnect ▸ e) (.of_frame hb.frame) hb.unpublished hb.unconnected
      hb.connectedOn

/-! ## Frames -/

/-- A request that was flushed on the generation `n`: no frame of it goes to a later one. -/
structure Flushed (s : Session) (u n : Nat) : Prop where
  pc : (s.calls u).pc.hasRequest = true ∨ (s.calls u).pc.hasReturned = true
  wire : ∀ d, (d, u) ∈ s.wire → d ≤ n
  sending : ∀ d, (s.calls u).pc = .sending (some d) → d ≤ n
  fd : (s.calls u).pc.underway = true → ∀ d, s.fd = some d → d ≤ n

/-- What has been written on which connection, and what is about to be. -/
structure Settles (s : Session) : Prop where
  sending : ∀ u d, (s.calls u).nested = false → (s.calls u).pc = .sending (some d) →
    d ∈ s.connectedOn
  own : ∀ d u, (d, u) ∈ s.wire → (s.calls u).nested = true ∨ d ∈ s.connectedOn
  first : ∀ d u, s.wire.find? (·.1 = d) = some (d, u) → d ∉ s.connectedOn →
    (s.calls u).opensession = true
  flushed : ∀ u n, (s.calls u).flushed = some n → Flushed s u n

theorem settles_start (last : Nat) (replayCache : Bool) : Settles (start last replayCache) :=
  ⟨nofun, nofun, nofun, nofun⟩

theorem Flushed.frame (h : Flushed s u n) (hw : s'.wire = s.wire)
    (hfd : ∀ d, s'.fd = some d → s.fd = some d) (hf : (s'.calls u).frame = (s.calls u).frame) :
    Flushed s' u n := by
  have hpc := pc_of_frame hf
  constructor <;> simp only [hpc, hw]
  exacts [h.pc, h.wire, h.sending, fun hu d hd => h.fd hu d (hfd d hd)]

theorem Settles.frame (h : Settles s) (hw : s'.wire = s.wire)
    (hfd : ∀ d, s'.fd = some d → s.fd = some d) (hon : ∀ d ∈ s.connectedOn, d ∈ s'.connectedOn)
    (hf : ∀ v, (s'.calls v).frame = (s.calls v).frame)
    (hfl : ∀ v n, (s'.calls v).flushed = some n → Flushed s v n) : Settles s' := by
  have hh : ∀ v, (s'.calls v).header = (s.calls v).header := fun v => header_of_frame (hf v)
  refine ⟨?_, ?_, ?_, fun v n e => (hfl v n e).frame hw hfd (hf v)⟩ <;>
    simp only [hw, pc_of_frame (hf _), nested_of_header (hh _), opensession_of_header (hh _)]
  exacts [fun v d hn e => hon d (h.sending v d hn e), fun d v hd => (h.own d v hd).imp_right (hon d),
    fun d v e hd => h.first d v e fun hd' => hd (hon d hd')]

theorem Settles.congr (h : Settles s) (hw : s'.wire = s.wire := by rfl)
    (hfd : s'.fd = s.fd := by rfl) (hon : s'.connectedOn = s.connectedOn := by rfl)
    (hc : s'.calls = s.calls := by rfl) : Settles s' :=
  h.frame hw (fun _ e => hfd ▸ e) (fun _ e => hon ▸ e) (fun v => by rw [hc]) fun v n e =>
    h.flushed v n (by rw [hc] at e; exact e)

theorem Moves.hasRequest (hm : Moves s u pc a pc' fs s')
    (h : pc.hasRequest = true) : (pc'.hasRequest = true ∨ pc'.hasReturned = true) ∧
      (pc'.underway = true → pc.underway = true) := by
  cases hm with
  | locked | loadFd => exact ⟨.inl rfl, fun _ => rfl⟩
  | written | failed | unwritten | answered | expired | result => exact ⟨.inl rfl, nofun⟩
  | sent | unsent | removed | dropped | unknown => exact ⟨.inr rfl, nofun⟩
  | _ => cases h

theorem Flushed.moves (h : Flushed s u n) (hm : Moves s u (s.calls u).pc a pc' fs s') :
    Flushed s' u n := by
  have hpc := hm.pc_eq
  have hw := hm.wire
  have hfd := hm.sends.fd
  have hreq : (s.calls u).pc.hasRequest = true :=
    h.pc.resolve_right fun e => absurd (hm.hasReturned.symm.trans e) nofun
  obtain ⟨hpc', hu⟩ := hm.hasRequest hreq
  refine ⟨?_, fun d hd => ?_, fun d e => ?_, fun e => ?_⟩
  · rw [hpc]
    exact hpc'
  · rw [hw] at hd
    rcases mem_append.1 hd with hd | hd
    · exact h.wire d hd
    · exact h.sending d (hm.frames hd).2
  · rw [hpc] at e
    subst e
    exact h.fd (hu rfl) d hm.sending.2.symm
  · rw [hpc] at e
    rw [hfd]
    exact h.fd (hu e)

/-- The first frame on a connection that is not yet connected opens its session. -/
theorem Settles.first_frame (hwr : Writes s) (h : Settles s) {d : Nat} (hd : d ∉ s.connectedOn)
    (hpc : (s.calls u).pc = .sending (some d)) (hnone : s.wire.find? (·.1 = d) = none) :
    (s.calls u).opensession = true := by
  have hn : (s.calls u).nested = true := by
    by_contra hn
    exact hd (h.sending u d (Bool.eq_false_iff.2 hn) hpc)
  have hr := hwr.request u hn (by rw [hpc]; rfl)
  obtain rfl := (hwr.own u hr).sending d hpc
  by_contra ho
  obtain ⟨w, hw⟩ := hwr.first (.inr ⟨u, hr, Bool.eq_false_iff.2 ho⟩)
  exact absurd (decide_eq_true rfl) (find?_eq_none.1 hnone _ hw)

theorem settles_send (hwr : Writes s) (hc : Connected s) (h : Settles s) {a : SendAct}
    (hg : s.sendEnabled u a = true) : Settles (s.send u a) := by
  obtain ⟨fs, hm, hw⟩ := send_moves hg
  have hs := send_sends hg
  have hh := send_header hg
  refine ⟨fun v d hn e => ?_, fun d v hd => ?_, fun d v e hd => ?_, fun v n e => ?_⟩
  · rw [nested_of_header (hh v)] at hn
    rw [hs.connectedOn]
    by_cases hv : v = u
    · subst hv
      rw [e] at hm
      obtain ⟨hpc, hfd⟩ := hm.sending
      exact hc d hfd.symm (.inr (.inr ⟨v, hn, by rw [hpc]; rfl⟩))
    · rw [hs.calls v hv] at e
      exact h.sending v d hn e
  · rw [nested_of_header (hh v), hs.connectedOn]
    rw [hw] at hd
    rcases mem_append.1 hd with hd | hd
    · exact h.own d v hd
    · obtain ⟨rfl, hpc⟩ := hm.frames hd
      cases hn : (s.calls v).nested with
      | true => exact .inl rfl
      | false => exact .inr (h.sending v d hn hpc)
  · rw [opensession_of_header (hh v)]
    rw [hs.connectedOn] at hd
    rw [hw, find?_append] at e
    cases hf : s.wire.find? (·.1 = d) with
    | some f =>
      rw [hf] at e
      obtain rfl : f = (d, v) := Option.some.inj e
      exact h.first d v hf hd
    | none =>
      rw [hf] at e
      obtain ⟨rfl, hpc⟩ := hm.frames (mem_of_find?_eq_some e)
      exact h.first_frame hwr hd hpc hf
  · by_cases hv : v = u
    · subst hv
      rw [(send_kept hg).flushed] at e
      exact (h.flushed v n e).moves hm
    · rw [hs.calls v hv] at e
      obtain ⟨hpc, hwire, hsending, hfd⟩ := h.flushed v n e
      refine ⟨?_, fun d hd => ?_, ?_, ?_⟩
      · rw [hs.calls v hv]
        exact hpc
      · rw [hw] at hd
        rcases mem_append.1 hd with hd | hd
        · exact hwire d hd
        · exact absurd (hm.frames hd).1 hv
      · rw [hs.calls v hv]
        exact hsending
      · rw [hs.calls v hv, hs.fd]
        exact hfd

theorem settles_setupHeader (hwr : Writes s) (h : Settles s) (hpc : ∀ d, c.pc ≠ .sending (some d))
    (hfl : c.flushed = none) : Settles (s.setupHeader c) := by
  have wire : ∀ {d v}, (d, v) ∈ s.wire → (s.setupHeader c).calls v = s.calls v :=
    fun hd => setupHeader_of_lt c (hwr.wire _ _ hd).2
  refine ⟨fun v d hn e => ?_, fun d v hd => ?_, fun d v e hd => ?_, fun v n e => ?_⟩
  · by_cases hv : v = s.nextCall
    · rw [hv, setupHeader_self] at e
      exact absurd e (hpc d)
    · rw [setupHeader_of_ne s c hv] at hn e
      exact h.sending v d hn e
  · rw [wire hd]
    exact h.own d v hd
  · rw [wire (mem_of_find?_eq_some e)]
    exact h.first d v e hd
  · by_cases hv : v = s.nextCall
    · rw [hv, setupHeader_self] at e
      exact absurd (hfl.symm.trans e) nofun
    · have e' := setupHeader_of_ne s c hv
      rw [e'] at e
      exact (h.flushed v n e).frame rfl (fun _ => id) (by rw [e'])

/-- A flush finds no frame of a later generation, neither written nor about to be. -/
theorem settles_flush (ho : Owned s) (hd : Descriptors s) (hwr : Writes s) (h : Settles s) :
    Settles { s.flushRequestQueue with reconnect := .flushed } := by
  refine h.frame rfl (fun _ => id) (fun _ => id) flush_frame fun v n e => ?_
  have e' : (if v ∈ s.commandRequests then (s.calls v).flush s.generation else s.calls v).flushed =
      some n := e
  split at e'
  · next hv =>
    have e' : (if (s.calls v).doneWaiting then (s.calls v).flushed else some s.generation) = some n := e'
    split at e'
    · exact h.flushed v n e'
    · obtain rfl := Option.some.inj e'
      have howned := (ho.calls v).owned_of_mem hv
      refine ⟨.inl (Bool.and_eq_true_iff.1 howned).2, fun d hd' => ?_, fun d e => ?_, fun _ d e => ?_⟩
      · exact hd.opened_le d (hwr.wire d v hd').1
      · exact hd.opened_le d (hwr.sending v d e)
      · exact Nat.le_of_eq (hd.fd_eq d e)
  · exact h.flushed v n e'

/-- The call that reconnected goes on; it has no request yet that a flush could find. -/
theorem Settles.ends (ht : Threads s) (h : Settles s) (hr : s.reconnect ≠ .idle) (pc : SendPc)
    (hpc : ∀ d, pc ≠ .sending (some d)) : Settles (s.goto s.reconnectCall pc) := by
  have hcaller := ht.caller hr
  have hold := (sends_goto s s.reconnectCall pc).calls
  have hh := goto_keeps header s s.reconnectCall pc rfl
  refine ⟨fun v d hn e => ?_, fun d v hd => ?_, fun d v e hd => ?_, fun v n e => ?_⟩
  · by_cases hv : v = s.reconnectCall
    · subst hv
      exact absurd (congrArg SendCall.pc (setCall_self s _ _) |>.symm.trans e) (hpc d)
    · rw [hold v hv] at hn e
      exact h.sending v d hn e
  · rw [nested_of_header (hh v)]
    exact h.own d v hd
  · rw [opensession_of_header (hh v)]
    exact h.first d v e hd
  · rw [goto_keeps SendCall.flushed s s.reconnectCall pc rfl v] at e
    have hf := h.flushed v n e
    have hv : v ≠ s.reconnectCall := by
      rintro rfl
      have hpc := hf.pc
      rw [hcaller] at hpc
      exact hpc.elim nofun nofun
    exact hf.frame rfl (fun _ => id) (by rw [hold v hv])

theorem settles_reconnect (hs : Shared s) (h : Settles s) {k : ReconnectPc} {a : ReconnectAct}
    (hr : s.reconnect = k) (hrec : Reconnected s k a s') (hok : Settled s (.reconnect a)) :
    Settles s' := by
  have hidle := hrec.ne_idle hr
  cases hrec with
  | flush => exact settles_flush hs.owned hs.descriptors hs.writes h
  | exchange => exact h.frame rfl nofun (fun _ => id) (fun _ => rfl) h.flushed
  | publish =>
    refine ⟨h.sending, h.own, h.first, fun v n e => ?_⟩
    obtain ⟨hpc, hwire, hsending, -⟩ := h.flushed v n e
    refine ⟨hpc, hwire, hsending, fun hu => ?_⟩
    -- neither another sender nor a request of the reconnect is about to write
    cases hn : (s.calls v).nested with
    | false => exact absurd ((hok v hn).symm.trans hu) nofun
    | true =>
      have hret := hs.writes.returned (by rw [hr]; exact nofun) hn
      cases hpc : (s.calls v).pc with
      | returned why rc =>
        rw [hpc] at hu
        cases hu
      | _ =>
        rw [hpc] at hret
        cases hret
  | opensession | send =>
    exact (settles_setupHeader hs.writes h (c := nextRequest _) nofun rfl).congr
  | finish =>
    exact h.frame rfl (fun _ => id) (fun _ => mem_append_left _) (fun _ => rfl) h.flushed
  | ended => exact (h.ends hs.threads hidle .checked nofun).congr
  | endFailed =>
    exact (h.ends hs.threads hidle (.returned .refused (-EIO_)) nofun).congr
  | _ => exact h.congr

theorem settles_step {a : Act} (hs : Shared s) (hc : Connected s) (h : Settles s)
    (hok : Settled s a) (hstep : s.step a = some s') : Settles s' := by
  obtain ⟨hg, rfl⟩ := step_eq_some.1 hstep
  have hb := bystands hg
  cases a with
  | setupHeader kind => exact settles_setupHeader hs.writes h nofun rfl
  | tickle =>
    have hnew := settles_setupHeader hs.writes h (c := { pc := .locked, kind := .tickle }) nofun rfl
    exact hnew.congr
  | send u a => exact settles_send hs.writes hc h hg
  | reconnect a =>
    obtain ⟨k, hr, hrec⟩ := reconnected hg
    exact settles_reconnect hs h hr hrec hok
  | _ =>
    have hb := hb rfl
    exact h.frame hb.wire hb.unpublished (fun _ e => hb.connectedOn ▸ e) hb.frame
      fun v n e => h.flushed v n ((hb.flushed v).symm.trans e)

/-! ## Every run -/

/-- What has been written on a connection before its session was there is the
reconnecting thread's, its DSIOpenSession first, and no frame of a flushed request is on a
later connection than the flushed one. -/
structure SessionFirst (s : Session) : Prop where
  own : ∀ d u, (d, u) ∈ s.wire → d ∉ s.connectedOn → (s.calls u).nested = true
  first : ∀ d u, s.wire.find? (·.1 = d) = some (d, u) → d ∉ s.connectedOn →
    (s.calls u).opensession = true
  flushed : ∀ d u n, (d, u) ∈ s.wire → (s.calls u).flushed = some n → d ≤ n

/-- In a run in which no other sender is caught between its check and its write, no
frame comes before the session. -/
theorem session_first {as : List Act} {last : Nat} {replayCache : Bool}
    (h : runSteps step (start last replayCache) as = some s)
    (hok : OkRun step Settled (start last replayCache) as) : SessionFirst s := by
  have hs := runSteps_invariant (I := fun s => Shared s ∧ Connected s ∧ Settles s)
    (fun _ _ _ hstep hok ⟨hs, hc, h⟩ => ⟨shared_step hs hstep,
      connected_step hs.threads hc hok hstep, settles_step hs hc h hok hstep⟩)
    ⟨shared_start _ _, connected_start _ _, settles_start _ _⟩ hok h
  exact ⟨fun d u hd hn => (hs.2.2.own d u hd).resolve_right hn, hs.2.2.first,
    fun d u n hd e => (hs.2.2.flushed u n e).wire d hd⟩

/-- The connection ends, a sender reconnects, and its request follows. -/
def reconnectThenSend : List Act :=
  dropSteps 0 ++ [.setupHeader (.reply true)] ++ reconnectSteps 0 ++ openSteps 1 1 ++
    (sendSteps 0 1).tail

theorem session_first_reconnected :
    ∃ s, runSteps step (start 0 false) reconnectThenSend = some s ∧ s.wire = [(1, 1), (1, 0)] ∧
      s.connectedOn = [0, 1] ∧ SessionFirst s := by
  have h : runSteps step (start 0 false) reconnectThenSend = some _ := rfl
  refine ⟨_, h, rfl, rfl, session_first h ?_⟩
  -- the condition asks for something at the two checks of the state and at the publish
  repeat' first
    | exact trivial
    | refine .cons trivial rfl ?_
    | refine .cons (.inl rfl) rfl ?_
    | refine .cons (.inr nofun) rfl ?_
    | refine .cons (fun | 0, _ => rfl | _ + 1, _ => rfl) rfl ?_

/-- A sender is behind its check of the state when the connection ends, queues its request,
which the reconnect flushes, and then writes its frame on the new descriptor. -/
def lateWrite : List Act :=
  [.setupHeader (.reply true), .send 0 .check, .send 0 .checkFd, .send 0 .loadGeneration] ++
    dropSteps 0 ++ [.send 0 .enqueue, .setupHeader (.reply true)] ++ reconnectSteps 1 ++
    [.send 0 .lock, .send 0 .loadFd, .send 0 (.write 1)]

theorem frame_before_session : ∃ s, runSteps step (start 0 false) lateWrite = some s ∧
    s.wire = [(1, 0)] ∧ s.connectedOn = [0] ∧ (s.calls 0).nested = false ∧
    (s.calls 0).opensession = false ∧ (s.calls 0).flushed = some 0 := by
  have h : runSteps step (start 0 false) lateWrite = some _ := rfl
  exact ⟨_, h, rfl, rfl, rfl, rfl, rfl⟩

end Session

end NC
