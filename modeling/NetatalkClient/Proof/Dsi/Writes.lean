import NetatalkClient.Proof.Dsi.Descriptors

/-!
# What the thread that reconnects writes

`Writes` says where a request of the thread that reconnects can be, and that this
thread writes on the connection of its own generation, its DSIOpenSession before all
else.
-/

namespace NC

open List SendCall

/-- Behind the write, with the reply waited for or had. -/
def SendPc.written : SendPc → Bool
  | .waiting | .answered | .leaving .answered _ | .returned .answered _ => true
  | _ => false

namespace Session

variable {s s' : Session} {u v : Nat} {pc pc' : SendPc} {a : SendAct}
  {fs : List (Nat × Nat)}

/-- What holds of the request that the reconnect waits for. -/
structure OwnRequest (s : Session) (u : Nat) : Prop where
  nested : (s.calls u).nested = true
  sending : ∀ d, (s.calls u).pc = .sending (some d) → d = s.generation
  written : (s.calls u).pc.written = true → (s.generation, u) ∈ s.wire
  code : ∀ why rc, (s.calls u).pc = .leaving why rc ∨ (s.calls u).pc = .returned why rc →
    why = .answered ∨ rc ≠ 0

/-- What is written where, apart from what the other senders do. -/
structure Writes (s : Session) : Prop where
  wire : ∀ d u, (d, u) ∈ s.wire → d ∈ s.opened ∧ u < s.nextCall
  sending : ∀ u d, (s.calls u).pc = .sending (some d) → d ∈ s.opened
  nested : ∀ u, (s.calls u).nested = true → (s.calls u).kind = .reply true ∧
    u < s.nextCall ∧ (s.calls u).pc ≠ .reconnect ∧ (s.calls u).pc ≠ .reconnecting
  /-- The thread that reconnects has one request at a time. -/
  request : ∀ u, (s.calls u).nested = true → (s.calls u).pc.hasReturned = false →
    s.reconnect = .request u
  own : ∀ u, s.reconnect = .request u → OwnRequest s u
  /-- Nothing comes before the DSIOpenSession. -/
  first : (s.reconnect = .session ∨ ∃ u, s.reconnect = .request u ∧ (s.calls u).opensession = false) →
    ∃ w, (s.generation, w) ∈ s.wire

theorem writes_start (last : Nat) (replayCache : Bool) : Writes (start last replayCache) :=
  ⟨nofun, nofun, nofun, nofun, nofun, fun h => h.elim nofun fun ⟨_, h, _⟩ => nomatch h⟩

theorem Writes.frame (h : Writes s) (hw : s'.wire = s.wire) (ho : s'.opened = s.opened)
    (hn : s'.nextCall = s.nextCall) (hg : s'.generation = s.generation)
    (hr : s'.reconnect = s.reconnect) (hf : ∀ v, (s'.calls v).frame = (s.calls v).frame) :
    Writes s' := by
  have hpc : ∀ v, (s'.calls v).pc = (s.calls v).pc := fun v => pc_of_frame (hf v)
  have hh : ∀ v, (s'.calls v).header = (s.calls v).header := fun v => header_of_frame (hf v)
  have hown : ∀ u, OwnRequest s u → OwnRequest s' u := by
    intro u hu
    constructor <;> simp only [hpc, hg, hw, nested_of_header (hh u)]
    exacts [hu.nested, hu.sending, hu.written, hu.code]
  constructor <;> simp only [hw, ho, hn, hg, hr, hpc, nested_of_header (hh _),
    kind_of_header (hh _), opensession_of_header (hh _)]
  exacts [h.wire, h.sending, h.nested, h.request, fun u hu => hown u (h.own u hu), h.first]

/-! ## Senders -/

/-- A request of the thread that reconnects never reconnects itself. -/
theorem Writes.inProgress (ht : Threads s) (h : Writes s) (hn : (s.calls u).nested = true)
    (hr : (s.calls u).pc.hasReturned = false) : s.reconnectInProgress = true :=
  ht.inProgress (by rw [h.request u hn hr]; exact nofun)

/-- A frame that is written is the sender's, on the descriptor that it loaded. -/
theorem Moves.frames (hm : Moves s u pc a pc' fs s') {d w : Nat} (hf : (d, w) ∈ fs) :
    w = u ∧ pc = .sending (some d) := by
  cases hm with
  | written | sent =>
    obtain ⟨rfl, rfl⟩ := Prod.mk.inj (mem_singleton.1 hf)
    exact ⟨rfl, rfl⟩
  | _ => cases hf

theorem Moves.sending {fd : Option Nat} (hm : Moves s u pc a (.sending fd) fs s') :
    pc = .locked ∧ fd = s.fd := by
  cases hm with
  | loadFd => exact ⟨rfl, rfl⟩

theorem Moves.wrote (hm : Moves s u pc a pc' fs s')
    (h : pc'.written = true) : pc.written = true ∨ ∃ g, pc = .sending (some g) ∧ (g, u) ∈ fs := by
  cases hm with
  | @written g _ => exact .inr ⟨g, rfl, mem_singleton_self _⟩
  | answered | result => exact .inl rfl
  | @removed why | @dropped why | @unknown why =>
    cases why with
    | answered => exact .inl rfl
    | _ => cases h
  | _ => cases h

theorem Moves.reconnects (hm : Moves s u pc a pc' fs s')
    (h : pc' = .reconnect ∨ pc' = .reconnecting) : s.reconnectInProgress = false := by
  cases hm with
  | reconnect _ hp | reconnecting hp => exact hp
  | _ => rcases h with h | h <;> cases h

variable {why : Leave} {rc : Int} {k : ReconnectPc}

/-- Only an answered request leaves with a result of 0. -/
theorem Moves.code (hm : Moves s u pc a pc' fs s') (hk : (s.calls u).kind.isReply = true)
    (h : pc' = .leaving why rc ∨ pc' = .returned why rc) :
    pc = .leaving why rc ∨ why = .answered ∨ rc ≠ 0 := by
  cases hm with
  | unconnected | busy | closed | nomem =>
    rcases h with h | h
    · cases h
    · cases h
      exact .inr (.inr (by decide))
  | sent hk' | unsent hk' => exact absurd (hk'.symm.trans hk) nofun
  | unwritten | expired =>
    rcases h with h | h
    · cases h
      exact .inr (.inr (by decide))
    · cases h
  | result =>
    rcases h with h | h
    · cases h
      exact .inr (.inl rfl)
    · cases h
  | removed | dropped | unknown =>
    rcases h with h | h
    · cases h
    · cases h
      exact .inl rfl
  | _ => rcases h with h | h <;> cases h

theorem OwnRequest.moves (h : OwnRequest s u) (hd : Descriptors s)
    (hm : Moves s u (s.calls u).pc a pc' fs s') (hk : (s.calls u).kind.isReply = true)
    (hn : (s'.calls u).nested = true) : OwnRequest s' u := by
  have hg := hm.sends.generation
  have hw := hm.wire
  have hpc := hm.pc_eq
  refine ⟨hn, fun d e => ?_, fun e => ?_, fun why rc e => ?_⟩
  · rw [hpc] at e
    subst e
    rw [hg]
    exact hd.fd_eq d hm.sending.2.symm
  · rw [hpc] at e
    rw [hg, hw]
    rcases hm.wrote e with e | ⟨g, e, hf⟩
    · exact mem_append_left _ (h.written e)
    · rw [h.sending g e] at hf
      exact mem_append_right _ hf
  · rw [hpc] at e
    exact (hm.code hk e).elim (fun e' => h.code why rc (.inl e')) id

theorem writes_send (ht : Threads s) (hd : Descriptors s) (h : Writes s) {a : SendAct}
    (hg : s.sendEnabled u a = true) : Writes (s.send u a) := by
  obtain ⟨fs, hm, hw⟩ := send_moves hg
  have hs := send_sends hg
  have hh := send_header hg
  have hrec : ∀ {k : ReconnectPc}, (s.send u a).reconnect = k → k ≠ .begun → s.reconnect = k := by
    rintro _ rfl hk
    rcases send_reconnect_cases ht hg with e | ⟨-, e⟩
    · exact e.symm
    · exact absurd e hk
  refine ⟨fun d w hf => ?_, fun v d e => ?_, fun v hn => ?_, fun v hn hr => ?_, fun v e => ?_,
    fun e => ?_⟩
  · rw [hs.opened, hs.nextCall]
    rw [hw] at hf
    rcases mem_append.1 hf with hf | hf
    · exact h.wire d w hf
    · obtain ⟨rfl, hpc⟩ := hm.frames hf
      exact ⟨h.sending w d hpc, ht.lt_nextCall (by rw [hpc]; exact nofun)⟩
  · rw [hs.opened]
    by_cases hv : v = u
    · subst hv
      rw [e] at hm
      exact hd.places.fd_opened d hm.sending.2.symm
    · rw [hs.calls v hv] at e
      exact h.sending v d e
  · rw [nested_of_header (hh v)] at hn
    by_cases hv : v = u
    · subst hv
      obtain ⟨hk, hlt, -⟩ := h.nested v hn
      have hp := h.inProgress ht hn hm.hasReturned
      refine ⟨(kind_of_header (hh v)).trans hk, hs.nextCall ▸ hlt, fun e => ?_, fun e => ?_⟩
      · exact absurd (hp.symm.trans (hm.reconnects (.inl e))) nofun
      · exact absurd (hp.symm.trans (hm.reconnects (.inr e))) nofun
    · rw [hs.calls v hv, hs.nextCall]
      exact h.nested v hn
  · rw [nested_of_header (hh v)] at hn
    have hlive : (s.calls v).pc.hasReturned = false := by
      by_cases hv : v = u
      · subst hv
        exact hm.hasReturned
      · rw [hs.calls v hv] at hr
        exact hr
    have e := h.request v hn hlive
    rcases send_reconnect_cases ht hg with e' | ⟨e', -⟩
    · exact e'.trans e
    · exact absurd (e'.symm.trans e) nofun
  · have hown := h.own v (hrec e nofun)
    by_cases hv : v = u
    · subst hv
      refine hown.moves hd hm (by rw [(h.nested v hown.nested).1]; rfl) ?_
      rw [nested_of_header (hh v)]
      exact hown.nested
    · refine ⟨?_, ?_, fun e' => ?_, ?_⟩
      · rw [hs.calls v hv]
        exact hown.nested
      · rw [hs.calls v hv, hs.generation]
        exact hown.sending
      · rw [hs.calls v hv] at e'
        rw [hw, hs.generation]
        exact mem_append_left _ (hown.written e')
      · rw [hs.calls v hv]
        exact hown.code
  · have hfirst : ∃ w, (s.generation, w) ∈ s.wire := by
      refine h.first (e.imp (hrec · nofun) fun ⟨v, e, ho⟩ => ⟨v, hrec e nofun, ?_⟩)
      rw [← opensession_of_header (hh v)]
      exact ho
    rw [hw, hs.generation]
    exact hfirst.imp fun _ => mem_append_left _

/-! ## The reconnect -/

theorem Writes.returned (h : Writes s) (hk : ∀ u, s.reconnect ≠ .request u)
    (hn : (s.calls u).nested = true) : (s.calls u).pc.hasReturned = true := by
  by_contra hr
  exact hk u (h.request u hn (Bool.eq_false_iff.2 hr))

theorem Writes.passes (h : Writes s) (hr : s.reconnect = k)
    (hk : ∀ u, k ≠ .request u) (hk' : ∀ u, s'.reconnect ≠ .request u)
    (hses : s'.reconnect ≠ .session) (hw : s'.wire = s.wire) (ho : ∀ d ∈ s.opened, d ∈ s'.opened)
    (hn : s'.nextCall = s.nextCall) (hf : ∀ v, (s'.calls v).frame = (s.calls v).frame) :
    Writes s' := by
  have hpc : ∀ v, (s'.calls v).pc = (s.calls v).pc := fun v => pc_of_frame (hf v)
  have hh : ∀ v, (s'.calls v).header = (s.calls v).header := fun v => header_of_frame (hf v)
  refine ⟨fun d v hd => ?_, fun v d e => ?_, fun v => ?_, fun v hv e => ?_, fun v e => ?_, fun e => ?_⟩
  · rw [hw] at hd
    rw [hn]
    exact ⟨ho d (h.wire d v hd).1, (h.wire d v hd).2⟩
  · rw [hpc] at e
    exact ho d (h.sending v d e)
  · rw [nested_of_header (hh v), kind_of_header (hh v), hpc, hn]
    exact h.nested v
  · rw [nested_of_header (hh v)] at hv
    rw [hpc, h.returned (by rw [hr]; exact hk) hv] at e
    cases e
  · exact absurd e (hk' v)
  · exact e.elim (absurd · hses) fun ⟨v, e, _⟩ => absurd e (hk' v)

/-- What holds of the request that the reconnect waits for does not depend on a new call. -/
theorem OwnRequest.setupHeader (h : OwnRequest s u) (hlt : u < s.nextCall) (c : SendCall) :
    OwnRequest (s.setupHeader c) u := by
  constructor <;> rw [setupHeader_of_lt c hlt]
  exacts [h.nested, h.sending, h.written, h.code]

theorem writes_setupHeader (h : Writes s) {c : SendCall} (hc : c.nested = false)
    (hpc : ∀ d, c.pc ≠ .sending (some d)) : Writes (s.setupHeader c) := by
  have nested : ∀ v, ((s.setupHeader c).calls v).nested = true → v ≠ s.nextCall := by
    rintro v hv rfl
    rw [setupHeader_self] at hv
    exact absurd (hc.symm.trans hv) nofun
  have request : ∀ v, s.reconnect = .request v → v < s.nextCall :=
    fun v hv => (h.nested v (h.own v hv).nested).2.1
  refine ⟨fun d v hd => ?_, fun v d e => ?_, fun v hv => ?_, fun v hv hr => ?_, fun v e => ?_,
    fun e => ?_⟩
  · exact ⟨(h.wire d v hd).1, Nat.lt_succ_of_lt (h.wire d v hd).2⟩
  · by_cases hv : v = s.nextCall
    · rw [hv, setupHeader_self] at e
      exact absurd e (hpc d)
    · rw [setupHeader_of_ne s c hv] at e
      exact h.sending v d e
  · have hold := setupHeader_of_ne s c (nested v hv)
    rw [hold] at hv ⊢
    obtain ⟨hk, hlt, hpc⟩ := h.nested v hv
    exact ⟨hk, Nat.lt_succ_of_lt hlt, hpc⟩
  · have hold := setupHeader_of_ne s c (nested v hv)
    rw [hold] at hv hr
    exact h.request v hv hr
  · exact (h.own v e).setupHeader (request v e) c
  · refine h.first (e.imp_right fun ⟨v, e, ho⟩ => ⟨v, e, ?_⟩)
    rw [setupHeader_of_lt c (request v e)] at ho
    exact ho

theorem writes_nextRequest (h : Writes s) {opensession : Bool}
    (hr : s.reconnect = k) (hk : ∀ u, k ≠ .request u) (ho : opensession = false → k = .session) :
    Writes { s.setupHeader (nextRequest opensession) with reconnect := .request s.nextCall } := by
  have hnew : (s.setupHeader (nextRequest opensession)).calls s.nextCall =
      { pc := .drawn, kind := .reply true, nested := true, opensession := opensession
        requestid := s.nextRequestid } := setupHeader_self s _
  have hold := fun v => setupHeader_of_ne (v := v) s (nextRequest opensession)
  refine ⟨fun d v hd => ?_, fun v d e => ?_, fun v hv => ?_, fun v hv hr' => ?_, fun v e => ?_,
    fun e => ?_⟩
  · exact ⟨(h.wire d v hd).1, Nat.lt_succ_of_lt (h.wire d v hd).2⟩
  · by_cases hv : v = s.nextCall
    · rw [hv, hnew] at e
      cases e
    · rw [hold v hv] at e
      exact h.sending v d e
  · by_cases hne : v = s.nextCall
    · subst hne
      rw [hnew]
      exact ⟨rfl, Nat.lt_succ_self _, nofun, nofun⟩
    · rw [hold v hne] at hv ⊢
      obtain ⟨hk, hlt, hpc⟩ := h.nested v hv
      exact ⟨hk, Nat.lt_succ_of_lt hlt, hpc⟩
  · by_cases hne : v = s.nextCall
    · subst hne
      rfl
    · rw [hold v hne] at hv hr'
      rw [h.returned (hr ▸ hk) hv] at hr'
      cases hr'
  · obtain rfl : s.nextCall = v := ReconnectPc.request.inj e
    refine ⟨?_, ?_, ?_, ?_⟩
    all_goals rw [hnew]
    · exact nofun
    · exact nofun
    · exact fun _ _ e => e.elim nofun nofun
  · rcases e with e | ⟨v, e, ho'⟩
    · cases e
    · obtain rfl : s.nextCall = v := ReconnectPc.request.inj e
      rw [hnew] at ho'
      exact h.first (.inl (hr.trans (ho ho')))

theorem Writes.next (h : Writes s) {why : Leave} {rc : Int}
    (hr : s.reconnect = .request u) (hpc : (s.calls u).pc = .returned why rc)
    (hk : ∀ v, k ≠ .request v) (hfirst : k = .session → ∃ w, (s.generation, w) ∈ s.wire)
    (d : Proc → DisconnectPc) : Writes { s with reconnect := k, disconnect := d } := by
  refine ⟨h.wire, h.sending, h.nested, fun v hv e => ?_, fun v e => absurd e (hk v),
    fun e => hfirst (e.resolve_right fun ⟨v, e, _⟩ => hk v e)⟩
  obtain rfl := ReconnectPc.request.inj (hr.symm.trans (h.request v hv e))
  rw [hpc] at e
  cases e

/-- A request that is accepted was written: a DSIOpenSession with the result 0 was answered. -/
theorem Writes.accepted (h : Writes s) {ok : Bool} (hr : s.reconnect = .request u)
    (hpc : (s.calls u).pc = .returned why rc) (hok : s.accepted u rc ok = true) :
    ∃ w, (s.generation, w) ∈ s.wire := by
  cases ho : (s.calls u).opensession with
  | false => exact h.first (.inr ⟨u, hr, ho⟩)
  | true =>
    have hrc : rc = 0 := by
      unfold Session.accepted at hok
      rw [ho] at hok
      exact of_decide_eq_true hok
    have hown := h.own u hr
    obtain rfl := (hown.code why rc (.inr hpc)).resolve_right fun hne => hne hrc
    exact ⟨u, hown.written (by rw [hpc]; rfl)⟩

/-- The reconnect ends, and the call that reconnected, which is none of its own, goes on. -/
theorem Writes.ends (ht : Threads s) (h : Writes s) {pc : SendPc}
    (hr : s.reconnect = k) (hi : k ≠ .idle) (hk : ∀ u, k ≠ .request u)
    (hpc : ∀ d, pc ≠ .sending (some d)) :
    Writes { s.goto s.reconnectCall pc with reconnect := .idle, reconnectInProgress := false } := by
  have hcaller := ht.caller (by rw [hr]; exact hi)
  have hself : (s.goto s.reconnectCall pc).calls s.reconnectCall = _ := setCall_self s _ _
  have hold := (sends_goto s s.reconnectCall pc).calls
  have nested : ∀ v, ((s.goto s.reconnectCall pc).calls v).nested = true →
      v ≠ s.reconnectCall ∧ (s.calls v).nested = true := by
    intro v hv
    rw [goto_keeps SendCall.nested s _ pc rfl v] at hv
    exact ⟨by rintro rfl; exact (h.nested _ hv).2.2.2 hcaller, hv⟩
  refine ⟨h.wire, fun v d e => ?_, fun v hv => ?_, fun v hv e => ?_, nofun, ?_⟩
  · by_cases hv : v = s.reconnectCall
    · subst hv
      exact absurd (congrArg SendCall.pc hself |>.symm.trans e) (hpc d)
    · exact h.sending v d (congrArg SendCall.pc (hold v hv) |>.symm.trans e)
  · obtain ⟨hne, hv⟩ := nested v hv
    show ((s.goto s.reconnectCall pc).calls v).kind = _ ∧ _
    rw [hold v hne]
    exact h.nested v hv
  · obtain ⟨hne, hv⟩ := nested v hv
    have e' := congrArg (fun c => c.pc.hasReturned) (hold v hne) |>.symm.trans e
    rw [h.returned (by rw [hr]; exact hk) hv] at e'
    cases e'
  · exact fun e => e.elim nofun fun ⟨_, e, _⟩ => nomatch e

theorem writes_reconnect (ht : Threads s) (h : Writes s) {a : ReconnectAct}
    (hr : s.reconnect = k) (hs : Reconnected s k a s') : Writes s' := by
  cases hs with
  | flush => exact h.passes hr nofun nofun nofun rfl (fun _ => id) rfl flush_frame
  | publish =>
    exact h.passes hr nofun nofun nofun rfl (fun _ => mem_append_left _) rfl fun _ => rfl
  | opensession => exact writes_nextRequest h hr nofun nofun
  | send => exact writes_nextRequest h hr nofun fun _ => rfl
  | accepted hpc hok => exact h.next (k := .session) hr hpc nofun (fun _ => h.accepted hr hpc hok) _
  | refused hpc => exact h.next (k := .failing) hr hpc nofun nofun _
  | ended | endFailed => exact h.ends ht hr nofun nofun nofun
  | _ => exact h.passes hr nofun nofun nofun rfl (fun _ => id) rfl fun _ => rfl

theorem writes_step {a : Act} (ht : Threads s) (hd : Descriptors s) (h : Writes s)
    (hstep : s.step a = some s') : Writes s' := by
  obtain ⟨hg, rfl⟩ := step_eq_some.1 hstep
  have hb := bystands hg
  cases a with
  | setupHeader kind => exact writes_setupHeader h rfl nofun
  | tickle =>
    have hnew : Writes (s.setupHeader { pc := .locked, kind := .tickle }) :=
      writes_setupHeader h rfl nofun
    exact hnew.frame rfl rfl rfl rfl rfl fun _ => rfl
  | send u a => exact writes_send ht hd h hg
  | reconnect a =>
    obtain ⟨k, hr, hs⟩ := reconnected hg
    exact writes_reconnect ht h hr hs
  | _ =>
    have hb := hb rfl
    exact h.frame hb.wire hb.opened hb.nextCall hb.generation hb.reconnect hb.frame

end Session

end NC
