import NetatalkClient.Model.Dsi.Session

/-!
# What a step of a thread does

`Looped` and `Reconnected` say what the loop and the thread that reconnects do in a step,
from the place where each is. The threads that neither send nor reconnect change of a call
only what belongs to the exchange of a request, which `SendCall.frame` leaves out
(`Bystands`).
-/

namespace NC

open Function SendCall

namespace SendCall

/-- A call without what the flush, the fail and the receiver change of it. -/
def frame (c : SendCall) : SendCall :=
  { c with ignoreReplies := false, doneWaiting := false, receiving := false
           returnCode := 0, writes := [], flushed := none }

@[simp] theorem complete_frame (c : SendCall) (w : Writer) (result : Int) :
    (c.complete w result).frame = c.frame := by
  unfold complete
  split <;> rfl

@[simp] theorem complete_flushed (c : SendCall) (w : Writer) (result : Int) :
    (c.complete w result).flushed = c.flushed := by
  unfold complete
  split <;> rfl

@[simp] theorem flush_frame (c : SendCall) (g : Nat) : (c.flush g).frame = c.frame :=
  complete_frame c .flush (-EIO_)

theorem pc_of_frame {c c' : SendCall} (h : c'.frame = c.frame) : c'.pc = c.pc := by
  have hpc : c'.frame.pc = c.frame.pc := by rw [h]
  exact hpc

end SendCall

namespace Session

variable {s s' : Session} {u v : Nat}

theorem setCall_of_ne (s : Session) (c : SendCall) (h : v ≠ u) : (s.setCall u c).calls v = s.calls v :=
  update_of_ne h _ _

@[simp] theorem setCall_self (s : Session) (u : Nat) (c : SendCall) : (s.setCall u c).calls u = c :=
  update_self _ _ _

theorem setCall_keeps {α : Type} (f : SendCall → α) (s : Session) {c : SendCall}
    (h : f c = f (s.calls u)) (v : Nat) : f ((s.setCall u c).calls v) = f (s.calls v) := by
  by_cases e : v = u
  · subst e
    rw [setCall_self, h]
  · rw [setCall_of_ne _ _ e]

theorem goto_keeps {α : Type} (f : SendCall → α) (s : Session) (u : Nat) (pc : SendPc)
    (h : f { s.calls u with pc := pc } = f (s.calls u)) (v : Nat) :
    f ((s.goto u pc).calls v) = f (s.calls v) :=
  setCall_keeps f s h v

theorem setupHeader_self (s : Session) (c : SendCall) :
    (s.setupHeader c).calls s.nextCall = { c with requestid := s.nextRequestid } :=
  update_self _ _ _

theorem setupHeader_of_ne (s : Session) (c : SendCall) (h : v ≠ s.nextCall) :
    (s.setupHeader c).calls v = s.calls v :=
  update_of_ne h _ _

theorem setupHeader_of_lt (c : SendCall) (h : u < s.nextCall) :
    (s.setupHeader c).calls u = s.calls u :=
  setupHeader_of_ne s c (Nat.ne_of_lt h)

/-- Closing as one update, whether there is a descriptor or not. -/
theorem closeDescriptor_eq (s : Session) (p : Proc) : s.closeDescriptor p =
    { s with taken := update s.taken p none
             closed := s.closed ++ (s.taken p).toList.map fun d => (d, s.event p) } := by
  unfold closeDescriptor
  split
  · next h =>
    have ht : update s.taken p none = s.taken := by rw [← h, update_eq_self]
    simp [ht, h]
  · next d h =>
    rw [h]
    rfl

theorem fail_frame (p : Proc) (v : Nat) :
    ((s.failRequestQueue p).calls v).frame = (s.calls v).frame := by
  show frame (if v ∈ s.commandRequests then _ else _) = _
  split
  · exact complete_frame _ _ _
  · rfl

theorem fail_flushed (p : Proc) (v : Nat) :
    ((s.failRequestQueue p).calls v).flushed = (s.calls v).flushed := by
  show flushed (if v ∈ s.commandRequests then _ else _) = _
  split
  · exact complete_flushed _ _ _
  · rfl

/-! ## The threads that neither send nor reconnect -/

/-- What a step of such a thread leaves alone. -/
structure Bystands (s s' : Session) : Prop where
  generation : s'.generation = s.generation := by rfl
  lastrequestid : s'.lastrequestid = s.lastrequestid := by rfl
  reconnectInProgress : s'.reconnectInProgress = s.reconnectInProgress := by rfl
  commandRequests : s'.commandRequests = s.commandRequests := by rfl
  requestsPending : s'.requestsPending = s.requestsPending := by rfl
  sendMutex : s'.sendMutex = s.sendMutex := by rfl
  nextCall : s'.nextCall = s.nextCall := by rfl
  reconnect : s'.reconnect = s.reconnect := by rfl
  reconnectCall : s'.reconnectCall = s.reconnectCall := by rfl
  wire : s'.wire = s.wire := by rfl
  opened : s'.opened = s.opened := by rfl
  connectedOn : s'.connectedOn = s.connectedOn := by rfl
  unknown : s'.unknown = s.unknown := by rfl
  /-- It publishes nothing, and connects nothing. -/
  unpublished : ∀ d, s'.fd = some d → s.fd = some d := by exact fun _ => id
  unconnected : s'.connectState = .connected → s.connectState = .connected := by exact id
  frame : ∀ v, (s'.calls v).frame = (s.calls v).frame := by exact fun _ => rfl
  flushed : ∀ v, (s'.calls v).flushed = (s.calls v).flushed := by exact fun _ => rfl

/-- What a step outside of the loop leaves alone. -/
structure Aside (s s' : Session) : Prop extends Bystands s s' where
  loop : s'.loop = s.loop := by rfl
  rx : s'.rx = s.rx := by rfl
  rxGeneration : s'.rxGeneration = s.rxGeneration := by rfl
  replied : s'.replied = s.replied := by rfl
  delivered : s'.delivered = s.delivered := by rfl

/-- `loop_disconnect` works for the loop, but it is not the loop that it changes. -/
theorem disconnect_aside (s : Session) (p : Proc) (a : DisconnectAct) :
    Aside s (s.disconnectStep p a) := by
  cases a with
  | take g =>
    show Aside s (if _ then _ else _)
    split
    · exact { unpublished := nofun }
    · exact {}
  | close g =>
    show Aside s ((s.closeDescriptor p).setDisconnect p _)
    rw [closeDescriptor_eq]
    exact {}
  | fail g => exact { frame := fail_frame p, flushed := fail_flushed p }
  | mark g =>
    show Aside s (if _ then _ else _)
    split
    · exact { unconnected := nofun }
    · exact {}
  | _ => exact {}

/-- What a step of an attention handler leaves alone. -/
structure Attends (s s' : Session) : Prop extends Aside s s' where
  fd : s'.fd = s.fd := by rfl
  taken : s'.taken = s.taken := by rfl
  closed : s'.closed = s.closed := by rfl
  calls : s'.calls = s.calls := by rfl

theorem attention_attends (s : Session) (i : Nat) (a : AttentionAct) :
    Attends s (s.attentionStep i a) := by
  cases a with
  | shutdown context g =>
    show Attends s (if _ then _ else _)
    split <;> exact {}
  | _ => exact {}

/-- What a step of the loop leaves alone. -/
structure Receives (s s' : Session) : Prop extends Bystands s s' where
  fd : s'.fd = s.fd := by rfl
  taken : s'.taken = s.taken := by rfl
  closed : s'.closed = s.closed := by rfl
  failed : s'.failed = s.failed := by rfl

/-- What the step `a` of the loop, which is at `pc`, does. -/
inductive Looped (s : Session) : LoopPc → ReceiveAct → Session → Prop
  | select : Looped s .select .select { s with loop := .ready }
  | loadGeneration : Looped s .ready .loadGeneration { s with loop := .gotGeneration s.generation }
  | loadFd {g : Nat} : Looped s (.gotGeneration g) (.loadFd g) { s with loop := .gotFd g s.fd }
  /-- There is no descriptor, or the generation has changed. -/
  | gone {g : Nat} {fd : Option Nat} : Looped s (.gotFd g fd) (.check g fd) { s with loop := .select }
  | renewed {g d : Nat} (hg : s.generation = g) : Looped s (.gotFd g (some d)) (.check g (some d))
      { s with loop := .recvFrame g d, rx := none, rxGeneration := g }
  | current {g d : Nat} (hg : s.generation = g) (hrx : s.rxGeneration = g) :
      Looped s (.gotFd g (some d)) (.check g (some d)) { s with loop := .recvFrame g d }
  | back {g d : Nat} {a : ReceiveAct} : Looped s (.recvFrame g d) a { s with loop := .select }
  | sees {g d : Nat} {a : ReceiveAct} (hg : a = .badFrame g d ∨ s.generation = g) :
      Looped s (.recvFrame g d) a (s.sees g).loopDisconnects
  | header {g d u : Nat} (hw : (d, u) ∈ s.wire) (hn : u ∉ s.replied) :
      Looped s (.recvFrame g d) (.header g d u false)
        { s with replied := s.replied ++ [u], rx := some u, loop := .select }
  | headerOnly {g d u : Nat} (hw : (d, u) ∈ s.wire) (hn : u ∉ s.replied) :
      Looped s (.recvFrame g d) (.header g d u true)
        { s with replied := s.replied ++ [u], rx := none, loop := .reply g d u true }
  | resume {g d u : Nat} (hrx : s.rx = some u) :
      Looped s (.recvFrame g d) (.resume g d u) { s with loop := .reply g d u false }
  | attention {g d : Nat} (hg : s.generation = g) :
      Looped s (.recvFrame g d) (.attention g d) { s.sees g with loop := .attention g }
  | unknown {g d u : Nat} {empty : Bool} : Looped s (.reply g d u empty) (.find g d u empty)
      { s with loop := .found g d u empty none }
  | found {g d u v : Nat} {empty : Bool} (hf : s.findRequest u = some v) :
      Looped s (.reply g d u empty) (.find g d u empty)
        { s.setCall v { s.calls v with receiving := true } with
          loop := .found g d u empty (some v) }
  | delivered {g d u r : Nat} {empty : Bool} (hg : (s.calls r).connectionGeneration = s.generation) :
      Looped s (.found g d u empty (some r)) (.checkGeneration g d u empty (some r))
        { s with loop := .payload g d u empty (some r) true
                 delivered := s.delivered ++ [⟨u, d, r, s.generation⟩] }
  | undelivered {g d u : Nat} {empty : Bool} {v : Option Nat} :
      Looped s (.found g d u empty v) (.checkGeneration g d u empty v)
        { s with loop := .payload g d u empty v false }
  | pauses {g d u : Nat} {empty current : Bool} {v : Option Nat} {a : ReceiveAct} :
      Looped s (.payload g d u empty v current) a { s with loop := .release v false }
  | lost {g d u : Nat} {current : Bool} {v : Option Nat} {a : ReceiveAct}
      (hg : a = .payloadLost g d u v current ∨ s.generation = g) :
      Looped s (.payload g d u false v current) a { s.sees g with loop := .release v true }
  /-- The reply is complete, or the rest of it dropped. -/
  | replyEnds {g d u : Nat} {empty current : Bool} {v : Option Nat} {a : ReceiveAct} {pc : LoopPc}
      (hpc : pc = .release v false ∨ ∃ r result, v = some r ∧ pc = .out r result)
      (replayCache : Bool) : Looped s (.payload g d u empty v current) a
        { s with rx := none, loop := pc, supportsReplayCache := replayCache }
  | signal {v : Nat} {result : Int} : Looped s (.out v result) (.signal v result)
      { s.setCall v ((s.calls v).complete .reply result) with loop := .release (some v) false }
  | unheld : Looped s (.release none false) (.release none false) { s with loop := .select }
  | release {v : Nat} : Looped s (.release (some v) false) (.release (some v) false)
      { s.setCall v { s.calls v with receiving := false } with loop := .select }
  | unheldFails : Looped s (.release none true) (.release none true) s.loopDisconnects
  | releaseFails {v : Nat} : Looped s (.release (some v) true) (.release (some v) true)
      (s.setCall v { s.calls v with receiving := false }).loopDisconnects
  | disconnected (hi : s.disconnect .loop = .idle) :
      Looped s .disconnecting .disconnected { s with loop := .select }
  | attend {g : Nat} : Looped s (.attention g) (.attend g)
      { s with loop := .select
               event := update s.event .loop none
               attention := update s.attention s.nextAttention (.begun s.generation g)
               nextAttention := s.nextAttention + 1 }

theorem looped_replyEnds (s : Session) {g d u : Nat} {empty : Bool} {a : ReceiveAct} (v : Option Nat)
    (current : Bool) (result : Int) :
    Looped s (.payload g d u empty v current) a (s.replyEnds v current result) := by
  unfold replyEnds
  split
  · exact .replyEnds (.inr ⟨_, _, rfl, rfl⟩) s.supportsReplayCache
  · exact .replyEnds (.inl rfl) s.supportsReplayCache

theorem looped {a : ReceiveAct} (hg : s.receiveEnabled a = true) :
    ∃ pc, s.loop = pc ∧ Looped s pc a (s.receive a) := by
  cases a with
  | select => exact ⟨_, (of_decide_eq_true hg).1, .select⟩
  | loadGeneration => exact ⟨_, of_decide_eq_true hg, .loadGeneration⟩
  | loadFd g => exact ⟨_, of_decide_eq_true hg, .loadFd⟩
  | check g fd =>
    refine ⟨_, of_decide_eq_true hg, ?_⟩
    cases fd with
    | none => exact .gone
    | some d =>
      show Looped s _ _ (if _ then _ else _)
      split
      · exact .gone
      · next hgen =>
        split
        · exact .renewed (not_not.1 hgen)
        · next hrx => exact .current (not_not.1 hgen) (not_not.1 hrx)
  | replaced g d => exact ⟨_, (of_decide_eq_true hg).1, .back⟩
  | readError g d => exact ⟨_, (of_decide_eq_true hg).1, .sees (.inr (of_decide_eq_true hg).2.2)⟩
  | badFrame g d => exact ⟨_, (of_decide_eq_true hg).1, .sees (.inl rfl)⟩
  | part g d => exact ⟨_, (of_decide_eq_true hg).1, .back⟩
  | header g d u empty =>
    obtain ⟨hl, -, -, hw, hn⟩ : s.loop = .recvFrame g d ∧ _ := of_decide_eq_true hg
    refine ⟨_, hl, ?_⟩
    cases empty with
    | false => exact .header hw hn
    | true => exact .headerOnly hw hn
  | resume g d u => exact ⟨_, (of_decide_eq_true hg).1, .resume (of_decide_eq_true hg).2⟩
  | closeSession g d => exact ⟨_, (of_decide_eq_true hg).1, .sees (.inr (of_decide_eq_true hg).2.2)⟩
  | attention g d => exact ⟨_, (of_decide_eq_true hg).1, .attention (of_decide_eq_true hg).2.2⟩
  | find g d u empty =>
    refine ⟨_, of_decide_eq_true hg, ?_⟩
    unfold receive
    dsimp only
    split
    · exact .unknown
    · next hf => exact .found hf
  | checkGeneration g d u empty v =>
    refine ⟨_, of_decide_eq_true hg, ?_⟩
    cases v with
    | none => exact .undelivered
    | some r =>
      show Looped s _ _ (if _ then _ else _)
      split
      · next hgen => exact .delivered hgen
      · exact .undelivered
  | payloadReplaced g d u v current => exact ⟨_, (of_decide_eq_true hg).1, .pauses⟩
  | payloadError g d u v current =>
    exact ⟨_, (of_decide_eq_true hg).1, .lost (.inr (of_decide_eq_true hg).2)⟩
  | payloadLost g d u v current => exact ⟨_, of_decide_eq_true hg, .lost (.inl rfl)⟩
  | payloadPart g d u v current => exact ⟨_, (of_decide_eq_true hg).1, .pauses⟩
  | payloadWhole g d u empty v current result replayCache =>
    refine ⟨_, (of_decide_eq_true hg).1, ?_⟩
    show Looped s _ _ (if _ then _ else _)
    split
    · unfold replyEnds
      split
      · exact .replyEnds (.inr ⟨_, _, rfl, rfl⟩) true
      · exact .replyEnds (.inl rfl) true
    · exact looped_replyEnds s v current result
  | payloadDropped g d u v current result =>
    exact ⟨_, of_decide_eq_true hg, looped_replyEnds s v current result⟩
  | signal v result => exact ⟨_, of_decide_eq_true hg, .signal⟩
  | release v failed =>
    refine ⟨_, of_decide_eq_true hg, ?_⟩
    match v, failed with
    | none, false => exact .unheld
    | none, true => exact .unheldFails
    | some v, false => exact .release
    | some v, true => exact .releaseFails
  | disconnected => exact ⟨_, (of_decide_eq_true hg).1, .disconnected (of_decide_eq_true hg).2⟩
  | attend g => exact ⟨_, of_decide_eq_true hg, .attend⟩

theorem Looped.receives {pc : LoopPc} {a : ReceiveAct} (h : Looped s pc a s') : Receives s s' := by
  have hframe : ∀ v b, ∀ w, ((s.setCall v { s.calls v with receiving := b }).calls w).frame = _ :=
    fun v b => setCall_keeps frame s rfl
  have hflushed : ∀ v b, ∀ w, ((s.setCall v { s.calls v with receiving := b }).calls w).flushed = _ :=
    fun v b => setCall_keeps flushed s rfl
  cases h with
  | found | release | releaseFails => exact { frame := hframe _ _, flushed := hflushed _ _ }
  | signal =>
    exact { frame := setCall_keeps frame s (complete_frame _ _ _)
            flushed := setCall_keeps flushed s (complete_flushed _ _ _) }
  | _ => exact {}

/-- A step of a thread that neither sends nor reconnects. -/
def Act.bystander : Act → Bool
  | .disconnect _ _ | .receive _ | .attention _ _ => true
  | _ => false

theorem bystands {a : Act} (hg : s.enabled a = true) (ha : a.bystander = true) :
    Bystands s (s.effect a) := by
  cases a with
  | disconnect p a => exact (disconnect_aside s p a).toBystands
  | receive a =>
    obtain ⟨_, -, hs⟩ := looped hg
    exact hs.receives.toBystands
  | attention i a => exact (attention_attends s i a).toBystands
  | _ => cases ha

/-! ## The steps of a reconnect -/

def nextRequest (opensession : Bool) : SendCall :=
  { pc := .drawn, kind := .reply true, nested := true, opensession := opensession }

/-- What the step `a` of a reconnect that is at `k` does. -/
inductive Reconnected (s : Session) : ReconnectPc → ReconnectAct → Session → Prop
  | flush : Reconnected s .begun .flush { s.flushRequestQueue with reconnect := .flushed }
  | verified : Reconnected s .flushed (.verify true) { s with reconnect := .verified }
  | unverified : Reconnected s .flushed (.verify false) s.reconnectFails
  | exchange : Reconnected s .verified .exchange
      { s with reconnect := .exchanged, fd := none
               taken := update s.taken .reconnect s.fd }
  | advance : Reconnected s .exchanged .advance
      { s with reconnect := .advanced, generation := s.generation + 1 }
  | close : Reconnected s .advanced .close
      { s with reconnect := .closed, taken := update s.taken .reconnect none
               closed := s.closed ++
                 (s.taken .reconnect).toList.map fun d => (d, s.event .reconnect) }
  | connected : Reconnected s .closed (.socket true) { s with reconnect := .connected }
  | unconnected : Reconnected s .closed (.socket false) s.reconnectFails
  | resetRequestid : Reconnected s .connected .resetRequestid
      { s with reconnect := .reset
               lastrequestid := if s.supportsReplayCache then s.lastrequestid else 0 }
  | publish : Reconnected s .reset .publish
      { s with reconnect := .published, fd := some s.generation, connectState := .connecting
               opened := s.opened ++ [s.generation] }
  | opensession : Reconnected s .published .send
      { s.setupHeader (nextRequest true) with reconnect := .request s.nextCall }
  | send : Reconnected s .session .send
      { s.setupHeader (nextRequest false) with reconnect := .request s.nextCall }
  | accepted {u : Nat} {why : Leave} {rc : Int} {ok : Bool} (hpc : (s.calls u).pc = .returned why rc)
      (hok : s.accepted u rc ok = true) :
      Reconnected s (.request u) (.next u why rc ok) { s with reconnect := .session }
  | refused {u : Nat} {why : Leave} {rc : Int} {ok : Bool} (hpc : (s.calls u).pc = .returned why rc) :
      Reconnected s (.request u) (.next u why rc ok) s.reconnectFails
  | finish {d : Nat} (hfd : s.fd = some d) : Reconnected s .session .finish
      { s with reconnect := .done, connectState := .connected, connectedOn := s.connectedOn ++ [d] }
  | unfinished : Reconnected s .session .finish s.reconnectFails
  | ended : Reconnected s .done .end
      { s.goto s.reconnectCall .checked with reconnect := .idle, reconnectInProgress := false }
  | endFailed (hi : s.disconnect .reconnect = .idle) : Reconnected s .failing .endFailed
      { s.goto s.reconnectCall (.returned .refused (-EIO_)) with
        reconnect := .idle, reconnectInProgress := false }

theorem reconnected {a : ReconnectAct} (hg : s.reconnectEnabled a = true) :
    ∃ k, s.reconnect = k ∧ Reconnected s k a (s.reconnectStep a) := by
  cases a with
  | flush => exact ⟨.begun, of_decide_eq_true hg, .flush⟩
  | verify ok =>
    refine ⟨.flushed, of_decide_eq_true hg, ?_⟩
    cases ok with
    | true => exact .verified
    | false => exact .unverified
  | exchange => exact ⟨.verified, of_decide_eq_true hg, .exchange⟩
  | advance => exact ⟨.exchanged, of_decide_eq_true hg, .advance⟩
  | close =>
    refine ⟨.advanced, (of_decide_eq_true hg).1, ?_⟩
    unfold reconnectStep
    rw [closeDescriptor_eq]
    exact .close
  | socket ok =>
    refine ⟨.closed, of_decide_eq_true hg, ?_⟩
    cases ok with
    | true => exact .connected
    | false => exact .unconnected
  | resetRequestid => exact ⟨.connected, of_decide_eq_true hg, .resetRequestid⟩
  | publish => exact ⟨.reset, of_decide_eq_true hg, .publish⟩
  | send =>
    rcases (of_decide_eq_true hg : s.reconnect = .published ∨ s.reconnect = .session) with hr | hr
    · refine ⟨.published, hr, ?_⟩
      unfold reconnectStep
      rw [hr]
      exact .opensession
    · refine ⟨.session, hr, ?_⟩
      unfold reconnectStep
      rw [hr]
      exact .send
  | next u why rc ok =>
    obtain ⟨hr, hpc⟩ : s.reconnect = .request u ∧ _ := of_decide_eq_true hg
    refine ⟨.request u, hr, ?_⟩
    show Reconnected s _ _ (if _ then _ else _)
    split
    · next hok => exact .accepted hpc hok
    · exact .refused hpc
  | finish =>
    refine ⟨.session, of_decide_eq_true hg, ?_⟩
    unfold reconnectStep
    dsimp only
    split
    · next hfd _ => exact .finish hfd
    · exact .unfinished
  | «end» => exact ⟨.done, of_decide_eq_true hg, .ended⟩
  | endFailed => exact ⟨.failing, (of_decide_eq_true hg).1, .endFailed (of_decide_eq_true hg).2⟩

theorem Reconnected.ne_idle {k : ReconnectPc} {a : ReconnectAct} (h : Reconnected s k a s')
    (hr : s.reconnect = k) : s.reconnect ≠ .idle := by
  rw [hr]
  cases h <;> exact nofun

theorem flush_frame (v : Nat) : (s.flushRequestQueue.calls v).frame = (s.calls v).frame := by
  show frame (if v ∈ s.commandRequests then _ else _) = _
  split
  · exact SendCall.flush_frame _ _
  · rfl

end Session

end NC
