import NetatalkClient.Proof.Dsi.Steps

/-!
# How a sender goes on

`Moves` lists the ways in which a sender can go on in one step, with what has to hold
for it, the frame that it writes and the session behind it, and `moves` says that there
are no others. What a call is for (`SendCall.header`) does not change once its header is
set up (`header_step`).
-/

namespace NC

open SendCall

namespace SendCall

/-- What a call is for. -/
def header (c : SendCall) : SendCall :=
  { kind := c.kind, requestid := c.requestid, nested := c.nested, opensession := c.opensession }

variable {c c' : SendCall}

theorem header_of_frame (h : c'.frame = c.frame) : c'.header = c.header := by
  have hh : c'.frame.header = c.frame.header := by rw [h]
  exact hh

theorem kind_of_header (h : c'.header = c.header) : c'.kind = c.kind := by
  have hh : c'.header.kind = c.header.kind := by rw [h]
  exact hh

theorem requestid_of_header (h : c'.header = c.header) : c'.requestid = c.requestid := by
  have hh : c'.header.requestid = c.header.requestid := by rw [h]
  exact hh

theorem nested_of_header (h : c'.header = c.header) : c'.nested = c.nested := by
  have hh : c'.header.nested = c.header.nested := by rw [h]
  exact hh

theorem opensession_of_header (h : c'.header = c.header) : c'.opensession = c.opensession := by
  have hh : c'.header.opensession = c.header.opensession := by rw [h]
  exact hh

end SendCall

namespace Session

variable {s s' : Session} {u : Nat} {pc pc' : SendPc} {a : SendAct} {fs : List (Nat × Nat)}

/-- The step `a` of the sender `u`, from one place to the next, with what it writes. -/
inductive Moves (s : Session) (u : Nat) :
    SendPc → SendAct → SendPc → List (Nat × Nat) → Session → Prop
  | unconnected {a : SendAct} : Moves s u .drawn a (.returned .refused (-EIO_)) []
      (s.goto u (.returned .refused (-EIO_)))
  | reconnect (hk : (s.calls u).kind.isReply = true) (hp : s.reconnectInProgress = false) :
      Moves s u .drawn .check .reconnect [] (s.goto u .reconnect)
  | checked (hc : s.connectState ≠ .disconnected) :
      Moves s u .drawn .check .checked [] (s.goto u .checked)
  | busy : Moves s u .reconnect .tryBegin (.returned .refused (-EIO_)) []
      (s.goto u (.returned .refused (-EIO_)))
  | reconnecting (hp : s.reconnectInProgress = false) :
      Moves s u .reconnect .tryBegin .reconnecting []
        { s.goto u .reconnecting with
          reconnectInProgress := true, reconnect := .begun, reconnectCall := u }
  | closed : Moves s u .checked .checkFd (.returned .refused (-EIO_)) []
      (s.goto u (.returned .refused (-EIO_)))
  | opened (hk : (s.calls u).kind.isReply = true) :
      Moves s u .checked .checkFd .opened [] (s.goto u .opened)
  | nomem : Moves s u .opened .nomem (.returned .refused (-ENOMEM)) []
      (s.goto u (.returned .refused (-ENOMEM)))
  | loaded : Moves s u .opened .loadGeneration .loaded []
      (s.setCall u { s.calls u with pc := .loaded, connectionGeneration := s.generation })
  | queued : Moves s u .loaded .enqueue .queued []
      { s.setCall u { s.calls u with pc := .queued, queuedOn := s.generation } with
        commandRequests := s.commandRequests ++ [u]
        requestsPending := s.requestsPending + 1 }
  | locked : Moves s u .queued .lock .locked [] { s.goto u .locked with sendMutex := some u }
  | lockedOneway (hk : (s.calls u).kind.isReply = false) :
      Moves s u .checked .lock .locked [] { s.goto u .locked with sendMutex := some u }
  | loadFd : Moves s u .locked .loadFd (.sending s.fd) [] (s.goto u (.sending s.fd))
  | written {g : Nat} (hk : (s.calls u).kind.isReply = true) :
      Moves s u (.sending (some g)) (.write g) .waiting [(g, u)]
        { s.goto u .waiting with sendMutex := none, wire := s.wire ++ [(g, u)] }
  | sent {g : Nat} (hk : (s.calls u).kind.isReply = false) :
      Moves s u (.sending (some g)) (.write g) (.returned .sent 0) [(g, u)]
        { s.goto u (.returned .sent 0) with sendMutex := none, wire := s.wire ++ [(g, u)] }
  | failed {fd : Option Nat} (hk : (s.calls u).kind.isReply = true) :
      Moves s u (.sending fd) (.writeFails fd) .failed []
        { s.goto u .failed with sendMutex := none }
  | unsent {fd : Option Nat} (hk : (s.calls u).kind.isReply = false) :
      Moves s u (.sending fd) (.writeFails fd) (.returned .sent (-EIO_)) []
        { s.goto u (.returned .sent (-EIO_)) with sendMutex := none }
  | unwritten : Moves s u .failed .storeFailure (.leaving .unwritten (-EIO_)) []
      (s.setCall u { s.calls u with
        pc := .leaving .unwritten (-EIO_)
        returnCode := -EIO_
        writes := (s.calls u).writes ++ [(.write, -EIO_)] })
  | answered (hd : (s.calls u).doneWaiting = true) :
      Moves s u .waiting .wake .answered [] (s.goto u .answered)
  | expired : Moves s u .waiting .expire (.leaving .expired ETIMEDOUT) []
      (s.goto u (.leaving .expired ETIMEDOUT))
  | result : Moves s u .answered .result (.leaving .answered (s.calls u).returnCode) []
      (s.goto u (.leaving .answered (s.calls u).returnCode))
  | removed {why : Leave} {rc : Int} (hr : (s.calls u).receiving = false)
      (hq : u ∈ s.commandRequests) : Moves s u (.leaving why rc) (.remove why rc) (.returned why rc) []
        { s.setCall u { s.calls u with
            pc := .returned why rc, freed := (s.calls u).freed + 1, doneWaiting := true } with
          commandRequests := s.commandRequests.erase u
          requestsPending := s.requestsPending - 1 }
  /-- A flush has taken the request off the queue. -/
  | dropped {why : Leave} {rc : Int} (hr : (s.calls u).receiving = false)
      (hq : u ∉ s.commandRequests) : Moves s u (.leaving why rc) (.remove why rc) (.returned why rc) []
        (s.setCall u { s.calls u with pc := .returned why rc, freed := (s.calls u).freed + 1 })
  | unknown {why : Leave} {rc : Int} (hq : u ∉ s.commandRequests)
      (hi : (s.calls u).ignoreReplies = false) :
      Moves s u (.leaving why rc) (.remove why rc) (.returned why rc) []
        { s.goto u (.returned why rc) with unknown := true }

theorem moves (hg : s.sendEnabled u a = true) :
    ∃ pc pc' fs, (s.calls u).pc = pc ∧ Moves s u pc a pc' fs (s.send u a) := by
  cases a with
  | check =>
    have goes : ∃ pc' fs, Moves s u .drawn .check pc' fs (s.send u .check) := by
      unfold send
      dsimp only
      split
      · next hk =>
        split
        · split
          · exact ⟨_, _, .unconnected⟩
          · next hp => exact ⟨_, _, .reconnect hk (Bool.eq_false_iff.2 hp)⟩
        · next hc => exact ⟨_, _, .checked hc⟩
      · split
        · exact ⟨_, _, .unconnected⟩
        · next hc => exact ⟨_, _, .checked fun e => hc (.inl e)⟩
    obtain ⟨pc', fs, hm⟩ := goes
    exact ⟨_, _, _, of_decide_eq_true hg, hm⟩
  | suspended => exact ⟨_, _, _, (of_decide_eq_true hg).1, .unconnected⟩
  | tryBegin =>
    have hpc : (s.calls u).pc = .reconnect := of_decide_eq_true hg
    unfold send
    dsimp only
    split
    · exact ⟨_, _, _, hpc, .busy⟩
    · next hp => exact ⟨_, _, _, hpc, .reconnecting (Bool.eq_false_iff.2 hp)⟩
  | checkFd =>
    obtain ⟨hpc, hk⟩ : (s.calls u).pc = .checked ∧ _ := of_decide_eq_true hg
    unfold send
    dsimp only
    split
    · exact ⟨_, _, _, hpc, .closed⟩
    · exact ⟨_, _, _, hpc, .opened hk⟩
  | nomem => exact ⟨_, _, _, of_decide_eq_true hg, .nomem⟩
  | loadGeneration => exact ⟨_, _, _, of_decide_eq_true hg, .loaded⟩
  | enqueue => exact ⟨_, _, _, of_decide_eq_true hg, .queued⟩
  | lock =>
    have hpc := (of_decide_eq_true hg).2
    split at hpc
    · exact ⟨_, _, _, hpc, .locked⟩
    · next hk => exact ⟨_, _, _, hpc, .lockedOneway (Bool.eq_false_iff.2 hk)⟩
  | loadFd => exact ⟨_, _, _, of_decide_eq_true hg, .loadFd⟩
  | write g =>
    have hpc : (s.calls u).pc = .sending (some g) := (of_decide_eq_true hg).1
    unfold send
    dsimp only
    split
    · next hk => exact ⟨_, _, _, hpc, .written hk⟩
    · next hk => exact ⟨_, _, _, hpc, .sent (Bool.eq_false_iff.2 hk)⟩
  | writeFails fd =>
    have hpc : (s.calls u).pc = .sending fd := of_decide_eq_true hg
    unfold send
    dsimp only
    split
    · next hk => exact ⟨_, _, _, hpc, .failed hk⟩
    · next hk => exact ⟨_, _, _, hpc, .unsent (Bool.eq_false_iff.2 hk)⟩
  | storeFailure => exact ⟨_, _, _, of_decide_eq_true hg, .unwritten⟩
  | wake => exact ⟨_, _, _, (of_decide_eq_true hg).1, .answered (of_decide_eq_true hg).2⟩
  | expire => exact ⟨_, _, _, (of_decide_eq_true hg).1, .expired⟩
  | result => exact ⟨_, _, _, of_decide_eq_true hg, .result⟩
  | remove why rc =>
    obtain ⟨hpc, hr⟩ : (s.calls u).pc = .leaving why rc ∧ _ := of_decide_eq_true hg
    unfold send removeFromRequestQueue
    dsimp only
    split
    · next hq => exact ⟨_, _, _, hpc, .removed hr hq⟩
    next hq =>
    split
    · exact ⟨_, _, _, hpc, .dropped hr hq⟩
    · next hi => exact ⟨_, _, _, hpc, .unknown hq (Bool.eq_false_iff.2 hi)⟩

/-- What a step of the sender `u` leaves alone. -/
structure Sends (s : Session) (u : Nat) (s' : Session) : Prop where
  connectState : s'.connectState = s.connectState := by rfl
  fd : s'.fd = s.fd := by rfl
  generation : s'.generation = s.generation := by rfl
  lastrequestid : s'.lastrequestid = s.lastrequestid := by rfl
  nextCall : s'.nextCall = s.nextCall := by rfl
  loop : s'.loop = s.loop := by rfl
  rx : s'.rx = s.rx := by rfl
  rxGeneration : s'.rxGeneration = s.rxGeneration := by rfl
  attention : s'.attention = s.attention := by rfl
  nextAttention : s'.nextAttention = s.nextAttention := by rfl
  disconnect : s'.disconnect = s.disconnect := by rfl
  taken : s'.taken = s.taken := by rfl
  replied : s'.replied = s.replied := by rfl
  event : s'.event = s.event := by rfl
  opened : s'.opened = s.opened := by rfl
  connectedOn : s'.connectedOn = s.connectedOn := by rfl
  closed : s'.closed = s.closed := by rfl
  failed : s'.failed = s.failed := by rfl
  delivered : s'.delivered = s.delivered := by rfl
  calls : ∀ v, v ≠ u → s'.calls v = s.calls v

theorem Moves.sends (hm : Moves s u pc a pc' fs s') : Sends s u s' := by
  cases hm <;> exact { calls := fun _ h => setCall_of_ne s _ h }

theorem sends_goto (s : Session) (u : Nat) (pc : SendPc) : Sends s u (s.goto u pc) :=
  { calls := fun _ h => setCall_of_ne s _ h }

theorem Moves.pc_eq (hm : Moves s u pc a pc' fs s') : (s'.calls u).pc = pc' := by
  cases hm <;> exact congrArg pc (setCall_self s u _)

theorem Moves.wire (hm : Moves s u pc a pc' fs s') : s'.wire = s.wire ++ fs := by
  cases hm with
  | written | sent => rfl
  | _ => exact (List.append_nil _).symm

theorem Moves.hasReturned (hm : Moves s u pc a pc' fs s') : pc.hasReturned = false := by
  cases hm <;> rfl

theorem send_sends (hg : s.sendEnabled u a = true) : Sends s u (s.send u a) := by
  obtain ⟨_, _, _, -, hm⟩ := moves hg
  exact hm.sends

theorem send_moves (hg : s.sendEnabled u a = true) :
    ∃ fs, Moves s u (s.calls u).pc a ((s.send u a).calls u).pc fs (s.send u a) ∧
      (s.send u a).wire = s.wire ++ fs := by
  obtain ⟨pc, pc', fs, rfl, hm⟩ := moves hg
  obtain rfl := hm.pc_eq
  exact ⟨fs, hm, hm.wire⟩

theorem Moves.reconnect_eq (hm : Moves s u pc a pc' fs s') (h : pc' ≠ .reconnecting) :
    s'.reconnect = s.reconnect ∧ s'.reconnectInProgress = s.reconnectInProgress ∧
      s'.reconnectCall = s.reconnectCall := by
  cases hm with
  | reconnecting => exact absurd rfl h
  | _ => exact ⟨rfl, rfl, rfl⟩

/-- What a sender's step leaves of its call, on the generation `g`. -/
structure Kept (g : Nat) (c c' : SendCall) : Prop where
  header : c'.header = c.header := by rfl
  flushed : c'.flushed = c.flushed := by rfl
  queuedOn : c'.queuedOn = c.queuedOn ∨ c'.queuedOn = g := by exact .inl rfl
  loaded : c'.connectionGeneration = c.connectionGeneration ∨
    (c'.pc = .loaded ∧ c'.connectionGeneration = g) := by exact .inl rfl

theorem send_kept (hg : s.sendEnabled u a = true) :
    Kept s.generation (s.calls u) ((s.send u a).calls u) := by
  obtain ⟨_, _, _, -, hm⟩ := moves hg
  have goes : ∀ {s' : Session} {c : SendCall}, Kept s.generation (s.calls u) c →
      s'.calls u = (s.setCall u c).calls u → Kept s.generation (s.calls u) (s'.calls u) := by
    intro s' c hk hc
    rw [hc, setCall_self]
    exact hk
  generalize s.send u a = s' at hm
  cases hm with
  | loaded => exact goes { loaded := .inr ⟨rfl, rfl⟩ } rfl
  | queued => exact goes { queuedOn := .inr rfl } rfl
  | _ => exact goes {} rfl

theorem send_header (hg : s.sendEnabled u a = true) (v : Nat) :
    ((s.send u a).calls v).header = (s.calls v).header := by
  by_cases e : v = u
  · rw [e]
    exact (send_kept hg).header
  · rw [(send_sends hg).calls v e]

theorem reconnect_header {k : ReconnectPc} {a : ReconnectAct} (hs : Reconnected s k a s')
    (h : u < s.nextCall) : (s'.calls u).header = (s.calls u).header := by
  have ends := fun pc => goto_keeps header s s.reconnectCall pc rfl u
  cases hs with
  | flush => exact header_of_frame (flush_frame u)
  | opensession | send => exact congrArg header (setupHeader_of_lt _ h)
  | ended | endFailed => exact ends _
  | _ => rfl

theorem header_step {a : Act} (hstep : s.step a = some s') (h : u < s.nextCall) :
    (s'.calls u).header = (s.calls u).header := by
  obtain ⟨hg, rfl⟩ := step_eq_some.1 hstep
  have hb := bystands hg
  cases a with
  | setupHeader kind | tickle => exact congrArg header (setupHeader_of_lt _ h)
  | send v a => exact send_header hg u
  | reconnect a =>
    obtain ⟨k, -, hs⟩ := reconnected hg
    exact reconnect_header hs h
  | _ => exact header_of_frame ((hb rfl).frame u)

end Session

end NC
