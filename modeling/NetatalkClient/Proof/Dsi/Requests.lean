import NetatalkClient.Proof.Dsi.Threads

/-!
# Who owns a request

A request is its sender's from the time it is queued until its sender has taken
it out, and the receiver's only between `afpc_dsi_find_request` and
`afpc_dsi_release_request`, while its sender waits. `CallOk` is what that comes
to for one call, by where the sender is, and `Owned` what every step of the
threads keeps (`owned_step`).
-/

namespace NC

open List Function SendCall

namespace SendPc

/-- The request has been freed. -/
def removed : SendPc → Bool
  | .returned .unwritten _ | .returned .expired _ | .returned .answered _ => true
  | _ => false

/-- Only a sender that waits for its reply comes here. -/
def waits : SendPc → Bool
  | .reconnect | .reconnecting | .opened | .loaded | .queued | .failed | .waiting | .answered => true
  | .leaving why _ | .returned why _ => why = .unwritten ∨ why = .expired ∨ why = .answered
  | _ => false

end SendPc

namespace SendCall

variable {c : SendCall}

/-- The writes to `return_code` that end a wait. -/
def ends (c : SendCall) : List (Writer × Int) := c.writes.filter (·.1 ≠ .write)

/-- The wait has ended at most once, and `return_code` has what ended it. -/
def Once (c : SendCall) : Prop :=
  (c.doneWaiting = false ∧ c.writes = []) ∨
    (c.doneWaiting = true ∧ ∃ w, w ≠ .write ∧ c.writes = [(w, c.returnCode)])

/-- The sender has stored its own failure once: over what ended the wait, or before that. -/
def Overwritten (c : SendCall) : Prop :=
  c.writes = c.ends ++ [(.write, -EIO_)] ∨ c.writes = (.write, -EIO_) :: c.ends

/-- The writes to `return_code`, by where the sender is. -/
def Codes (c : SendCall) : Prop :=
  match c.pc with
  | .answered => ∃ w, w ≠ .write ∧ c.writes = [(w, c.returnCode)] ∧ c.doneWaiting = true
  | .leaving .answered rc => ∃ w, w ≠ .write ∧ c.writes = [(w, rc)] ∧ c.doneWaiting = true
  | .returned .answered rc => ∃ w, w ≠ .write ∧ c.writes = [(w, rc)]
  | .leaving .expired rc => rc = ETIMEDOUT ∧ c.Once
  | .returned .expired rc => rc = ETIMEDOUT ∧ c.writes = c.ends ∧ c.ends.length ≤ 1
  | .leaving .unwritten rc =>
    rc = -EIO_ ∧ c.Overwritten ∧ c.ends.length ≤ 1 ∧ (c.doneWaiting = false → c.ends = [])
  | .returned .unwritten rc => rc = -EIO_ ∧ c.Overwritten ∧ c.ends.length ≤ 1
  | .leaving _ _ => False
  | .returned _ _ => c.ends.length ≤ 1
  | _ => c.Once

theorem Once.ends_length (h : c.Once) : c.ends.length ≤ 1 := by
  unfold ends
  rcases h with ⟨-, h⟩ | ⟨-, w, -, h⟩
  · rw [h]
    exact Nat.zero_le 1
  · rw [h]
    exact length_filter_le _ _

theorem Once.writes_eq (h : c.Once) : c.writes = c.ends := by
  unfold ends
  rcases h with ⟨-, h⟩ | ⟨-, w, hw, h⟩
  · rw [h]
    rfl
  · rw [h, filter_cons_of_pos (by simpa using hw), filter_nil]

theorem Codes.ends_length (h : c.Codes) : c.ends.length ≤ 1 := by
  have single : ∀ w rc, c.writes = [(w, rc)] → c.ends.length ≤ 1 := fun w rc e => by
    unfold ends
    rw [e]
    exact length_filter_le _ _
  unfold Codes at h
  split at h
  · obtain ⟨w, -, e, -⟩ := h
    exact single _ _ e
  · obtain ⟨w, -, e, -⟩ := h
    exact single _ _ e
  · obtain ⟨w, -, e⟩ := h
    exact single _ _ e
  · exact h.2.ends_length
  · exact h.2.2
  · exact h.2.2.1
  · exact h.2.2
  · exact h.elim
  · exact h
  · exact h.ends_length

theorem Once.complete (h : c.Once) {w : Writer} (hw : w ≠ .write) (result : Int) :
    (c.complete w result).Once := by
  unfold SendCall.complete
  split
  · exact h
  · next hd =>
    refine .inr ⟨rfl, w, hw, ?_⟩
    rcases h with ⟨-, e⟩ | ⟨hd', -⟩
    · show c.writes ++ _ = _
      rw [e]
      rfl
    · exact absurd hd' hd

theorem complete_of_done (h : c.doneWaiting = true) (w : Writer) (result : Int) :
    c.complete w result = c := if_pos h

theorem complete_pc (c : SendCall) (w : Writer) (result : Int) : (c.complete w result).pc = c.pc := by
  unfold SendCall.complete
  split <;> rfl

/-- What ends a wait leaves the sender what it will return. -/
theorem Codes.complete (h : c.Codes) (ho : c.owned = true) {w : Writer}
    (hw : w ≠ .write) (result : Int) : (c.complete w result).Codes := by
  by_cases hd : c.doneWaiting = true
  · rw [complete_of_done hd]
    exact h
  have once : c.Once → (c.complete w result).Once := fun h => h.complete hw result
  unfold Codes at h ⊢
  rw [complete_pc]
  unfold owned at ho
  cases hpc : c.pc with
  | answered =>
    rw [hpc] at h
    exact absurd h.choose_spec.2.2 hd
  | leaving why rc =>
    rw [hpc] at h
    cases why with
    | answered => exact absurd h.choose_spec.2.2 hd
    | expired => exact ⟨h.1, once h.2⟩
    | unwritten =>
      have hnil : c.ends = [] := h.2.2.2 (by simpa using hd)
      have hwrites : c.writes = [(.write, -EIO_)] := by simpa [Overwritten, hnil] using h.2.1
      have hends : (c.complete w result).ends = [(w, result)] := by
        unfold ends at hnil ⊢
        simp only [SendCall.complete, if_neg hd, filter_append, hnil]
        simp [hw]
      refine ⟨h.1, .inr ?_, by rw [hends]; exact Nat.le_refl 1, fun hd' => ?_⟩
      · rw [hends]
        simp [SendCall.complete, hd, hwrites]
      · simp [SendCall.complete, hd] at hd'
    | refused | sent => exact h.elim
  | returned why rc =>
    rw [hpc] at ho
    simp [SendPc.hasRequest] at ho
  | _ =>
    rw [hpc] at h
    exact once h

end SendCall

/-- What holds of a call `u`, with the queue and the request that the receiver
holds. -/
structure CallOk (queue : List Nat) (holds : Option Nat) (u : Nat) (c : SendCall) : Prop where
  owned_of_mem : u ∈ queue → c.owned = true
  mem_of_owned : c.owned = true → u ∈ queue ∨ c.ignoreReplies = true
  receiving : c.receiving = true ↔ holds = some u
  owned_of_holds : holds = some u → c.owned = true
  freed : c.freed = if c.pc.removed then 1 else 0
  isReply : c.pc.waits = true → c.kind.isReply = true
  codes : c.Codes

variable {p : SendPc} {why : Leave} {rc : Int}

section CallOk

variable {q₀ q₁ : List Nat} {r₀ r₁ : Option Nat} {u : Nat} {c : SendCall}
  (h : CallOk q₀ r₀ u c)

include h

theorem CallOk.codesAt {pc : SendPc} (hpc : c.pc = pc) : { c with pc := pc }.Codes := hpc ▸ h.codes

/-- A sender that goes from `pc` to `p`, with its request before and after or without
one. -/
theorem CallOk.goto {pc : SendPc} (hpc : c.pc = pc)
    (ho : c.kind.isReply = true → p.hasRequest = pc.hasRequest) (hr : p.removed = pc.removed)
    (hw : p.waits = true → c.kind.isReply = true) (hc : { c with pc := p }.Codes) :
    CallOk q₀ r₀ u { c with pc := p } := by
  subst hpc
  have ho : ({ c with pc := p } : SendCall).owned = c.owned := by
    show (c.kind.isReply && p.hasRequest) = (c.kind.isReply && c.pc.hasRequest)
    cases hk : c.kind.isReply with
    | true => rw [ho hk]
    | false => rfl
  refine ⟨fun hm => ho.trans (h.owned_of_mem hm), fun h' => h.mem_of_owned (ho.symm.trans h'),
    h.receiving, fun h' => ho.trans (h.owned_of_holds h'), ?_, hw, hc⟩
  show c.freed = if p.removed = true then 1 else 0
  rw [hr]
  exact h.freed

theorem CallOk.queue (hm : u ∈ q₁ ↔ u ∈ q₀) : CallOk q₁ r₀ u c :=
  ⟨h.owned_of_mem ∘ hm.1, fun ho => (h.mem_of_owned ho).imp hm.2 id, h.receiving,
    h.owned_of_holds, h.freed, h.isReply, h.codes⟩

theorem CallOk.remove (hpc : c.pc = .leaving why rc) (hrec : c.receiving = false) (hq : u ∉ q₁)
    (d : Bool) :
    CallOk q₁ r₀ u
      { c with pc := .returned why rc, freed := c.freed + 1, doneWaiting := d } := by
  have hholds : r₀ ≠ some u := fun e => by
    rw [h.receiving.2 e] at hrec
    cases hrec
  have hfreed : c.freed = 0 := by
    have hf := h.freed
    rw [hpc] at hf
    exact hf
  have hc := h.codesAt hpc
  have hw := h.isReply
  rw [hpc] at hw
  have hown : (c.kind.isReply && (SendPc.returned why rc).hasRequest) = false := Bool.and_false _
  refine ⟨fun hm => absurd hm hq, fun ho => absurd (hown.symm.trans ho) nofun, ?_,
    fun e => absurd e hholds, ?_, hw, ?_⟩
  · exact h.receiving
  · show c.freed + 1 = if (SendPc.returned why rc).removed = true then 1 else 0
    cases why with
    | refused | sent => exact hc.elim
    | _ => rw [hfreed]; rfl
  · cases why with
    | refused | sent => exact hc.elim
    | unwritten => exact ⟨hc.1, hc.2.1, hc.2.2.1⟩
    | expired => exact ⟨hc.1, hc.2.writes_eq, hc.2.ends_length⟩
    | answered => exact hc.imp fun w hw => ⟨hw.1, hw.2.1⟩

theorem CallOk.complete (ho : c.owned = true) {w : Writer} (hw : w ≠ .write)
    (result : Int) : CallOk q₀ r₀ u (c.complete w result) := by
  have hc := h.codes.complete ho hw result
  unfold SendCall.complete at hc ⊢
  split at hc
  · next hd =>
    rw [if_pos hd]
    exact h
  · next hd =>
    rw [if_neg hd]
    exact ⟨h.1, h.2, h.3, h.4, h.5, h.6, hc⟩

theorem CallOk.flush (hm : u ∈ q₀) (g : Nat) : CallOk [] r₀ u (c.flush g) := by
  have hc := h.complete (h.owned_of_mem hm) (w := .flush) nofun (-EIO_)
  exact ⟨nofun, fun _ => .inr rfl, hc.receiving, hc.owned_of_holds, hc.freed, hc.isReply, hc.codes⟩

theorem CallOk.holds (hh : r₁ = some u ↔ r₀ = some u) : CallOk q₀ r₁ u c :=
  ⟨h.owned_of_mem, h.mem_of_owned, h.receiving.trans hh.symm, h.owned_of_holds ∘ hh.1, h.freed,
    h.isReply, h.codes⟩

end CallOk

namespace Session

/-- The queue, the requests and who has them. -/
structure Owned (s : Session) : Prop where
  pending : s.requestsPending = s.commandRequests.length
  nodup : s.commandRequests.Nodup
  calls : ∀ u, CallOk s.commandRequests s.loop.holds u (s.calls u)
  known : s.unknown = false

variable {s s' : Session} {u : Nat} {pc pc' : SendPc} {a : SendAct} {fs : List (Nat × Nat)}

section

variable (h : Owned s)

include h

theorem Owned.congr (hl : s'.loop.holds = s.loop.holds := by rfl)
    (hp : s'.requestsPending = s.requestsPending := by rfl)
    (hq : s'.commandRequests = s.commandRequests := by rfl) (hc : s'.calls = s.calls := by rfl)
    (hk : s'.unknown = s.unknown := by rfl) : Owned s' := by
  constructor <;> simp only [hp, hq, hl, hc, hk]
  exacts [h.pending, h.nodup, h.calls, h.known]

theorem Owned.setCall {c : SendCall} (hc : CallOk s.commandRequests s.loop.holds u c) :
    Owned (s.setCall u c) := by
  refine ⟨h.pending, h.nodup, ?_, h.known⟩
  exact (forall_update_iff s.calls (CallOk _ _)).2 ⟨hc, fun v _ => h.calls v⟩

theorem Owned.goto {pc : SendPc} (hpc : (s.calls u).pc = pc)
    (ho : (s.calls u).kind.isReply = true → p.hasRequest = pc.hasRequest)
    (hr : p.removed = pc.removed) (hw : p.waits = true → (s.calls u).kind.isReply = true)
    (hc : { s.calls u with pc := p }.Codes) : Owned (s.goto u p) :=
  h.setCall ((h.calls u).goto hpc ho hr hw hc)

/-- The queue grows by the request of a sender that is behind its last check. -/
theorem Owned.enqueue (hpc : (s.calls u).pc = .loaded) :
    Owned { s.setCall u { s.calls u with pc := .queued, queuedOn := s.generation } with
      commandRequests := s.commandRequests ++ [u]
      requestsPending := s.requestsPending + 1 } := by
  have hu := h.calls u
  have hnot : u ∉ s.commandRequests := by
    intro hm
    have ho := hu.owned_of_mem hm
    simp [owned, hpc, SendPc.hasRequest] at ho
  refine ⟨?_, ?_, (forall_update_iff s.calls (CallOk _ _)).2 ⟨?_, fun v e => ?_⟩, h.known⟩
  · show s.requestsPending + 1 = ((s.commandRequests ++ [u]).length : Int)
    rw [h.pending, length_append]
    rfl
  · exact nodup_append.2 ⟨h.nodup, nodup_singleton u, fun a ha b hb e =>
      hnot (mem_singleton.1 hb ▸ e ▸ ha)⟩
  · have hk : (s.calls u).kind.isReply = true := hu.isReply (by rw [hpc]; rfl)
    have ho : ({ s.calls u with pc := .queued, queuedOn := s.generation } : SendCall).owned = true := by
      show ((s.calls u).kind.isReply && SendPc.queued.hasRequest) = true
      rw [hk]
      rfl
    have hc := hu.codesAt hpc
    have hf := hu.freed
    rw [hpc] at hf
    exact ⟨fun _ => ho, fun _ => .inl (mem_append_right _ (mem_singleton_self u)),
      hu.receiving, fun _ => ho, hf, fun _ => hk, hc⟩
  · exact (h.calls v).queue (by simp [e])

theorem Owned.remove (hpc : (s.calls u).pc = .leaving why rc) (hrec : (s.calls u).receiving = false)
    (hm : u ∈ s.commandRequests) :
    Owned { s.setCall u { s.calls u with
        pc := .returned why rc, freed := (s.calls u).freed + 1, doneWaiting := true } with
      commandRequests := s.commandRequests.erase u
      requestsPending := s.requestsPending - 1 } := by
  have hnot : u ∉ s.commandRequests.erase u := h.nodup.not_mem_erase
  refine ⟨?_, h.nodup.erase u, (forall_update_iff s.calls (CallOk _ _)).2
    ⟨(h.calls u).remove hpc hrec hnot true, fun v e => ?_⟩, h.known⟩
  · show s.requestsPending - 1 = ((s.commandRequests.erase u).length : Int)
    have hpos := length_pos_of_mem hm
    rw [h.pending, length_erase_of_mem hm]
    omega
  · exact (h.calls v).queue (mem_erase_of_ne e)

theorem Owned.leaving (hpc : (s.calls u).pc = .leaving why rc) : (s.calls u).owned = true := by
  have hc := (h.calls u).codesAt hpc
  have hk : (s.calls u).kind.isReply = true := (h.calls u).isReply (by
    rw [hpc]
    cases why with
    | refused | sent => exact hc.elim
    | _ => rfl)
  unfold owned
  rw [hk, hpc]
  rfl

theorem owned_send (hpc : (s.calls u).pc = pc) (hm : Moves s u pc a pc' fs s') : Owned s' := by
  have hu := h.calls u
  have hcodes := hu.codesAt hpc
  have hreply : pc.waits = true → (s.calls u).kind.isReply = true := fun e => hu.isReply (hpc ▸ e)
  cases hm with
  | unconnected | busy | closed | nomem =>
    exact h.goto hpc (fun _ => rfl) rfl nofun hcodes.ends_length
  | reconnect hk | opened hk => exact h.goto hpc (fun _ => rfl) rfl (fun _ => hk) hcodes
  | checked | loadFd => exact h.goto hpc (fun _ => rfl) rfl nofun hcodes
  | reconnecting =>
    exact (h.goto (p := .reconnecting) hpc (fun _ => rfl) rfl (fun _ => hreply rfl) hcodes).congr
  | loaded =>
    have hm := hu.goto (p := .loaded) hpc (fun _ => rfl) rfl (fun _ => hreply rfl) hcodes
    exact h.setCall ⟨hm.1, hm.2, hm.3, hm.4, hm.5, hm.6, hm.7⟩
  | queued => exact h.enqueue hpc
  | locked =>
    exact (h.goto (p := .locked) hpc (fun _ => rfl) rfl nofun hcodes).congr
  | lockedOneway hk =>
    exact (h.goto (p := .locked) hpc (fun e => absurd (hk.symm.trans e) nofun) rfl nofun
      hcodes).congr
  | written hk =>
    exact (h.goto (p := .waiting) hpc (fun _ => rfl) rfl (fun _ => hk) hcodes).congr
  | failed hk =>
    exact (h.goto (p := .failed) hpc (fun _ => rfl) rfl (fun _ => hk) hcodes).congr
  | sent hk | unsent hk =>
    exact (h.goto (p := .returned .sent _) hpc (fun e => absurd (hk.symm.trans e) nofun) rfl nofun
      hcodes.ends_length).congr
  | unwritten =>
    have hnil : (s.calls u).doneWaiting = false → (s.calls u).ends = [] := by
      intro hd
      rcases hcodes with ⟨-, e⟩ | ⟨hd', -⟩
      · unfold ends
        rw [e]
        rfl
      · rw [hd] at hd'
        cases hd'
    have hm := hu.goto (p := .waiting) hpc (fun _ => rfl) rfl (fun _ => hreply rfl) hcodes
    -- the failure that the sender stores does not end the wait
    have hends : ((s.calls u).writes ++ [(Writer.write, -EIO_)]).filter (·.1 ≠ .write) =
        (s.calls u).ends := by
      rw [filter_append, filter_cons_of_neg (by simp), filter_nil, append_nil]
      rfl
    refine h.setCall ⟨hm.1, hm.2, hm.3, hm.4, hm.5, hm.6, rfl, .inl ?_, ?_, fun hd => ?_⟩
    · show _ = List.filter _ _ ++ _
      rw [hends]
      exact congrArg (· ++ _) (Once.writes_eq hcodes)
    · show (List.filter _ _).length ≤ 1
      rw [hends]
      exact hcodes.ends_length
    · exact hends.trans (hnil hd)
  | answered hd =>
    refine h.goto hpc (fun _ => rfl) rfl (fun _ => hreply rfl) ?_
    rcases hcodes with ⟨hd', -⟩ | ⟨-, w, hw, e⟩
    · rw [hd'] at hd
      cases hd
    · exact ⟨w, hw, e, hd⟩
  | expired => exact h.goto hpc (fun _ => rfl) rfl (fun _ => hreply rfl) ⟨rfl, hcodes⟩
  | result => exact h.goto hpc (fun _ => rfl) rfl (fun _ => hreply rfl) hcodes
  | removed hr hq => exact h.remove hpc hr hq
  | dropped hr hq => exact h.setCall (hu.remove hpc hr hq _)
  | unknown hq hi =>
    exact absurd (hi.symm.trans ((hu.mem_of_owned (h.leaving hpc)).resolve_left hq)) nofun

end

theorem owned_setupHeader (ht : Threads s) (h : Owned s) {pc : SendPc} {kind : SendKind}
    {nested opensession : Bool} (ho : (kind.isReply && pc.hasRequest) = false)
    (hr : pc.removed = false) (hw : pc.waits = false)
    (hc : ∀ c : SendCall, c.Once → { c with pc := pc }.Codes) :
    Owned (s.setupHeader { pc := pc, kind := kind, nested := nested, opensession := opensession }) := by
  have hnone : (s.calls s.nextCall).owned = false := by
    unfold owned
    rw [ht.fresh _ (Nat.le_refl _)]
    exact Bool.and_false _
  have hnot : s.nextCall ∉ s.commandRequests := fun hm => by
    rw [(h.calls _).owned_of_mem hm] at hnone
    cases hnone
  have hholds : s.loop.holds ≠ some s.nextCall := fun e => by
    rw [(h.calls _).owned_of_holds e] at hnone
    cases hnone
  refine ⟨h.pending, h.nodup, (forall_update_iff s.calls (CallOk _ _)).2
    ⟨⟨fun hm => absurd hm hnot, fun ho' => absurd (ho.symm.trans ho') nofun,
      iff_of_false nofun hholds, fun e => absurd e hholds, ?_,
      fun hw' => absurd (hw.symm.trans hw') nofun, hc _ (.inl ⟨rfl, rfl⟩)⟩, fun v _ => h.calls v⟩,
    h.known⟩
  show 0 = if pc.removed = true then 1 else 0
  rw [hr]
  rfl

theorem owned_fail (h : Owned s) (p : Proc) : Owned (s.failRequestQueue p) := by
  refine ⟨h.pending, h.nodup, fun v => ?_, h.known⟩
  show CallOk s.commandRequests s.loop.holds v (if v ∈ s.commandRequests then _ else _)
  split
  · next hm => exact (h.calls v).complete ((h.calls v).owned_of_mem hm) (w := .fail) nofun _
  · exact h.calls v

theorem owned_flush (h : Owned s) : Owned s.flushRequestQueue := by
  refine ⟨?_, nodup_nil, fun v => ?_, h.known⟩
  · show s.requestsPending - s.commandRequests.length = 0
    rw [h.pending, Int.sub_self]
  · show CallOk [] s.loop.holds v (if v ∈ s.commandRequests then _ else _)
    split
    · next hm => exact (h.calls v).flush hm _
    · next hm => exact (h.calls v).queue (iff_of_false nofun hm)

theorem owned_disconnect (h : Owned s) (p : Proc) (a : DisconnectAct) :
    Owned (s.disconnectStep p a) := by
  cases a with
  | loadGeneration => exact h.congr
  | take g =>
    show Owned (if _ then _ else _)
    split <;> exact h.congr
  | close g =>
    show Owned ((s.closeDescriptor p).setDisconnect p _)
    rw [closeDescriptor_eq]
    exact h.congr
  | fail g => exact (owned_fail h p).congr
  | mark g =>
    show Owned (if _ then _ else _)
    split <;> exact h.congr

theorem owned_reconnect (ht : Threads s) (h : Owned s) {k : ReconnectPc} {a : ReconnectAct}
    (hr : s.reconnect = k) (hs : Reconnected s k a s') : Owned s' := by
  have hpc := ht.caller (hs.ne_idle hr)
  have once : (s.calls s.reconnectCall).Once := (h.calls s.reconnectCall).codesAt hpc
  cases hs with
  | flush => exact (owned_flush h).congr
  | opensession | send =>
    have hnew : ∀ b, Owned (s.setupHeader (nextRequest b)) := fun b =>
      owned_setupHeader ht h rfl rfl rfl fun _ => id
    exact (hnew _).congr
  | ended =>
    exact (h.goto (p := .checked) hpc (fun _ => rfl) rfl nofun once).congr
  | endFailed =>
    exact (h.goto (p := .returned .refused (-EIO_)) hpc (fun _ => rfl) rfl nofun
      once.ends_length).congr
  | _ => exact h.congr

theorem owned_find (h : Owned s) {g d w v : Nat} {empty : Bool} (hl : s.loop = .reply g d w empty)
    (hv : s.findRequest w = some v) :
    Owned { s.setCall v { s.calls v with receiving := true } with
      loop := .found g d w empty (some v) } := by
  have hnone : s.loop.holds = none := by rw [hl]; rfl
  have hcalls := h.calls
  rw [hnone] at hcalls
  have ho := (hcalls v).owned_of_mem (mem_of_find?_eq_some hv)
  refine ⟨h.pending, h.nodup, (forall_update_iff s.calls (CallOk _ _)).2
    ⟨⟨fun _ => ho, (hcalls v).mem_of_owned, iff_of_true rfl rfl, fun _ => ho, (hcalls v).freed,
      (hcalls v).isReply, (hcalls v).codes⟩, fun x e => (hcalls x).holds ?_⟩, h.known⟩
  exact iff_of_false (fun e' => e (Option.some.inj e').symm) nofun

theorem owned_release (h : Owned s) {v : Nat} (hl : s.loop.holds = some v) :
    ∀ x, CallOk s.commandRequests none x
      ((s.setCall v { s.calls v with receiving := false }).calls x) := by
  have hcalls := h.calls
  rw [hl] at hcalls
  refine (forall_update_iff s.calls (CallOk _ _)).2 ⟨⟨(hcalls v).owned_of_mem,
    (hcalls v).mem_of_owned, iff_of_false nofun nofun, nofun, (hcalls v).freed, (hcalls v).isReply,
    (hcalls v).codes⟩, fun x e => (hcalls x).holds ?_⟩
  exact iff_of_false nofun fun e' => e (Option.some.inj e').symm

theorem owned_receive (h : Owned s) {pc : LoopPc} {a : ReceiveAct} (hl : s.loop = pc)
    (hs : Looped s pc a s') : Owned s' := by
  have hholds : pc.holds = s.loop.holds := by rw [hl]
  cases hs with
  | found hf => exact owned_find h hl hf
  | replyEnds hpc =>
    refine h.congr (.trans ?_ hholds)
    rcases hpc with rfl | ⟨r, result, rfl, rfl⟩ <;> rfl
  | @signal v result =>
    have hv := h.calls v
    exact (h.setCall (hv.complete (hv.owned_of_holds hholds.symm) (w := .reply) nofun result)).congr
      hholds
  | release | releaseFails =>
    exact ⟨h.pending, h.nodup, owned_release h hholds.symm, h.known⟩
  | _ => exact h.congr hholds

theorem owned_step {a : Act} (ht : Threads s) (h : Owned s) (hstep : s.step a = some s') :
    Owned s' := by
  obtain ⟨hg, rfl⟩ := step_eq_some.1 hstep
  cases a with
  | setupHeader kind =>
    exact owned_setupHeader ht h (Bool.and_false _) rfl rfl fun _ => id
  | tickle =>
    have hnew : Owned (s.setupHeader { pc := .locked, kind := .tickle }) :=
      owned_setupHeader ht h rfl rfl rfl fun _ => id
    exact hnew.congr
  | send u a =>
    obtain ⟨_, _, _, hpc, hm⟩ := moves hg
    exact owned_send h hpc hm
  | disconnect p a => exact owned_disconnect h p a
  | reconnect a =>
    obtain ⟨k, hr, hs⟩ := reconnected hg
    exact owned_reconnect ht h hr hs
  | receive a =>
    obtain ⟨pc, hl, hs⟩ := looped hg
    exact owned_receive h hl hs
  | attention i a =>
    have ha := attention_attends s i a
    exact h.congr (congrArg _ ha.loop) ha.requestsPending ha.commandRequests ha.calls ha.unknown

/-! ## Every run -/

theorem owned_start (last : Nat) (replayCache : Bool) : Owned (start last replayCache) :=
  ⟨rfl, nodup_nil, fun _ => ⟨nofun, nofun, iff_of_false nofun nofun, nofun, rfl, nofun,
    .inl ⟨rfl, rfl⟩⟩, rfl⟩

theorem owned_run {as : List Act} {last : Nat} {replayCache : Bool}
    (h : runSteps step (start last replayCache) as = some s) : Threads s ∧ Owned s :=
  runSteps_always (I := fun s => Threads s ∧ Owned s)
    (fun _ _ _ hstep hi => ⟨threads_step hi.1 hstep, owned_step hi.1 hi.2 hstep⟩)
    ⟨threads_start last replayCache, owned_start last replayCache⟩ h

/-- What a session keeps to with its requests. -/
structure RequestsSound (s : Session) : Prop where
  pending : s.requestsPending = s.commandRequests.length
  /-- A request is freed once, by the time its sender returns. -/
  freed : ∀ u, (s.calls u).freed = if (s.calls u).pc.removed then 1 else 0
  /-- No request is freed while the receiver holds it. -/
  held : ∀ u, (s.calls u).receiving = true ∨ s.loop.holds = some u → (s.calls u).freed = 0
  /-- The receiver stores only to requests whose senders have not returned. -/
  stores : ∀ u, s.loop.storesTo = some u → (s.calls u).freed = 0 ∧ (s.calls u).pc.hasReturned = false
  known : s.unknown = false
  /-- One of reply, flush and fail ends a wait, and none after it. -/
  ends : ∀ u, (s.calls u).ends.length ≤ 1
  /-- A sender whose wait was ended returns what ended it. -/
  answered : ∀ u rc, (s.calls u).pc = .returned .answered rc →
    ∃ w, w ≠ .write ∧ (s.calls u).writes = [(w, rc)]
  /-- A sender whose wait expired has written no return code: what is there ended the wait. -/
  expired : ∀ u rc, (s.calls u).pc = .returned .expired rc →
    rc = ETIMEDOUT ∧ (s.calls u).writes = (s.calls u).ends
  /-- A sender whose write failed has stored `-EIO`, over what had ended its wait. -/
  unwritten : ∀ u rc, (s.calls u).pc = .returned .unwritten rc →
    rc = -EIO_ ∧ (s.calls u).Overwritten

theorem freed_of_owned {c : SendCall} (ho : c.owned = true)
    (hf : c.freed = if c.pc.removed then 1 else 0) : c.freed = 0 ∧ c.pc.hasReturned = false := by
  unfold owned at ho
  cases hpc : c.pc with
  | returned why rc =>
    rw [hpc] at ho
    exact absurd ho (by simp [SendPc.hasRequest])
  | _ =>
    rw [hpc] at hf
    exact ⟨hf, rfl⟩

theorem storesTo_holds {pc : LoopPc} (h : pc.storesTo = some u) : pc.holds = some u := by
  unfold LoopPc.storesTo at h
  split at h
  · exact h
  · cases h

/-- **Requests.** Whatever the senders, the receiver, a flush and a fail do, and in
whatever order, each request is freed once and not while the receiver holds it, its
wait is ended once, and its sender returns what ended it; a sender whose wait expired
returns `ETIMEDOUT` without a write of its own, and one whose write failed stores `-EIO` and
returns it. -/
theorem requests_sound {as : List Act} {last : Nat} {replayCache : Bool}
    (h : runSteps step (start last replayCache) as = some s) : RequestsSound s := by
  have ho := (owned_run h).2
  refine ⟨ho.pending, fun u => (ho.calls u).freed, fun u hu => ?_, fun u hu => ?_, ho.known,
    fun u => (ho.calls u).codes.ends_length, fun u rc hpc => ?_, fun u rc hpc => ?_,
    fun u rc hpc => ?_⟩
  · have hu : s.loop.holds = some u := hu.elim (ho.calls u).receiving.1 id
    exact (freed_of_owned ((ho.calls u).owned_of_holds hu) (ho.calls u).freed).1
  · exact freed_of_owned ((ho.calls u).owned_of_holds (storesTo_holds hu)) (ho.calls u).freed
  · exact (ho.calls u).codesAt hpc
  · exact ((ho.calls u).codesAt hpc).imp_right And.left
  · exact ((ho.calls u).codesAt hpc).imp_right And.left

/-- A request that is answered with 7. -/
def answeredRun : List Act :=
  .setupHeader (.reply true) :: sendSteps 0 0 ++ replySteps 0 0 0 7 ++ returnSteps 0 7

theorem requests_sound_answered : ∃ s, runSteps step (start 0 false) answeredRun = some s ∧
    (s.calls 0).pc = .returned .answered 7 ∧ RequestsSound s := by
  have h : runSteps step (start 0 false) answeredRun = some _ := rfl
  exact ⟨_, h, rfl, requests_sound h⟩

/-- A reply that comes after the wait expired still writes the return code of the
request, which is not what its sender returns. -/
theorem return_code_after_expiry : ∃ s, runSteps step (start 0 false)
      (.setupHeader (.reply true) :: sendSteps 0 0 ++ [.send 0 .expire] ++ replySteps 0 0 0 7 ++
        [.send 0 (.remove .expired ETIMEDOUT)]) = some s ∧
    (s.calls 0).pc = .returned .expired ETIMEDOUT ∧ (s.calls 0).writes = [(.reply, 7)] ∧
    (s.calls 0).returnCode = 7 :=
  ⟨_, rfl, rfl, rfl, rfl⟩

end Session

end NC
