import NetatalkClient.Model.Dsi.Send

/-!
# What stands on a descriptor

`Pieces` says of what the stream of a descriptor consists: of one piece of each frame of which the
descriptor has any bytes, one behind the other, and only the last of them may belong to a call that
still writes. It holds in every run (`frames_not_interleaved`), since a call writes with `send_mutex`
held.

All pieces but the last are whole frames in every run in which no send accepts bytes on a descriptor
that has a part of a frame from a call whose send failed (`streams_of_whole_frames`). Nothing in the
code keeps the next call from such a descriptor (`frame_behind_part`).
-/

namespace NC

open List FrameCall FramePc Option

/-! ## Frames -/

/-- A frame with a header that gives its length. -/
def IsDsiFrame (f : Bytes) : Prop := dsiHeaderSize ≤ f.length ∧ dsiLength f = f.length - dsiHeaderSize

theorem isDsiFrame_setLength {msg : Bytes} (h : dsiHeaderSize ≤ msg.length)
    (hlt : msg.length < 2 ^ 31) : IsDsiFrame (setLength msg) := by
  have h16 : 16 ≤ msg.length := h
  have hlen : (setLength msg).length = msg.length := by
    simp [setLength]
    omega
  refine ⟨hlen ▸ h, ?_⟩
  have hfield : ((setLength msg).drop 8).take 4 = natBe 4 (msg.length - dsiHeaderSize) := by
    have h8 : (msg.take 8).length = 8 := by
      rw [length_take]
      omega
    rw [setLength, append_assoc, drop_append, h8]
    simp
  rw [hlen, dsiLength, hfield, beNat_natBe]
  omega

theorem isDsiFrame_tickleHeader (requestid : Nat) : IsDsiFrame (tickleHeader requestid) := by
  have hlen : (tickleHeader requestid).length = 16 := by simp [tickleHeader]
  refine ⟨hlen ▸ Nat.le_refl _, ?_⟩
  have hfield : ((tickleHeader requestid).drop 8).take 4 = [0, 0, 0, 0] := by
    simp [tickleHeader, natBe, range_succ]
  rfl

/-! ## Pieces -/

/-- The descriptor that a call has loaded, and what it has written on it. -/
def FramePc.on : FramePc → Option (Nat × Nat)
  | .writing (some d) n | .ended (some d) n | .returned (some d) n => some (d, n)
  | _ => none

def FramePc.isWriting : FramePc → Bool
  | .writing .. => true
  | _ => false

/-- How many bytes of its frame a call has written on a descriptor. -/
def FrameCall.writtenOn (c : FrameCall) (d : Nat) : Nat :=
  match c.pc.on with
  | some (d', n) => if d' = d then n else 0
  | none => 0

instance : Inhabited FrameCall := ⟨false, [], .ready⟩

namespace FrameState

variable {s s' : FrameState} {d : Nat}

def call (s : FrameState) (u : Nat) : FrameCall := s.calls.getD u default

/-- What a descriptor has of the frame of a call. -/
def piece (s : FrameState) (d u : Nat) : Bytes := (s.call u).frame.take ((s.call u).writtenOn d)

/-- A descriptor has a part of a frame whose call does not write any more. -/
def Cut (s : FrameState) (d : Nat) : Prop :=
  ∃ c ∈ s.calls, c.pc.isWriting = false ∧ 0 < c.writtenOn d ∧ c.writtenOn d < c.frame.length

instance (s : FrameState) (d : Nat) : Decidable (s.Cut d) := inferInstanceAs (Decidable (∃ _ ∈ _, _))

/-- No send accepts bytes on a descriptor with a part of a frame whose call does not write any
more. -/
def NotBehindPart (s : FrameState) : FrameAct → Prop
  | .send u (.accepted k) =>
    match (s.call u).pc with
    | .writing (some d) _ => 0 < k → ¬ s.Cut d
    | _ => True
  | _ => True

instance (s : FrameState) (a : FrameAct) : Decidable (s.NotBehindPart a) := by
  unfold NotBehindPart
  split
  · split <;> infer_instance
  · infer_instance

/-- The stream of a descriptor is the pieces of the calls `us`. With `tidy`, all but the last are
whole frames. -/
structure Pieces (tidy : Prop) (s : FrameState) (d : Nat) (us : List Nat) : Prop where
  nodup : us.Nodup
  mem : ∀ u, u ∈ us ↔ 0 < (s.call u).writtenOn d
  stream : s.stream d = us.flatMap (s.piece d)
  last : ∀ u ∈ us.dropLast, (s.call u).pc.isWriting = false
  whole : tidy → ∀ u ∈ us.dropLast, (s.call u).writtenOn d = (s.call u).frame.length

/-- What holds of every call that has begun. -/
structure Fine (c : FrameCall) : Prop where
  frame : IsDsiFrame c.frame
  unfinished : ∀ fd n, c.pc = .writing fd n → n < c.frame.length
  within : ∀ d, c.writtenOn d ≤ c.frame.length

/-- What holds in every state. -/
structure Framed (tidy : Prop) (s : FrameState) : Prop where
  mutex : ∀ u, (s.call u).pc.holds = true ↔ s.sendMutex = some u
  fine : ∀ u < s.calls.length, Fine (s.call u)
  pieces : ∀ d, ∃ us, Pieces tidy s d us

/-! ## Calls after a step -/

theorem call_of_getElem? {u : Nat} {c : FrameCall} (h : s.calls[u]? = some c) : s.call u = c := by
  simp [call, h]

theorem call_goto {u : Nat} {c : FrameCall} (h : s.calls[u]? = some c) (pc : FramePc) (v : Nat) :
    (s.goto u c pc).call v = if v = u then { c with pc := pc } else s.call v :=
  getD_set (List.getElem?_eq_some_iff.1 h).1 ..

/-- A call that begins has written nothing and holds nothing, as one that has not begun. -/
theorem call_append (c : FrameCall) (v : Nat) :
    ({ s with calls := s.calls ++ [c] } : FrameState).call v
      = if v = s.calls.length then c else s.call v :=
  getD_concat ..

theorem call_length : s.call s.calls.length = default := getD_eq_default _ _ (Nat.le_refl _)

theorem lt_of_written {u : Nat} (h : 0 < (s.call u).writtenOn d) : u < s.calls.length := by
  by_contra hge
  rw [call, getD_eq_default _ _ (Nat.not_lt.1 hge)] at h
  exact Nat.lt_irrefl 0 h

/-! ## Steps -/

/-- Where the loop of `afpc_dsi_write_frame` goes on with `n` bytes written. -/
def afterSend (c : FrameCall) (fd : Option Nat) (n : Nat) : FramePc :=
  if n = c.frame.length then .ended fd n else .writing fd n

/-- The state behind a send that accepted bytes. -/
def accepted (s : FrameState) (u : Nat) (c : FrameCall) (d n k : Nat) : FrameState :=
  { s with stream := Function.update s.stream d (s.stream d ++ (c.frame.drop n).take k),
           calls := s.calls.set u { c with pc := afterSend c (some d) (n + k) } }

/-- A step of call `u` that adds nothing to a stream. -/
structure Quiet (s s' : FrameState) (u : Nat) : Prop where
  stream : s'.stream = s.stream
  others : ∀ v, v ≠ u → s'.call v = s.call v
  mutexOthers : ∀ v, v ≠ u → (s'.sendMutex = some v ↔ s.sendMutex = some v)
  mutex : (s'.call u).pc.holds = true ↔ s'.sendMutex = some u
  listed : ∀ v < s'.calls.length, v ≠ u → v < s.calls.length
  fine : u < s'.calls.length → Fine (s'.call u)
  written : ∀ d, (s'.call u).writtenOn d = (s.call u).writtenOn d
  frame : ∀ d, 0 < (s.call u).writtenOn d → (s'.call u).frame = (s.call u).frame
  writing : ∀ d, 0 < (s.call u).writtenOn d → (s.call u).pc.isWriting = false →
    (s'.call u).pc.isWriting = false

/-- What a step can change. -/
inductive Change (s : FrameState) : FrameAct → FrameState → Prop
  | quiet {a : FrameAct} {s' : FrameState} {u : Nat} (h : Quiet s s' u) : Change s a s'
  | accepts {u d n k : Nat} {c : FrameCall} (h : s.calls[u]? = some c)
    (hpc : c.pc = .writing (some d) n) (hk : n + k ≤ c.frame.length) :
    Change s (.send u (.accepted k)) (s.accepted u c d n k)

section Steps

variable {tidy : Prop} (hf : Framed tidy s) {a : FrameAct} {u : Nat} {c : FrameCall}

include hf

variable {fd : Option Nat} {pc : FramePc}

theorem Change.connection {published : Nat} :
    Change s a { s with fd := fd, published := published } :=
  .quiet (u := 0) ⟨rfl, fun _ _ => rfl, fun _ _ => Iff.rfl, hf.mutex 0, fun _ hv _ => hv, hf.fine 0,
    fun _ => rfl, fun _ _ => rfl, fun _ _ h => h⟩

theorem Change.begins (hpc : c.pc = .ready) (hframe : IsDsiFrame c.frame) :
    Change s a { s with calls := s.calls ++ [c] } := by
  have hcall := call_append (s := s) c s.calls.length
  rw [if_pos rfl] at hcall
  have hnone : ∀ d, c.writtenOn d = 0 := by simp [writtenOn, on, hpc]
  have hdefault : ∀ d, (s.call s.calls.length).writtenOn d = 0 := by
    rw [call_length]
    exact fun d => rfl
  refine .quiet (u := s.calls.length) ⟨rfl, fun v hv => ?_, fun _ _ => Iff.rfl, ?_, fun v hv hne => ?_,
    fun _ => ?_, fun d => ?_, fun d h => ?_, fun d h => ?_⟩
  · rw [call_append, if_neg hv]
  · rw [hcall, ← hf.mutex, hpc, call_length]
    rfl
  · rw [length_append] at hv
    exact Nat.lt_of_le_of_ne (Nat.le_of_lt_succ hv) hne
  · rw [hcall]
    exact ⟨hframe, fun fd n h => (nomatch hpc.symm.trans h), fun d => hnone d ▸ Nat.zero_le _⟩
  · rw [hcall, hnone, hdefault]
  all_goals exact absurd (hdefault d ▸ h) (Nat.lt_irrefl 0)

theorem Change.moves {m : Option Nat} (h : s.calls[u]? = some c)
    (written : ∀ d, { c with pc := pc }.writtenOn d = c.writtenOn d)
    (writing : pc.isWriting = true → ∃ fd, pc = .writing fd 0) (own : pc.holds = true ↔ m = some u)
    (others : ∀ v, v ≠ u → (m = some v ↔ s.sendMutex = some v)) :
    Change s a { s.goto u c pc with sendMutex := m } := by
  have hu : u < s.calls.length := (List.getElem?_eq_some_iff.1 h).1
  have hfine := hf.fine u hu
  have hnew : ({ s.goto u c pc with sendMutex := m } : FrameState).call u = { c with pc := pc } :=
    (call_goto h pc u).trans (if_pos rfl)
  rw [call_of_getElem? h] at hfine
  refine .quiet (u := u) ⟨rfl, fun v hv => (call_goto h pc v).trans (if_neg hv), others, ?_,
    fun v hv _ => ?_, fun _ => ?_, fun d => ?_, fun d _ => ?_, fun d hd _ => ?_⟩
  all_goals try rw [hnew]
  · exact own
  · simpa [goto] using hv
  · refine ⟨hfine.frame, fun fd n hpc => ?_, fun d => written d ▸ hfine.within d⟩
    -- the call has just loaded the descriptor
    obtain ⟨fd', hfd⟩ := writing (by rw [show pc = .writing fd n from hpc]; rfl)
    cases hfd.symm.trans hpc
    exact Nat.lt_of_lt_of_le (by decide) hfine.frame.1
  · rw [written, call_of_getElem? h]
  · rw [call_of_getElem? h]
  · cases hpw : pc.isWriting with
    | false => rfl
    | true =>
      -- a call that has just loaded its descriptor has written nothing
      obtain ⟨fd, rfl⟩ := writing hpw
      rw [call_of_getElem? h, ← written] at hd
      cases fd <;> simp [writtenOn, on] at hd

theorem Change.keeps (h : s.calls[u]? = some c)
    (written : ∀ d, { c with pc := pc }.writtenOn d = c.writtenOn d)
    (writing : pc.isWriting = true → ∃ fd, pc = .writing fd 0) (hold : pc.holds = c.pc.holds) :
    Change s a (s.goto u c pc) := by
  refine .moves hf (m := s.sendMutex) h written writing ?_ fun v _ => Iff.rfl
  rw [hold, ← hf.mutex, call_of_getElem? h]

theorem sendStep_change {n : Nat} {r : SendResult} (h : s.calls[u]? = some c)
    (hpc : c.pc = .writing fd n) (hs : s.sendStep u c fd n r = some s') : Change s (.send u r) s' := by
  cases r with
  | accepted k =>
    cases fd with
    | none => cases hs
    | some d =>
      simp only [sendStep] at hs
      split at hs
      · next hk =>
        cases hs
        exact .accepts h hpc hk
      · cases hs
  | interrupted =>
    cases hs
    exact .connection hf
  | failed =>
    cases hs
    refine .keeps hf h (fun d => ?_) nofun (by rw [hpc]; rfl)
    cases fd <;> simp [writtenOn, on, hpc]

theorem callStep_change (h : s.calls[u]? = some c) (ha : ∀ v r, a = .send v r → v = u)
    (hs : s.callStep u c a = some s') : Change s a s' := by
  have hown := hf.mutex u
  rw [call_of_getElem? h] at hown
  cases a with
  | giveUp v =>
    obtain ⟨hpc, ⟨⟩⟩ := ite_none_right_eq_some.1 hs
    refine .keeps hf h (fun d => ?_) nofun (by rw [hpc]; rfl)
    simp [writtenOn, on, hpc]
  | lock v =>
    obtain ⟨⟨hpc, hfree⟩, ⟨⟩⟩ := ite_none_right_eq_some.1 hs
    refine .moves hf h (fun d => ?_) nofun (by simp [holds]) fun w hw => ?_
    · simp [writtenOn, on, hpc]
    · simp [hfree, Ne.symm hw]
  | noRoom v =>
    obtain ⟨⟨hpc, -⟩, ⟨⟩⟩ := ite_none_right_eq_some.1 hs
    refine .keeps hf h (fun d => ?_) nofun (by rw [hpc]; rfl)
    simp [writtenOn, on, hpc]
  | load v =>
    obtain ⟨hpc, ⟨⟩⟩ := ite_none_right_eq_some.1 hs
    refine .keeps hf h (fun d => ?_) (fun _ => ⟨s.fd, rfl⟩) (by rw [hpc]; rfl)
    cases s.fd <;> simp [writtenOn, on, hpc]
  | send v r =>
    obtain rfl := ha v r rfl
    simp only [callStep] at hs
    split at hs
    · next fd n hpc => exact sendStep_change hf h hpc hs
    · cases hs
  | unlock v =>
    simp only [callStep] at hs
    split at hs
    · next fd n hpc =>
      cases hs
      have hholds : s.sendMutex = some u := hown.1 (by rw [hpc]; rfl)
      refine .moves hf h (fun d => ?_) nofun (by simp [holds]) fun w hw => ?_
      · cases fd <;> simp [writtenOn, on, hpc]
      · simp [hholds, Ne.symm hw]
    · cases hs
  | request | tickle | publish | take | endSends => cases hs

theorem step_change (h : s.step a = some s') : Change s a s' := by
  cases a with
  | request msg =>
    obtain ⟨⟨hlen, hlt⟩, ⟨⟩⟩ := ite_none_right_eq_some.1 h
    exact .begins hf rfl (isDsiFrame_setLength hlen hlt)
  | tickle requestid =>
    cases h
    exact .begins hf rfl (isDsiFrame_tickleHeader requestid)
  | publish | take =>
    cases h
    exact .connection hf
  | endSends =>
    obtain ⟨-, ⟨⟩⟩ := ite_none_right_eq_some.1 h
    exact .connection hf
  | giveUp u | lock u | noRoom u | load u | unlock u =>
    obtain ⟨c, hc, h⟩ := bind_eq_some_iff.1 h
    exact callStep_change hf hc nofun h
  | send u r =>
    obtain ⟨c, hc, h⟩ := bind_eq_some_iff.1 h
    exact callStep_change hf hc (fun v r' e => by cases e; rfl) h

end Steps

/-! ## Every step keeps the pieces in order -/

variable {us : List Nat}

theorem Pieces.of_same {tidy : Prop} (h : Pieces tidy s d us) (hstream : s'.stream d = s.stream d)
    (hwritten : ∀ u, (s'.call u).writtenOn d = (s.call u).writtenOn d)
    (hframe : ∀ u, 0 < (s.call u).writtenOn d → (s'.call u).frame = (s.call u).frame)
    (hwriting : ∀ u, 0 < (s.call u).writtenOn d → (s.call u).pc.isWriting = false →
      (s'.call u).pc.isWriting = false) : Pieces tidy s' d us where
  nodup := h.nodup
  mem u := by rw [h.mem, hwritten]
  stream := by
    rw [hstream, h.stream]
    refine flatMap_congr fun u hu => ?_
    rw [piece, piece, hwritten, hframe u ((h.mem u).1 hu)]
  last u hu := hwriting u ((h.mem u).1 (dropLast_subset us hu)) (h.last u hu)
  whole ht u hu := by
    rw [hwritten, hframe u ((h.mem u).1 (dropLast_subset us hu))]
    exact h.whole ht u hu

theorem Framed.quiet {tidy : Prop} (hf : Framed tidy s) {u : Nat} (h : Quiet s s' u) :
    Framed tidy s' := by
  refine ⟨fun v => ?_, fun v hv => ?_, fun d => ?_⟩
  · by_cases hvu : v = u
    · exact hvu ▸ h.mutex
    · rw [h.others v hvu, hf.mutex, h.mutexOthers v hvu]
  · by_cases hvu : v = u
    · exact hvu ▸ h.fine (hvu ▸ hv)
    · exact h.others v hvu ▸ hf.fine v (h.listed v hv hvu)
  · obtain ⟨us, hp⟩ := hf.pieces d
    refine ⟨us, hp.of_same (congrFun h.stream d) (fun v => ?_) (fun v hv => ?_) fun v hv hw => ?_⟩
    all_goals by_cases hvu : v = u
    · exact hvu ▸ h.written d
    · rw [h.others v hvu]
    · exact hvu ▸ h.frame d (hvu ▸ hv)
    · rw [h.others v hvu]
    · exact hvu ▸ h.writing d (hvu ▸ hv) (hvu ▸ hw)
    · rwa [h.others v hvu]

section accepts

variable {tidy : Prop} {u n k : Nat} {c : FrameCall} (h : s.calls[u]? = some c)
  (hpc : c.pc = .writing (some d) n) (hk : n + k ≤ c.frame.length)

theorem afterSend_on (c : FrameCall) (d n : Nat) : (afterSend c (some d) n).on = some (d, n) := by
  unfold afterSend
  split <;> rfl

include h

theorem call_accepted (v : Nat) : (s.accepted u c d n k).call v =
    if v = u then { c with pc := afterSend c (some d) (n + k) } else s.call v :=
  call_goto h _ v

theorem frame_accepted (v : Nat) : ((s.accepted u c d n k).call v).frame = (s.call v).frame := by
  rw [call_accepted h]
  split
  · next hv => rw [hv, call_of_getElem? h]
  · rfl

variable {e : Nat}

theorem written_accepted_other {v : Nat} (hv : v ≠ u) :
    ((s.accepted u c d n k).call v).writtenOn e = (s.call v).writtenOn e := by
  rw [call_accepted h, if_neg hv]

theorem written_accepted : ((s.accepted u c d n k).call u).writtenOn d = n + k := by
  rw [call_accepted h, if_pos rfl, writtenOn, afterSend_on]
  simp

include hpc

theorem written_before : (s.call u).writtenOn d = n := by
  rw [call_of_getElem? h, writtenOn, hpc]
  simp [on]

theorem written_accepted_elsewhere (he : e ≠ d) (v : Nat) :
    ((s.accepted u c d n k).call v).writtenOn e = (s.call v).writtenOn e := by
  by_cases hv : v = u
  · rw [hv, call_accepted h, if_pos rfl, call_of_getElem? h, writtenOn,
      writtenOn, afterSend_on, hpc]
    simp [on, Ne.symm he]
  · rw [written_accepted_other h hv]

theorem not_writing (hf : Framed tidy s) {v : Nat} (hv : v ≠ u) :
    (s.call v).pc.isWriting = false := by
  have hu : s.sendMutex = some u := (hf.mutex u).1 (by rw [call_of_getElem? h, hpc]; rfl)
  cases hw : (s.call v).pc with
  | writing fd m =>
    have hmutex := (hf.mutex v).1 (by rw [hw]; rfl)
    rw [hu] at hmutex
    exact absurd (some.inj hmutex).symm hv
  | ready | locked | ended | returned => rfl

/-- What stands on the descriptor before the bytes of the call that writes. -/
theorem Pieces.before (hf : Framed tidy s) (hok : tidy → ¬ s.Cut d) (hp : Pieces tidy s d us) :
    ∃ vs : List Nat, vs.Nodup ∧
      (∀ v, v ∈ vs ↔ v ≠ u ∧ 0 < (s.call v).writtenOn d) ∧
      s.stream d = vs.flatMap (s.piece d) ++ c.frame.take n ∧
      (tidy → ∀ v ∈ vs, (s.call v).writtenOn d = (s.call v).frame.length) := by
  have hbefore := written_before h hpc
  by_cases hu : u ∈ us
  · -- the call writes, so its piece is the last
    have hlast : u ∉ us.dropLast := by
      intro hmem
      have hw := hp.last u hmem
      rw [call_of_getElem? h, hpc] at hw
      cases hw
    have hne : us ≠ [] := ne_nil_of_mem hu
    obtain ⟨vs, rfl⟩ : ∃ vs, us = vs ++ [u] := by
      refine ⟨us.dropLast, ?_⟩
      rw [← dropLast_concat_getLast hne] at hu
      rcases mem_append.1 hu with hmem | hmem
      · exact absurd hmem hlast
      · rw [mem_singleton.1 hmem, dropLast_concat_getLast]
    have hwhole := hp.whole
    have hstream := hp.stream
    rw [dropLast_concat] at hlast hwhole
    rw [flatMap_append, flatMap_singleton, piece, hbefore, call_of_getElem? h] at hstream
    refine ⟨vs, (nodup_append.1 hp.nodup).1, fun v => ?_, hstream, hwhole⟩
    rw [← hp.mem]
    grind
  · have hn : n = 0 := by
      rw [hp.mem, hbefore] at hu
      omega
    refine ⟨us, hp.nodup, fun v => ?_, by simpa [hn] using hp.stream, fun ht v hv => ?_⟩
    · rw [← hp.mem]
      grind
    · -- otherwise the descriptor has a part of this frame, and its call does not write
      have hlt := lt_of_written ((hp.mem v).1 hv)
      by_contra hpart
      refine hok ht ⟨s.call v, ?_, not_writing h hpc hf fun e => hu (e ▸ hv), (hp.mem v).1 hv,
        Nat.lt_of_le_of_ne ((hf.fine v hlt).within d) hpart⟩
      rw [call, getD_eq_getElem _ _ hlt]
      exact getElem_mem hlt

/-- More bytes of the frame whose piece is the last, or the first of a new one. -/
theorem Pieces.accepts (hf : Framed tidy s) (hok : tidy → ¬ s.Cut d) (hp : Pieces tidy s d us)
    (hpos : 0 < k) : ∃ us', Pieces tidy (s.accepted u c d n k) d us' := by
  obtain ⟨vs, hnodup, hmem, hstream, hwhole⟩ := hp.before h hpc hf hok
  have hne : ∀ v ∈ vs, v ≠ u := fun v hv => ((hmem v).1 hv).1
  refine ⟨vs ++ [u], ?_⟩
  constructor
  case nodup => exact nodup_append.2 ⟨hnodup, by simp, by simpa using hne⟩
  case mem =>
    intro v
    by_cases hv : v = u
    · rw [hv, written_accepted h]
      simp
      omega
    · rw [written_accepted_other h hv]
      simp [hv, hmem]
  case stream =>
    have hsame : vs.flatMap ((s.accepted u c d n k).piece d) = vs.flatMap (s.piece d) := by
      refine flatMap_congr fun v hv => ?_
      rw [piece, piece, frame_accepted h, written_accepted_other h (hne v hv)]
    have hnew : (s.accepted u c d n k).piece d u = c.frame.take n ++ (c.frame.drop n).take k := by
      rw [piece, frame_accepted h, written_accepted h, call_of_getElem? h, take_add]
    rw [flatMap_append, hsame, flatMap_singleton, hnew, ← append_assoc, ← hstream]
    exact Function.update_self ..
  case last =>
    intro v hv
    rw [dropLast_concat] at hv
    rw [call_accepted h, if_neg (hne v hv)]
    exact not_writing h hpc hf (hne v hv)
  case whole =>
    intro ht v hv
    rw [dropLast_concat] at hv
    rw [written_accepted_other h (hne v hv), frame_accepted h]
    exact hwhole ht v hv

theorem accepted_zero (hf : Framed tidy s) : s.accepted u c d n 0 = s := by
  obtain ⟨hu, hget⟩ := List.getElem?_eq_some_iff.1 h
  have hlt : n < c.frame.length := by
    have hfine := hf.fine u hu
    rw [call_of_getElem? h] at hfine
    exact hfine.unfinished _ n hpc
  have hcall : { c with pc := afterSend c (some d) (n + 0) } = c := by
    rw [afterSend, if_neg (by omega), Nat.add_zero, ← hpc]
  have hset : s.calls.set u c = s.calls := hget ▸ set_getElem_self hu
  rw [accepted, hcall, take_zero, append_nil, Function.update_eq_self, hset]

include hk

theorem Framed.accepts (hf : Framed tidy s) (hok : tidy → 0 < k → ¬ s.Cut d) :
    Framed tidy (s.accepted u c d n k) := by
  rcases Nat.eq_zero_or_pos k with rfl | hpos
  · rwa [accepted_zero h hpc hf]
  have hmutex : s.sendMutex = some u := (hf.mutex u).1 (by rw [call_of_getElem? h, hpc]; rfl)
  refine ⟨fun v => ?_, fun v hv => ?_, fun e => ?_⟩
  · rw [call_accepted h]
    split
    · next hv =>
      rw [hv, afterSend]
      split <;> exact ⟨fun _ => hmutex, fun _ => rfl⟩
    · exact hf.mutex v
  · have hfine := hf.fine v (by simpa [accepted] using hv)
    by_cases hvu : v = u
    · subst hvu
      refine ⟨(frame_accepted h v).symm ▸ hfine.frame, fun fd m hm => ?_, fun e => ?_⟩
      · rw [frame_accepted h, call_of_getElem? h]
        rw [call_accepted h, if_pos rfl] at hm
        simp only [afterSend] at hm
        split at hm <;> cases hm
        omega
      · rw [frame_accepted h]
        by_cases he : e = d
        · rw [he, written_accepted h, call_of_getElem? h]
          exact hk
        · exact written_accepted_elsewhere h hpc he v ▸ hfine.within e
    · rwa [call_accepted h, if_neg hvu]
  · obtain ⟨us, hp⟩ := hf.pieces e
    by_cases he : e = d
    · subst he
      exact hp.accepts h hpc hf (fun ht => hok ht hpos) hpos
    · refine ⟨us, hp.of_same (Function.update_of_ne he ..)
        (written_accepted_elsewhere h hpc he) (fun v _ => frame_accepted h v) fun v _ hw => ?_⟩
      by_cases hvu : v = u
      · rw [hvu, call_of_getElem? h, hpc] at hw
        cases hw
      · rwa [call_accepted h, if_neg hvu]

end accepts

/-! ## Runs -/

theorem framed_init (tidy : Prop) : Framed tidy .init where
  mutex u := by simp [call, FrameState.init, holds]
  fine u hu := absurd hu (Nat.not_lt_zero u)
  pieces d := ⟨[], nodup_nil, fun u => by simp [call, FrameState.init, writtenOn,
    on], rfl, nofun, fun _ => nofun⟩

theorem Framed.step {tidy : Prop} (hf : Framed tidy s) {a : FrameAct}
    (hok : tidy → s.NotBehindPart a) (h : s.step a = some s') : Framed tidy s' := by
  cases step_change hf h with
  | quiet hq => exact hf.quiet hq
  | accepts hc hpc hk =>
    refine hf.accepts hc hpc hk fun ht => ?_
    have hnot := hok ht
    simp only [NotBehindPart, call_of_getElem? hc, hpc] at hnot
    exact hnot

/-- In every state of every run, the stream of a descriptor consists of one piece each of the frames
of the calls that wrote on it, one behind the other, and only the last of them can still grow. -/
theorem frames_not_interleaved (as : List FrameAct) (d : Nat) :
    Along step (fun s => ∃ us : List Nat, us.Nodup ∧ (∀ u, u ∈ us ↔ 0 < (s.call u).writtenOn d) ∧
      s.stream d = us.flatMap (s.piece d) ∧ ∀ u ∈ us.dropLast, (s.call u).pc.isWriting = false)
      .init as := by
  refine along_of_invariant (I := Framed False) (fun s a s' hs hf => hf.step (fun ht => ht.elim) hs)
    (fun s hf => ?_) (framed_init False)
  obtain ⟨us, hp⟩ := hf.pieces d
  exact ⟨us, hp.nodup, hp.mem, hp.stream, hp.last⟩

/-- A stream of whole frames of different calls, and at its end at most a proper part of the frame of
one more. -/
structure WholeFrames (s : FrameState) (d : Nat) (us : List Nat) (rest : Bytes) : Prop where
  nodup : us.Nodup
  frame : ∀ u ∈ us, IsDsiFrame (s.call u).frame
  stream : s.stream d = us.flatMap (fun u => (s.call u).frame) ++ rest
  rest : rest = [] ∨ ∃ u, u ∉ us ∧ IsDsiFrame (s.call u).frame ∧ rest <+: (s.call u).frame ∧
    rest ≠ (s.call u).frame

theorem Framed.wholeFrames (hf : Framed True s) (d : Nat) : ∃ us rest, WholeFrames s d us rest := by
  obtain ⟨us, hp⟩ := hf.pieces d
  rcases eq_nil_or_concat us with rfl | ⟨vs, u, rfl⟩
  · exact ⟨[], [], nodup_nil, nofun, hp.stream, .inl rfl⟩
  rw [concat_eq_append] at hp
  have hwhole := hp.whole trivial
  rw [dropLast_concat] at hwhole
  have hvs : ∀ v ∈ vs, 0 < (s.call v).writtenOn d := fun v hv =>
    (hp.mem v).1 (mem_append_left _ hv)
  have hu : 0 < (s.call u).writtenOn d := (hp.mem u).1 (by simp)
  have hframe {v : Nat} (hv : 0 < (s.call v).writtenOn d) : IsDsiFrame (s.call v).frame :=
    (hf.fine v (lt_of_written hv)).frame
  have hpieces : vs.flatMap (s.piece d) = vs.flatMap fun v => (s.call v).frame := by
    refine flatMap_congr fun v hv => ?_
    rw [piece, hwhole v hv, take_length]
  have hstream := hp.stream
  rw [flatMap_append, flatMap_singleton, hpieces] at hstream
  obtain ⟨hnodup, -, hdisjoint⟩ := nodup_append.1 hp.nodup
  by_cases hfull : (s.call u).writtenOn d = (s.call u).frame.length
  · refine ⟨vs ++ [u], [], hp.nodup, fun v hv => hframe ((hp.mem v).1 hv), ?_, .inl rfl⟩
    rw [hstream, piece, hfull, take_length, flatMap_append, flatMap_singleton, append_nil]
  · refine ⟨vs, s.piece d u, hnodup, fun v hv => hframe (hvs v hv), hstream, .inr ⟨u, ?_,
      hframe hu, take_prefix .., fun he => ?_⟩⟩
    · exact fun hmem => hdisjoint u hmem u (by simp) rfl
    · have hlen := congrArg List.length he
      rw [piece, length_take, Nat.min_eq_left ((hf.fine u (lt_of_written hu)).within d)] at hlen
      exact hfull hlen

/-- In every run in which no send accepts bytes on a descriptor with a part of a frame whose call does
not write any more, the stream of every descriptor is whole frames and at most a part of one behind
them. -/
theorem streams_of_whole_frames {as : List FrameAct} (hok : OkRun step NotBehindPart .init as)
    (h : runSteps step .init as = some s) (d : Nat) : ∃ us rest, WholeFrames s d us rest := by
  have hf : Framed True s := runSteps_invariant
    (fun s a s' hs hok hf => hf.step (fun _ => hok) hs) (framed_init True) hok h
  exact hf.wholeFrames d

def emptyRequest : Bytes := [DSI_REQUEST, DSI_DSICommand] ++ List.replicate 14 0

/-- Two calls on one connection: the first frame is written in two parts, and the send of the second
fails within it, after which a tickle finds the socket closed. -/
def partAtEnd : List FrameAct :=
  [.publish, .request emptyRequest, .request emptyRequest, .lock 0, .load 0, .send 0 (.accepted 5),
    .send 0 .interrupted, .send 0 (.accepted 11), .unlock 0, .lock 1, .load 1, .send 1 (.accepted 3),
    .send 1 .failed, .unlock 1, .tickle 7, .lock 2, .load 2, .send 2 .failed, .unlock 2]

theorem streams_of_whole_frames_part :
    OkRun step NotBehindPart .init partAtEnd ∧
    ∃ s, runSteps step .init partAtEnd = some s ∧ s.stream 0 = emptyRequest ++ emptyRequest.take 3 ∧
      ∃ us rest, WholeFrames s 0 us rest := by
  have hok : OkRun step NotBehindPart .init partAtEnd := by decide +kernel
  have hrun : (runSteps step .init partAtEnd).map (fun s => s.stream 0)
      = some (emptyRequest ++ emptyRequest.take 3) := by decide +kernel
  obtain ⟨s, hs, hstream⟩ := map_eq_some_iff.1 hrun
  exact ⟨hok, s, hs, hstream, streams_of_whole_frames hok hs 0⟩

/-- A request whose send fails after three bytes, and a tickle that the socket accepts. -/
def tickleBehindPart : List FrameAct :=
  [.publish, .request emptyRequest, .lock 0, .load 0, .send 0 (.accepted 3), .send 0 .failed,
    .unlock 0, .tickle 7, .lock 1, .load 1, .send 1 (.accepted 16), .unlock 1]

/-- The tickle stands behind three bytes of the request. -/
theorem frame_behind_part :
    ∃ s, runSteps step .init tickleBehindPart = some s ∧
      s.stream 0 = emptyRequest.take 3 ++ tickleHeader 7 ∧
      ¬ ∃ us rest, WholeFrames s 0 us rest := by
  have hrun : (runSteps step .init tickleBehindPart).map (fun s => (s.stream 0, s.calls))
      = some (emptyRequest.take 3 ++ tickleHeader 7,
          [⟨false, emptyRequest, .returned (some 0) 3⟩,
            ⟨true, tickleHeader 7, .returned (some 0) 16⟩]) := by decide +kernel
  obtain ⟨s, hs, heq⟩ := map_eq_some_iff.1 hrun
  obtain ⟨hstream, hcalls⟩ := Prod.mk.inj heq
  have hframes : ∀ u, IsDsiFrame (s.call u).frame →
      (s.call u).frame = emptyRequest ∨ (s.call u).frame = tickleHeader 7 := by
    intro u hu
    rw [call, hcalls] at hu ⊢
    match u with
    | 0 => exact .inl rfl
    | 1 => exact .inr rfl
    | u + 2 => exact absurd (show 16 ≤ ([] : Bytes).length from hu.1) (by decide)
  refine ⟨s, hs, hstream, ?_⟩
  rintro ⟨us, rest, hw⟩
  have hbytes := hstream.symm.trans hw.stream
  cases us with
  | nil =>
    -- The stream is longer than a part of a frame.
    have hlen : rest.length = 19 := by
      have hlen := congrArg List.length hbytes
      simpa [emptyRequest, tickleHeader] using hlen.symm
    rcases hw.rest with rfl | ⟨u, -, hu, hprefix, -⟩
    · cases hlen
    · have hle := hprefix.length_le
      rw [hlen] at hle
      rcases hframes u hu with he | he <;> rw [he] at hle <;> exact absurd hle (by decide)
  | cons u us =>
    -- It begins with neither of the frames.
    have htake := congrArg (List.take 16) hbytes
    rw [flatMap_cons, append_assoc] at htake
    rcases hframes u (hw.frame u mem_cons_self) with he | he <;> rw [he] at htake <;>
      exact absurd (htake.trans (take_left' rfl)) (by decide)

end FrameState

end NC
