import Mathlib.Data.List.Induction
import NetatalkClient.Model.Dsi.Receive

/-!
# Session options across reconnects

`optionsIn` reads the options of a reply as a list, and `replyOptions` is what they ask for: the
last value of each option, and the default of an option the reply does not carry.
`opensessionReply_eq` says what `opensessionReply` makes of a reply, whatever stands behind it in
the buffer: the quantum is the reply's own, but a reply without a replay cache keeps the one that
the structure has from an earlier session.

Where every reply carries a replay cache or follows sessions that had none, the options in use
are those of the last reply (`options_of_last_reply`). A server that offers none after one that
did leaves the client numbering its requests for the earlier one's
(`replay_cache_kept_from_before`).
-/

namespace NC

open List SessionOptions

/-! ## The options of a reply -/

/-- The options at the start of some bytes, up to the first that does not end within them. -/
def optionsIn : Nat → Bytes → List (UInt8 × Bytes)
  | n + 1, type :: len :: p =>
    if p.length < len.toNat then []
    else (type, p.take len.toNat) :: optionsIn n (p.drop len.toNat)
  | _, _ => []

/-- The options of a DSIOpenSession reply. -/
def replyOptionList (frame : Bytes) : List (UInt8 × Bytes) :=
  optionsIn frame.length (frame.drop dsiHeaderSize)

/-- The number that an option of a type holds. -/
def optionNumber (type : UInt8) (o : UInt8 × Bytes) : Option Nat :=
  if o.1 = type ∧ o.2.length = 4 then some (beNat o.2) else none

/-- The number in the last option of a type. -/
def lastNumber (type : UInt8) (os : List (UInt8 × Bytes)) : Option Nat :=
  (os.filterMap (optionNumber type)).getLast?

/-- The quantum in use for one that a server sent. -/
def usableQuantum (quantum : Nat) : Nat :=
  if quantum = 0 ∨ DSI_MAX_QUANTUM < quantum then DSI_DEFAULT_QUANTUM else quantum

/-- The options that a reply asks for. -/
def replyOptions (frame : Bytes) : SessionOptions :=
  let os := replyOptionList frame
  { quantum := usableQuantum ((lastNumber 0 os).getD 0)
    attentionQuantum := defaultAttentionQuantum
    replayCacheSize := (lastNumber kServerReplayCacheSize os).getD 0
    supportsReplayCache := (lastNumber kServerReplayCacheSize os).isSome }

theorem usableQuantum_bounds (q : Nat) : 1 ≤ usableQuantum q ∧ usableQuantum q ≤ DSI_MAX_QUANTUM := by
  unfold usableQuantum
  have hd : 1 ≤ DSI_DEFAULT_QUANTUM ∧ DSI_DEFAULT_QUANTUM ≤ DSI_MAX_QUANTUM := by decide
  split
  · exact hd
  · omega

theorem lastNumber_concat (type : UInt8) (os : List (UInt8 × Bytes)) (o : UInt8 × Bytes) :
    lastNumber type (os ++ [o]) = (optionNumber type o).or (lastNumber type os) := by
  unfold lastNumber
  cases h : optionNumber type o with
  | none | some n => simp [h]

variable {n : Nat}

theorem optionsIn_short {p : Bytes} (h : p.length < 2) : optionsIn n p = [] := by
  match n, p, h with
  | 0, _, _ | _ + 1, [], _ | _ + 1, [_], _ => rfl

/-! ## The loop -/

def applyOption (r : Nat × SessionOptions) (o : UInt8 × Bytes) : Nat × SessionOptions :=
  if o.1 = 0 ∧ o.2.length = 4 then (beNat o.2, r.2)
  else if o.1 = kServerReplayCacheSize ∧ o.2.length = 4 then
    (r.1, { r.2 with replayCacheSize := beNat o.2, supportsReplayCache := true })
  else r

theorem takeOption_eq {type : UInt8} {value b : Bytes} {offset q : Nat} {s : SessionOptions}
    (h : BytesAt b (offset + 2) value) :
    takeOption type value.length offset q s b = .ok (applyOption (q, s) (type, value)) := by
  unfold takeOption applyOption
  by_cases h4 : value.length = 4
  · have hn := h.nat_eq
    rw [h4] at hn
    split
    · rw [Reads.bind_ok hn]
      rfl
    · split
      · rw [Reads.bind_ok hn]
        rfl
      · rfl
  · simp only [h4, and_false]
    rfl

theorem opensessionLoop_eq {frame left : Bytes} {offset q : Nat} {s : SessionOptions}
    (hn : (frame.drop offset).length ≤ n) :
    opensessionLoop frame.length (n + 1) offset q s (frame ++ left)
      = .ok ((optionsIn n (frame.drop offset)).foldl applyOption (q, s)) := by
  induction n generalizing offset q s with
  | zero =>
    have hlen : frame.length < offset + 2 := by
      rw [length_drop] at hn
      omega
    rw [opensessionLoop, if_pos hlen]
    rfl
  | succ n ih =>
    rw [opensessionLoop]
    by_cases hlen : frame.length < offset + 2
    · rw [if_pos hlen, optionsIn_short (by rw [length_drop]; omega)]
      rfl
    rw [if_neg hlen]
    obtain ⟨type, len, p, hd⟩ : ∃ type len p, frame.drop offset = type :: len :: p := by
      match hp : frame.drop offset with
      | type :: len :: p => exact ⟨type, len, p, rfl⟩
      | [] | [_] =>
        have := congrArg List.length hp
        simp at this
        omega
    have hframe : frame.length = offset + 2 + p.length := by
      have := congrArg List.length hd
      simp at this
      omega
    have hat : BytesAt (frame ++ left) offset (type :: len :: p) :=
      BytesAt.append ⟨frame.take offset, [], by simp [← hd], by simp; omega⟩ left
    rw [Reads.bind_ok hat.byte_eq, Reads.bind_ok hat.tail.byte_eq, hd, optionsIn, hframe]
    by_cases hp : p.length < len.toNat
    · rw [if_pos (by omega), if_pos hp]
      rfl
    · have hdrop : frame.drop (offset + 2 + len.toNat) = p.drop len.toNat := by
        rw [← drop_drop, ← drop_drop, hd]
        rfl
      have hvalue : BytesAt (frame ++ left) (offset + 2) (p.take len.toNat) := by
        apply BytesAt.left (t := p.drop len.toNat)
        rw [take_append_drop]
        exact hat.tail.tail
      have htake := @takeOption_eq type _ _ _ q s hvalue
      rw [length_take, Nat.min_eq_left (by omega)] at htake
      rw [if_neg (by omega), Reads.bind_ok htake, if_neg hp, foldl_cons, ← hdrop, ← hframe]
      apply ih
      rw [hdrop, length_drop]
      simp at hn
      omega

theorem foldl_applyOption (q : Nat) (s : SessionOptions) (os : List (UInt8 × Bytes)) :
    os.foldl applyOption (q, s) = ((lastNumber 0 os).getD q,
      { s with
        replayCacheSize := (lastNumber kServerReplayCacheSize os).getD s.replayCacheSize
        supportsReplayCache :=
          s.supportsReplayCache || (lastNumber kServerReplayCacheSize os).isSome }) := by
  induction os using List.reverseRecOn with
  | nil => simp [lastNumber]
  | append_singleton os o ih =>
    have hne : (0 : UInt8) ≠ kServerReplayCacheSize := by decide
    rw [foldl_append, ih, foldl_cons, foldl_nil, lastNumber_concat, lastNumber_concat]
    unfold applyOption optionNumber
    by_cases h4 : o.2.length = 4 <;> by_cases h0 : o.1 = 0 <;>
      by_cases h2 : o.1 = kServerReplayCacheSize <;> simp_all

/-- What a reply leaves: its own quantum, and the replay cache it carries or that there was. -/
def SessionOptions.afterReply (s : SessionOptions) (frame : Bytes) : SessionOptions :=
  { s with
    quantum := (replyOptions frame).quantum
    replayCacheSize := (lastNumber kServerReplayCacheSize (replyOptionList frame)).getD
      s.replayCacheSize
    supportsReplayCache := s.supportsReplayCache || (replyOptions frame).supportsReplayCache }

theorem opensessionReply_eq (s : SessionOptions) (frame left : Bytes) :
    opensessionReply frame.length s (frame ++ left) = .ok (s.afterReply frame) := by
  have hlen : (frame.drop dsiHeaderSize).length ≤ frame.length := by simp
  rw [opensessionReply, Reads.bind_ok (opensessionLoop_eq hlen), foldl_applyOption]
  rfl

/-- The receiver takes a reply's options as `SessionState` does. -/
theorem Receiver.takeSession_eq (r : Receiver) :
    r.takeSession = { r with toSessionOptions := r.toSessionOptions.afterReply r.buffer } := by
  have h := opensessionReply_eq r.toSessionOptions r.buffer []
  rw [append_nil] at h
  rw [Receiver.takeSession, h]

/-! ## Runs -/

variable {s : SessionState} {last : Option Bytes}

/-- The reply that set up the session, `last` being the one before the event. -/
def lastReply (last : Option Bytes) : SessionEvent → Option Bytes
  | .reply frame _ => some frame
  | _ => last

/-- A reply carries a replay cache, or the structure has none from before. -/
def RepliesForItself (s : SessionState) : SessionEvent → Prop
  | .reply frame _ =>
    (replyOptions frame).supportsReplayCache = true ∨ s.supportsReplayCache = false
  | _ => True

instance (s : SessionState) (e : SessionEvent) : Decidable (RepliesForItself s e) := by
  cases e <;> unfold RepliesForItself <;> infer_instance

/-- The options in use are those of the last reply, or no replay cache before the first one. -/
structure Settled (s : SessionState) (last : Option Bytes) : Prop where
  attention : s.attentionQuantum = defaultAttentionQuantum
  no_cache : s.supportsReplayCache = false → s.replayCacheSize = 0
  options : ∀ frame, last = some frame → s.toSessionOptions = replyOptions frame

theorem SessionState.connect_options (s : SessionState) :
    s.connect.toSessionOptions = s.toSessionOptions := by
  unfold SessionState.connect
  split <;> rfl

theorem Settled.of_options {t : SessionState} (h : Settled s last)
    (ht : t.toSessionOptions = s.toSessionOptions) : Settled t last where
  attention := (congrArg attentionQuantum ht).trans h.attention
  no_cache hno := (congrArg replayCacheSize ht).trans
    (h.no_cache ((congrArg supportsReplayCache ht).symm.trans hno))
  options frame hf := ht.trans (h.options frame hf)

theorem Settled.afterReply (h : Settled s last) {frame left : Bytes}
    (hok : RepliesForItself s (.reply frame left)) : 
    Settled { s with toSessionOptions := s.toSessionOptions.afterReply frame } (some frame) := by
  cases hv : lastNumber kServerReplayCacheSize (replyOptionList frame) with
  | none =>
    -- The reply carries no replay cache, so there is none from before.
    have hnot : (replyOptions frame).supportsReplayCache = false := by simp [replyOptions, hv]
    have hs : s.supportsReplayCache = false := by simpa [RepliesForItself, hnot] using hok
    have hopts : s.toSessionOptions.afterReply frame = replyOptions frame := by
      simp [SessionOptions.afterReply, replyOptions, hs, h.no_cache hs, h.attention]
    refine ⟨h.attention, fun _ => ?_, fun _ hf => Option.some.inj hf ▸ hopts⟩
    simp [SessionOptions.afterReply, hv, h.no_cache hs]
  | some v =>
    have hopts : s.toSessionOptions.afterReply frame = replyOptions frame := by
      simp [SessionOptions.afterReply, replyOptions, hv, h.attention]
    refine ⟨h.attention, fun hno => ?_, fun _ hf => Option.some.inj hf ▸ hopts⟩
    simp [SessionOptions.afterReply, replyOptions, hv] at hno

/-- Every event is possible, and keeps the options in use those of the last reply. -/
theorem Settled.step (h : Settled s last) (e : SessionEvent)
    (hok : RepliesForItself s e) : ∃ t, s.step e = some t ∧ Settled t (lastReply last e) := by
  cases e with
  | connect => exact ⟨_, rfl, h.of_options s.connect_options⟩
  | request => exact ⟨_, rfl, h.of_options rfl⟩
  | reply frame left =>
    refine ⟨_, ?_, h.afterReply hok⟩
    rw [SessionState.step, opensessionReply_eq]
    rfl

theorem Settled.run (h : Settled s last) {es : List SessionEvent}
    (hok : OkRun SessionState.step RepliesForItself s es) :
    ∃ t, runSteps SessionState.step s es = some t ∧ Settled t (es.foldl lastReply last) := by
  induction es generalizing s last with
  | nil => exact ⟨s, rfl, h⟩
  | cons e es ih =>
    obtain ⟨t, ht, hset⟩ := h.step e hok.1
    obtain ⟨u, hu, hrun⟩ := ih hset (hok.2 t ht)
    exact ⟨u, runSteps_cons.2 ⟨t, ht, hu⟩, hrun⟩

theorem settled_init : Settled .init none where
  attention := rfl
  no_cache _ := rfl
  options _ h := nomatch h

/-- In every run in which each reply carries a replay cache or follows sessions without one, no
reply is read outside its frame, and the options in use are those of the last reply. -/
theorem options_of_last_reply (es : List SessionEvent)
    (hok : OkRun SessionState.step RepliesForItself .init es) :
    ∃ s, runSteps SessionState.step .init es = some s ∧
      ∀ frame, es.foldl lastReply none = some frame →
        s.toSessionOptions = replyOptions frame ∧ 1 ≤ s.quantum ∧ s.quantum ≤ DSI_MAX_QUANTUM := by
  obtain ⟨s, hs, hset⟩ := settled_init.run hok
  refine ⟨s, hs, fun frame hf => ?_⟩
  have ho := hset.options frame hf
  have hq : s.quantum = (replyOptions frame).quantum := congrArg quantum ho
  rw [hq]
  exact ⟨ho, usableQuantum_bounds _⟩

/-- A reply with a quantum of 65536 and the options that follow. -/
def quantumReply (more : Bytes) : Bytes :=
  List.replicate dsiHeaderSize 0 ++ [0, 4, 0, 1, 0, 0] ++ more

/-- A server without a replay cache, and then one with an unknown option and a cache of 128. -/
def newCache : List SessionEvent :=
  [.connect, .request, .reply (quantumReply []) [2, 4, 0, 0, 0, 9], .connect, .request,
    .reply (quantumReply [7, 1, 3, 2, 4, 0, 0, 0, 128]) []]

theorem options_of_last_reply_new_cache :
    OkRun SessionState.step RepliesForItself .init newCache ∧
    ∃ s, runSteps SessionState.step .init newCache = some s ∧
      s.toSessionOptions = ⟨65536, 1024, 128, true⟩ := by
  have hok : OkRun SessionState.step RepliesForItself .init newCache := by decide +kernel
  obtain ⟨s, hs, h⟩ := options_of_last_reply _ hok
  exact ⟨hok, s, hs, (h _ rfl).1.trans (by decide +kernel)⟩

/-- The same reply, as the first one and after a session that had a replay cache: the client keeps
the earlier server's cache, and begins the session's request numbers where that one stopped. -/
theorem replay_cache_kept_from_before :
    runSteps SessionState.step .init [.connect, .request, .reply (quantumReply []) []]
      = some ⟨⟨65536, 1024, 0, false⟩, 1, 1⟩ ∧
    runSteps SessionState.step .init
      [.connect, .request, .reply (quantumReply [2, 4, 0, 0, 0, 128]) [],
        .connect, .request, .reply (quantumReply []) []]
      = some ⟨⟨65536, 1024, 128, true⟩, 2, 2⟩ := by
  decide +kernel

end NC
