import NetatalkClient.Model.Dsi.Frames

/-!
# The pieces of the stream do not matter

However the reads cut the stream, the receiver comes to what `serveAll` says of
its frames. `Mid s f` has the states that the receiver can be in within the
frame `f` that it began in the state `s`: with a part of the header, with a part
of the payload in the receive buffer, and with a part of it in the reader's
buffer; `Drops` has those in which the rest of a frame is dropped. Each call
stays within the frame or ends it as `serveFrame` does (`mid_step`,
`drops_step`).
-/

namespace NC

open List DsiRequest

namespace Receiver

variable {cfg : RxConfig} {s : Receiver}

/-! ## Reads -/

theorem skip_skip (s : Receiver) (a b : Nat) : (s.skip a).skip b = s.skip (a + b) := by
  simp [skip, Nat.add_assoc]

variable {s' : Receiver} {h : Bytes} {r : DsiRequest}

theorem read_eq_some {want n : Nat} {b : Bytes} :
    s.read want n = some (b, s') ↔
      (0 < n ∧ n ≤ want ∧ n ≤ s.input.length) ∧ b = s.input.take n ∧ s' = s.skip n := by
  unfold read
  split
  · next h => simp [h, skip, eq_comm]
  · next h => simp [h]

/-- No part of a frame is held or waited for. -/
structure Idle (s : Receiver) : Prop where
  buffer : s.buffer = []
  streamRead : s.streamRead = 0
  discardRemaining : s.discardRemaining = 0

/-- The loop has no more to call for. -/
def Finished (s : Receiver) : Prop := s.status ≠ .running ∨ s.input = []

theorem step_eq_some {n : Nat} : s.step cfg n = some s' ↔
    ¬s.Finished ∧ ∃ runts, s.recvFrame cfg n = some (s', runts) := by
  unfold step Finished
  split
  · next h => simp [h]
  · next h =>
    simp only [reduceCtorEq, false_iff, not_and]
    exact fun h' => absurd (by simpa using h') h

/-- The buffers of the reads that wait are empty, as their callers make them. -/
def Fresh (queue : List DsiRequest) : Prop :=
  ∀ r ∈ queue, r.doneWaiting = false → ∀ buf, r.buffer = some buf → buf.data = []

/-! ## Requests -/

theorem waitsFor_store (id : Nat) (b : Bytes) (r : DsiRequest) :
    (r.store b).waitsFor id = r.waitsFor id := rfl

theorem store_store (r : DsiRequest) (a b : Bytes) : (r.store a).store b = r.store (a ++ b) := by
  simp [store, Function.comp_def]

theorem store_nil (r : DsiRequest) : r.store [] = r := by
  cases r with
  | mk id sc gen ign dn rc buf => cases buf <;> simp [store]

theorem requestFor_eq_some {queue : List DsiRequest} (hr : requestFor cfg queue h = some r) :
    queue.find? (·.waitsFor r.requestid) = some r ∧ r ∈ queue ∧ r.doneWaiting = false ∧
      r.requestid = dsiRequestid h := by
  obtain ⟨hf, -⟩ := Option.filter_eq_some_iff.1 hr
  split at hf
  · have hw := find?_some hf
    simp only [waitsFor, Bool.and_eq_true, Bool.not_eq_true', decide_eq_true_eq] at hw
    exact ⟨by rwa [hw.2], mem_of_find?_eq_some hf, hw.1.2, hw.2⟩
  · cases hf

theorem requestFor_store {queue : List DsiRequest} (b : Bytes)
    (hr : requestFor cfg queue h = some r) :
    requestFor cfg (updateFirst (·.waitsFor r.requestid) (·.store b) queue) h =
      some (r.store b) := by
  obtain ⟨hf, -, -, hid⟩ := requestFor_eq_some hr
  unfold requestFor at hr ⊢
  split at hr
  · next hrep =>
    rw [if_pos hrep, ← hid, find?_updateFirst (waitsFor_store _ b), hf]
    exact Option.filter_eq_some_iff.2 ⟨rfl, (Option.filter_eq_some_iff.1 hr).2⟩
  · cases hr

/-! ## Within a frame -/

/-- The receiver is about to read the frame `f`. -/
structure Begins (s : Receiver) (f : Frame) (rest : Bytes) : Prop where
  idle : s.Idle
  running : s.status = .running
  fresh : Fresh s.queue
  input : s.input = f.bytes ++ rest

section Frame

variable {f : Frame} {rest : Bytes} {n : Nat}

theorem header_take (f : Frame) : f.header.take dsiHeaderSize = f.header :=
  take_of_length_le (Nat.le_of_eq f.header_length)

theorem header_append_take (f : Frame) (b : Bytes) :
    (f.header ++ b).take dsiHeaderSize = f.header := take_left' f.header_length

theorem length_bytes (f : Frame) : f.bytes.length = dsiHeaderSize + f.payload.length := by
  rw [Frame.bytes, length_append, f.header_length]

theorem Begins.input_header (h : Begins s f rest) {k : Nat} (hk : k ≤ dsiHeaderSize) :
    (s.skip k).input = f.header.drop k ++ (f.payload ++ rest) := by
  rw [skip, h.input, Frame.bytes, append_assoc,
    drop_append_of_le_length (by rw [f.header_length]; exact hk)]

variable {j runts : Nat} {m m' t : Receiver} {result : Int}

theorem Begins.input_payload (h : Begins s f rest) (hj : j ≤ f.payload.length) :
    (s.skip (dsiHeaderSize + j)).input = f.payload.drop j ++ rest := by
  rw [skip, h.input, Frame.bytes, append_assoc, ← drop_drop, drop_left' f.header_length,
    drop_append_of_le_length hj]

theorem Begins.take_header (h : Begins s f rest) {k : Nat} (hk : k + n ≤ dsiHeaderSize) :
    f.header.take k ++ (s.skip k).input.take n = f.header.take (k + n) := by
  rw [h.input_header (by omega), take_append_of_le_length, ← take_add]
  rw [length_drop, f.header_length]
  omega

theorem Begins.take_payload (h : Begins s f rest) (hj : j + n ≤ f.payload.length) :
    f.payload.take j ++ (s.skip (dsiHeaderSize + j)).input.take n = f.payload.take (j + n) := by
  rw [h.input_payload (by omega), take_append_of_le_length, ← take_add]
  rw [length_drop]
  omega

theorem Begins.length_skip_lt (h : Begins s f rest) (hn : 0 < n) (hj : j + n ≤ f.payload.length) :
    (s.skip (dsiHeaderSize + (j + n))).input.length < (s.skip (dsiHeaderSize + j)).input.length := by
  rw [h.input_payload hj, h.input_payload (by omega)]
  simp only [length_append, length_drop]
  omega

theorem gotEnough_cases (h : m.gotEnough cfg n = some (m', runts))
    (hm : m.buffer.take dsiHeaderSize = f.header) :
    (∃ r, requestFor cfg m.queue f.header = some r ∧ r.isRead = true ∧
      m.readReply cfg r (dsiCode f.header) n = some m') ∨
    ((requestFor cfg m.queue f.header).filter (·.isRead) = none ∧
      m.otherFrame cfg (requestFor cfg m.queue f.header)
        (isRunt f.header (requestFor cfg m.queue f.header))
        (if requestFor cfg m.queue f.header = none then 0 else dsiCode f.header) n = some m') := by
  unfold gotEnough at h
  rw [hm] at h
  have hok : ¬((dsiFlags f.header ≠ DSI_REQUEST ∧ dsiFlags f.header ≠ DSI_REPLY) ∨
      (!dsiCommandIsDefined (dsiCommand f.header)) = true) := by
    rw [f.command_defined]
    rintro (⟨h₁, h₂⟩ | h)
    · exact f.flags_defined.elim h₁ h₂
    · cases h
  rw [if_neg hok] at h
  dsimp only at h
  split at h
  · next r hr =>
    obtain ⟨m₁, hm₁, e⟩ := Option.map_eq_some_iff.1 h
    cases e
    obtain ⟨hr, hread⟩ := Option.filter_eq_some_iff.1 hr
    rw [hr, if_neg nofun] at hm₁
    exact .inl ⟨r, hr, hread, hm₁⟩
  · next hr =>
    obtain ⟨m₁, hm₁, e⟩ := Option.map_eq_some_iff.1 h
    cases e
    exact .inr ⟨hr, hm₁⟩

/-- The next `n` bytes are stored in the read's buffer. -/
def streamed (m : Receiver) (r : DsiRequest) (n : Nat) : Receiver :=
  { m.skip n with
    queue := updateFirst (·.waitsFor r.requestid) (·.store (m.input.take n)) m.queue
    streamRead := m.streamRead + n }

/-- What `readReply` can do once the header of `f` is there: answer an empty
reply, fail, or store some of the payload. -/
theorem readReply_cases (h : m.readReply cfg r result n = some m') (hm : m.buffer = f.header) :
    (f.payload = [] ∧ m' = { m with buffer := [] }.signal (some r) result) ∨
    (f.payload ≠ [] ∧ m' = m.fail ∧ ∀ buf, r.buffer = some buf →
      buf.data.length < f.payload.length → buf.maxsize < f.payload.length) ∨
    (∃ buf, r.buffer = some buf ∧ f.payload.length ≤ buf.maxsize ∧
      (0 < n ∧ buf.data.length + n ≤ f.payload.length) ∧
      m' = if buf.data.length + n < f.payload.length then m.streamed r n
        else { m.streamed r n with streamRead := 0, buffer := [] }.signal (some r) result) := by
  have hlen : m.buffer.length = dsiHeaderSize := by rw [hm, f.header_length]
  have htake : m.buffer.take dsiHeaderSize = f.header := by rw [hm, header_take]
  unfold readReply at h
  rw [htake] at h
  dsimp only at h
  rw [f.length_eq] at h
  split at h
  · next h0 =>
    cases h
    exact .inl ⟨eq_nil_of_length_eq_zero h0.2, rfl⟩
  next h0 =>
    have hne : f.payload ≠ [] := fun e => h0 ⟨hlen, by rw [e]; rfl⟩
    split at h
    · next hb =>
      cases h
      refine .inr (.inl ⟨hne, rfl, fun buf hbuf => ?_⟩)
      rw [hb] at hbuf
      cases hbuf
    next buf hb =>
      by_cases hok : buf.data.length < f.payload.length ∧ f.payload.length ≤ buf.maxsize
      · rw [if_neg (by omega), if_neg (by omega), if_neg (by omega)] at h
        obtain ⟨⟨b, m₁⟩, hread, rfl⟩ := Option.map_eq_some_iff.1 h
        obtain ⟨⟨hn0, hnw, hni⟩, rfl, rfl⟩ := read_eq_some.1 hread
        refine .inr (.inr ⟨buf, hb, by omega, ⟨hn0, by omega⟩, ?_⟩)
        have hcopy : (m.skip n).buffer.length - dsiHeaderSize = 0 := by
          show m.buffer.length - dsiHeaderSize = 0
          omega
        by_cases hend : f.payload.length = buf.data.length + n
        · rw [if_neg (not_not.2 hend), if_pos hcopy, if_neg (by omega)]
          rfl
        · rw [if_pos hend, if_pos (by omega)]
          rfl
      · refine .inr (.inl ⟨hne, ?_, fun buf' hbuf' hlt => ?_⟩)
        · split_ifs at h <;> first | exact (Option.some.inj h).symm | omega
        · rw [hb] at hbuf'
          cases hbuf'
          omega

/-- What `otherFrame` can do with `j` bytes of the payload of `f` there, none of
them streamed: finish an empty frame, fail, begin to drop the payload, or read
more of it. -/
theorem otherFrame_cases {request : Option DsiRequest} {runt : Bool}
    (h : m.otherFrame cfg request runt result n = some m')
    (hm : m.buffer = f.header ++ f.payload.take j)
    (hj : j < f.payload.length ∨ f.payload = []) (hs : m.streamRead = 0) :
    (f.payload = [] ∧ m' = m.finishPacket cfg f.header request runt (!runt) result) ∨
    (f.payload ≠ [] ∧ cfg.bufsize - dsiHeaderSize < f.payload.length ∧
      m' = if m.quantum < f.payload.length then m.fail
        else { m with discardRemaining := f.payload.length - j
                      buffer := [] }.signal request (-EIO_)) ∨
    (f.payload ≠ [] ∧ f.payload.length ≤ cfg.bufsize - dsiHeaderSize ∧
      (0 < n ∧ j + n ≤ f.payload.length) ∧
      m' = if j + n < f.payload.length then { m.skip n with buffer := m.buffer ++ m.input.take n }
        else { m.skip n with buffer := m.buffer ++ m.input.take n }.finishPacket cfg f.header
          request runt (!runt) result) := by
  have htake : m.buffer.take dsiHeaderSize = f.header := by rw [hm, header_append_take]
  have hlen : m.buffer.length = dsiHeaderSize + min j f.payload.length := by
    rw [hm, length_append, length_take, f.header_length]
  unfold otherFrame at h
  rw [htake] at h
  dsimp only at h
  rw [f.length_eq] at h
  split at h
  · next h0 =>
    cases h
    exact .inl ⟨eq_nil_of_length_eq_zero h0.2, rfl⟩
  next h0 =>
    have hne : f.payload ≠ [] := by
      intro e
      rw [e] at hlen h0
      exact h0 ⟨by rw [hlen]; simp, rfl⟩
    have hj : j < f.payload.length := hj.resolve_right hne
    have hread : m.buffer.length - dsiHeaderSize = j := by omega
    rw [if_neg (by omega), hread] at h
    split at h
    · next hbig =>
      refine .inr (.inl ⟨hne, hbig, ?_⟩)
      split at h <;> cases h
      · next hq => rw [if_pos hq]
      · next hq => rw [if_neg hq]
    next hfit =>
      rw [if_neg (by omega), if_neg (by omega)] at h
      obtain ⟨⟨b, m₁⟩, hrd, rfl⟩ := Option.map_eq_some_iff.1 h
      obtain ⟨⟨hn0, hnw, hni⟩, rfl, rfl⟩ := read_eq_some.1 hrd
      refine .inr (.inr ⟨hne, by omega, ⟨hn0, by omega⟩, ?_⟩)
      have hbuf : ((m.skip n).buffer ++ m.input.take n).length = dsiHeaderSize + j + n := by
        rw [length_append, length_take]
        show m.buffer.length + _ = _
        omega
      rw [hbuf]
      by_cases hend : j + n < f.payload.length
      · rw [if_pos (by omega), if_pos hend]
        rfl
      · rw [if_neg (by omega), if_neg hend]
        rfl

/-! ## What `serveFrame` says in each case -/

theorem serveFrame_rejected (h : s.rejects cfg f.header f.payload.length = true) :
    s.serveFrame cfg f = { s.skip dsiHeaderSize with buffer := f.header }.fail := by
  simp [serveFrame, h]

theorem serveFrame_read (hr : requestFor cfg s.queue f.header = some r) (hread : r.isRead = true)
    (hroom : f.payload = [] ∨ r.hasRoom f.payload.length = true) :
    s.serveFrame cfg f =
      { s.skip f.bytes.length with
        queue := updateFirst (·.waitsFor r.requestid) (·.store f.payload) s.queue }.signal
        (some r) (dsiCode f.header) := by
  have hf : (requestFor cfg s.queue f.header).filter (·.isRead) = some r :=
    Option.filter_eq_some_iff.2 ⟨hr, hread⟩
  have hrej : s.rejects cfg f.header f.payload.length = false := by
    rw [rejects, hf]
    rcases hroom with e | e <;> simp [e]
  unfold serveFrame
  dsimp only
  rw [hrej, hf, hr]
  rfl

theorem serveFrame_dropped (hr : (requestFor cfg s.queue f.header).filter (·.isRead) = none)
    (hbig : cfg.bufsize - dsiHeaderSize < f.payload.length) (hq : ¬s.quantum < f.payload.length) :
    s.serveFrame cfg f =
      (s.skip f.bytes.length).signal (requestFor cfg s.queue f.header) (-EIO_) := by
  have hrej : s.rejects cfg f.header f.payload.length = false := by
    rw [rejects, hr]
    simp [hq]
  simp [serveFrame, hrej, hr, hbig]

theorem serveFrame_packet (hr : (requestFor cfg s.queue f.header).filter (·.isRead) = none)
    (hfit : f.payload.length ≤ cfg.bufsize - dsiHeaderSize) :
    s.serveFrame cfg f =
      { s.skip f.bytes.length with buffer := f.bytes }.finishPacket cfg f.header
        (requestFor cfg s.queue f.header) (isRunt f.header (requestFor cfg s.queue f.header))
        (!isRunt f.header (requestFor cfg s.queue f.header))
        (if requestFor cfg s.queue f.header = none then 0 else dsiCode f.header) := by
  have hrej : s.rejects cfg f.header f.payload.length = false := by
    rw [rejects, hr]
    simp [Nat.not_lt.2 hfit]
  simp [serveFrame, hrej, hr, Nat.not_lt.2 hfit]

/-! ## One call within a frame -/

/-- With `k` bytes of the header. -/
def atHeader (s : Receiver) (f : Frame) (k : Nat) : Receiver :=
  { s.skip k with buffer := f.header.take k }

/-- With `j` bytes of the payload streamed to the read `r`. -/
def atStream (s : Receiver) (f : Frame) (r : DsiRequest) (j : Nat) : Receiver :=
  { s.skip (dsiHeaderSize + j) with
    buffer := f.header
    streamRead := j
    queue := updateFirst (·.waitsFor r.requestid) (·.store (f.payload.take j)) s.queue }

/-- With `j` bytes of the payload in the receive buffer. -/
def atBuffer (s : Receiver) (f : Frame) (j : Nat) : Receiver :=
  { s.skip (dsiHeaderSize + j) with buffer := f.header ++ f.payload.take j }

/-- The states within the frame `f` that was begun in `s`. -/
inductive Mid (cfg : RxConfig) (s : Receiver) (f : Frame) : Receiver → Prop where
  | header {k : Nat} (hk : k ≤ dsiHeaderSize) (hp : k = dsiHeaderSize → f.payload ≠ []) :
      Mid cfg s f (atHeader s f k)
  | stream {r : DsiRequest} {j : Nat} (hr : requestFor cfg s.queue f.header = some r)
      (hread : r.isRead = true) (hroom : r.hasRoom f.payload.length = true)
      (hj : j < f.payload.length) : Mid cfg s f (atStream s f r j)
  | buffer {j : Nat} (hr : (requestFor cfg s.queue f.header).filter (·.isRead) = none)
      (hfit : f.payload.length ≤ cfg.bufsize - dsiHeaderSize) (hj : j < f.payload.length) :
      Mid cfg s f (atBuffer s f j)

theorem Mid.congr (hm : Mid cfg s f m) (e : m' = m) : Mid cfg s f m' := e ▸ hm

/-- The rest of a frame is being dropped, and then the state is `t`. -/
def Drops (t m : Receiver) : Prop :=
  m.status = .running ∧ 0 < m.discardRemaining ∧ m.discardRemaining ≤ m.input.length ∧
    t = { m.skip m.discardRemaining with discardRemaining := 0 }

theorem Drops.congr (hm : Drops t m) (e : m' = m) : Drops t m' := e ▸ hm

theorem drops_step (hm : Drops t m) (h : m.step cfg n = some m') :
    (Drops t m' ∧ m'.input.length < m.input.length) ∨ m' = t := by
  obtain ⟨hrun, h0, hle, rfl⟩ := hm
  obtain ⟨-, runts, h⟩ := step_eq_some.1 h
  unfold recvFrame at h
  rw [if_pos h0] at h
  obtain ⟨⟨b, m₁⟩, hr, e⟩ := Option.map_eq_some_iff.1 h
  cases e
  obtain ⟨⟨hn0, hnw, hni⟩, rfl, rfl⟩ := read_eq_some.1 hr
  by_cases hend : n = m.discardRemaining
  · subst hend
    refine .inr ?_
    show { m.skip m.discardRemaining with discardRemaining := m.discardRemaining - m.discardRemaining } = _
    rw [Nat.sub_self]
  · refine .inl ⟨⟨hrun, ?_, ?_, ?_⟩, ?_⟩
    · show 0 < m.discardRemaining - n
      omega
    · show m.discardRemaining - n ≤ (m.input.drop n).length
      rw [length_drop]
      omega
    · have hsum : n + (m.discardRemaining - n) = m.discardRemaining := by omega
      show _ = { (m.skip n).skip (m.discardRemaining - n) with discardRemaining := 0 }
      rw [skip_skip, hsum]
    · show (m.input.drop n).length < m.input.length
      rw [length_drop]
      omega

/-- From `m` to `m'`: the frame has gone on, begins to be dropped, or is served. -/
def Reaches (cfg : RxConfig) (s : Receiver) (f : Frame) (m m' : Receiver) : Prop :=
  (Mid cfg s f m' ∧ m'.input.length < m.input.length) ∨
    (Drops (s.serveFrame cfg f) m' ∧ m'.input.length ≤ m.input.length) ∨
    m' = s.serveFrame cfg f

theorem atHeader_whole (s : Receiver) (f : Frame) :
    atHeader s f dsiHeaderSize = { s.skip dsiHeaderSize with buffer := f.header } := by
  rw [atHeader, header_take]

theorem length_atHeader {k : Nat} (hk : k ≤ dsiHeaderSize) : (atHeader s f k).buffer.length = k := by
  simp [atHeader, f.header_length, hk]

theorem gotEnough_empty (hs : Begins s f rest) (hp : f.payload = [])
    (h : (atHeader s f dsiHeaderSize).gotEnough cfg n = some (m', runts)) :
    m' = s.serveFrame cfg f := by
  rw [atHeader_whole] at h
  have hlen : f.bytes.length = dsiHeaderSize := by rw [length_bytes, hp]; rfl
  have hbytes : f.bytes = f.header := by rw [Frame.bytes, hp, append_nil]
  rcases gotEnough_cases h (header_take f) with ⟨r, hr, hread, h⟩ | ⟨hr, h⟩
  · have hr : requestFor cfg s.queue f.header = some r := hr
    rcases readReply_cases h rfl with ⟨-, rfl⟩ | ⟨hne, -⟩ | ⟨buf, -, -, hn, -⟩
    · have hempty : ({ s.skip dsiHeaderSize with buffer := [] } : Receiver) =
          s.skip dsiHeaderSize := by
        rw [← hs.idle.buffer]
        rfl
      rw [serveFrame_read hr hread (.inl hp), hp, hlen, updateFirst_id store_nil]
      exact congrArg (signal · (some r) (dsiCode f.header)) hempty
    · exact absurd hp hne
    · rw [hp, length_nil] at hn
      omega
  · have hr : (requestFor cfg s.queue f.header).filter (·.isRead) = none := hr
    have hbuf : f.header = f.header ++ f.payload.take 0 := by rw [take_zero, append_nil]
    rcases otherFrame_cases h hbuf (.inr hp) hs.idle.streamRead with ⟨-, rfl⟩ | ⟨hne, -⟩ | ⟨hne, -⟩
    · rw [serveFrame_packet hr (by rw [hp]; exact Nat.zero_le _), hlen, hbytes]
      rfl
    · exact absurd hp hne
    · exact absurd hp hne

theorem atHeader_eq_atBuffer (s : Receiver) (f : Frame) :
    atHeader s f dsiHeaderSize = atBuffer s f 0 := by
  rw [atHeader_whole, atBuffer, take_zero, append_nil, Nat.add_zero]

theorem atHeader_eq_atStream (hs : Begins s f rest) (r : DsiRequest) :
    atHeader s f dsiHeaderSize = atStream s f r 0 := by
  rw [atHeader_whole, atStream, take_zero, Nat.add_zero, updateFirst_id store_nil,
    ← hs.idle.streamRead]
  rfl

/-- A read within the payload leads to the next state of that kind. -/
theorem Begins.atStream_streamed (h : Begins s f rest) (r : DsiRequest)
    (hj : j + n ≤ f.payload.length) : (atStream s f r j).streamed r n = atStream s f r (j + n) := by
  have htake := h.take_payload hj
  simp only [skip] at htake
  simp [atStream, streamed, skip, Nat.add_assoc,
    updateFirst_updateFirst (waitsFor_store _ _), store_store, htake]

theorem atStream_step (hs : Begins s f rest) (hr : requestFor cfg s.queue f.header = some r)
    (hread : r.isRead = true) (hj : j < f.payload.length)
    (hroom : r.hasRoom f.payload.length = true ∨ j = 0)
    (h : (atStream s f r j).gotEnough cfg n = some (m', runts)) :
    Reaches cfg s f (atStream s f r j) m' := by
  obtain ⟨-, hmem, hwait, -⟩ := requestFor_eq_some hr
  have hr' := requestFor_store (f.payload.take j) hr
  rcases gotEnough_cases h (header_take f) with ⟨r', hr'', -, h⟩ | ⟨hno, -⟩
  · obtain rfl : r.store (f.payload.take j) = r' := Option.some.inj (hr'.symm.trans hr'')
    have hne : f.payload ≠ [] := fun e => by rw [e] at hj; exact absurd hj (Nat.not_lt_zero j)
    -- the buffer has been filled by this reply alone
    have hdata : ∀ buf, (r.store (f.payload.take j)).buffer = some buf →
        ∃ buf₀, r.buffer = some buf₀ ∧ buf₀.maxsize = buf.maxsize ∧ buf.data.length = j := by
      intro buf hbuf
      obtain ⟨buf₀, hbuf₀, rfl⟩ := Option.map_eq_some_iff.1 hbuf
      refine ⟨buf₀, hbuf₀, rfl, ?_⟩
      show (buf₀.data ++ f.payload.take j).length = j
      rw [hs.fresh r hmem hwait buf₀ hbuf₀, nil_append, length_take]
      omega
    rcases readReply_cases h rfl with ⟨hnil, -⟩ | ⟨-, rfl, hbad⟩ | ⟨buf, hbuf, hmax, hn, rfl⟩
    · exact absurd hnil hne
    · have hnoroom : r.hasRoom f.payload.length = false := by
        unfold hasRoom
        split
        · rfl
        · next buf₀ hbuf₀ =>
          have hstored : (r.store (f.payload.take j)).buffer =
              some { buf₀ with data := buf₀.data ++ f.payload.take j } := by
            rw [store, hbuf₀, Option.map_some]
          obtain ⟨-, -, -, e⟩ := hdata _ hstored
          have hlt := hbad _ hstored (by rw [e]; exact hj)
          exact decide_eq_false (Nat.not_le.2 hlt)
      have hj0 : j = 0 := hroom.resolve_left (by rw [hnoroom]; exact Bool.false_ne_true)
      subst hj0
      refine .inr (.inr ?_)
      rw [serveFrame_rejected, ← atHeader_eq_atStream hs r, atHeader_whole]
      · unfold rejects
        rw [Option.filter_eq_some_iff.2 ⟨hr, hread⟩]
        simp [hnoroom, hj]
    · obtain ⟨buf₀, hbuf₀, hmax₀, hlen⟩ := hdata buf hbuf
      rw [hlen] at hn ⊢
      have hroom : r.hasRoom f.payload.length = true := by
        unfold hasRoom
        rw [hbuf₀]
        exact decide_eq_true (hmax₀ ▸ hmax)
      rw [show (atStream s f r j).streamed (r.store (f.payload.take j)) n = _ from
        hs.atStream_streamed r hn.2]
      split
      · next hlt =>
        exact .inl ⟨.stream hr hread hroom hlt, hs.length_skip_lt hn.1 hn.2⟩
      · next hge =>
        refine .inr (.inr ?_)
        rw [serveFrame_read hr hread (.inr hroom), show j + n = f.payload.length by omega, atStream,
          take_length, ← length_bytes]
        refine congrArg (signal · (some r) _) ?_
        exact Receiver.ext rfl rfl rfl rfl rfl hs.idle.buffer.symm hs.idle.streamRead.symm rfl rfl rfl
          rfl rfl
  · rw [show requestFor cfg (atStream s f r j).queue f.header = _ from hr'] at hno
    simp [show (r.store (f.payload.take j)).isRead = true from hread] at hno

theorem fresh_updateFirst {queue : List DsiRequest} {P : DsiRequest → Bool}
    {g : DsiRequest → DsiRequest} (h : Fresh queue) (hg : ∀ r, (g r).doneWaiting = true) :
    Fresh (updateFirst P g queue) := by
  intro r hr hd buf hbuf
  rcases mem_updateFirst hr with hr | ⟨r₀, -, -, rfl⟩
  · exact h r hr hd buf hbuf
  · rw [hg] at hd
    cases hd

/-- A signal changes the queue and the log, in a way that depends on these only. -/
theorem signal_eq (s : Receiver) (request : Option DsiRequest) (result : Int) :
    ∃ queue log, (Fresh s.queue → Fresh queue) ∧ ∀ t : Receiver, t.queue = s.queue → t.log = s.log →
      t.signal request result = { t with queue := queue, log := log } := by
  unfold signal
  cases hr : request.bind fun r => s.queue.find? (·.waitsFor r.requestid) with
  | none =>
    refine ⟨s.queue, s.log, id, fun t hq hl => ?_⟩
    simp only [hq, hr, ← hl]
    rw [← hq]
  | some r =>
    refine ⟨updateFirst (·.waitsFor r.requestid) (·.finish result) s.queue,
      s.log ++ [.signal (r.finish result)], fun h => fresh_updateFirst h fun _ => rfl, fun t hq hl => ?_⟩
    simp [hq, hl, hr]

theorem Begins.atBuffer_skip (h : Begins s f rest) (hj : j + n ≤ f.payload.length) :
    ({ (atBuffer s f j).skip n with buffer :=
      (atBuffer s f j).buffer ++ (atBuffer s f j).input.take n } : Receiver) = atBuffer s f (j + n) := by
  have htake := h.take_payload hj
  simp only [skip] at htake
  simp [atBuffer, skip, Nat.add_assoc, htake]

theorem atBuffer_step (hs : Begins s f rest)
    (hr : (requestFor cfg s.queue f.header).filter (·.isRead) = none) (hj : j < f.payload.length)
    (hfit : f.payload.length ≤ cfg.bufsize - dsiHeaderSize ∨ j = 0)
    (h : (atBuffer s f j).gotEnough cfg n = some (m', runts)) :
    Reaches cfg s f (atBuffer s f j) m' := by
  rcases gotEnough_cases h (header_append_take f _) with ⟨r, hr', hread, -⟩ | ⟨-, h⟩
  · have hr' : requestFor cfg s.queue f.header = some r := hr'
    rw [Option.filter_eq_some_iff.2 ⟨hr', hread⟩] at hr
    cases hr
  rcases otherFrame_cases h rfl (.inl hj) hs.idle.streamRead with
    ⟨hnil, -⟩ | ⟨-, hbig, rfl⟩ | ⟨-, hfit, hn, rfl⟩
  · rw [hnil] at hj
    exact absurd hj (Nat.not_lt_zero j)
  · obtain rfl : j = 0 := hfit.resolve_left (by omega)
    rw [← atHeader_eq_atBuffer]
    split
    · next hq =>
      have hq : s.quantum < f.payload.length := hq
      refine .inr (.inr ?_)
      rw [serveFrame_rejected, atHeader_whole]
      · unfold rejects
        rw [hr]
        simp [hbig, hq]
    · next hq =>
      obtain ⟨queue, log, -, hsig⟩ := signal_eq s (requestFor cfg s.queue f.header) (-EIO_)
      refine .inr (.inl ?_)
      rw [serveFrame_dropped hr hbig hq, hsig (s.skip f.bytes.length) rfl rfl]
      have hm' := hsig { atHeader s f dsiHeaderSize with
        discardRemaining := f.payload.length - 0, buffer := [] } rfl rfl
      refine ⟨Drops.congr ?_ hm', Nat.le_of_eq (congrArg (·.input.length) hm')⟩
      refine ⟨hs.running, hj, ?_, ?_⟩
      · show f.payload.length ≤ (s.skip dsiHeaderSize).input.length
        rw [← Nat.add_zero dsiHeaderSize, hs.input_payload (Nat.zero_le _), drop_zero,
          length_append]
        exact Nat.le_add_right _ _
      · have hskip : (s.skip dsiHeaderSize).skip f.payload.length = s.skip f.bytes.length := by
          rw [skip_skip, length_bytes]
        have hin := congrArg Receiver.input hskip
        have hrx := congrArg Receiver.rxBytes hskip
        exact Receiver.ext rfl rfl rfl rfl hin.symm hs.idle.buffer rfl hs.idle.discardRemaining rfl rfl
          hrx.symm rfl
  · rw [hs.atBuffer_skip hn.2]
    split
    · next hlt => exact .inl ⟨.buffer hr hfit hlt, hs.length_skip_lt hn.1 hn.2⟩
    · next hge =>
      refine .inr (.inr ?_)
      rw [serveFrame_packet hr hfit, show j + n = f.payload.length by omega, atBuffer,
        take_length, ← length_bytes]
      rfl

theorem atHeader_step (hs : Begins s f rest) {k : Nat} (hk : k < dsiHeaderSize)
    (h : (atHeader s f k).recvFrame cfg n = some (m', runts)) :
    Reaches cfg s f (atHeader s f k) m' := by
  have hd : ¬0 < (atHeader s f k).discardRemaining := by
    simp [atHeader, skip, hs.idle.discardRemaining]
  unfold recvFrame at h
  rw [if_neg hd, length_atHeader (Nat.le_of_lt hk), if_pos hk] at h
  obtain ⟨⟨b, m₁⟩, hread, h⟩ := Option.bind_eq_some_iff.1 h
  obtain ⟨⟨hn0, hnw, hni⟩, rfl, rfl⟩ := read_eq_some.1 hread
  have e : ({ (atHeader s f k).skip n with
      buffer := f.header.take k ++ (s.skip k).input.take n } : Receiver) = atHeader s f (k + n) := by
    rw [hs.take_header (by omega)]
    simp [atHeader, skip, Nat.add_assoc]
  have h : (if (atHeader s f (k + n)).buffer.length = dsiHeaderSize ∧
      dsiLength (atHeader s f (k + n)).buffer = 0 then (atHeader s f (k + n)).gotEnough cfg n
      else some (atHeader s f (k + n), 0)) = some (m', runts) := e ▸ h
  rw [length_atHeader (by omega)] at h
  split at h
  · next hend =>
    obtain ⟨hk', hzero⟩ := hend
    rw [hk', atHeader_whole, f.length_eq] at hzero
    rw [hk'] at h
    exact .inr (.inr (gotEnough_empty hs (eq_nil_of_length_eq_zero hzero) h))
  · next hend =>
    cases h
    refine .inl ⟨.header (by omega) fun hk' hp => hend ⟨hk', ?_⟩, ?_⟩
    · rw [hk', atHeader_whole, f.length_eq, hp]
      rfl
    · have hni : n ≤ (s.skip k).input.length := hni
      show (s.skip (k + n)).input.length < (s.skip k).input.length
      simp only [skip, length_drop] at hni ⊢
      omega

/-- **One call.** Within a frame, a call stays within it or ends it as `serveFrame`
says. -/
theorem mid_step (hs : Begins s f rest) (hm : Mid cfg s f m) (h : m.step cfg n = some m') :
    Reaches cfg s f m m' := by
  obtain ⟨-, runts, h⟩ := step_eq_some.1 h
  -- with the header complete, the call goes on from it
  have complete : ∀ m : Receiver, m.discardRemaining = s.discardRemaining →
      dsiHeaderSize ≤ m.buffer.length → m.recvFrame cfg n = m.gotEnough cfg n := by
    intro m hd hlen
    unfold recvFrame
    rw [if_neg (by rw [hd, hs.idle.discardRemaining]; exact Nat.lt_irrefl 0),
      if_neg (Nat.not_lt.2 hlen)]
  cases hm with
  | @header k hk hp =>
    rcases Nat.lt_or_eq_of_le hk with hlt | rfl
    · exact atHeader_step hs hlt h
    · have hne := hp rfl
      have hpos : 0 < f.payload.length := length_pos_of_ne_nil hne
      rw [complete (atHeader s f dsiHeaderSize) rfl
        (Nat.le_of_eq (length_atHeader (Nat.le_refl _)).symm)] at h
      cases hr : (requestFor cfg s.queue f.header).filter (·.isRead) with
      | none =>
        rw [atHeader_eq_atBuffer] at h ⊢
        exact atBuffer_step hs hr hpos (.inr rfl) h
      | some r =>
        obtain ⟨hr, hread⟩ := Option.filter_eq_some_iff.1 hr
        rw [atHeader_eq_atStream hs r] at h ⊢
        exact atStream_step hs hr hread hpos (.inr rfl) h
  | @stream r j hr hread hroom hj =>
    rw [complete (atStream s f r j) rfl (Nat.le_of_eq f.header_length.symm)] at h
    exact atStream_step hs hr hread hj (.inl hroom) h
  | @buffer j hr hfit hj =>
    have hfull : dsiHeaderSize ≤ (atBuffer s f j).buffer.length := by
      simp [atBuffer, f.header_length]
    rw [complete (atBuffer s f j) rfl hfull] at h
    exact atBuffer_step hs hr hj (.inl hfit) h

end Frame

end Receiver

end NC
