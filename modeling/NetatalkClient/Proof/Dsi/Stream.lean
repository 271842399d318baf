import NetatalkClient.Proof.Dsi.Pieces

/-!
# The receiver serves the stream frame by frame

The calls of a run go through the states `On`: within a frame, with the rest of
one being dropped, or behind it. Every run can go on to the state that `serveAll`
gives for the whole stream and ends nowhere else (`on_step`, `on_ends`,
`on_finished`), so how the reads cut the stream cannot be seen afterwards. Behind
the last frame no part of one is left, unless a call has returned -1
(`serveAll_idle`, `serveAll_failed_iff`).
-/

namespace NC

open List

namespace Receiver

variable {cfg : RxConfig} {s : Receiver}

section Frame

variable {f : Frame} {rest : Bytes}

/-! ## Every frame comes to its end -/

theorem read_one {want : Nat} (hi : s.input ≠ []) (hw : 0 < want) :
    s.read want 1 = some (s.input.take 1, s.skip 1) :=
  read_eq_some.2 ⟨⟨Nat.one_pos, hw, length_pos_of_ne_nil hi⟩, rfl, rfl⟩

/-- With one byte to read, or nothing left to read of the frame, a call goes on. -/
theorem gotEnough_one (hi : s.input ≠ [] ∨
    (s.buffer.length = dsiHeaderSize ∧ dsiLength s.buffer = 0)) :
    ∃ x, s.gotEnough cfg 1 = some x := by
  have hzero : s.input = [] → s.buffer.length = dsiHeaderSize ∧
      dsiLength (s.buffer.take dsiHeaderSize) = 0 := by
    intro e
    obtain ⟨hl, hz⟩ := hi.resolve_left (not_not.2 e)
    rw [take_of_length_le (Nat.le_of_eq hl)]
    exact ⟨hl, hz⟩
  have hsome : ∀ {x : Option Receiver} {k : Nat}, (∃ y, x = some y) →
      ∃ z, x.map (·, k) = some z := by
    rintro x k ⟨y, rfl⟩
    exact ⟨_, rfl⟩
  unfold gotEnough
  dsimp only
  split
  · exact ⟨_, rfl⟩
  split
  · refine hsome ?_
    unfold readReply
    dsimp only
    split
    · exact ⟨_, rfl⟩
    next hne =>
      have hin : s.input ≠ [] := fun e => hne (hzero e)
      split
      · exact ⟨_, rfl⟩
      split
      · exact ⟨_, rfl⟩
      split
      · exact ⟨_, rfl⟩
      split
      · exact ⟨_, rfl⟩
      next hnz => exact ⟨_, by rw [read_one hin (Nat.pos_of_ne_zero hnz)]; rfl⟩
  · refine hsome ?_
    unfold otherFrame
    dsimp only
    split
    · exact ⟨_, rfl⟩
    next hne =>
      have hin : s.input ≠ [] := fun e => hne (hzero e)
      split
      · exact ⟨_, rfl⟩
      split
      · split <;> exact ⟨_, rfl⟩
      split
      · exact ⟨_, rfl⟩
      split
      · exact ⟨_, rfl⟩
      next hfit _ hnz =>
        have hlt := cfg.dsiHeaderSize_lt
        exact ⟨_, by rw [read_one hin (by omega)]; rfl⟩

theorem step_one (cfg : RxConfig) (h : ¬s.Finished) : ∃ s', s.step cfg 1 = some s' := by
  have hin : s.input ≠ [] := fun e => h (.inr e)
  have hsome : ∃ x, s.recvFrame cfg 1 = some x := by
    unfold recvFrame
    split
    · next hd =>
      have hlt := cfg.dsiHeaderSize_lt
      exact ⟨_, by rw [read_one hin (by omega)]; rfl⟩
    split
    · next hb =>
      rw [read_one hin (by omega), Option.bind_some]
      dsimp only
      split
      · next hz => exact gotEnough_one (.inr hz)
      · exact ⟨_, rfl⟩
    · exact gotEnough_one (.inl hin)
  obtain ⟨⟨s', runts⟩, e⟩ := hsome
  exact ⟨s', step_eq_some.2 ⟨h, runts, e⟩⟩

/-! ## After a frame -/

/-- `s'` is between frames where `s` is, if its buffer is empty. -/
structure Keeps (s s' : Receiver) : Prop where
  input : s'.input = s.input
  buffer : s'.buffer = s.buffer
  streamRead : s'.streamRead = s.streamRead
  discardRemaining : s'.discardRemaining = s.discardRemaining
  status : s.status ≠ .failed → s'.status ≠ .failed
  fresh : Fresh s.queue → Fresh s'.queue

theorem Keeps.refl (s : Receiver) : Keeps s s := ⟨rfl, rfl, rfl, rfl, id, id⟩

theorem Keeps.trans {s₁ s₂ s₃ : Receiver} (h : Keeps s₁ s₂) (h' : Keeps s₂ s₃) : Keeps s₁ s₃ :=
  ⟨h'.input.trans h.input, h'.buffer.trans h.buffer, h'.streamRead.trans h.streamRead,
    h'.discardRemaining.trans h.discardRemaining, h'.status ∘ h.status, h'.fresh ∘ h.fresh⟩

theorem keeps_signal (s : Receiver) (request : Option DsiRequest) (result : Int) :
    Keeps s (s.signal request result) := by
  obtain ⟨queue, log, hfresh, hsig⟩ := signal_eq s request result
  rw [hsig s rfl rfl]
  exact ⟨rfl, rfl, rfl, rfl, id, hfresh⟩

theorem keeps_closeSession (s : Receiver) : Keeps s s.closeSession := by
  refine ⟨rfl, rfl, rfl, rfl, fun _ => nofun, fun _ r hr hd => ?_⟩
  obtain ⟨r₀, -, rfl⟩ := mem_map.1 hr
  split at hd
  · next hd₀ =>
    rw [hd₀] at hd
    cases hd
  · cases hd

theorem keeps_processPacket (s : Receiver) (command : UInt8) (request : Option DsiRequest)
    (runt : Bool) (result : Int) : Keeps s (s.processPacket cfg command request runt result).1 := by
  have emits : ∀ (s : Receiver) (e : RxEvent), Keeps s (s.emit e) :=
    fun s e => ⟨rfl, rfl, rfl, rfl, id, id⟩
  unfold processPacket
  split_ifs
  · exact keeps_closeSession s
  · exact emits s _
  · have htake : Keeps s s.takeSession := by
      unfold takeSession
      split
      · exact ⟨rfl, rfl, rfl, rfl, id, id⟩
      · exact .refl s
    exact htake.trans (emits _ _)
  · exact emits s _
  · exact emits s _
  · split <;> exact .refl s
  · split
    · exact .refl s
    · exact emits s _

theorem keeps_finishPacket (hb : s.buffer = []) (hr : s.status = .running)
    (request : Option DsiRequest) (runt handle : Bool) (result : Int) :
    Keeps s ({ s with buffer := f.bytes }.finishPacket cfg f.header request runt handle result) := by
  unfold finishPacket
  have hkeep : Keeps { s with buffer := f.bytes }
      (if handle = true then
        processPacket cfg { s with buffer := f.bytes } (dsiCommand f.header) request runt result
      else ({ s with buffer := f.bytes }, result)).1 := by
    split
    · exact keeps_processPacket _ _ _ _ _
    · exact .refl _
  revert hkeep
  generalize (if handle = true then
    processPacket cfg { s with buffer := f.bytes } (dsiCommand f.header) request runt result
    else ({ s with buffer := f.bytes }, result)) = x
  obtain ⟨t, result'⟩ := x
  intro hkeep
  have hbuf : t.buffer = f.bytes := hkeep.buffer
  have hstat : t.status ≠ .failed :=
    hkeep.status (by show s.status ≠ _; rw [hr]; exact nofun)
  have hlen : t.buffer.length = dsiLength f.header + dsiHeaderSize := by
    rw [hbuf, length_bytes, f.length_eq, Nat.add_comm]
  have hafter : t.afterProcessing (dsiLength f.header) = { t with buffer := [] } := by
    unfold afterProcessing
    rw [if_neg (Nat.not_lt.2 (Nat.le_of_eq hlen.symm)), drop_of_length_le (Nat.le_of_eq hlen)]
  dsimp only
  rw [hafter, if_neg hstat]
  refine Keeps.trans ?_ (keeps_signal _ _ _)
  exact ⟨hkeep.input, hb.symm, hkeep.streamRead, hkeep.discardRemaining, fun _ => hstat,
    hkeep.fresh⟩

/-- Behind a frame that is not rejected, the receiver is ready for the next. -/
theorem serveFrame_ready (hs : Begins s f rest)
    (hrej : s.rejects cfg f.header f.payload.length = false) :
    (s.serveFrame cfg f).status ≠ .failed ∧ (s.serveFrame cfg f).Idle ∧
      (s.serveFrame cfg f).input = rest ∧ Fresh (s.serveFrame cfg f).queue := by
  have hrest : (s.skip f.bytes.length).input = rest := by
    rw [length_bytes, hs.input_payload (Nat.le_refl _), drop_of_length_le (Nat.le_refl _),
      nil_append]
  have ready : ∀ t, Keeps (s.skip f.bytes.length) t →
      t.status ≠ .failed ∧ t.Idle ∧ t.input = rest ∧ Fresh t.queue := by
    intro t ht
    refine ⟨ht.status (by show s.status ≠ _; rw [hs.running]; exact nofun), ?_,
      ht.input.trans hrest, ht.fresh hs.fresh⟩
    exact ⟨ht.buffer.trans hs.idle.buffer, ht.streamRead.trans hs.idle.streamRead,
      ht.discardRemaining.trans hs.idle.discardRemaining⟩
  cases hr : (requestFor cfg s.queue f.header).filter (·.isRead) with
  | none =>
    by_cases hfit : f.payload.length ≤ cfg.bufsize - dsiHeaderSize
    · rw [serveFrame_packet hr hfit]
      exact ready _ (keeps_finishPacket (s := s.skip f.bytes.length) hs.idle.buffer hs.running _ _ _ _)
    · have hq : ¬s.quantum < f.payload.length := by
        unfold rejects at hrej
        rw [hr] at hrej
        simp only [Bool.and_eq_false_imp, decide_eq_true_eq, decide_eq_false_iff_not] at hrej
        exact hrej (Nat.not_le.1 hfit)
      rw [serveFrame_dropped hr (Nat.not_le.1 hfit) hq]
      exact ready _ (keeps_signal _ _ _)
  | some r =>
    obtain ⟨hr', hread⟩ := Option.filter_eq_some_iff.1 hr
    have hroom : f.payload = [] ∨ r.hasRoom f.payload.length = true := by
      unfold rejects at hrej
      rw [hr] at hrej
      rcases f.payload.eq_nil_or_concat with e | ⟨l, b, e⟩
      · exact .inl e
      · simpa [e] using hrej
    rw [serveFrame_read hr' hread hroom]
    -- the stored bytes belong to a request that no longer waits
    have hsig := find?_updateFirst (waitsFor_store r.requestid f.payload) s.queue
    rw [(requestFor_eq_some hr').1, Option.map_some] at hsig
    have hqueue := updateFirst_updateFirst (g := fun r => r.finish (dsiCode f.header))
      (waitsFor_store r.requestid f.payload) s.queue
    refine ready _ ?_
    unfold signal
    simp only [Option.bind_some, hsig]
    refine ⟨rfl, rfl, rfl, rfl, id, fun hf => ?_⟩
    show Fresh (updateFirst _ _ (updateFirst _ _ s.queue))
    rw [show (r.store f.payload).requestid = r.requestid from rfl, hqueue]
    exact fresh_updateFirst hf fun _ => rfl

theorem mid_not_finished (hs : Begins s f rest) {m : Receiver} (hm : Mid cfg s f m) :
    ¬m.Finished := by
  have running : ∀ k, (s.skip k).input ≠ [] → ¬((s.skip k).status ≠ .running ∨ (s.skip k).input = []) :=
    fun k h h' => h'.elim (fun h'' => h'' hs.running) h
  have payload : ∀ j < f.payload.length, (s.skip (dsiHeaderSize + j)).input ≠ [] := by
    intro j hj e
    rw [hs.input_payload (Nat.le_of_lt hj), append_eq_nil_iff, drop_eq_nil_iff] at e
    omega
  cases hm with
  | @header k hk hp =>
    refine running k ?_
    rw [hs.input_header hk]
    intro e
    simp only [append_eq_nil_iff, drop_eq_nil_iff, f.header_length] at e
    exact hp (Nat.le_antisymm hk e.1) e.2.1
  | stream hr hread hroom hj | buffer hr hfit hj => exact running _ (payload _ hj)

theorem drops_not_finished {t m : Receiver} (hm : Drops t m) : ¬m.Finished := by
  rintro (h | h)
  · exact h hm.1
  · have hle := hm.2.2.1
    have hpos := hm.2.1
    rw [h, length_nil] at hle
    omega

end Frame

/-! ## Whole streams -/

/-- The receiver is between frames and has the frames `fs` before it. -/
structure Ready (s : Receiver) (fs : List Frame) : Prop where
  idle : s.Idle
  running : s.status = .running
  fresh : Fresh s.queue
  input : s.input = fs.flatMap Frame.bytes

section Stream

variable {f : Frame} {rest : Bytes} {fs : List Frame} {m m' : Receiver} {n : Nat}

theorem Ready.begins (hs : Ready s (f :: fs)) : Begins s f (fs.flatMap Frame.bytes) :=
  ⟨hs.idle, hs.running, hs.fresh, hs.input.trans flatMap_cons⟩

theorem rejects_of_failed (hs : Ready s (f :: fs)) (h : (s.serveFrame cfg f).status = .failed) :
    s.rejects cfg f.header f.payload.length = true := by
  by_contra hrej
  exact (serveFrame_ready hs.begins (Bool.eq_false_iff.2 hrej)).1 h

theorem serveFrame_next (hs : Ready s (f :: fs)) (h : (s.serveFrame cfg f).status = .running) :
    Ready (s.serveFrame cfg f) fs := by
  cases hrej : s.rejects cfg f.header f.payload.length with
  | true =>
    rw [serveFrame_rejected hrej] at h
    cases h
  | false =>
    obtain ⟨-, hidle, hin, hfresh⟩ := serveFrame_ready hs.begins hrej
    exact ⟨hidle, h, hfresh, hin⟩

/-- The states of the calls on the frames `fs`, begun in `s`. -/
def On (cfg : RxConfig) (s : Receiver) : List Frame → Receiver → Prop
  | [], m => m = s
  | f :: fs, m => Mid cfg s f m ∨ Drops (s.serveFrame cfg f) m ∨ m = s.serveFrame cfg f ∨
      (s.serveFrame cfg f).status = .running ∧ On cfg (s.serveFrame cfg f) fs m

theorem on_start (hs : Ready s fs) : On cfg s fs s := by
  cases fs with
  | nil => rfl
  | cons f fs =>
    refine .inl ((Mid.header (k := 0) (Nat.zero_le _) nofun).congr ?_)
    show s = { s.skip 0 with buffer := f.header.take 0 }
    rw [take_zero, ← hs.idle.buffer]
    rfl

/-- **A call** stays among the states of the stream. -/
theorem on_step (hs : Ready s fs) (hm : On cfg s fs m) (h : m.step cfg n = some m') :
    On cfg s fs m' := by
  induction fs generalizing s with
  | nil =>
    obtain rfl : m = s := hm
    exact absurd (.inr hs.input) (step_eq_some.1 h).1
  | cons f fs ih =>
    rcases hm with hm | hm | rfl | ⟨hrun, hm⟩
    · rcases mid_step hs.begins hm h with ⟨hm', -⟩ | ⟨hm', -⟩ | rfl
      · exact .inl hm'
      · exact .inr (.inl hm')
      · exact .inr (.inr (.inl rfl))
    · rcases drops_step hm h with ⟨hm', -⟩ | rfl
      · exact .inr (.inl hm')
      · exact .inr (.inr (.inl rfl))
    · have hrun : (s.serveFrame cfg f).status = .running := by
        by_contra hne
        exact (step_eq_some.1 h).1 (.inl hne)
      have hnext := serveFrame_next hs hrun
      exact .inr (.inr (.inr ⟨hrun, ih hnext (on_start hnext)⟩))
    · exact .inr (.inr (.inr ⟨hrun, ih (serveFrame_next hs hrun) hm⟩))

theorem on_finished (hs : Ready s fs) (hm : On cfg s fs m) (h : m.Finished) :
    m = s.serveAll cfg fs := by
  induction fs generalizing s with
  | nil => exact hm
  | cons f fs ih =>
    unfold serveAll
    rcases hm with hm | hm | rfl | ⟨hrun, hm⟩
    · exact absurd h (mid_not_finished hs.begins hm)
    · exact absurd h (drops_not_finished hm)
    · split
      · next hrun => exact ih (serveFrame_next hs hrun) (on_start (serveFrame_next hs hrun))
      · rfl
    · rw [if_pos hrun]
      exact ih (serveFrame_next hs hrun) hm

theorem drops_ends (cfg : RxConfig) {t : Receiver} (hm : Drops t m) :
    ∃ ns, runSteps (step cfg) m ns = some t := by
  refine exists_runSteps (M := Drops t) (fun m => m.input.length) (fun m hm => ?_) hm
  obtain ⟨m', h⟩ := step_one cfg (drops_not_finished hm)
  refine ⟨1, m', h, ?_⟩
  rcases drops_step hm h with h' | h'
  · exact .inr h'
  · exact .inl h'

theorem mid_ends (hs : Ready s (f :: fs)) (hm : Mid cfg s f m) :
    ∃ ns, runSteps (step cfg) m ns = some (s.serveFrame cfg f) := by
  induction hn : m.input.length using Nat.strongRecOn generalizing m with
  | ind l ih =>
    obtain ⟨m', h⟩ := step_one cfg (mid_not_finished hs.begins hm)
    have hend : ∃ ns, runSteps (step cfg) m' ns = some (s.serveFrame cfg f) := by
      rcases mid_step hs.begins hm h with ⟨hm', hlt⟩ | ⟨hm', -⟩ | rfl
      · exact ih _ (hn ▸ hlt) hm' rfl
      · exact drops_ends cfg hm'
      · exact ⟨[], rfl⟩
    obtain ⟨ns, hns⟩ := hend
    exact ⟨1 :: ns, runSteps_cons.2 ⟨m', h, hns⟩⟩

/-- Every state of the calls leads to the end of the stream. -/
theorem on_ends (hs : Ready s fs) (hm : On cfg s fs m) :
    ∃ ns, runSteps (step cfg) m ns = some (s.serveAll cfg fs) := by
  induction fs generalizing s m with
  | nil => exact ⟨[], congrArg some hm⟩
  | cons f fs ih =>
    have served : ∃ ns, runSteps (step cfg) (s.serveFrame cfg f) ns =
        some (s.serveAll cfg (f :: fs)) := by
      unfold serveAll
      split
      · next hrun => exact ih (serveFrame_next hs hrun) (on_start (serveFrame_next hs hrun))
      · exact ⟨[], rfl⟩
    have through : (∃ ns, runSteps (step cfg) m ns = some (s.serveFrame cfg f)) →
        ∃ ns, runSteps (step cfg) m ns = some (s.serveAll cfg (f :: fs)) := by
      rintro ⟨as, has⟩
      obtain ⟨bs, hbs⟩ := served
      exact ⟨as ++ bs, runSteps_append.2 ⟨_, has, hbs⟩⟩
    rcases hm with hm | hm | rfl | ⟨hrun, hm⟩
    · exact through (mid_ends hs hm)
    · exact through (drops_ends cfg hm)
    · exact served
    · rw [serveAll, if_pos hrun]
      exact ih (serveFrame_next hs hrun) hm

/-- A stream is served to its last frame, or to one that ends it. -/
theorem serveAll_cases (cfg : RxConfig) (hs : Ready s fs) : Ready (s.serveAll cfg fs) [] ∨ ∃ t f post,
    Ready t (f :: post) ∧ s.serveAll cfg fs = t.serveFrame cfg f ∧
      (t.serveFrame cfg f).status ≠ .running := by
  induction fs generalizing s with
  | nil => exact .inl hs
  | cons f fs ih =>
    unfold serveAll
    split
    · next hrun => exact ih (serveFrame_next hs hrun)
    · next hrun => exact .inr ⟨s, f, fs, hs, rfl, hrun⟩

theorem serveAll_finished (hs : Ready s fs) : (s.serveAll cfg fs).Finished := by
  obtain h | ⟨t, f, post, -, h, hrun⟩ := serveAll_cases cfg hs
  · exact .inr h.input
  · exact .inl (h ▸ hrun)

theorem serveAll_idle (hs : Ready s fs) (h : (s.serveAll cfg fs).status ≠ .failed) :
    (s.serveAll cfg fs).Idle := by
  obtain ht | ⟨t, f, post, ht, he, -⟩ := serveAll_cases cfg hs
  · exact ht.idle
  · rw [he] at h ⊢
    refine (serveFrame_ready ht.begins (Bool.eq_false_iff.2 fun hrej => h ?_)).2.1
    rw [serveFrame_rejected hrej]
    rfl

/-- A call returns -1 exactly for a frame that is rejected when it is reached. -/
theorem serveAll_failed_iff (hs : Ready s fs) : (s.serveAll cfg fs).status = .failed ↔
    ∃ pre f post, fs = pre ++ f :: post ∧ (s.serveAll cfg pre).status = .running ∧
      (s.serveAll cfg pre).rejects cfg f.header f.payload.length = true := by
  induction fs generalizing s with
  | nil =>
    refine iff_of_false (fun h => ?_) ?_
    · have h : s.status = .failed := h
      rw [hs.running] at h
      cases h
    · rintro ⟨pre, f, post, e, -⟩
      exact absurd e (by simp)
  | cons f fs ih =>
    have hrejected : s.rejects cfg f.header f.payload.length = true →
        (s.serveFrame cfg f).status = .failed := fun h => by
      rw [serveFrame_rejected h]
      rfl
    rw [exists_split_cons]
    by_cases hrun : (s.serveFrame cfg f).status = .running
    · simp only [serveAll, hrun, if_true, ih (serveFrame_next hs hrun)]
      refine (or_iff_right fun h => ?_).symm
      exact absurd (hrun.symm.trans (hrejected h.2)) nofun
    · simp only [serveAll, hrun, if_false, false_and, and_false, exists_false, or_false]
      exact ⟨fun h => ⟨hs.running, rejects_of_failed hs h⟩, fun h => hrejected h.2⟩

/-! ## A read that leaves the queue -/

/-- Some of a read reply is with its reader, and `rest` follows the frame. -/
structure Streams (m : Receiver) (f : Frame) (rest : Bytes) : Prop where
  running : m.status = .running
  buffer : m.buffer = f.header
  discardRemaining : m.discardRemaining = 0
  streamRead_pos : 0 < m.streamRead
  streamRead_lt : m.streamRead < f.payload.length
  input : m.input = f.payload.drop m.streamRead ++ rest

theorem serveFrame_streamRead (cfg : RxConfig) (hs : Ready s (f :: fs)) :
    (s.serveFrame cfg f).streamRead = 0 := by
  cases hrej : s.rejects cfg f.header f.payload.length with
  | true =>
    rw [serveFrame_rejected hrej]
    exact hs.idle.streamRead
  | false => exact (serveFrame_ready hs.begins hrej).2.1.streamRead

/-- Where some of a reply is with its reader, the frame is one of the stream. -/
theorem on_streams (hs : Ready s fs) (hm : On cfg s fs m) (h : 0 < m.streamRead) :
    ∃ pre f post, fs = pre ++ f :: post ∧ Streams m f (post.flatMap Frame.bytes) := by
  induction fs generalizing s with
  | nil =>
    obtain rfl : m = s := hm
    exact absurd hs.idle.streamRead (Nat.ne_of_gt h)
  | cons f fs ih =>
    rcases hm with hm | ⟨-, -, -, ht⟩ | rfl | ⟨hrun, hm⟩
    · cases hm with
      | header | buffer => exact absurd hs.idle.streamRead (Nat.ne_of_gt h)
      | stream hr hread hroom hj =>
        exact ⟨[], f, fs, rfl, hs.running, rfl, hs.idle.discardRemaining, h, hj,
          hs.begins.input_payload (Nat.le_of_lt hj)⟩
    · have h0 : m.streamRead = 0 := by
        rw [← serveFrame_streamRead cfg hs, ht]
        rfl
      exact absurd h0 (Nat.ne_of_gt h)
    · exact absurd (serveFrame_streamRead cfg hs) (Nat.ne_of_gt h)
    · obtain ⟨pre, g, post, rfl, hg⟩ := ih (serveFrame_next hs hrun) hm
      exact ⟨f :: pre, g, post, rfl, hg⟩

/-- The state behind a read reply, if the queue becomes `q` within it. -/
def afterSkip (cfg : RxConfig) (m : Receiver) (f : Frame) (q : List DsiRequest) : Receiver :=
  { m.skip (f.payload.length - m.streamRead) with
    buffer := [], streamRead := 0, queue := q }.signal (requestFor cfg q f.header)
      (if requestFor cfg q f.header = none then 0 else dsiCode f.header)

theorem afterSkip_ready (cfg : RxConfig) {q : List DsiRequest} (hm : Streams m f (fs.flatMap Frame.bytes))
    (hq : Fresh q) : Ready (afterSkip cfg m f q) fs := by
  obtain ⟨queue, log, hfresh, hsig⟩ := signal_eq { m with queue := q } (requestFor cfg q f.header)
    (if requestFor cfg q f.header = none then 0 else dsiCode f.header)
  simp only [afterSkip, skip, hsig]
  refine ⟨⟨rfl, rfl, hm.discardRemaining⟩, hm.running, hfresh hq, ?_⟩
  show m.input.drop (f.payload.length - m.streamRead) = _
  rw [hm.input, ← length_drop, drop_left]

/-- The call that no longer finds the read begins to drop the rest of its reply. -/
theorem streams_step {q : List DsiRequest} (hm : Streams m f rest)
    (hq : (requestFor cfg q f.header).filter (·.isRead) = none)
    (h : { m with queue := q }.step cfg n = some m') : Drops (afterSkip cfg m f q) m' := by
  obtain ⟨-, runts, h⟩ := step_eq_some.1 h
  have hlen : m.buffer.length = dsiHeaderSize := by rw [hm.buffer, f.header_length]
  have htake : m.buffer.take dsiHeaderSize = f.header := by
    rw [take_of_length_le (Nat.le_of_eq hlen), hm.buffer]
  have hlt := hm.streamRead_lt
  unfold recvFrame at h
  rw [if_neg (by show ¬0 < m.discardRemaining; rw [hm.discardRemaining]; exact Nat.lt_irrefl 0),
    if_neg (by show ¬m.buffer.length < dsiHeaderSize; omega)] at h
  rcases gotEnough_cases h htake with ⟨r, hr, hread, -⟩ | ⟨-, h⟩
  · rw [hr, Option.filter_some, if_pos hread] at hq
    cases hq
  unfold otherFrame at h
  dsimp only at h
  rw [htake, f.length_eq, if_neg (by omega), if_pos hm.streamRead_pos] at h
  cases h
  obtain ⟨queue, log, -, hsig⟩ := signal_eq { m with queue := q } (requestFor cfg q f.header)
    (if requestFor cfg q f.header = none then 0 else dsiCode f.header)
  simp only [afterSkip, skip, hsig]
  refine ⟨hm.running, Nat.sub_pos_of_lt hlt, ?_, ?_⟩
  · show f.payload.length - m.streamRead ≤ m.input.length
    rw [hm.input, length_append, length_drop]
    exact Nat.le_add_right _ _
  · exact Receiver.ext rfl rfl rfl rfl rfl rfl rfl hm.discardRemaining rfl rfl rfl rfl

/-- The states of the calls from where the queue becomes `q` within a read reply. -/
def Left (cfg : RxConfig) (m : Receiver) (f : Frame) (q : List DsiRequest) (fs : List Frame)
    (x : Receiver) : Prop :=
  x = { m with queue := q } ∨ Drops (afterSkip cfg m f q) x ∨ On cfg (afterSkip cfg m f q) fs x

section Left

variable {q : List DsiRequest} {x x' : Receiver} (hm : Streams m f (fs.flatMap Frame.bytes))
  (hfresh : Fresh q) (hq : (requestFor cfg q f.header).filter (·.isRead) = none)

include hm hfresh hq

theorem left_step (hx : Left cfg m f q fs x) (h : x.step cfg n = some x') :
    Left cfg m f q fs x' := by
  have hready := afterSkip_ready cfg hm hfresh
  rcases hx with rfl | hx | hx
  · exact .inr (.inl (streams_step hm hq h))
  · rcases drops_step hx h with ⟨hx', -⟩ | rfl
    · exact .inr (.inl hx')
    · exact .inr (.inr (on_start hready))
  · exact .inr (.inr (on_step hready hx h))

/-- The rest of the reply is dropped and the frames behind it are served, however
the reads cut the stream. -/
theorem left_run {ns : List Nat}
    (h : runSteps (step cfg) { m with queue := q } ns = some x) :
    (∃ ns', runSteps (step cfg) x ns' = some ((afterSkip cfg m f q).serveAll cfg fs)) ∧
      (x.Finished → x = (afterSkip cfg m f q).serveAll cfg fs) := by
  have hready := afterSkip_ready cfg hm hfresh
  have hx : Left cfg m f q fs x :=
    runSteps_always (I := Left cfg m f q fs) (fun _ _ _ h hI => left_step hm hfresh hq hI h)
      (.inl rfl) h
  have unfinished : ¬({ m with queue := q } : Receiver).Finished := by
    rintro (h | h)
    · exact h hm.running
    · have hin : m.input = [] := h
      have hlt := hm.streamRead_lt
      rw [hm.input, append_eq_nil_iff, drop_eq_nil_iff] at hin
      omega
  have dropped : ∀ y, Drops (afterSkip cfg m f q) y →
      ∃ ns', runSteps (step cfg) y ns' = some ((afterSkip cfg m f q).serveAll cfg fs) := by
    intro y hy
    obtain ⟨as, has⟩ := drops_ends cfg hy
    obtain ⟨bs, hbs⟩ := on_ends hready (on_start hready)
    exact ⟨as ++ bs, runSteps_append.2 ⟨_, has, hbs⟩⟩
  rcases hx with rfl | hx | hx
  · obtain ⟨y, hy⟩ := step_one cfg unfinished
    obtain ⟨as, has⟩ := dropped y (streams_step hm hq hy)
    exact ⟨⟨1 :: as, runSteps_cons.2 ⟨y, hy, has⟩⟩, fun h => absurd h unfinished⟩
  · exact ⟨dropped x hx, fun h => absurd h (drops_not_finished hx)⟩
  · exact ⟨on_ends hready hx, on_finished hready hx⟩

end Left

/-- **The pieces of the stream do not matter.** On whole frames, with reads that
return any non-empty pieces, every run of the calls goes on to the state that
`serveAll` gives and ends nowhere else; that state's log has what was delivered,
in its order. A call returns -1 exactly for a read reply that does not fit the
read's buffer, or another payload over the receive buffer and the quantum, and
otherwise no part of a frame is left. If the queue changes while a read reply is
streamed, and no read of this connection waits for the reply any more, the rest
of the reply is skipped to the end of its frame. -/
theorem recv_pieces (hs : Ready s fs) :
    (∀ ns m, runSteps (step cfg) s ns = some m →
      (∃ ns', runSteps (step cfg) m ns' = some (s.serveAll cfg fs)) ∧
      (m.Finished → m = s.serveAll cfg fs)) ∧
    (s.serveAll cfg fs).Finished ∧
    ((s.serveAll cfg fs).status ≠ .failed → (s.serveAll cfg fs).Idle) ∧
    ((s.serveAll cfg fs).status = .failed ↔ ∃ pre f post, fs = pre ++ f :: post ∧
      (s.serveAll cfg pre).status = .running ∧
      (s.serveAll cfg pre).rejects cfg f.header f.payload.length = true) ∧
    (∀ ns m, runSteps (step cfg) s ns = some m → 0 < m.streamRead →
      ∃ pre f post, fs = pre ++ f :: post ∧ Streams m f (post.flatMap Frame.bytes) ∧
        ∀ q, Fresh q → (requestFor cfg q f.header).filter (·.isRead) = none →
          (afterSkip cfg m f q).input = post.flatMap Frame.bytes ∧
          ∀ ns' x, runSteps (step cfg) { m with queue := q } ns' = some x →
            (∃ ns'', runSteps (step cfg) x ns'' = some ((afterSkip cfg m f q).serveAll cfg post)) ∧
            (x.Finished → x = (afterSkip cfg m f q).serveAll cfg post)) := by
  have on_run : ∀ ns m, runSteps (step cfg) s ns = some m → On cfg s fs m := fun ns m h =>
    runSteps_always (I := On cfg s fs) (fun _ _ _ h hI => on_step hs hI h) (on_start hs) h
  refine ⟨fun ns m h => ?_, serveAll_finished hs, serveAll_idle hs, serveAll_failed_iff hs,
    fun ns m h hpos => ?_⟩
  · exact ⟨on_ends hs (on_run ns m h), on_finished hs (on_run ns m h)⟩
  · obtain ⟨pre, f, post, e, hm⟩ := on_streams hs (on_run ns m h) hpos
    refine ⟨pre, f, post, e, hm, fun q hfresh hq => ?_⟩
    exact ⟨(afterSkip_ready cfg hm hfresh).input, fun ns' x hx => left_run hm hfresh hq hx⟩

/-- A reply of three bytes to the request 7. -/
def shortReply : Frame where
  header := [1, 2, 0, 7, 0, 0, 0, 0, 0, 0, 0, 3, 0, 0, 0, 0]
  payload := [65, 66, 67]
  header_length := rfl
  flags_defined := .inr rfl
  command_defined := rfl
  length_eq := rfl

def smallConfig : RxConfig := ⟨32, 1, fun _ _ => 0, by decide⟩

/-- A receiver with the stream of `fs` before it, and one read that waits with
room for `maxsize` bytes. -/
def readWaits (fs : List Frame) (maxsize : Nat) : Receiver where
  input := fs.flatMap Frame.bytes
  buffer := []
  streamRead := 0
  discardRemaining := 0
  toSessionOptions := { SessionState.init with quantum := DSI_DEFAULT_QUANTUM }
  queue := [⟨7, afpReadExt, 1, false, false, 0, some ⟨[], maxsize⟩⟩]
  log := []
  rxBytes := 0
  status := .running

theorem readWaits_ready (fs : List Frame) (maxsize : Nat) : Ready (readWaits fs maxsize) fs := by
  refine ⟨⟨rfl, rfl, rfl⟩, rfl, fun r hr _ buf hbuf => ?_, rfl⟩
  cases mem_singleton.1 hr
  cases hbuf
  rfl

theorem recv_pieces_read : ∃ m,
    runSteps (step smallConfig) (readWaits [shortReply] 8) [4, 12, 2, 1] = some m ∧
    m = (readWaits [shortReply] 8).serveAll smallConfig [shortReply] ∧ m.Idle := by
  have h := @recv_pieces smallConfig _ _ (readWaits_ready [shortReply] 8)
  exact ⟨_, rfl, (h.1 [4, 12, 2, 1] _ rfl).2 (.inr rfl), rfl, rfl, rfl⟩

/-- A read reply that is longer than the reader's buffer leaves its header in the
receive buffer. And if another read waits for the same ID when the request of a
read reply leaves the queue, the rest of the reply goes to that read, together
with bytes of the next frame. -/
theorem recv_partial_frame :
    (Ready (readWaits [shortReply] 2) [shortReply] ∧
      ∃ m, runSteps (step smallConfig) (readWaits [shortReply] 2) [16, 1] = some m ∧
        m.Finished ∧ m.buffer = shortReply.header) ∧
    (Ready (readWaits [shortReply, shortReply] 8) [shortReply, shortReply] ∧
      ∃ m, runSteps (step smallConfig) (readWaits [shortReply, shortReply] 8) [16, 1] = some m ∧
        m.streamRead = 1 ∧
        ∃ x, runSteps (step smallConfig) { m with queue := (readWaits [] 4).queue } [3] = some x ∧
          x.queue.map (fun r => r.buffer.map (·.data)) = [some [66, 67, 1]] ∧
          x.input = shortReply.bytes.drop 1) := by
  refine ⟨⟨readWaits_ready _ _, _, rfl, .inl nofun, rfl⟩, readWaits_ready _ _, _, rfl, rfl, ?_⟩
  exact ⟨_, rfl, rfl, rfl⟩

end Stream

/-! ## Any bytes -/

section Fill

variable {s' : Receiver} {request : Option DsiRequest} {runt : Bool} {result : Int} {n : Nat}

theorem finishPacket_fill {h : Bytes} {handle : Bool} :
    (s.finishPacket cfg h request runt handle result).buffer.length ≤ s.buffer.length := by
  have hp := (@keeps_processPacket cfg s (dsiCommand h) request runt result).buffer
  unfold finishPacket afterProcessing
  grind [fail, (keeps_signal _ _ _).buffer]

theorem readReply_fill {r : DsiRequest} (e : s.readReply cfg r result n = some s') :
    s'.buffer.length ≤ s.buffer.length := by
  unfold readReply read at e
  grind [fail, (keeps_signal _ _ _).buffer, finishPacket_fill]

theorem otherFrame_fill (h : s.buffer.length ≤ cfg.bufsize)
    (e : s.otherFrame cfg request runt result n = some s') : s'.buffer.length ≤ cfg.bufsize := by
  -- a read into the buffer asks for no more than is free
  unfold otherFrame read at e
  grind [fail, (keeps_signal _ _ _).buffer, finishPacket_fill]

theorem gotEnough_fill {runts : Nat} (e : s.gotEnough cfg n = some (s', runts))
    (h : s.buffer.length ≤ cfg.bufsize) : s'.buffer.length ≤ cfg.bufsize := by
  unfold gotEnough at e
  dsimp only at e
  split at e
  · cases e
    exact h
  split at e <;> obtain ⟨t, ht, e⟩ := Option.map_eq_some_iff.1 e <;> cases e
  · exact (readReply_fill ht).trans h
  · exact otherFrame_fill h ht

theorem step_fill (h : s.buffer.length ≤ cfg.bufsize) (e : s.step cfg n = some s') :
    s'.buffer.length ≤ cfg.bufsize := by
  have hsize := cfg.dsiHeaderSize_lt
  obtain ⟨-, runts, e⟩ := step_eq_some.1 e
  unfold recvFrame read at e
  grind [→ gotEnough_fill]

/-- Whatever the server sends, however the reads cut it and whatever is in the queue, the receive
buffer never holds more than its size. -/
theorem recv_fits_buffer (cfg : RxConfig) (s : Receiver) (ns : List Nat) :
    Along (step cfg) (fun s => s.buffer.length ≤ cfg.bufsize) { s with buffer := [] } ns :=
  along_of_invariant (fun _ _ _ e h => step_fill h e) (fun _ => id) (Nat.zero_le _)

end Fill

end Receiver

end NC
