import NetatalkClient.Model.Daemon

/-!
# A daemon that stays in step with its client

`InSync rs d`: of the requests `rs` of a client, the daemon has handed the first
ones to its threads, each as the client sent it, and while the connection is
open what it has read of the next request, followed by what the socket holds,
is the rest of the requests. In particular a header is always read from the
first byte of a request.

`process_write` answers without reading the data of its request when the volume
is not attached, the server is not connected, there is no memory, the size does
not fit an `int` or a read fails, and keeps the connection. `ReadsPayload` rules
these out, and `inSync_along_iff` says that a connection stays in step exactly as
long as its turns do.
-/

namespace NC

open List Daemon

/-! ## Reads -/

variable {c : DaemonClient} {k k' : Socket} {p rest : Bytes} {t : Turn} {w : WriteTurn} {resp : Nat × Nat}
  {c' : DaemonClient} {y : Option DaemonClient × Socket} {rs : List ClientRequest} {d : Daemon}

theorem Socket.read_cases {want : Nat} {r : Read} {got : Got} :
    k.read want r = some (got, k') → match got with
    | .bytes b => k.ended = false ∧ k'.ended = false ∧ b ++ k'.input = k.input ∧ 0 < b.length ∧
        b.length ≤ want
    | .again => k' = k
    | .eof | .error => k'.input = k.input := by
  intro h
  unfold Socket.read at h
  split at h
  · split at h
    · next n hn =>
      cases h
      obtain ⟨he, h0, hw, hl⟩ := hn
      refine ⟨he, he, take_append_drop n k.input, ?_, ?_⟩ <;> rw [length_take] <;> omega
    · cases h
  all_goals cases h; rfl

/-- A client whose request is not complete yet. -/
def DaemonClient.Incomplete (c : DaemonClient) : Prop :=
  match c.completePacket with
  | none => c.incomingHeader.length < headerSize
  | some p => headerSize ≤ p.length ∧ p.length < headerLen p

/-- What `process_command` does to a client that has `received` of the stream. -/
def Advances (c : DaemonClient) (k : Socket) : Progress × Socket → Prop
  | (.stop, _) => True
  | (.more c', k') => c'.Incomplete ∧ k'.ended = k.ended ∧
      c'.received ++ k'.input = c.received ++ k.input
  | (.packet p, k') => k.ended = false ∧ k'.ended = false ∧ headerSize ≤ p.length ∧
      headerLen p = p.length ∧ p ++ k'.input = c.received ++ k.input

theorem headerLen_append (hp : headerSize ≤ p.length) (b : Bytes) :
    headerLen (p ++ b) = headerLen p := by
  unfold headerSize at hp
  unfold headerLen
  rw [drop_append_of_le_length (by omega), take_append_of_le_length]
  rw [length_drop]
  omega

theorem readBody_advances {c₀ : DaemonClient} {k₀ : Socket} {r : Read} {x : Progress × Socket}
    (hp : headerSize ≤ p.length) (hl : p.length ≤ headerLen p)
    (he : p.length = headerLen p → k₀.ended = false) (hk : k.ended = k₀.ended)
    (hs : p ++ k.input = c₀.received ++ k₀.input) (h : readBody c p k r = some x) :
    Advances c₀ k₀ x := by
  unfold readBody at h
  split at h
  · next hlt =>
    obtain ⟨⟨got, k'⟩, hr, rfl⟩ := Option.map_eq_some_iff.1 h
    cases got with
    | eof | error => trivial
    | again =>
      rw [Socket.read_cases hr]
      exact ⟨⟨hp, hlt⟩, hk, hs⟩
    | bytes b =>
      obtain ⟨he₁, he₂, hi, h0, hw⟩ := Socket.read_cases hr
      have hs' : (p ++ b) ++ k'.input = c₀.received ++ k₀.input := by
        rw [append_assoc, hi, hs]
      have hp' : headerSize ≤ (p ++ b).length := by rw [length_append]; omega
      dsimp only
      split
      · next hlt' =>
        exact ⟨⟨hp', by rwa [headerLen_append hp]⟩, he₂.trans (he₁.symm.trans hk), hs'⟩
      · next hge =>
        refine ⟨hk.symm.trans he₁, he₂, hp', ?_, hs'⟩
        rw [headerLen_append hp]
        rw [length_append] at hge ⊢
        omega
  · next hge =>
    cases h
    have e : p.length = headerLen p := by omega
    exact ⟨he e, hk.trans (he e), hp, e.symm, hs⟩

theorem processCommand_advances {x : Progress × Socket}
    (hc : c.Incomplete) (h : processCommand c k t = some x) : Advances c k x := by
  unfold DaemonClient.Incomplete at hc
  unfold processCommand at h
  split at h
  · next p hp =>
    rw [hp] at hc
    refine readBody_advances hc.1 (Nat.le_of_lt hc.2) (fun e => absurd e (Nat.ne_of_lt hc.2)) rfl ?_ h
    rw [DaemonClient.received, hp]
    rfl
  · next hp =>
    rw [hp] at hc
    have hrec : c.received = c.incomingHeader := by rw [DaemonClient.received, hp]; rfl
    obtain ⟨⟨got, k'⟩, hr, h⟩ := Option.bind_eq_some_iff.1 h
    cases got with
    | eof | error => cases h; trivial
    | again =>
      cases h
      rw [Socket.read_cases hr]
      exact ⟨by unfold DaemonClient.Incomplete; rw [hp]; exact hc, rfl, rfl⟩
    | bytes b =>
      obtain ⟨he₁, he₂, hi, h0, hw⟩ := Socket.read_cases hr
      have hs : c.incomingHeader ++ b ++ k'.input = c.received ++ k.input := by
        rw [append_assoc, hi, hrec]
      have hlen : (c.incomingHeader ++ b).length ≤ headerSize := by
        rw [length_append]
        omega
      dsimp only at h
      split at h
      · next hlt =>
        cases h
        refine ⟨?_, he₂.trans he₁.symm, ?_⟩
        · rw [hp]
          exact hlt
        · rw [← hs, DaemonClient.received, hp]
          rfl
      · next hge =>
        split at h
        · cases h; trivial
        · next hlo =>
          split at h
          · cases h; trivial
          · refine readBody_advances (by omega) ?_ (fun _ => he₁) (he₂.trans he₁.symm) hs h
            omega

/-! ## The data of a write -/

theorem readPayload_zero (k : Socket) (reads : List Read) :
    readPayload k reads 0 = some (true, k) := by
  cases reads <;> rfl

/-- The loop takes the data asked for, or stops before its end. -/
theorem readPayload_takes {reads : List Read} {n : Nat} {ok : Bool}
    (hk : k.ended = false) (h : readPayload k reads n = some (ok, k')) :
    ∃ b, b ++ k'.input = k.input ∧ if ok then b.length = n ∧ k'.ended = false else b.length < n := by
  induction reads generalizing k n with
  | nil =>
    cases n with
    | zero => cases h; exact ⟨[], rfl, rfl, hk⟩
    | succ n => cases h
  | cons r reads ih =>
    cases n with
    | zero => cases h; exact ⟨[], rfl, rfl, hk⟩
    | succ n =>
      obtain ⟨⟨got, k₁⟩, hr, h⟩ := Option.bind_eq_some_iff.1 h
      cases got with
      | bytes b =>
        obtain ⟨-, he, hi, h0, hw⟩ := Socket.read_cases hr
        obtain ⟨b', hb', hok⟩ := ih he h
        refine ⟨b ++ b', by rw [append_assoc, hb', hi], ?_⟩
        rw [length_append]
        cases ok with
        | true => exact ⟨by have := hok.1; omega, hok.2⟩
        | false =>
          simp only [Bool.false_eq_true, if_false] at hok ⊢
          omega
      | again =>
        cases h
        exact ⟨[], congrArg Socket.input (Socket.read_cases hr), Nat.succ_pos n⟩
      | _ =>
        cases h
        exact ⟨[], Socket.read_cases hr, Nat.succ_pos n⟩

/-- Bytes taken from the front of `payload ++ rest` leave `rest` exactly if they
are as many as `payload`. -/
theorem left_eq_iff {b left payload : Bytes} (h : b ++ left = payload ++ rest) :
    left = rest ↔ b.length = payload.length := by
  have hl := congrArg List.length h
  rw [length_append, length_append] at hl
  constructor
  · rintro rfl
    omega
  · exact fun e => (append_inj h e).2

theorem processWrite_socket (hp : p.length = writeRequestSize)
    (h : processWrite p k w = some (resp, k')) :
    (w.attached ∧ w.connected ∧ w.memory ∧
      ∃ ok, readPayload k w.reads (bytesRemaining (writeSize p)) = some (ok, k')) ∨
    ¬(w.attached ∧ w.connected ∧ w.memory) ∧ k' = k := by
  unfold processWrite at h
  rw [if_neg (by omega)] at h
  split at h
  · next ha => cases h; exact .inr ⟨by simp_all, rfl⟩
  · split at h
    · next hc => cases h; exact .inr ⟨by simp_all, rfl⟩
    · split at h
      · next hm => cases h; exact .inr ⟨by simp_all, rfl⟩
      · next ha hc hm =>
        obtain ⟨⟨ok, k₁⟩, hr, h⟩ := Option.map_eq_some_iff.1 h
        have hk : k₁ = k' := by
          split_ifs at h <;> exact congrArg Prod.snd h
        subst hk
        exact .inl ⟨by simpa using ha, by simpa using hc, by simpa using hm, ok, hr⟩

/-! ## The handler -/

theorem finishResponse_some {sent close : Bool}
    (h : finishResponse c sent close = some c') :
    sent = true ∧ close = false ∧ c'.received = [] ∧ c'.Incomplete := by
  unfold finishResponse at h
  split at h
  · cases h
  · next hs =>
    cases h
    simp only [Bool.or_eq_true, Bool.not_eq_true', not_or, Bool.not_eq_false] at hs
    exact ⟨hs.1, by simpa using hs.2, rfl, Nat.succ_pos 11⟩

theorem processCommandThread_kept
    (h : processCommandThread c p k t = some (some c', k')) : c'.received = [] ∧ c'.Incomplete := by
  unfold processCommandThread at h
  split at h
  · simp only [Option.some.injEq, Prod.mk.injEq] at h
    have h := h.1
    unfold processHello at h
    split at h
    · cases h
    · exact (finishResponse_some h).2.2
  · split at h
    · cases h
    · split at h
      · obtain ⟨x, -, h⟩ := Option.map_eq_some_iff.1 h
        exact (finishResponse_some (congrArg Prod.fst h)).2.2
      · split at h
        · simp only [Option.some.injEq, Prod.mk.injEq] at h
          exact (finishResponse_some h.1).2.2
        · cases h

theorem processCommandThread_other
    (hp : headerCommand p ≠ AFPSL_IPC_COMMAND_WRITE)
    (h : processCommandThread c p k t = some y) : y.2 = k := by
  unfold processCommandThread at h
  split_ifs at h <;> cases h <;> rfl

theorem processCommandThread_write
    (hp : headerCommand p = AFPSL_IPC_COMMAND_WRITE) (h : processCommandThread c p k t = some y) :
    (y.1 = none ∧ (c.ipcReady = false ∨ t.sent = false ∨ headerClose p ≠ 0)) ∨
    (c.ipcReady = true ∧ t.sent = true ∧ headerClose p = 0 ∧ y.1 = some c.reset ∧
      ∃ resp, processWrite p k t.write = some (resp, y.2)) := by
  unfold processCommandThread at h
  rw [if_neg (by rw [hp]; decide), if_pos hp] at h
  split at h
  · next hr => cases h; exact .inl ⟨rfl, .inl (by simpa using hr)⟩
  · next hr =>
    obtain ⟨⟨resp, k'⟩, hw, rfl⟩ := Option.map_eq_some_iff.1 h
    by_cases hf : t.sent = true ∧ headerClose p = 0
    · exact .inr ⟨by simpa using hr, hf.1, hf.2, by simp [finishResponse, hf], resp, hw⟩
    · refine .inl ⟨?_, .inr ?_⟩
      · unfold finishResponse
        by_cases hs : t.sent = true
        · simpa [hs] using fun e => hf ⟨hs, e⟩
        · simp [hs]
      · by_cases hs : t.sent = true
        · exact .inr fun e => hf ⟨hs, e⟩
        · exact .inl (by simpa using hs)

/-! ## In step -/

/-- The first requests of `rs` have been handed to a thread, each as it was sent,
and what is read of the next one and not read yet is the rest of `rs`. -/
structure InSync (rs : List ClientRequest) (d : Daemon) : Prop where
  packets : d.packets = (rs.take d.packets.length).map ClientRequest.packet
  incomplete : ∀ c, d.client = some c → c.Incomplete
  stream : ∀ c, d.client = some c → d.socket.ended = false →
    c.received ++ d.socket.input = (rs.drop d.packets.length).flatMap ClientRequest.bytes

/-- If this turn answers the packet, a write with data, and keeps the connection, then
`process_write` gets as far as reading the data, and reads it to the end of the
data or of the stream. -/
def ReadsData (t : Turn) (c : DaemonClient) (p : Bytes) (k : Socket) : Prop :=
  headerCommand p = AFPSL_IPC_COMMAND_WRITE → c.ipcReady = true → t.sent = true →
    headerClose p = 0 → writeSize p ≠ 0 →
    (t.write.attached ∧ t.write.connected ∧ t.write.memory) ∧ writeSize p < 2 ^ 31 ∧
      ∀ k', readPayload k t.write.reads (writeSize p) = some (false, k') → k'.ended = true

/-- So it is with the packet of this turn, if any. -/
def ReadsPayload (d : Daemon) (t : Turn) : Prop :=
  ∀ c p k, d.client = some c → processCommand c d.socket t = some (.packet p, k) → ReadsData t c p k

theorem inSync_start (rs : List ClientRequest) : InSync rs (start rs) := by
  refine ⟨rfl, fun c h => ?_, fun c h _ => ?_⟩ <;> cases h
  · exact Nat.succ_pos 11
  · rfl

/-- A complete packet at the front of the requests is the first one's. -/
theorem packet_eq (hp : headerSize ≤ p.length) (hl : headerLen p = p.length)
    (hs : p ++ rest = rs.flatMap ClientRequest.bytes) :
    ∃ r rs', rs = r :: rs' ∧ p = r.packet ∧
      rest = r.payload ++ rs'.flatMap ClientRequest.bytes := by
  cases rs with
  | nil =>
    rw [flatMap_nil, append_eq_nil_iff] at hs
    rw [hs.1] at hp
    exact absurd hp (by decide)
  | cons r rs' =>
    rw [flatMap_cons, ClientRequest.bytes, append_assoc] at hs
    have hlen : p.length = r.packet.length := by
      rw [← hl, ← headerLen_append hp rest, hs, headerLen_append r.headerSize_le, r.headerLen_eq]
    obtain ⟨h₁, h₂⟩ := append_inj hs hlen
    exact ⟨r, rs', rfl, h₁, h₂⟩

/-- After a write's handler has kept the connection, the socket is at the next
request exactly if the handler read the data. -/
theorem processWrite_inSync {r : ClientRequest}
    (hr : headerCommand r.packet = AFPSL_IPC_COMMAND_WRITE) (hk : k.ended = false)
    (hi : k.input = r.payload ++ rest) (h : processWrite r.packet k w = some (resp, k')) :
    (k'.ended = false → k'.input = rest) ↔
      (writeSize r.packet ≠ 0 → (w.attached ∧ w.connected ∧ w.memory) ∧
        writeSize r.packet < 2 ^ 31 ∧
        ∀ k', readPayload k w.reads (writeSize r.packet) = some (false, k') → k'.ended = true) := by
  obtain ⟨hlen, hsize⟩ := r.write_payload hr
  have untouched : k' = k → ((k'.ended = false → k'.input = rest) ↔ writeSize r.packet = 0) := by
    rintro rfl
    have e : ([] : Bytes) ++ k'.input = r.payload ++ rest := hi
    rw [left_eq_iff e, hsize, length_nil]
    exact ⟨fun h => (h hk).symm, fun h _ => h.symm⟩
  rcases processWrite_socket hlen h with ⟨ha, hc, hm, ok, hrd⟩ | ⟨hn, e⟩
  · by_cases hb : writeSize r.packet < 2 ^ 31
    · rw [bytesRemaining, if_pos hb] at hrd
      obtain ⟨b, hbi, hok⟩ := readPayload_takes hk hrd
      have hleft := left_eq_iff (hbi.trans hi)
      rw [hleft, ← hsize]
      cases ok with
      | true =>
        refine iff_of_true (fun _ => hok.1) fun _ => ⟨⟨ha, hc, hm⟩, hb, fun k'' h' => ?_⟩
        rw [hrd] at h'
        cases h'
      | false =>
        simp only [Bool.false_eq_true, if_false] at hok
        constructor
        · intro hin _
          refine ⟨⟨ha, hc, hm⟩, hb, fun k'' h' => ?_⟩
          obtain rfl : k' = k'' := congrArg Prod.snd (Option.some.inj (hrd.symm.trans h'))
          by_contra he
          have := hin (by simpa using he)
          omega
        · intro hcond he
          have := (hcond (by omega)).2.2 k' hrd
          rw [he] at this
          cases this
    · have hz : writeSize r.packet ≠ 0 := fun e => hb (by rw [e]; decide)
      rw [bytesRemaining, if_neg hb] at hrd
      have e : k = k' := by
        rw [readPayload_zero] at hrd
        exact congrArg Prod.snd (Option.some.inj hrd)
      rw [untouched e.symm]
      exact iff_of_false hz fun h => hb (h hz).2.1
  · rw [untouched e]
    constructor
    · exact fun h h' => absurd h h'
    · intro h'
      by_contra hz
      exact hn (h' hz).1

/-- `ReadsPayload` about the packet that the turn hands to a thread, if any. -/
theorem readsPayload_iff {pr : Progress} (hc : d.client = some c)
    (hp : processCommand c d.socket t = some (pr, k)) :
    ReadsPayload d t ↔ ∀ p, pr = .packet p → ReadsData t c p k := by
  constructor
  · rintro h p rfl
    exact h c p k hc hp
  · intro h c₁ p₁ k₁ hc₁ hp₁
    rw [hc] at hc₁
    cases hc₁
    rw [hp] at hp₁
    cases hp₁
    exact h p₁ rfl

/-- After the next request of `rs` has been handled, the daemon is in step if the
socket is at the request after it. -/
theorem inSync_handled_iff {rs' : List ClientRequest} {r : ClientRequest} {c : Option DaemonClient}
    (hd : InSync rs d) (hrs : rs.drop d.packets.length = r :: rs')
    (hc : ∀ c', c = some c' → c'.received = [] ∧ c'.Incomplete) :
    InSync rs ⟨c, k, d.packets ++ [r.packet]⟩ ↔
      (c ≠ none → k.ended = false → k.input = rs'.flatMap ClientRequest.bytes) := by
  have hlen : (d.packets ++ [r.packet]).length = d.packets.length + 1 := by
    rw [length_append, length_singleton]
  have hnext : rs.drop (d.packets.length + 1) = rs' := by
    rw [← drop_drop, hrs, drop_one, tail_cons]
  have htake : rs.take (d.packets.length + 1) = rs.take d.packets.length ++ [r] := by
    rw [take_add, hrs, take_succ_cons, take_zero]
  constructor
  · intro h hne hk
    obtain ⟨c', rfl⟩ := Option.ne_none_iff_exists'.1 hne
    have hstream := h.stream c' rfl hk
    rw [(hc c' rfl).1, nil_append, hlen, hnext] at hstream
    exact hstream
  · intro h
    refine ⟨?_, fun c' hc' => (hc c' hc').2, fun c' hc' hk => ?_⟩
    · rw [hlen, htake, map_append, ← hd.packets, map_singleton]
    · rw [(hc c' hc').1, nil_append, hlen, hnext]
      exact h (fun e => nomatch hc'.symm.trans e) hk

/-- One turn keeps the daemon in step exactly if it reads the data of a write. -/
theorem step_inSync_iff {d' : Daemon} (h : d.step t = some d') (hd : InSync rs d) :
    InSync rs d' ↔ ReadsPayload d t := by
  obtain ⟨c, hc, h⟩ := Option.bind_eq_some_iff.1 h
  obtain ⟨⟨pr, k⟩, hp, h⟩ := Option.bind_eq_some_iff.1 h
  have hadv := processCommand_advances (hd.incomplete c hc) hp
  cases pr with
  | stop =>
    cases h
    exact iff_of_true ⟨hd.packets, nofun, nofun⟩ ((readsPayload_iff hc hp).2 nofun)
  | more c' =>
    cases h
    obtain ⟨hinc, hek, hs⟩ := hadv
    refine iff_of_true ⟨hd.packets, ?_, ?_⟩ ((readsPayload_iff hc hp).2 nofun)
    · rintro c'' ⟨⟩
      exact hinc
    · rintro c'' ⟨⟩ he
      rw [hs]
      exact hd.stream c hc (hek ▸ he)
  | packet p =>
    obtain ⟨he, hek, hlo, hl, hs⟩ := hadv
    rw [hd.stream c hc he] at hs
    obtain ⟨r, rs', hrs, rfl, hin⟩ := packet_eq hlo hl hs
    obtain ⟨⟨c', k'⟩, ht, rfl⟩ := Option.map_eq_some_iff.1 h
    have hkept : ∀ c'', c' = some c'' → c''.received = [] ∧ c''.Incomplete := by
      rintro c'' rfl
      exact processCommandThread_kept ht
    simp only [inSync_handled_iff hd hrs hkept, readsPayload_iff hc hp, Progress.packet.injEq,
      forall_eq']
    by_cases hw : headerCommand r.packet = AFPSL_IPC_COMMAND_WRITE
    · rcases processCommandThread_write hw ht with ⟨hn, hno⟩ | ⟨hrdy, hsent, hclose, hk, resp, hpw⟩
      · refine iff_of_true (fun h => absurd hn h) fun _ h₁ h₂ h₃ => ?_
        rcases hno with h | h | h
        · rw [h] at h₁
          cases h₁
        · rw [h] at h₂
          cases h₂
        · exact absurd h₃ h
      · have hne : c' ≠ none := fun e => by rw [show c' = some c.reset from hk] at e; cases e
        have hread := processWrite_inSync hw hek hin hpw
        exact ⟨fun h _ _ _ _ => hread.1 (h hne), fun h _ => hread.2 (h hw hrdy hsent hclose)⟩
    · have hk : k' = k := processCommandThread_other hw ht
      refine iff_of_true (fun _ _ => ?_) fun h => absurd h hw
      rw [hk, hin, r.other_payload hw, nil_append]

/-- **Framing.** For every sequence of requests and every run of the daemon on
their bytes: it is in step with the client in every state of the run exactly if
every turn that answers a write reads the data. -/
theorem inSync_along_iff (rs : List ClientRequest) {ts : List Turn} {d : Daemon}
    (h : runSteps Daemon.step (start rs) ts = some d) :
    Along Daemon.step (InSync rs) (start rs) ts ↔ OkRun Daemon.step ReadsPayload (start rs) ts :=
  along_iff_okRun (fun _ _ _ h hd => step_inSync_iff h hd) (inSync_start rs) h

/-! ## Two connections -/

/-- A turn in which every read gets `n` bytes and everything else succeeds. -/
def plainTurn (n : Nat) : Turn :=
  { header := .data n, body := .data n, memory := true, fails := false, closes := false, sent := true
    write := { attached := true, connected := true, memory := true, reads := [.data n],
               handle := true, ret := 0 } }

/-- The handshake, and a write of the twelve bytes of an exit command. -/
def exitAsData : List ClientRequest :=
  [ipcHandshake, afpSlWrite 1 1 0 0 [12, 0, 0, 0, 12, 0, 0, 0, 0, 0, 0, 0] (by decide)]

/-- The turns of the two requests, the write with the volume attached or not. -/
def exitTurns (attached : Bool) : List Turn :=
  [plainTurn 12, { plainTurn 12 with body := .data 36 } ].map fun t =>
    { t with write := { t.write with attached := attached } }

theorem inSync_attached :
    (∃ d, runSteps Daemon.step (start exitAsData) (exitTurns true) = some d) ∧
      Along Daemon.step (InSync exitAsData) (start exitAsData) (exitTurns true) := by
  refine ⟨⟨_, rfl⟩, (inSync_along_iff exitAsData rfl).2 ?_⟩
  refine ⟨(readsPayload_iff rfl rfl).2 ?_, fun d h => ?_⟩
  · rintro p ⟨⟩ h
    exact absurd h (by decide)
  obtain rfl := Option.some.inj h
  refine ⟨(readsPayload_iff rfl rfl).2 ?_, ?_⟩
  · rintro p ⟨⟩ _ _ _ _ _
    refine ⟨⟨rfl, rfl, rfl⟩, by decide, fun k h => ?_⟩
    cases Option.some.inj h
  · exact fun _ _ => trivial

/-- With the volume not attached, the write's data is next taken for an exit
command. -/
theorem not_inSync_notattached :
    ∃ d d', runSteps Daemon.step (start exitAsData) (exitTurns false) = some d ∧
      d.client ≠ none ∧ ¬InSync exitAsData d ∧ d.step (plainTurn 12) = some d' ∧
      d'.packets = exitAsData.map ClientRequest.packet ++ [[12, 0, 0, 0, 12, 0, 0, 0, 0, 0, 0, 0]] := by
  refine ⟨_, _, rfl, nofun, fun h => ?_, rfl, rfl⟩
  have hs := h.stream _ rfl rfl
  cases hs

end NC
