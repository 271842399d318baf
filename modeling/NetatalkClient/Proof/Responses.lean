import NetatalkClient.Model.Responses

/-!
# Responses come back as they were sent

`fitted` has the log messages that fit the buffer, the last of them cut to what is left of it. The
buffer holds their records (`foldl_daemonLogForClient`), unless a message is logged while the buffer is
full to the last byte: that message finds the buffer reset, and all before it are lost.

`readFramedResponse_eq` and `readResponseTail_eq` say what the client reads, however the reads cut the
stream, and `responses_come_back` puts them together for all commands of a connection. The counterpart
is `full_log_buffer_lost`.
-/

namespace NC

open List Option List ClientSocket

/-! ## Recording log messages -/

/-- The room behind a message that finds `room` bytes. -/
def roomBehind (room : Nat) (m : LogMessage) : Nat := room - logRecordSize - m.text.length

/-- The messages that fit `room` bytes, the last cut to what is left. -/
def fitted : Nat → List LogMessage → List LogMessage
  | _, [] => []
  | room, m :: ms =>
    if room ≤ logRecordSize then fitted room ms
    else { m with text := m.text.take (room - logRecordSize) } :: fitted (roomBehind room m) ms

/-- No message is logged while the buffer is full to the last byte. -/
def NeverFull : Nat → List LogMessage → Prop
  | _, [] => True
  | room, m :: ms =>
    0 < room ∧ NeverFull (if room ≤ logRecordSize then room else roomBehind room m) ms

instance NeverFull.decidable : ∀ room ms, Decidable (NeverFull room ms)
  | _, [] => .isTrue trivial
  | room, m :: ms =>
    have : Decidable (NeverFull (if room ≤ logRecordSize then room else roomBehind room m) ms) :=
      NeverFull.decidable _ ms
    inferInstanceAs (Decidable (_ ∧ _))

@[simp] theorem length_logRecord (m : LogMessage) :
    (logRecord m).length = logRecordSize + m.text.length := by
  simp only [logRecord, length_append, length_natLe]

variable {outgoing r : Bytes} {ms : List LogMessage} {fuel n capacity : Nat} {k : ClientSocket}

theorem foldl_daemonLogForClient (hlen : outgoing.length ≤ ipcLogBufferSize)
    (h : NeverFull (ipcLogBufferSize - outgoing.length) ms) :
    ms.foldl daemonLogForClient outgoing
      = outgoing ++ (fitted (ipcLogBufferSize - outgoing.length) ms).flatMap logRecord := by
  induction ms generalizing outgoing with
  | nil => simp [fitted]
  | cons m ms ih =>
    obtain ⟨hpos, h⟩ := h
    have hnot : ¬ ipcLogBufferSize ≤ outgoing.length := by omega
    rw [foldl_cons, daemonLogForClient, if_neg hnot, fitted]
    by_cases hroom : ipcLogBufferSize - outgoing.length ≤ logRecordSize
    · rw [if_pos hroom] at h
      rw [if_neg (by omega), if_pos hroom]
      exact ih hlen h
    · rw [if_neg hroom] at h
      have hmin : min (2 ^ 32 - 1) (ipcLogBufferSize - outgoing.length - logRecordSize)
          = ipcLogBufferSize - outgoing.length - logRecordSize := by
        have : ipcLogBufferSize = 4096 := rfl
        omega
      rw [if_pos (by omega), if_neg hroom, hmin]
      obtain ⟨cut, hcut⟩ : ∃ cut : LogMessage, cut = { m with
        text := m.text.take (ipcLogBufferSize - outgoing.length - logRecordSize) } := ⟨_, rfl⟩
      rw [← hcut]
      have htext : cut.text.length
          = min (ipcLogBufferSize - outgoing.length - logRecordSize) m.text.length := by
        rw [hcut, length_take]
      have hroom' : ipcLogBufferSize - (outgoing ++ logRecord cut).length
          = roomBehind (ipcLogBufferSize - outgoing.length) m := by
        rw [length_append, length_logRecord, htext, roomBehind]
        omega
      rw [ih (by rw [length_append, length_logRecord, htext]; omega) (by rwa [hroom']), hroom',
        flatMap_cons, append_assoc]

/-- A message that finds the buffer full is recorded as if there were none before it. -/
theorem daemonLogForClient_full (h : ipcLogBufferSize ≤ outgoing.length) (m : LogMessage) :
    daemonLogForClient outgoing m = daemonLogForClient [] m := by
  rw [daemonLogForClient, if_pos h]
  rfl

theorem length_fitted_le (room : Nat) (ms : List LogMessage) :
    ((fitted room ms).flatMap logRecord).length ≤ room := by
  induction ms generalizing room with
  | nil => simp [fitted]
  | cons m ms ih =>
    rw [fitted]
    split
    · exact ih room
    · have hrest := ih (roomBehind room m)
      rw [flatMap_cons, length_append, length_logRecord, length_take]
      unfold roomBehind at hrest ⊢
      omega

/-! ## Delivering log messages -/

theorem words_read {a b : Nat} {x : Bytes} (ha : a < 256 ^ 4) (hb : b < 256 ^ 4)
    (hr : r = natLe 4 a ++ (natLe 4 b ++ x)) :
    leNat (r.take 4) = a ∧ leNat ((r.drop 4).take 4) = b ∧ r.drop (4 + 4) = x := by
  have hdrop : r.drop 4 = natLe 4 b ++ x := by rw [hr, drop_left' (length_natLe ..)]
  rw [← drop_drop, hdrop, drop_left' (length_natLe ..), hr, take_left' (length_natLe ..),
    take_left' (length_natLe ..), leNat_natLe ha, leNat_natLe hb]
  exact ⟨rfl, rfl, rfl⟩

theorem dispatchLoop_records (hlen : (ms.flatMap logRecord).length ≤ ipcLogBufferSize)
    (hfuel : (ms.flatMap logRecord).length ≤ fuel) :
    dispatchLoop fuel (ms.flatMap logRecord) = (ms, true) := by
  induction ms generalizing fuel with
  | nil => cases fuel <;> rfl
  | cons m ms ih =>
    have hrecord : logRecordSize = 8 := rfl
    rw [flatMap_cons, length_append, length_logRecord] at hlen hfuel
    obtain ⟨fuel, rfl⟩ : ∃ n, fuel = n + 1 := ⟨fuel - 1, by omega⟩
    have hbytes : (m :: ms).flatMap logRecord = natLe 4 m.level.toNat ++
        (natLe 4 m.text.length ++ (m.text ++ ms.flatMap logRecord)) := by
      simp [logRecord]
    have hsize : ((m :: ms).flatMap logRecord).length
        = logRecordSize + m.text.length + (ms.flatMap logRecord).length := by
      rw [flatMap_cons, length_append, length_logRecord]
    obtain ⟨hlevel, hmessage, hrest⟩ := words_read m.level.toNat_lt
      (by have : ipcLogBufferSize = 4096 := rfl; omega) hbytes
    have hne : (m :: ms).flatMap logRecord ≠ [] := by
      intro hnil
      rw [hnil, length_nil] at hsize
      omega
    rw [dispatchLoop, if_neg hne, if_neg (by omega), hlevel, hmessage]
    simp only [hrest]
    rw [if_neg (by rw [length_append]; omega), drop_left, take_left,
      ih (by omega) (by omega), UInt32.ofNat_toNat]

/-- A response, or its end: some bytes, records and the footer. -/
def trailed (front : Bytes) (ms : List LogMessage) : Bytes :=
  front ++ ms.flatMap logRecord ++ logFooter (ms.flatMap logRecord).length

@[simp] theorem length_logFooter (n : Nat) : (logFooter n).length = logFooterSize := by
  simp [logFooter]

theorem length_trailed (front : Bytes) (ms : List LogMessage) :
    (trailed front ms).length = front.length + (ms.flatMap logRecord).length + logFooterSize := by
  simp only [trailed, length_append, length_logFooter]

theorem length_before_footer (front : Bytes) (ms : List LogMessage) :
    (front ++ ms.flatMap logRecord).length = (trailed front ms).length - logFooterSize := by
  rw [length_trailed, length_append, Nat.add_sub_cancel]

theorem responseContentLength_trailed (front : Bytes)
    (hlen : (ms.flatMap logRecord).length ≤ ipcLogBufferSize) :
    responseContentLength (trailed front ms) = some front.length := by
  have hsize := length_trailed front ms
  have hfooter : (trailed front ms).drop ((trailed front ms).length - logFooterSize)
      = logFooter (ms.flatMap logRecord).length := drop_left' (length_before_footer front ms)
  have hbytes : logFooter (ms.flatMap logRecord).length
      = natLe 4 ipcLogMagic ++ (natLe 4 (ms.flatMap logRecord).length ++ []) := by
    rw [append_nil, logFooter]
  obtain ⟨hmagic, hlog, -⟩ := words_read (by decide)
    (by have : ipcLogBufferSize = 4096 := rfl; omega) hbytes
  rw [responseContentLength, if_neg (by omega)]
  simp only [hfooter, hlog]
  rw [if_neg (by omega), hsize]
  congr 1
  omega

theorem dispatchResponseLogs_trailed (front : Bytes)
    (hlen : (ms.flatMap logRecord).length ≤ ipcLogBufferSize) :
    dispatchResponseLogs (trailed front ms) = (ms, true) := by
  have hrecords : ((trailed front ms).take ((trailed front ms).length - logFooterSize)).drop
      front.length = ms.flatMap logRecord := by
    have htake : (trailed front ms).take ((trailed front ms).length - logFooterSize)
        = front ++ ms.flatMap logRecord := take_left' (length_before_footer front ms)
    rw [htake, drop_left]
  rw [dispatchResponseLogs, responseContentLength_trailed front hlen]
  simp only [hrecords]
  exact dispatchLoop_records hlen (Nat.le_refl _)

/-! ## The length of a response -/

theorem length_withLength (h : responseHeaderSize ≤ r.length) :
    (withLength r n).length = r.length := by
  have h8 : 8 ≤ r.length := h
  simp [withLength]
  omega

theorem withLength_append {x : Bytes} (h : responseHeaderSize ≤ r.length) :
    withLength (r ++ x) n = withLength r n ++ x := by
  have h8 : 8 ≤ r.length := h
  rw [withLength, withLength, take_append_of_le_length (by omega), drop_append_of_le_length h8]
  simp

theorem responseLen_withLength {x : Bytes} (h : responseHeaderSize ≤ r.length) (hn : n < 2 ^ 32) :
    responseLen (withLength r n ++ x) = n := by
  have h8 : 8 ≤ r.length := h
  have h4 : (r.take 4).length = 4 := by
    rw [length_take]
    omega
  rw [responseLen, withLength, append_assoc, append_assoc, drop_left' h4,
    take_left' (length_natLe ..), leNat_natLe (by omega)]

/-- A command whose response has a header and fits: a structure that is read first begins with the
header and lies in the response. -/
structure ServedCommand.Fits (c : ServedCommand) : Prop where
  header : responseHeaderSize ≤ c.data.length
  most : c.data.length ≤ ipcMaxResponse
  size : ∀ size, c.reader = .tail size → responseHeaderSize ≤ size ∧ size ≤ c.data.length

/-- What is sent for a command. -/
def sentResponse (c : ServedCommand) : Bytes :=
  let ms := fitted ipcLogBufferSize c.logs
  trailed (withLength c.data (trailed c.data ms).length) ms

/-- A response that says how long it is, in a buffer of `capacity` bytes. -/
structure Framed (capacity : Nat) (r : Bytes) : Prop where
  least : responseHeaderSize + logFooterSize ≤ r.length
  most : r.length ≤ capacity
  tells : ∀ n, responseHeaderSize ≤ n → responseLen (r.take n) = r.length

section
variable {c : ServedCommand} (hc : c.Fits)
include hc

theorem respond_eq (hfull : NeverFull ipcLogBufferSize c.logs) :
    respond c.logs c.data = some (sentResponse c) := by
  have hlogs : c.logs.foldl daemonLogForClient []
      = (fitted ipcLogBufferSize c.logs).flatMap logRecord :=
    foldl_daemonLogForClient (Nat.zero_le _) hfull
  have hlo := hc.header
  have hmax : c.data.length ≤ 66559 := hc.most
  have hfit := length_fitted_le ipcLogBufferSize c.logs
  have hlog : ipcLogBufferSize = 4096 := rfl
  have hfooter : logFooterSize = 8 := rfl
  rw [respond, hlogs, sendCommand, if_neg (by omega), if_neg (by omega), sentResponse]
  simp only [trailed, append_assoc]
  rw [withLength_append hlo]

theorem length_sentResponse :
    (sentResponse c).length = (trailed c.data (fitted ipcLogBufferSize c.logs)).length := by
  rw [sentResponse, length_trailed, length_withLength hc.header, length_trailed]

theorem sentResponse_framed : Framed connectionDataSize (sentResponse c) := by
  have hlo := hc.header
  have hmax : c.data.length ≤ 66559 := hc.most
  have hfit : ((fitted ipcLogBufferSize c.logs).flatMap logRecord).length ≤ 4096 :=
    length_fitted_le ipcLogBufferSize c.logs
  have hsize : connectionDataSize = 70855 := rfl
  have hfooter : logFooterSize = 8 := rfl
  have hlen := (length_sentResponse hc).trans (length_trailed ..)
  refine ⟨by omega, by omega, fun n hn => ?_⟩
  have hfirst : responseLen (sentResponse c) = (sentResponse c).length := by
    rw [hlen, ← length_trailed, sentResponse, trailed, append_assoc]
    exact responseLen_withLength hlo (by rw [length_trailed]; omega)
  have h8 : 8 ≤ n := hn
  rw [← hfirst, responseLen, responseLen, drop_take, take_take, Nat.min_eq_left (by omega)]

end

/-! ## Reading -/

theorem ClientSocket.read_eq {want : Nat} (hk : k.arrived ≠ []) (hw : 0 < want) :
    ∃ n reads, 0 < n ∧ n ≤ want ∧ n ≤ k.arrived.length ∧
      k.read want = some (k.arrived.take n, ⟨k.arrived.drop n, k.sizes, reads⟩) := by
  have hpos := length_pos_iff.2 hk
  refine ⟨min (min (k.sizes k.reads + 1) want) k.arrived.length, k.reads + 1, by omega, by omega,
    by omega, ?_⟩
  rw [read, if_neg (by simp only [hk, false_or]; omega)]
  simp only [← take_eq_take_min]
  rcases Nat.le_total (min (k.sizes k.reads + 1) want) k.arrived.length with h | h
  · rw [Nat.min_eq_left h]
  · rw [Nat.min_eq_right h, drop_length, drop_eq_nil_of_le h]

theorem readBytesWithTimeout_eq {len : Nat} (hfuel : len ≤ fuel)
    (hlen : len ≤ k.arrived.length) :
    ∃ reads, readBytesWithTimeout fuel len k
      = some (k.arrived.take len, ⟨k.arrived.drop len, k.sizes, reads⟩) := by
  induction fuel generalizing len k with
  | zero =>
    obtain rfl : len = 0 := by omega
    exact ⟨k.reads, rfl⟩
  | succ fuel ih =>
    rcases Nat.eq_zero_or_pos len with rfl | hpos
    · exact ⟨k.reads, rfl⟩
    · have hk : k.arrived ≠ [] := length_pos_iff.1 (by omega)
      obtain ⟨n, reads, hn, hwant, hin, hread⟩ := read_eq hk hpos
      obtain ⟨reads', hrest⟩ := @ih ⟨k.arrived.drop n, k.sizes, reads⟩ (len - n)
        (by omega) (by rw [length_drop]; omega)
      refine ⟨reads', ?_⟩
      rw [readBytesWithTimeout.eq_3 _ _ _ (by omega), hread]
      simp only [bind_eq_bind, bind_some, length_take, Nat.min_eq_left hin, hrest, drop_drop]
      rw [← take_add, Nat.add_sub_cancel' hwant]
      rfl

/-- The loop has read `n` bytes of the response `r`. -/
theorem framedLoop_eq (hr : Framed capacity r) (hn : n < r.length)
    (hk : k.arrived = r.drop n) (hfuel : r.length - n ≤ fuel) :
    ∃ reads, framedLoop capacity fuel (r.take n) (if n < responseHeaderSize then 0 else r.length) k
      = some (r, ⟨[], k.sizes, reads⟩) := by
  obtain ⟨hleast, hcap, hlen⟩ := hr
  induction fuel generalizing n k with
  | zero => omega
  | succ fuel ih =>
    have htake : (r.take n).length = n := by
      rw [length_take]
      omega
    have harrived : k.arrived.length = r.length - n := by rw [hk, length_drop]
    obtain ⟨m, reads, hm, hwant, hin, hread⟩ := @read_eq k (capacity - n)
      (length_pos_iff.1 (by omega)) (by omega)
    have hnow : r.take n ++ k.arrived.take m = r.take (n + m) := by rw [hk, take_add]
    have hsize : (r.take (n + m)).length = n + m := by
      rw [length_take]
      omega
    have hexpected : (if responseHeaderSize ≤ n + m ∧
        (if n < responseHeaderSize then 0 else r.length) = 0 then responseLen (r.take (n + m))
        else (if n < responseHeaderSize then 0 else r.length))
        = if n + m < responseHeaderSize then 0 else r.length := by
      by_cases hbegin : responseHeaderSize ≤ n + m
      · rw [hlen _ hbegin, if_neg (by omega : ¬ n + m < responseHeaderSize)]
        by_cases hless : n < responseHeaderSize
        · rw [if_pos hless, if_pos ⟨hbegin, rfl⟩]
        · rw [if_neg hless, ite_self]
      · rw [if_neg (fun h => hbegin h.1), if_pos (by omega), if_pos (by omega)]
    rw [framedLoop, htake, if_neg (by omega), hread]
    simp only [hnow, hsize, hexpected]
    by_cases hdone : n + m = r.length
    · have hnot : ¬ n + m < responseHeaderSize := by omega
      refine ⟨reads, ?_⟩
      rw [if_neg hnot, if_neg (by omega), if_neg (by omega), if_pos hdone, hdone, take_length,
        hk, drop_drop, hdone, drop_length]
    · obtain ⟨reads', hrest⟩ := ih (n := n + m) (k := ⟨k.arrived.drop m, k.sizes, reads⟩) (by omega)
        (by simp [hk]) (by omega)
      refine ⟨reads', ?_⟩
      by_cases hless : n + m < responseHeaderSize
      · rw [if_pos hless] at hrest ⊢
        rw [if_neg (by omega), if_neg (by omega), if_neg (by omega), if_neg (by omega), hrest]
      · rw [if_neg hless] at hrest ⊢
        rw [if_neg (by omega), if_neg (by omega), if_neg hdone, if_neg (by omega), hrest]

theorem readFramedResponse_eq (hr : Framed capacity r) (hk : k.arrived = r) :
    ∃ reads, readFramedResponse capacity k = some (r, ⟨[], k.sizes, reads⟩) := by
  rw [readFramedResponse, if_neg (Nat.not_lt.2 (Nat.le_trans hr.least hr.most)), hk]
  have hpos : 0 < r.length := Nat.lt_of_lt_of_le (by decide) hr.least
  exact framedLoop_eq (n := 0) hr hpos (by rw [hk, drop_zero]) (by omega)

/-! ## The commands of a connection -/

/-- What a client is to have of a command: its structure and content, with the length of the
response in the header, and the messages that fit. -/
def expectedResponse (c : ServedCommand) : ReceivedResponse :=
  ⟨withLength c.data (sentResponse c).length, fitted ipcLogBufferSize c.logs⟩

theorem sentResponse_eq {c : ServedCommand} (hc : c.Fits) : sentResponse c
    = trailed (withLength c.data (sentResponse c).length) (fitted ipcLogBufferSize c.logs) := by
  rw [length_sentResponse hc, sentResponse]

theorem readAnswer_eq {c : ServedCommand} (hc : c.Fits)
    (hk : k.arrived = sentResponse c) :
    ∃ reads, readAnswer k = some (expectedResponse c, ⟨[], k.sizes, reads⟩) := by
  obtain ⟨reads, hread⟩ := readFramedResponse_eq (sentResponse_framed hc) hk
  have hfit := length_fitted_le ipcLogBufferSize c.logs
  refine ⟨reads, ?_⟩
  rw [readAnswer, hread]
  simp only [bind_eq_bind, bind_some]
  rw [sentResponse_eq hc, dispatchResponseLogs_trailed _ hfit, responseContentLength_trailed _ hfit]
  simp only [bind_some, trailed, append_assoc, take_left]
  rfl

theorem readResponseTail_eq (size : Nat) {front : Bytes}
    (hfit : (ms.flatMap logRecord).length ≤ ipcLogBufferSize) (hk : k.arrived = trailed front ms) :
    ∃ reads, readResponseTail (size + (trailed front ms).length) size k
      = some (⟨front, ms⟩, ⟨[], k.sizes, reads⟩) := by
  obtain ⟨reads, hread⟩ := readBytesWithTimeout_eq (k := k) (Nat.le_refl (trailed front ms).length)
    (Nat.le_of_eq (congrArg length hk).symm)
  refine ⟨reads, ?_⟩
  have hsize := length_trailed front ms
  rw [readResponseTail, if_neg (by omega), Nat.add_sub_cancel_left, hread, hk]
  simp only [bind_eq_bind, bind_some, take_length, drop_length,
    dispatchResponseLogs_trailed _ hfit, responseContentLength_trailed _ hfit]
  simp only [trailed, append_assoc, take_left]
  rfl

theorem readResponse_eq {c : ServedCommand} (hc : c.Fits)
    (hk : k.arrived = sentResponse c) :
    ∃ reads, readResponse c.reader k = some (expectedResponse c, ⟨[], k.sizes, reads⟩) := by
  cases hreader : c.reader with
  | answer => exact readAnswer_eq hc hk
  | tail size =>
    obtain ⟨hlo, hhi⟩ := hc.size size hreader
    have hfit := length_fitted_le ipcLogBufferSize c.logs
    have hlength := length_withLength (n := (sentResponse c).length) hc.header
    have hbytes := sentResponse_eq hc
    generalize hall : withLength c.data (sentResponse c).length = all at hlength hbytes
    have htotal : (sentResponse c).length
        = size + (trailed (all.drop size) (fitted ipcLogBufferSize c.logs)).length := by
      rw [hbytes, length_trailed, length_trailed, length_drop]
      omega
    have hin : size ≤ k.arrived.length := by
      rw [hk]
      omega
    obtain ⟨reads, hfront⟩ := readBytesWithTimeout_eq (Nat.le_refl size) hin
    have hbehind : k.arrived.drop size
        = trailed (all.drop size) (fitted ipcLogBufferSize c.logs) := by
      rw [hk, hbytes, trailed, trailed, append_assoc, append_assoc,
        drop_append_of_le_length (by omega)]
    have hstructure : k.arrived.take size = all.take size := by
      rw [hk, hbytes, trailed, append_assoc, take_append_of_le_length (by omega)]
    have hlen : responseLen (k.arrived.take size)
        = size + (trailed (all.drop size) (fitted ipcLogBufferSize c.logs)).length := by
      rw [hk, (sentResponse_framed hc).tells _ hlo, htotal]
    obtain ⟨reads', htail⟩ := readResponseTail_eq size
      (k := ⟨k.arrived.drop size, k.sizes, reads⟩) hfit hbehind
    refine ⟨reads', ?_⟩
    rw [readResponse, hfront]
    simp only [bind_eq_bind, bind_some, hlen, htail]
    rw [hstructure, take_append_drop, expectedResponse, hall]
    rfl

/-- Every response comes back with its structure, its content and the log messages that fit,
whatever the reads find, and fits the client's buffer; the client then stands at the beginning of the
next response. No message may be logged into a full buffer. -/
theorem responses_come_back {cs : List ServedCommand} (hfits : ∀ c ∈ cs, c.Fits)
    (hfull : ∀ c ∈ cs, NeverFull ipcLogBufferSize c.logs) (hk : k.arrived = []) :
    (∃ reads, serveCommands cs k = some (cs.map expectedResponse, ⟨[], k.sizes, reads⟩)) ∧
      ∀ c ∈ cs, ∃ r, respond c.logs c.data = some r ∧ r.length ≤ connectionDataSize := by
  refine ⟨?_, fun c hc => ⟨_, respond_eq (hfits c hc) (hfull c hc),
    (sentResponse_framed (hfits c hc)).most⟩⟩
  induction cs generalizing k with
  | nil => exact ⟨k.reads, by rw [← hk]; rfl⟩
  | cons c cs ih =>
    have hc := hfits c mem_cons_self
    obtain ⟨reads, hread⟩ := readResponse_eq (k := { k with arrived := k.arrived ++ sentResponse c })
      hc (by rw [hk, nil_append])
    obtain ⟨reads', hrest⟩ := ih (fun c h => hfits c (mem_cons_of_mem _ h))
      (fun c h => hfull c (mem_cons_of_mem _ h)) (k := ⟨[], k.sizes, reads⟩) rfl
    refine ⟨reads', ?_⟩
    rw [serveCommands, respond_eq hc (hfull c mem_cons_self)]
    simp only [bind_eq_bind, bind_some, hread, hrest]
    rfl

/-- A login's response read as a whole and a directory's in two parts, with two messages logged for
the first. -/
theorem responses_come_back_two :
    let cs : List ServedCommand := [⟨[⟨2, [0x6f, 0x6b]⟩, ⟨4, []⟩], replicate 12 1, .answer⟩,
      ⟨[], replicate 20 2, .tail 12⟩]
    (∃ reads, serveCommands cs ⟨[], fun n => n, 0⟩
      = some (cs.map expectedResponse, ⟨[], fun n => n, reads⟩)) ∧
      ∀ c ∈ cs, ∃ r, respond c.logs c.data = some r ∧ r.length ≤ connectionDataSize := by
  intro cs
  have hfits : ∀ c ∈ cs, c.Fits := by
    intro c hc
    simp only [cs, mem_cons, not_mem_nil, or_false] at hc
    rcases hc with rfl | rfl
    · exact ⟨by decide, by decide, fun size h => by simp at h⟩
    · refine ⟨by decide, by decide, fun size h => ?_⟩
      obtain rfl := ResponseReader.tail.inj h
      decide
  exact responses_come_back hfits (by decide) (k := ⟨[], fun n => n, 0⟩) rfl

/-- A message that fills the buffer fits, and is lost when another is logged behind it: the client is
handed the other one alone, whatever its reads find. -/
theorem full_log_buffer_lost :
    let full : LogMessage := ⟨2, replicate 4088 0x61⟩
    let next : LogMessage := ⟨2, [0x78]⟩
    fitted ipcLogBufferSize [full, next] = [full] ∧
      ∀ k : ClientSocket, k.arrived = [] → ∃ r k', r.logs = [next] ∧
        serveCommands [⟨[full, next], replicate 12 1, .answer⟩] k = some ([r], k') := by
  intro full next
  have hfull : full.text.length = 4088 := length_replicate
  constructor
  · rw [fitted, if_neg (by decide), roomBehind, hfull, fitted, if_pos (by decide), fitted,
      take_of_length_le (by rw [hfull]; decide)]
  · intro k hk
    have hrecord : daemonLogForClient [] full = logRecord full := by
      rw [daemonLogForClient, if_pos (by decide), ite_self, nil_append,
        take_of_length_le (by rw [hfull]; decide)]
    have hrespond : ∀ data, respond [full, next] data = respond [next] data := by
      intro data
      have hsize : (logRecord full).length = logRecordSize + 4088 :=
        (length_logRecord full).trans (congrArg (logRecordSize + ·) hfull)
      have hreset := daemonLogForClient_full (Nat.le_of_eq hsize.symm) next
      simp [respond, hrecord, hreset]
    have hc : ServedCommand.Fits ⟨[next], replicate 12 1, .answer⟩ :=
      ⟨by decide, by decide, fun size h => by simp at h⟩
    obtain ⟨reads, hread⟩ := readResponse_eq
      (k := { k with arrived := k.arrived ++ sentResponse ⟨[next], replicate 12 1, .answer⟩ })
      hc (by rw [hk, nil_append])
    refine ⟨expectedResponse ⟨[next], replicate 12 1, .answer⟩, ⟨[], k.sizes, reads⟩, by decide, ?_⟩
    simp only [hrespond, bind_eq_bind, bind_some, hread, serveCommands, respond_eq hc (by decide)]
    rfl

end NC
