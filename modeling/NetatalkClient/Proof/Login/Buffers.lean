import NetatalkClient.Model.Login.Buffers
import NetatalkClient.Proof.Login.Srp

/-!
# The first reply of a login and the client's buffers

`parseSrpParamsAt_eq` reads every reply inside the buffer. From then on a modulus of zero is a misuse,
and otherwise the padded copies hold what the values of `srpValues` were computed from
(`srpAnswer_eq`), but for a `B` longer than N, which is copied to a place before its buffer
(`srpAnswer_outside`). `first_reply_handled_iff` says for which replies the two logins stay defined.
-/

namespace NC

open List Option

/-! ## Accesses -/

section

variable {buf src : Bytes} {n pos len : Nat}

theorem readAt_ok (h : pos + len ≤ buf.length) : readAt buf pos len = .ok ((buf.drop pos).take len) :=
  if_pos h

theorem memcpyAt_ok (h : pos + src.length ≤ buf.length) :
    memcpyAt buf pos src = .ok (buf.take pos ++ src ++ buf.drop (pos + src.length)) := by
  rw [memcpyAt, if_pos (by omega)]
  rfl

theorem readAt_front {s : Bytes} (buf : Bytes) (h : s.length = n) : readAt (s ++ buf) 0 n = .ok s := by
  rw [readAt_ok (by simp; omega), drop_zero, take_left' h]

theorem copied_at_end (src : Bytes) (cap : Nat) (hsrc : src.length ≤ n) (hcap : n ≤ cap) :
    ∃ b, memcpyAt (replicate cap 0) (n - src.length) src = .ok b ∧
      readAt b 0 n = .ok (padTo n src) := by
  refine ⟨_, ?_, readAt_front ((replicate cap 0).drop n) ?_⟩
  · rw [show (n : Int) - src.length = ((n - src.length : Nat) : Int) by omega,
      memcpyAt_ok (by simp; omega), Nat.sub_add_cancel hsrc, take_replicate,
      Nat.min_eq_left (by omega), padTo, Nat.sub_eq_zero_of_le hsrc, drop_zero]
  · simp [padTo]
    omega

theorem exists_zeros (b : Bytes) : ∃ k, b = replicate k 0 ++ b.dropWhile (· == 0) := by
  induction b with
  | nil => exact ⟨0, rfl⟩
  | cons c b ih =>
    by_cases hc : c = 0
    · obtain ⟨k, hk⟩ := ih
      subst hc
      exact ⟨k + 1, congrArg (0 :: ·) hk⟩
    · exact ⟨0, by rw [dropWhile_cons_of_neg (by simpa using hc)]; rfl⟩

theorem printPadded_ok {x : Nat} (h : n ≤ buf.length) :
    printPadded buf n x = .ok (natBe n x ++ buf.drop n) := by
  obtain ⟨k, hk⟩ := exists_zeros (natBe n x)
  have hlen : k + ((natBe n x).dropWhile (· == 0)).length = n := by
    have := congrArg length hk
    rw [length_append, length_replicate, length_natBe] at this
    exact this.symm
  simp only [printPadded]
  generalize (natBe n x).dropWhile (· == 0) = s at hk hlen ⊢
  subst hlen
  have hfirst := memcpyAt_ok (show 0 + s.length ≤ buf.length by omega)
  rw [Nat.zero_add, take_zero, nil_append] at hfirst
  have hbehind : (s ++ buf.drop s.length).drop (k + s.length) = buf.drop (k + s.length) := by
    rw [drop_append, drop_eq_nil_of_le (by omega), drop_drop, nil_append]
    congr 1
    omega
  generalize hbuf : s ++ buf.drop s.length = moved at hfirst hbehind
  have hmoved : k + s.length ≤ moved.length := by
    rw [← hbuf]
    simp
    omega
  have hzeros : memcpyAt (moved.take k ++ s ++ moved.drop (k + s.length)) ((0 : Nat) : Int)
      (replicate k 0) = .ok (replicate k 0 ++ s ++ moved.drop (k + s.length)) := by
    rw [memcpyAt_ok (by simp; omega), length_replicate, Nat.zero_add, take_zero,
      nil_append, append_assoc (moved.take k),
      drop_left' (length_take_of_le (by omega)), append_assoc]
  rw [hk, show (0 : Int) = ((0 : Nat) : Int) from rfl, hfirst,
    show ((k + s.length : Nat) : Int) - s.length = k by omega]
  simp only [bind, Except.bind, memcpyAt_ok hmoved]
  split
  · rw [Nat.add_sub_cancel, hzeros, hbehind]
  · have hk0 : k = 0 := by omega
    subst hk0
    rw [← hbuf]
    simp [pure, Except.pure]

end

/-! ## SRP -/

section

variable {rbuf : Bytes} {size limit d : Nat}

theorem readFieldAt_eq (hsize : size ≤ rbuf.length) : ∃ r, readFieldAt rbuf size limit d = .ok r ∧
    readField limit ((rbuf.take size).drop d) =
      r.map fun f => (f.1, (rbuf.take size).drop f.2) := by
  have hlen : ((rbuf.take size).drop d).length = size - d := by simp; omega
  simp only [readFieldAt, readField]
  by_cases hshort : size < d + 2
  · exact ⟨none, by rw [if_pos hshort]; rfl, by rw [if_pos (by omega)]; rfl⟩
  · have htwo : ((rbuf.take size).drop d).take 2 = (rbuf.drop d).take 2 := by
      rw [drop_take, take_take, Nat.min_eq_left (by omega)]
    rw [if_neg hshort, if_neg (by omega), readAt_ok (by omega), htwo]
    simp only [bind, Except.bind]
    generalize beNat ((rbuf.drop d).take 2) = len
    simp only [drop_drop, length_drop, length_take]
    by_cases hfit : limit < len ∨ size < d + 2 + len
    · exact ⟨none, by rw [if_pos hfit]; rfl, by rw [if_pos (by omega)]; rfl⟩
    · refine ⟨some ((rbuf.drop (d + 2)).take len, d + 2 + len), ?_, ?_⟩
      · rw [if_neg hfit, readAt_ok (by omega)]
        rfl
      · rw [if_neg (by omega)]
        simp only [map_some, drop_take, take_take]
        rw [Nat.min_eq_left (by omega)]

/-- A field and what follows it, in the buffer and in the bytes received. -/
theorem readFieldAt_then {k : Option (Bytes × Nat) → Except Misuse (Option SrpParams)}
    {k' : Bytes × Bytes → Option SrpParams} (hsize : size ≤ rbuf.length) (hnone : k none = .ok none)
    (hsome : ∀ s d, k (some (s, d)) = .ok (k' (s, (rbuf.take size).drop d))) :
    readFieldAt rbuf size limit d >>= k =
      .ok (readField limit ((rbuf.take size).drop d) >>= k') := by
  obtain ⟨r, hr, he⟩ := readFieldAt_eq hsize
  rw [hr, he]
  cases r with
  | none => exact hnone
  | some f => exact hsome f.1 f.2

theorem parseSrpParamsAt_eq (hsize : size ≤ rbuf.length) :
    parseSrpParamsAt rbuf size = .ok (parseSrpParams (rbuf.take size)) := by
  rw [parseSrpParamsAt, parseSrpParams, length_take_of_le hsize]
  by_cases hshort : size < 8
  · rw [if_pos hshort, if_pos hshort]
    rfl
  · rw [if_neg hshort, if_neg hshort]
    refine readFieldAt_then hsize rfl fun N d => ?_
    refine readFieldAt_then hsize rfl fun g d => ?_
    refine readFieldAt_then hsize rfl fun salt d => ?_
    exact readFieldAt_then hsize rfl fun B d => rfl

theorem parse_payload (payload : Bytes) :
    parseSrpParamsAt (rxData srpReplyMax payload) (min payload.length srpReplyMax) =
      .ok (parseSrpParams (payload.take srpReplyMax)) := by
  rw [parseSrpParamsAt_eq (by simp [rxData]; omega), rxData,
    take_left' (by rw [length_take, Nat.min_comm])]

theorem N_length_le {payload : Bytes} {q : SrpParams} (h : parseSrpParams payload = some q) :
    q.N.length ≤ SRP_MAX_NBYTES := by
  simp only [parseSrpParams] at h
  split at h
  · cases h
  · obtain ⟨⟨N, d⟩, hN, h⟩ := bind_eq_some_iff.1 h
    obtain ⟨g, -, h⟩ := bind_eq_some_iff.1 h
    obtain ⟨salt, -, h⟩ := bind_eq_some_iff.1 h
    obtain ⟨B, -, h⟩ := bind_eq_some_iff.1 h
    cases h
    simp only [readField] at hN
    split at hN
    · cases hN
    · split at hN
      · cases hN
      · cases hN
        simp
        omega

theorem drawA_ok {g N : Nat} (hN : N ≠ 0) (draws : List Nat) : ∃ r, drawA g N draws = .ok r := by
  induction draws with
  | nil => exact ⟨none, rfl⟩
  | cons r draws ih =>
    simp only [drawA, mpiPowm, mpiMod, if_neg hN, bind, Except.bind]
    split
    · exact ih
    · exact ⟨_, rfl⟩

variable {G : Gcrypt} {username passwd : Bytes} {q : SrpParams} {a : Nat}

/-- With `B` no longer than N the buffers hold the padded numbers. -/
theorem srpAnswer_eq (hN : beNat q.N ≠ 0) (hmax : q.N.length ≤ SRP_MAX_NBYTES)
    (hB : q.B.length ≤ q.N.length) :
    srpAnswer G username passwd q a = .ok (if srpU G q a = 0 then .refused else
      let z := srpValues G username passwd q a
      .request ([0, 3] ++ natBe 2 q.N.length ++ z.A ++ [0, UInt8.ofNat SRP_SHA1_LEN] ++ z.M1) z.M2) := by
  have hpos : 1 ≤ q.N.length := by
    rcases hlen : q.N with _ | ⟨c, b⟩
    · exact absurd (congrArg beNat hlen) hN
    · simp
  obtain ⟨bB, hbB, hPB⟩ := copied_at_end q.B SRP_MAX_NBYTES hB hmax
  obtain ⟨bg, hbg, hPg⟩ := copied_at_end [q.gByte] SRP_MAX_NBYTES hpos hmax
  have hzeros : ∀ cap, q.N.length ≤ cap → q.N.length ≤ (replicate cap (0 : UInt8)).length :=
    fun cap h => by simpa using h
  rw [show (([q.gByte] : Bytes).length : Int) = 1 from rfl] at hbg
  simp only [srpAnswer, mpiPowm, mpiMod, if_neg hN, bind, Except.bind,
    printPadded_ok (hzeros _ hmax), printPadded_ok (hzeros _ (Nat.le_refl _)), hbB, hbg, hPB, hPg,
    readAt_front _ (length_natBe q.N.length _)]
  split
  · next hu => rw [if_pos (show srpU G q a = 0 from hu)]; rfl
  · next hu =>
    rw [if_neg (show ¬srpU G q a = 0 from hu)]
    simp [srpValues, srpU, pure, Except.pure]

theorem srpAnswer_outside (hN : beNat q.N ≠ 0) (hmax : q.N.length ≤ SRP_MAX_NBYTES)
    (hB : q.N.length < q.B.length) : srpAnswer G username passwd q a = .error .outside := by
  have hout : memcpyAt (replicate SRP_MAX_NBYTES 0) ((q.N.length : Int) - q.B.length) q.B =
      .error .outside := if_neg (by omega)
  simp [srpAnswer, mpiPowm, mpiMod, if_neg hN, bind, Except.bind,
    printPadded_ok (show q.N.length ≤ (replicate SRP_MAX_NBYTES (0 : UInt8)).length by simpa),
    hout]

end

/-! ## DHX2 -/

theorem parseDhx2ParamsAt_eq {d : Bytes} (hd : d.length = 2 + 4 + 2 + 256 * 2) :
    parseDhx2ParamsAt d = .ok (if 256 < (parseDhx2Params d).len then none
      else some (parseDhx2Params d)) := by
  simp only [parseDhx2ParamsAt, readAt_ok (show 0 + 2 ≤ d.length by omega),
    readAt_ok (show 2 + 4 ≤ d.length by omega), readAt_ok (show 6 + 2 ≤ d.length by omega), bind,
    Except.bind]
  have hlen : beNat ((d.drop 6).take 2) = (parseDhx2Params d).len := rfl
  simp only [hlen]
  split
  · rfl
  · rw [readAt_ok (by omega), readAt_ok (by omega)]
    rfl

variable {nonce : Bytes} {Ra : Nat}

theorem dhx2Answer_zero {G : Gcrypt} {q : Dhx2Params} (hp : q.p = 0) :
    dhx2Answer G nonce q Ra = .error .zeroModulus := by
  simp [dhx2Answer, mpiPowm, mpiMod, if_pos hp, bind, Except.bind]

theorem dhx2Answer_eq {G : Gcrypt} {q : Dhx2Params} (hp : q.p ≠ 0) :
    dhx2Answer G nonce q Ra =
      let key := G.md5 (natBe q.len (q.Mb ^ Ra % q.p))
      .ok (if !G.cast5Setkey key then none
        else (G.cast5Encrypt key dhxC2siv nonce).map fun crypted =>
          natBe q.len (q.g ^ Ra % q.p) ++ rxData 16 crypted) := by
  have hK : (replicate q.len (0 : UInt8)).drop q.len = [] := by simp
  simp only [dhx2Answer, mpiPowm, mpiMod, if_neg hp, bind, Except.bind,
    printPadded_ok (show q.len ≤ (replicate q.len (0 : UInt8)).length by simp),
    printPadded_ok (show q.len ≤ (replicate (q.len + 16) (0 : UInt8)).length by simp),
    hK, append_nil]
  split
  · rfl
  · cases G.cast5Encrypt (G.md5 (natBe q.len (q.Mb ^ Ra % q.p))) dhxC2siv nonce with
    | none => rfl
    | some crypted =>
      have hlen : (rxData 16 crypted).length = 16 := by simp [rxData]; omega
      simp only
      rw [memcpyAt_ok (by simp [hlen]), take_left' (length_natBe _ _), hlen,
        drop_eq_nil_of_le (by simp), append_nil]
      rfl

/-! ## Which replies are handled -/

/-- `srp_login` stays defined on the reply whatever it draws, and refuses it if the generator is a
multiple of the modulus. -/
def SrpHandled (payload : Bytes) : Prop :=
  ∀ G username passwd draws, ∃ r, srpRound G username passwd payload draws = .ok r ∧
    ∀ q, parseSrpParams (payload.take srpReplyMax) = some q → beNat q.N ∣ beNat q.g → r = .refused

/-- The numbers of the first reply of a DHX2 login. -/
def dhx2Numbers (payload : Bytes) : Dhx2Params :=
  parseDhx2Params (rxData (2 + 4 + 2 + 256 * 2) payload)

/-- `dhx2_login` stays defined on the reply whatever it draws, and refuses it if the generator is a
multiple of the modulus. -/
def Dhx2Handled (payload : Bytes) : Prop :=
  ∀ G nonce Ra, ∃ r, dhx2Round G payload nonce Ra = .ok r ∧
    ((dhx2Numbers payload).p ∣ (dhx2Numbers payload).g → r = none)

/-- The relations between the fields of the first reply that `srp_login` rests on and does not
check. -/
structure SrpParams.Fit (q : SrpParams) : Prop where
  modulus : beNat q.N ≠ 0
  rest : beNat q.B % beNat q.N = 0 ∨ q.B.length ≤ q.N.length ∧ ¬beNat q.N ∣ beNat q.g

section

variable {payload : Bytes} {draws : List Nat}

theorem srpRound_refused {G : Gcrypt} {username passwd : Bytes}
    (h : parseSrpParams (payload.take srpReplyMax) = none) :
    srpRound G username passwd payload draws = .ok .refused := by
  rw [srpRound, parse_payload, h]
  rfl

theorem srpRound_some {G : Gcrypt} {username passwd : Bytes} {q : SrpParams}
    (h : parseSrpParams (payload.take srpReplyMax) = some q) (hN : beNat q.N ≠ 0) :
    srpRound G username passwd payload draws =
      if beNat q.B % beNat q.N = 0 then .ok .refused else srpDraw G username passwd q draws := by
  simp only [srpRound, parse_payload, h, mpiMod, if_neg hN, bind, Except.bind]
  rfl

theorem srpHandled_of_fit
    (h : ∀ q, parseSrpParams (payload.take srpReplyMax) = some q → q.Fit) : SrpHandled payload := by
  intro G username passwd draws
  cases hq : parseSrpParams (payload.take srpReplyMax) with
  | none => exact ⟨_, srpRound_refused hq, fun _ _ _ => rfl⟩
  | some q =>
    obtain ⟨hN, hrest⟩ := h q hq
    rw [srpRound_some hq hN]
    by_cases hB : beNat q.B % beNat q.N = 0
    · exact ⟨_, if_pos hB, fun _ _ _ => rfl⟩
    · obtain ⟨hlen, hg⟩ := hrest.resolve_left hB
      have hall : ∀ q', some q = some q' → ¬beNat q'.N ∣ beNat q'.g := by
        rintro q' ⟨⟩
        exact hg
      obtain ⟨r, hr⟩ := drawA_ok (g := beNat q.g) hN draws
      rw [if_neg hB, srpDraw, hr]
      cases r with
      | none => exact ⟨_, rfl, fun q' e hd => absurd hd (hall q' e)⟩
      | some a =>
        exact ⟨_, srpAnswer_eq hN (N_length_le hq) hlen, fun q' e hd => absurd hd (hall q' e)⟩

theorem SrpHandled.fit (h : SrpHandled payload) {q : SrpParams}
    (hq : parseSrpParams (payload.take srpReplyMax) = some q) : q.Fit := by
  have h := h plainGcrypt [] []
  have hN : beNat q.N ≠ 0 := by
    intro hN
    obtain ⟨r, hr, -⟩ := h []
    simp only [srpRound, parse_payload, hq, mpiMod, if_pos hN, bind, Except.bind] at hr
    cases hr
  refine ⟨hN, Classical.or_iff_not_imp_left.2 fun hB => ⟨?_, fun hd => ?_⟩⟩
  · -- zero is drawn, and the loop ends
    obtain ⟨r, hr, -⟩ := h [0]
    have hone : 1 % beNat q.N ≠ 0 := by
      rw [Nat.mod_eq_of_lt] <;> grind
    have hdraw : drawA (beNat q.g) (beNat q.N) [0] = .ok (some 0) := by
      simp [drawA, mpiPowm, mpiMod, hN, hone, bind, Except.bind, pure, Except.pure]
    rw [srpRound_some hq hN, if_neg hB, srpDraw, hdraw] at hr
    refine Nat.le_of_not_lt fun hlt => ?_
    exact nomatch (srpAnswer_outside hN (N_length_le hq) hlt).symm.trans hr
  · -- nothing was drawn yet
    obtain ⟨r, hr, href⟩ := h []
    rw [srpRound_some hq hN, if_neg hB, srpDraw] at hr
    cases hr
    cases href q hq hd

theorem dhx2Handled_iff (payload : Bytes) :
    Dhx2Handled payload ↔ 256 < (dhx2Numbers payload).len ∨
      (dhx2Numbers payload).p ≠ 0 ∧ ¬(dhx2Numbers payload).p ∣ (dhx2Numbers payload).g := by
  have hparse := parseDhx2ParamsAt_eq (d := rxData (2 + 4 + 2 + 256 * 2) payload)
    (by simp [rxData]; omega)
  simp only [Dhx2Handled, dhx2Round, hparse, dhx2Numbers]
  generalize parseDhx2Params (rxData (2 + 4 + 2 + 256 * 2) payload) = q
  by_cases hlen : 256 < q.len
  · simp only [hlen, true_or, iff_true]
    exact fun _ _ _ => ⟨none, rfl, fun _ => rfl⟩
  · simp only [hlen, false_or]
    constructor
    · intro h
      obtain ⟨r, hr, href⟩ := h plainGcrypt [] 0
      have hp : q.p ≠ 0 := fun hp => nomatch (dhx2Answer_zero hp).symm.trans hr
      refine ⟨hp, fun hd => ?_⟩
      -- without an error of the cipher the second request goes out
      rw [href hd] at hr
      exact nomatch (dhx2Answer_eq hp).symm.trans hr
    · exact fun ⟨hp, hd⟩ G nonce Ra => ⟨_, dhx2Answer_eq hp, fun h => absurd h hd⟩

/-- The first replies on which the two logins stay defined and refuse a generator that is a multiple
of the modulus: for SRP those that do not parse, and those with a modulus and either a `B` that is
refused or one no longer than N and a generator that is no multiple of N; for DHX2 those with a length
that is refused, and those with a prime and a generator that is no multiple of it. -/
theorem first_reply_handled_iff (payload : Bytes) :
    (SrpHandled payload ↔
      ∀ q, parseSrpParams (payload.take srpReplyMax) = some q → q.Fit) ∧
    (Dhx2Handled payload ↔ 256 < (dhx2Numbers payload).len ∨
      (dhx2Numbers payload).p ≠ 0 ∧ ¬(dhx2Numbers payload).p ∣ (dhx2Numbers payload).g) :=
  ⟨⟨fun h _ hq => h.fit hq, srpHandled_of_fit⟩, dhx2Handled_iff payload⟩

/-- A `B` of two bytes with an N of one, an N of zero, a generator that is N itself, a prime of zero,
and a generator that is the prime. -/
theorem first_reply_misused :
    let G := plainGcrypt
    srpRound G [] [] [0, 0, 0, 2, 0, 1, 23, 0, 1, 5, 0, 0, 0, 2, 0, 1] [1] = .error .outside ∧
    srpRound G [] [] [0, 0, 0, 2, 0, 1, 0, 0, 1, 5, 0, 0, 0, 1, 1] [1] = .error .zeroModulus ∧
    srpRound G [] [] [0, 0, 0, 2, 0, 1, 23, 0, 1, 23, 0, 0, 0, 1, 1] [1, 2, 3] = .ok .drawing ∧
    dhx2Round G [0, 1, 0, 0, 0, 5, 0, 1, 0, 1] [] 7 = .error .zeroModulus ∧
    dhx2Round G [0, 1, 0, 0, 0, 23, 0, 1, 23, 1] [] 7 = .ok (some (List.replicate 17 0)) := by
  decide +kernel

end

end NC
