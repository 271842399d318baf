import NetatalkClient.Model.Login.Uams

/-!
# The buffers of `srp_login` and `dhx2_login`

The two logins from the first reply to the second request (`uams_srp.c`, `uams_dhx2.c`), with each
read and write at its place in a buffer of its own size. What has no defined outcome is a `Misuse`: an
access outside a buffer, and a modulus of zero in a call of libgcrypt.
-/

namespace NC

inductive Misuse where
  | outside
  | zeroModulus
  deriving DecidableEq, Repr

/-- `len` bytes from a position of a buffer on. -/
def readAt (buf : Bytes) (pos len : Nat) : Except Misuse Bytes :=
  if pos + len ≤ buf.length then .ok ((buf.drop pos).take len) else .error .outside

/-- `memcpy` to a position of a buffer, which may come out before its start. -/
def memcpyAt (buf : Bytes) (pos : Int) (src : Bytes) : Except Misuse Bytes :=
  if 0 ≤ pos ∧ pos + src.length ≤ buf.length then
    .ok (buf.take pos.toNat ++ src ++ buf.drop (pos.toNat + src.length))
  else .error .outside

def mpiMod (x m : Nat) : Except Misuse Nat :=
  if m = 0 then .error .zeroModulus else .ok (x % m)

def mpiPowm (b e m : Nat) : Except Misuse Nat := mpiMod (b ^ e) m

/-- `gcry_mpi_print` of a number below `256 ^ nbytes` to the start of a buffer, from where it is moved
to the end of `nbytes` bytes. -/
def printPadded (buf : Bytes) (nbytes x : Nat) : Except Misuse Bytes := do
  let s := (natBe nbytes x).dropWhile (· == 0)
  let buf ← memcpyAt buf 0 s
  if s.length < nbytes then
    let buf ← memcpyAt buf (nbytes - s.length) s
    memcpyAt buf 0 (List.replicate (nbytes - s.length) 0)
  else return buf

/-! ## SRP -/

/-- A length and as many bytes at position `d` of the reply, of which `size` bytes were received; and
the position behind them. -/
def readFieldAt (rbuf : Bytes) (size limit d : Nat) : Except Misuse (Option (Bytes × Nat)) := do
  if size < d + 2 then return none
  let len := beNat (← readAt rbuf d 2)
  if limit < len ∨ size < d + 2 + len then return none
  return some (← readAt rbuf (d + 2) len, d + 2 + len)

def parseSrpParamsAt (rbuf : Bytes) (size : Nat) : Except Misuse (Option SrpParams) := do
  if size < 8 then return none
  let some (N, d) ← readFieldAt rbuf size SRP_MAX_NBYTES 4 | return none
  let some (g, d) ← readFieldAt rbuf size SRP_MAX_NBYTES d | return none
  let some (salt, d) ← readFieldAt rbuf size 65535 d | return none
  let some (B, _) ← readFieldAt rbuf size SRP_MAX_NBYTES d | return none
  return some ⟨N, g, salt, B⟩

/-- The loop that draws `a`, over the numbers that `gcry_randomize` gives. -/
def drawA (g N : Nat) : List Nat → Except Misuse (Option Nat)
  | [] => return none
  | r :: draws => do
    let a ← mpiMod r N
    let A ← mpiPowm g a N
    if A = 0 then drawA g N draws else return some a

/-- What `srp_login` makes of the first reply. -/
inductive SrpRound where
  | refused
  /-- The numbers are used up, and the loop draws on. -/
  | drawing
  /-- The second request's authinfo, and the proof to expect. -/
  | request (ai M2 : Bytes)
  deriving DecidableEq, Repr

/-- `srp_login` from the exponent `a` on. -/
def srpAnswer (G : Gcrypt) (username passwd : Bytes) (q : SrpParams) (a : Nat) :
    Except Misuse SrpRound := do
  let N := beNat q.N
  let nbytes := q.N.length
  let x := srpX G username passwd q.salt
  let v ← mpiPowm (beNat q.g) x N
  let A ← mpiPowm (beNat q.g) a N
  let A_buf ← printPadded (List.replicate SRP_MAX_NBYTES 0) nbytes A
  let B_buf ← memcpyAt (List.replicate SRP_MAX_NBYTES 0) (nbytes - q.B.length) q.B
  let PA ← readAt A_buf 0 nbytes
  let u := beNat (G.sha1 (PA ++ (← readAt B_buf 0 nbytes)))
  if u = 0 then return .refused
  let g_padded ← memcpyAt (List.replicate SRP_MAX_NBYTES 0) (nbytes - 1) [q.gByte]
  let k := beNat (G.sha1 (q.N ++ (← readAt g_padded 0 nbytes)))
  let kv ← mpiMod (k * v) N
  let diff ← mpiMod (beNat q.B + (N - kv)) N
  let S ← mpiPowm diff (a + u * x) N
  let S_binary ← printPadded (List.replicate nbytes 0) nbytes S
  let K := mgf1Sha1 G (stripLeadingZeros S_binary) 40
  let xorNg := List.zipWith (· ^^^ ·) (G.sha1 (stripLeadingZeros q.N)) (G.sha1 [q.gByte])
  let M1 := G.sha1 (xorNg ++ G.sha1 (username.take AFP_MAX_USERNAME_LEN) ++ q.salt ++
    stripLeadingZeros PA ++ stripLeadingZeros q.B ++ K)
  return .request ([0, 3] ++ natBe 2 nbytes ++ PA ++ [0, UInt8.ofNat SRP_SHA1_LEN] ++ M1)
    (G.sha1 (stripLeadingZeros PA ++ M1 ++ K))

/-- `srp_login` from the loop on. -/
def srpDraw (G : Gcrypt) (username passwd : Bytes) (q : SrpParams) (draws : List Nat) :
    Except Misuse SrpRound := do
  let some a ← drawA (beNat q.g) (beNat q.N) draws | return .drawing
  srpAnswer G username passwd q a

/-- `srp_login` from the first reply to the second request. -/
def srpRound (G : Gcrypt) (username passwd payload : Bytes) (draws : List Nat) :
    Except Misuse SrpRound := do
  let some q ← parseSrpParamsAt (rxData srpReplyMax payload) (min payload.length srpReplyMax)
    | return .refused
  if (← mpiMod (beNat q.B) (beNat q.N)) = 0 then return .refused
  srpDraw G username passwd q draws

/-! ## DHX2 -/

/-- The numbers of the first reply; `none` is a reply that is refused. -/
def parseDhx2ParamsAt (rbuf : Bytes) : Except Misuse (Option Dhx2Params) := do
  let id := beNat (← readAt rbuf 0 2)
  let g := beNat (← readAt rbuf 2 4)
  let len := beNat (← readAt rbuf 6 2)
  if 256 < len then return none
  let p := beNat (← readAt rbuf 8 len)
  let Mb := beNat (← readAt rbuf (8 + len) len)
  return some ⟨id, g, len, p, Mb⟩

/-- `dhx2_login` from the random number `Ra` on: the authinfo of the second request, or `none` when
the cipher reports an error. -/
def dhx2Answer (G : Gcrypt) (nonce : Bytes) (q : Dhx2Params) (Ra : Nat) :
    Except Misuse (Option Bytes) := do
  let Ma ← mpiPowm q.g Ra q.p
  let K ← mpiPowm q.Mb Ra q.p
  let K_binary ← printPadded (List.replicate q.len 0) q.len K
  let key := G.md5 K_binary
  if !G.cast5Setkey key then return none
  let ai ← printPadded (List.replicate (q.len + 16) 0) q.len Ma
  match G.cast5Encrypt key dhxC2siv nonce with
  | none => return none
  -- as many bytes as the nonce has
  | some crypted => return some (← memcpyAt ai q.len (rxData 16 crypted))

/-- `dhx2_login` from the first reply to the second request. -/
def dhx2Round (G : Gcrypt) (payload nonce : Bytes) (Ra : Nat) : Except Misuse (Option Bytes) := do
  let some q ← parseDhx2ParamsAt (rxData (2 + 4 + 2 + 256 * 2) payload) | return none
  dhx2Answer G nonce q Ra

end NC
