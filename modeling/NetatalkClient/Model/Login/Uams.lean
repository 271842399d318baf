import NetatalkClient.Model.Login.Exchange

/-!
# The logins that ask the server for a proof

`srp_login` (`uams_srp.c`), `dhx2_login` (`uams_dhx2.c`), `randnum2_login`
(`uams_randnum.c`) and `afp_server_login` (`afp.c`) over them. The value with
which each method compares the server's proof is computed by a function of its
own: `srpValues`, `nonceProof` and `randnumProof`.

A method returns `none` where the process does not come back from it: libgcrypt
aborts on a modulus of zero, and the loop that draws SRP's ephemeral is cut
after `draws` rounds.
-/

namespace NC

open Login

def AFP_MAX_USERNAME_LEN : Nat := 127
def AFP_MAX_PASSWORD_LEN : Nat := 127

/-! ## SRP -/

def SRP_SHA1_LEN : Nat := 20
def SRP_MAX_NBYTES : Nat := 256
abbrev SRP_AUTH_FAILURE : Int := -6754

/-- The bytes `srp_login` makes room for in the first reply. -/
def srpReplyMax : Nat :=
  2 + 2 + 2 + SRP_MAX_NBYTES + 2 + SRP_MAX_NBYTES + 2 + 64 + 2 + SRP_MAX_NBYTES

/-- The group, the salt and the server's ephemeral, as the first reply has them. -/
structure SrpParams where
  N : Bytes
  g : Bytes
  salt : Bytes
  B : Bytes
  deriving DecidableEq, Repr

/-- A length of two bytes, at most `limit`, and as many bytes; and what follows. -/
def readField (limit : Nat) (d : Bytes) : Option (Bytes × Bytes) :=
  if d.length < 2 then none
  else
    let len := beNat (d.take 2)
    let d := d.drop 2
    if limit < len ∨ d.length < len then none else some (d.take len, d.drop len)

/-- The part of `srp_login` that parses the first reply. The salt has no limit
but its two bytes of length. -/
def parseSrpParams (d : Bytes) : Option SrpParams := do
  if d.length < 8 then none
  let (N, d) ← readField SRP_MAX_NBYTES (d.drop 4)
  let (g, d) ← readField SRP_MAX_NBYTES d
  let (salt, d) ← readField 65535 d
  let (B, _) ← readField SRP_MAX_NBYTES d
  some ⟨N, g, salt, B⟩

/-- The low byte of `g_val`, which is all the hashes see of the generator. -/
def SrpParams.gByte (q : SrpParams) : UInt8 := UInt8.ofNat (beNat q.g)

def mgf1Sha1 (G : Gcrypt) (seed : Bytes) (len : Nat) : Bytes :=
  ((List.range ((len + SRP_SHA1_LEN - 1) / SRP_SHA1_LEN)).flatMap fun counter =>
    G.sha1 (seed ++ natBe 4 counter)).take len

/-- What the client computes from the parameters and its own random number. -/
structure SrpValues where
  A : Bytes
  M1 : Bytes
  M2 : Bytes
  deriving DecidableEq, Repr

def srpX (G : Gcrypt) (username passwd salt : Bytes) : Nat :=
  beNat (G.sha1 (salt ++ G.sha1
    (username.take AFP_MAX_USERNAME_LEN ++ [58] ++ passwd.take AFP_MAX_PASSWORD_LEN)))

/-- The scrambling parameter `u` of the two ephemerals. -/
def srpU (G : Gcrypt) (q : SrpParams) (a : Nat) : Nat :=
  beNat (G.sha1 (natBe q.N.length (beNat q.g ^ a % beNat q.N) ++ padTo q.N.length q.B))

def srpValues (G : Gcrypt) (username passwd : Bytes) (q : SrpParams) (a : Nat) : SrpValues :=
  let N := beNat q.N
  let nbytes := q.N.length
  let x := srpX G username passwd q.salt
  let v := beNat q.g ^ x % N
  let A := natBe nbytes (beNat q.g ^ a % N)
  let k := beNat (G.sha1 (q.N ++ padTo nbytes [q.gByte]))
  let kv := k * v % N
  -- `gcry_mpi_subm` takes the difference modulo N
  let diff := (beNat q.B + (N - kv)) % N
  let S := diff ^ (a + srpU G q a * x) % N
  let K := mgf1Sha1 G (stripLeadingZeros (natBe nbytes S)) 40
  let xorNg := List.zipWith (· ^^^ ·) (G.sha1 (stripLeadingZeros q.N)) (G.sha1 [q.gByte])
  let M1 := G.sha1 (xorNg ++ G.sha1 (username.take AFP_MAX_USERNAME_LEN) ++ q.salt ++
    stripLeadingZeros A ++ stripLeadingZeros q.B ++ K)
  ⟨A, M1, G.sha1 (stripLeadingZeros A ++ M1 ++ K)⟩

/-- Draw the client's exponent until its ephemeral is not zero. -/
def srpEphemeral (q : SrpParams) : Nat → Login (Option Nat)
  | 0 => return none
  | draws + 1 => do
    let r ← random q.N.length
    let a := beNat r.1 % beNat q.N
    if beNat q.g ^ a % beNat q.N = 0 then srpEphemeral q draws else return some a

/-- The code `srp_login` returns for a reply it does not accept. -/
def srpCode (ret : Int) : Int := if ret = SRP_AUTH_FAILURE then kFPUserNotAuth else ret

/-- `srp_login`'s look at the last reply: a proof that is not the expected one is
logged, and nothing else comes of it. -/
def verifyM2 (payload M2 : Bytes) : Login Unit :=
  if 24 ≤ (payload.take 24).length ∧ ((payload.drop 4).take SRP_SHA1_LEN) ≠ M2 then
    .modify fun s => { s with proofWarnings := s.proofWarnings + 1 }
  else return ()

def srpProve (G : Gcrypt) (username passwd : Bytes) (q : SrpParams) (a : Nat) :
    Login (Option Int) := do
  if srpU G q a = 0 then return some (-1)
  if !(← alloc) then return some (-1)
  let z := srpValues G username passwd q a
  if !(← alloc) then return some (-1)
  if !(← alloc) then return some (-1)
  let (ret, payload) ← afpLogincont 0
    ([0, 3] ++ natBe 2 q.N.length ++ z.A ++ [0, UInt8.ofNat SRP_SHA1_LEN] ++ z.M1)
  if ret ≠ 0 then return some (srpCode ret)
  verifyM2 payload z.M2
  return some 0

def srpLogin (G : Gcrypt) (draws : Nat) (username passwd : Bytes) : Login (Option Int) := do
  if !(← alloc) then return some (-1)
  let (ret, payload) ← afpLoginext .srp username [0, 1]
  if ret ≠ kFPAuthContinue then return some (srpCode ret)
  match parseSrpParams (payload.take srpReplyMax) with
  | none => return some (-1)
  | some q =>
    if beNat q.N = 0 then return none
    if beNat q.B % beNat q.N = 0 then return some (-1)
    if !(← alloc) then return some (-1)
    match ← srpEphemeral q draws with
    | none => return none
    | some a => srpProve G username passwd q a

/-! ## DHX2 -/

def dhxC2siv : Bytes := "LWallace".toUTF8.toList
def dhxS2civ : Bytes := "CJalbert".toUTF8.toList

/-- The user's name as `dhx2_login` sends it, ending on an even boundary of a
packet with a version's name of `versionLen` bytes. -/
def dhx2Authinfo (versionLen : Nat) (username : Bytes) : Bytes :=
  let ai := copyToPascal (username.take AFP_MAX_USERNAME_LEN)
  if (1 + 1 + versionLen + 1 + 4 + ai.length) % 2 = 1 then ai ++ [0] else ai

/-- The incremented nonce. `gcry_mpi_print` leaves the buffer as it is when the
number has outgrown it. -/
def nonceProof (nonce : Bytes) : Bytes :=
  if beNat nonce + 1 < 256 ^ 16 then natBe 16 (beNat nonce + 1) else nonce

/-- The first reply's transaction ID, generator, length of the numbers, prime
and server's number. -/
structure Dhx2Params where
  id : Nat
  g : Nat
  len : Nat
  p : Nat
  Mb : Nat
  deriving DecidableEq, Repr

/-- Read the parameters out of the receive buffer, however much of it was
received. -/
def parseDhx2Params (d : Bytes) : Dhx2Params :=
  let len := beNat ((d.drop 6).take 2)
  { id := beNat (d.take 2)
    g := beNat ((d.drop 2).take 4)
    len := len
    p := beNat ((d.drop 8).take len)
    Mb := beNat ((d.drop (8 + len)).take len) }

/-- The session key that both sides' numbers give. -/
def dhx2Key (G : Gcrypt) (q : Dhx2Params) (Ra : Bytes) : Bytes :=
  G.md5 (natBe q.len (q.Mb ^ beNat Ra % q.p))

/-- The password as it is sent: the server's nonce plus one and 256 bytes with
the password in front. -/
def dhx2Plaintext (serverNonce passwd : Bytes) : Bytes :=
  natBe 16 (beNat serverNonce + 1) ++ rxData 256 (passwd.take 255)

/-- `dhx2_login` from the reply that carries the proof on. -/
def dhx2Finish (G : Gcrypt) (passwd key nonce payload : Bytes) : Login (Option Int) := do
  let d := rxData 34 payload
  match G.cast5Decrypt key dhxS2civ (d.drop 2) with
  | none => return some (-1)
  | some text =>
    if text.take 16 ≠ nonceProof nonce then return some (-1)
    if !(← alloc) then return some (-1)
    match G.cast5Encrypt key dhxC2siv (dhx2Plaintext ((text.drop 16).take 16) passwd) with
    | none => return some (-1)
    | some ai =>
      let (ret, _) ← afpLogincont (beNat (d.take 2)) ai
      return some ret

/-- `dhx2_login` from the agreed key on. -/
def dhx2Prove (G : Gcrypt) (passwd : Bytes) (q : Dhx2Params) (Ra : Bytes) :
    Login (Option Int) := do
  if !(← alloc) then return some (-1)
  if !(← alloc) then return some (-1)
  let key := dhx2Key G q Ra
  let nonce ← random 16
  if !G.cast5Setkey key then return some (-1)
  if !(← alloc) then return some (-1)
  match G.cast5Encrypt key dhxC2siv nonce.1 with
  | none => return some (-1)
  | some crypted =>
    if !(← alloc) then return some (-1)
    let (ret, payload) ← afpLogincont q.id (natBe q.len (q.g ^ beNat Ra % q.p) ++ crypted)
    if ret ≠ kFPAuthContinue then return some ret
    dhx2Finish G passwd key nonce.1 payload

def dhx2Login (G : Gcrypt) (versionLen : Nat) (username passwd : Bytes) :
    Login (Option Int) := do
  if !(← alloc) then return some (-1)
  if !(← alloc) then return some (-1)
  let (ret, payload) ← afpLogin .dhx2 (dhx2Authinfo versionLen username)
  if ret ≠ kFPAuthContinue then return some ret
  let q := parseDhx2Params (rxData (2 + 4 + 2 + 256 * 2) payload)
  if 256 < q.len then return some (-1)
  if !(← alloc) then return some (-1)
  let Ra ← random q.len
  if q.p = 0 then return none
  dhx2Prove G passwd q Ra.1

/-! ## 2-Way Randnum -/

/-- Each byte rotated left by one bit that it takes from the next, the last from
the first. -/
def rotateKey (key : Bytes) : Bytes :=
  List.zipWith (fun c d : UInt8 => c <<< 1 ||| d >>> 7) key (key.rotate 1)

/-- The DES key of a password: its first eight bytes. -/
def randnumKey (passwd : Bytes) : Bytes := rotateKey (rxData 8 passwd)

/-- The server's encryption of the client's random number. -/
def randnumProof (G : Gcrypt) (passwd randnum : Bytes) : Option Bytes :=
  G.desEncrypt (randnumKey passwd) randnum

/-- `randnum2_login` after the first reply. The sizes of the two replies are
asserted of a string, which is always true. -/
def randnum2Prove (G : Gcrypt) (passwd payload : Bytes) : Login (Option Int) := do
  let p := rxData 10 payload
  if !G.desSetkey (randnumKey passwd) then return some (-1)
  if !(← alloc) then return some (-1)
  match G.desEncrypt (randnumKey passwd) (p.drop 2) with
  | none => return some (-1)
  | some crypted =>
    let randnum ← random 8
    if !(← alloc) then return some (-1)
    let (ret, payload) ← afpLogincont (beNat (p.take 2)) (crypted ++ randnum.1)
    if ret ≠ kFPNoErr then return some ret
    match randnumProof G passwd randnum.1 with
    | none => return some (-1)
    | some proof =>
      if proof ≠ rxData 8 payload then return some kFPUserNotAuth
      return some ret

def randnum2Login (G : Gcrypt) (username passwd : Bytes) : Login (Option Int) := do
  if !(← alloc) then return some (-1)
  if !(← alloc) then return some (-1)
  let (ret, payload) ← afpLogin .randnum2 (copyToPascal (username.take AFP_MAX_USERNAME_LEN))
  if ret ≠ kFPAuthContinue then return some ret
  randnum2Prove G passwd payload

/-! ## `afp_server_login` -/

/-- The fields of `struct afp_server` that a login reads. -/
structure LoginServer where
  usingUam : Uam
  versionLen : Nat
  flags : Nat
  username : Bytes
  password : Bytes
  deriving DecidableEq, Repr

def kSupportsReconnect : Nat := 0x80

def LoginServer.supportsReconnect (server : LoginServer) : Bool :=
  server.flags &&& kSupportsReconnect != 0

def afpDologin (G : Gcrypt) (draws : Nat) (server : LoginServer) : Login (Option Int) :=
  match server.usingUam with
  | .srp => srpLogin G draws server.username server.password
  | .dhx2 => dhx2Login G server.versionLen server.username server.password
  | .randnum2 => randnum2Login G server.username server.password

/-- The codes with which `afp_server_login` goes on: success, and the two it
takes for "already logged in". Every other code is an error. -/
def loginAccepts (rc : Int) : Bool :=
  rc = 0 || rc = kFPCallNotSupported || rc = kFPMiscErr

/-- The session token that ends a login with a server that supports reconnects. -/
def sessionToken (server : LoginServer) : Login Int := do
  if !server.supportsReconnect then return 0
  let resume ← Prog.modifyGet fun s => (s.needResume, s)
  if (← afpGetsessiontoken resume) ≠ 0 then return 1
  if resume then Prog.modify fun s => { s with needResume := false }
  return 0

def afpServerLogin (G : Gcrypt) (draws : Nat) (server : LoginServer) : Login (Option Int) := do
  match ← afpDologin G draws server with
  | none => return none
  | some rc =>
    if !loginAccepts rc then return some 1
    return some (← sessionToken server)

end NC
