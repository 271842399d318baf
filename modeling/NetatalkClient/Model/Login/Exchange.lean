import NetatalkClient.Model.Protocol

/-!
# What a login asks of its surroundings

A login method (a UAM) exchanges `FPLogin`, `FPLoginExt` and `FPLoginCont`
requests with something that answers as it likes, draws random numbers, and
calls libgcrypt. `LoginReq` has the requests, `Login` is a program that sends
them, and `Gcrypt` has the hash functions and ciphers, about which nothing is
assumed. libgcrypt's big integers are natural numbers: `gcry_mpi_scan` is
`beNat`, and `gcry_mpi_print` with the move to the buffer's end that follows it
is `natBe`.
-/

namespace NC

/-! ## Buffers of numbers -/

/-- `b` at the end of a zeroed buffer of `len` bytes. -/
def padTo (len : Nat) (b : Bytes) : Bytes :=
  List.replicate (len - b.length) 0 ++ b.drop (b.length - len)

/-- `strip_leading_zeros`: at least one byte stays. -/
def stripLeadingZeros : Bytes → Bytes
  | 0 :: c :: b => stripLeadingZeros (c :: b)
  | b => b

/-! ## The library -/

/-- The hash functions and ciphers of libgcrypt that the logins use. A cipher
call that reports an error is `none`, or `false` for opening the cipher and
setting its key. -/
structure Gcrypt where
  sha1 : Bytes → Bytes
  md5 : Bytes → Bytes
  cast5Setkey : Bytes → Bool
  /-- CAST5 in CBC mode: key, initialization vector, text. -/
  cast5Encrypt : Bytes → Bytes → Bytes → Option Bytes
  cast5Decrypt : Bytes → Bytes → Bytes → Option Bytes
  desSetkey : Bytes → Bool
  /-- DES of one block: key, text. -/
  desEncrypt : Bytes → Bytes → Option Bytes

/-! ## The exchange -/

inductive Uam where
  | srp
  | dhx2
  | randnum2
  deriving DecidableEq, Repr

inductive LoginReq where
  | alloc
  /-- `gcry_randomize` or `gcry_create_nonce` of so many bytes. -/
  | random (n : Nat)
  | login (uam : Uam) (authinfo : Bytes)
  | loginext (uam : Uam) (username authinfo : Bytes)
  | logincont (id : Nat) (authinfo : Bytes)
  /-- `afp_getsessiontoken`, to resume a session or to set one up. -/
  | getsessiontoken (resume : Bool)
  deriving DecidableEq, Repr

/-- A login request's answer is the value its `afp_` function returns with the
reply's payload; a session token's is the value alone. -/
@[reducible] def LoginReq.Ans : LoginReq → Type
  | .alloc => Bool
  | .random n => {b : Bytes // b.length = n}
  | .login .. => Int × Bytes
  | .loginext .. => Int × Bytes
  | .logincont .. => Int × Bytes
  | .getsessiontoken _ => Int

/-- What a login changes: a field of `struct afp_server`, and the log. -/
structure LoginState where
  needResume : Bool
  /-- How often the log got SRP's warning about a server proof that failed. -/
  proofWarnings : Nat
  deriving DecidableEq, Repr

abbrev Login (α : Type) := Prog LoginState LoginReq LoginReq.Ans α

namespace Login

def alloc : Login Bool := .request LoginReq.alloc

def random (n : Nat) : Login {b : Bytes // b.length = n} := .request (LoginReq.random n)

def afpLogin (uam : Uam) (authinfo : Bytes) : Login (Int × Bytes) :=
  .request (LoginReq.login uam authinfo)

def afpLoginext (uam : Uam) (username authinfo : Bytes) : Login (Int × Bytes) :=
  .request (LoginReq.loginext uam username authinfo)

def afpLogincont (id : Nat) (authinfo : Bytes) : Login (Int × Bytes) :=
  .request (LoginReq.logincont id authinfo)

def afpGetsessiontoken (resume : Bool) : Login Int := .request (LoginReq.getsessiontoken resume)

end Login

def copyToPascal (s : Bytes) : Bytes := UInt8.ofNat (s.take 255).length :: s.take 255

/-- The zeroed receive buffer of `maxsize` bytes after `afp_login_reply` has
copied into it what fits of the payload. -/
def rxData (maxsize : Nat) (payload : Bytes) : Bytes :=
  payload.take maxsize ++ List.replicate (maxsize - payload.length) 0

end NC
