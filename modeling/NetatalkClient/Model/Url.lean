import NetatalkClient.Model.UamNames

/-!
# AFP URLs

`parse_url` of `afp_url.c`, on the text with its NUL and on the copies that it cuts up in
place. Every byte the code reads is read from one of these buffers by the functions of
`Framework/CString`; `fuel` bounds the calls of the two recursive searches. `heap` says for how
many bytes `malloc` finds memory. What is logged is left out.
-/

namespace NC

abbrev atSign : UInt8 := 64
abbrev openBracket : UInt8 := 91
abbrev closeBracket : UInt8 := 93

def schemeEnd : Bytes := ascii "://"

def authMark : Bytes := ascii ";AUTH="

/-- `struct afpc_url`, as `parse_url` fills it. -/
structure Url where
  username : Bytes := []
  uamname : Bytes := []
  password : Bytes := []
  servername : Bytes := []
  port : Int := 548
  volumename : Bytes := []
  path : Option Path := none
  deriving DecidableEq, Repr

/-! ## Paths -/

abbrev sizeMax : Nat := 2 ^ 64 - 1

/-- `afpc_path_join`: the joined path, or a negative errno. -/
def afpcPathJoin (heap : Nat → Bool) (parent name : Path) (maxLen : Nat) : Except Int Path :=
  if maxLen < parent.length ∨ maxLen < name.length then .error (-ENAMETOOLONG)
  else
    let separator := if parent ≠ [] ∧ parent.getLast? ≠ some slash ∧ name ≠ [] then [slash] else []
    let joined := parent ++ separator ++ name
    if sizeMax ≤ joined.length ∨ maxLen < joined.length then .error (-ENAMETOOLONG)
    else if !heap (joined.length + 1) then .error (-ENOMEM)
    else .ok joined

/-! ## Escapes -/

/-- The loop of `escape_string`: a `c` behind a `c` is dropped. The mark that one was seen
stays until the next. -/
def escapeLoop (c : UInt8) : Bool → Bytes → Bytes
  | _, [] => []
  | inescape, d :: ds =>
    if inescape && d == c then escapeLoop c false ds
    else d :: escapeLoop c (inescape || d == c) ds

def escapeString (string : Bytes) (c : UInt8) : Bytes := escapeLoop c false string

def escapeUrl (url : Url) : Url :=
  { url with
    password := escapeString url.password atSign
    username := escapeString url.username colon }

/-- `escape_strrchr`. The search that follows a doubled `c` begins two bytes before it, and
goes to the end of the string again. -/
def escapeStrrchr (b : Bytes) (c : UInt8) (toescape : Bytes) : Nat → Int → Scan (Option Int)
  | 0, _ => .error .unfinished
  | fuel + 1, haystack => do
    if c ∉ toescape then return ← strrchr b haystack c
    match ← strrchr b haystack c with
    | none => return none
    | some p =>
      if p = haystack then return some p
      if (← peek b (p - 1)) ≠ c then return some p
      escapeStrrchr b c toescape fuel (p - 2)

def escapeStrchr (b : Bytes) (c : UInt8) (toescape : Bytes) : Nat → Int → Scan (Option Int)
  | 0, _ => .error .unfinished
  | fuel + 1, haystack => do
    if c ∉ toescape then return ← strchr b haystack c
    match ← strchr b haystack c with
    | none => return none
    | some p =>
      let length := (← cstr b haystack).length
      if p - haystack = length then return some p
      if (← peek b (p + 1)) ≠ c then return some p
      escapeStrchr b c toescape fuel (p + 2)

/-! ## Numbers -/

def strtolDigits : Bytes → Nat → Scan Nat
  | [], _ => .error .outside
  | d :: ds, n =>
    if 48 ≤ d ∧ d ≤ 57 then strtolDigits ds (n * 10 + (d.toNat - 48)) else .ok n

def strtolSign : Bytes → Scan Int
  | [] => .error .outside
  | d :: ds =>
    if d = 45 then (strtolDigits ds 0).map fun n => -(n : Int)
    else if d = 43 then (strtolDigits ds 0).map fun n => (n : Int)
    else (strtolDigits (d :: ds) 0).map fun n => (n : Int)

def strtolBlanks : Bytes → Scan Int
  | [] => .error .outside
  | d :: ds => if d = 32 ∨ (9 ≤ d ∧ d ≤ 13) then strtolBlanks ds else strtolSign (d :: ds)

/-- `strtol` in base 10. A number that does not fit is not bounded here: `check_port` refuses
it as it refuses the bound. -/
def strtol (b : Bytes) (i : Int) : Scan Int :=
  if i < 0 then .error .outside else strtolBlanks (b.drop i.toNat)

/-! ## The parts of the authority -/

/-- A return of -1 with what is filled so far, or the next part of the parser. -/
abbrev ParseStep := Except Url (Url × Bytes)

/-- The server name at `p`, and `check_servername`. -/
def takeServername (url : Url) (b : Bytes) (p : Int) : Scan ParseStep := do
  let name ← cstr b p
  let url := { url with servername := name.take 254 }
  return if slash ∈ url.servername then .error url else .ok (url, b)

/-- The port at `q` with `check_port`, and the server name at `p`. -/
def takePort (url : Url) (b : Bytes) (p q : Int) : Scan ParseStep := do
  let n ← strtol b q
  if n < 0 ∨ 32767 < n then return .error url
  if n = 0 then return .error { url with port := 0 }
  takeServername { url with port := n } b p

/-- The end of a literal address at `p`. -/
def literalEnd (b : Bytes) (p : Int) : Scan (Option Int) := do
  if (← peek b p) ≠ openBracket then return none
  strchr b p closeBracket

/-- The server name and the port that stand at `p`. -/
def parseServer (url : Url) (b : Bytes) (p : Int) : Scan ParseStep := do
  match ← literalEnd b p with
  | some q =>
    let b := cutBuffer b q
    match ← strchr b (q + 1) colon with
    | some q => takePort url (cutBuffer b q) (p + 1) (q + 1)
    | none => takeServername url b (p + 1)
  | none =>
    match ← strchr b p colon with
    | some q => takePort url (cutBuffer b q) p (q + 1)
    | none => takeServername url b p

def takeUsername (url : Url) (b : Bytes) : Scan ParseStep := do
  let name ← cstr b 0
  return .ok (if name ≠ [] then { url with username := name.take 126 } else url, b)

/-- `user[;AUTH=uamname]`. -/
def parseUamname (url : Url) (b : Bytes) : Scan ParseStep := do
  match ← strstr b 0 authMark with
  | some q =>
    let b := cutBuffer b q
    let uam ← cstr b (q + 6)
    let url := { url with uamname := uam.take 49 }
    if uamStringToBitmap url.uamname = 0 then return .error url
    takeUsername url b
  | none => takeUsername url b

/-- `user[;AUTH=uamname][:password]`. -/
def parseUser (fuel : Nat) (url : Url) (b : Bytes) : Scan ParseStep := do
  match ← escapeStrrchr b colon [colon] fuel 0 with
  | some q =>
    let b := cutBuffer b q
    let password ← cstr b (q + 1)
    parseUamname { url with password := password.take 126 } b
  | none => parseUamname url b

def parseAuthority (fuel : Nat) (url : Url) (b : Bytes) : Scan ParseStep := do
  match ← escapeStrchr b atSign [atSign] fuel 0 with
  | some p =>
    match ← parseServer url (cutBuffer b p) (p + 1) with
    | .error url => return .error url
    | .ok (url, b) => parseUser fuel url b
  | none => parseServer url b 0

/-! ## The volume and the path -/

/-- The volume's name, and the path behind it. -/
def parsePath (heap : Nat → Bool) (url : Url) (b : Bytes) : Scan (Int × Url) := do
  match ← strchr b 0 slash with
  | some q =>
    let b := cutBuffer b q
    let volume ← cstr b 0
    let rest ← cstr b (q + 1)
    let url := { url with volumename := volume.take 254 }
    match afpcPathJoin heap [slash] rest maxUtf8PathBytes with
    | .error _ => return (-1, url)
    | .ok path => return (0, escapeUrl { url with path := some path })
  | none =>
    let volume ← cstr b 0
    return (0, escapeUrl { url with volumename := volume.take 254 })

/-- What follows the slash behind the authority, at `p`. -/
def parseSecondpart (heap : Nat → Bool) (url : Url) (toparse : Bytes) (p : Int) :
    Scan (Int × Url) := do
  let secondpart ← cstr toparse p
  if !heap (secondpart.length + 1) then return (-1, url)
  let b := secondpart ++ [0]
  if (← peek b 0) = 0 then return (0, escapeUrl url)
  let splen := (← cstr b 0).length
  if (← peek b (splen - 1)) = slash then parsePath heap url (cutBuffer b (splen - 1))
  else parsePath heap url b

/-! ## The URL -/

def peekBytes (b : Bytes) (i : Int) (n : Nat) : Scan Bytes :=
  if i < 0 ∨ (b.length : Int) < i + n then .error .outside else .ok ((b.drop i.toNat).take n)

/-- Where the authority begins, behind `afp://`. -/
def findAuthority (toparse : Bytes) : Scan (Option Int) := do
  match ← strstr toparse 0 schemeEnd with
  | none => return none
  | some authority =>
    if authority < 3 then return none
    if (← peekBytes toparse (authority - 3) 3) ≠ ascii "afp" then return none
    return some (authority + 3)

/-- The copy of the authority, if it fits, and where the slash behind it stands. -/
def copyAuthority (toparse : Bytes) (authority : Int) : Scan (Option Bytes × Option Int) := do
  match ← strchr toparse authority slash with
  | none =>
    let firstpart ← cstr toparse authority
    return (if 255 ≤ firstpart.length then none else some (firstpart ++ [0]), none)
  | some q =>
    let firstpart ← peekBytes toparse authority (q - authority).toNat
    return (if 255 ≤ firstpart.length then none else some (firstpart ++ [0]), some q)

/-- `parse_url`: its return value, and the URL as it leaves it. -/
def parseUrl (heap : Nat → Bool) (fuel : Nat) (url : Url) (toparse : Bytes) :
    Scan (Int × Url) := do
  let url : Url := { port := url.port }
  match ← findAuthority toparse with
  | none => return (-1, url)
  | some authority =>
    match ← copyAuthority toparse authority with
    | (none, _) => return (-1, url)
    | (some firstpart, pathPart) =>
      match ← parseAuthority fuel url firstpart with
      | .error url => return (-1, url)
      | .ok (url, _) =>
        match pathPart with
        | none => return (0, escapeUrl url)
        | some q => parseSecondpart heap url toparse (q + 1)

end NC
