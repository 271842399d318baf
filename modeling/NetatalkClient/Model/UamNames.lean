import NetatalkClient.Model.Protocol

/-!
# Names of the user authentication methods

The tables of `uams_def.c`: a method is the bit of the place of its name, and a shorthand stands
for a name. Names are compared without regard to case.
-/

namespace NC

def ascii (s : String) : Bytes := s.toList.map fun c => UInt8.ofNat c.toNat

def toLowerByte (c : UInt8) : UInt8 := if 65 ≤ c ∧ c ≤ 90 then c + 32 else c

/-- `strcasecmp` finds the strings equal. -/
def strcaseeq (a b : Bytes) : Bool := a.map toLowerByte == b.map toLowerByte

def afpStrings : List Bytes :=
  ["No User Authent", "Cleartxt Passwrd", "Randnum Exchange", "2-Way Randnum Exchange", "DHCAST128",
    "Client Krb v2", "DHX2", "Recon1", "SRP"].map ascii

def uamAliases : List (Bytes × Bytes) :=
  [("guest", "No User Authent"), ("clrtxt", "Cleartxt Passwrd"), ("randnum", "Randnum Exchange"),
    ("randnum2", "2-Way Randnum Exchange"), ("dhx", "DHCAST128"), ("dhx2", "DHX2"),
    ("srp", "SRP")].map fun (a, b) => (ascii a, ascii b)

def resolveUamShorthand (name : Bytes) : Bytes :=
  match uamAliases.find? fun a => strcaseeq name a.1 with
  | some a => a.2
  | none => name

/-- `uam_string_to_bitmap`: 0 for a name that is not known. -/
def uamStringToBitmap (name : Bytes) : Nat :=
  match afpStrings.findIdx? (strcaseeq (resolveUamShorthand name)) with
  | some i => 1 <<< i
  | none => 0

end NC
