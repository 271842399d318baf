import NetatalkClient.Model.Did

/-!
# A server whose tree does not change

What a server answers to lookups while nothing changes in its tree: each name in each folder is a
folder, a file, or absent, which is answered by one code for a name that is missing and another for
one that is refused. IDs that no folder has are answered `kFPDirNotFound`, or `kFPObjectNotFound` as
`afpd` does.

The clock and the allocator answer as they like. `StaticTree.serve` counts the lookups.
-/

namespace NC

inductive TreeEntry where
  | folder (id : Nat)
  | file
  /-- The code is `kFPObjectNotFound` for a name that is missing. -/
  | absent (rc : Int)
  deriving DecidableEq, Repr

def nameLimit (vol : Volume) : Nat :=
  match vol.pathEncoding with
  | .utf8Name => 65535
  | .longName => 255

/-- A tree, of AFP names. No object has a name of `nameLimit` bytes or more: long names have at most
31, and names in UTF-8 at most 255 characters. -/
structure StaticTree (vol : Volume) where
  lookup : Nat → Path → TreeEntry
  IsFolder : Nat → Prop
  tooLong : Nat → Int
  isFolder_root : IsFolder rootDid
  isFolder_of_lookup : ∀ {d n i}, lookup d n = .folder i → IsFolder i
  absent_ne : ∀ {d n rc}, lookup d n = .absent rc → rc ≠ kFPNoErr
  gone : ∀ {d}, ¬IsFolder d → ∀ n, ∃ rc, lookup d n = .absent rc ∧
    (rc = kFPDirNotFound ∨ rc = kFPObjectNotFound)
  lookup_long : ∀ {n}, nameLimit vol ≤ n.length → ∀ d, lookup d n = .absent (tooLong d)

/-- What is left open at one request: whether there is memory, the time, and what a reply holds
besides what it was asked for. -/
structure LookupTurn where
  memory : Bool
  time : Nat
  valid : Nat
  cnid : Nat
  code : Int
  deriving DecidableEq, Repr

/-- How often something was asked, and the lookups among that. -/
structure Asked where
  turns : Nat
  lookups : Nat
  deriving DecidableEq, Repr

def Req.isLookup : Req → Bool
  | .getFileDirParms .. => true
  | _ => false

namespace StaticTree

variable {vol : Volume} (tree : StaticTree vol)

def answer (did : Nat) (name : Path) (turn : LookupTurn) : Int × Dirent :=
  match tree.lookup did name with
  | .folder i => (kFPNoErr, ⟨true, turn.valid ||| kFPNodeIDBit, i⟩)
  | .file => (kFPNoErr, ⟨false, turn.valid ||| kFPNodeIDBit, turn.cnid⟩)
  | .absent rc => (rc, ⟨false, turn.valid, turn.cnid⟩)

def serve (turns : Nat → LookupTurn) (v : Asked) (r : Req) : r.Ans × Asked :=
  let turn := turns v.turns
  let v' : Asked := ⟨v.turns + 1, v.lookups + r.isLookup.toNat⟩
  match r with
  | .alloc => (turn.memory, v')
  | .now => (turn.time, v')
  | .getFileDirParms did _ _ name => (tree.answer did name turn, v')
  | .delete .. => (turn.code, v')
  | .exchangeFiles .. => (turn.code, v')
  | .moveAndRename .. => (turn.code, v')

/-- The folder that names lead to from a folder, or the errno of the first that is no folder. -/
def resolve : Nat → List Name → Except Int Nat
  | d, [] => .ok d
  | d, n :: ns =>
    match tree.lookup d (unixpathToAfppath n) with
    | .folder i => resolve i ns
    | .file => .error (-ENOTDIR)
    | .absent rc => .error (-llAnswerErrno rc)

end StaticTree

end NC
