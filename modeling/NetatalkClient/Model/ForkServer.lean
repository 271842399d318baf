import NetatalkClient.Model.Midlevel.View

/-!
# A server of files and forks

The server names files by a folder's ID and a name, and keeps the bytes of each file's two
forks and the forks it has opened. A request is carried out wholly or not at all: one that
is answered with success is, and of one that is answered with an error, or whose wait
expires, either may be true. A node ID stands for one file for good, and a fork number that
is handed out is not in use.

Names of folders are not modelled: a name that holds no file here may hold a folder. The
requests that move files are those of `FileServer`.
-/

namespace NC

structure ForkServer where
  /-- The node ID of the file at a name of a folder. -/
  named : Nat → Path → Option Nat
  /-- The bytes of a file's data fork, and of its resource fork. -/
  bytes : Nat → Bool → Bytes
  used : List Nat
  /-- The open forks by their numbers: the file, and whether it is its resource fork. -/
  opened : Nat → Option (Nat × Bool)
  named_used : ∀ {did name i}, named did name = some i → i ∈ used
  opened_used : ∀ {n x}, opened n = some x → x.1 ∈ used

/-- What the server decides at a request: its answer, and of a request without success
whether it is carried out. A new file's node ID, and the number of a fork whose open is not
answered with success, are given too. -/
structure ForkChoice where
  answer : (r : MlReq) → r.Ans
  carried : Bool := true
  node : Nat := 0
  number : Nat := 0

def Request.code : (r : Request) → r.Ans → Int
  | .alloc, _ | .now, _ | .reallocs, _ => kFPNoErr
  | .getFileDirParms .., a => a.1
  | .enumerate .., a => a.1
  | .createDir .., a => a.1
  | .openFork .., a => a.1
  | .read .., a => a.1
  | .write .., a => a.1
  | .openDT, a => a.1
  | .getComment .., a => a.1
  | .getExtAttr .., a => a.1
  | .listExtAttrs .., a => a.1
  | .setParms .., a | .createFile .., a | .delete .., a | .exchangeFiles .., a
  | .moveAndRename .., a | .copyFile .., a | .closeFork .., a | .flushFork .., a
  | .syncFork .., a | .setForkParms .., a | .byteRangeLock .., a | .addComment .., a
  | .setExtAttr .., a | .removeExtAttr .., a => a

def resized (data : Bytes) (size : Nat) : Bytes :=
  data.take size ++ List.replicate (size - data.length) 0

namespace ForkServer

/-- A new file of the name with the bytes given. -/
def create (v : ForkServer) (did : Nat) (name : Path) (node : Nat) (bytes : Bool → Bytes) :
    ForkServer where
  named := Function.update v.named did (Function.update (v.named did) name (some node))
  bytes := Function.update v.bytes node bytes
  used := node :: v.used
  opened := v.opened
  named_used := by
    intro did' name' i h
    by_cases hd : did' = did
    · subst hd
      rw [Function.update_self] at h
      by_cases hn : name' = name
      · subst hn
        simp_all
      · rw [Function.update_of_ne hn] at h
        exact List.mem_cons_of_mem _ (v.named_used h)
    · rw [Function.update_of_ne hd] at h
      exact List.mem_cons_of_mem _ (v.named_used h)
  opened_used h := List.mem_cons_of_mem _ (v.opened_used h)

def unlink (v : ForkServer) (did : Nat) (name : Path) : ForkServer where
  named := Function.update v.named did (Function.update (v.named did) name none)
  bytes := v.bytes
  used := v.used
  opened := v.opened
  named_used := by
    intro did' name' i h
    by_cases hd : did' = did
    · subst hd
      rw [Function.update_self] at h
      by_cases hn : name' = name
      · subst hn
        simp at h
      · rw [Function.update_of_ne hn] at h
        exact v.named_used h
    · rw [Function.update_of_ne hd] at h
      exact v.named_used h
  opened_used := v.opened_used

def close (v : ForkServer) (n : Nat) : ForkServer where
  named := v.named
  bytes := v.bytes
  used := v.used
  opened := Function.update v.opened n none
  named_used := v.named_used
  opened_used := by
    intro k x h
    by_cases hk : k = n
    · subst hk
      simp at h
    · rw [Function.update_of_ne hk] at h
      exact v.opened_used h

/-- A fork of the file `i` open under the number. -/
def openFork (v : ForkServer) (n i : Nat) (resource : Bool) (hi : i ∈ v.used) : ForkServer where
  named := v.named
  bytes := v.bytes
  used := v.used
  opened := Function.update v.opened n (some (i, resource))
  named_used := v.named_used
  opened_used := by
    intro k x h
    by_cases hk : k = n
    · subst hk
      simp only [Function.update_self, Option.some.injEq] at h
      exact h ▸ hi
    · rw [Function.update_of_ne hk] at h
      exact v.opened_used h

def store (v : ForkServer) (i : Nat) (resource : Bool) (data : Bytes) : ForkServer :=
  { v with bytes := Function.update v.bytes i (Function.update (v.bytes i) resource data) }

def carryOut (v : ForkServer) (node number : Nat) : Request → Option ForkServer
  | .createFile did name =>
    if v.named did name = none ∧ node ∉ v.used then some (v.create did name node fun _ => [])
    else none
  | .delete did name => if v.named did name = none then none else some (v.unlink did name)
  | .copyFile srcDid src dstDid dst =>
    match v.named srcDid src with
    | none => none
    | some i =>
      if v.named dstDid dst = none ∧ node ∉ v.used then some (v.create dstDid dst node (v.bytes i))
      else none
  | .openFork resource did _ _ name =>
    match h : v.named did name with
    | none => none
    | some i =>
      if v.opened number = none then some (v.openFork number i resource (v.named_used h)) else none
  | .closeFork n => some (v.close n)
  | .setForkParms n _ size =>
    (v.opened n).map fun (i, resource) => v.store i resource (resized (v.bytes i resource) size)
  | .write n offset data =>
    (v.opened n).map fun (i, resource) =>
      v.store i resource (overwrite (v.bytes i resource) offset data)
  | .exchangeFiles .. | .moveAndRename .. => none
  | _ => some v

/-- The answer says of the files only what is true. A read may be short, a reply may
lack what was asked for, and the offset after a write has 64 bits. -/
def tells (v : ForkServer) : (r : Request) → r.Ans → Bool
  | .getFileDirParms did filebitmap dirbitmap name, (rc, p) =>
    rc != kFPNoErr || match v.named did name with
      | some i => !p.isdir && (filebitmap &&& kFPNodeIDBit == 0 || p.cnid == i)
        && (filebitmap &&& kFPExtDataForkLenBit == 0 || p.size == (v.bytes i false).length)
        && (filebitmap &&& kFPExtRsrcForkLenBit == 0 || p.resourcesize == (v.bytes i true).length)
      | none => p.isdir && (dirbitmap &&& kFPNodeIDBit != 0 || p.cnid == 0)
  | .openFork _ did _ _ name, (rc, reply) =>
    rc != kFPNoErr || match v.named did name with
      | some i => reply.cnid.all (· == i) && reply.size.all (· == (v.bytes i false).length)
      | none => false
  | .read n offset _, (rc, data) =>
    (rc != kFPNoErr && rc != kFPEOFErr) || match v.opened n with
      | some (i, resource) => data.isPrefixOf ((v.bytes i resource).drop offset)
      | none => false
  | .write _ offset data, (rc, reply) =>
    rc != kFPNoErr || (reply == offset + data.length && decide (reply < 2 ^ 64))
  | _, _ => true

def forkNumber (number : Nat) : (r : Request) → r.Ans → Nat
  | .openFork .., (rc, reply) => if rc = kFPNoErr then reply.forkid else number
  | _, _ => number

def serve (v : ForkServer) : (r : MlReq) → ForkChoice → Option (r.Ans × ForkServer)
  | .did c, choice => some (choice.answer (.did c), v)
  | .sys r, choice =>
    let a := choice.answer (.sys r)
    if v.tells r a then
      if r.code a = kFPNoErr ∨ choice.carried then
        (v.carryOut choice.node (forkNumber choice.number r a) r).map (a, ·)
      else some (a, v)
    else none

/-! ## A volume whose folders stay where they are -/

/-- One request of the client, with the folder and the name that each path leads to. -/
def serveIn (dirOf : Path → Except Int (Nat × Name)) (v : ForkServer) :
    (r : MlReq) → ForkChoice → Option (r.Ans × ForkServer)
  | .did (.getDirid path), _ => some (dirOf path, v)
  | r, choice => v.serve r choice

/-- The answer has what was asked for: memory, success, and of a read all bytes up to the fork's
end. -/
def fulfils (v : ForkServer) : (r : Request) → r.Ans → Bool
  | .alloc, a => a
  | .read n offset count, (rc, data) => (rc == kFPNoErr || rc == kFPEOFErr) &&
      match v.opened n with
      | some (i, resource) => data == ((v.bytes i resource).drop offset).take count
      | none => false
  | r, a => r.code a == kFPNoErr

/-- One request of the client, which is answered with what was asked for. -/
def grantIn (dirOf : Path → Except Int (Nat × Name)) (v : ForkServer) :
    (r : MlReq) → ForkChoice → Option (r.Ans × ForkServer)
  | .sys r, choice => if v.fulfils r (choice.answer (.sys r)) then v.serve (.sys r) choice else none
  | r, choice => v.serveIn dirOf r choice

end ForkServer

end NC
