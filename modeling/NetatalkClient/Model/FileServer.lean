import NetatalkClient.Framework.IdTree
import NetatalkClient.Model.Rename

/-!
# A server that carries out every request and answers truly

The server's tree is an `IdTree` of folder IDs and names. A request that can be
carried out is; one that cannot is answered with an error that is true of it,
any one where several are. Two answers are left open, as servers differ in
them: an exchange of a file with itself changes nothing and is answered
`kFPNoErr` or `kFPSameObjectErr`, and so is a move of an object to its own name,
with `kFPNoErr` or `kFPObjectExists`.
-/

namespace NC

/-- A server's tree: the objects, with the names that stand in each folder. -/
structure FileTree (κ : Type) where
  obj : IdTree Nat Path κ
  names : Nat → List Path
  complete : ∀ {d n}, obj d n ≠ none → n ∈ names d

/-- What the server, the clock and the allocator decide at one request: to carry
it out (with the node ID of a file, where one is asked for) or to answer an
error, with evidence for the two that need it: what the folder that cannot be
deleted holds, and the path by which a folder that cannot be moved leads to its
own destination. -/
inductive Decision where
  | memory (ok : Bool)
  | time (t : Nat)
  | carryOut (cnid : Nat)
  | error (rc : Int)
  | notEmpty (held : Path)
  | cantMove (below : List Path)
  deriving DecidableEq, Repr

namespace FileTree

variable {κ : Type}

/-- The tree with `x` as the object of the name `n` in the folder `d`. -/
def set (t : FileTree κ) (d : Nat) (n : Path) (x : Option (Obj Nat κ)) : FileTree κ where
  obj := t.obj.set d n x
  names := Function.update t.names d (n :: t.names d)
  complete := by
    intro d' n' h
    by_cases hd : d' = d
    · subst hd
      by_cases hn : n' = n
      · simp [hn]
      · rw [IdTree.set_of_ne fun h => hn h.2] at h
        simp [t.complete h]
    · rw [IdTree.set_of_ne fun h => hd h.1] at h
      simpa [Function.update_of_ne hd] using t.complete h

def empty : FileTree κ where
  obj _ _ := none
  names _ := []
  complete h := absurd rfl h

/-- The tree with the object of the name `a` under the name `b` instead. -/
def move (t : FileTree κ) (a b : ObjName) : FileTree κ :=
  (t.set a.did a.name none).set b.did b.name (t.obj a.did a.name)

def isEmpty (t : FileTree κ) (d : Nat) : Bool := (t.names d).all fun n => (t.obj d n).isNone

/-- The folder an `FPMoveAndRename` names: `dstDid`, or the folder `dst` in it. -/
def moveFolder (t : FileTree κ) (dstDid : Nat) (dst : Path) : Option Nat :=
  if dst = [] then some dstDid
  else match t.obj dstDid dst with
    | some (.dir i) => some i
    | _ => none

def exchangeErrors (t : FileTree κ) (a b : ObjName) : List Int :=
  match t.obj a.did a.name, t.obj b.did b.name with
  | some (.file _), some (.file _) => if a = b then [kFPSameObjectErr] else []
  | some _, some _ => [kFPObjectTypeErr]
  | some (.file _), none | none, some (.file _) | none, none => [kFPObjectNotFound]
  | _, _ => [kFPObjectNotFound, kFPObjectTypeErr]

/-- The errors that are true of a move to `newName` in the folder, apart from
`kFPCantMove`. -/
def moveErrors (t : FileTree κ) (a : ObjName) (folder : Option Nat) (newName : Path) : List Int :=
  (if t.obj a.did a.name = none then [kFPObjectNotFound] else []) ++
  match folder with
  | none => [kFPObjectNotFound, kFPObjectTypeErr, kFPDirNotFound]
  | some d => if t.obj d newName = none then [] else [kFPObjectExists]

def exchange (t : FileTree κ) (a b : ObjName) : Option (FileTree κ) :=
  match t.obj a.did a.name, t.obj b.did b.name with
  | some (.file c), some (.file d) =>
    if a = b then some t
    else some ((t.set a.did a.name (some (.file d))).set b.did b.name (some (.file c)))
  | _, _ => none

/-- Carry out a move: the name must be free, unless it is the object's own. -/
def moveTo (t : FileTree κ) (a : ObjName) (folder : Option Nat) (newName : Path) :
    Option (FileTree κ) :=
  match folder, t.obj a.did a.name with
  | some d, some _ =>
    if (⟨d, newName⟩ : ObjName) = a then some t
    else if t.obj d newName = none then some (t.move a ⟨d, newName⟩) else none
  | _, _ => none

/-- Carry out a delete: a folder must be empty. -/
def delete (t : FileTree κ) (a : ObjName) : Option (FileTree κ) :=
  match t.obj a.did a.name with
  | some (.file _) => some (t.set a.did a.name none)
  | some (.dir i) => if t.isEmpty i then some (t.set a.did a.name none) else none
  | none => none

def serve (t : FileTree κ) : (r : Req) → Decision → Option (r.Ans × FileTree κ)
  | .alloc, .memory ok => some (ok, t)
  | .now, .time s => some (s, t)
  | .getFileDirParms did filebitmap dirbitmap name, .carryOut cnid =>
    match t.obj did name with
    | some (.dir i) => some ((kFPNoErr, ⟨true, dirbitmap, i⟩), t)
    | some (.file _) => some ((kFPNoErr, ⟨false, filebitmap, cnid⟩), t)
    | none => none
  | .getFileDirParms did _ _ name, .error rc =>
    if t.obj did name = none ∧ (rc = kFPObjectNotFound ∨ rc = kFPDirNotFound)
    then some ((rc, ⟨false, 0, 0⟩), t) else none
  | .exchangeFiles srcDid dstDid src dst, .carryOut _ =>
    (t.exchange ⟨srcDid, src⟩ ⟨dstDid, dst⟩).map (kFPNoErr, ·)
  | .exchangeFiles srcDid dstDid src dst, .error rc =>
    if rc ∈ t.exchangeErrors ⟨srcDid, src⟩ ⟨dstDid, dst⟩ then some (rc, t) else none
  | .moveAndRename srcDid dstDid src dst newName, .carryOut _ =>
    (t.moveTo ⟨srcDid, src⟩ (t.moveFolder dstDid dst) newName).map (kFPNoErr, ·)
  | .moveAndRename srcDid dstDid src dst newName, .error rc =>
    if rc ∈ t.moveErrors ⟨srcDid, src⟩ (t.moveFolder dstDid dst) newName then some (rc, t) else none
  | .moveAndRename srcDid dstDid src dst _, .cantMove below =>
    match t.obj srcDid src, t.moveFolder dstDid dst with
    | some (.dir i), some d =>
      if t.obj.dirFrom i below = some d then some (kFPCantMove, t) else none
    | _, _ => none
  | .delete did name, .carryOut _ => (t.delete ⟨did, name⟩).map (kFPNoErr, ·)
  | .delete did name, .error rc =>
    if t.obj did name = none ∧ rc = kFPObjectNotFound then some (rc, t) else none
  | .delete did name, .notEmpty held =>
    match t.obj did name with
    | some (.dir i) => if t.obj i held = none then none else some (kFPDirNotEmpty, t)
    | _ => none
  | _, _ => none

end FileTree

end NC
