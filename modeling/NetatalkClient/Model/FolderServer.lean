import NetatalkClient.Framework.IdTree
import NetatalkClient.Model.Midlevel.Requests

/-!
# A server's folders, and requests that may stay unanswered

A server keeps a tree of folders with permanent IDs: an ID it has used is never given
to another folder (`Folders`). Three requests change it (`Request.effect`). A request is
carried out when the server comes to it, at any time until the call that sent it returns,
or never (`FolderServer.carryOut`), and its answer may be any, or none. Of an answer one
thing alone is asked: parameters that name a folder's ID are those of the folder there
(`Folders.tells`). What the client makes of the other answers never depends on their truth.
-/

namespace NC

/-- A server's folders, with every ID that was ever given to one. The ID 1 is that of the
root's parent, and no folder's. -/
structure Folders where
  tree : IdTree Nat Path Empty
  used : List Nat
  wf : tree.Wf rootDid
  root_used : rootDid ∈ used
  parent_used : ∀ {d n}, tree d n ≠ none → d ∈ used
  child_used : ∀ {d n i}, tree d n = some (.dir i) → i ∈ used
  reserved : 1 ∉ used

/-- What a request asks of the folders. -/
inductive Effect where
  | create (did : Nat) (name : Path)
  | remove (did : Nat) (name : Path)
  | move (srcDid dstDid : Nat) (src dst newName : Path)
  deriving DecidableEq, Repr

def Request.effect : Request → Option Effect
  | .createDir did name => some (.create did name)
  | .delete did name => some (.remove did name)
  | .moveAndRename srcDid dstDid src dst newName => some (.move srcDid dstDid src dst newName)
  | _ => none

/-- How an effect is carried out: the paths of the folders it names, and the ID of the one
it creates. -/
structure Carried where
  src : List Path := []
  dst : List Path := []
  fresh : Nat := 0
  deriving DecidableEq, Repr

/-- The path of the object a request names in the folder at `p`: the empty name is the
folder itself. -/
def objectPath (p : List Path) (name : Path) : List Path := if name = [] then p else p ++ [name]

namespace Folders

def empty : Folders where
  tree _ _ := none
  used := [rootDid]
  wf := ⟨nofun, nofun⟩
  root_used := List.mem_singleton_self _
  parent_used h := absurd rfl h
  child_used := nofun
  reserved := by decide

variable (f : Folders)

def create (d : Nat) (n : Path) (i : Nat) (hd : d ∈ f.used) (hi : i ∉ f.used) (h1 : i ≠ 1) :
    Folders where
  tree := f.tree.set d n (some (.dir i))
  used := i :: f.used
  wf := f.wf.set_dir (fun _ _ h => hi (f.child_used h)) fun h => hi (h ▸ f.root_used)
  root_used := List.mem_cons_of_mem _ f.root_used
  parent_used {d' n'} h := by
    simp only [IdTree.set] at h
    split_ifs at h with hc
    · exact List.mem_cons_of_mem _ (hc.1 ▸ hd)
    · exact List.mem_cons_of_mem _ (f.parent_used h)
  child_used {d' n' j} h := by
    simp only [IdTree.set] at h
    split_ifs at h
    · cases h
      exact List.mem_cons_self ..
    · exact List.mem_cons_of_mem _ (f.child_used h)
  reserved h := (List.mem_cons.1 h).elim (fun h => h1 h.symm) f.reserved

def remove (d : Nat) (n : Path) : Folders where
  tree := f.tree.set d n none
  used := f.used
  wf := f.wf.set_none
  root_used := f.root_used
  parent_used {d' n'} h := by
    simp only [IdTree.set] at h
    split_ifs at h
    · exact absurd rfl h
    · exact f.parent_used h
  child_used {d' n' j} h := by
    simp only [IdTree.set] at h
    split_ifs at h
    exact f.child_used h
  reserved := f.reserved

def move (d₁ : Nat) (n₁ : Path) (d₂ : Nat) (n₂ : Path) (h₂ : d₂ ∈ f.used) : Folders where
  tree := f.tree.move d₁ n₁ d₂ n₂
  used := f.used
  wf := f.wf.move
  root_used := f.root_used
  parent_used {d' n'} h := by
    simp only [IdTree.move, IdTree.set] at h
    split_ifs at h with hc
    · exact hc.1 ▸ h₂
    · exact absurd rfl h
    · exact f.parent_used h
  child_used {d' n' j} h := by
    simp only [IdTree.move, IdTree.set] at h
    split_ifs at h <;> exact f.child_used h
  reserved := f.reserved

theorem used_of_dirFrom {f : Folders} {p : List Path} {d : Nat}
    (h : f.tree.dirFrom rootDid p = some d) : d ∈ f.used := by
  induction p using List.reverseRecOn with
  | nil =>
    cases h
    exact f.root_used
  | append_singleton p n _ =>
    obtain ⟨e, -, he⟩ := IdTree.dirFrom_snoc.1 h
    exact f.child_used he

/-- The folder that holds the object at a path, and the object's name. The root is in none. -/
def holder (p : List Path) : Option (Nat × Path) :=
  match p.getLast? with
  | none => none
  | some n => (f.tree.dirFrom rootDid p.dropLast).map (·, n)

/-- Carry out an effect. A folder is created under a free name with a new ID. A folder is
moved to a free name, the empty one being its own, and not beneath itself. -/
def carry : Effect → Carried → Option Folders
  | .create did name, c =>
    if h : f.tree.dirFrom rootDid c.src = some did ∧ name ≠ [] ∧ f.tree did name = none ∧
        c.fresh ∉ f.used ∧ c.fresh ≠ 1 then
      some (f.create did name c.fresh (used_of_dirFrom h.1) h.2.2.2.1 h.2.2.2.2)
    else none
  | .remove did name, c =>
    if f.tree.dirFrom rootDid c.src = some did then
      (f.holder (objectPath c.src name)).map fun x => f.remove x.1 x.2
    else none
  | .move srcDid dstDid src dst newName, c =>
    if f.tree.dirFrom rootDid c.src = some srcDid ∧ f.tree.dirFrom rootDid c.dst = some dstDid then
      match f.holder (objectPath c.src src), h : f.tree.dirFrom rootDid (objectPath c.dst dst) with
      | some (d₁, n₁), some d₂ =>
        let n₂ := if newName = [] then n₁ else newName
        if f.tree d₁ n₁ ≠ none ∧ f.tree d₂ n₂ = none ∧
            ¬objectPath c.src src <+: objectPath c.dst dst then
          some (f.move d₁ n₁ d₂ n₂ (used_of_dirFrom h))
        else none
      | _, _ => none
    else none

/-- An answer is true: parameters with the ID of a folder are those of the folder of the
name. -/
def tells : (r : Request) → r.Ans → Bool
  | .getFileDirParms did _ _ name, (rc, e) =>
    rc ≠ kFPNoErr || !e.isdir || e.valid &&& kFPNodeIDBit = 0 || did = 1 || name = []
      || f.tree did name = some (.dir e.cnid)
  | _, _ => true

end Folders

/-- The folders, and the requests that may still be carried out. -/
structure FolderServer where
  folders : Folders
  pending : List Effect

/-- What the server decides at a request: which of the requests that stand out it carries
out first, by their places, and what it answers. -/
structure FolderChoice where
  carried : List (Nat × Carried)
  answer : (r : Request) → r.Ans

namespace FolderServer

def carryOut (v : FolderServer) (x : Nat × Carried) : Option FolderServer :=
  match v.pending[x.1]? with
  | none => none
  | some e => (v.folders.carry e x.2).map fun f => ⟨f, v.pending.eraseIdx x.1⟩

/-- A request stands out, some are carried out, and it is answered. -/
def serve (v : FolderServer) (r : Request) (c : FolderChoice) : Option (r.Ans × FolderServer) :=
  (c.carried.foldlM carryOut ⟨v.folders, v.pending ++ r.effect.toList⟩).bind fun v' =>
    if v'.folders.tells r (c.answer r) then some (c.answer r, v') else none

/-- The end of a call: what was not carried out by then never is. -/
def settle (v : FolderServer) (carried : List (Nat × Carried)) : Option FolderServer :=
  (carried.foldlM carryOut v).map fun v' => ⟨v'.folders, []⟩

end FolderServer

end NC
