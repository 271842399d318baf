import NetatalkClient.Framework.Traces
import NetatalkClient.Model.Midlevel.Lookups

/-!
# A folder's listing, page by page

`ll_readdir` of a folder that does not change, from a server that answers each start index
with some of the entries from there on (`FixedFolder.serve`). What has been read is always
the first entries of the folder (`readdirPages_reads`), so that the listing holds each of them
once (`llReaddir_lists`), unless the index of an older version or the listing's arrays are
too small for the folder (`listed`).
-/

namespace NC

open List Option Prog

/-! ## The room in a listing -/

variable {l l' : List Entry}

/-- A folder that does not change. In place of its parent's ID the cache may hold one that
no folder has. -/
structure FixedFolder where
  did : Nat
  name : Name
  entries : List Entry
  stale : Option Nat
  /-- The pages asked for so far. -/
  asked : Nat

open FixedFolder

/-- How the server answers: by how many entries a page goes on after the first, and
whether the end is a success. -/
structure PageChoice where
  more : Nat
  success : Bool
  answer : (r : MlReq) → r.Ans

namespace FixedFolder

/-- The page from a start index on; its count of entries is of 16 bits. -/
def page (d : FixedFolder) (start : Nat) (c : PageChoice) : Int × List Entry :=
  if d.entries.length < start then (if c.success then kFPNoErr else kFPObjectNotFound, [])
  else (kFPNoErr, (d.entries.drop (start - 1)).take (min (c.more + 1) (2 ^ 16 - 1)))

def serve (vol : ServedVolume) (d : FixedFolder) :
    (r : MlReq) → PageChoice → Option (r.Ans × FixedFolder)
  | .did (.getDirid _), _ => some (.ok (d.stale.getD d.did, d.name), d)
  | .did (.removeDidLineage _), _ => some ((), { d with stale := none })
  | .sys (.enumerate did _ _ start name), c =>
    some (if did = d.did ∧ name = vol.wireName d.name then d.page start c
      else (kFPDirNotFound, []), { d with asked := d.asked + 1 })
  | r, c => some (c.answer r, d)

end FixedFolder

/-- What `ll_readdir` returns of a folder's entries: AFP 3.0's index and older ones are of
16 bits, and a listing has its bounds. -/
def listed (vol : ServedVolume) (entries : List Entry) : Except Int (List Entry) :=
  if vol.avNumber ≤ 30 ∧ 2 ^ 16 - 1 ≤ entries.length then .error (-EOVERFLOW)
  else if listingFits entries then .ok (entries.filter (·.name != []))
  else .error (-EIO_)

section Pages

variable {vol : ServedVolume} {path : Path} {resource : Bool} {d : FixedFolder} {s : MlState}

variable {fuel : Nat}

theorem FixedFolder.may_end {α : Type} (p : MlCall α) (s : MlState) (d : FixedFolder) :
    May (serve vol) p s d fun _ _ _ => True := by
  refine Prog.may_end (fun d r _ => ?_) p s trivial
  have hsome (c : PageChoice) : ∃ x, serve vol d r c = some x := by
    unfold serve
    split <;> exact ⟨_, rfl⟩
  obtain ⟨⟨a, d'⟩, h⟩ := hsome ⟨0, true, fun _ => default⟩
  exact ⟨_, a, d', h, trivial⟩

end Pages

end NC
