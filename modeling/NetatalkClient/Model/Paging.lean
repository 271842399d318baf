import NetatalkClient.Model.Daemon
import NetatalkClient.Model.Responses
import NetatalkClient.Model.UamNames

/-!
# Lists that afpsld sends in parts

`process_getvols` and `process_readdir` (`commands.c`) answer with the part of a list that begins at
the position of the request. A directory is listed and sorted anew for each request, by names without
regard to case, and its entries go out as long as the response has room for them.
-/

namespace NC

/-! ## Volumes -/

/-- The answer to a request for volumes: of the volumes, the slots that were read. -/
structure GetvolsAnswer where
  result : Nat
  num : Nat := 0
  slots : List Nat := []
  deriving DecidableEq

def asUnsigned (n : Int) : Nat := (n % 2 ^ 32).toNat

/-- `process_getvols`, of a server that is connected. -/
def processGetvols (numVolumes : Nat) (start count : Int) : GetvolsAnswer :=
  if start < 0 then { result := AFPSL_IPC_RESULT_ERROR }
  else
    let numvols := if asUnsigned count < numVolumes then asUnsigned count else numVolumes
    if numvols < asUnsigned start then { result := AFPSL_IPC_RESULT_ERROR }
    else
      { result := AFPSL_IPC_RESULT_OK, num := numvols, slots := List.range' start.toNat numvols }

/-! ## Directories -/

structure ListedEntry where
  name : Bytes
  short : name.length < maxNameBytes
  /-- Whether `afp_dirent_to_stat` can express its owner. -/
  shown : Bool := true
  deriving DecidableEq

def ListedEntry.folded (e : ListedEntry) : Bytes := e.name.map toLowerByte

/-- What `qsort` may make of the entries, with `compare_readdir_names`. -/
structure Sorts (entries names : List ListedEntry) : Prop where
  perm : names.Perm entries
  sorted : names.Pairwise fun a b => a.folded ≤ b.folded

def ListedEntry.size (e : ListedEntry) : Nat := 4 + e.name.length + 8 * 2 + 16 + 8

/-- The loop of `process_readdir` over the entries asked for, with the room that is left: the entries
packed, and whether all was well. -/
def packEntries : Nat → List ListedEntry → List ListedEntry × Bool
  | _, [] => ([], true)
  | room, e :: es =>
    if room < e.size then ([], true)
    else if !e.shown then ([], false)
    else (e :: (packEntries (room - e.size) es).1, (packEntries (room - e.size) es).2)

structure ReaddirPage where
  result : Nat
  entries : List ListedEntry := []
  eod : Bool := false

/-- `process_readdir`, once the listing is sorted. A negative count asks for every entry. -/
def processReaddir (names : List ListedEntry) (start : Nat) (count : Int) : ReaddirPage :=
  if names.length < start then { result := AFPSL_IPC_RESULT_ERROR }
  else
    let asked := if count < 0 then names.drop start else (names.drop start).take count.toNat
    let packed := packEntries (ipcMaxResponse - 16) asked
    { result := if packed.2 then AFPSL_IPC_RESULT_OK else AFPSL_IPC_RESULT_ERROR
      entries := packed.1
      eod := names.length ≤ start + packed.1.length }

/-- What a client gets that asks for one page after another, each for what is sorted then, from where
the page before ended: the entries of all pages, and whether the last was the end; `none` after an
error. -/
def slReaddirPages : Nat → List (List ListedEntry × Int) → Option (List ListedEntry × Bool)
  | _, [] => some ([], false)
  | start, (names, count) :: rest =>
    let page := processReaddir names start count
    if page.result ≠ AFPSL_IPC_RESULT_OK then none
    else if page.eod then some (page.entries, true)
    else (slReaddirPages (start + page.entries.length) rest).map fun x => (page.entries ++ x.1, x.2)

end NC
