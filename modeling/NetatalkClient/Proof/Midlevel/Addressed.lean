import NetatalkClient.Proof.Midlevel.Layers

/-!
# The objects a call addresses

A request names an object by a folder's ID and a name. A call is `Addressed` to some
paths when it looks up no others, and names to the server only what those lookups
returned. Between lookups, a call on the objects found sends only requests about them
(`MlReq.About`); a fork's functions read the object from the fork's record
(`Records`). `keep_getDirid` puts such a part behind its lookup.
-/

namespace NC

open List Prog

/-- Every object the request names satisfies `names`. A move's new name is the source's
in the folder named, or names the destination in its folder. -/
def Request.NamesBy (names : ObjName → Prop) : Request → Prop
  | .getFileDirParms did _ _ name | .setParms _ did name _ _ | .enumerate did _ _ _ name
  | .createFile did name | .createDir did name | .delete did name | .openFork _ did _ _ name
  | .getComment _ did name | .addComment _ did name _ | .getExtAttr did _ name _
  | .setExtAttr did _ name _ _ | .listExtAttrs did _ name | .removeExtAttr did name _ =>
    names ⟨did, name⟩
  | .exchangeFiles srcDid dstDid src dst => names ⟨srcDid, src⟩ ∧ names ⟨dstDid, dst⟩
  | .moveAndRename srcDid dstDid src dst newName =>
    names ⟨srcDid, src⟩ ∧
      ((names ⟨dstDid, dst⟩ ∧ newName = src) ∨ (dst = [] ∧ names ⟨dstDid, newName⟩))
  | _ => True

theorem Request.NamesBy.mono {names names' : ObjName → Prop} (h : ∀ o, names o → names' o)
    {r : Request} (hr : r.NamesBy names) : r.NamesBy names' := by
  cases r with
  | exchangeFiles => exact ⟨h _ hr.1, h _ hr.2⟩
  | moveAndRename => exact ⟨h _ hr.1, hr.2.imp (And.imp_left (h _)) (And.imp_right (h _))⟩
  | _ => first | trivial | exact h _ hr

/-- What is exchanged over the two layers below the middle one. -/
abbrev MlLog := List (Exchange MlReq.Ans)

/-- What a call of `did.c` can return (`getDirid_returns`), and any answer of a server: a
lookup fails with a negative errno, and finds the path's last name. -/
def MlReq.mayAnswer : (r : MlReq) → r.Ans → Bool
  | .did (.getDirid _), .error e => decide (e < 0)
  | .did (.getDirid path), .ok (_, name) => (splitLast path).map Prod.snd == some name
  | _, _ => true

/-- A lookup of the log returned the object, named here as on the wire. -/
def Found (vol : Volume) (log : MlLog) (o : ObjName) : Prop :=
  ∃ path did name, ⟨.did (.getDirid path), .ok (did, name)⟩ ∈ log ∧ o = ObjName.wire vol ⟨did, name⟩

/-- The request looks up one of the paths, or names what was found. -/
def MlReq.Addressed (vol : Volume) (paths : List Path) (log : MlLog) : MlReq → Prop
  | .did (.getDirid path) => path ∈ paths
  | .did _ => True
  | .sys r => r.NamesBy (Found vol log)

/-- Every request is about the objects at the paths. -/
def Addressed (vol : Volume) (paths : List Path) (log : MlLog) : Prop :=
  ∀ x ∈ log, x.1.Addressed vol paths log

/-- The request looks up one of the paths, or names one of the objects. -/
def MlReq.About (vol : Volume) (paths : List Path) (os : List ObjName) : MlReq → Prop
  | .did (.getDirid path) => path ∈ paths
  | .did _ => True
  | .sys r => r.NamesBy (· ∈ os.map (ObjName.wire vol))

/-- The record at `fp` is of the object and the kind. -/
def Records (fp : Nat) (o : ObjName) (kind : MetaKind) (s : MlState) : Prop :=
  (s.file fp).did = o.did ∧ (s.file fp).basename = o.name ∧ (s.file fp).resource = kind

/-- A part of a call on the fork at `fp`. -/
abbrev OnFork (vol : ServedVolume) (paths : List Path) (fp : Nat) (o : ObjName) (kind : MetaKind)
    {α : Type} (p : MlCall α) : Prop :=
  p.Keeps (Records fp o kind) (MlReq.About vol.toVolume paths [o]) fun _ => True

section Rules

variable {vol : ServedVolume} {paths : List Path} {os : List ObjName} {log more : MlLog} {α : Type}

theorem MlReq.Addressed.append {r : MlReq} (h : r.Addressed vol.toVolume paths log) :
    r.Addressed vol.toVolume paths (log ++ more) := by
  match r with
  | .did (.getDirid _) => exact h
  | .did (.removeDidSubtree _) | .did (.removeDidLineage _) | .did (.checkDidEntry ..)
  | .did (.checkDidEntryListing ..) => trivial
  | .sys r =>
    refine Request.NamesBy.mono ?_ h
    rintro _ ⟨path, did, name, hm, rfl⟩
    exact ⟨path, did, name, mem_append_left _ hm, rfl⟩

theorem MlReq.About.addressed {r : MlReq} (h : r.About vol.toVolume paths os)
    (ho : ∀ o ∈ os, Found vol.toVolume log (o.wire vol.toVolume)) :
    r.Addressed vol.toVolume paths log := by
  match r with
  | .did (.getDirid _) => exact h
  | .did (.removeDidSubtree _) | .did (.removeDidLineage _) | .did (.checkDidEntry ..)
  | .did (.checkDidEntryListing ..) => trivial
  | .sys r =>
    refine Request.NamesBy.mono ?_ h
    intro w hw
    obtain ⟨o, hm, rfl⟩ := mem_map.1 hw
    exact ho o hm

/-- Requests about objects that were found stand in a log of the paths' objects. -/
theorem Addressed.append (h : Addressed vol.toVolume paths log)
    (ho : ∀ o ∈ os, Found vol.toVolume log (o.wire vol.toVolume))
    (hm : ∀ x ∈ more, x.1.About vol.toVolume paths os) :
    Addressed vol.toVolume paths (log ++ more) := by
  intro x hx
  rcases mem_append.1 hx with hx | hx
  · exact (h x hx).append
  · exact ((hm x hx).addressed ho).append

variable {p : MlCall α}

theorem wp_about {I : MlState → Prop} {s : MlState}
    (hp : p.Keeps I (MlReq.About vol.toVolume paths os) fun _ => True) (hs : I s)
    (h : Addressed vol.toVolume paths log)
    (ho : ∀ o ∈ os, Found vol.toVolume log (o.wire vol.toVolume)) :
    Wp (record MlReq.mayAnswer) p s log fun _ _ log' => Addressed vol.toVolume paths log' :=
  (hp.record hs log).mono fun _ _ _ ⟨_, _, _, he, hmore⟩ => he ▸ h.append ho hmore

/-- The call keeps to the paths' objects, from any point of a longer one. -/
abbrev Keep (vol : ServedVolume) (paths : List Path) (p : MlCall α) : Prop :=
  p.Maintains (record MlReq.mayAnswer) (Addressed vol.toVolume paths)

theorem keep_of_keeps
    (hp : p.Keeps (fun _ => True) (MlReq.About vol.toVolume paths []) fun _ => True) :
    Keep vol paths p :=
  fun _ _ h => wp_about hp trivial h nofun

theorem addressed_lookup {path : Path} (hpath : path ∈ paths)
    (h : Addressed vol.toVolume paths log) (x : Except Int (Nat × Name)) :
    Addressed vol.toVolume paths (log ++ [⟨.did (.getDirid path), x⟩]) := by
  have hos : ∀ o ∈ ([] : List ObjName), Found vol.toVolume log (o.wire vol.toVolume) := nofun
  refine h.append hos fun y hy => ?_
  rw [mem_singleton.1 hy]
  exact hpath

theorem Found.append {o : ObjName} (h : Found vol.toVolume log o) :
    Found vol.toVolume (log ++ more) o := by
  obtain ⟨path, did, name, hm, rfl⟩ := h
  exact ⟨path, did, name, mem_append_left _ hm, rfl⟩

section Lookups

variable {path : Path} (hpath : path ∈ paths) {s : MlState}

include hpath

/-- A lookup of one of the paths: what follows it starts from a log with the object found. -/
theorem wp_lookup (h : Addressed vol.toVolume paths log) {k : Except Int (Nat × Name) → MlCall α}
    (herr : ∀ e < 0, Keep vol paths (k (.error e)))
    (hok : ∀ did name log', (∀ o, Found vol.toVolume log o → Found vol.toVolume log' o) →
      Found vol.toVolume log' (ObjName.wire vol.toVolume ⟨did, name⟩) →
      Addressed vol.toVolume paths log' →
      Wp (record MlReq.mayAnswer) (k (.ok (did, name))) s log' fun _ _ log' =>
        Addressed vol.toVolume paths log') :
    Wp (record MlReq.mayAnswer) (send (MlReq.did (.getDirid path)) k) s log fun _ _ log' =>
      Addressed vol.toVolume paths log' := by
  rw [wp_record_send]
  intro x hx
  have hlook := addressed_lookup hpath h x
  cases x with
  | error e => exact herr e (of_decide_eq_true hx) s _ hlook
  | ok x =>
    refine hok x.1 x.2 _ (fun _ => Found.append) ?_ hlook
    exact ⟨path, x.1, x.2, mem_append_right _ (mem_singleton_self _), rfl⟩

/-- A lookup of one of the paths, and the part of the call on the object it finds. -/
theorem keep_getDirid
    {k : Except Int (Nat × Name) → MlCall α} (herr : ∀ e < 0, Keep vol paths (k (.error e)))
    (hok : ∀ did name, (k (.ok (did, name))).Keeps (fun _ => True)
      (MlReq.About vol.toVolume paths [⟨did, name⟩]) fun _ => True) :
    Keep vol paths (Ml.getDirid path >>= k) := by
  intro s log h
  refine wp_lookup hpath h herr fun did name log' _ hf hlook => ?_
  exact wp_about (hok did name) trivial hlook (by simpa using hf)

/-- A lookup into the record at `fp`, and the part of the call on that fork. -/
theorem wp_getDiridInto {fp : Nat} {k : Int → MlCall α} (herr : ∀ e < 0, Keep vol paths (k e))
    (hok : ∀ o, OnFork vol paths fp o (s.file fp).resource (k 0))
    (h : Addressed vol.toVolume paths log) :
    Wp (record MlReq.mayAnswer) (getDiridInto path fp >>= k) s log fun _ _ log' =>
      Addressed vol.toVolume paths log' := by
  refine wp_lookup hpath h herr fun did name log' _ hf hlook => ?_
  have hrec : Records fp ⟨did, name⟩ (s.file fp).resource { s with
      file := Function.update s.file fp { s.file fp with did := did, basename := name } } := by
    simp [Records]
  have hrest := wp_about (hok ⟨did, name⟩) hrec hlook (by simpa using hf)
  exact hrest

end Lookups

end Rules

end NC
