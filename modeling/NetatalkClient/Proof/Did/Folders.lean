import NetatalkClient.Model.FolderServer
import NetatalkClient.Proof.Did.Resolve
import NetatalkClient.Proof.Midlevel.Layers
import NetatalkClient.Proof.Names.Absolute

/-!
# Folders that stay in their places

What the server carries out moves no folder but one that a move names, and what is beneath
it. `Effect.Spares` says that an effect leaves a path alone, and `Spared` that every effect
which may be carried out leaves some paths alone, for as long as the requests that are sent
are of one kind. A folder remembered at one of those paths is then nowhere else after any
request (`Spared.serve`) and at the end of the call (`Spared.settle`).

With no move among the requests every path is spared (`Spared.still`), and lookups are
`Truthful` (`FolderServer.truthful`).
-/

namespace NC

open List Prog

/-! ## What is carried out -/

namespace Folders

/-- The folder of the ID is at the path or is gone, and the ID is no other's. -/
def At (f : Folders) (p : List Path) (d : Nat) : Prop := f.tree.OnlyAt rootDid p d ∧ d ∈ f.used

theorem at_root (f : Folders) : f.At [] rootDid := ⟨IdTree.onlyAt_root f.wf, f.root_used⟩

variable {f f' : Folders} {p : List Path} {d : Nat}

theorem holder_eq_some {x : Nat × Path} (h : f.holder p = some x) :
    ∃ q, p = q ++ [x.2] ∧ f.tree.dirFrom rootDid q = some x.1 := by
  unfold holder at h
  split at h
  · cases h
  · rename_i n hn
    obtain ⟨i, hi, rfl⟩ := Option.map_eq_some_iff.1 h
    obtain ⟨q, rfl⟩ := getLast?_eq_some_iff.1 hn
    exact ⟨q, rfl, by simpa using hi⟩

end Folders

/-- The effect, if it is carried out, moves no folder at the path. -/
def Effect.Spares (f : Folders) (p : List Path) : Effect → Prop
  | .move srcDid _ src _ _ => ∀ q, f.tree.dirFrom rootDid q = some srcDid →
    objectPath q src ≠ [] → ¬objectPath q src <+: p
  | _ => True

theorem Folders.At.carry {f f' : Folders} {e : Effect} {c : Carried} {p : List Path} {d : Nat}
    (h : f.At p d) (hc : f.carry e c = some f') (he : e.Spares f p) : f'.At p d := by
  obtain ⟨hat, hd⟩ := h
  cases e with
  | create did name =>
    simp only [Folders.carry] at hc
    split at hc
    · rename_i hcond
      have hfresh := hcond.2.2.2.1
      cases hc
      refine ⟨hat.set_dir ?_ ?_ ?_ ?_ ?_, mem_cons_of_mem _ hd⟩
      · rintro rfl
        exact hfresh (used_of_dirFrom hcond.1)
      · intro m
        by_contra hm
        exact hfresh (f.parent_used hm)
      · exact fun _ _ hm => hfresh (f.child_used hm)
      · rintro hr
        exact hfresh (hr ▸ f.root_used)
      · rintro rfl
        exact hfresh hd
    · cases hc
  | remove did name =>
    simp only [Folders.carry] at hc
    split at hc
    · obtain ⟨x, -, rfl⟩ := Option.map_eq_some_iff.1 hc
      exact ⟨hat.set_none, hd⟩
    · cases hc
  | move srcDid dstDid src dst newName =>
    simp only [Folders.carry] at hc
    split at hc
    · rename_i hsrc
      split at hc
      · rename_i d₁ n₁ d₂ hsome hinto
        rw [Option.ite_none_right_eq_some] at hc
        obtain ⟨⟨hthere, hfree, hbeneath⟩, hc⟩ := hc
        cases hc
        obtain ⟨q, hq, hd₁⟩ := holder_eq_some hsome
        have hspare := he _ hsrc.1 (by simp [hq])
        rw [hq] at hbeneath hspare
        exact ⟨hat.move f.wf hd₁ hinto hthere hfree hbeneath hspare, hd⟩
      · cases hc
    · cases hc

/-! ## What a request leaves in its place -/

/-- While `K` holds of the folders, every effect of the kind `es` keeps it and leaves the
paths `A` alone. -/
structure Spared (K : Folders → Prop) (es : Effect → Prop) (A : List Path → Prop) : Prop where
  keeps : ∀ {f e c f'}, K f → es e → f.carry e c = some f' → K f'
  spares : ∀ {f e p}, K f → es e → A p → e.Spares f p

/-- `K` holds of the folders, and what may still be carried out is of the kind `es`. -/
structure FolderServer.Within (K : Folders → Prop) (es : Effect → Prop) (v : FolderServer) :
    Prop where
  folders : K v.folders
  pending : ∀ e ∈ v.pending, es e

/-- The server has gone on, and no folder at the paths `A` has moved. -/
def FolderServer.Stays (K : Folders → Prop) (es : Effect → Prop) (A : List Path → Prop)
    (v v' : FolderServer) : Prop :=
  v'.Within K es ∧ ∀ p d, A p → v.folders.At p d → v'.folders.At p d

section Spared

variable {K : Folders → Prop} {es : Effect → Prop} {A : List Path → Prop} (S : Spared K es A)
variable {v v' : FolderServer}
include S

theorem Spared.carryOut {x : Nat × Carried} (hv : v.Within K es) (h : v.carryOut x = some v') :
    v.Stays K es A v' := by
  unfold FolderServer.carryOut at h
  split at h
  · cases h
  · rename_i e he
    obtain ⟨f, hf, rfl⟩ := Option.map_eq_some_iff.1 h
    have hes := hv.pending e (mem_of_getElem? he)
    refine ⟨⟨S.keeps hv.folders hes hf, fun e he => hv.pending e (mem_of_mem_eraseIdx he)⟩, ?_⟩
    exact fun p d hp hat => hat.carry hf (S.spares hv.folders hes hp)

variable {xs : List (Nat × Carried)}

theorem Spared.carryAll (hv : v.Within K es) (h : xs.foldlM FolderServer.carryOut v = some v') :
    v.Stays K es A v' := by
  induction xs generalizing v with
  | nil =>
    cases h
    exact ⟨hv, fun _ _ _ hat => hat⟩
  | cons x xs ih =>
    rw [foldlM_cons, Option.bind_eq_bind, Option.bind_eq_some_iff] at h
    obtain ⟨v₁, hx, h⟩ := h
    obtain ⟨hv₁, hat₁⟩ := S.carryOut hv hx
    obtain ⟨hv', hat'⟩ := ih hv₁ h
    exact ⟨hv', fun p d hp hat => hat' p d hp (hat₁ p d hp hat)⟩

theorem Spared.serve {r : Request} {c : FolderChoice} {a : r.Ans} (hv : v.Within K es)
    (hr : ∀ e ∈ r.effect, es e) (h : v.serve r c = some (a, v')) :
    v.Stays K es A v' ∧ v'.folders.tells r a = true := by
  obtain ⟨v₁, hall, h⟩ := Option.bind_eq_some_iff.1 h
  split at h
  · rename_i htells
    cases h
    have hsent : FolderServer.Within K es ⟨v.folders, v.pending ++ r.effect.toList⟩ := by
      refine ⟨hv.folders, fun e he => ?_⟩
      rcases mem_append.1 he with he | he
      · exact hv.pending e he
      · exact hr e (Option.mem_toList.1 he)
    have hstays := S.carryAll hsent hall
    exact ⟨⟨hstays.1, hstays.2⟩, htells⟩
  · cases h

theorem Spared.settle (hv : v.Within K es) (h : v.settle xs = some v') :
    v'.pending = [] ∧ ∀ p d, A p → v.folders.At p d → v'.folders.At p d := by
  obtain ⟨v₁, hall, rfl⟩ := Option.map_eq_some_iff.1 h
  exact ⟨rfl, (S.carryAll hv hall).2⟩

end Spared

/-! ## Requests that move nothing -/

/-- The effect takes no folder from its place to another. -/
def Effect.Still : Effect → Prop
  | .move .. => False
  | _ => True

theorem Spared.still : Spared (fun _ => True) Effect.Still fun _ => True where
  keeps _ _ _ := trivial
  spares {f e p} _ he _ := by
    cases e with
    | move => exact he.elim
    | _ => trivial

/-- No move stands out. -/
abbrev FolderServer.Quiet (v : FolderServer) : Prop := v.Within (fun _ => True) Effect.Still

/-! ## Names on the wire -/

/-- A name of one component that the wire carries whole. -/
structure WireName (encoding : PathEncoding) (n : Name) : Prop where
  name : IsName n
  short : n.length ≤ encoding.maxLength

variable {vol : Volume} {n : Name}

theorem wireName_of_short (h : n.length ≤ vol.pathEncoding.maxLength) :
    vol.wireName n = unixpathToAfppath n := by
  have hcopy : copyPath vol n = n := by
    unfold copyPath
    split <;> rename_i he <;> exact take_of_length_le (by simpa [he, PathEncoding.maxLength] using h)
  rw [Volume.wireName, hcopy]

theorem wireName_ne_nil (h : WireName vol.pathEncoding n) : vol.wireName n ≠ [] := by
  rw [wireName_of_short h.short, unixpathToAfppath, ne_eq, map_eq_nil_iff]
  exact h.name.1

theorem map_unixpathToAfppath (h : slash ∉ n) :
    (unixpathToAfppath n).map (fun c => if c = slash then colon else c) = n := by
  rw [unixpathToAfppath, map_map]
  refine (map_congr_left fun c hc => ?_).trans (map_id n)
  have hs : c ≠ slash := ne_of_mem_of_not_mem hc h
  by_cases hcolon : c = colon
  · subst hcolon
    decide
  · simp [hs, hcolon]

theorem wireName_inj {m : Name} (hn : WireName vol.pathEncoding n)
    (hm : WireName vol.pathEncoding m) (h : vol.wireName n = vol.wireName m) : n = m := by
  rw [wireName_of_short hn.short, wireName_of_short hm.short] at h
  rw [← map_unixpathToAfppath hn.name.2, h, map_unixpathToAfppath hm.name.2]

theorem map_wireName_prefix {ns ms : List Name}
    (hns : ∀ n ∈ ns, WireName vol.pathEncoding n) (hms : ∀ m ∈ ms, WireName vol.pathEncoding m)
    (h : ns.map vol.wireName <+: ms.map vol.wireName) : ns <+: ms := by
  induction ns generalizing ms with
  | nil => exact nil_prefix
  | cons n ns ih =>
    cases ms with
    | nil => simp at h
    | cons m ms =>
      rw [forall_mem_cons] at hns hms
      rw [map_cons, map_cons, cons_prefix_cons] at h
      exact cons_prefix_cons.2 ⟨wireName_inj hns.1 hms.1 h.1, ih hns.2 hms.2 h.2⟩

/-! ## Lookups -/

theorem restrict_eq_some {v v' : FolderServer} {r : Req} {c : FolderChoice} {a : r.Ans}
    (h : restrict reqs FolderServer.serve v r c = some (a, v')) :
    ∃ b, v.serve (reqs.req r) c = some (b, v') ∧ reqs.ans r b = a := by
  obtain ⟨x, hx, he⟩ := Option.map_eq_some_iff.1 h
  cases he
  exact ⟨x.1, hx, rfl⟩

theorem Req.Looks.effect {r : Req} (h : r.Looks) : (reqs.req r).effect = none := by
  cases r <;> first | rfl | exact h.elim

theorem FolderServer.truthful (vol : Volume) :
    Truthful vol (restrict reqs FolderServer.serve) (WireName vol.pathEncoding) FolderServer.Quiet
      fun v ns d => v.folders.At (ns.map vol.wireName) d where
  name h := h.name
  root {v} _ := v.folders.at_root
  looks {v r c a v'} hr h hv := by
    obtain ⟨b, hb, -⟩ := restrict_eq_some h
    have hsent : ∀ e ∈ (reqs.req r).effect, e.Still := by simp [hr.effect]
    obtain ⟨hstays, -⟩ := Spared.still.serve hv hsent hb
    exact ⟨hstays.1, fun ns d => hstays.2 _ d trivial⟩
  dir {v did n c e v' ns} h hdir hvalid hv hn hat := by
    obtain ⟨⟨rc, x⟩, hb, hx⟩ := restrict_eq_some h
    cases hx
    obtain ⟨hstays, htells⟩ := Spared.still.serve hv (by simp [reqs, Request.effect]) hb
    obtain ⟨hat', hused⟩ := hstays.2 _ did trivial hat
    have hisdir : x.isdir = true := hdir
    have hdid : did ≠ 1 := fun h1 => v'.folders.reserved (h1 ▸ hused)
    have htrue : v'.folders.tree did (vol.wireName n) = some (.dir x.cnid) := by
      simpa [Folders.tells, reqs, hisdir, hvalid, hdid, wireName_ne_nil hn] using htells
    rw [map_append, map_singleton]
    exact ⟨hat'.child v'.folders.wf htrue, v'.folders.child_used htrue⟩

end NC
