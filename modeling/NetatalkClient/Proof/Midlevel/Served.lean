import NetatalkClient.Model.ForkServer

/-!
# What a server of files carried out

`ForkServer.serve_cases` says what an exchange with the server can be, and the lemmas
`carryOut_*` what carrying out each request that changes a file or a fork does.
-/

namespace NC.ForkServer

open Function Option

variable {v v' : ForkServer} {r : Request} {c : ForkChoice} {node number did : Nat} {name : Path}

/-- A request was carried out, or was not and is not answered with success; its answer is
true. -/
theorem serve_cases {a : r.Ans} (h : v.serve (.sys r) c = some (a, v')) :
    v.tells r a = true ∧ (v' = v ∧ r.code a ≠ kFPNoErr ∨
      v.carryOut c.node (forkNumber c.number r a) r = some v') := by
  simp only [serve] at h
  split at h
  · next ht =>
    split at h
    · obtain ⟨w, hw, he⟩ := map_eq_some_iff.1 h
      cases he
      exact ⟨ht, .inr hw⟩
    · next hn =>
      cases h
      exact ⟨ht, .inl ⟨rfl, fun h => hn (.inl h)⟩⟩
  · cases h

theorem serve_answer {a : r.Ans} (h : v.serve (.sys r) c = some (a, v')) : a = c.answer (.sys r) := by
  simp only [serve] at h
  split at h
  · split at h
    · obtain ⟨w, -, he⟩ := map_eq_some_iff.1 h
      cases he
      rfl
    · cases h
      rfl
  · cases h

theorem carryOut_createFile :
    v.carryOut node number (.createFile did name) = some v' ↔
      v.named did name = none ∧ node ∉ v.used ∧ v' = v.create did name node fun _ => [] := by
  simp only [carryOut]
  split <;> simp_all [eq_comm]

theorem carryOut_delete :
    v.carryOut node number (.delete did name) = some v' ↔
      v.named did name ≠ none ∧ v' = v.unlink did name := by
  simp only [carryOut]
  split <;> simp_all [eq_comm]

variable {srcDid dstDid bitmap accessmode : Nat} {src dst : Path} {rc : Int}

theorem carryOut_copyFile :
    v.carryOut node number (.copyFile srcDid src dstDid dst) = some v' ↔
      ∃ i, v.named srcDid src = some i ∧ v.named dstDid dst = none ∧ node ∉ v.used ∧
        v' = v.create dstDid dst node (v.bytes i) := by
  simp only [carryOut]
  split
  · next h => simp [h]
  · next i h =>
    simp only [h, some.injEq]
    split <;> simp_all [eq_comm]

theorem carryOut_openFork {resource : Bool} :
    v.carryOut node number (.openFork resource did bitmap accessmode name) = some v' ↔
      ∃ i, ∃ h : v.named did name = some i, v.opened number = none ∧
        v' = v.openFork number i resource (v.named_used h) := by
  simp only [carryOut]
  split
  · next h => simp [h]
  · next i h =>
    split
    · next hn =>
      refine ⟨fun he => ⟨i, h, hn, (some.inj he).symm⟩, ?_⟩
      rintro ⟨j, hj, -, rfl⟩
      cases h.symm.trans hj
      rfl
    · next hn => exact ⟨nofun, fun ⟨_, _, h, _⟩ => absurd h hn⟩

/-! ## The files and forks after a request -/

section After

variable {did did' i j n k : Nat} {name name' : Path} {bytes : Bool → Bytes} {resource : Bool}
  {data : Bytes}

@[simp] theorem create_bytes_self : (v.create did name node bytes).bytes node = bytes :=
  update_self ..

theorem create_bytes_ne (h : i ≠ node) : (v.create did name node bytes).bytes i = v.bytes i :=
  update_of_ne h ..

@[simp] theorem create_named_self : (v.create did name node bytes).named did name = some node := by
  simp [create]

@[simp] theorem unlink_named_self : (v.unlink did name).named did name = none := by
  simp [unlink]

theorem unlink_named_ne (h : (did', name') ≠ (did, name)) :
    (v.unlink did name).named did' name' = v.named did' name' := by
  by_cases hd : did' = did
  · subst hd
    have hn : name' ≠ name := fun hn => h (by rw [hn])
    simp [unlink, hn]
  · simp [unlink, hd]

@[simp] theorem unlink_bytes : (v.unlink did name).bytes = v.bytes := rfl

@[simp] theorem close_bytes : (v.close n).bytes = v.bytes := rfl

theorem close_opened_ne (h : k ≠ n) : (v.close n).opened k = v.opened k := update_of_ne h ..

@[simp] theorem openFork_bytes (hi : i ∈ v.used) : (v.openFork n i resource hi).bytes = v.bytes := rfl

@[simp] theorem openFork_opened_self (hi : i ∈ v.used) :
    (v.openFork n i resource hi).opened n = some (i, resource) := update_self ..

theorem openFork_opened_ne (hi : i ∈ v.used) (h : k ≠ n) :
    (v.openFork n i resource hi).opened k = v.opened k := update_of_ne h ..

@[simp] theorem store_bytes_self : (v.store i resource data).bytes i resource = data := by
  simp [store]

theorem store_bytes_ne (h : j ≠ i) : (v.store i resource data).bytes j = v.bytes j :=
  update_of_ne h ..

end After

/-! ## Requests that change no file and no fork -/

/-- A request that changes no file and no fork. -/
def inert : MlReq → Bool
  | .sys (.createFile ..) | .sys (.delete ..) | .sys (.copyFile ..) | .sys (.openFork ..)
  | .sys (.closeFork _) | .sys (.setForkParms ..) | .sys (.write ..) | .sys (.exchangeFiles ..)
  | .sys (.moveAndRename ..) => false
  | _ => true

theorem serve_inert {r : MlReq} {a : r.Ans} (hr : inert r = true) (h : v.serve r c = some (a, v')) :
    v' = v := by
  match r with
  | .did d =>
    cases h
    rfl
  | .sys q =>
    obtain ⟨-, ⟨rfl, -⟩ | hc⟩ := serve_cases h
    · rfl
    · cases q <;> first | exact (some.inj hc).symm | cases hr

theorem inert_wp {σ α : Type} {p : Prog σ MlReq MlReq.Ans α} {P : α → Prop}
    (hp : p.Within (inert · = true) P) {s : σ} :
    Prog.Wp serve p s v fun a _ v' => P a ∧ v' = v := by
  refine hp.wp (fun w r c a w' hr hs hw => ?_) rfl
  rw [serve_inert hr hs, hw]

/-- What an exchange of a request that is not answered with success leaves, and of one that
is. -/
theorem serve_closeFork {n : Nat} (h : v.serve (.sys (.closeFork n)) c = some (rc, v')) :
    v' = v ∧ rc ≠ kFPNoErr ∨ v' = v.close n := by
  obtain ⟨-, h | h⟩ := serve_cases h
  · exact .inl h
  · exact .inr (some.inj h).symm

theorem serve_delete
    (h : v.serve (.sys (.delete did name)) c = some (rc, v')) :
    v' = v ∧ rc ≠ kFPNoErr ∨ v' = v.unlink did name := by
  obtain ⟨-, h | h⟩ := serve_cases h
  · exact .inl h
  · exact .inr (carryOut_delete.1 h).2

theorem serve_copyFile (h : v.serve (.sys (.copyFile srcDid src dstDid dst)) c = some (rc, v')) :
    v' = v ∧ rc ≠ kFPNoErr ∨ ∃ i, v.named srcDid src = some i ∧ v.named dstDid dst = none ∧
      c.node ∉ v.used ∧ v' = v.create dstDid dst c.node (v.bytes i) := by
  obtain ⟨-, h | h⟩ := serve_cases h
  · exact .inl h
  · exact .inr (carryOut_copyFile.1 h)

theorem serve_createFile
    (h : v.serve (.sys (.createFile did name)) c = some (rc, v')) :
    v' = v ∧ rc ≠ kFPNoErr ∨ v.named did name = none ∧ c.node ∉ v.used ∧
      v' = v.create did name c.node fun _ => [] := by
  obtain ⟨-, h | h⟩ := serve_cases h
  · exact .inl h
  · exact .inr (carryOut_createFile.1 h)

/-- A fork that is answered is open under the number of the answer, which says what is true of
its file. -/
theorem serve_openFork {resource : Bool} {reply : OpenReply}
    (h : v.serve (.sys (.openFork resource did bitmap accessmode name)) c = some ((rc, reply), v')) :
    rc ≠ kFPNoErr ∧ (v' = v ∨ ∃ (i : Nat) (hi : i ∈ v.used), v.named did name = some i ∧
        v.opened c.number = none ∧ v' = v.openFork c.number i resource hi) ∨
      rc = kFPNoErr ∧ ∃ (i : Nat) (hi : i ∈ v.used), v.named did name = some i ∧
        v.opened reply.forkid = none ∧ v' = v.openFork reply.forkid i resource hi ∧
        (∀ cnid, reply.cnid = some cnid → cnid = i) ∧
        ∀ size, reply.size = some size → size = (v.bytes i false).length := by
  obtain ⟨ht, h⟩ := serve_cases h
  by_cases hrc : rc = kFPNoErr
  · obtain ⟨-, hne⟩ | h := h
    · exact absurd hrc hne
    · simp only [hrc] at h
      obtain ⟨i, hi, hn, rfl⟩ := carryOut_openFork.1 h
      simp only [tells, hrc, hi, bne_self_eq_false, Bool.false_or, Bool.and_eq_true,
        all_eq_true, beq_iff_eq] at ht
      exact .inr ⟨hrc, i, v.named_used hi, hi, hn, rfl, ht.1, ht.2⟩
  · refine .inl ⟨hrc, ?_⟩
    obtain ⟨rfl, -⟩ | h := h
    · exact .inl rfl
    · simp only [forkNumber, hrc] at h
      obtain ⟨i, hi, hn, rfl⟩ := carryOut_openFork.1 h
      exact .inr ⟨i, v.named_used hi, hi, hn, rfl⟩

end NC.ForkServer
