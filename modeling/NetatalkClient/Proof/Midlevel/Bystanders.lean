import NetatalkClient.Proof.Midlevel.Handles
import NetatalkClient.Proof.Midlevel.Transfers

/-!
# Records that a call is not about

A call on a path, or on another handle, leaves the record of a handle on the fork it was on, and does
not list it (`Untouched`), whatever answers it. A handle that has lost its fork (`Forkless`) stays so
through every call (`FileCall.run_forkless`), and a call on it sends no request with a fork's number,
apart from those by which a copy into it reads the copy's source (`FileCall.forkless_sends`).
-/

namespace NC

open List Prog

/-- The record at `q` is on the fork it was on, and is not listed if it was not. -/
structure Untouched (q : Nat) (s s' : MlState) : Prop where
  nextFile : s.nextFile ≤ s'.nextFile
  identity : (s'.file q).identity = (s.file q).identity
  unlisted : q ∉ s.openForks → q ∉ s'.openForks

section Untouched

variable {q n fp : Nat} {s u : MlState}

theorem Still.untouched (h : Still n s u) (hq : q < n) : Untouched q s u :=
  ⟨h.nextFile, h.records q hq, fun hl => h.listed ▸ hl⟩

theorem Handle.untouched (h : Handle False n fp s u) (hq : q < n) (hfp : n ≤ fp) : Untouched q s u := by
  refine ⟨h.nextFile, h.records q hq, fun hl => ?_⟩
  obtain ⟨he, -⟩ | ⟨he, -⟩ := h.fork
  · rw [he, mem_cons, not_or]
    exact ⟨by omega, hl⟩
  · rwa [he]

theorem Relists.untouched {l : List Nat} (h : Relists n l s u) (hq : q < n) (hl : l ⊆ s.openForks) :
    Untouched q s u :=
  ⟨h.nextFile, h.records q hq, fun hn hm => hn (hl (h.listed ▸ hm))⟩

theorem Touches.untouched (h : Touches False n fp s u) (hq : q < n) (hfp : q ≠ fp) : Untouched q s u := by
  refine ⟨h.nextFile, h.others q hq hfp, fun hl => ?_⟩
  obtain ⟨he, -⟩ | ⟨he, -⟩ := h.listed
  · rwa [he]
  · rw [he]
    exact fun hm => hl (mem_of_mem_erase hm)

end Untouched

/-! ## Handles without a fork -/

/-- A data fork's handle that has lost its fork. -/
structure Forkless (s : MlState) (q : Nat) : Prop where
  below : q < s.nextFile
  forkid : (s.file q).forkid = 0
  kind : (s.file q).resource = .none
  unlisted : q ∉ s.openForks

/-- The number of a fork that a request carries. -/
def MlReq.forkCarried : MlReq → Option Nat
  | .sys (.closeFork n) | .sys (.flushFork n) | .sys (.syncFork n) | .sys (.setForkParms n ..)
  | .sys (.byteRangeLock _ n ..) | .sys (.read n ..) | .sys (.write n ..) => some n
  | _ => none

/-- The log goes on with requests that satisfy `P`. -/
def SendsOnly (P : MlReq → Prop) (log log' : MlLog) : Prop :=
  ∃ more, log' = log ++ more ∧ ∀ x ∈ more, P x.1

variable {P : MlReq → Prop} {log' : MlLog}

theorem SendsOnly.refl (log : MlLog) : SendsOnly P log log :=
  ⟨[], by simp, nofun⟩

theorem SendsOnly.trans {log log'' : MlLog} (h : SendsOnly P log log')
    (h' : SendsOnly P log' log'') : SendsOnly P log log'' := by
  obtain ⟨more, rfl, hmore⟩ := h
  obtain ⟨more', rfl, hmore'⟩ := h'
  refine ⟨more ++ more', by rw [append_assoc], fun x hx => ?_⟩
  exact (mem_append.1 hx).elim (hmore x) (hmore' x)

theorem SendsOnly.mono {P' : MlReq → Prop} {log : MlLog} (h : SendsOnly P log log')
    (hP : ∀ r, P r → P' r) : SendsOnly P' log log' :=
  h.imp fun _ h => ⟨h.1, fun x hx => hP x.1 (h.2 x hx)⟩

section Forkless

variable {V C : Type} {serve : V → (r : MlReq) → C → Option (r.Ans × V)} {q : Nat} {s u : MlState}
  {v : V} {vol : ServedVolume}

section

variable (h : Forkless s q)

include h

theorem Forkless.untouched (hu : Untouched q s u) : Forkless u q where
  below := Nat.lt_of_lt_of_le h.below hu.nextFile
  forkid := (forkid_of_identity hu.identity).1.trans h.forkid
  kind := (forkid_of_identity hu.identity).2.trans h.kind
  unlisted := hu.unlisted h.unlisted

theorem Forkless.leaves {α : Type} {p : MlCall α} (hp : Leaves serve (q + 1) p) :
    Wp serve p s v fun _ u _ => Forkless u q :=
  (hp.wp h.below v).mono fun _ _ _ hu => h.untouched (hu.untouched (Nat.lt_succ_self q))

theorem Forkless.mlRead {size : Nat} {offset : Int} :
    Wp serve (mlRead vol size offset q) s v fun r u v' => u = s ∧ v' = v ∧ r = .error (-EIO_) := by
  rw [NC.mlRead, wp_getFile, if_pos h.kind]
  show Wp serve (llRead vol size offset q) s v _
  rw [llRead, wp_getFile, if_pos h.forkid]
  exact wp_ret.2 ⟨rfl, rfl, rfl⟩

theorem Forkless.mlWrite {data : Bytes} {offset : Int} :
    Wp serve (mlWrite vol data offset q) s v fun r u v' => u = s ∧ v' = v ∧ r < 0 := by
  refine .guard ⟨rfl, rfl, by decide⟩ fun _ => ?_
  rw [appledoubleWrite, wp_bind, wp_getFile, h.kind]
  refine wp_ret.2 (.ite (fun h => absurd h (by decide)) fun _ => ?_)
  refine .ite (fun h => absurd h (by decide)) fun _ => ?_
  rw [llWrite, wp_bind, wp_getFile, if_pos h.forkid]
  exact wp_ret.2 (.guard ⟨rfl, rfl, by decide⟩ fun h => absurd (by decide) h)

theorem Forkless.mlFsync : Wp serve (mlFsync vol q) s v fun _ u v' => u = s ∧ v' = v := by
  rw [NC.mlFsync, wp_getFile, if_neg (by simp [h.kind]), if_pos h.forkid]
  exact wp_ret.2 ⟨rfl, rfl⟩

theorem Forkless.mlCloseFlush : Wp serve (mlCloseFlush vol q) s v fun _ u v' => u = s ∧ v' = v := by
  rw [NC.mlCloseFlush, wp_getFile]
  exact .guard ⟨rfl, rfl⟩ fun _ => h.mlFsync

theorem Forkless.mlFtruncate {offset : Int} :
    Wp serve (mlFtruncate vol q offset) s v fun _ u v' => u = s ∧ v' = v := by
  refine .guard ⟨rfl, rfl⟩ fun _ => ?_
  rw [appledoubleFtruncate, wp_bind, wp_getFile, h.kind]
  refine wp_ret.2 (.ite (fun h => absurd h (by decide)) fun _ => ?_)
  refine .ite (fun h => absurd rfl h) fun _ => ?_
  rw [wp_getFile, if_pos h.forkid]
  exact wp_ret.2 ⟨rfl, rfl⟩

theorem Forkless.mlClose : Wp serve (mlClose vol q) s v fun _ u v' => u = s ∧ v' = v := by
  rw [NC.mlClose, wp_getFile, if_neg (by simp [h.kind]), if_pos h.forkid]
  exact wp_ret.2 ⟨rfl, rfl⟩

end

variable {fpIn fpOut len fuel : Nat} {offIn offOut : Int}

/-- Neither a copy from it nor a copy into it is made on the server. -/
theorem copyRangeOnServer_unqualified (h : (s.file fpIn).forkid = 0 ∨ (s.file fpOut).forkid = 0) :
    Wp serve (copyRangeOnServer vol fpIn offIn fpOut offOut len) s v fun r u v' =>
      r = 0 ∧ u = s ∧ v' = v := by
  rw [copyRangeOnServer, wp_getFile, wp_getFile, if_pos]
  · exact wp_ret.2 ⟨rfl, rfl, rfl⟩
  · obtain h | h := h <;> simp [copyQualifies, h]

/-! ## What calls on them send -/

variable {ok : (r : MlReq) → r.Ans → Bool} {log : MlLog} {hs : List Nat}

theorem Forkless.copyLoop_from (h : Forkless s q) :
    Wp serve (copyLoop vol q offIn fpOut offOut len fuel 0) s v fun r u v' =>
      r ≤ 0 ∧ u = s ∧ v' = v := by
  match fuel with
  | 0 => exact wp_ret.2 ⟨Int.le_refl 0, rfl, rfl⟩
  | fuel + 1 =>
    refine .guard ⟨Int.le_refl 0, rfl, rfl⟩ fun _ => h.mlRead.bind ?_
    rintro _ s v ⟨rfl, rfl, rfl⟩
    exact wp_ret.2 ⟨by decide, rfl, rfl⟩

/-- A copy from it sends no request with a fork's number. -/
theorem Forkless.copy_from (h : Forkless s q) :
    Wp (record ok) (mlCopyRange vol q offIn fpOut offOut len) s log fun _ u log' =>
      u = s ∧ SendsOnly (·.forkCarried = none) log log' := by
  have hstay : s = s ∧ SendsOnly (·.forkCarried = none) log log := ⟨rfl, .refl log⟩
  refine .guard hstay fun _ => .guard hstay fun _ => ?_
  refine .guard hstay fun _ => ?_
  refine (copyRangeOnServer_unqualified (.inl h.forkid)).bind ?_
  rintro _ s log ⟨rfl, rfl, rfl⟩
  have hthrough : Wp (record ok) (copyRangeThroughClient vol q offIn fpOut offOut len) s log
      fun r u log' => r ≤ 0 ∧ u = s ∧ SendsOnly (·.forkCarried = none) log log' := by
    refine wp_record_send.2 fun a _ => ?_
    have halloc : SendsOnly (·.forkCarried = none) log (log ++ [⟨.sys .alloc, a⟩]) :=
      ⟨_, rfl, by simp [MlReq.forkCarried]⟩
    refine .guard ⟨by decide, rfl, halloc⟩ fun _ => h.copyLoop_from.mono ?_
    rintro r u log' ⟨hr, rfl, rfl⟩
    exact ⟨hr, rfl, halloc⟩
  refine hthrough.bind ?_
  rintro r s log' ⟨hr, rfl, hlog⟩
  rw [wp_getFile, if_neg (by omega)]
  exact wp_ret.2 ⟨rfl, hlog⟩

theorem Forkless.copyLoop_into (h : Forkless s q) {copied : Nat} :
    Wp (record ok) (copyLoop vol fpIn offIn q offOut len fuel copied) s log fun _ u log' =>
      Forkless u q ∧ SendsOnly (·.forReading = true) log log' := by
  match fuel with
  | 0 => exact wp_ret.2 ⟨h, .refl log⟩
  | fuel + 1 =>
    refine .guard ⟨h, .refl log⟩ fun _ => ?_
    refine ((h.leaves mlRead_leaves).and
      ((mlRead_tends (forReading_tends ..)).record trivial log)).bind ?_
    rintro (e | ⟨data, eof⟩) s log' ⟨h, -, -, hlog⟩
    · exact wp_ret.2 ⟨h, hlog⟩
    refine .guard ⟨h, hlog⟩ fun _ => h.mlWrite.bind ?_
    rintro ret s log' ⟨rfl, rfl, hret⟩
    exact .guard ⟨h, hlog⟩ fun hn => absurd (Int.le_of_lt hret) hn

/-- A copy into it sends the requests of reading alone. -/
theorem Forkless.copy_into (h : Forkless s q) :
    Wp (record ok) (mlCopyRange vol fpIn offIn q offOut len) s log fun _ u log' =>
      Forkless u q ∧ SendsOnly (·.forReading = true) log log' := by
  have hstay := And.intro h (SendsOnly.refl (P := (·.forReading = true)) log)
  refine .guard hstay fun _ => .guard hstay fun _ => ?_
  refine .guard hstay fun _ => ?_
  refine (copyRangeOnServer_unqualified (.inr h.forkid)).bind ?_
  rintro _ s log ⟨rfl, rfl, rfl⟩
  have hthrough : Wp (record ok) (copyRangeThroughClient vol fpIn offIn q offOut len) s log
      fun _ u log' => Forkless u q ∧ SendsOnly (·.forReading = true) log log' := by
    refine wp_record_send.2 fun a _ => ?_
    have halloc : SendsOnly (·.forReading = true) log (log ++ [⟨.sys .alloc, a⟩]) :=
      ⟨_, rfl, by simp [MlReq.forReading]⟩
    refine .guard ⟨h, halloc⟩ fun _ => h.copyLoop_into.mono ?_
    exact fun _ _ _ hu => ⟨hu.1, halloc.trans hu.2⟩
  refine hthrough.bind fun copied u log' hu => ?_
  refine .ite (fun _ => hu.1.mlFsync.bind ?_) fun _ => wp_ret.2 hu
  rintro _ s log ⟨rfl, rfl⟩
  exact wp_ret.2 hu

/-- A copy from another handle into `q`. -/
def FileCall.copiesInto (q : Nat) : FileCall → Prop
  | copyRange fpIn _ fpOut _ _ => fpOut = q ∧ fpIn ≠ q
  | _ => False

/-- A call on the handle sends no request with a fork's number, but for the reads of the source
of a copy into it. -/
theorem FileCall.forkless_sends (h : Forkless s q) (c : FileCall) (hc : q ∈ c.handles) :
    Wp (record ok) (c.run vol hs) s log fun _ u log' => Forkless u q ∧
      SendsOnly (fun r => r.forkCarried = none ∨ c.copiesInto q ∧ r.forReading = true) log log' := by
  have hquiet : ∀ {α : Type} {p : MlCall α} {hs : List Nat},
      Wp (record ok) p s log (fun _ u log' => u = s ∧ log' = log) →
      Wp (record ok) (p >>= fun _ => ret hs) s log fun _ u log' => Forkless u q ∧
        SendsOnly (fun r => r.forkCarried = none ∨ c.copiesInto q ∧ r.forReading = true) log log' := by
    intro α p hs hp
    refine hp.bind ?_
    rintro _ s log ⟨rfl, rfl⟩
    exact wp_ret.2 ⟨h, .refl log⟩
  cases c with
  | read fp size offset =>
    cases mem_singleton.1 hc
    exact hquiet (h.mlRead.mono fun _ _ _ hu => ⟨hu.1, hu.2.1⟩)
  | write fp data offset =>
    cases mem_singleton.1 hc
    exact hquiet (h.mlWrite.mono fun _ _ _ hu => ⟨hu.1, hu.2.1⟩)
  | fsync fp =>
    cases mem_singleton.1 hc
    exact hquiet h.mlFsync
  | closeFlush fp =>
    cases mem_singleton.1 hc
    exact hquiet h.mlCloseFlush
  | ftruncate fp offset =>
    cases mem_singleton.1 hc
    exact hquiet h.mlFtruncate
  | close fp =>
    cases mem_singleton.1 hc
    exact hquiet h.mlClose
  | noteCreated fp created =>
    have hl : Leaves (record ok) (q + 1) (Ml.modifyFile fp fun f => { f with created := created }) :=
      .modifyFile fun _ => rfl
    have hlog : Wp (record ok) (Ml.modifyFile fp fun f => { f with created := created }) s log
        fun _ _ log' => log' = log := wp_modify.2 rfl
    refine ((h.leaves hl).and hlog).bind ?_
    rintro _ u _ ⟨hu, rfl⟩
    exact wp_ret.2 ⟨hu, .refl _⟩
  | copyRange fpIn offIn fpOut offOut len =>
    by_cases hin : fpIn = q
    · subst hin
      refine h.copy_from.bind ?_
      rintro _ s log' ⟨rfl, hlog⟩
      exact wp_ret.2 ⟨h, hlog.mono fun _ => .inl⟩
    · have hout : q = fpOut := by simpa [FileCall.handles, Ne.symm hin] using hc
      subst hout
      exact h.copy_into.bind fun _ _ _ hu =>
        wp_ret.2 ⟨hu.1, hu.2.mono fun _ hr => .inr ⟨⟨rfl, hin⟩, hr⟩⟩
  | «open» | creat | readlink | symlink | getresourcefork | setresourcefork | setresourceforkFlags
  | truncateresourcefork | removeresourcefork | getfinderinfo | setfinderinfo | setfinderinfoFlags
  | removefinderinfo =>
    cases hc

theorem FileCall.run_forkless (h : Forkless s q) (c : FileCall) :
    Wp (record ok) (c.run vol hs) s log fun _ u _ => Forkless u q := by
  by_cases hc : q ∈ c.handles
  · exact (c.forkless_sends h hc).mono fun _ _ _ hu => hu.1
  refine (c.run_does (numbering_false _) fun h => h.elim).mono fun _ _ _ hd => h.untouched ?_
  cases hd with
  | still hu => exact hu.untouched h.below
  | opened hfp hu => exact hu.untouched h.below hfp
  | closed hu =>
    obtain hu | ⟨hu, -⟩ := hu
    · exact hu.untouched h.below (erase_subset ..)
    · exact hu.untouched h.below (List.Subset.refl _)
  | touched hfp hu => exact hu.untouched h.below fun he => hc (he ▸ hfp)

end Forkless

/-- A state that calls of the volume lead to, each answered in any way. -/
inductive Onward (vol : ServedVolume) : MlState → MlState → Prop
  | refl (s : MlState) : Onward vol s s
  | call {s t u : MlState} (h : Onward vol s t) (c : FileCall) {hs hs' : List Nat}
      {answers : List ((r : MlReq) → r.Ans)} {log : MlLog}
      (hrun : run (record MlReq.anyAnswer) (c.run vol hs) t [] answers = some (hs', u, log, [])) :
      Onward vol s u

theorem Onward.forkless {vol : ServedVolume} {s u : MlState} {q : Nat} (h : Onward vol s u)
    (hs : Forkless s q) : Forkless u q := by
  induction h with
  | refl => exact hs
  | call h c hrun ih => exact c.run_forkless ih _ _ _ _ _ hrun

end NC
