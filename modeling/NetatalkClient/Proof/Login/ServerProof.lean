import NetatalkClient.Proof.Login.Srp

/-!
# When a login has had the server's proof

Whoever answers a login may give any result codes and payloads; `Transcript`
keeps them, with the random numbers the client drew and the result of the
session token. `Proved` says that the exchange was carried to its end and that
the reply that has to carry the server's proof had all of it, equal to what the
client computes.

`afp_server_login` returns 0 without that proof when a reply before it has a
code that `loginAccepts`, when SRP's proof is missing or wrong, and when a
proof that was cut short is completed by the zeros of the receive buffer.
`Straight` has no such reply; `afpServerLogin_proved_iff` says that it is
exactly the condition, a failing session token apart.
-/

namespace NC

/-- What was answered during a login, the oldest first. -/
structure Transcript where
  replies : List (Int × Bytes)
  draws : List Bytes
  token : Option Int
  deriving DecidableEq, Repr

namespace Transcript

open Prog Login

def empty : Transcript := ⟨[], [], none⟩

def reply (t : Transcript) (rc : Int) (payload : Bytes) : Transcript :=
  { t with replies := t.replies ++ [(rc, payload)] }

def draw (t : Transcript) (b : Bytes) : Transcript := { t with draws := t.draws ++ [b] }

/-- One answer, as its giver chooses it. -/
inductive Answer where
  | memory (ok : Bool)
  | bytes (b : Bytes)
  | reply (rc : Int) (payload : Bytes)
  | token (rc : Int)
  deriving DecidableEq, Repr

def serve (t : Transcript) : (r : LoginReq) → Answer → Option (r.Ans × Transcript)
  | .alloc, .memory ok => some (ok, t)
  | .random n, .bytes b => if h : b.length = n then some (⟨b, h⟩, t.draw b) else none
  | .login .., .reply rc payload => some ((rc, payload), t.reply rc payload)
  | .loginext .., .reply rc payload => some ((rc, payload), t.reply rc payload)
  | .logincont .., .reply rc payload => some ((rc, payload), t.reply rc payload)
  | .getsessiontoken _, .token rc => some (rc, { t with token := some rc })
  | _, _ => none

/-! ## Rules for the requests of a login -/

variable {n : Nat}

section Rules

variable {α : Type} {s : LoginState} {t : Transcript} {Q : α → LoginState → Transcript → Prop}

theorem wp_alloc {e : α} {p : Login α} (he : Q e s t) (hp : Wp serve p s t Q) :
    Wp serve (Login.alloc >>= fun ok => if !ok then pure e else p) s t Q := by
  rw [Login.alloc, request_bind, wp_send]
  intro c ok t' h
  cases c <;> cases h
  cases ok
  · exact wp_ret.2 he
  · exact hp

theorem wp_random {k : {b : Bytes // b.length = n} → Login α}
    (h : ∀ b, Wp serve (k b) s (t.draw b.1) Q) : Wp serve (random n >>= k) s t Q := by
  refine wp_send.2 fun c b t' e => ?_
  cases c with
  | bytes b' =>
    simp only [serve] at e
    split at e
    · cases e; exact h _
    · cases e
  | _ => cases e

variable {k : Int × Bytes → Login α} {uam : Uam} {ai : Bytes}

theorem wp_afpLogin (h : ∀ rc p, Wp serve (k (rc, p)) s (t.reply rc p) Q) :
    Wp serve (afpLogin uam ai >>= k) s t Q := by
  refine wp_send.2 fun c a t' e => ?_
  cases c <;> cases e
  exact h _ _

theorem wp_afpLoginext {user : Bytes} (h : ∀ rc p, Wp serve (k (rc, p)) s (t.reply rc p) Q) :
    Wp serve (afpLoginext uam user ai >>= k) s t Q := by
  refine wp_send.2 fun c a t' e => ?_
  cases c <;> cases e
  exact h _ _

theorem wp_afpLogincont {id : Nat} (h : ∀ rc p, Wp serve (k (rc, p)) s (t.reply rc p) Q) :
    Wp serve (afpLogincont id ai >>= k) s t Q := by
  refine wp_send.2 fun c a t' e => ?_
  cases c <;> cases e
  exact h _ _

end Rules

/-! ## The proofs -/

variable (G : Gcrypt) (server : LoginServer)

/-- The `M2` that the client expects after this first reply and these draws, of
which it takes the last. -/
def expectedM2 (payload : Bytes) (draws : List Bytes) : Option Bytes := do
  let q ← parseSrpParams (payload.take srpReplyMax)
  let r ← draws.getLast?
  some (srpValues G server.username server.password q (beNat r % beNat q.N)).M2

def hasM2 (first proof : Bytes) (draws : List Bytes) : Bool :=
  24 ≤ proof.length && expectedM2 G server first draws == some ((proof.drop 4).take SRP_SHA1_LEN)

/-- The decrypted payload of DHX2's second reply, as much of it as the buffer has. -/
def decryptedNonce (first proof Ra : Bytes) : Option Bytes :=
  let q := parseDhx2Params (rxData (2 + 4 + 2 + 256 * 2) first)
  (G.cast5Decrypt (dhx2Key G q Ra) dhxS2civ ((rxData 34 proof).drop 2)).map (·.take 16)

def hasNonce (first proof : Bytes) : List Bytes → Bool
  | [Ra, nonce] => 18 ≤ proof.length && decryptedNonce G first proof Ra == some (nonceProof nonce)
  | _ => false

def hasRandnum (proof : Bytes) : List Bytes → Bool
  | [randnum] => 8 ≤ proof.length && randnumProof G server.password randnum == some (proof.take 8)
  | _ => false

/-- The exchange was carried to its end, and the reply that has to carry the
server's proof had all of it, equal to what the client computes. -/
def Proved (t : Transcript) : Prop :=
  match server.usingUam, t.replies with
  | .srp, [(_, first), (_, proof)] => hasM2 G server first proof t.draws
  | .dhx2, [(_, first), (_, proof), _] => hasNonce G first proof t.draws
  | .randnum2, [_, (_, proof)] => hasRandnum G server proof t.draws
  | _, _ => False

/-- No reply is accepted in place of the proof: none before it ends the exchange
with an accepted code, SRP's last reply carries `M2` when its code is accepted,
DHX2's proof is not cut short when the code after it is accepted, and no more is
Randnum's when the zeros in place of what is missing make it right. -/
def Straight (t : Transcript) : Prop :=
  match server.usingUam, t.replies with
  | _, [(rc, _)] => loginAccepts rc = false
  | .srp, [(_, first), (rc, proof)] => loginAccepts rc → hasM2 G server first proof t.draws
  | .dhx2, [_, (rc, _)] => loginAccepts rc = false
  | .dhx2, [_, (_, proof), (rc, _)] => loginAccepts rc → 18 ≤ proof.length
  | .randnum2, [_, (rc, proof)] =>
    if rc = kFPNoErr then
      t.draws.head?.bind (randnumProof G server.password) = some (rxData 8 proof) →
        8 ≤ proof.length
    else loginAccepts rc → hasRandnum G server proof t.draws
  | _, _ => True

/-- The session token was asked for and not given. -/
def TokenFailed (t : Transcript) : Prop := ∃ rc, t.token = some rc ∧ rc ≠ 0

/-- A method's result with which `afp_server_login` goes on. -/
def Accepted (r : Option Int) : Prop := ∃ rc, r = some rc ∧ loginAccepts rc

/-- What a login method leaves: no session token yet, and if its result is
accepted, the proof exactly when the exchange was straight. -/
structure Outcome (r : Option Int) (t : Transcript) : Prop where
  token : t.token = none
  accepted : Accepted r → (Proved G server t ↔ Straight G server t)
  refused : ¬Accepted r → Straight G server t

variable {G server}

theorem not_accepted_none : ¬Accepted none := nofun

theorem accepted_some {rc : Int} : Accepted (some rc) ↔ loginAccepts rc := by
  simp [Accepted]

theorem loginAccepts_srpCode (rc : Int) : loginAccepts (srpCode rc) = loginAccepts rc := by
  unfold srpCode
  split
  · next h => subst h; rfl
  · rfl

theorem not_accepted_fail : ¬Accepted (some (-1)) := by
  rw [accepted_some]
  decide

section Methods

variable {s : LoginState} {t : Transcript} {r : Option Int} {rc rc₁ : Int}
  {first proof Ra nonce : Bytes} (ht : t.token = none)

include ht

/-- A login whose accepted result needs `P` and nothing else to be straight. -/
theorem Outcome.of_iff {P : Prop} (hp : Proved G server t ↔ P)
    (hs : Straight G server t ↔ (Accepted r → P)) : Outcome G server r t := by
  refine ⟨ht, fun h => ?_, fun h => hs.2 fun h' => absurd h' h⟩
  rw [hp, hs]
  exact ⟨fun h' _ => h', fun h' => h' h⟩

theorem Outcome.before (hr : t.replies = []) (ha : ¬Accepted r) : Outcome G server r t := by
  refine ⟨ht, fun h => absurd h ha, fun _ => ?_⟩
  unfold Straight
  rw [hr]
  cases server.usingUam <;> trivial

/-- A login that ends with its first reply: accepted only by that reply's code. -/
theorem Outcome.atFirst (hr : t.replies = [(rc, first)]) (ha : Accepted r ↔ loginAccepts rc) :
    Outcome G server r t := by
  refine .of_iff (P := False) ht ?_ ?_
  · unfold Proved
    rw [hr]
    cases server.usingUam <;> exact Iff.rfl
  · rw [ha, imp_false, Bool.not_eq_true]
    unfold Straight
    rw [hr]

/-- A login that goes no further than its first reply, which asks for more. -/
theorem Outcome.stopped (hr : t.replies = [(kFPAuthContinue, first)]) (ha : ¬Accepted r) :
    Outcome G server r t :=
  .atFirst ht hr (iff_of_false ha (by decide))

/-! ## SRP -/

variable {q : SrpParams} {draws : Nat} {randnum : Bytes}

omit ht in
theorem srpEphemeral_wp :
    Wp serve (srpEphemeral q n) s t fun r s' t' =>
      t'.replies = t.replies ∧ t'.token = t.token ∧
        (∀ a, r = some a → ∃ b, t'.draws.getLast? = some b ∧ a = beNat b % beNat q.N) ∧ s' = s := by
  induction n generalizing t with
  | zero => simp [srpEphemeral]
  | succ n ih =>
    refine wp_random fun b => ?_
    dsimp only
    split
    · exact ih
    · rw [pure_eq, wp_ret]
      exact ⟨rfl, rfl, fun a e => ⟨b.1, by simp [draw], by cases e; rfl⟩, rfl⟩

omit ht in
theorem verifyM2_wp {payload M2 : Bytes} {Q : Unit → LoginState → Transcript → Prop}
    (hQ : ∀ s, Q () s t) : Wp serve (verifyM2 payload M2) s t Q := by
  unfold verifyM2
  split
  · exact wp_modify.2 (hQ _)
  · exact wp_ret.2 (hQ _)

section

variable (hu : server.usingUam = .srp)

include hu

/-- SRP's last reply decides, with its code and with its payload. -/
theorem Outcome.srpLast (hr : t.replies = [(rc₁, first), (rc, proof)])
    (ha : Accepted r ↔ loginAccepts rc) : Outcome G server r t := by
  refine .of_iff (P := hasM2 G server first proof t.draws) ht ?_ ?_
  · unfold Proved
    rw [hu, hr]
  · rw [ha]
    unfold Straight
    rw [hu, hr]

theorem srpProve_outcome {a : Nat} (hr : t.replies = [(kFPAuthContinue, first)]) :
    Wp serve (srpProve G server.username server.password q a) s t fun r _ => Outcome G server r := by
  have fails : Outcome G server (some (-1)) t := .stopped ht hr not_accepted_fail
  refine Wp.guard fails fun _ => ?_
  refine wp_alloc fails (wp_alloc fails (wp_alloc fails ?_))
  refine wp_afpLogincont fun rc proof => ?_
  have hr₂ : (t.reply rc proof).replies = [(kFPAuthContinue, first), (rc, proof)] := by
    simp [reply, hr]
  have ends : ∀ rc', loginAccepts rc' = loginAccepts rc →
      Outcome G server (some rc') (t.reply rc proof) := fun rc' e =>
    .srpLast ht hu hr₂ (by rw [accepted_some, e])
  refine Wp.guard (ends _ (loginAccepts_srpCode rc)) fun h => ?_
  cases not_not.1 h
  exact wp_bind.2 (verifyM2_wp fun _ => wp_ret.2 (ends 0 rfl))

omit ht in
theorem srpLogin_outcome :
    Wp serve (srpLogin G draws server.username server.password) s empty
      fun r _ => Outcome G server r := by
  refine wp_alloc (.before rfl rfl not_accepted_fail) ?_
  refine wp_afpLoginext fun rc first => ?_
  refine Wp.guard (.atFirst rfl rfl (by rw [accepted_some, loginAccepts_srpCode])) fun h => ?_
  cases not_not.1 h
  cases parseSrpParams (first.take srpReplyMax) with
  | none => exact wp_ret.2 (.stopped rfl rfl not_accepted_fail)
  | some q =>
    refine Wp.guard (.stopped rfl rfl not_accepted_none) fun _ => ?_
    refine Wp.guard (.stopped rfl rfl not_accepted_fail) fun _ => ?_
    refine wp_alloc (.stopped rfl rfl not_accepted_fail) ?_
    refine srpEphemeral_wp.bind fun r s t ⟨hr, ht, _⟩ => ?_
    cases r with
    | none => exact wp_ret.2 (.stopped ht hr not_accepted_none)
    | some a => exact srpProve_outcome ht hu hr

end

/-! ## DHX2 -/

section

variable (hu : server.usingUam = .dhx2)

include hu

/-- DHX2's second reply ends the exchange unless it carries the proof. -/
theorem Outcome.dhx2Second (hr : t.replies = [(rc₁, first), (rc, proof)])
    (ha : Accepted r ↔ loginAccepts rc) : Outcome G server r t := by
  refine .of_iff (P := False) ht ?_ ?_
  · unfold Proved
    rw [hu, hr]
  · rw [ha, imp_false, Bool.not_eq_true]
    unfold Straight
    rw [hu, hr]

/-- DHX2's third reply decides, once the nonce in the buffer was right. -/
theorem Outcome.dhx2Third {rc₂ : Int} {third : Bytes}
    (hr : t.replies = [(rc₁, first), (rc₂, proof), (rc, third)]) (hd : t.draws = [Ra, nonce])
    (hn : decryptedNonce G first proof Ra = some (nonceProof nonce)) :
    Outcome G server (some rc) t := by
  refine .of_iff (P := 18 ≤ proof.length) ht ?_ ?_
  · unfold Proved
    rw [hu, hr, hd]
    simp [hasNonce, hn]
  · rw [accepted_some]
    unfold Straight
    rw [hu, hr]

theorem dhx2Finish_outcome (hr : t.replies = [(kFPAuthContinue, first), (kFPAuthContinue, proof)])
    (hd : t.draws = [Ra, nonce]) :
    Wp serve (dhx2Finish G server.password
      (dhx2Key G (parseDhx2Params (rxData (2 + 4 + 2 + 256 * 2) first)) Ra) nonce proof) s t
      fun r _ => Outcome G server r := by
  have fails : Outcome G server (some (-1)) t :=
    .dhx2Second ht hu hr (iff_of_false not_accepted_fail (by decide))
  unfold dhx2Finish
  dsimp only
  split
  · exact wp_ret.2 fails
  next text hx =>
    refine Wp.guard fails fun hm => ?_
    have hn : decryptedNonce G first proof Ra = some (nonceProof nonce) := by
      rw [decryptedNonce, hx, Option.map_some, not_not.1 hm]
    refine wp_alloc fails ?_
    split
    · exact wp_ret.2 fails
    refine wp_afpLogincont fun rc third => ?_
    exact wp_ret.2 (.dhx2Third ht hu (by simp only [reply, hr]; rfl) hd hn)

theorem dhx2Prove_outcome (hr : t.replies = [(kFPAuthContinue, first)]) (hd : t.draws = [Ra]) :
    Wp serve (dhx2Prove G server.password
      (parseDhx2Params (rxData (2 + 4 + 2 + 256 * 2) first)) Ra) s t
      fun r _ => Outcome G server r := by
  have fails : Outcome G server (some (-1)) t := .stopped ht hr not_accepted_fail
  refine wp_alloc fails (wp_alloc fails ?_)
  refine wp_random fun nonce => ?_
  refine Wp.guard (.stopped ht hr not_accepted_fail) fun _ => ?_
  refine wp_alloc (.stopped ht hr not_accepted_fail) ?_
  split
  · exact wp_ret.2 (.stopped ht hr not_accepted_fail)
  refine wp_alloc (.stopped ht hr not_accepted_fail) ?_
  refine wp_afpLogincont fun rc proof => ?_
  have hr₂ : ((t.draw nonce.1).reply rc proof).replies =
      [(kFPAuthContinue, first), (rc, proof)] := by simp [reply, draw, hr]
  refine Wp.guard (.dhx2Second ht hu hr₂ accepted_some) fun h => ?_
  cases not_not.1 h
  exact dhx2Finish_outcome ht hu hr₂ (by simp [reply, draw, hd])

omit ht in
theorem dhx2Login_outcome :
    Wp serve (dhx2Login G server.versionLen server.username server.password) s empty
      fun r _ => Outcome G server r := by
  have before : Outcome G server (some (-1)) empty := .before rfl rfl not_accepted_fail
  refine wp_alloc before (wp_alloc before ?_)
  refine wp_afpLogin fun rc first => ?_
  refine Wp.guard (.atFirst rfl rfl accepted_some) fun h => ?_
  cases not_not.1 h
  refine Wp.guard (.stopped rfl rfl not_accepted_fail) fun _ => ?_
  refine wp_alloc (.stopped rfl rfl not_accepted_fail) ?_
  refine wp_random fun Ra => ?_
  refine Wp.guard (.stopped rfl rfl not_accepted_none) fun _ => ?_
  exact dhx2Prove_outcome rfl hu rfl rfl

end

/-! ## 2-Way Randnum -/

omit ht in
theorem hasRandnum_iff : hasRandnum G server proof [randnum] ↔
    randnumProof G server.password randnum = some (rxData 8 proof) ∧ 8 ≤ proof.length := by
  simp only [hasRandnum, Bool.and_eq_true, decide_eq_true_eq, beq_iff_eq]
  rw [and_comm]
  refine and_congr_left fun h => ?_
  rw [rxData, Nat.sub_eq_zero_of_le h, List.replicate_zero, List.append_nil]

section

variable (hu : server.usingUam = .randnum2)

include hu

/-- The client compares Randnum's proof with what its buffer holds. -/
theorem Outcome.randnumCompared (hr : t.replies = [(rc₁, first), (0, proof)])
    (hd : t.draws = [randnum])
    (ha : Accepted r ↔ randnumProof G server.password randnum = some (rxData 8 proof)) :
    Outcome G server r t := by
  have hs : Straight G server t ↔ (Accepted r → 8 ≤ proof.length) := by
    rw [ha]
    unfold Straight
    rw [hu, hr, hd]
    rfl
  refine ⟨ht, fun h => ?_, fun h => hs.2 fun h' => absurd h' h⟩
  have hp : Proved G server t ↔ hasRandnum G server proof [randnum] := by
    unfold Proved
    rw [hu, hr, hd]
  rw [hp, hs, hasRandnum_iff, ← ha]
  exact ⟨fun h' _ => h'.2, fun h' => ⟨h, h' h⟩⟩

/-- Another code of Randnum's last reply is the result, whatever the payload. -/
theorem Outcome.randnumCode (hr : t.replies = [(rc₁, first), (rc, proof)]) (hrc : rc ≠ 0) :
    Outcome G server (some rc) t := by
  refine .of_iff (P := hasRandnum G server proof t.draws) ht ?_ ?_
  · unfold Proved
    rw [hu, hr]
  · rw [accepted_some]
    unfold Straight
    rw [hu, hr]
    simp [if_neg hrc]

omit ht in
theorem randnum2Prove_outcome :
    Wp serve (randnum2Prove G server.password first) s (empty.reply kFPAuthContinue first)
      fun r _ => Outcome G server r := by
  refine Wp.guard (.stopped rfl rfl not_accepted_fail) fun _ => ?_
  refine wp_alloc (.stopped rfl rfl not_accepted_fail) ?_
  split
  · exact wp_ret.2 (.stopped rfl rfl not_accepted_fail)
  refine wp_random fun randnum => ?_
  refine wp_alloc (.stopped rfl rfl not_accepted_fail) ?_
  refine wp_afpLogincont fun rc proof => ?_
  refine Wp.ite (fun h => wp_ret.2 (.randnumCode rfl hu rfl h)) fun h => ?_
  cases not_not.1 h
  split
  · next hx =>
    refine wp_ret.2 (.randnumCompared rfl hu rfl rfl (iff_of_false not_accepted_fail ?_))
    rw [hx]
    exact nofun
  next crypted hx =>
    refine Wp.ite (fun hm => ?_) fun hm => ?_
    · refine wp_ret.2 (.randnumCompared rfl hu rfl rfl (iff_of_false ?_ ?_))
      · rw [accepted_some]
        decide
      · rwa [hx, Option.some.injEq]
    · refine wp_ret.2 (.randnumCompared rfl hu rfl rfl (iff_of_true ?_ ?_))
      · rw [accepted_some]
        decide
      · rw [hx, not_not.1 hm]

omit ht in
theorem randnum2Login_outcome :
    Wp serve (randnum2Login G server.username server.password) s empty
      fun r _ => Outcome G server r := by
  have before : Outcome G server (some (-1)) empty := .before rfl rfl not_accepted_fail
  refine wp_alloc before (wp_alloc before ?_)
  refine wp_afpLogin fun rc first => ?_
  refine Wp.guard (.atFirst rfl rfl accepted_some) fun h => ?_
  cases not_not.1 h
  exact randnum2Prove_outcome hu

end

/-! ## The whole login -/

omit ht in
theorem afpDologin_outcome :
    Wp serve (afpDologin G draws server) s empty fun r _ => Outcome G server r := by
  unfold afpDologin
  split
  · next hu => exact srpLogin_outcome hu
  · next hu => exact dhx2Login_outcome hu
  · next hu => exact randnum2Login_outcome hu

/-- The token step returns 0 unless a token was asked for and not given, and
leaves the replies and the draws as they are. -/
theorem sessionToken_wp :
    Wp serve (sessionToken server) s t fun r _ t' =>
      t'.replies = t.replies ∧ t'.draws = t.draws ∧ (r = 0 ↔ ¬TokenFailed t') := by
  unfold sessionToken
  split
  · simp [TokenFailed, ht]
  · rw [modifyGet_bind, wp_atom, afpGetsessiontoken, request_bind, wp_send]
    intro c rc t' e
    cases c <;> cases e
    have hf : TokenFailed { t with token := some rc } ↔ rc ≠ 0 := by simp [TokenFailed]
    by_cases h : rc = 0
    · subst h
      have done : ∀ s', Wp serve (ret 0 : Login Int) s' { t with token := some 0 }
          fun r _ t' => t'.replies = t.replies ∧ t'.draws = t.draws ∧ (r = 0 ↔ ¬TokenFailed t') :=
        fun s' => wp_ret.2 ⟨rfl, rfl, iff_of_true rfl (by rw [hf]; exact fun h => h rfl)⟩
      cases s.needResume
      · exact done _
      · exact wp_atom.2 (done _)
    · simp only [h, ne_eq]
      exact wp_ret.2 ⟨rfl, rfl, iff_of_false (by decide) (by rw [hf]; exact not_not.2 h)⟩

end Methods

/-- **What a login proves.** Whatever is answered, `afp_server_login` returns 0
only with the server's proof exactly if the exchange was straight or the
session token failed. -/
theorem afpServerLogin_proved_iff {draws : Nat} {s s' : LoginState} {cs cs' : List Answer}
    {r : Option Int} {t : Transcript}
    (h : run serve (afpServerLogin G draws server) s empty cs = some (r, s', t, cs')) :
    (r = some 0 → Proved G server t) ↔ Straight G server t ∨ TokenFailed t := by
  revert h
  refine Wp.mono (Q := fun r _ t => (r = some 0 → Proved G server t) ↔
    Straight G server t ∨ TokenFailed t) ?_ (fun _ _ _ => id) cs r s' t cs'
  refine afpDologin_outcome.bind fun r s t o => ?_
  have refused : ∀ r' : Option Int, r' ≠ some 0 → ¬Accepted r →
      ((r' = some 0 → Proved G server t) ↔ Straight G server t ∨ TokenFailed t) := fun r' hr' ha =>
    iff_of_true (fun e => absurd e hr') (.inl (o.refused ha))
  cases r with
  | none => exact wp_ret.2 (refused none nofun not_accepted_none)
  | some rc =>
    by_cases ha : loginAccepts rc
    · simp only [ha]
      refine (sessionToken_wp o.token).bind fun r' s' t' ⟨hr, hd, hz⟩ => wp_ret.2 ?_
      have hp : Proved G server t' ↔ Proved G server t := by simp [Proved, hr, hd]
      have hs : Straight G server t' ↔ Straight G server t := by simp [Straight, hr, hd]
      rw [hp, hs, Option.some.injEq, hz, o.accepted (accepted_some.2 ha)]
      tauto
    · simp only [ha]
      exact wp_ret.2 (refused (some 1) (by decide) (by rw [accepted_some]; exact ha))

/-- A user's login by the method `uam`. -/
def plainServer (uam : Uam) : LoginServer := ⟨uam, 6, 0, [117], [112]⟩

/-- SRP's first reply with the group of 3 modulo 7. -/
def srpFirst : Bytes := [0, 0, 0, 0, 0, 1, 7, 0, 1, 3, 0, 0, 0, 1, 2]

/-- The answers of an SRP login up to its last reply `proof`. -/
def srpAnswers (proof : Bytes) : List Answer :=
  [.memory true, .reply kFPAuthContinue srpFirst, .memory true, .bytes [1], .memory true,
    .memory true, .memory true, .reply 0 proof]

set_option maxRecDepth 4000 in
/-- A server that gives its `M2` is proved. -/
theorem afpServerLogin_proved_srp :
    ∃ t, run serve (afpServerLogin plainGcrypt 1 (plainServer .srp)) ⟨false, 0⟩ empty
        (srpAnswers ([0, 4, 0, 20] ++ List.replicate 19 0 ++ [1])) =
          some (some 0, ⟨false, 0⟩, t, []) ∧
      Straight plainGcrypt (plainServer .srp) t ∧ Proved plainGcrypt (plainServer .srp) t := by
  let proof : Bytes := [0, 4, 0, 20] ++ List.replicate 19 0 ++ [1]
  let t : Transcript := ⟨[(kFPAuthContinue, srpFirst), (0, proof)], [[1]], none⟩
  have h : run serve (afpServerLogin plainGcrypt 1 (plainServer .srp)) ⟨false, 0⟩ empty
      (srpAnswers proof) = some (some 0, ⟨false, 0⟩, t, []) := rfl
  have hs : Straight plainGcrypt (plainServer .srp) t := fun _ => rfl
  exact ⟨t, h, hs, (afpServerLogin_proved_iff h).2 (.inl hs) rfl⟩

set_option maxRecDepth 4000 in
/-- SRP accepts a server with a wrong `M2` and one with none, and each method
accepts a first reply with the code 0 or `kFPMiscErr` in place of the exchange. -/
theorem afpServerLogin_unproved :
    (∃ t, run serve (afpServerLogin plainGcrypt 1 (plainServer .srp)) ⟨false, 0⟩ empty
        (srpAnswers (List.replicate 24 0)) = some (some 0, ⟨false, 1⟩, t, []) ∧
      ¬Proved plainGcrypt (plainServer .srp) t) ∧
    (∃ t, run serve (afpServerLogin plainGcrypt 1 (plainServer .srp)) ⟨false, 0⟩ empty
        (srpAnswers []) = some (some 0, ⟨false, 0⟩, t, []) ∧
      ¬Proved plainGcrypt (plainServer .srp) t) ∧
    (∀ uam, ∀ rc ∈ [kFPNoErr, kFPMiscErr], ∃ t cs,
      run serve (afpServerLogin plainGcrypt 1 (plainServer uam)) ⟨false, 0⟩ empty
          (.memory true :: (if uam = .srp then [] else [.memory true]) ++ [.reply rc []]) =
        some (some 0, ⟨false, 0⟩, t, cs) ∧ ¬Proved plainGcrypt (plainServer uam) t) := by
  refine ⟨⟨_, rfl, Bool.false_ne_true⟩, ⟨_, rfl, Bool.false_ne_true⟩, fun uam rc hrc => ?_⟩
  simp only [List.mem_cons, List.not_mem_nil, or_false] at hrc
  rcases hrc with rfl | rfl <;> cases uam <;> exact ⟨_, _, rfl, id⟩

end Transcript

end NC
