import NetatalkClient.Proof.Fuse.References

/-!
# Each thread of afpfsd has the tokens it needs

One lemma for each function of the threads: what it needs of its caller's tokens, and that it
gives them back. A function that uses a server needs any token for it (`Guarded`), and one
that may connect it again that the server is not the caller's own (`Shared`).
`task_keeps` and `spawned_keeps` put them together for the threads.
-/

namespace NC.Fuse

open Discipline (Uses Restores)
open Multiset (mem_cons_self erase_cons_head)

variable {α : Type} {own : Multiset Token} {s j n : Nat}

/-- A function that gives its caller's tokens back. -/
abbrev Returns (own : Multiset Token) (p : FuseCall α) : Prop := discipline.Restores own p

/-- A function that gives them back but for one token. -/
abbrev Ends (t : Token) (own : Multiset Token) (p : FuseCall α) : Prop :=
  discipline.Uses (t ::ₘ own) p fun _ own' => own' = own

theorem guarded_made : Guarded s (.made s ::ₘ own) := .inl (mem_cons_self ..)

theorem guarded_ref : Guarded s (.ref s ::ₘ own) := .inr (.inl (mem_cons_self ..))

theorem guarded_use : Guarded s (.use s ::ₘ own) := .inr (.inr (mem_cons_self ..))

/-- The thread may use the server, which it is not the maker of. -/
structure Shared (s : Nat) (own : Multiset Token) : Prop where
  has : .ref s ∈ own ∨ .use s ∈ own
  made : .made s ∉ own

theorem Shared.guarded (h : Shared s own) : Guarded s own := .inr h.has

/-! ## Accesses -/

section Guarded

variable (hs : Guarded s own)

include hs

theorem access_returns (f : AfpServer → AfpSession) : Returns own (access s f) := ⟨hs, fun _ _ => rfl⟩

theorem read_returns : Returns own (read s) := access_returns hs _

theorem write_returns (f : AfpSession → AfpSession) : Returns own (write s f) :=
  (access_returns hs _).done

theorem touch_returns : Returns own (touch s) := write_returns hs _

theorem setVolume_returns (f : FuseVolume → FuseVolume) : Returns own (setVolume s j f) :=
  write_returns hs _

end Guarded

theorem choose_returns : Returns own choose := ⟨trivial, fun _ _ => rfl⟩

theorem chance_returns : Returns own chance := choose_returns.done

theorem serverInit_uses : discipline.Uses own serverInit fun s own' => own' = .made s ::ₘ own :=
  ⟨trivial, fun _ _ => rfl⟩

/-- The tokens of a thread that looked for a server: with one found, a token for it too. -/
def Found {β : Type} (token : β → Token) (own : Multiset Token) : Option β → Multiset Token → Prop
  | none, own' => own' = own
  | some x, own' => own' = token x ::ₘ own

theorem found_bind {β : Type} {token : β → Token} {p : FuseCall (Option β)}
    {k : Option β → FuseCall α} {Q : α → Multiset Token → Prop}
    (hp : discipline.Uses own p (Found token own)) (hnone : discipline.Uses own (k none) Q)
    (hsome : ∀ x, discipline.Uses (token x ::ₘ own) (k (some x)) Q) :
    discipline.Uses own (p >>= k) Q := by
  refine hp.bind fun a own' ha => ?_
  match a with
  | none =>
    obtain rfl : own' = own := ha
    exact hnone
  | some x =>
    obtain rfl : own' = token x ::ₘ own := ha
    exact hsome x

theorem volumeFindByMountpointHold_uses (mountpoint : Path) :
    discipline.Uses own (volumeFindByMountpointHold mountpoint) (Found (fun x => .ref x.1) own) := by
  refine ⟨trivial, fun a _ => ?_⟩
  cases a <;> rfl

theorem readyServer_uses : discipline.Uses own readyServer (Found .ref own) := by
  refine ⟨trivial, fun a _ => ?_⟩
  cases a <;> rfl

theorem getServerBase_uses : discipline.Uses own getServerBase (Found .use own) := by
  refine ⟨trivial, fun a _ => ?_⟩
  cases a <;> rfl

theorem nextServer_uses (hs : .use s ∈ own) : discipline.Uses own (nextServer s) (Found .use own) := by
  refine ⟨hs, fun a _ => ?_⟩
  cases a <;> rfl

theorem startFuse_returns (hs : .use s ∈ own) : Returns own (startFuse s j) := ⟨hs, fun _ _ => rfl⟩

theorem startRequest_returns (hs : .use s ∈ own) : Returns own (startRequest s j) :=
  ⟨hs, fun _ _ => rfl⟩

/-! ## Connections -/

section Guarded

variable (hs : Guarded s own)

include hs

theorem loopCloseDescriptor_returns (taken : Bool) : Returns own (loopCloseDescriptor s taken) :=
  .when fun _ => touch_returns hs

theorem loopDisconnect_returns : Returns own (loopDisconnect s) :=
  (read_returns hs).bind fun _ => (access_returns hs _).bind fun _ =>
    (loopCloseDescriptor_returns hs _).bind fun _ => (touch_returns hs).bind fun _ =>
    (access_returns hs _).bind fun _ => touch_returns hs

theorem sendNoWait_returns : Returns own (sendNoWait s) :=
  (read_returns hs).bind fun _ => .guard fun _ => touch_returns hs

theorem sendQueued_returns : Returns own (sendQueued s) :=
  (read_returns hs).bind fun _ => .guard fun _ =>
    (touch_returns hs).bind fun _ => chance_returns.bind fun _ =>
    (touch_returns hs).done

theorem sendWith_returns {reconnect : Nat → FuseCall Bool} (hr : Returns own (reconnect s)) :
    Returns own (sendWith reconnect s) := by
  refine (read_returns hs).bind fun _ => .guard fun _ => ?_
  refine (read_returns hs).bind fun _ => .ite (fun _ => sendQueued_returns hs) fun _ => ?_
  refine .guard fun _ => (read_returns hs).bind fun _ => ?_
  refine .guard fun _ => hr.bind fun _ => ?_
  exact .ite (fun _ => sendQueued_returns hs) fun _ => (touch_returns hs).done

theorem sendInside_returns : Returns own (sendInside s) := sendWith_returns hs (.ret _)

theorem refuseReconnect_returns : Returns own (refuseReconnect s) :=
  (access_returns hs _).bind fun _ => .guard fun _ =>
    (touch_returns hs).bind fun _ => (loopDisconnect_returns hs).bind fun _ =>
    (write_returns hs _).done

end Guarded

theorem sends_returns {send : Nat → FuseCall Bool} (hsend : Returns own (send s)) :
    Returns own (sends send s n) := by
  induction n with
  | zero => exact .ret _
  | succ n ih => exact hsend.bind fun _ => .when fun _ => ih

theorem sendsAll_returns {send : Nat → FuseCall Bool} (hsend : Returns own (send s)) :
    Returns own (sendsAll send s n) := by
  induction n with
  | zero => exact .ret _
  | succ n ih => exact hsend.bind fun _ => ih

/-- The end of a removal, with the reference of the server's creation. -/
theorem removed_returns : discipline.Uses (.ref s ::ₘ own)
    (do loopDisconnect s; release s; return true : FuseCall Bool)
    fun a own' => a = true ∧ own' = own := by
  refine (loopDisconnect_returns guarded_ref).next fun _ => ?_
  exact ⟨mem_cons_self .., fun _ _ => ⟨rfl, erase_cons_head ..⟩⟩

theorem serverRemove_returns : Returns own (serverRemove s false) := by
  refine ⟨nofun, fun a _ => ?_⟩
  cases a with
  | true => exact removed_returns.mono fun _ _ h => h.2
  | false => exact rfl

/-- A thread that uses the server takes it off the list and is done with it. -/
theorem serverRemove_ends : Ends (.use s) own (serverRemove s true) := by
  have hs : .use s ∈ .use s ::ₘ own := mem_cons_self ..
  refine ⟨fun _ => hs, fun a ha => ?_⟩
  obtain rfl : a = true := ha.2 hs
  refine removed_returns.mono fun _ _ h => h.2.trans ?_
  exact erase_cons_head ..

theorem serverRemove_unlisted (hs : .made s ∈ own) : discipline.Uses own (serverRemove s false)
    fun a own' => a = false ∧ own' = own := by
  refine ⟨nofun, fun a ha => ?_⟩
  obtain rfl : a = false := ha.1 hs
  exact ⟨rfl, rfl⟩

/-- The status exchange of `serverConnect`, once the server is listed. -/
theorem status_connects (hs : Guarded s own) (full : Bool) : discipline.Uses own (do
    if !full then return .connected
    else if ← sendWith refuseReconnect s then
      touch s
      return .connected
    else return .noStatus : FuseCall Connected) fun c own' => c ≠ .unconnected ∧ own' = own := by
  refine .ite (fun _ => ⟨nofun, rfl⟩) fun _ => ?_
  refine (sendWith_returns hs (refuseReconnect_returns hs)).next fun _ => ?_
  exact .ite (fun _ => (touch_returns hs).next fun _ => ⟨nofun, rfl⟩) fun _ => ⟨nofun, rfl⟩

theorem serverConnect_returns (hs : Shared s own) (full : Bool) :
    Returns own (serverConnect s full) := by
  refine (access_returns hs.guarded _).bind fun _ =>
    (loopCloseDescriptor_returns hs.guarded _).bind fun _ => chance_returns.bind fun _ => ?_
  refine .when fun _ => (touch_returns hs.guarded).bind fun _ => ?_
  refine ⟨hs.guarded, fun a ha => ?_⟩
  cases a with
  | fresh => exact absurd (ha.1 rfl) hs.made
  | again => exact (status_connects hs.guarded full).mono fun _ _ h => h.2
  | destroyed => exact rfl

/-- The maker of a server lists it and goes on using it, unless no address connects. -/
theorem serverConnect_made (full : Bool) : discipline.Uses (.made s ::ₘ own) (serverConnect s full)
    fun c own' => own' = (if c = .unconnected then .made s else .use s) ::ₘ own := by
  have hs : Guarded s (.made s ::ₘ own) := guarded_made
  refine (access_returns hs _).next fun _ => (loopCloseDescriptor_returns hs _).next fun _ =>
    chance_returns.next fun _ => ?_
  refine .ite (fun _ => (touch_returns hs).next fun _ => ?_) fun _ => rfl
  refine ⟨hs, fun a ha => ?_⟩
  obtain rfl : a = .fresh := ha.2 (mem_cons_self ..)
  show discipline.Uses (.use s ::ₘ (.made s ::ₘ own).erase (.made s)) _ _
  rw [erase_cons_head]
  refine (status_connects guarded_use full).mono fun c own' h => ?_
  rw [h.2, if_neg h.1]

variable {c : Connected}

theorem removeMade_uses {unlisted : FuseCall Unit} (hu : Ends (.made s) own unlisted) :
    Ends (if c = .unconnected then .made s else .use s) own (removeMade s c unlisted) := by
  by_cases hc : c = .unconnected
  · rw [if_pos hc]
    refine .ite (fun _ => ?_) fun h => absurd hc h
    refine (serverRemove_unlisted (mem_cons_self ..)).bind ?_
    rintro _ _ ⟨rfl, rfl⟩
    exact hu
  · rw [if_neg hc]
    refine .ite (fun h => absurd h hc) fun _ => ?_
    exact serverRemove_ends.bind fun _ _ h => h

theorem probeSignature_returns : Returns own probeSignature := by
  refine serverInit_uses.bind ?_
  rintro probe _ rfl
  refine (serverConnect_made true).bind ?_
  rintro c _ rfl
  have hs : Guarded probe ((if c = .unconnected then Token.made probe else .use probe) ::ₘ own) := by
    split
    · exact guarded_made
    · exact guarded_use
  refine (touch_returns hs).next fun _ => (removeMade_uses ?_).bind ?_
  · exact ⟨mem_cons_self .., fun _ _ => erase_cons_head ..⟩
  · rintro _ _ rfl
    exact .ite (fun _ => chance_returns) fun _ => rfl

/-! ## Volumes -/

section Guarded

variable (hs : Guarded s own)

include hs

variable {i : Nat} {body : Nat → FuseCall Bool}

theorem someVolumeFrom_returns {p : FuseVolume → Bool} : Returns own (someVolumeFrom s p n i) := by
  induction n generalizing i with
  | zero => exact .ret _
  | succ n ih =>
    exact (read_returns hs).bind fun _ => .ite (fun _ => .guard fun _ => ih)
      fun _ => .ret _

theorem someVolume_returns (p : FuseVolume → Bool) : Returns own (someVolume s p) :=
  (read_returns hs).bind fun _ => someVolumeFrom_returns hs

theorem forVolumesFrom_returns (hb : ∀ i, Returns own (body i)) {ok : Bool} :
    Returns own (forVolumesFrom s body n i ok) := by
  induction n generalizing i ok with
  | zero => exact .ret _
  | succ n ih =>
    exact (read_returns hs).bind fun _ => .when fun _ => (hb i).bind fun _ => ih

theorem forVolumes_returns (hb : ∀ i, Returns own (body i)) : Returns own (forVolumes s body) :=
  (read_returns hs).bind fun _ => forVolumesFrom_returns hs hb

variable {send : Nat → FuseCall Bool} (hsend : Returns own (send s))

include hsend

omit hs in
theorem closeDesktop_returns : Returns own (closeDesktop send s) :=
  chance_returns.bind fun _ => .when fun _ => hsend.done

theorem detachVolume_returns : Returns own (detachVolume send s j) := by
  refine (setVolume_returns hs _).bind fun _ => (touch_returns hs).bind fun _ =>
    choose_returns.bind fun _ => (sendsAll_returns hsend).bind fun _ => ?_
  refine (closeDesktop_returns hsend).bind fun _ => (setVolume_returns hs _).bind fun _ =>
    (someVolume_returns hs _).bind fun _ => .guard fun _ => ?_
  exact (sendNoWait_returns hs).bind fun _ => serverRemove_returns.done

theorem connectVolume_returns : Returns own (connectVolume send s j) := by
  refine (touch_returns hs).bind fun _ => hsend.bind fun _ => .when fun _ => ?_
  refine (touch_returns hs).bind fun _ => chance_returns.bind fun _ => .ite (fun _ => ?_) fun _ => ?_
  · exact (setVolume_returns hs _).done
  · exact (detachVolume_returns hs hsend).done

theorem serverLogin_returns : Returns own (serverLogin send s) :=
  (touch_returns hs).bind fun _ => choose_returns.bind fun _ => sends_returns hsend

end Guarded

/-! ## Reconnects -/

section Shared

variable (hs : Shared s own)

include hs

theorem reconnectVolume_returns : Returns own (reconnectVolume s j) :=
  (read_returns hs.guarded).bind fun _ =>
    .when fun _ => connectVolume_returns hs.guarded (sendInside_returns hs.guarded)

theorem resumeSession_returns : Returns own (resumeSession s) := by
  have hg := hs.guarded
  have hin := sendInside_returns hg
  refine hin.bind fun _ => .when fun _ => ?_
  refine (serverLogin_returns hg hin).bind fun _ => .when fun _ => ?_
  refine (forVolumes_returns hg fun _ => reconnectVolume_returns hs).bind fun _ =>
    .when fun _ => ?_
  exact (access_returns hg _).done

theorem reconnectBegun_returns : Returns own (reconnectBegun s) := by
  have ht := touch_returns hs.guarded
  refine ht.bind fun _ => chance_returns.bind fun _ => .when fun _ => ?_
  refine ht.bind fun _ => probeSignature_returns.bind fun _ => .when fun _ => ?_
  refine ht.bind fun _ => chance_returns.bind fun _ => .when fun _ => ?_
  refine (serverConnect_returns hs false).bind fun c => ?_
  cases c with
  | connected => exact resumeSession_returns hs
  | unconnected | destroyed | noStatus => exact .ret _

theorem serverReconnect_returns : Returns own (serverReconnect s) := by
  have hg := hs.guarded
  refine (access_returns hg _).bind fun _ => .guard fun _ => ?_
  refine (reconnectBegun_returns hs).bind fun _ => .ite (fun _ => ?_) fun _ => ?_
  · exact (write_returns hg _).done
  · exact (touch_returns hg).bind fun _ => (loopDisconnect_returns hg).bind fun _ =>
      (write_returns hg _).done

theorem send_returns : Returns own (send s) :=
  sendWith_returns hs.guarded (serverReconnect_returns hs)

/-! ## Unmounts -/

theorem fuseUnmountVolume_returns : Returns own (fuseUnmountVolume s j) := by
  refine (read_returns hs.guarded).bind fun _ => .guard fun _ => ?_
  refine .guard fun _ => (touch_returns hs.guarded).bind fun _ => ?_
  have hjoin : Returns own (join s j) := ⟨trivial, fun _ _ => rfl⟩
  exact hjoin.bind fun _ => (setVolume_returns hs.guarded _).done

theorem unmountVolume_returns : Returns own (unmountVolume s j) := by
  have hg := hs.guarded
  refine (read_returns hg).bind fun _ => .guard fun _ => ?_
  refine (setVolume_returns hg _).bind fun _ => (fuseUnmountVolume_returns hs).bind fun _ =>
    .ite (fun _ => ?_) fun _ => ?_
  · exact (setVolume_returns hg _).bind fun _ =>
      (detachVolume_returns hg (send_returns hs)).done
  · exact (setVolume_returns hg _).done

end Shared

/-! ## The threads -/

theorem shared_ref : Shared s (.ref s ::ₘ 0) := ⟨.inl (mem_cons_self ..), by simp⟩

theorem shared_use : Shared s (.use s ::ₘ 0) := ⟨.inr (mem_cons_self ..), by simp⟩

theorem release_ends : Ends (.ref s) own (release s) :=
  ⟨mem_cons_self .., fun _ _ => erase_cons_head ..⟩

theorem leaveWith_ends {f : AfpSession → AfpSession} : Ends (.use s) own (leaveWith s f) :=
  ⟨mem_cons_self .., fun _ _ => erase_cons_head ..⟩

theorem leave_ends : Ends (.use s) own (leave s) := leaveWith_ends

theorem processUnmount_keeps (mountpoint : Path) : Returns 0 (processUnmount mountpoint) := by
  refine found_bind (volumeFindByMountpointHold_uses mountpoint) rfl fun (s, j) => ?_
  have hs : Shared s (.ref s ::ₘ 0) := shared_ref
  refine (read_returns hs.guarded).next fun _ => .ite (fun _ => ?_) fun _ => ?_
  · exact (touch_returns hs.guarded).next fun _ => release_ends
  · exact (touch_returns hs.guarded).next fun _ => (unmountVolume_returns hs).next fun _ =>
      release_ends

theorem processSuspend_keeps (mountpoint : Path) : Returns 0 (processSuspend mountpoint) := by
  refine found_bind (volumeFindByMountpointHold_uses mountpoint) rfl fun (s, _) => ?_
  have hs : Shared s (.ref s ::ₘ 0) := shared_ref
  refine (send_returns hs).next fun _ => .ite (fun _ => ?_) fun _ => release_ends
  exact (write_returns hs.guarded _).next fun _ => (loopDisconnect_returns hs.guarded).next fun _ =>
    release_ends

theorem processResume_keeps (mountpoint : Path) : Returns 0 (processResume mountpoint) := by
  refine found_bind (volumeFindByMountpointHold_uses mountpoint) rfl fun (s, _) => ?_
  have hs : Shared s (.ref s ::ₘ 0) := shared_ref
  refine (write_returns hs.guarded _).next fun _ => (serverReconnect_returns hs).next fun _ =>
    .ite (fun _ => release_ends) fun _ => ?_
  exact (write_returns hs.guarded _).next fun _ => release_ends

/-! ### Mounts -/

theorem loggedIn_returns (hs : Shared s own) : Returns own (loggedIn s) := by
  have hg := hs.guarded
  have hsend := send_returns hs
  refine (touch_returns hg).bind fun _ => hsend.bind fun _ => .when fun _ => ?_
  refine chance_returns.bind fun _ => .when fun _ => ?_
  refine (serverLogin_returns hg hsend).bind fun _ => .when fun _ => ?_
  refine hsend.bind fun _ => .when fun _ => ?_
  exact choose_returns.bind fun _ => (write_returns hg _).bind fun _ => hsend.bind fun _ =>
    (access_returns hg _).done

theorem completeConnection_uses :
    discipline.Uses (.use s ::ₘ 0) (completeConnection s) (Found .use 0) := by
  refine (loggedIn_returns shared_use).next fun _ => .ite (fun _ => rfl) fun _ => ?_
  exact serverRemove_ends.bind fun _ _ h => h

/-- The maker of a server that is not connected leaves it behind. -/
theorem removeMade_abandon :
    Ends (if c = .unconnected then .made s else .use s) own (removeMade s c (abandon s)) :=
  removeMade_uses ⟨mem_cons_self .., fun _ _ => erase_cons_head ..⟩

theorem connectSession_uses : discipline.Uses 0 connectSession (Found .use 0) := by
  refine chance_returns.next fun _ => .ite (fun _ => ?_) fun _ => rfl
  refine serverInit_uses.bind ?_
  rintro s _ rfl
  refine (touch_returns guarded_made).next fun _ => (serverConnect_made false).bind ?_
  rintro c _ rfl
  refine .ite (fun hc => ?_) fun _ => ?_
  · rw [if_neg (by simp [hc])]
    exact (touch_returns guarded_use).next fun _ => completeConnection_uses
  · refine removeMade_abandon.bind ?_
    rintro _ _ rfl
    exact rfl

theorem serverFullConnect_uses : discipline.Uses 0 serverFullConnect (Found .use 0) := by
  refine chance_returns.next fun _ => .ite (fun _ => ?_) fun _ => rfl
  refine serverInit_uses.bind ?_
  rintro tmpserver _ rfl
  refine (serverConnect_made true).bind ?_
  rintro c _ rfl
  refine .ite (fun hc => ?_) fun _ => ?_
  · rw [if_neg (by simp [hc])]
    refine (loopDisconnect_returns guarded_use).next fun _ => (touch_returns guarded_use).next
      fun _ => serverRemove_ends.bind ?_
    rintro _ _ rfl
    exact connectSession_uses
  · refine removeMade_abandon.bind ?_
    rintro _ _ rfl
    exact rfl

theorem mountVolume_returns (hs : Shared s own) : Returns own (mountVolume s) := by
  have hg := hs.guarded
  refine choose_returns.bind fun _ => (read_returns hg).bind fun _ => .ite (fun _ => ?_) fun _ =>
    (touch_returns hg).done
  refine .ite (fun _ => (touch_returns hg).done) fun _ => ?_
  refine (touch_returns hg).bind fun _ => chance_returns.bind fun _ => .when fun _ => ?_
  refine (connectVolume_returns hg (send_returns hs)).bind fun _ => .when fun _ => ?_
  exact (touch_returns hg).done

theorem mountFailed_ends : Ends (.use s) own (mountFailed s) := by
  refine (someVolume_returns guarded_use _).next fun _ => .ite (fun _ => leave_ends) fun _ => ?_
  exact serverRemove_ends.bind fun _ _ h => h

theorem awaitFuse_ends : Ends (.use s) own (awaitFuse s j) := by
  refine choose_returns.next fun c => ?_
  split
  · exact leave_ends
  · exact (setVolume_returns guarded_use _).next fun _ => mountFailed_ends
  · exact (read_returns guarded_use).next fun _ => (touch_returns guarded_use).next fun _ =>
      .ite (fun _ => mountFailed_ends) fun _ => leave_ends
  · exact (setVolume_returns guarded_use _).next fun _ => mountFailed_ends

theorem processMount_keeps (mountpoint : Path) : Returns 0 (processMount mountpoint) := by
  refine chance_returns.next fun _ => .ite (fun _ => ?_) fun _ => rfl
  refine found_bind serverFullConnect_uses rfl fun s => ?_
  refine (touch_returns guarded_use).next fun _ => (mountVolume_returns shared_use).next fun b => ?_
  match b with
  | none => exact mountFailed_ends
  | some j =>
    exact (setVolume_returns guarded_use _).next fun _ =>
      (startFuse_returns (mem_cons_self ..)).next fun _ => awaitFuse_ends

/-! ### The receive loop -/

theorem startAttention_returns (hs : .ref s ∈ own) : Returns own (startAttention s) := by
  refine (read_returns (.inr (.inl hs))).bind fun _ => ⟨.inl hs, fun _ _ => ?_⟩
  refine chance_returns.next fun _ => .ite (fun _ => ?_) fun _ => release_ends
  exact ⟨mem_cons_self .., fun _ _ => erase_cons_head ..⟩

theorem processServerFds_keeps : Returns 0 processServerFds := by
  refine found_bind readyServer_uses rfl fun s => ?_
  refine (touch_returns guarded_ref).next fun _ => choose_returns.next fun c => ?_
  split
  · exact (loopDisconnect_returns guarded_ref).next fun _ => release_ends
  · exact (startAttention_returns (mem_cons_self ..)).next fun _ =>
      (touch_returns guarded_ref).next fun _ => release_ends
  · exact (touch_returns guarded_ref).next fun _ => release_ends

theorem incomingAttention_keeps (generation : Nat) :
    Ends (.ref s) 0 (incomingAttention s generation) := by
  have hs : Shared s (.ref s ::ₘ 0) := shared_ref
  have hread : Returns (.ref s ::ₘ 0) (readMessage s) := chance_returns.bind fun _ =>
    .when fun _ => (send_returns hs).done
  have hdown : Returns (.ref s ::ₘ 0) (shutDown s generation) := chance_returns.bind fun _ =>
    .ite (fun _ => (read_returns hs.guarded).bind fun _ =>
      .when fun _ => loopDisconnect_returns hs.guarded) fun _ => .ret _
  refine (read_returns hs.guarded).next fun _ => .ite (fun _ => release_ends) fun _ => ?_
  exact hread.next fun _ => hdown.next fun _ => release_ends

/-! ### FUSE threads -/

theorem fuseRequest_keeps : Ends (.use s) 0 (fuseRequest s j) := by
  have hs : Shared s (.use s ::ₘ 0) := shared_use
  exact (touch_returns hs.guarded).next fun _ => choose_returns.next fun _ =>
    (sendsAll_returns (send_returns hs)).next fun _ => (touch_returns hs.guarded).next fun _ =>
    leaveWith_ends

theorem fuseRequests_returns (hs : .use s ∈ own) : Returns own (fuseRequests s j n) := by
  induction n with
  | zero => exact .ret _
  | succ n ih => exact (startRequest_returns hs).bind fun _ => ih

theorem afpDestroy_returns (hs : Shared s own) : Returns own (afpDestroy s j) :=
  (read_returns hs.guarded).bind fun _ => .ite (fun _ => (setVolume_returns hs.guarded _).bind
    fun _ => (unmountVolume_returns hs).done) fun _ => .ret _

theorem fuseMain_returns : Returns (.use s ::ₘ 0) (fuseMain s j) := by
  have hs : Shared s (.use s ::ₘ 0) := shared_use
  have hends : Returns (.use s ::ₘ 0) (fuseEnds s j) := ⟨hs.guarded, fun _ _ => rfl⟩
  refine chance_returns.bind fun _ => .when fun _ => ?_
  refine (setVolume_returns hs.guarded _).bind fun _ => choose_returns.bind fun _ => ?_
  exact (fuseRequests_returns (mem_cons_self ..)).bind fun _ => hends.bind fun _ =>
    afpDestroy_returns hs

theorem startFuseThread_keeps : Ends (.use s) 0 (startFuseThread s j) := by
  have ht : Returns (.use s ::ₘ 0) (touch s) := touch_returns guarded_use
  exact ht.next fun _ => fuseMain_returns.next fun _ => ht.next fun _ => ht.next fun _ =>
    leaveWith_ends

/-! ### The forced end -/

theorem unmountConnected_returns (hs : Shared s own) (x : AfpServer) :
    Returns own (unmountConnected s x) := by
  refine .when fun _ => ?_
  refine (forVolumes_returns hs.guarded fun _ => ?_).done
  exact (touch_returns hs.guarded).bind fun _ => (unmountVolume_returns hs).done

theorem forcedEndFrom_keeps {fuel : Nat} : Ends (.use s) 0 (forcedEndFrom fuel s) := by
  induction fuel generalizing s with
  | zero => exact leave_ends
  | succ fuel ih =>
    refine found_bind (nextServer_uses (mem_cons_self ..)) ?_ fun t => ?_
    · exact (read_returns guarded_use).next fun _ => (unmountConnected_returns shared_use _).next
        fun _ => leave_ends.bind fun _ _ h => h
    · have hs : Shared s (.use t ::ₘ .use s ::ₘ 0) := ⟨.inr (by simp), by simp⟩
      refine (read_returns hs.guarded).next fun _ => (unmountConnected_returns hs _).next fun _ => ?_
      rw [Multiset.cons_swap]
      refine leave_ends.bind ?_
      rintro _ _ rfl
      exact ih

theorem forcedEnd_keeps (fuel : Nat) : Returns 0 (forcedEnd fuel) :=
  found_bind getServerBase_uses rfl fun _ => forcedEndFrom_keeps

theorem task_keeps (t : Task) : Pool.Keeping discipline (0, t.thread) := by
  cases t with
  | mount mountpoint => exact processMount_keeps mountpoint
  | unmount mountpoint => exact processUnmount_keeps mountpoint
  | suspend mountpoint => exact processSuspend_keeps mountpoint
  | resume mountpoint => exact processResume_keeps mountpoint
  | receive => exact processServerFds_keeps
  | forcedEnd fuel => exact forcedEnd_keeps fuel

/-- The threads that an operation starts have the tokens that it grants. -/
theorem spawned_keeps (r : ServerOp) : ∃ new : List (Multiset Token × FuseCall Unit),
    new.map Prod.snd = spawns r ∧ (∀ y ∈ new, Pool.Keeping discipline y) ∧
      (new.map Prod.fst).sum = granted r := by
  have none : ∃ new : List (Multiset Token × FuseCall Unit), new.map Prod.snd = [] ∧
      (∀ y ∈ new, Pool.Keeping discipline y) ∧ (new.map Prod.fst).sum = 0 :=
    ⟨[], rfl, nofun, rfl⟩
  have one : ∀ (t : Token) (p : FuseCall Unit), Ends t 0 p →
      ∃ new : List (Multiset Token × FuseCall Unit), new.map Prod.snd = [p] ∧
        (∀ y ∈ new, Pool.Keeping discipline y) ∧ (new.map Prod.fst).sum = {t} := by
    intro t p hp
    refine ⟨[(t ::ₘ 0, p)], rfl, fun y hy => ?_, by simp⟩
    rw [List.mem_singleton.1 hy]
    exact hp
  cases r with
  | startFuse s j => exact one _ _ startFuseThread_keeps
  | startRequest s j => exact one _ _ fuseRequest_keeps
  | startAttention s generation => exact one _ _ (incomingAttention_keeps generation)
  | _ => exact none

end NC.Fuse
