import NetatalkClient.Model.Replies
import NetatalkClient.Proof.ReplyBlock

/-!
# A page joins a listing as a whole

`Blocks` says which entries the length-delimited blocks of an enumeration's reply hold, and `Joins`
what a listing is with them behind its own. The loop of `enumerate_reply` appends the entries of the
blocks that it gets past (`enumerateEntries_joins`); `enumerateReply_whole` is the reply.
-/

namespace NC

open List Reads

/-! ## The reply is read within its frame -/

section Within

variable {cap size p : Nat} {f : Bytes} {env : ReplyEnv} {server : ServerClock}

theorem entryHeader_within {ext : Bool} (h : p + entryHeaderSize ext ≤ f.length) :
    Fixed cap f (entryHeader ext p) := by
  cases ext with
  | true =>
    have h : p + 4 ≤ f.length := h
    exact (fixed_nat (by omega)).bind fun _ _ => (fixed_byte (by omega)).bind fun _ _ => fixed_pure _
  | false =>
    have h : p + 2 ≤ f.length := h
    exact (fixed_byte (by omega)).bind fun _ _ => (fixed_byte (by omega)).bind fun _ _ => fixed_pure _

theorem enumerateEntries_within {ext : Bool} {filebitmap dirbitmap n : Nat} (h : size ≤ f.length)
    (hp : p ≤ size) (l : DirListing) :
    Fixed cap f (enumerateEntries env server ext filebitmap dirbitmap size n p l) := by
  induction n generalizing p l with
  | zero => exact fixed_pure _
  | succ n ih =>
    refine .ite (fun _ => fixed_pure _) fun hheader => ?_
    refine (entryHeader_within (by omega)).bind fun (entrySize, isdir) _ => ?_
    refine .ite (fun _ => fixed_pure _) fun hentry => ?_
    refine .ite (fun _ => fixed_pure _) fun _ => ?_
    refine (parseReplyBlock_fixed (by omega)).bind fun (rc, e, name) _ => ?_
    exact .ite (fun _ => fixed_pure _) fun _ => ih (by omega) _

theorem enumerateReply_within (h : size ≤ f.length) (ext : Bool) (l : DirListing) :
    Fixed cap f (enumerateReply env server ext size l) := by
  refine .ite (fun _ => fixed_pure _) fun hheader => ?_
  refine (fixed_bytes (by omega)).bind fun b _ => .ite (fun _ => fixed_pure _) fun _ => ?_
  refine .ite (fun _ => fixed_pure _) fun hsize => ?_
  have hin : 22 ≤ size := Nat.not_lt.1 hsize
  refine (fixed_nat (by omega)).bind fun _ _ => (fixed_nat (by omega)).bind fun _ _ => ?_
  refine (fixed_nat (by omega)).bind fun _ _ => ?_
  refine (enumerateEntries_within h hin _).bind fun (done, l') _ => ?_
  exact .ite (fun _ => fixed_pure _) fun _ => fixed_pure _

end Within

/-! ## The entries -/

/-- The number in `n` bytes of a frame. -/
def numAt (f : Bytes) (i n : Nat) : Nat := beNat ((f.drop i).take n)

/-- What the blocks from a position of a reply on hold, the parameters and the name of each. -/
inductive Blocks (env : ReplyEnv) (server : ServerClock) (ext : Bool) (filebitmap dirbitmap : Nat)
    (f : Bytes) : Nat → List (Params × Name) → Prop
  | nil {p : Nat} : Blocks env server ext filebitmap dirbitmap f p []
  | cons {p entrySize : Nat} {isdir : Bool} {rc : Int} {e : Params} {name : Option Name}
      {es : List (Params × Name)} (hheader : entryHeader ext p f = .ok (entrySize, isdir))
      (hsize : entryHeaderSize ext ≤ entrySize) (hin : p + entrySize ≤ f.length)
      (hparse : parseReplyBlock env.heap server (p + entryHeaderSize ext)
        (entrySize - entryHeaderSize ext) isdir filebitmap dirbitmap (some []) maxNameBytes f =
          .ok (rc, e, name)) (hrc : 0 ≤ rc)
      (hes : Blocks env server ext filebitmap dirbitmap f (p + entrySize) es) :
      Blocks env server ext filebitmap dirbitmap f p ((e, name.getD []) :: es)

/-- The records of entries whose names start at a position of the pool. -/
def recordsFrom : Nat → List (Params × Name) → List ListedParams
  | _, [] => []
  | off, (e, name) :: es =>
    { e with nameOff := off, kind := .none } :: recordsFrom (off + name.length + 1) es

/-- A listing and the same with more entries behind its own. -/
structure Joins (l : DirListing) (es : List (Params × Name)) (l' : DirListing) : Prop where
  entries : l'.entries = l.entries ++ recordsFrom l.pool.length es
  pool : l'.pool = l.pool ++ es.flatMap fun e => e.2 ++ [0]

variable {env : ReplyEnv} {server : ServerClock} {ext : Bool} {filebitmap dirbitmap : Nat}
  {f : Bytes} {l l' : DirListing}

theorem Joins.nil (he : l'.entries = l.entries) (hp : l'.pool = l.pool) : Joins l [] l' :=
  ⟨by rw [he, recordsFrom, append_nil], by rw [hp, flatMap_nil, append_nil]⟩

theorem Joins.cons {e : Params} {name : Name} {es : List (Params × Name)}
    (h : Joins (l.commit e name) es l') : Joins l ((e, name) :: es) l' := by
  obtain ⟨he, hp⟩ := h
  refine ⟨?_, ?_⟩
  · rw [he, recordsFrom, DirListing.commit, append_assoc]
    simp [Nat.add_assoc]
  · rw [hp, flatMap_cons, DirListing.commit]
    simp

theorem reserve_joins {heap : Nat → Bool} {n bytes : Nat} {es : List (Params × Name)}
    (h : Joins (l.reserve heap n bytes).2 es l') : Joins l es l' := by
  have hkept : (l.reserve heap n bytes).2.entries = l.entries ∧
      (l.reserve heap n bytes).2.pool = l.pool := by
    unfold DirListing.reserve
    dsimp only
    split
    · exact ⟨rfl, rfl⟩
    · split <;> exact ⟨rfl, rfl⟩
  obtain ⟨he, hp⟩ := h
  rw [hkept.1, hkept.2] at he
  rw [hkept.2] at hp
  exact ⟨he, hp⟩

theorem enumerateEntries_joins {n p : Nat} {done : Bool} (hp : p ≤ f.length)
    (h : enumerateEntries env server ext filebitmap dirbitmap f.length n p l f = .ok (done, l')) :
    ∃ es, Joins l es l' ∧ (done = true → es.length = n ∧
      Blocks env server ext filebitmap dirbitmap f p es) := by
  induction n generalizing p l with
  | zero =>
    cases h
    exact ⟨[], .nil rfl rfl, fun _ => ⟨rfl, .nil⟩⟩
  | succ n ih =>
    have fails : ∀ {l₁ : DirListing}, Joins l [] l₁ → ∃ es, Joins l es l₁ ∧
        (false = true → es.length = n + 1 ∧ Blocks env server ext filebitmap dirbitmap f p es) :=
      fun h => ⟨[], h, nofun⟩
    unfold enumerateEntries at h
    dsimp only at h
    generalize hroom : l.reserve env.heap 1 maxNameBytes = room at h
    have kept : ∀ {es : List (Params × Name)} {l₁ : DirListing}, Joins room.2 es l₁ → Joins l es l₁ :=
      fun h => reserve_joins (hroom ▸ h)
    split at h
    · cases h
      exact fails (.nil rfl rfl)
    obtain ⟨⟨entrySize, isdir⟩, hheader, h⟩ := of_bind h
    split at h
    · cases h
      exact fails (.nil rfl rfl)
    next hentry =>
    split at h
    · cases h
      exact fails (kept (.nil rfl rfl))
    obtain ⟨⟨rc, e, name⟩, hparse, h⟩ := of_bind h
    split at h
    · cases h
      exact fails (kept (.nil rfl rfl))
    next hrc =>
    obtain ⟨es, hjoins, hdone⟩ := ih (by omega) h
    refine ⟨(e, name.getD []) :: es, kept hjoins.cons, fun hd => ?_⟩
    obtain ⟨hlen, hblocks⟩ := hdone hd
    exact ⟨congrArg (· + 1) hlen,
      .cons hheader (by omega) (by omega) hparse (Int.not_lt.1 hrc) hblocks⟩

/-- Whatever a server sends as the reply to an enumeration, and whatever the buffer holds behind it,
either as many entries join the listing as the reply announces, those of its blocks, or none do. -/
theorem enumerateReply_whole (env : ReplyEnv) (server : ServerClock) (ext : Bool) (f : Bytes)
    (l : DirListing) : ∃ rc l',
      (∀ rest, enumerateReply env server ext f.length l (f ++ rest) = .ok (rc, l')) ∧
      ((rc = 0 ∧ ∃ es, Joins l es l' ∧ es.length = numAt f 20 2 ∧
          Blocks env server ext (numAt f 16 2) (numAt f 18 2) f enumerateReplySize es) ∨
        (rc ≠ 0 ∧ l'.entries = l.entries ∧ l'.pool = l.pool)) := by
  obtain ⟨⟨rc, l'⟩, hfixed⟩ : Fixed 0 f (enumerateReply env server ext f.length l) :=
    enumerateReply_within (Nat.le_refl _) ext l
  refine ⟨rc, l', fun rest => hfixed rest (Nat.zero_le _), ?_⟩
  have h := hfixed [] (Nat.zero_le _)
  rw [append_nil] at h
  unfold enumerateReply at h
  dsimp only at h
  split at h
  · cases h
    exact .inr ⟨nofun, rfl, rfl⟩
  obtain ⟨header, -, h⟩ := of_bind h
  split at h
  · next hcode =>
    cases h
    exact .inr ⟨hcode, rfl, rfl⟩
  split at h
  · cases h
    exact .inr ⟨nofun, rfl, rfl⟩
  next hsize =>
  obtain ⟨filebitmap, hfile, h⟩ := of_bind h
  obtain ⟨dirbitmap, hdir, h⟩ := of_bind h
  obtain ⟨reqcount, hcount, h⟩ := of_bind h
  obtain rfl := of_nat hfile
  obtain rfl := of_nat hdir
  obtain rfl := of_nat hcount
  obtain ⟨⟨done, l₁⟩, hentries, h⟩ := of_bind h
  obtain ⟨es, hjoins, hdone⟩ := enumerateEntries_joins (Nat.not_lt.1 hsize) hentries
  split at h
  · next hd =>
    cases h
    exact .inl ⟨rfl, es, hjoins, hdone hd⟩
  · cases h
    refine .inr ⟨nofun, ?_, ?_⟩
    · rw [hjoins.entries]
      simp
    · rw [hjoins.pool]
      simp

end NC
