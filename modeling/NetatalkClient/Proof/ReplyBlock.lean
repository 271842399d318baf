import NetatalkClient.Model.ReplyBlock

/-!
# Parameter blocks are read within their frame

`Parse.Safe cap f x P` says that the parse `x` goes the same way in every buffer that starts with the
frame `f`, from any state, and that what it returns has the property `P`. Each step of
`parse_reply_block` is safe for a block within the frame, as it checks the block's end before it
reads (`parseBytes_safe`, `locatePascal_safe`, `locateAfpname_safe`). `parseReplyBlock_fixed` is the
whole parse.
-/

namespace NC

namespace Parse

variable {α β : Type} {cap : Nat} {f : Bytes} {P : α → Prop} {Q : β → Prop}

/-- From any state the parse ends in the same way whatever stands behind the frame. -/
def Safe (cap : Nat) (f : Bytes) (x : Parse α) (P : α → Prop) : Prop :=
  ∀ s, ∃ r s', (∀ l, cap ≤ (f ++ l).length → x s (f ++ l) = .ok (r, s')) ∧ ∀ a, r = .ok a → P a

theorem safe_pure {a : α} (h : P a) : Safe cap f (pure a) P :=
  fun s => ⟨.ok a, s, fun _ _ => rfl, fun _ e => Except.ok.inj e ▸ h⟩

theorem safe_throw : Safe cap f (throw ()) P :=
  fun s => ⟨.error (), s, fun _ _ => rfl, nofun⟩

theorem bind_run (x : Parse α) (k : α → Parse β) (s : Block) (b : Bytes) :
    (x >>= k) s b = x s b >>= fun p => ExceptT.bindCont k p.1 p.2 b := rfl

theorem Safe.bind {x : Parse α} {k : α → Parse β} (hx : Safe cap f x P)
    (hk : ∀ a, P a → Safe cap f (k a) Q) : Safe cap f (x >>= k) Q := by
  intro s
  obtain ⟨r, s₁, hrun, hr⟩ := hx s
  cases r with
  | error e =>
    refine ⟨.error e, s₁, fun l hl => ?_, nofun⟩
    rw [bind_run, hrun l hl]
    rfl
  | ok a =>
    obtain ⟨r, s₂, hrun', hr'⟩ := hk a (hr a rfl) s₁
    refine ⟨r, s₂, fun l hl => ?_, hr'⟩
    rw [bind_run, hrun l hl]
    exact hrun' l hl

theorem safe_read {r : Reads α} (h : Reads.Fixed cap f r) : Safe cap f (read r) fun _ => True := by
  intro s
  obtain ⟨a, ha⟩ := h
  exact ⟨.ok a, s, fun l hl => Reads.bind_ok (ha l hl), fun _ _ => trivial⟩

theorem safe_get : Safe cap f (get : Parse Block) fun _ => True :=
  fun s => ⟨.ok s, s, fun _ _ => rfl, fun _ _ => trivial⟩

theorem safe_set (s : Block) : Safe cap f (set s : Parse PUnit) fun _ => True :=
  fun _ => ⟨.ok (), s, fun _ _ => rfl, fun _ _ => trivial⟩

theorem safe_store (g : Params → Params) : Safe cap f (store g) fun _ => True :=
  fun s => ⟨.ok (), { s with e := g s.e }, fun _ _ => rfl, fun _ _ => trivial⟩

theorem Safe.ite {c : Prop} [Decidable c] {x y : Parse α} (hx : c → Safe cap f x P)
    (hy : ¬c → Safe cap f y P) : Safe cap f (if c then x else y) P :=
  iteInduction (motive := (Safe cap f · P)) hx hy

theorem Safe.whenBit {bitmap bit : Nat} {x : Parse Unit} (hx : Safe cap f x fun _ => True) :
    Safe cap f (whenBit bitmap bit x) fun _ => True :=
  .ite (fun _ => hx) fun _ => safe_pure trivial

theorem Safe.then {x : Parse α} {y : Parse β} (hx : Safe cap f x fun _ => True)
    (hy : Safe cap f y Q) : Safe cap f (x >>= fun _ => y) Q :=
  hx.bind fun _ _ => hy

end Parse

open Parse

variable {cap stop : Nat} {f : Bytes}

theorem needBytes_iff {p len : Nat} : needBytes p stop len ↔ p + len ≤ stop := by
  simp only [needBytes, Bool.and_eq_true, decide_eq_true_eq]
  omega

/-! ## The steps -/

theorem parseBytes_safe (h : stop ≤ f.length) (len : Nat) :
    Safe cap f (parseBytes stop len) fun _ => True := by
  refine safe_get.bind fun s _ => .ite (fun hn => ?_) fun _ => safe_throw
  have hin : s.p2 + len ≤ f.length := Nat.le_trans (needBytes_iff.1 hn) h
  exact (safe_read (Reads.fixed_bytes hin)).bind fun _ _ =>
    (safe_set _).then (safe_pure trivial)

theorem parseUint_safe (h : stop ≤ f.length) (width bit : Nat) :
    Safe cap f (parseUint width stop bit) fun _ => True :=
  (parseBytes_safe h width).bind fun _ _ => (safe_store _).then (safe_pure trivial)

theorem parseDate_safe (h : stop ≤ f.length) {server : ServerClock} {bit : Nat}
    {ns : Int → Params → Params} : Safe cap f (parseDate server stop bit ns) fun _ => True :=
  (parseBytes_safe h 4).bind fun _ _ => .ite (fun _ => safe_store _) fun _ => safe_pure trivial

theorem skipBytes_safe (len : Nat) : Safe cap f (skipBytes stop len) fun _ => True :=
  safe_get.bind fun _ _ => .ite (fun _ => safe_set _) fun _ => safe_throw

/-- A parameter that is a number, and what is stored of it. -/
theorem uintField_safe (h : stop ≤ f.length) {bitmap b width bit : Nat}
    {g : Nat → Params → Params} : Safe cap f (whenBit bitmap b do
      let v ← parseUint width stop bit
      store (g v)) fun _ => True :=
  .whenBit ((parseUint_safe h width bit).bind fun _ _ => safe_store _)

variable {base size bitmap nameLen : Nat} {heap : Nat → Bool} {server : ServerClock}

theorem locatePascal_safe (h : base + size ≤ f.length) (offset : Nat) :
    Safe cap f (locatePascal base size offset) fun src => src.1 + src.2 ≤ f.length := by
  refine .ite (fun _ => safe_throw) fun hoff => ?_
  refine (safe_read (Reads.fixed_byte (by omega))).bind fun c _ => ?_
  refine .ite (fun hn => safe_pure ?_) fun _ => safe_throw
  exact Nat.le_trans (needBytes_iff.1 hn) h

theorem locateAfpname_safe (h : base + size ≤ f.length) (offset : Nat) :
    Safe cap f (locateAfpname base size offset) fun src => src.1 + src.2 ≤ f.length := by
  refine .ite (fun _ => safe_throw) fun hoff => ?_
  refine (safe_read (Reads.fixed_nat (by omega))).bind fun len _ => ?_
  refine .ite (fun hn => safe_pure ?_) fun _ => safe_throw
  exact Nat.le_trans (needBytes_iff.1 hn) h

theorem storeName_safe {encoding : PathEncoding} {src : Nat × Nat} (h : src.1 + src.2 ≤ f.length) :
    Safe cap f (storeName heap encoding nameLen src) fun _ => True := by
  refine safe_get.bind fun s _ => ?_
  cases s.name with
  | none => exact safe_pure trivial
  | some old =>
    refine (safe_read (Reads.fixed_bytes h)).bind fun b _ => ?_
    cases convertNameToUnix heap encoding b nameLen with
    | none => exact safe_throw
    | some name => exact safe_set _

/-! ## The parse -/

theorem commonFields_safe (h : base + size ≤ f.length) :
    Safe cap f (commonFields heap server base size bitmap nameLen) fun _ => True := by
  refine (uintField_safe h).then ?_
  refine (uintField_safe h).then ?_
  refine (Safe.whenBit (parseDate_safe h)).then ?_
  refine (Safe.whenBit (parseDate_safe h)).then ?_
  refine (Safe.whenBit (skipBytes_safe _)).then ?_
  refine (Safe.whenBit ((parseBytes_safe h _).bind fun _ _ => safe_store _)).then ?_
  refine (Safe.whenBit ?_).then ?_
  · refine (parseUint_safe h _ _).bind fun offset _ => ?_
    exact (locatePascal_safe h offset).bind fun _ hsrc => storeName_safe hsrc
  refine (Safe.whenBit (skipBytes_safe _)).then ?_
  exact uintField_safe h

theorem dirFields_safe (h : stop ≤ f.length) : Safe cap f (dirFields stop bitmap) fun _ => True := by
  refine (uintField_safe h).then ?_
  refine (uintField_safe h).then ?_
  refine (uintField_safe h).then ?_
  exact Safe.whenBit (skipBytes_safe _)

theorem fileFields_safe (h : stop ≤ f.length) : Safe cap f (fileFields stop bitmap) fun _ => True := by
  refine (uintField_safe h).then ?_
  refine (uintField_safe h).then ?_
  refine (uintField_safe h).then ?_
  exact Safe.whenBit (skipBytes_safe _)

theorem lastFields_safe (h : base + size ≤ f.length) :
    Safe cap f (lastFields heap base size bitmap nameLen) fun _ => True := by
  refine (Safe.whenBit ?_).then ?_
  · refine (parseUint_safe h _ _).bind fun offset _ => (skipBytes_safe _).then ?_
    exact (locateAfpname_safe h offset).bind fun _ hsrc => storeName_safe hsrc
  refine (uintField_safe h).then ?_
  exact Safe.whenBit ((parseBytes_safe h _).bind fun _ _ => safe_store _)

/-- A block within the frame is parsed in the same way whatever stands behind the frame. -/
theorem parseReplyBlock_fixed (h : base + size ≤ f.length) {isdir : Bool}
    {filebitmap dirbitmap : Nat} {name : Option Name} : Reads.Fixed cap f
      (parseReplyBlock heap server base size isdir filebitmap dirbitmap name nameLen) := by
  have hfields (bitmap : Nat) : Safe cap f (do
      commonFields heap server base size bitmap nameLen
      (if isdir then dirFields (base + size) bitmap else fileFields (base + size) bitmap)
      lastFields heap base size bitmap nameLen) fun _ => True := by
    refine (commonFields_safe h).then (Safe.then ?_ (lastFields_safe h))
    exact .ite (fun _ => dirFields_safe h) fun _ => fileFields_safe h
  obtain ⟨r, s, hrun, -⟩ := hfields (if isdir then dirbitmap else filebitmap)
    ⟨base, clearedParams isdir, name.map fun name => if 0 < nameLen then [] else name⟩
  exact ⟨_, fun l hl => Reads.bind_ok (hrun l hl)⟩

end NC
