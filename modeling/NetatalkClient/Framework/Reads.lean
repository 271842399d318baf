import NetatalkClient.Framework.Bytes
import NetatalkClient.Framework.CString

/-!
# Code that reads a buffer at positions

`Reads α` is code that reads a buffer and returns an `α`, or ends in a fault. `byte i`, `bytes i n`
and `nat i n` read at a position; a read outside the buffer is the fault `outside`.

A frame stands at the start of its buffer, with what earlier frames left behind it. A read that
returns when it is given the frame alone returns the same whatever stands behind (`Reads.Stable`).
`Reads.Fixed` says this of code in all buffers of some size, and composes: a read within the frame is
fixed, and so is what follows it (`Reads.Fixed.bind`, `Reads.Fixed.after`).

`BytesAt b i s` says that the bytes `s` stand at position `i` of `b`.
-/

namespace NC

open List

/-- Code that reads a buffer. -/
abbrev Reads (α : Type) := ReaderT (List UInt8) Scan α

namespace Reads

variable {α β : Type} {i n : Nat}

/-- The byte at a position. -/
def byte (i : Nat) : Reads UInt8 := fun b =>
  match b[i]? with
  | some c => .ok c
  | none => .error .outside

/-- `n` bytes from a position on. -/
def bytes (i n : Nat) : Reads (List UInt8) := fun b =>
  if b.length < i + n then .error .outside else .ok ((b.drop i).take n)

/-- The number in `n` bytes from a position on, the most significant first. -/
def nat (i n : Nat) : Reads Nat := return beNat (← bytes i n)

theorem bind_run (r : Reads α) (k : α → Reads β) (b : List UInt8) :
    (r >>= k) b = r b >>= fun a => k a b := rfl

theorem bind_ok {r : Reads α} {k : α → Reads β} {b : List UInt8} {a : α} (h : r b = .ok a) :
    (r >>= k) b = k a b := by
  rw [bind_run, h]
  rfl

theorem of_bind {r : Reads α} {k : α → Reads β} {b : List UInt8} {c : β} (h : (r >>= k) b = .ok c) :
    ∃ a, r b = .ok a ∧ k a b = .ok c := by
  rw [bind_run] at h
  cases hr : r b with
  | error e =>
    rw [hr] at h
    cases h
  | ok a =>
    rw [hr] at h
    exact ⟨a, rfl, h⟩

theorem of_nat {v : Nat} {b : List UInt8} (h : nat i n b = .ok v) :
    v = beNat ((b.drop i).take n) := by
  obtain ⟨s, hs, hv⟩ := of_bind h
  simp only [bytes] at hs
  split at hs
  · cases hs
  · rw [← Except.ok.inj hv, Except.ok.inj hs]

/-! ## Frames and what stands behind them -/

/-- What the code returns for a buffer it returns for every longer one. -/
def Stable (r : Reads α) : Prop := ∀ b l a, r b = .ok a → r (b ++ l) = .ok a

theorem stable_byte (i : Nat) : Stable (byte i) := by
  intro b l c h
  simp only [byte] at h ⊢
  cases hb : b[i]? with
  | none =>
    rw [hb] at h
    cases h
  | some d =>
    rw [hb] at h
    rw [List.getElem?_append_left (List.getElem?_eq_some_iff.1 hb).1, hb]
    exact h

theorem stable_bytes (i n : Nat) : Stable (bytes i n) := by
  intro b l s h
  simp only [bytes] at h ⊢
  split at h
  · cases h
  · next hlen =>
    rw [if_neg (by simp; omega), ← h, drop_append_of_le_length (by omega),
      take_append_of_le_length (by simp; omega)]

/-! Reads that stay within the frame. -/

theorem bytes_frame {f : List UInt8} (h : i + n ≤ f.length) (l : List UInt8) :
    bytes i n (f ++ l) = .ok ((f.drop i).take n) := by
  apply stable_bytes
  rw [bytes, if_neg (by omega)]

theorem nat_frame {f : List UInt8} (h : i + n ≤ f.length) (l : List UInt8) :
    nat i n (f ++ l) = .ok (beNat ((f.drop i).take n)) := by
  rw [nat, bind_ok (bytes_frame h l)]
  rfl

theorem byte_frame {f : List UInt8} (h : i < f.length) (l : List UInt8) :
    byte i (f ++ l) = .ok f[i] := by
  apply stable_byte
  simp [byte, h]

/-! Code that returns the same whatever stands behind the frame. -/

/-- In every buffer of at least `cap` bytes that starts with the frame, the code returns one and the
same value. -/
def Fixed (cap : Nat) (f : List UInt8) (r : Reads α) : Prop :=
  ∃ a, ∀ l, cap ≤ (f ++ l).length → r (f ++ l) = .ok a

section Fixed

variable {cap : Nat} {f : List UInt8} {r : Reads α} {k : α → Reads β}

theorem fixed_pure (a : α) : Fixed cap f (pure a : Reads α) := ⟨a, fun _ _ => rfl⟩

theorem Fixed.bind (hr : Fixed cap f r)
    (hk : ∀ a, (∀ l, cap ≤ (f ++ l).length → r (f ++ l) = .ok a) → Fixed cap f (k a)) :
    Fixed cap f (r >>= k) := by
  obtain ⟨a, ha⟩ := hr
  obtain ⟨c, hc⟩ := hk a ha
  exact ⟨c, fun l hl => (bind_ok (ha l hl)).trans (hc l hl)⟩

theorem Fixed.ite {c : Prop} [Decidable c] {q : Reads α} (hr : c → Fixed cap f r)
    (hq : ¬c → Fixed cap f q) : Fixed cap f (if c then r else q) := by
  split
  · exact hr ‹c›
  · exact hq ‹¬c›

theorem fixed_byte (h : i < f.length) : Fixed cap f (byte i) :=
  ⟨_, fun l _ => byte_frame h l⟩

theorem fixed_bytes (h : i + n ≤ f.length) : Fixed cap f (bytes i n) :=
  ⟨_, fun l _ => bytes_frame h l⟩

theorem fixed_nat (h : i + n ≤ f.length) : Fixed cap f (nat i n) :=
  ⟨_, fun l _ => nat_frame h l⟩

end Fixed

end Reads

/-! ## Bytes at a position -/

/-- The bytes `s` stand at position `i`. -/
def BytesAt (b : List UInt8) (i : Nat) (s : List UInt8) : Prop :=
  ∃ p r, b = p ++ s ++ r ∧ p.length = i

namespace BytesAt

variable {b s t : List UInt8} {i n : Nat} {c : UInt8}

theorem left (h : BytesAt b i (s ++ t)) : BytesAt b i s := by
  obtain ⟨p, r, rfl, hp⟩ := h
  exact ⟨p, t ++ r, by simp, hp⟩

theorem right (h : BytesAt b i (s ++ t)) : BytesAt b (i + s.length) t := by
  obtain ⟨p, r, rfl, hp⟩ := h
  exact ⟨p ++ s, r, by simp, by simp [hp]⟩

theorem tail (h : BytesAt b i (c :: t)) : BytesAt b (i + 1) t :=
  right (s := [c]) h

theorem append (h : BytesAt b i s) (l : List UInt8) : BytesAt (b ++ l) i s := by
  obtain ⟨p, r, rfl, hp⟩ := h
  exact ⟨p, r ++ l, by simp, hp⟩

theorem length_le (h : BytesAt b i s) : i + s.length ≤ b.length := by
  obtain ⟨p, r, rfl, rfl⟩ := h
  simp only [length_append]
  omega

theorem byte_eq (h : BytesAt b i (c :: t)) : Reads.byte i b = .ok c := by
  obtain ⟨p, r, rfl, rfl⟩ := h
  simp [Reads.byte]

theorem bytes_eq (h : BytesAt b i s) : Reads.bytes i s.length b = .ok s := by
  have hlen := h.length_le
  obtain ⟨p, r, rfl, rfl⟩ := h
  rw [Reads.bytes, if_neg (by omega)]
  simp

theorem nat_eq (h : BytesAt b i s) : Reads.nat i s.length b = .ok (beNat s) := by
  rw [Reads.nat, Reads.bind_ok h.bytes_eq]
  rfl

end BytesAt

end NC
