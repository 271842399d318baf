import Mathlib.Data.Nat.Bitwise
import NetatalkClient.Model.Replies

/-!
# Dates there and back

An AFP date is a signed number of seconds from 2000 (`secondsOf`), and an AFP 2 server's dates are
its local time, off by what the reply to FPGetSrvrParms told. `afp_date_to_unix` and
`afp_date_from_unix` are the inverse of each other, and the latter gives the nearest date there is
(`DatesRight`), as long as the offset stays within what its first clamp allows for
(`datesRight_iff`).
-/

namespace NC

/-- The date that does not stand for a time. -/
abbrev unsetDate : Nat := 0x80000000

/-- The seconds from 2000 that a date on the wire stands for. -/
def secondsOf (date : Nat) : Int := if date < 2 ^ 31 then date else date - 2 ^ 32

/-- A date on the wire that is set. -/
def IsDate (date : Nat) : Prop := date < 2 ^ 32 ∧ date ≠ unsetDate

namespace ServerClock

/-- The offset of the server's dates. -/
def shift (server : ServerClock) : Int := if server.usesLocalTime then server.timeOffset else 0

/-- What the server's clock shows at a time, in seconds from 2000. -/
def dateAt (server : ServerClock) (t : Int) : Int := t - adDateDelta + server.shift

/-- The conversions of a server's dates are right. -/
structure DatesRight (server : ServerClock) : Prop where
  isDate : ∀ t, IsDate (afpDateFromUnix (some server) t)
  nearest : ∀ t date, IsDate date →
    (secondsOf (afpDateFromUnix (some server) t) - server.dateAt t).natAbs ≤
      (secondsOf date - server.dateAt t).natAbs
  comesBack : ∀ date, IsDate date →
    afpDateFromUnix (some server) (afpDateToUnix (some server) date) = date
  fromUnix_mono : ∀ t t', t ≤ t' →
    secondsOf (afpDateFromUnix (some server) t) ≤ secondsOf (afpDateFromUnix (some server) t')
  toUnix_mono : ∀ date date', date < 2 ^ 32 → date' < 2 ^ 32 → secondsOf date ≤ secondsOf date' →
    afpDateToUnix (some server) date ≤ afpDateToUnix (some server) date'

variable {server : ServerClock} {date : Nat}

theorem and_signBit (h : date < 2 ^ 32) : date &&& 0x80000000 ≠ 0 ↔ 2 ^ 31 ≤ date := by
  rw [show 0x80000000 = 2 ^ 31 from rfl, Nat.and_two_pow, Nat.testBit_eq_decide_div_mod_eq]
  by_cases hd : date / 2 ^ 31 % 2 = 1
  · simp only [hd, decide_true, Bool.toNat_true]
    omega
  · simp only [hd, decide_false, Bool.toNat_false]
    omega

theorem afpDateToUnix_eq (server : Option ServerClock) (h : date < 2 ^ 32) :
    afpDateToUnix server date = secondsOf date + adDateDelta - (server.map shift).getD 0 := by
  have hs : (if date &&& 0x80000000 ≠ 0 then (date : Int) - 0x100000000 else date) =
      secondsOf date := by
    simp only [and_signBit h, secondsOf]
    split <;> split <;> omega
  unfold afpDateToUnix
  rw [hs]
  cases server with
  | none => simp
  | some server =>
    simp only [Option.map_some, Option.getD_some, shift]
    split <;> omega

/-- The clamps on the way to a date. -/
theorem secondsOf_afpDateFromUnix (server : ServerClock) (t : Int) :
    secondsOf (afpDateFromUnix (some server) t) =
      max (-2 ^ 31 + 1) (min (2 ^ 31 - 1) (server.dateAt (max (-2 ^ 32) (min (2 ^ 32) t)))) ∧
    IsDate (afpDateFromUnix (some server) t) := by
  have hshift (x : Int) : (if server.usesLocalTime then x + server.timeOffset else x) =
      x + server.shift := by
    unfold shift
    split <;> omega
  simp only [afpDateFromUnix, hshift, dateAt, secondsOf, IsDate, unsetDate]
  split <;> split <;> (try split) <;> omega

theorem secondsOf_inj {date' : Nat} (h : date < 2 ^ 32) (h' : date' < 2 ^ 32)
    (e : secondsOf date = secondsOf date') : date = date' := by
  unfold secondsOf at e
  split at e <;> split at e <;> omega

/-- The first clamp lets the times of all dates pass. -/
theorem datesRight_iff : server.DatesRight ↔ (server.shift - adDateDelta).natAbs ≤ 2 ^ 31 + 1 := by
  have hfrom := secondsOf_afpDateFromUnix server
  have hto (date : Nat) (h : date < 2 ^ 32) : afpDateToUnix (some server) date =
    secondsOf date + adDateDelta - server.shift := afpDateToUnix_eq (some server) h
  have hle (date : Nat) (h : IsDate date) :
      -2 ^ 31 + 1 ≤ secondsOf date ∧ secondsOf date ≤ 2 ^ 31 - 1 := by
    obtain ⟨hlt, hne⟩ := h
    simp only [secondsOf, unsetDate] at hne ⊢
    split <;> omega
  constructor
  · -- so the last date comes back, and the first
    intro h
    have hlast := h.comesBack (2 ^ 31 - 1) ⟨by decide, by decide⟩
    have hfirst := h.comesBack (2 ^ 31 + 1) ⟨by decide, by decide⟩
    rw [hto _ (by decide)] at hlast hfirst
    have elast := (hfrom (secondsOf (2 ^ 31 - 1) + adDateDelta - server.shift)).1
    have efirst := (hfrom (secondsOf (2 ^ 31 + 1) + adDateDelta - server.shift)).1
    rw [hlast] at elast
    rw [hfirst] at efirst
    simp only [secondsOf, dateAt] at elast efirst
    omega
  · intro h
    refine ⟨fun t => (hfrom t).2, fun t date hd => ?_, fun date hd => ?_, fun t t' ht => ?_,
      fun date date' hd hd' hle => ?_⟩
    · have := hle date hd
      rw [(hfrom t).1]
      simp only [dateAt]
      omega
    · have := hle date hd
      refine secondsOf_inj (hfrom _).2.1 hd.1 ?_
      rw [hto _ hd.1, (hfrom _).1]
      simp only [dateAt]
      omega
    · rw [(hfrom t).1, (hfrom t').1]
      simp only [dateAt]
      omega
    · rw [hto _ hd, hto _ hd']
      omega

end ServerClock

open ServerClock

section

variable {env : ReplyEnv} {size : Nat} {server server' : ServerParms} {b : Bytes} {rc : Int}
  (hsize : getsrvrparmsHeaderSize ≤ size) (h : getsrvrparmsReply env size server b = .ok (rc, server'))

include hsize h

/-- The times that a reply to FPGetSrvrParms sets, whatever becomes of its volumes. -/
theorem getsrvrparmsReply_clock :
    server'.clock.shift = if server.clock.usesLocalTime
      then secondsOf (beNat ((b.drop 16).take 4)) + adDateDelta - env.now else 0 := by
  unfold getsrvrparmsReply at h
  rw [if_neg (Nat.not_lt.2 hsize)] at h
  obtain ⟨time, htime, h⟩ := Reads.of_bind h
  obtain rfl := Reads.of_nat htime
  have hlt : beNat ((b.drop 16).take 4) < 2 ^ 32 := Nat.lt_of_lt_of_le (beNat_lt _)
    (Nat.pow_le_pow_right (by decide) (List.length_take_le 4 _))
  rw [afpDateToUnix_eq none hlt] at h
  dsimp only at h
  generalize hc : (if server.clock.usesLocalTime = true then _ else _ : ServerClock) = clock at h
  -- what follows only sets the volumes
  have hclock : server'.clock = clock := by
    obtain ⟨numvolumes, -, h⟩ := Reads.of_bind h
    split at h
    · cases h
      rfl
    obtain ⟨volumes, -, h⟩ := Reads.of_bind h
    cases volumes <;> cases h <;> rfl
  rw [hclock, ← hc]
  by_cases hl : server.clock.usesLocalTime = true
  · rw [if_pos hl, if_pos hl]
    exact (if_pos hl).trans (by simp)
  · rw [if_neg hl, if_neg hl]
    exact if_neg hl

/-- The conversions are right after a reply if the server's dates are not its local time, and else
if the seconds from 2000 that it shows are within 2^31 + 1 of the client's seconds from 1970. -/
theorem dates_right_iff :
    server'.clock.DatesRight ↔ (server.clock.usesLocalTime = true →
      (secondsOf (beNat ((b.drop 16).take 4)) - env.now).natAbs ≤ 2 ^ 31 + 1) := by
  rw [datesRight_iff, getsrvrparmsReply_clock hsize h]
  split
  · next hl =>
    simp only [hl, forall_const]
    omega
  · next hl => exact iff_of_true (by decide) fun e => absurd e hl

end

/-- The reply, without volumes, of a server that shows a date. -/
def parmsShowing (date : Nat) : Bytes := List.replicate 16 0 ++ natBe 4 date ++ [0]

/-- A client on the 14th of November 2023. -/
def novemberEnv : ReplyEnv := ⟨fun _ => true, true, 1700000000⟩

/-- An AFP 2 server with a clock twelve hours ahead. -/
theorem dates_right_iff_ahead : ∃ server',
    getsrvrparmsReply novemberEnv 21 ⟨⟨22, 0, 0⟩, []⟩ (parmsShowing 753358400) = .ok (0, server') ∧
      server'.clock.DatesRight :=
  ⟨_, rfl, (@dates_right_iff novemberEnv 21 ⟨⟨22, 0, 0⟩, []⟩ _ (parmsShowing 753358400) 0 (by decide)
    rfl).2 (by decide +kernel)⟩

/-- An AFP 2 server that shows no date puts those of this century out of the reach of the clamp. -/
theorem unset_date_of_server : ∃ server',
    getsrvrparmsReply novemberEnv 21 ⟨⟨22, 0, 0⟩, []⟩ (parmsShowing unsetDate) = .ok (0, server') ∧
      afpDateFromUnix (some server'.clock) (afpDateToUnix (some server'.clock) 500000000) =
        447483648 :=
  ⟨_, rfl, by decide +kernel⟩

end NC
