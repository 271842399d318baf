import NetatalkClient.Model.Names.Codepage
import NetatalkClient.Model.Pascal

/-!
# Copies of Pascal strings

What `copyFromPascal` and `copyFromPascalTwo` leave, for a string within a frame.
-/

namespace NC

open List Reads

variable {maxLen i : Nat} {s : Bytes}

theorem copyFromPascal_frame {frame : Bytes} (left dest : Bytes) (hmax : 0 < maxLen)
    (h : i + 1 + min (beNat ((frame.drop i).take 1)) (maxLen - 1) ≤ frame.length) :
    copyFromPascal maxLen i dest (frame ++ left) = .ok (beNat ((frame.drop i).take 1),
      textBuffer maxLen
        ((frame.drop (i + 1)).take (min (beNat ((frame.drop i).take 1)) (maxLen - 1)))) := by
  have hi : i < frame.length := by omega
  have hlen : beNat ((frame.drop i).take 1) = frame[i].toNat := by
    rw [drop_eq_getElem_cons hi, take_succ_cons, take_zero]
    simp [beNat]
  rw [hlen] at h ⊢
  rw [copyFromPascal, if_neg (by omega), bind_ok (byte_frame hi left),
    copyLen_eq hmax, bind_ok (bytes_frame h left)]
  rfl

theorem copyFromPascalTwo_frame {frame : Bytes} (left dest : Bytes) (hmax : 0 < maxLen)
    (h : i + 2 + min (beNat ((frame.drop i).take 2)) (maxLen - 1) ≤ frame.length) :
    copyFromPascalTwo maxLen i dest (frame ++ left) = .ok (beNat ((frame.drop i).take 2),
      if beNat ((frame.drop i).take 2) = 0 then dest else textBuffer maxLen
        ((frame.drop (i + 2)).take (min (beNat ((frame.drop i).take 2)) (maxLen - 1)))) := by
  have hnat := nat_frame (f := frame) (i := i) (n := 2) (by omega) left
  rw [copyFromPascalTwo, if_neg (by omega), bind_ok hnat]
  by_cases h0 : beNat ((frame.drop i).take 2) = 0
  · rw [if_pos h0, if_pos h0, h0]
    rfl
  · rw [if_neg h0, if_neg h0, copyLen_eq hmax, bind_ok (bytes_frame h left)]
    rfl

end NC
