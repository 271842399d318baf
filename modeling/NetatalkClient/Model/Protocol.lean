import NetatalkClient.Framework.Lists
import NetatalkClient.Framework.Machine
import NetatalkClient.Framework.Prog
import NetatalkClient.Framework.Reads

/-!
# Constants of the protocol and of the system

The AFP result codes and bitmap bits of `afp_protocol.h`, the `errno` values
of Linux, and the byte strings that names and paths are.
-/

namespace NC

/-! ## AFP result codes -/

abbrev kFPNoErr : Int := 0
abbrev kFPAccessDenied : Int := -5000
abbrev kFPAuthContinue : Int := -5001
abbrev kFPBitmapErr : Int := -5004
abbrev kFPCantMove : Int := -5005
abbrev kFPDenyConflict : Int := -5006
abbrev kFPDirNotEmpty : Int := -5007
abbrev kFPDiskFull : Int := -5008
abbrev kFPEOFErr : Int := -5009
abbrev kFPFileBusy : Int := -5010
abbrev kFPFlatVol : Int := -5011
abbrev kFPItemNotFound : Int := -5012
abbrev kFPLockErr : Int := -5013
abbrev kFPRangeNotLocked : Int := -5020
abbrev kFPMiscErr : Int := -5014
abbrev kFPNoMoreLocks : Int := -5015
abbrev kFPObjectExists : Int := -5017
abbrev kFPObjectNotFound : Int := -5018
abbrev kFPParamErr : Int := -5019
abbrev kFPUserNotAuth : Int := -5023
abbrev kFPCallNotSupported : Int := -5024
abbrev kFPObjectTypeErr : Int := -5025
abbrev kFPTooManyFilesOpen : Int := -5026
abbrev kFPCantRename : Int := -5028
abbrev kFPDirNotFound : Int := -5029
abbrev kFPVolLocked : Int := -5031
abbrev kFPObjectLocked : Int := -5032
abbrev kFPSameObjectErr : Int := -5038

/-! ## Errors of the system -/

abbrev EPERM : Int := 1
abbrev ENOENT : Int := 2
/-- `EIO`, which is the name of a monad of Lean's. -/
abbrev EIO_ : Int := 5
abbrev E2BIG : Int := 7
abbrev EBADF : Int := 9
abbrev ENOMEM : Int := 12
abbrev EACCES : Int := 13
abbrev EFAULT : Int := 14
abbrev EBUSY : Int := 16
abbrev EEXIST : Int := 17
abbrev ENOTDIR : Int := 20
abbrev EISDIR : Int := 21
abbrev EINVAL : Int := 22
abbrev EMFILE : Int := 24
abbrev EFBIG : Int := 27
abbrev ENOSPC : Int := 28
abbrev EROFS : Int := 30
abbrev ERANGE : Int := 34
abbrev ENAMETOOLONG : Int := 36
abbrev ENOSYS : Int := 38
abbrev ENOTEMPTY : Int := 39
abbrev ENOATTR : Int := 61
abbrev EOVERFLOW : Int := 75
abbrev EOPNOTSUPP : Int := 95
abbrev ETIMEDOUT : Int := 110

/-! ## Bitmaps and limits -/

abbrev kFPNodeIDBit : Nat := 0x100

/-! The other bits that the file and directory bitmaps share, and those of one
of them. -/

abbrev kFPAttributeBit : Nat := 0x1
abbrev kFPParentDirIDBit : Nat := 0x2
abbrev kFPCreateDateBit : Nat := 0x4
abbrev kFPModDateBit : Nat := 0x8
abbrev kFPFinderInfoBit : Nat := 0x20
abbrev kFPLongNameBit : Nat := 0x40
abbrev kFPShortNameBit : Nat := 0x80
abbrev kFPUTF8NameBit : Nat := 0x2000
abbrev kFPUnixPrivsBit : Nat := 0x8000
abbrev kFPOffspringCountBit : Nat := 0x200
abbrev kFPOwnerIDBit : Nat := 0x400
abbrev kFPGroupIDBit : Nat := 0x800
abbrev kFPDataForkLenBit : Nat := 0x200
abbrev kFPRsrcForkLenBit : Nat := 0x400
abbrev kFPExtDataForkLenBit : Nat := 0x800
abbrev kFPExtRsrcForkLenBit : Nat := 0x4000

/-! The volume attributes and the client's own flags of a volume. -/

abbrev kReadOnly : Nat := 0x01
abbrev kSupportsUTF8Names : Nat := 0x40
abbrev kNoExchangeFiles : Nat := 0x200
abbrev kSupportsExtAttrs : Nat := 0x400

abbrev VOLUME_EXTRA_FLAGS_SHOW_APPLEDOUBLE : Nat := 0x4
abbrev VOLUME_EXTRA_FLAGS_VOL_SUPPORTS_UNIX : Nat := 0x8
abbrev VOLUME_EXTRA_FLAGS_NO_LOCKING : Nat := 0x10
abbrev VOLUME_EXTRA_FLAGS_IGNORE_UNIXPRIVS : Nat := 0x20
abbrev VOLUME_EXTRA_FLAGS_READONLY : Nat := 0x40
abbrev VOLUME_EXTRA_FLAGS_FLUSH_ON_CLOSE : Nat := 0x80

/-- The ID of a volume's root folder, `AFP_ROOT_DID`. -/
abbrev rootDid : Nat := 2

/-- `AFPC_MAX_NAME_BYTES`: the longest name's bytes and its terminator. -/
abbrev maxNameBytes : Nat := 255 * 4 + 1

abbrev maxUtf8PathBytes : Nat := 65535

/-! ## Byte strings -/

abbrev Bytes := List UInt8

/-- A path's bytes, without the terminator. -/
abbrev Path := Bytes

abbrev Name := Bytes

abbrev slash : UInt8 := 47
abbrev colon : UInt8 := 58

/-- Split a path at its last slash, `strrchr(path, '/')`: what stands before the
slash and what stands after it. -/
def splitLast : Path → Option (Path × Name)
  | [] => none
  | c :: cs =>
    match splitLast cs with
    | some (p, n) => some (c :: p, n)
    | none => if c = slash then some ([], cs) else none

theorem splitLast_eq {p q : Path} {n : Name} (h : splitLast p = some (q, n)) :
    p = q ++ slash :: n := by
  induction p generalizing q with
  | nil => cases h
  | cons c cs ih =>
    simp only [splitLast] at h
    split at h
    · rename_i p' n' hs
      simp only [Option.some.injEq, Prod.mk.injEq] at h
      obtain ⟨rfl, rfl⟩ := h
      rw [ih hs, List.cons_append]
    · split at h
      · rename_i hc
        simp only [Option.some.injEq, Prod.mk.injEq] at h
        obtain ⟨rfl, rfl⟩ := h
        rw [hc, List.nil_append]
      · cases h

end NC
