import NetatalkClient.Proof.Midlevel.PathCalls

/-!
# The names of extended attributes

`ml_listxattr` shows a name of the server with `user.` in front. The other calls take that off again,
but look at the length before they do: a name of 251 bytes or more is listed and then refused
(`listed_attribute_refused`). Exactly the shorter names that are not the two special ones reach the
server as they were (`listed_attributes_reach`).
-/

namespace NC

open List

/-- The name `ml_listxattr` shows for a name of the server. -/
def shownAttr (n : Name) : Name := userPrefix ++ n

/-- What a server with these attributes makes of the caller's 64 KiB: the length of the whole list, and
what fits of it. -/
def attrReport (names : List Name) : ExtAttr :=
  ⟨(names.flatMap (· ++ [0])).length, (names.flatMap (· ++ [0])).take 65536⟩

/-- The names of the server that are not its own. -/
def listedAttrs (names : List Name) : List Name := names.filter fun n => !netatalkMetaAttr.isPrefixOf n

/-- The list that shows them. -/
def attrList (names : List Name) : Bytes := (listedAttrs names).flatMap fun n => shownAttr n ++ [0]

/-- The call makes this one request about the entry at the path and returns `result` of the answer,
unless the entry's directory cannot be found. -/
def Asks {α β : Type} (path : Path) (request : Nat → Path → MlCall β) (result : β → α)
    (p : MlCall α) : Prop :=
  ∃ fail : Int → α, p = do
    match ← Ml.getDirid path with
    | .error e => return fail e
    | .ok (did, name) => return result (← request did name)

/-- A name that `user.` does not make too long, and that is not one of the two special ones. -/
def PlainAttr (n : Name) : Prop := n.length ≤ 250 ∧ n ≠ resourceforkAttr ∧ n ≠ finderinfoAttr

/-- When the calls on an attribute, under the name it is listed by, are the requests for the server's. -/
structure AttrReaches (vol : ServedVolume) (path : Path) (n : Name) : Prop where
  get (size : Nat) : (∃ result, Asks path (fun did name => Ml.afpGetextattr vol did 4096 name n) result
    (mlGetxattr vol path (shownAttr n) size)) ↔ PlainAttr n
  set (value : Bytes) (flags : Nat) : (∃ result, Asks path (fun did name =>
      Ml.afpSetextattr vol did (flags &&& (kXAttrCreate ||| kXAttrReplace)) name n value) result
      (mlSetxattr vol path (shownAttr n) value flags)) ↔
    PlainAttr n ∧ vol.isReadonly = false ∧ 0 ≤ validateXattrFlags flags
  remove : (∃ result, Asks path (fun did name => Ml.afpRemoveextattr vol did name n) result
    (mlRemovexattr vol path (shownAttr n))) ↔ PlainAttr n ∧ vol.isReadonly = false

/-- The list of these names: exact for every size, with the length for a size of 0. -/
def ListsAttrs (vol : ServedVolume) (path : Path) (names : List Name) : Prop :=
  ∀ size, ∃ result, Asks path (fun did name => Ml.afpListextattr vol did 65536 name) result
      (mlListxattr vol path size) ∧
    result (kFPNoErr, attrReport names) =
      if 65536 < (attrReport names).size then .error (-E2BIG)
      else if 0 < size ∧ size < (attrList names).length then .error (-ERANGE)
      else .ok ((attrList names).length, if size = 0 then [] else attrList names)

variable {vol : ServedVolume} {path : Path} {n : Name} {names : List Name}

/-! ## The calls on one attribute -/

theorem stripUserPrefix_shownAttr (n : Name) : stripUserPrefix (shownAttr n) = n := by
  have h : userPrefix.isPrefixOf (shownAttr n) = true :=
    isPrefixOf_iff_prefix.2 (prefix_append ..)
  exact drop_left

theorem normalizeXattrName_shownAttr (n : Name) :
    normalizeXattrName (shownAttr n) = if n.length ≤ 250 then .ok n else .error (-ENAMETOOLONG) := by
  have hlen : 255 < (shownAttr n).length ↔ ¬n.length ≤ 250 := by
    rw [shownAttr, length_append]
    simp only [userPrefix, length_cons, length_nil]
    omega
  simp only [normalizeXattrName, hlen, stripUserPrefix_shownAttr, ite_not]

/-- A program whose second request, once the directory is found, is about an extended attribute. -/
def asksAttr {α : Type} : MlCall α → Bool
  | .send (.did (.getDirid _)) k =>
    match k (.ok (0, [])) with
    | .send (.sys (.getExtAttr ..)) _ | .send (.sys (.setExtAttr ..)) _
    | .send (.sys (.removeExtAttr ..)) _ => true
    | _ => false
  | _ => false

section Special

variable {α : Type}

theorem asksAttr_getresourcefork {size : Nat} {position : Int} {k : ValueResult → MlCall α}
    (hk : ∀ x, asksAttr (k x) = false) :
    asksAttr (mlGetresourcefork vol path size position >>= k) = false := by
  unfold mlGetresourcefork
  cases vol.convertPath path with
  | error e => exact hk _
  | ok q =>
    simp only [llGetattr]
    split
    · exact hk _
    · rfl

theorem asksAttr_writeResourceFork {value : Bytes} {position : Int} {whole : Bool} :
    asksAttr (writeResourceFork vol path value position whole) = false := by
  unfold writeResourceFork
  split_ifs <;> rfl

theorem asksAttr_setfinderinfo {value : Bytes} : asksAttr (mlSetfinderinfo vol path value) = false := by
  unfold mlSetfinderinfo
  split_ifs <;> rfl

theorem asksAttr_setresourceforkFlags {value : Bytes} {flags : Nat} :
    asksAttr (mlSetresourceforkFlags vol path value 0 flags) = false := by
  unfold mlSetresourceforkFlags
  split_ifs
  · rfl
  · refine asksAttr_getresourcefork fun x => ?_
    dsimp only
    split_ifs
    · rfl
    · exact asksAttr_writeResourceFork
  · exact asksAttr_writeResourceFork

theorem asksAttr_setfinderinfoFlags {value : Bytes} {flags : Nat} :
    asksAttr (mlSetfinderinfoFlags vol path value flags) = false := by
  unfold mlSetfinderinfoFlags
  split_ifs
  · rfl
  · rfl
  · exact asksAttr_setfinderinfo

theorem asksAttr_removeresourcefork : asksAttr (mlRemoveresourcefork vol path) = false := by
  refine asksAttr_getresourcefork fun x => ?_
  split_ifs
  · rfl
  · exact asksAttr_writeResourceFork

end Special

section Shown

variable (hvol : HasExtAttrs vol path) (hmeta : netatalkMetaAttr.isPrefixOf n = false)

theorem isResourceforkXattr_shownAttr :
    isResourceforkXattr (shownAttr n) = true ↔ n = resourceforkAttr := by
  simp [isResourceforkXattr, stripUserPrefix_shownAttr]

theorem isFinderinfoXattr_shownAttr : isFinderinfoXattr (shownAttr n) = true ↔ n = finderinfoAttr := by
  simp [isFinderinfoXattr, stripUserPrefix_shownAttr]

include hmeta in
theorem not_isNetatalkMetaXattr_shownAttr : ¬isNetatalkMetaXattr (shownAttr n) = true := by
  simp [isNetatalkMetaXattr, stripUserPrefix_shownAttr, hmeta]

include hvol hmeta

theorem getxattr_reaches (size : Nat) :
    (∃ result, Asks path (fun did name => Ml.afpGetextattr vol did 4096 name n) result
      (mlGetxattr vol path (shownAttr n) size)) ↔ PlainAttr n := by
  have hm := not_isNetatalkMetaXattr_shownAttr hmeta
  refine ⟨fun ⟨result, fail, h⟩ => ?_, fun ⟨hlen, hfork, hfinder⟩ => ?_⟩
  · replace h : asksAttr (mlGetxattr vol path (shownAttr n) size) = true := congrArg asksAttr h
    unfold mlGetxattr at h
    split at h
    · rw [← Prog.bind_ret (mlGetresourcefork ..), asksAttr_getresourcefork fun _ => rfl] at h
      cases h
    next hfork =>
    split at h
    · cases h
    next hfinder =>
    rw [if_neg hvol.1, if_neg hvol.2, normalizeXattrName_shownAttr] at h
    refine ⟨not_not.1 fun hlen => ?_, mt isResourceforkXattr_shownAttr.2 hfork,
      mt isFinderinfoXattr_shownAttr.2 hfinder⟩
    rw [if_neg hlen] at h
    cases h
  · unfold mlGetxattr
    rw [if_neg (mt isResourceforkXattr_shownAttr.1 hfork), if_neg (mt isFinderinfoXattr_shownAttr.1 hfinder),
      if_neg hvol.1, if_neg hm, if_neg hvol.2, normalizeXattrName_shownAttr, if_pos hlen]
    exact ⟨_, _, rfl⟩

theorem setxattr_reaches (value : Bytes) (flags : Nat) : (∃ result, Asks path (fun did name =>
      Ml.afpSetextattr vol did (flags &&& (kXAttrCreate ||| kXAttrReplace)) name n value) result
      (mlSetxattr vol path (shownAttr n) value flags)) ↔
    PlainAttr n ∧ vol.isReadonly = false ∧ 0 ≤ validateXattrFlags flags := by
  have hm := not_isNetatalkMetaXattr_shownAttr hmeta
  refine ⟨fun ⟨result, fail, h⟩ => ?_, fun ⟨⟨hlen, hfork, hfinder⟩, hw, hflags⟩ => ?_⟩
  · replace h : asksAttr (mlSetxattr vol path (shownAttr n) value flags) = true := congrArg asksAttr h
    unfold mlSetxattr at h
    split at h
    · cases h
    next hflags =>
    split at h
    · simp [asksAttr_setresourceforkFlags] at h
    next hfork =>
    split at h
    · simp [asksAttr_setfinderinfoFlags] at h
    next hfinder =>
    split at h
    · cases h
    next hw =>
    rw [if_neg hvol.1, if_neg hvol.2, normalizeXattrName_shownAttr] at h
    refine ⟨⟨not_not.1 fun hlen => ?_, mt isResourceforkXattr_shownAttr.2 hfork,
      mt isFinderinfoXattr_shownAttr.2 hfinder⟩, by simpa using hw, Int.not_lt.1 hflags⟩
    rw [if_neg hlen] at h
    cases h
  · unfold mlSetxattr
    rw [if_neg (Int.not_lt.2 hflags), if_neg (mt isResourceforkXattr_shownAttr.1 hfork),
      if_neg (mt isFinderinfoXattr_shownAttr.1 hfinder), if_neg (by simp [hw]), if_neg hvol.1,
      if_neg hm, if_neg hvol.2, normalizeXattrName_shownAttr, if_pos hlen]
    exact ⟨_, _, rfl⟩

theorem removexattr_reaches :
    (∃ result, Asks path (fun did name => Ml.afpRemoveextattr vol did name n) result
      (mlRemovexattr vol path (shownAttr n))) ↔ PlainAttr n ∧ vol.isReadonly = false := by
  have hm := not_isNetatalkMetaXattr_shownAttr hmeta
  refine ⟨fun ⟨result, fail, h⟩ => ?_, fun ⟨⟨hlen, hfork, hfinder⟩, hw⟩ => ?_⟩
  · replace h : asksAttr (mlRemovexattr vol path (shownAttr n)) = true := congrArg asksAttr h
    unfold mlRemovexattr at h
    split at h
    · simp [asksAttr_removeresourcefork] at h
    next hfork =>
    split at h
    · simp [mlRemovefinderinfo, asksAttr_setfinderinfo] at h
    next hfinder =>
    split at h
    · cases h
    next hw =>
    rw [if_neg hvol.1, if_neg hvol.2, normalizeXattrName_shownAttr] at h
    refine ⟨⟨not_not.1 fun hlen => ?_, mt isResourceforkXattr_shownAttr.2 hfork,
      mt isFinderinfoXattr_shownAttr.2 hfinder⟩, by simpa using hw⟩
    rw [if_neg hlen] at h
    cases h
  · unfold mlRemovexattr
    rw [if_neg (mt isResourceforkXattr_shownAttr.1 hfork), if_neg (mt isFinderinfoXattr_shownAttr.1 hfinder),
      if_neg (by simp [hw]), if_neg hvol.1, if_neg hm, if_neg hvol.2, normalizeXattrName_shownAttr,
      if_pos hlen]
    exact ⟨_, _, rfl⟩

end Shown

/-! ## The list -/

theorem listXattrNames_cons {size fuel : Nat} {rest list : Bytes} (hne : n ≠ []) (hnul : 0 ∉ n) :
    listXattrNames size (fuel + 1) (n ++ 0 :: rest) list =
      if netatalkMetaAttr.isPrefixOf n then listXattrNames size fuel rest list
      else
        match appendListedXattrName size list n with
        | .error e => .error e
        | .ok list => listXattrNames size fuel rest list := by
  have hname : (n ++ 0 :: rest).takeWhile (· != 0) = n := by
    rw [takeWhile_append_of_pos]
    · simp
    · intro b hb
      simpa using fun h : b = 0 => hnul (h ▸ hb)
  have hlen : ¬n.length = (n ++ 0 :: rest).length := by
    rw [length_append, length_cons]
    omega
  have hdrop : (n ++ 0 :: rest).drop (n.length + 1) = rest := by
    rw [← drop_drop, drop_left]
    rfl
  cases happ : appendListedXattrName size list n <;>
    simp [listXattrNames, hname, if_neg hne, happ]

variable (hnames : ∀ n ∈ names, n ≠ [] ∧ 0 ∉ n ∧ n.length ≤ 255)

include hnames in
/-- The loop over all of them, from a list that fits. -/
theorem listXattrNames_report {size fuel : Nat}
    (hfuel : (names.flatMap (· ++ [0])).length ≤ fuel) {list : Bytes}
    (hlist : size = 0 ∨ list.length ≤ size) :
    listXattrNames size fuel (names.flatMap (· ++ [0])) list =
      if 0 < size ∧ size < (list ++ attrList names).length then .error (-ERANGE)
      else .ok (list ++ attrList names) := by
  induction names generalizing fuel list with
  | nil =>
    have hfits : ¬(0 < size ∧ size < (list ++ attrList []).length) := by
      simp only [attrList, listedAttrs, filter_nil, flatMap_nil, append_nil]
      omega
    rw [if_neg hfits]
    cases fuel <;> simp [listXattrNames, attrList, listedAttrs]
  | cons n names ih =>
    obtain ⟨⟨hne, hnul, hlen⟩, hrest⟩ := forall_mem_cons.1 hnames
    rw [flatMap_cons, length_append, length_append, length_singleton] at hfuel
    obtain ⟨fuel, rfl⟩ : ∃ k, fuel = k + 1 := ⟨fuel - 1, by omega⟩
    rw [flatMap_cons, append_assoc, singleton_append, listXattrNames_cons hne hnul]
    cases hmeta : netatalkMetaAttr.isPrefixOf n with
    | true =>
      have hskip : attrList (n :: names) = attrList names := by simp [attrList, listedAttrs, hmeta]
      rw [hskip]
      exact ih hrest (by omega) hlist
    | false =>
      have hshow : attrList (n :: names) = shownAttr n ++ [0] ++ attrList names := by
        simp [attrList, listedAttrs, hmeta]
      rw [hshow, ← append_assoc]
      simp only [appendListedXattrName, if_neg (Nat.not_lt.2 hlen), Bool.false_eq_true, if_false]
      by_cases hroom : 0 < size ∧ size < list.length + (userPrefix ++ n ++ [0]).length
      · have hcut : 0 < size ∧ size < (list ++ (shownAttr n ++ [0]) ++ attrList names).length := by
          rw [length_append, length_append]
          exact ⟨hroom.1, by unfold shownAttr; omega⟩
        rw [if_pos hroom, if_pos hcut]
      · rw [if_neg hroom]
        refine ih hrest (by omega) ?_
        rw [length_append]
        omega

/-- The prefix makes a list at most six times as long. -/
theorem attrList_length_le (names : List Name) :
    (attrList names).length ≤ 6 * (names.flatMap (· ++ [0])).length := by
  induction names with
  | nil => exact Nat.zero_le _
  | cons n names ih =>
    simp only [attrList, listedAttrs, filter_cons] at ih ⊢
    split
    · simp only [flatMap_cons, length_append, shownAttr, userPrefix, length_cons] at ih ⊢
      omega
    · simp only [flatMap_cons, length_append] at ih ⊢
      omega

include hnames in
theorem listedXattrs_report (size : Nat) :
    listedXattrs size (attrReport names) =
      if 65536 < (attrReport names).size then .error (-E2BIG)
      else if 0 < size ∧ size < (attrList names).length then .error (-ERANGE)
      else .ok ((attrList names).length, if size = 0 then [] else attrList names) := by
  have hlong := attrList_length_le names
  by_cases hbig : 65536 < (attrReport names).size
  · have hcut : (attrReport names).data.length < (attrReport names).size := by
      simp only [attrReport, length_take] at hbig ⊢
      omega
    rw [if_pos hbig, listedXattrs, if_pos hcut]
  · have hall : attrReport names = ⟨(names.flatMap (· ++ [0])).length, names.flatMap (· ++ [0])⟩ := by
      rw [attrReport, take_of_length_le (Nat.not_lt.1 hbig)]
    have hint : ¬intMax31 < (attrList names).length := by
      simp only [attrReport, intMax31] at hbig ⊢
      omega
    rw [if_neg hbig, hall, listedXattrs, if_neg (Nat.lt_irrefl _),
      listXattrNames_report hnames (Nat.le_refl _) (Or.inr (Nat.zero_le size)), nil_append]
    by_cases hcut : 0 < size ∧ size < (attrList names).length
    · rw [if_pos hcut, if_pos hcut]
    · rw [if_neg hcut, if_neg hcut]
      exact if_neg hint

include hnames in
theorem listsAttrs (hvol : HasExtAttrs vol path) : ListsAttrs vol path names := by
  intro size
  refine ⟨fun x => if x.1 = kFPNoErr then listedXattrs size x.2
      else if x.1 = kFPAccessDenied then .error (-EACCES)
      else if x.1 = kFPObjectNotFound then .error (-ENOENT)
      else if x.1 = kFPParamErr then listedXattrs size ⟨0, []⟩
      else .error (-EIO_), ⟨.error, ?_⟩, listedXattrs_report hnames size⟩
  exact (if_neg (not_or.2 hvol)).trans rfl

/-! ## From the list to the server -/

/-- The list is exact and shows different names for different attributes; and a shown name stands for
the server's in a call exactly when it is a plain one, and the call may change the attribute if it does. -/
theorem listed_attributes_reach (hvol : HasExtAttrs vol path)
    (hnames : ∀ n ∈ names, n ≠ [] ∧ 0 ∉ n ∧ n.length ≤ 255) :
    ListsAttrs vol path names ∧ Function.Injective shownAttr ∧
    ∀ n ∈ listedAttrs names, AttrReaches vol path n := by
  refine ⟨listsAttrs hnames hvol, fun m n h => append_cancel_left h, fun n hn => ?_⟩
  have hmeta : netatalkMetaAttr.isPrefixOf n = false := by simpa using (mem_filter.1 hn).2
  exact ⟨getxattr_reaches hvol hmeta, setxattr_reaches hvol hmeta, removexattr_reaches hvol hmeta⟩

/-- A volume with extended attributes. -/
def xattrVolume : ServedVolume := { plainServed with attributes := kSupportsExtAttrs }

/-- A file with three attributes, one of them its Finder information. -/
theorem listed_attributes_reach_three :
    ListsAttrs xattrVolume [slash, 97] [[98], [99], finderinfoAttr] ∧
      (∃ result, Asks [slash, 97] (fun did name => Ml.afpGetextattr xattrVolume did 4096 name [98]) result
        (mlGetxattr xattrVolume [slash, 97] (shownAttr [98]) 4)) ∧
      ¬∃ result, Asks [slash, 97] (fun did name =>
        Ml.afpGetextattr xattrVolume did 4096 name finderinfoAttr) result
        (mlGetxattr xattrVolume [slash, 97] (shownAttr finderinfoAttr) 4) := by
  have h := @listed_attributes_reach xattrVolume [slash, 97] [[98], [99], finderinfoAttr]
    ⟨by decide, by decide⟩ (by decide)
  exact ⟨h.1, ((h.2.2 [98] (by decide)).get 4).2 ⟨by decide, by decide, by decide⟩,
    fun hget => (((h.2.2 finderinfoAttr (by decide)).get 4).1 hget).2.2 rfl⟩

/-- A name of 251 bytes is listed, and under its listed name it is not read. -/
theorem listed_attribute_refused :
    listedXattrs 0 (attrReport [List.replicate 251 97]) = .ok (257, []) ∧
    mlGetxattr xattrVolume [slash, 97] (shownAttr (List.replicate 251 97)) 0 =
      pure (.error (-ENAMETOOLONG)) := by
  have hlong : normalizeXattrName (shownAttr (List.replicate 251 97)) = .error (-ENAMETOOLONG) := by
    decide +kernel
  refine ⟨by decide +kernel, ?_⟩
  unfold mlGetxattr
  rw [if_neg (by decide +kernel), if_neg (by decide +kernel), if_neg (by decide),
    if_neg (by decide +kernel), if_neg (by decide), hlong]

end NC
