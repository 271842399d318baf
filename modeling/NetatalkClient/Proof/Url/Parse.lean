import NetatalkClient.Model.Url

/-!
# What the URL parser reads

`parsedUrl` is what `parse_url` computes, without buffers: the text is cut at its separators.
`parseUrl_eq` says that the parser returns it, with every read inside the text and its copies,
unless it searches a user part whose last colon stands behind another (`DoubledLast`): the search
of `escape_strrchr` then goes back by two bytes and finds the same colon again, and never ends
(`escapeStrrchr_doubled`), or leaves the copy when there are no two bytes to go back.
-/

namespace NC

open List Scan Option

variable {b s x y : Bytes} {i : Int} {c : UInt8} {url : Url}

/-! ## The two searches -/

/-- What stands before and behind the first `c` that is not doubled. -/
def cutEscaped (c : UInt8) : Bytes → Option (Bytes × Bytes)
  | [] => none
  | [d] => if d = c then some ([], []) else none
  | d :: e :: es =>
    if d = c then
      if e = c then (cutEscaped c es).map fun x => (d :: e :: x.1, x.2) else some ([], e :: es)
    else (cutEscaped c (e :: es)).map fun x => (d :: x.1, x.2)

theorem cutEscaped_cons {d : UInt8} (hd : d ≠ c) (s : Bytes) :
    cutEscaped c (d :: s) = (cutEscaped c s).map fun x => (d :: x.1, x.2) := by
  cases s with
  | nil => simp [cutEscaped, hd]
  | cons e es => rw [cutEscaped, if_neg hd]

theorem cutEscaped_append (hx : c ∉ x) (s : Bytes) :
    cutEscaped c (x ++ s) = (cutEscaped c s).map fun z => (x ++ z.1, z.2) := by
  induction x with
  | nil => simp
  | cons d x ih =>
    rw [mem_cons, not_or] at hx
    rw [cons_append, cutEscaped_cons (Ne.symm hx.1), ih hx.2, Option.map_map]
    rfl

theorem cutEscaped_doubled (s : Bytes) :
    cutEscaped c (c :: c :: s) = (cutEscaped c s).map fun z => (c :: c :: z.1, z.2) := by
  rw [cutEscaped, if_pos rfl, if_pos rfl]

theorem eq_of_cutEscaped (h : cutEscaped c s = some (x, y)) : s = x ++ c :: y := by
  induction s using cutEscaped.induct c generalizing x with
  | case1 => cases h
  | case2 =>
    rw [cutEscaped, if_pos rfl] at h
    cases h
    rfl
  | case3 d hd =>
    rw [cutEscaped, if_neg hd] at h
    cases h
  | case4 es ih =>
    rw [cutEscaped_doubled] at h
    obtain ⟨z, hz, hxy⟩ := map_eq_some_iff.1 h
    cases hxy
    rw [ih hz]
    simp
  | case5 e es he =>
    rw [cutEscaped, if_pos rfl, if_neg he] at h
    cases h
    rfl
  | case6 d e es hd ih =>
    rw [cutEscaped, if_neg hd] at h
    obtain ⟨z, hz, hxy⟩ := map_eq_some_iff.1 h
    cases hxy
    rw [ih hz]
    simp

variable {fuel : Nat} {p j : Int}

/-- `escape_strchr` goes on behind each doubled `c`, so that it ends. -/
theorem escapeStrchr_eq (h : StringAt b i s) (hc : c ≠ 0) (hfuel : s.length < fuel) :
    escapeStrchr b c [c] fuel i = .ok ((cutEscaped c s).map fun x => i + x.1.length) := by
  induction fuel generalizing i s with
  | zero => omega
  | succ fuel ih =>
    rw [escapeStrchr, if_neg (by simp), h.strchr_eq hc]
    cases hcut : cutAt c s with
    | none =>
      have hs : cutEscaped c s = none := by
        have := cutEscaped_append (cutAt_eq_none.1 hcut) []
        simpa [cutEscaped] using this
      rw [hs]
      rfl
    | some z =>
      obtain ⟨x, y⟩ := z
      obtain ⟨rfl, hx⟩ := cutAt_eq_some.1 hcut
      have hlen : ¬i + (x.length : Int) - i = (x ++ c :: y).length := by simp; omega
      simp only [map_some, ok_bind, h.cstr_eq, if_neg hlen]
      rw [cutEscaped_append hx]
      cases y with
      | nil =>
        rw [h.behind.peek_nul]
        simp [hc.symm, cutEscaped]
      | cons e es =>
        rw [h.behind.peek_eq]
        simp only [ok_bind]
        by_cases he : e = c
        · subst he
          have hrest : StringAt b (i + x.length + 2) es := by
            have := StringAt.behind (x := []) h.behind
            simpa [Int.add_assoc] using this
          have hshort : es.length < fuel := by
            simp only [length_append, length_cons] at hfuel
            omega
          rw [if_neg (by simp), ih hrest hshort, cutEscaped_doubled]
          simp only [Option.map_map]
          congr 2
          funext z
          simp
          omega
        · rw [if_pos he, cutEscaped, if_pos rfl, if_neg he]
          simp

/-- The last `c` stands behind another. -/
def DoubledLast (c : UInt8) (s : Bytes) : Prop := ∃ x y, s = x ++ c :: c :: y ∧ c ∉ y

/-- `escape_strrchr` of a string whose last `c` stands alone. -/
theorem escapeStrrchr_eq (h : StringAt b 0 s) (hs : ¬DoubledLast c s) (fuel : Nat) :
    escapeStrrchr b c [c] (fuel + 1) 0 = .ok ((cutLast c s).map fun x => (x.1.length : Int)) := by
  rw [escapeStrrchr, if_neg (by simp), h.strrchr_eq]
  cases hcut : cutLast c s with
  | none => rfl
  | some z =>
    obtain ⟨x, y⟩ := z
    obtain ⟨rfl, hy⟩ := cutLast_eq_some.1 hcut
    simp only [map_some, ok_bind, Int.zero_add]
    obtain rfl | ⟨x, d, rfl⟩ := eq_nil_or_concat x
    · simp
    · have hd : d ≠ c := by
        rintro rfl
        exact hs ⟨x, y, by simp, hy⟩
      have hprev : StringAt b x.length (d :: c :: y) := by
        rw [concat_append] at h
        simpa using h.drop
      have hpos : ((x.concat d).length : Int) - 1 = x.length := by simp
      rw [if_neg (by omega), hpos, hprev.peek_eq]
      simp [hd]

/-- Behind a doubled last `c` the search finds the same one again. -/
theorem escapeStrrchr_doubled (h : StringAt b 0 (x ++ c :: c :: y)) (hy : c ∉ y) (hx : x ≠ [])
    (fuel : Nat) (hi : 0 ≤ i) (hix : i ≤ x.length) :
    escapeStrrchr b c [c] fuel i = .error .unfinished := by
  induction fuel generalizing i with
  | zero => rfl
  | succ fuel ih =>
    obtain ⟨j, rfl⟩ : ∃ j : Nat, i = j := ⟨i.toNat, by omega⟩
    have hjx : j ≤ x.length := by omega
    have hhere : StringAt b j (x.drop j ++ c :: c :: y) := by
      have hsplit : x ++ c :: c :: y = x.take j ++ (x.drop j ++ c :: c :: y) := by
        rw [← append_assoc, take_append_drop]
      rw [hsplit] at h
      simpa [hjx] using h.drop
    have hlast : cutLast c (x.drop j ++ c :: c :: y) = some (x.drop j ++ [c], y) :=
      cutLast_eq_some.2 ⟨by simp, hy⟩
    have hprev : StringAt b x.length (c :: c :: y) := by simpa using h.drop
    have hpos : (j : Int) + ((x.drop j ++ [c]).length : Nat) = x.length + 1 := by
      simp
      omega
    have hlen := length_pos_iff.2 hx
    rw [escapeStrrchr, if_neg (by simp), hhere.strrchr_eq, hlast]
    simp only [map_some, ok_bind, hpos]
    rw [if_neg (by omega), show (x.length : Int) + 1 - 1 = x.length by omega, hprev.peek_eq]
    simp only [ok_bind]
    rw [if_neg (by simp)]
    exact ih (by omega) (by omega)

theorem escapeStrrchr_fails (h : StringAt b 0 s) (hs : DoubledLast c s) (fuel : Nat) :
    ∃ e, escapeStrrchr b c [c] fuel 0 = .error e := by
  obtain ⟨x, y, rfl, hy⟩ := hs
  by_cases hx : x = []
  · subst hx
    cases fuel with
    | zero => exact ⟨_, rfl⟩
    | succ fuel =>
      have hlast : cutLast c (c :: c :: y) = some ([c], y) := cutLast_eq_some.2 ⟨rfl, hy⟩
      rw [nil_append] at h
      rw [escapeStrrchr, if_neg (by simp), h.strrchr_eq, hlast]
      simp only [map_some, ok_bind]
      rw [if_neg (by simp), show (0 : Int) + ([c] : Bytes).length - 1 = 0 by simp, h.peek_eq]
      simp only [ok_bind]
      rw [if_neg (by simp)]
      -- The next search begins before the first byte.
      have hbefore : strrchr b (0 + ([c] : Bytes).length - 2) c = .error .outside := if_pos (by simp)
      cases fuel with
      | zero => exact ⟨_, rfl⟩
      | succ fuel => exact ⟨.outside, by rw [escapeStrrchr, if_neg (by simp), hbefore]; rfl⟩
  · exact ⟨_, escapeStrrchr_doubled h hy hx fuel (Int.le_refl 0) (by omega)⟩

/-! ## The parts of the authority -/

/-- The number at the start of a text. -/
def portOf (s : Bytes) : Int :=
  match strtol (s ++ [0]) 0 with
  | .ok n => n
  | .error _ => 0

theorem strtolDigits_eq (s r : Bytes) (hs : 0 ∉ s) (n : Nat) :
    ∃ m, strtolDigits (s ++ 0 :: r) n = .ok m ∧ strtolDigits (s ++ [0]) n = .ok m := by
  induction s generalizing n with
  | nil => exact ⟨n, by simp [strtolDigits], by simp [strtolDigits]⟩
  | cons d s ih =>
    rw [mem_cons, not_or] at hs
    simp only [cons_append, strtolDigits]
    split
    · exact ih hs.2 _
    · exact ⟨n, rfl, rfl⟩

theorem strtolSign_eq (s r : Bytes) (hs : 0 ∉ s) :
    ∃ m, strtolSign (s ++ 0 :: r) = .ok m ∧ strtolSign (s ++ [0]) = .ok m := by
  cases s with
  | nil =>
    exact ⟨0, by simp [strtolSign, strtolDigits, Except.map], by simp [strtolSign, strtolDigits, Except.map]⟩
  | cons d s =>
    have hs' := hs
    rw [mem_cons, not_or] at hs'
    obtain ⟨m, hm, hm'⟩ := strtolDigits_eq s r hs'.2 0
    obtain ⟨k, hk, hk'⟩ := strtolDigits_eq (d :: s) r hs 0
    rw [cons_append] at hk hk'
    simp only [cons_append, strtolSign, hm, hm', hk, hk']
    split
    · exact ⟨_, rfl, rfl⟩
    · split <;> exact ⟨_, rfl, rfl⟩

theorem strtolBlanks_eq (s r : Bytes) (hs : 0 ∉ s) :
    ∃ m, strtolBlanks (s ++ 0 :: r) = .ok m ∧ strtolBlanks (s ++ [0]) = .ok m := by
  induction s with
  | nil =>
    obtain ⟨m, hm, hm'⟩ := strtolSign_eq [] r hs
    exact ⟨m, by simpa [strtolBlanks] using hm, by simpa [strtolBlanks] using hm'⟩
  | cons d s ih =>
    have hs' := hs
    rw [mem_cons, not_or] at hs'
    simp only [cons_append, strtolBlanks]
    split
    · exact ih hs'.2
    · exact strtolSign_eq (d :: s) r hs

theorem strtol_eq (h : StringAt b i s) : strtol b i = .ok (portOf s) := by
  obtain ⟨hi, hs, r, hr⟩ := h
  obtain ⟨m, hm, hm'⟩ := strtolBlanks_eq s r hs
  have hport : portOf s = m := by
    simp [portOf, strtol, hm']
  rw [strtol, if_neg (by omega), hr, hm, hport]

/-- `check_servername`, and the server name in its field. -/
def parsedServername (url : Url) (name : Bytes) : Except Url Url :=
  let url := { url with servername := name.take 254 }
  if slash ∈ url.servername then .error url else .ok url

/-- `check_port`, and the server name. -/
def parsedPort (url : Url) (name port : Bytes) : Except Url Url :=
  if portOf port < 0 ∨ 32767 < portOf port then .error url
  else if portOf port = 0 then .error { url with port := 0 }
  else parsedServername { url with port := portOf port } name

/-- A server name and its port, if there is one behind it. -/
def parsedHost (url : Url) (name rest : Bytes) : Except Url Url :=
  match cutAt colon rest with
  | some (_, port) => parsedPort url name port
  | none => parsedServername url name

/-- The literal address a text begins with, and what stands behind it. -/
def literal : Bytes → Option (Bytes × Bytes)
  | [] => none
  | d :: ds => if d = openBracket then cutAt closeBracket ds else none

/-- The server part of an authority. -/
def parsedServer (url : Url) (s : Bytes) : Except Url Url :=
  match literal s with
  | some (name, rest) => parsedHost url name rest
  | none =>
    match cutAt colon s with
    | some (name, port) => parsedPort url name port
    | none => parsedServername url s

/-- The text of the port that a server part names. -/
def portText (s : Bytes) : Option Bytes :=
  match literal s with
  | some (_, rest) => (cutAt colon rest).map (·.2)
  | none => (cutAt colon s).map (·.2)

/-- A server part names no port, or one from 1 to 32767. -/
def PortAccepted (s : Bytes) : Prop := ∀ port, portText s = some port → 1 ≤ portOf port ∧ portOf port ≤ 32767

theorem parsedPort_ok_iff {name port : Bytes} (hname : slash ∉ name) :
    (∃ u, parsedPort url name port = .ok u) ↔ 1 ≤ portOf port ∧ portOf port ≤ 32767 := by
  have hshort : slash ∉ name.take 254 := fun h => hname (mem_of_mem_take h)
  unfold parsedPort
  split
  · exact iff_of_false (by simp) (by omega)
  split
  · exact iff_of_false (by simp) (by omega)
  · exact iff_of_true ⟨_, if_neg hshort⟩ (by omega)

/-- A text without a slash is a server part if its port is accepted. -/
theorem parsedServer_ok_iff (hs : slash ∉ s) :
    (∃ u, parsedServer url s = .ok u) ↔ PortAccepted s := by
  have hnone {name : Bytes} (hname : slash ∉ name) : ∃ u, parsedServername url name = .ok u :=
    ⟨_, if_neg fun h => hname (mem_of_mem_take h)⟩
  have hhost {name rest : Bytes} (hname : slash ∉ name) : (∃ u, parsedHost url name rest = .ok u) ↔
      ∀ port, (cutAt colon rest).map (·.2) = some port → 1 ≤ portOf port ∧ portOf port ≤ 32767 := by
    unfold parsedHost
    cases cutAt colon rest with
    | none => exact iff_of_true (hnone hname) nofun
    | some z => simp [parsedPort_ok_iff hname]
  unfold parsedServer PortAccepted portText
  cases hlit : literal s with
  | some z =>
    cases s with
    | nil => cases hlit
    | cons d ds =>
      rw [literal] at hlit
      split at hlit
      · obtain ⟨rfl, -⟩ := cutAt_eq_some.1 hlit
        exact hhost fun h => hs (by simp [h])
      · cases hlit
  | none =>
    cases hcut : cutAt colon s with
    | none => exact iff_of_true (hnone hs) nofun
    | some z =>
      obtain ⟨rfl, -⟩ := cutAt_eq_some.1 hcut
      simp [parsedPort_ok_iff fun h => hs (mem_append_left _ h)]

/-- The user name. -/
def parsedUsername (url : Url) (name : Bytes) : Url :=
  if name ≠ [] then { url with username := name.take 126 } else url

/-- `user[;AUTH=uamname]`. -/
def parsedUamname (url : Url) (s : Bytes) : Except Url Url :=
  match cutString authMark s with
  | some (name, uam) =>
    let url := { url with uamname := uam.take 49 }
    if uamStringToBitmap url.uamname = 0 then .error url else .ok (parsedUsername url name)
  | none => .ok (parsedUsername url s)

/-- `user[;AUTH=uamname][:password]`. -/
def parsedUser (url : Url) (s : Bytes) : Except Url Url :=
  match cutLast colon s with
  | some (user, password) => parsedUamname { url with password := password.take 126 } user
  | none => parsedUamname url s

/-- The authority. -/
def parsedAuthority (url : Url) (s : Bytes) : Except Url Url :=
  match cutEscaped atSign s with
  | some (user, server) =>
    match parsedServer url server with
    | .error url => .error url
    | .ok url => parsedUser url user
  | none => parsedServer url s

/-- A part of the parser fills the URL as `x` says, and leaves in place what stands before
`p`. -/
def Parses (b : Bytes) (p : Int) (x : Except Url Url) (r : Scan ParseStep) : Prop :=
  ∃ b', r = .ok (x.map (·, b')) ∧
    ∀ i s, StringAt b i s → i + s.length < p → StringAt b' i s

theorem takeServername_parses (h : StringAt b i s) :
    Parses b p (parsedServername url s) (takeServername url b i) := by
  refine ⟨b, ?_, fun _ _ h _ => h⟩
  rw [takeServername, h.cstr_eq, parsedServername]
  simp only [ok_bind]
  split <;> rfl

theorem Parses.of_cut {r : Scan ParseStep} {z : Except Url Url} (hj : p ≤ j)
    (h : Parses (cutBuffer b j) p z r) : Parses b p z r := by
  obtain ⟨b', hr, hb⟩ := h
  exact ⟨b', hr, fun i s hs hi => hb i s (hs.cut_behind (by omega)) hi⟩

theorem takePort_parses {port : Bytes} (h : StringAt b i s) (hp : StringAt b j port) :
    Parses b p (parsedPort url s port) (takePort url b i j) := by
  rw [takePort, strtol_eq hp, parsedPort]
  simp only [ok_bind]
  split
  · exact ⟨b, rfl, fun _ _ h _ => h⟩
  · split
    · exact ⟨b, rfl, fun _ _ h _ => h⟩
    · exact takeServername_parses h

theorem literalEnd_eq (h : StringAt b i s) :
    literalEnd b i = .ok ((literal s).map fun x => i + 1 + x.1.length) := by
  cases s with
  | nil =>
    rw [literalEnd, h.peek_nul]
    rfl
  | cons d ds =>
    rw [literalEnd, h.peek_eq, literal]
    simp only [ok_bind]
    by_cases hd : d = openBracket
    · subst hd
      rw [if_neg (by simp), h.strchr_eq (by decide), cutAt, if_neg (by decide), if_pos rfl]
      simp only [Option.map_map]
      congr 2
      funext x
      simp
      omega
    · rw [if_pos hd, if_neg hd]
      rfl

/-- The server name at `i` with its port, if the text behind it at `j` has one. -/
theorem host_parses {rest : Bytes} (h : StringAt b i s) (hr : StringAt b j rest)
    (hij : i + s.length < j) (hp : p ≤ j) :
    Parses b p (parsedHost url s rest) (do
      match ← strchr b j colon with
      | some q => takePort url (cutBuffer b q) i (q + 1)
      | none => takeServername url b i) := by
  rw [hr.strchr_eq (by decide), parsedHost]
  cases hcut : cutAt colon rest with
  | none => exact takeServername_parses h
  | some z =>
    obtain ⟨x, port⟩ := z
    obtain ⟨rfl, -⟩ := cutAt_eq_some.1 hcut
    exact .of_cut (j := j + x.length) (by omega)
      (takePort_parses (h.cut_behind (by omega)) hr.cut.2)

theorem parseServer_parses (url : Url) (h : StringAt b i s) :
    Parses b i (parsedServer url s) (parseServer url b i) := by
  rw [parseServer, literalEnd_eq h, parsedServer]
  cases hlit : literal s with
  | some z =>
    obtain ⟨name, rest⟩ := z
    cases s with
    | nil => cases hlit
    | cons d ds =>
      rw [literal] at hlit
      split at hlit
      · obtain ⟨rfl, -⟩ := cutAt_eq_some.1 hlit
        have hname : StringAt b (i + 1) (name ++ closeBracket :: rest) := by
          simpa using StringAt.behind (x := []) h
        obtain ⟨hl, hr⟩ := hname.cut
        simp only [map_some]
        exact .of_cut (j := i + 1 + name.length) (by omega)
          (host_parses hl hr (by omega) (by omega))
      · cases hlit
  | none =>
    simp only [h.strchr_eq (show colon ≠ 0 by decide)]
    cases hcut : cutAt colon s with
    | none => exact takeServername_parses h
    | some z =>
      obtain ⟨name, port⟩ := z
      obtain ⟨rfl, -⟩ := cutAt_eq_some.1 hcut
      obtain ⟨hl, hr⟩ := h.cut
      exact .of_cut (j := i + name.length) (by omega) (takePort_parses hl hr)

theorem takeUsername_parses (h : StringAt b 0 s) :
    Parses b 0 (.ok (parsedUsername url s)) (takeUsername url b) := by
  refine ⟨b, ?_, fun _ _ h _ => h⟩
  rw [takeUsername, h.cstr_eq]
  rfl

theorem parseUamname_parses (h : StringAt b 0 s) :
    Parses b 0 (parsedUamname url s) (parseUamname url b) := by
  rw [parseUamname, h.strstr_eq (by decide) (by decide), parsedUamname]
  cases hcut : cutString authMark s with
  | none => exact takeUsername_parses h
  | some z =>
    obtain ⟨name, uam⟩ := z
    obtain rfl := eq_of_cutString hcut
    have hmark : authMark = 59 :: ascii "AUTH=" := by decide
    rw [append_assoc, hmark, cons_append] at h
    obtain ⟨hl, hr⟩ := h.cut
    have huam : StringAt (cutBuffer b (0 + name.length)) (0 + name.length + 6) uam := by
      have hfive : ((ascii "AUTH=").length : Int) = 5 := by decide
      have := hr.drop
      exact this
    simp only [map_some, ok_bind, huam.cstr_eq]
    refine .of_cut (j := 0 + name.length) (by omega) ?_
    split
    · exact ⟨_, rfl, fun _ _ h _ => h⟩
    · exact takeUsername_parses hl

theorem parseUser_parses (url : Url) (h : StringAt b 0 s) (hs : ¬DoubledLast colon s) (fuel : Nat) :
    Parses b 0 (parsedUser url s) (parseUser (fuel + 1) url b) := by
  rw [parseUser, escapeStrrchr_eq h hs, parsedUser]
  cases hcut : cutLast colon s with
  | none => exact parseUamname_parses h
  | some z =>
    obtain ⟨user, password⟩ := z
    obtain ⟨rfl, -⟩ := cutLast_eq_some.1 hcut
    have hcut := h.cut
    rw [Int.zero_add] at hcut
    simp only [map_some, ok_bind, hcut.2.cstr_eq]
    exact .of_cut (j := user.length) (by omega) (parseUamname_parses hcut.1)

/-- A doubled last colon keeps the search for the password from ending. -/
theorem parseUser_doubled (url : Url) (h : StringAt b 0 (x ++ colon :: colon :: y)) (hy : colon ∉ y)
    (hx : x ≠ []) (fuel : Nat) : parseUser fuel url b = .error .unfinished := by
  rw [parseUser, escapeStrrchr_doubled h hy hx fuel (Int.le_refl 0) (by omega)]
  rfl

theorem parseUser_fails (url : Url) (h : StringAt b 0 s) (hs : DoubledLast colon s) (fuel : Nat) :
    ∃ e, parseUser fuel url b = .error e := by
  obtain ⟨e, he⟩ := escapeStrrchr_fails h hs fuel
  exact ⟨e, by rw [parseUser, he]; rfl⟩

theorem parseAuthority_eq (url : Url) (h : StringAt b 0 s) (hslash : slash ∉ s) (hfuel : s.length < fuel)
    (hs : ∀ user server, cutEscaped atSign s = some (user, server) → PortAccepted server →
      ¬DoubledLast colon user) :
    ∃ b', parseAuthority fuel url b = .ok ((parsedAuthority url s).map (·, b')) := by
  rw [parseAuthority, escapeStrchr_eq h (by decide) hfuel, parsedAuthority]
  cases hcut : cutEscaped atSign s with
  | none =>
    obtain ⟨b', hb, -⟩ := parseServer_parses url h
    exact ⟨b', hb⟩
  | some z =>
    obtain ⟨user, server⟩ := z
    obtain rfl := eq_of_cutEscaped hcut
    obtain ⟨hl, hr⟩ := h.cut
    obtain ⟨b', hb, hkeep⟩ := parseServer_parses url hr
    have huser := hkeep 0 user hl (by omega)
    simp only [map_some, ok_bind, hb]
    cases hserver : parsedServer url server with
    | error url => exact ⟨b', rfl⟩
    | ok url' =>
      have hport := (parsedServer_ok_iff fun hm => hslash (by simp [hm])).1 ⟨url', hserver⟩
      obtain ⟨fuel, rfl⟩ : ∃ n, fuel = n + 1 := ⟨fuel - 1, by omega⟩
      obtain ⟨b'', hb'', -⟩ := parseUser_parses url' huser (hs user server hcut hport) fuel
      exact ⟨b'', hb''⟩

/-- The authority is not read to its end if the password is searched behind a doubled last colon. -/
theorem parseAuthority_fails {user server : Bytes} (url : Url) (h : StringAt b 0 s) (hslash : slash ∉ s)
    (hfuel : s.length < fuel) (hcut : cutEscaped atSign s = some (user, server))
    (hport : PortAccepted server) (hs : DoubledLast colon user) :
    ∃ e, parseAuthority fuel url b = .error e := by
  rw [parseAuthority, escapeStrchr_eq h (by decide) hfuel, hcut]
  obtain rfl := eq_of_cutEscaped hcut
  obtain ⟨hl, hr⟩ := h.cut
  obtain ⟨b', hb, hkeep⟩ := parseServer_parses url hr
  obtain ⟨url', hserver⟩ : ∃ u, parsedServer url server = .ok u :=
    (parsedServer_ok_iff fun hm => hslash (by simp [hm])).2 hport
  obtain ⟨e, he⟩ := parseUser_fails url' (hkeep 0 user hl (by omega)) hs fuel
  exact ⟨e, by simp only [map_some, ok_bind, hb, hserver]; exact he⟩

/-! ## The volume, the path and the URL -/

variable (heap : Nat → Bool)

/-- The volume's name, and the path behind it. -/
def parsedPath (url : Url) (s : Bytes) : Int × Url :=
  match cutAt slash s with
  | some (volume, rest) =>
    let url := { url with volumename := volume.take 254 }
    match afpcPathJoin heap [slash] rest maxUtf8PathBytes with
    | .error _ => (-1, url)
    | .ok path => (0, escapeUrl { url with path := some path })
  | none => (0, escapeUrl { url with volumename := s.take 254 })

/-- A text without a slash at its end. -/
def dropSlash (s : Bytes) : Bytes := if s.getLast? = some slash then s.dropLast else s

/-- What follows the slash behind the authority. -/
def parsedSecondpart (url : Url) (s : Bytes) : Int × Url :=
  if !heap (s.length + 1) then (-1, url)
  else if s = [] then (0, escapeUrl url)
  else parsedPath heap url (dropSlash s)

/-- The text up to a slash, and what stands behind the slash. -/
def beforeSlash (s : Bytes) : Bytes × Option Bytes :=
  match cutAt slash s with
  | some (x, y) => (x, some y)
  | none => (s, none)

/-- The URL that a text is. -/
def parsedUrl (url : Url) (text : Bytes) : Int × Url :=
  let url : Url := { port := url.port }
  match cutString schemeEnd text with
  | none => (-1, url)
  | some (scheme, rest) =>
    if ¬ascii "afp" <:+ scheme then (-1, url)
    else if 255 ≤ (beforeSlash rest).1.length then (-1, url)
    else match parsedAuthority url (beforeSlash rest).1 with
      | .error url => (-1, url)
      | .ok url =>
        match (beforeSlash rest).2 with
        | none => (0, escapeUrl url)
        | some second => parsedSecondpart heap url second

/-- The user part in which the password is searched: that of an `afp` URL whose authority fits its
copy and whose port is accepted. -/
def SearchedPart (text user : Bytes) : Prop :=
  ∃ scheme rest server, cutString schemeEnd text = some (scheme, rest) ∧ ascii "afp" <:+ scheme ∧
    (beforeSlash rest).1.length < 255 ∧ cutEscaped atSign (beforeSlash rest).1 = some (user, server) ∧
    PortAccepted server

variable {heap}

theorem parsePath_eq (h : StringAt b 0 s) : parsePath heap url b = .ok (parsedPath heap url s) := by
  rw [parsePath, h.strchr_eq (by decide), parsedPath]
  cases hcut : cutAt slash s with
  | none =>
    simp only [h.cstr_eq]
    rfl
  | some z =>
    obtain ⟨rfl, -⟩ := cutAt_eq_some.1 hcut
    obtain ⟨hl, hr⟩ := h.cut
    simp only [map_some, ok_bind, hl.cstr_eq, hr.cstr_eq]
    split <;> simp_all

theorem parseSecondpart_eq (h : StringAt b i s) :
    parseSecondpart heap url b i = .ok (parsedSecondpart heap url s) := by
  rw [parseSecondpart, h.cstr_eq, parsedSecondpart]
  have hcopy := StringAt.terminated h.nul
  simp only [ok_bind]
  split
  · rfl
  · cases s with
    | nil => rfl
    | cons d ds =>
      rw [hcopy.peek_eq]
      have hd : d ≠ 0 := fun hd => h.nul (by simp [hd])
      simp only [ok_bind, if_neg hd, hcopy.cstr_eq]
      obtain ⟨init, last, hlast⟩ : ∃ init last, d :: ds = init ++ [last] :=
        ⟨(d :: ds).dropLast, (d :: ds).getLast (by simp), (dropLast_append_getLast _).symm⟩
      rw [hlast] at hcopy ⊢
      have hend : StringAt (init ++ [last] ++ [0]) init.length [last] := by simpa using hcopy.drop
      have hpos : ((init ++ [last]).length : Int) - 1 = init.length := by simp
      rw [hpos, hend.peek_eq]
      simp only [ok_bind]
      split
      · next hl =>
        have hcut : StringAt (cutBuffer (init ++ [last] ++ [0]) init.length) 0 init := by
          simpa using hcopy.cut.1
        rw [parsePath_eq hcut]
        simp [dropSlash, hl]
      · next hl =>
        rw [parsePath_eq hcopy]
        simp [dropSlash, hl]

theorem peekBytes_eq (h : StringAt b i (x ++ y)) : peekBytes b i x.length = .ok x := by
  obtain ⟨hi, -, r, hr⟩ := h
  have hlen := congrArg List.length hr
  simp only [length_drop, length_append, length_cons] at hlen
  rw [peekBytes, if_neg (by omega), hr]
  simp

theorem findAuthority_eq (h : StringAt b 0 s) : findAuthority b =
    .ok ((cutString schemeEnd s).bind fun x =>
      if ascii "afp" <:+ x.1 then some (x.1.length + 3 : Int) else none) := by
  rw [findAuthority, h.strstr_eq (by decide) (by decide)]
  cases hcut : cutString schemeEnd s with
  | none => rfl
  | some z =>
    obtain ⟨scheme, rest⟩ := z
    obtain rfl := eq_of_cutString hcut
    have hthree : (ascii "afp").length = 3 := by decide
    simp only [map_some, ok_bind, Int.zero_add, bind_some]
    by_cases hlen : (scheme.length : Int) < 3
    · have hno : ¬ascii "afp" <:+ scheme := fun hs => by
        have := hs.length_le
        omega
      rw [if_pos hlen, if_neg hno]
      rfl
    · obtain ⟨u, v, rfl, hv⟩ : ∃ u v, scheme = u ++ v ∧ v.length = 3 :=
        ⟨scheme.take (scheme.length - 3), scheme.drop (scheme.length - 3),
          (take_append_drop ..).symm, by simp; omega⟩
      have hpos : ((u ++ v).length : Int) - 3 = 0 + u.length := by simp; omega
      have hpeek : peekBytes b (0 + u.length) v.length = .ok v := by
        rw [append_assoc, append_assoc] at h
        exact peekBytes_eq h.drop
      rw [hv] at hpeek
      rw [if_neg hlen, hpos, hpeek]
      have hiff : ascii "afp" <:+ u ++ v ↔ v = ascii "afp" := by
        refine ⟨fun hs => ?_, fun hs => hs ▸ suffix_append u v⟩
        exact ((suffix_of_suffix_length_le hs (suffix_append u v) (by omega)).eq_of_length
          (by omega)).symm
      simp only [ok_bind, hiff, ite_not]
      split <;> rfl

theorem copyAuthority_eq (h : StringAt b i s) : copyAuthority b i =
    .ok (if 255 ≤ (beforeSlash s).1.length then none else some ((beforeSlash s).1 ++ [0]),
      (beforeSlash s).2.map fun _ => i + (beforeSlash s).1.length) := by
  rw [copyAuthority, h.strchr_eq (by decide), beforeSlash]
  cases hcut : cutAt slash s with
  | none =>
    simp only [h.cstr_eq]
    rfl
  | some z =>
    obtain ⟨x, y⟩ := z
    obtain ⟨rfl, -⟩ := cutAt_eq_some.1 hcut
    have hlen : (i + (x.length : Int) - i).toNat = x.length := by omega
    simp only [map_some, ok_bind, hlen, peekBytes_eq h]
    rfl

theorem slash_notMem_beforeSlash (s : Bytes) : slash ∉ (beforeSlash s).1 := by
  rw [beforeSlash]
  cases hcut : cutAt slash s with
  | none => exact cutAt_eq_none.1 hcut
  | some z => exact (cutAt_eq_some.1 hcut).2

theorem eq_of_beforeSlash {second : Bytes} (h : (beforeSlash s).2 = some second) :
    s = (beforeSlash s).1 ++ slash :: second := by
  rw [beforeSlash] at h ⊢
  cases hcut : cutAt slash s with
  | none => simp [hcut] at h
  | some z =>
    simp only [hcut, some.injEq] at h ⊢
    exact h ▸ (cutAt_eq_some.1 hcut).1

theorem beforeSlash_isPrefix (s : Bytes) : (beforeSlash s).1 <+: s := by
  rw [beforeSlash]
  cases hcut : cutAt slash s with
  | none => exact List.prefix_rfl
  | some z => exact ⟨slash :: z.2, (cutAt_eq_some.1 hcut).1.symm⟩

section Text

variable {text scheme rest : Bytes} (h0 : 0 ∉ text) (hfuel : text.length < fuel)
  (hcut : cutString schemeEnd text = some (scheme, rest)) (hafp : ascii "afp" <:+ scheme)

include h0 hcut in
theorem stringAt_rest : StringAt (text ++ [0]) (scheme.length + 3) rest := by
  obtain rfl := eq_of_cutString hcut
  have hthree : (schemeEnd.length : Int) = 3 := by decide
  simpa [hthree] using (StringAt.terminated h0).drop

include h0 hcut in
theorem stringAt_authority : StringAt ((beforeSlash rest).1 ++ [0]) 0 (beforeSlash rest).1 :=
  .terminated fun hz => (stringAt_rest h0 hcut).nul ((beforeSlash_isPrefix rest).subset hz)

include hfuel hcut in
theorem authority_length_lt : (beforeSlash rest).1.length < fuel := by
  have hle := (beforeSlash_isPrefix rest).length_le
  obtain rfl := eq_of_cutString hcut
  simp only [length_append] at hfuel
  omega

include h0 hcut hafp in
/-- The parser comes to the authority. -/
theorem parseUrl_authority (hshort : (beforeSlash rest).1.length < 255) :
    parseUrl heap fuel url (text ++ [0]) =
      (parseAuthority fuel { port := url.port } ((beforeSlash rest).1 ++ [0])).bind fun
        | .error url => .ok (-1, url)
        | .ok (url, _) =>
          match (beforeSlash rest).2.map fun _ => (scheme.length + 3 : Int) + (beforeSlash rest).1.length with
          | none => .ok (0, escapeUrl url)
          | some q => parseSecondpart heap url (text ++ [0]) (q + 1) := by
  rw [parseUrl, findAuthority_eq (StringAt.terminated h0), hcut]
  simp only [bind_some, hafp, if_true, ok_bind, copyAuthority_eq (stringAt_rest h0 hcut),
    if_neg (Nat.not_le.2 hshort)]
  rfl

end Text

/-- The parser returns what the text is cut into, and reads only the text and its copies. -/
theorem parseUrl_eq {text : Bytes} (h0 : 0 ∉ text) (hfuel : text.length < fuel)
    (hs : ∀ user, SearchedPart text user → ¬DoubledLast colon user) :
    parseUrl heap fuel url (text ++ [0]) = .ok (parsedUrl heap url text) := by
  have h := StringAt.terminated h0
  cases hcut : cutString schemeEnd text with
  | none =>
    rw [parseUrl, findAuthority_eq h, parsedUrl, hcut]
    rfl
  | some z =>
    obtain ⟨scheme, rest⟩ := z
    rw [parsedUrl, hcut]
    by_cases hafp : ascii "afp" <:+ scheme
    · simp only [hafp, not_true_eq_false, if_false]
      by_cases hlong : 255 ≤ (beforeSlash rest).1.length
      · rw [parseUrl, findAuthority_eq h, hcut]
        simp only [bind_some, hafp, if_true, ok_bind, copyAuthority_eq (stringAt_rest h0 hcut),
          if_pos hlong]
        rfl
      · obtain ⟨b', hb⟩ := parseAuthority_eq { port := url.port } (stringAt_authority h0 hcut)
          (slash_notMem_beforeSlash rest) (authority_length_lt hfuel hcut) fun user server hu hport =>
            hs user ⟨scheme, rest, server, hcut, hafp, Nat.not_le.1 hlong, hu, hport⟩
        rw [parseUrl_authority h0 hcut hafp (Nat.not_le.1 hlong), hb, if_neg hlong]
        cases parsedAuthority { port := url.port } (beforeSlash rest).1 with
        | error url => rfl
        | ok url =>
          cases hsecond : (beforeSlash rest).2 with
          | none => rfl
          | some second =>
            have hat := stringAt_rest h0 hcut
            rw [eq_of_beforeSlash hsecond] at hat
            exact parseSecondpart_eq hat.behind
    · rw [parseUrl, findAuthority_eq h, hcut]
      simp only [bind_some, hafp]
      rfl

theorem parseUrl_fails {text user : Bytes} (h0 : 0 ∉ text) (hfuel : text.length < fuel)
    (huser : SearchedPart text user) (hs : DoubledLast colon user) :
    ∃ e, parseUrl heap fuel url (text ++ [0]) = .error e := by
  obtain ⟨scheme, rest, server, hcut, hafp, hshort, hu, hport⟩ := huser
  obtain ⟨e, he⟩ := parseAuthority_fails { port := url.port } (stringAt_authority h0 hcut)
    (slash_notMem_beforeSlash rest) (authority_length_lt hfuel hcut) hu hport hs
  exact ⟨e, by rw [parseUrl_authority h0 hcut hafp hshort, he]; rfl⟩

/-- `afp_parse_url` returns, and reads no byte outside the text and its copies, if and only if it does
not search the password in a user part whose last colon stands behind another. -/
theorem parseUrl_returns_iff (heap : Nat → Bool) (url : Url) (text : Bytes) (h0 : 0 ∉ text) :
    (∃ result, ∀ fuel, text.length < fuel → parseUrl heap fuel url (text ++ [0]) = .ok result) ↔
      ∀ user, SearchedPart text user → ¬DoubledLast colon user := by
  refine ⟨fun ⟨result, h⟩ user huser hs => ?_, fun hs => ⟨_, fun _ hfuel => parseUrl_eq h0 hfuel hs⟩⟩
  have hfuel := Nat.lt_succ_self text.length
  obtain ⟨e, he⟩ := parseUrl_fails h0 hfuel huser hs
  rw [h _ hfuel] at he
  cases he

/-- A wrong port is refused before the password is searched, and a colon doubled within the user name
is no obstacle. -/
theorem parseUrl_returns_both :
    (∃ result, ∀ fuel, 16 < fuel →
      parseUrl (fun _ => true) fuel {} (ascii "afp://u::@h:0/vo" ++ [0]) = .ok result) ∧
    ∃ result, ∀ fuel, 21 < fuel →
      parseUrl (fun _ => true) fuel {} (ascii "afp://u::v:p@host/vol" ++ [0]) = .ok result := by
  refine ⟨(parseUrl_returns_iff (fun _ => true) {} (ascii "afp://u::@h:0/vo") (by decide)).2 ?_,
    (parseUrl_returns_iff (fun _ => true) {} (ascii "afp://u::v:p@host/vol") (by decide)).2 ?_⟩
  · rintro user ⟨scheme, rest, server, hcut, -, -, hu, hport⟩
    cases hcut
    cases hu
    exact absurd (hport (ascii "0") rfl).1 (by decide)
  · rintro user ⟨scheme, rest, server, hcut, -, -, hu, -⟩ ⟨x, y, hxy, hy⟩
    cases hcut
    cases hu
    have hcut : cutLast colon (ascii "u::v:p") = some (x ++ [colon], y) :=
      cutLast_eq_some.2 ⟨by rw [append_assoc]; exact hxy, hy⟩
    have hlast : cutLast colon (ascii "u::v:p") = some (ascii "u::v", ascii "p") := by decide
    have hx := congrArg (fun z => z.1.getLast?) (some.inj (hcut.symm.trans hlast))
    simp [ascii, colon] at hx

/-- The search for the password's colon does not end for `afp://u::@h`, and leaves the copy of
the authority for `afp://::@h`. -/
theorem parseUrl_doubled_colon :
    (∀ fuel, parseUrl (fun _ => true) fuel {} (ascii "afp://u::@h" ++ [0]) = .error .unfinished) ∧
    ∀ fuel, parseUrl (fun _ => true) (fuel + 2) {} (ascii "afp://::@h" ++ [0]) =
      .error .outside := by
  refine ⟨fun fuel => ?_, fun fuel => rfl⟩
  cases fuel with
  | zero => rfl
  | succ fuel =>
    have hat : StringAt (ascii "u::" ++ [0] ++ ascii "h" ++ [0]) 0 (ascii "u" ++ colon :: colon :: []) :=
      ⟨Int.le_refl 0, by decide, ascii "h" ++ [0], rfl⟩
    have hauthority : parseAuthority (fuel + 1) { port := 548 } (ascii "u::@h" ++ [0]) =
        .error .unfinished :=
      parseUser_doubled { servername := ascii "h" } hat (by simp) (by decide) (fuel + 1)
    have hfind : findAuthority (ascii "afp://u::@h" ++ [0]) = .ok (some 6) := by decide
    have hcopy : copyAuthority (ascii "afp://u::@h" ++ [0]) 6 =
        .ok (some (ascii "u::@h" ++ [0]), none) := by decide
    simp only [parseUrl, hfind, hcopy, ok_bind, hauthority]
    rfl

end NC
