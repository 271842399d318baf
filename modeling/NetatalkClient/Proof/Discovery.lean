import NetatalkClient.Model.Discovery

/-!
# The queue of discovered services and their table

`replay` follows the queued events of one service from the first on. `InStep` says that they
begin with an ADD, alternate ADD and REMOVE with UPDATEs only in between, and end with the
service known exactly if it is in the table. A call keeps that (`InStep.after`) unless
`queue_event` finds no memory for an ADD or a REMOVE, when the table has changed already; or the
service's type ends in two dots, when the table's copy has one of them and the queue's none.
-/

namespace NC

open List

namespace Discovery

/-- Whether a service is known behind one more event: `none` once an event does not follow from
those before it. -/
def hears (s : DiscoveryService) (known : Option Bool) (e : DiscoveryEvent) : Option Bool :=
  if e.service ≠ s ∨ e.type = .error then known
  else
    match e.type, known with
    | .add, some false => some true
    | .update, some true => some true
    | .remove, some true => some false
    | _, _ => none

/-- Whether a service is known behind the events. -/
def replay (s : DiscoveryService) (events : List DiscoveryEvent) : Option Bool :=
  events.foldl (hears s) (some false)

def services (d : Discovery) : List DiscoveryService := d.entries.map (·.service)

/-- The events of each service follow one another and leave it known exactly if it is in the
table, which has it once and with a source. -/
structure InStep (d : Discovery) : Prop where
  replay : ∀ s, replay s d.events = some (decide (s ∈ d.services))
  sources : ∀ e ∈ d.entries, e.sources ≠ 0
  distinct : d.services.Nodup

/-- A backend's event, and the outcome of the allocations. -/
structure Emit where
  grow : Bool
  node : Bool
  event : BackendEvent

def after (d : Discovery) (a : Emit) : Discovery := (d.backendEmit a.grow a.node a.event).2

/-- The call finds memory for an ADD or a REMOVE, of a service whose type does not end in two
dots. -/
def Emit.Tellable (a : Emit) : Prop :=
  (a.event.type = .add ∨ a.event.type = .remove → a.node = true) ∧
    cutDot (cutDot a.event.service.type) = cutDot a.event.service.type

instance (a : Emit) : Decidable a.Tellable := inferInstanceAs (Decidable (_ ∧ _))

/-! ## What is copied twice -/

variable {s t : DiscoveryService}

theorem copyService_eq_ok : copyService s = .ok t ↔
    s.instanceName.length < 64 ∧ s.type.length < 64 ∧ s.domain.length < 256 ∧
      t = ⟨s.instanceName.map networkChar, cutDot (s.type.map networkChar),
        s.domain.map networkChar, s.interfaceIndex⟩ := by
  simp only [copyService, copyNetworkText]
  split_ifs <;> simp [bind, Except.bind, pure, Except.pure] <;> grind

theorem networkChar_networkChar (ch : UInt8) : networkChar (networkChar ch) = networkChar ch := by
  by_cases h : ch < 0x20 ∨ ch = 0x7f <;> simp [networkChar, h]

theorem cutDot_map_networkChar (x : Bytes) :
    cutDot (x.map networkChar) = (cutDot x).map networkChar := by
  have hdot (ch : UInt8) : networkChar ch = 0x2e ↔ ch = 0x2e := by
    rw [networkChar]
    split
    · next h => exact ⟨nofun, fun hch => absurd h (hch ▸ by decide)⟩
    · rfl
  have hlast : (x.map networkChar).getLast? = some 0x2e ↔ x.getLast? = some 0x2e := by
    simp [hdot]
  rw [cutDot, cutDot, if_congr hlast rfl rfl, apply_ite (map networkChar), map_dropLast]

/-- A copy is copied as it is. -/
theorem copyService_copied (h : copyService s = .ok t)
    (hdot : cutDot (cutDot s.type) = cutDot s.type) : copyService t = .ok t := by
  obtain ⟨hi, ht, hd, rfl⟩ := copyService_eq_ok.1 h
  have hcut : (cutDot s.type).length ≤ s.type.length := by
    rw [cutDot]
    split <;> simp
  have hmap : ∀ x : Bytes, (x.map networkChar).map networkChar = x.map networkChar := fun x => by
    simp [networkChar_networkChar]
  refine copyService_eq_ok.2 ⟨by simpa using hi, ?_, by simpa using hd, ?_⟩
  · simp only [cutDot_map_networkChar, length_map]
    omega
  · simp [cutDot_map_networkChar, hmap, hdot]

/-! ## One call -/

variable {d d' : Discovery}

theorem queueEvent_copied (h : copyService s = .ok s) (type : DiscoveryEventType) :
    d.queueEvent true type (some s) 0 none =
      (0, { d with events := d.events ++ [⟨type, s, 0, []⟩] }) := by
  simp [queueEvent, h, bind, Except.bind, pure, Except.pure]

/-- The event of `s` says what becomes of it in the table, and nothing of another service. -/
theorem InStep.told {type : DiscoveryEventType} {l : List DiscoveryService} (h : InStep d)
    (hevents : d'.events = d.events ++ [⟨type, s, 0, []⟩]) (hl : d'.services = l)
    (hself : hears s (some (decide (s ∈ d.services))) ⟨type, s, 0, []⟩ = some (decide (s ∈ l)))
    (hothers : ∀ t ≠ s, t ∈ l ↔ t ∈ d.services) (hdistinct : l.Nodup)
    (hsources : ∀ e ∈ d'.entries, e.sources ≠ 0) : InStep d' where
  sources := hsources
  distinct := hl ▸ hdistinct
  replay t := by
    rw [hevents, hl, Discovery.replay, foldl_append, ← Discovery.replay, h.replay]
    by_cases ht : t = s
    · exact ht ▸ hself
    · simp [hears, Ne.symm ht, hothers t ht]

theorem InStep.queueError {node : Bool} {error : Int} {message : Option Bytes} (h : InStep d) :
    InStep (d.queueEvent node .error none error message).2 := by
  unfold queueEvent
  cases node with
  | false => exact h
  | true =>
    cases hm : (message.elim (pure []) (copyNetworkText 256) : Except Int Bytes) with
    | error ret => exact h
    | ok text =>
      refine ⟨fun s => ?_, h.sources, h.distinct⟩
      simpa [Discovery.replay, hears, services] using h.replay s

theorem reserveEntry_same {grow : Bool} (h : d.reserveEntry grow = some d') :
    d'.entries = d.entries ∧ d'.events = d.events := by
  unfold reserveEntry at h
  split_ifs at h <;> cases h <;> exact ⟨rfl, rfl⟩

/-- The sources of a service change, and are not all gone. -/
theorem InStep.changed {found : DiscoveryEntry → Bool} {f : DiscoveryEntry → BitVec 32}
    (h : InStep d) (hf : ∀ e ∈ d.entries, f e ≠ 0) : InStep { d with
      entries := updateFirst found (fun e => { e with sources := f e }) d.entries } := by
  have hl : (updateFirst found (fun e => { e with sources := f e }) d.entries).map (·.service) =
      d.services := map_updateFirst (h := DiscoveryEntry.service)
    (f := fun e => { e with sources := f e }) (fun _ => rfl) _
  refine ⟨fun t => ?_, fun e he => ?_, ?_⟩
  · simp only [services, hl]
    exact h.replay t
  · obtain he | ⟨b, hb, -, rfl⟩ := mem_updateFirst he
    · exact h.sources e he
    · exact hf b hb
  · simpa [services, hl] using h.distinct

/-- **One call.** -/
theorem InStep.after {a : Emit} (h : InStep d) (ha : a.Tellable) : InStep (d.after a) := by
  obtain ⟨grow, node, ⟨type, service, source, error, message⟩⟩ := a
  obtain ⟨hnode, hdot⟩ := ha
  rw [Discovery.after, backendEmit]
  split
  · exact h.queueError
  dsimp only at hnode hdot ⊢
  split
  · exact h
  next s hs =>
  have hcopy := copyService_copied hs hdot
  generalize hbits : (if source = 0 then 1 else source) = bits
  have hbits0 : bits ≠ 0 := by
    subst hbits
    split
    · decide
    · assumption
  cases hf : d.entries.find? (fun e => e.service == s) with
  | none =>
    have hs : s ∉ d.services := by
      simpa [services] using hf
    cases type with
    | add =>
      cases hnode (.inl rfl)
      dsimp only
      split
      · exact h
      next d₁ hd₁ =>
      obtain ⟨hentries, hevents⟩ := reserveEntry_same hd₁
      rw [queueEvent_copied hcopy, hentries, hevents]
      refine h.told (l := d.services ++ [s]) rfl map_append ?_ (fun t ht => ?_) ?_ ?_
      · simp [hears, hs]
      · simp [ht]
      · rw [← concat_eq_append]
        exact (nodup_concat _ _).2 ⟨hs, h.distinct⟩
      · simpa [or_imp, forall_and] using ⟨h.sources, hbits0⟩
    | update | remove | error => exact h
  | some entry =>
    have hentry := mem_of_find?_eq_some hf
    obtain rfl : entry.service = s := by simpa using find?_some hf
    have hs : entry.service ∈ d.services := mem_map_of_mem hentry
    cases type with
    | add => exact h.changed fun e he h0 => h.sources e he (BitVec.or_eq_zero_iff.1 h0).1
    | update =>
      cases node with
      | false => exact h
      | true =>
        rw [queueEvent_copied hcopy]
        refine h.told (l := d.services) rfl rfl ?_ (fun _ _ => Iff.rfl) h.distinct h.sources
        simp [hears, hs]
    | remove =>
      cases hnode (.inr rfl)
      dsimp only
      split
      · next hleft => exact h.changed fun _ _ => hleft
      · rw [queueEvent_copied hcopy, if_neg (by simp)]
        have herase := eraseP_updateFirst (P := (·.service == entry.service))
          (f := fun e => { e with sources := entry.sources &&& ~~~bits }) (fun _ => rfl) d.entries
        refine h.told (l := d.services.erase entry.service) rfl ?_ ?_ (fun t ht => mem_erase_of_ne ht)
          (h.distinct.erase _) fun e he => h.sources e (mem_of_mem_eraseP (herase ▸ he))
        · rw [services, services, erase_eq_eraseP', eraseP_map]
          exact congrArg _ herase
        · simp [hears, hs, h.distinct.not_mem_erase]
    | error => exact h

/-- The state in which no service has been found. -/
def start : Discovery := ⟨[], 0, []⟩

/-- Behind all calls that find memory for an ADD or a REMOVE, of services whose types do not end
in two dots, the queue and the table are in step. -/
theorem queue_in_step (as : List Emit) (h : ∀ a ∈ as, a.Tellable) :
    InStep (as.foldl Discovery.after start) := by
  refine foldlRecOn as Discovery.after ?_ fun d hd a ha => hd.after (h a ha)
  exact ⟨fun _ => rfl, nofun, nodup_nil⟩

/-- A service of the type given, found from one source. -/
def addOf (type : Bytes) : BackendEvent := ⟨.add, ⟨[0x61], type, [], 0⟩, 2, 0, none⟩

/-- The service is found, while the table cannot grow and then once it can, and is gone. -/
theorem queue_in_step_found : InStep ([⟨false, true, addOf [0x78, 0x2e]⟩,
    ⟨true, true, addOf [0x78, 0x2e]⟩, ⟨true, true, { addOf [0x78] with type := .remove }⟩].foldl
      Discovery.after start) :=
  queue_in_step _ (by decide)

/-- The service is found, and then lost from its one source without memory for the event. -/
def removedWithoutMemory : Discovery :=
  [⟨true, true, addOf [0x78]⟩, ⟨true, false, { addOf [0x78] with type := .remove }⟩].foldl
    Discovery.after start

/-- Without memory for an ADD, the table has a service that no event told of. With two dots at
the end of its type, the table and the ADD have different services. And without memory for a
REMOVE, the table keeps a service with no source. -/
theorem queue_out_of_step :
    ((start.after ⟨true, false, addOf [0x78]⟩).services.length = 1 ∧
      (start.after ⟨true, false, addOf [0x78]⟩).events.length = 0) ∧
    ((start.after ⟨true, true, addOf [0x78, 0x2e, 0x2e]⟩).services.map (·.type) = [[0x78, 0x2e]] ∧
      (start.after ⟨true, true, addOf [0x78, 0x2e, 0x2e]⟩).events.map (·.service.type) = [[0x78]]) ∧
    removedWithoutMemory.entries.map (·.sources) = [0] ∧
    ¬InStep (start.after ⟨true, false, addOf [0x78]⟩) ∧
    ¬InStep (start.after ⟨true, true, addOf [0x78, 0x2e, 0x2e]⟩) ∧ ¬InStep removedWithoutMemory := by
  refine ⟨by decide, by decide, by decide, fun h => ?_, fun h => ?_, fun h => ?_⟩
  · exact absurd (h.replay ⟨[0x61], [0x78], [], 0⟩) (by decide)
  · exact absurd (h.replay ⟨[0x61], [0x78], [], 0⟩) (by decide)
  · exact h.sources ⟨⟨[0x61], [0x78], [], 0⟩, 0⟩ (mem_singleton_self _) rfl

end Discovery

end NC
