import NetatalkClient.Model.Protocol

/-!
# Discovered services

`afpc_discovery_backend_emit` of `discovery.c`: the table of the services that the backends have
found, each with the sources that it is known from, and the queue of the events for the caller.
Each call may find that an allocation fails: `grow` is the outcome of the table's, `node` that of
the queue's.
-/

namespace NC

open List

inductive DiscoveryEventType where
  | add | update | remove | error
  deriving DecidableEq

/-- `struct afpc_discovery_service`, its texts up to the NUL. -/
structure DiscoveryService where
  instanceName : Bytes
  type : Bytes
  domain : Bytes
  interfaceIndex : Nat
  deriving DecidableEq

structure DiscoveryEntry where
  service : DiscoveryService
  sources : BitVec 32

structure DiscoveryEvent where
  type : DiscoveryEventType
  service : DiscoveryService
  error : Int
  message : Bytes

structure BackendEvent where
  type : DiscoveryEventType
  service : DiscoveryService
  source : BitVec 32
  error : Int
  message : Option Bytes

/-- `struct afpc_discovery` without the backend's own data. -/
structure Discovery where
  entries : List DiscoveryEntry
  entryCapacity : Nat
  events : List DiscoveryEvent

/-- What `copy_network_text` stores for a character. -/
def networkChar (ch : UInt8) : UInt8 := if ch < 0x20 ∨ ch = 0x7f then 0x3f else ch

/-- `copy_network_text` to a buffer of `size` bytes. -/
def copyNetworkText (size : Nat) (source : Bytes) : Except Int Bytes :=
  if size ≤ source.length then .error (-ENAMETOOLONG) else .ok (source.map networkChar)

def cutDot (text : Bytes) : Bytes :=
  if text.getLast? = some 0x2e then text.dropLast else text

def copyService (source : DiscoveryService) : Except Int DiscoveryService := do
  let instanceName ← copyNetworkText 64 source.instanceName
  let type ← copyNetworkText 64 source.type
  let domain ← copyNetworkText 256 source.domain
  return ⟨instanceName, cutDot type, domain, source.interfaceIndex⟩

namespace Discovery

def reserveEntry (d : Discovery) (grow : Bool) : Option Discovery :=
  if d.entries.length < d.entryCapacity then some d
  else if grow then
    some { d with entryCapacity := if d.entryCapacity = 0 then 8 else d.entryCapacity * 2 }
  else none

def queueEvent (d : Discovery) (node : Bool) (type : DiscoveryEventType)
    (service : Option DiscoveryService) (error : Int) (message : Option Bytes) : Int × Discovery :=
  if !node then (-ENOMEM, d)
  else
    let copied : Except Int DiscoveryEvent := do
      let service ← service.elim (pure ⟨[], [], [], 0⟩) copyService
      let message ← message.elim (pure []) (copyNetworkText 256)
      return ⟨type, service, error, message⟩
    match copied with
    | .error ret => (ret, d)
    | .ok event => (0, { d with events := d.events ++ [event] })

def backendEmit (d : Discovery) (grow node : Bool) (event : BackendEvent) : Int × Discovery :=
  if event.type = .error then d.queueEvent node .error none event.error event.message
  else
    match copyService event.service with
    | .error ret => (ret, d)
    | .ok service =>
      let source := if event.source = 0 then 1 else event.source
      let found (e : DiscoveryEntry) := e.service == service
      match event.type, d.entries.find? found with
      | .add, some _ => (0, { d with
          entries := updateFirst found (fun e => { e with sources := e.sources ||| source }) d.entries })
      | .add, none =>
        match d.reserveEntry grow with
        | none => (-ENOMEM, d)
        | some d =>
          let d : Discovery := { d with entries := d.entries ++ [⟨service, source⟩] }
          d.queueEvent node .add (some service) 0 none
      | .update, none => (-ENOENT, d)
      | .update, some _ => d.queueEvent node .update (some service) 0 none
      | .remove, some entry =>
        let left := entry.sources &&& ~~~source
        let d := { d with entries := updateFirst found (fun e => { e with sources := left }) d.entries }
        if left ≠ 0 then (0, d)
        else
          let (ret, d) := d.queueEvent node .remove (some entry.service) 0 none
          if ret ≠ 0 then (ret, d) else (0, { d with entries := d.entries.eraseP found })
      | _, _ => (0, d)

end Discovery

end NC
