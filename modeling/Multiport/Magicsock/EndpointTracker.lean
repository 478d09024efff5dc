import Multiport.Lib.Heap
import Multiport.Lib.Nested
import Multiport.Magicsock.ProbeManager

/-!
# The endpoint tracker

`endpointTracker` (`wgengine/magicsock/endpoint_tracker.go`) keeps advertising
endpoints for a while after they were last discovered.  For each IP address it has
a heap of endpoints, ordered by when they expire.  An entry is without its `index`,
which nothing reads.
-/

namespace Multiport.Magicsock

open Lib Net Tailcfg

def endpointTrackerLifetime : Duration := 5 * 60 * second + 10 * second

def endpointTrackerMaxPerAddr : Nat := 6

/-- `endpointTrackerEntry`; `untilTime` is its `until`. -/
structure EndpointTrackerEntry where
  endpoint : Endpoint
  untilTime : Time
deriving DecidableEq, Repr

instance : Inhabited EndpointTrackerEntry := ⟨⟨⟨{}, .unknown⟩, 0⟩⟩

abbrev EndpointHeap := List EndpointTrackerEntry

structure EndpointTracker where
  endpoints : GoMap Addr EndpointHeap := ∅

/-- The IP address that an endpoint is filed under. -/
def ipOf (ep : Endpoint) : Addr := ep.addr.addr

/-- A call of `update`: the time, the endpoints that are there now, and the order of the
`range` over the cache. -/
structure TrackerUpdate where
  now : Time
  eps : List Endpoint
  rank : Addr → Nat := fun _ => 0

/-! ## Heaps -/

namespace EndpointHeap

/-- `extendLocked`, on the heap of the address. -/
def extend (t : Time) (h : EndpointHeap) (ep : Endpoint) : EndpointHeap :=
  match h.findIdx? fun entry => entry.endpoint = ep with
  | some i => Heap.fix EndpointTrackerEntry.untilTime (h.set i ⟨ep, t⟩) i
  | none => h

/-- The inner loop of `removeExpiredLocked`. -/
def popExpired (now : Time) : Nat → EndpointHeap → EndpointHeap
  | 0, h => h
  | fuel + 1, h =>
    if 0 < h.length ∧ (h.getD 0 default).untilTime < now then
      popExpired now fuel (Heap.pop EndpointTrackerEntry.untilTime h)
    else h

/-- The loop of `addLocked`. -/
def popOver : Nat → EndpointHeap → EndpointHeap
  | 0, h => h
  | fuel + 1, h =>
    if endpointTrackerMaxPerAddr < h.length then
      popOver fuel (Heap.pop EndpointTrackerEntry.untilTime h)
    else h

/-- `addLocked`, on the heap of the address. -/
def add (t : Time) (h : EndpointHeap) (ep : Endpoint) : EndpointHeap :=
  let h := if h.any fun v => v.endpoint = ep then h
    else Heap.push EndpointTrackerEntry.untilTime h ⟨ep, t⟩
  popOver h.length h

end EndpointHeap

/-! ## The tracker -/

namespace EndpointTracker

def extendLocked (t : Time) (et : EndpointTracker) (ep : Endpoint) : EndpointTracker :=
  match et.endpoints.lookup (ipOf ep) with
  | none => et
  | some h => ⟨et.endpoints.insert (ipOf ep) (EndpointHeap.extend t h ep)⟩

def removeExpiredLocked (et : EndpointTracker) (now : Time) : EndpointTracker :=
  ⟨et.endpoints.filterMapValues fun h =>
    let h := EndpointHeap.popExpired now h.length h
    if h.length = 0 then none else some h⟩

def addLocked (t : Time) (et : EndpointTracker) (ep : Endpoint) : EndpointTracker :=
  let h := (et.endpoints.lookup (ipOf ep)).getD []
  ⟨et.endpoints.insert (ipOf ep) (EndpointHeap.add t h ep)⟩

/-- The cache after `update`. -/
def afterUpdate (et : EndpointTracker) (u : TrackerUpdate) : EndpointTracker :=
  let t := u.now + endpointTrackerLifetime
  let et := u.eps.foldl (extendLocked t) et
  let et := et.removeExpiredLocked u.now
  u.eps.foldl (addLocked t) et

/-- The entries of a heap that `update` adds to its result. -/
def fresh (u : TrackerUpdate) (h : EndpointHeap) : List Endpoint :=
  (h.filter fun ep =>
    !(u.eps.map Endpoint.addr).contains ep.endpoint.addr && !decide (ep.untilTime < u.now)).map
      EndpointTrackerEntry.endpoint

/-- `update`, with the cache that it leaves. -/
def update (et : EndpointTracker) (u : TrackerUpdate) : EndpointTracker × List Endpoint :=
  let et := et.afterUpdate u
  (et, u.eps ++ (et.endpoints.valuesBy u.rank).flatMap (fresh u))

end EndpointTracker

end Multiport.Magicsock
