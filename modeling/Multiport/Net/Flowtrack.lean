import Multiport.Lib.Maps
import Multiport.Net.Packet

/-!
# Tracked flows

`net/flowtrack`: the 5-tuples of flows, and the cache of flows that the packet
filter keeps.  The cache is a linked list of entries, in the order of their last
use, and a map from the tuple of an entry to its list element.
-/

namespace Multiport.Net.Flowtrack

open Lib

structure Tuple where
  src : BitVec 128
  dst : BitVec 128
  srcPort : UInt16
  dstPort : UInt16
  proto : Proto
deriving DecidableEq, Repr

def makeTuple (proto : Proto) (src dst : AddrPort) : Tuple where
  src := src.addr.as16
  dst := dst.addr.as16
  srcPort := src.port
  dstPort := dst.port
  proto := proto

/-! ## The cache -/

/-- The identity of a `*list.Element`. -/
abbrev Element := Nat

structure Entry (V : Type) where
  key : Tuple
  value : V
deriving DecidableEq, Repr

/-- `Cache`.  A nil map and a nil list are empty ones, and `next` is the identity
of the element that is allocated next. -/
structure Cache (V : Type) where
  maxEntries : Nat := 0
  ll : List (Element × Entry V) := []
  m : GoMap Tuple Element := ∅
  next : Element := 0

variable {V : Type}

variable (ll : List (Element × Entry V))

/-- `list.List.Remove`. -/
def removeFrom (e : Element) : List (Element × Entry V) :=
  ll.filter fun x => x.1 != e

/-- `list.List.MoveToFront`. -/
def moveToFront (e : Element) : List (Element × Entry V) :=
  ll.filter (fun x => x.1 == e) ++ removeFrom ll e

/-- `ee.Value.(*entry[Value]).value = value`. -/
def setValue (e : Element) (value : V) : List (Element × Entry V) :=
  ll.map fun x => if x.1 = e then (x.1, { x.2 with value := value }) else x

namespace Cache

variable (c : Cache V)

def len : Nat := c.m.size

def removeElement (e : Element × Entry V) : Cache V :=
  { c with ll := removeFrom c.ll e.1, m := c.m.erase e.2.key }

def removeOldest : Cache V :=
  match c.ll.getLast? with
  | some e => c.removeElement e
  | none => c

def add (key : Tuple) (value : V) : Cache V :=
  match c.m.lookup key with
  | some ee => { c with ll := setValue (moveToFront c.ll ee) ee value }
  | none =>
    let c := { c with
      ll := (c.next, ⟨key, value⟩) :: c.ll, m := c.m.insert key c.next, next := c.next + 1 }
    if c.maxEntries ≠ 0 ∧ c.maxEntries < c.len then c.removeOldest else c

/-- `Cache.Get`: the value, and the cache after the look-up. -/
def get (key : Tuple) : Option V × Cache V :=
  match c.m.lookup key with
  | some ele =>
    ((c.ll.find? fun x => x.1 == ele).map (·.2.value), { c with ll := moveToFront c.ll ele })
  | none => (none, c)

theorem m_get (key : Tuple) : (c.get key).2.m = c.m := by
  unfold get
  split <;> rfl

theorem lookup_of_lookup_add {c : Cache V} {key k : Tuple} {value : V} {e : Element}
    (h : (c.add key value).m.lookup k = some e) : k = key ∨ c.m.lookup k = some e := by
  refine or_iff_not_imp_left.2 fun hk => ?_
  unfold add at h
  split at h
  · exact h
  have hins : (c.m.insert key c.next).lookup k = some e := by
    simp only at h
    split at h
    · unfold removeOldest at h
      split at h
      · exact (GoMap.lookup_erase_iff.1 h).1
      · exact h
    · exact h
  rwa [GoMap.lookup_insert_eq, if_neg hk] at hins

end Cache

end Multiport.Net.Flowtrack
