import Mathlib.Data.Prod.Lex
import Mathlib.Data.String.Basic
import Multiport.Dns.Name
import Multiport.Lib.Maps
import Multiport.Lib.Walk
import Multiport.Net.Prefix

/-!
# App connectors

`appc/appconnector.go` and `appc/observe.go`: a table of the configured domains with the
addresses that DNS responses gave for them, and the routes that are advertised for these
addresses and for the ranges control asks for.

The methods that the source queues are the operations `Op`, which run later and one at a
time.  A function of the source that writes to the table fails when the table is a nil map,
as Go does, and a loop without a bound in the source gets `rounds` of them.

`golang.org/x/net/dns/dnsmessage` is outside the repository.  Its parser is a function
from a message to its answers; each of them says what the parser returns while it is at
that answer, so that reading its header again returns the same header.
-/

namespace Multiport.Appc

open Lib Net Dns List

/-! ## The table of domains -/

/-- What `compareAddr` compares: the length, the bits, the zone. -/
def addrKey (a : Addr) : ℕ ×ₗ ℕ ×ₗ String := toLex (a.bitLen, toLex (a.as16.toNat, a.zone))

/-- `compareAddr` is not positive. -/
def AddrLE (a b : Addr) : Prop := addrKey a ≤ addrKey b

instance : DecidableRel AddrLE := fun a b => inferInstanceAs (Decidable (addrKey a ≤ addrKey b))

instance : Std.Total AddrLE := ⟨fun a b => le_total (addrKey a) (addrKey b)⟩

instance : IsTrans Addr AddrLE := ⟨fun _ _ _ => le_trans⟩

/-- The addresses of a domain, an ordered list. -/
structure AddrList where
  addrs : List Addr := []
  ordered : addrs.Pairwise AddrLE := by exact List.Pairwise.nil
  deriving DecidableEq

instance : Membership Addr AddrList := ⟨fun l a => a ∈ l.addrs⟩

instance (a : Addr) (l : AddrList) : Decidable (a ∈ l) := inferInstanceAs (Decidable (a ∈ l.addrs))

/-- `append` and `slices.SortFunc`. -/
def AddrList.add (l : AddrList) (a : Addr) : AddrList :=
  ⟨(l.addrs ++ [a]).insertionSort AddrLE, pairwise_insertionSort _ _⟩

@[simp] theorem AddrList.mem_add {l : AddrList} {a b : Addr} : b ∈ l.add a ↔ b ∈ l ∨ b = a := by
  change b ∈ (l.addrs ++ [a]).insertionSort AddrLE ↔ b ∈ l.addrs ∨ b = a
  rw [mem_insertionSort, mem_append, mem_singleton]

@[simp] theorem AddrList.not_mem_default {a : Addr} : ¬ a ∈ ({} : AddrList) := not_mem_nil

/-- `netip.PrefixFrom(a, a.BitLen())`. -/
def single (a : Addr) : Prefix := .prefixFrom a a.bitLen

/-- What keeps a function of the source from returning. -/
inductive Fault
  /-- An assignment to an entry of a nil map, which panics. -/
  | nilMap
  /-- A loop of the source is not done after the rounds of the model. -/
  | outOfRounds
  deriving DecidableEq, Repr

/-- `AppConnector`, and whether it has a `routeAdvertiser`. -/
structure AppConnector where
  hasAdvertiser : Bool := false
  hasStoredRoutes : Bool := false
  domains : Option (GoMap Name AddrList) := none
  controlRoutes : List Prefix := []
  wildcards : List Name := []
  deriving DecidableEq

/-- `appctype.RouteInfo`. -/
structure RouteInfo where
  control : List Prefix
  domains : Option (GoMap Name AddrList)
  wildcards : List Name

def newAppConnector (hasAdvertiser hasStoredRoutes : Bool) (routeInfo : Option RouteInfo) :
    AppConnector :=
  match routeInfo with
  | none => { hasAdvertiser, hasStoredRoutes }
  | some info =>
    { hasAdvertiser, hasStoredRoutes, domains := info.domains, wildcards := info.wildcards
      controlRoutes := info.control }

namespace AppConnector

variable (e : AppConnector)

variable (domain : Name)

/-- `e.domains[domain]`, if it is there. -/
def lookup : Option AddrList := e.domains.bind (·.lookup domain)

/-- `_, ok := e.domains[domain]`. -/
def tracks : Bool := (e.lookup domain).isSome

/-- `e.domains[domain]`, which is empty for a domain that is not there. -/
def domainAddrs : AddrList := (e.lookup domain).getD {}

/-- `e.domains[domain] = addrs`. -/
def setDomain (addrs : AddrList) : Except Fault AppConnector :=
  match e.domains with
  | none => .error .nilMap
  | some m => .ok { e with domains := some (m.insert domain addrs) }

/-- Whether some wildcard matches the domain. -/
def below : Bool := e.wildcards.any (hasSuffix domain)

/-- `hasDomainAddrLocked`: the binary search in an ordered list finds its members. -/
def hasDomainAddrLocked (addr : Addr) : Bool :=
  addr ∈ e.domainAddrs domain

def addDomainAddrLocked (addr : Addr) : Except Fault AppConnector :=
  e.setDomain domain ((e.domainAddrs domain).add addr)

/-- The match of one round against the wildcards, which tracks the domain. -/
def touch : Except Fault AppConnector :=
  if e.below domain then e.setDomain domain {} else .ok e

/-- `findRoutedDomainLocked`, with at most so many rounds of its loop. -/
def findRoutedDomainLocked (cnameChain : GoMap Name Name) :
    Nat → AppConnector → Name → Except Fault ((Name × Bool) × AppConnector)
  | 0, _, _ => .error .outOfRounds
  | rounds + 1, e, domain =>
    if e.tracks domain then .ok ((domain, true), e)
    else
      (e.touch domain).bind fun e' =>
        match cnameChain.lookup domain with
        | none => .ok ((domain, e.below domain), e')
        -- The next round sets `isRouted` again.
        | some next => findRoutedDomainLocked cnameChain rounds e' next

def isAddrKnownLocked (addr : Addr) : Except Fault (Bool × AppConnector) :=
  if e.hasDomainAddrLocked domain addr then .ok (true, e)
  else if e.controlRoutes.any (·.contains addr) then
    (e.addDomainAddrLocked domain addr).map (true, ·)
  else .ok (false, e)

end AppConnector

/-! ## Queued operations -/

/-- What is queued.  A function that the source queues is one of these or several in a row,
each of which runs under the lock of the connector or without it. -/
inductive Op
  /-- `routeAdvertiser.AdvertiseRoute`. -/
  | advertise (routes : List Prefix)
  /-- `routeAdvertiser.UnadvertiseRoute`. -/
  | unadvertise (routes : List Prefix)
  /-- The end of `scheduleAdvertisement`, which records the addresses of the routes. -/
  | record (domain : Name) (routes : List Prefix)
  deriving DecidableEq

namespace AppConnector

def scheduleAdvertisement (e : AppConnector) (domain : Name) (routes : List Prefix) : List Op :=
  (if e.hasAdvertiser then [.advertise routes] else []) ++ [.record domain routes]

/-- The variables of `updateDomains`. -/
structure Configure where
  oldDomains : GoMap Name AddrList
  domains : GoMap Name AddrList := ∅
  wildcards : List Name := []

/-- What `updateDomains` does with one of the domains it is given. -/
def configure (toLower : Name → Name) (x : Configure) (d : Name) : Configure :=
  let d := toLower d
  if d = [] then x
  else if ['*', '.'].isPrefixOf d then { x with wildcards := x.wildcards ++ [d.drop 2] }
  else
    { x with
      domains := x.domains.insert d ((x.oldDomains.lookup d).getD {})
      oldDomains := x.oldDomains.erase d }

/-- The loop of `updateDomains` that keeps the domains below a wildcard. -/
def keepBelow (x : Configure) : Configure :=
  let kept (d : Name) (_ : AddrList) : Bool := x.wildcards.any (hasSuffix d)
  { x with
    domains := x.domains.insertAll (x.oldDomains.deleteWhere fun d addrs => !kept d addrs)
    oldDomains := x.oldDomains.deleteWhere kept }

/-- `updateDomains`, and what it adds to the queue. -/
def updateDomains (toLower : Name → Name) (e : AppConnector) (domains : List Name) :
    AppConnector × List Op :=
  let x := keepBelow (domains.foldl (configure toLower) { oldDomains := e.domains.getD ∅ })
  let toRemove := x.oldDomains.values.flatMap (·.addrs.map single)
  ({ e with domains := some x.domains, wildcards := x.wildcards },
    if e.hasStoredRoutes && toRemove ≠ [] && e.hasAdvertiser then [.unadvertise toRemove] else [])

end AppConnector

/-! ## DNS responses -/

/-- `dnsmessage.Class`. -/
inductive Class
  | inet
  | other (code : UInt16)
  deriving DecidableEq

/-- `dnsmessage.Type`. -/
inductive RecordType
  | a
  | aaaa
  | cname
  | other (code : UInt16)
  deriving DecidableEq

/-- `dnsmessage.ResourceHeader`. -/
structure ResourceHeader where
  name : Name
  type : RecordType
  cls : Class
  deriving DecidableEq

variable {ε : Type}

/-- What the parser returns at one answer: its header, its body read as a CNAME, A or
AAAA record, and the error of skipping it. -/
structure Answer (ε : Type) where
  header : Except ε ResourceHeader
  cname : Except ε Name
  a : Except ε (BitVec 32)
  aaaa : Except ε (BitVec 128)
  skipError : Option ε := none

/-- `dnsmessage.Parser`: the answers of a message, after `Start` and `SkipAllQuestions`. -/
abbrev Parser (ε : Type) := List UInt8 → Except ε (List (Answer ε))

/-- The variables of the scan of the answers. -/
structure Scan (ε : Type) where
  answers : List (Answer ε)
  cnameChain : GoMap Name Name := ∅
  addressRecords : GoMap Name (List Addr) := ∅

/-- `strings.TrimSuffix(strings.ToLower(name), ".")`. -/
def trimName (toLower : Name → Name) (name : Name) : Name := trimSuffix (toLower name) ['.']

namespace Scan

/-- The parser goes on to the next answer, unless it has failed at this one. -/
def skip (x : Scan ε) (err : Option ε) : Except (Option ε) (Option (Scan ε)) :=
  match err with
  | some err => .error (some err)
  | none => .ok (some { x with answers := x.answers.tail })

/-- `addressRecords[domain] = append(addressRecords[domain], addr)`. -/
def addAddr (x : Scan ε) (domain : Name) (addr : Addr) : Scan ε :=
  { x with
    answers := x.answers.tail
    addressRecords := x.addressRecords.append domain addr }

/-- `cnameChain[cname] = domain`, if there is a name. -/
def addCname (x : Scan ε) (cname domain : Name) : Scan ε :=
  { x with
    answers := x.answers.tail
    cnameChain := if cname = [] then x.cnameChain else x.cnameChain.insert cname domain }

/-- One round of the scan.  The error `none` is that of the model, too few rounds. -/
def step (toLower : Name → Name) (x : Scan ε) : Except (Option ε) (Option (Scan ε)) :=
  match x.answers with
  | [] => .ok none
  | ans :: _ =>
    match ans.header with
    | .error err => .error (some err)
    | .ok h =>
      if h.cls ≠ .inet then x.skip ans.skipError
      else
        let domain := trimName toLower h.name
        match h.type with
        | .other _ => x.skip ans.skipError
        -- A record without a name is neither read nor skipped.
        | .cname =>
          if domain = [] then .ok (some x)
          else (ans.cname.mapError some).map fun n => some (x.addCname (trimName toLower n) domain)
        | .a =>
          if domain = [] then .ok (some x)
          else (ans.a.mapError some).map fun n => some (x.addAddr domain (.v4 n))
        | .aaaa =>
          if domain = [] then .ok (some x)
          else (ans.aaaa.mapError some).map fun n => some (x.addAddr domain (.addrFrom16 n))

end Scan

namespace AppConnector

/-- What `ObserveDNSResponse` does with one address of a routed domain. -/
def observeAddr (domain : Name) (x : AppConnector × List Prefix) (addr : Addr) :
    Except Fault (AppConnector × List Prefix) := do
  let (known, e) ← x.1.isAddrKnownLocked domain addr
  return (e, if known then x.2 else x.2 ++ [single addr])

/-- What `ObserveDNSResponse` does with the addresses of one name. -/
def observeRecord (cnameChain : GoMap Name Name) (rounds : Nat) (x : AppConnector × List Op)
    (record : Σ _ : Name, List Addr) : Except Fault (AppConnector × List Op) := do
  let ((domain, isRouted), e) ← findRoutedDomainLocked cnameChain rounds x.1 record.1
  if !isRouted then return (e, x.2)
  else
    let (e, toAdvertise) ← record.2.foldlM (observeAddr domain) (e, [])
    return (e, if toAdvertise = [] then x.2 else x.2 ++ e.scheduleAdvertisement domain toAdvertise)

/-- `ObserveDNSResponse`, for an order of the names with addresses: the error it returns,
and what it adds to the queue. -/
def observeDNSResponse (parse : Parser ε) (toLower : Name → Name) (rounds : Nat)
    (order : GoMap.RangeOrder Name (List Addr)) (e : AppConnector) (res : List UInt8) :
    Except Fault (Option ε × AppConnector × List Op) :=
  match parse res with
  | .error err => .ok (some err, e, [])
  | .ok answers =>
    match walk (Scan.step toLower) none rounds { answers } with
    | .error none => .error .outOfRounds
    | .error (some err) => .ok (some err, e, [])
    | .ok x =>
      ((order.entries x.addressRecords).foldlM (observeRecord x.cnameChain rounds) (e, [])).map
        (none, ·)

end AppConnector

end Multiport.Appc
