import Multiport.Disco.Message
import Multiport.Lib.Nested
import Multiport.Magicsock.Endpoint
import Multiport.Magicsock.PeerMap
import Multiport.Magicsock.RelayServers

/-!
# The relay manager

`relayManager` (`wgengine/magicsock/relaymanager.go`) asks relay servers to
allocate an endpoint for a peer and shakes hands with the endpoints that it
learns of.  A single goroutine, `runLoop`, takes one event after another and
owns the maps of the work under way.  It stops when there is none and the next
event starts it again, which the maps do not notice.

The work itself is done by one goroutine for each piece of work.  It ends by
putting its result into `doneCh`, from where the run loop takes it when it
cleans up, and offers the same result to the run loop as an event.  What is in
the channel of each work is part of the input here (`Results`), and so is which
case of a `select` is taken.  The order of a `range` over a map is an argument.
-/

namespace Multiport.Magicsock

open Disco Lib Net Tailcfg

/-! ## Data -/

/-- `udprelay.ServerEndpoint`. -/
abbrev ServerEndpoint := UDPRelayEndpoint

structure EndpointWithLastBest where
  ep : EndpointRef
  lastBest : AddrQuality := {}
  lastBestIsTrusted : Bool := false
deriving DecidableEq

structure ServerDiscoVNI where
  serverDisco : PublicKey
  vni : BitVec 32
deriving DecidableEq, Repr

structure AddrPortVNI where
  addrPort : AddrPort
  vni : BitVec 32
deriving DecidableEq, Repr

/-- A `*relayEndpointAllocWork` without its channels and context. -/
structure AllocWork where
  ptr : Nat
  wlb : EndpointWithLastBest
  discoKeys : SortedPairOfDiscoPublic
  candidatePeerRelay : CandidatePeerRelay
  allocGen : BitVec 32
deriving DecidableEq

/-- A `*relayHandshakeWork` without its channels and context. -/
structure HandshakeWork where
  ptr : Nat
  wlb : EndpointWithLastBest
  se : ServerEndpoint
  server : CandidatePeerRelay
  handshakeGen : BitVec 32
deriving DecidableEq

structure NewRelayServerEndpointEvent where
  wlb : EndpointWithLastBest
  se : ServerEndpoint
  server : CandidatePeerRelay := ⟨0, 0, 0⟩
deriving DecidableEq

/-- `relayEndpointAllocWorkDoneEvent`. -/
structure AllocWorkDoneEvent where
  work : AllocWork
  allocated : ServerEndpoint
deriving DecidableEq

/-- `relayEndpointHandshakeWorkDoneEvent`. -/
structure HandshakeWorkDoneEvent where
  work : HandshakeWork
  pongReceivedFrom : AddrPort
  latency : Duration
deriving DecidableEq

structure RelayDiscoMsgEvent where
  msg : Message
  relayServerNodeKey : PublicKey := 0
  disco : PublicKey
  source : AddrPort
  vni : BitVec 32
deriving DecidableEq

/-- What the goroutines of the work put into their channels. -/
structure Results where
  allocated : AllocWork → ServerEndpoint := fun _ => {}
  pong : HandshakeWork → AddrPort × Duration := fun _ => ({}, 0)

/-- What the run loop sets off: goroutines, and messages that it hands to those of the
work under way. -/
inductive RelayEffect where
  | sendCallMeMaybeVia (ep : EndpointRef) (se : ServerEndpoint)
  | handshakeServerEndpoint (work : HandshakeWork)
  | allocateServerEndpoint (work : AllocWork)
  | udpRelayEndpointReady (ep : EndpointRef) (quality : AddrQuality)
  | sendPong (dst : EpAddr) (disco : PublicKey) (pong : Pong)
  | allocRxDiscoMsg (work : AllocWork) (msg : AllocateUDPRelayEndpointResponse)
  | handshakeRxDiscoMsg (work : HandshakeWork) (event : RelayDiscoMsgEvent)
deriving DecidableEq

/-- `relayManager`, with what it set off so far. -/
structure RelayManager where
  servers : RelayServers := {}
  allocWorkByCandidatePeerRelayByEndpoint : Nested EndpointRef CandidatePeerRelay AllocWork := {}
  allocWorkByDiscoKeysByServerNodeKey : Nested PublicKey SortedPairOfDiscoPublic AllocWork := {}
  handshakeWorkByServerDiscoByEndpoint : Nested EndpointRef PublicKey HandshakeWork := {}
  handshakeWorkByServerDiscoVNI : GoMap ServerDiscoVNI HandshakeWork := ∅
  handshakeWorkAwaitingPong : GoMap HandshakeWork AddrPortVNI := ∅
  addrPortVNIToHandshakeWork : GoMap AddrPortVNI HandshakeWork := ∅
  handshakeGeneration : BitVec 32 := 0
  allocGeneration : BitVec 32 := 0
  nextWork : Nat := 0
  effects : List RelayEffect := []

namespace HandshakeWork

/-- The keys of a work in `handshakeWorkByServerDiscoByEndpoint`. -/
def epServer (w : HandshakeWork) : EndpointRef × PublicKey := (w.wlb.ep, w.se.serverDisco)

/-- The key of a work in `handshakeWorkByServerDiscoVNI`. -/
def sdv (w : HandshakeWork) : ServerDiscoVNI := ⟨w.se.serverDisco, w.se.vni⟩

end HandshakeWork

namespace AllocWork

/-- The keys of a work in `allocWorkByCandidatePeerRelayByEndpoint`. -/
def epCandidate (w : AllocWork) : EndpointRef × CandidatePeerRelay :=
  (w.wlb.ep, w.candidatePeerRelay)

/-- The keys of a work in `allocWorkByDiscoKeysByServerNodeKey`. -/
def serverKeys (w : AllocWork) : PublicKey × SortedPairOfDiscoPublic :=
  (w.candidatePeerRelay.nodeKey, w.discoKeys)

end AllocWork

namespace NewRelayServerEndpointEvent

/-- The keys that work for the event would have. -/
def epServer (e : NewRelayServerEndpointEvent) : EndpointRef × PublicKey :=
  (e.wlb.ep, e.se.serverDisco)

@[inherit_doc epServer]
def sdv (e : NewRelayServerEndpointEvent) : ServerDiscoVNI := ⟨e.se.serverDisco, e.se.vni⟩

end NewRelayServerEndpointEvent

def CandidatePeerRelay.isValid (c : CandidatePeerRelay) : Bool := c.nodeKey != 0 && c.discoKey != 0

/-- `<-work.doneCh`, for an allocation. -/
def Results.allocDone (res : Results) (work : AllocWork) : AllocWorkDoneEvent where
  work := work
  allocated := res.allocated work

/-- `<-work.doneCh`, for a handshake. -/
def Results.handshakeDone (res : Results) (work : HandshakeWork) : HandshakeWorkDoneEvent where
  work := work
  pongReceivedFrom := (res.pong work).1
  latency := (res.pong work).2

namespace RelayManager

variable (r : RelayManager)

/-- Sets off one more thing. -/
def run (effect : RelayEffect) : RelayManager :=
  { r with effects := r.effects ++ [effect] }

def hasActiveWorkForEndpointRunLoop (ep : EndpointRef) : Bool :=
  (r.handshakeWorkByServerDiscoByEndpoint.maps.lookup ep).isSome ||
    (r.allocWorkByCandidatePeerRelayByEndpoint.maps.lookup ep).isSome

/-! ## Handshakes -/

/-- The work leaves the maps that wait for its pong. -/
def forgetPong (work : HandshakeWork) : RelayManager :=
  match r.handshakeWorkAwaitingPong.lookup work with
  | some apv =>
    { r with
      handshakeWorkAwaitingPong := r.handshakeWorkAwaitingPong.erase work
      addrPortVNIToHandshakeWork := r.addrPortVNIToHandshakeWork.erase apv }
  | none => r

/-- The work leaves all maps. -/
def forgetHandshake (work : HandshakeWork) : RelayManager :=
  forgetPong
    { r with
      handshakeWorkByServerDiscoByEndpoint :=
        r.handshakeWorkByServerDiscoByEndpoint.delete work.epServer
      handshakeWorkByServerDiscoVNI := r.handshakeWorkByServerDiscoVNI.erase work.sdv }
    work

def handleHandshakeWorkDoneRunLoop (done : HandshakeWorkDoneEvent) : RelayManager :=
  if r.handshakeWorkByServerDiscoByEndpoint.find done.work.epServer = some done.work then
    let r := r.forgetHandshake done.work
    if done.pongReceivedFrom.isValid then
      r.run (.udpRelayEndpointReady done.work.wlb.ep
        (relayQuality done.pongReceivedFrom done.work.se.vni done.work.se.serverDisco done.latency))
    else r
  else r

/-- The generation after this one, which is not zero. -/
def nextHandshakeGeneration : BitVec 32 :=
  if r.handshakeGeneration + 1 = 0 then 1 else r.handshakeGeneration + 1

/-- The work that `handleNewServerEndpointRunLoop` starts. -/
def newHandshakeWork (e : NewRelayServerEndpointEvent) : HandshakeWork where
  ptr := r.nextWork
  wlb := e.wlb
  se := e.se
  server := e.server
  handshakeGen := r.nextHandshakeGeneration

/-- The end of `handleNewServerEndpointRunLoop`: no other work is in the way. -/
def startHandshake (e : NewRelayServerEndpointEvent) : RelayManager :=
  let r := if e.server.isValid then r.run (.sendCallMeMaybeVia e.wlb.ep e.se) else r
  if e.se.serverDisco = e.wlb.lastBest.relayServerDisco ∧ e.wlb.lastBestIsTrusted then r
  else
    let work := r.newHandshakeWork e
    run
      { r with
        handshakeWorkByServerDiscoByEndpoint :=
          r.handshakeWorkByServerDiscoByEndpoint.put e.epServer work
        handshakeWorkByServerDiscoVNI := r.handshakeWorkByServerDiscoVNI.insert e.sdv work
        handshakeGeneration := r.nextHandshakeGeneration
        nextWork := r.nextWork + 1 }
      (.handshakeServerEndpoint work)

variable (res : Results)

/-- The second check of `handleNewServerEndpointRunLoop`, by endpoint and server disco. -/
def supersedeByEndpoint (r : RelayManager) (e : NewRelayServerEndpointEvent) : RelayManager :=
  match r.handshakeWorkByServerDiscoByEndpoint.find e.epServer with
  | some existing =>
    if e.se.lamportID ≤ existing.se.lamportID then r
    else (r.handleHandshakeWorkDoneRunLoop (res.handshakeDone existing)).startHandshake e
  | none => r.startHandshake e

/-- `handleNewServerEndpointRunLoop`, which begins with a check by server disco and VNI. -/
def handleNewServerEndpointRunLoop (r : RelayManager)
    (e : NewRelayServerEndpointEvent) : RelayManager :=
  match r.handshakeWorkByServerDiscoVNI.lookup e.sdv with
  | some existing =>
    if e.se.lamportID ≤ existing.se.lamportID then r
    else (r.handleHandshakeWorkDoneRunLoop (res.handshakeDone existing)).supersedeByEndpoint res e
  | none => r.supersedeByEndpoint res e

/-! ## Allocations -/

def handleAllocWorkDoneRunLoop (r : RelayManager) (done : AllocWorkDoneEvent) : RelayManager :=
  if r.allocWorkByCandidatePeerRelayByEndpoint.find done.work.epCandidate = some done.work then
    let r := { r with
      allocWorkByCandidatePeerRelayByEndpoint :=
        r.allocWorkByCandidatePeerRelayByEndpoint.delete done.work.epCandidate }
    match r.allocWorkByDiscoKeysByServerNodeKey.maps.lookup
      done.work.candidatePeerRelay.nodeKey with
    | none => r
    | some _ =>
      let r := { r with
        allocWorkByDiscoKeysByServerNodeKey :=
          r.allocWorkByDiscoKeysByServerNodeKey.delete done.work.serverKeys }
      if done.allocated.serverDisco = 0 then r
      else
        r.handleNewServerEndpointRunLoop res
          ⟨done.work.wlb, done.allocated, done.work.candidatePeerRelay⟩
  else r

variable (wlb : EndpointWithLastBest)

/-- The work that `allocateAllServersRunLoop` starts for a server. -/
def newAllocWork (discoKeys : SortedPairOfDiscoPublic) (v : CandidatePeerRelay) : AllocWork where
  ptr := r.nextWork
  wlb := wlb
  discoKeys := discoKeys
  candidatePeerRelay := v
  allocGen := r.allocGeneration + 1

/-- A round of the loop of `allocateAllServersRunLoop`. -/
def allocateServer (discoKeys : SortedPairOfDiscoPublic)
    (r : RelayManager) (v : CandidatePeerRelay) : RelayManager :=
  if (r.allocWorkByDiscoKeysByServerNodeKey.find (v.nodeKey, discoKeys)).isSome then r
  else
    let started := r.newAllocWork wlb discoKeys v
    run
      { r with
        allocWorkByDiscoKeysByServerNodeKey :=
          r.allocWorkByDiscoKeysByServerNodeKey.put (v.nodeKey, discoKeys) started
        allocWorkByCandidatePeerRelayByEndpoint :=
          r.allocWorkByCandidatePeerRelayByEndpoint.put (wlb.ep, v) started
        allocGeneration := r.allocGeneration + 1
        nextWork := r.nextWork + 1 }
      (.allocateServerEndpoint started)

/-- `allocateAllServersRunLoop`; `remoteDisco` is the disco key of the endpoint, if it has
one. -/
def allocateAllServersRunLoop
    (localDisco : PublicKey) (remoteDisco : Option PublicKey) (rank : PublicKey → Nat) :
    RelayManager :=
  if r.servers.serversByNodeKey.size = 0 then r
  else
    match remoteDisco with
    | none => r
    | some remoteDisco =>
      (r.servers.serversByNodeKey.valuesBy rank).foldl
        (allocateServer wlb (newSortedPairOfDiscoPublic localDisco remoteDisco)) r

/-! ## The other events -/

/-- `stopWorkRunLoop`.  No round of its loops adds to the map that the loop is over. -/
def stopWorkRunLoop (r : RelayManager) (ep : EndpointRef)
    (rankAllocs : CandidatePeerRelay → Nat) (rankHandshakes : PublicKey → Nat) : RelayManager :=
  let allocs := ((r.allocWorkByCandidatePeerRelayByEndpoint.maps.lookup ep).getD ∅)
  let r := (GoMap.valuesBy rankAllocs allocs).foldl
    (fun r work => r.handleAllocWorkDoneRunLoop res (res.allocDone work)) r
  let handshakes := ((r.handshakeWorkByServerDiscoByEndpoint.maps.lookup ep).getD ∅)
  (GoMap.valuesBy rankHandshakes handshakes).foldl
    (fun r work => r.handleHandshakeWorkDoneRunLoop (res.handshakeDone work)) r

/-- The `select` at the end of `handleRxDiscoMsgRunLoop`. -/
def rxHandshake (r : RelayManager) (work : HandshakeWork)
    (event : RelayDiscoMsgEvent) (doneFirst : Bool) : RelayManager :=
  if doneFirst then r.handleHandshakeWorkDoneRunLoop (res.handshakeDone work)
  else r.run (.handshakeRxDiscoMsg work event)

/-- From now on pings and pongs from the address go to the work. -/
def awaitPong (work : HandshakeWork) (apv : AddrPortVNI) : RelayManager :=
  { r with
    handshakeWorkAwaitingPong := r.handshakeWorkAwaitingPong.insert work apv
    addrPortVNIToHandshakeWork := r.addrPortVNIToHandshakeWork.insert apv work }

/-- `handleRxDiscoMsgRunLoop`; `doneFirst` says that the work was done when the message
came. -/
def handleRxDiscoMsgRunLoop (r : RelayManager) (event : RelayDiscoMsgEvent)
    (doneFirst : Bool) : RelayManager :=
  let apv : AddrPortVNI := ⟨event.source, event.vni⟩
  match event.msg with
  | .allocateUDPRelayEndpointResponse msg =>
    let sorted := newSortedPairOfDiscoPublic msg.clientDisco.1 msg.clientDisco.2
    match r.allocWorkByDiscoKeysByServerNodeKey.find (event.relayServerNodeKey, sorted) with
    | none => r
    | some allocWork =>
      if doneFirst then r.handleAllocWorkDoneRunLoop res (res.allocDone allocWork)
      else r.run (.allocRxDiscoMsg allocWork msg)
  | .bindUDPRelayEndpointChallenge _ =>
    match r.handshakeWorkByServerDiscoVNI.lookup ⟨event.disco, event.vni⟩ with
    | none => r
    | some work =>
      if (r.handshakeWorkAwaitingPong.lookup work).isSome then r
      else if (r.addrPortVNIToHandshakeWork.lookup apv).isSome then r
      else (r.awaitPong work apv).rxHandshake res work event doneFirst
  | .ping msg =>
    let r := r.run (.sendPong { ap := event.source, vni := .set event.vni } event.disco
      ⟨msg.txID, event.source⟩)
    match r.addrPortVNIToHandshakeWork.lookup apv with
    | none => r
    | some work => r.rxHandshake res work event doneFirst
  | .pong _ =>
    match r.addrPortVNIToHandshakeWork.lookup apv with
    | none => r
    | some work => r.rxHandshake res work event doneFirst
  | _ => r

def handleDERPHomeChangeRunLoop (nodeKey : PublicKey) (regionID : BitVec 16) : RelayManager :=
  { r with
    servers := { r.servers with
      serversByNodeKey := r.servers.serversByNodeKey.modify nodeKey
        fun c => { c with derpHomeRegionID := regionID } } }

end RelayManager

/-! ## The run loop -/

/-- An event that `runLoop` takes. -/
inductive RelayEvent where
  | startDiscovery (wlb : EndpointWithLastBest) (localDisco : PublicKey)
      (remoteDisco : Option PublicKey) (rank : PublicKey → Nat)
  | allocateWorkDone (done : AllocWorkDoneEvent)
  | cancelWork (ep : EndpointRef) (rankAllocs : CandidatePeerRelay → Nat)
      (rankHandshakes : PublicKey → Nat)
  | newServerEndpoint (e : NewRelayServerEndpointEvent)
  | handshakeWorkDone (done : HandshakeWorkDoneEvent)
  | rxDiscoMsg (event : RelayDiscoMsgEvent) (doneFirst : Bool)
  | serversUpdate (update : List CandidatePeerRelay)
  | serverUpsert (cp : CandidatePeerRelay)
  | serverRemove (nk : PublicKey)
  | getServers
  | derpHomeChange (nodeKey : PublicKey) (regionID : BitVec 16)

/-- An event, with the results that the channels of the work have when it is handled. -/
structure RelayInput where
  event : RelayEvent
  results : Results := {}

/-- A round of `runLoop`. -/
def RelayManager.runLoop (r : RelayManager) (input : RelayInput) : RelayManager :=
  let res := input.results
  match input.event with
  | .startDiscovery wlb localDisco remoteDisco rank =>
    if r.hasActiveWorkForEndpointRunLoop wlb.ep then r
    else r.allocateAllServersRunLoop wlb localDisco remoteDisco rank
  | .allocateWorkDone done => r.handleAllocWorkDoneRunLoop res done
  | .cancelWork ep rankAllocs rankHandshakes => r.stopWorkRunLoop res ep rankAllocs rankHandshakes
  | .newServerEndpoint e => r.handleNewServerEndpointRunLoop res e
  | .handshakeWorkDone done => r.handleHandshakeWorkDoneRunLoop done
  | .rxDiscoMsg event doneFirst => r.handleRxDiscoMsgRunLoop res event doneFirst
  | .serversUpdate update => { r with servers := r.servers.handleServersUpdateRunLoop update }
  | .serverUpsert cp => { r with servers := r.servers.handleServerUpsertRunLoop cp }
  | .serverRemove nk => { r with servers := r.servers.handleServerRemoveRunLoop nk }
  | .getServers => r
  | .derpHomeChange nodeKey regionID => r.handleDERPHomeChangeRunLoop nodeKey regionID

end Multiport.Magicsock
