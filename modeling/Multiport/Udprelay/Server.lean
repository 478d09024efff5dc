import Multiport.Disco.Codec
import Multiport.Lib.Runs

/-!
# The UDP relay server

`net/udprelay`: a server that relays packets between the two clients of an endpoint.
An endpoint has a leg for each client.  A client binds its address to its leg by a
three-way handshake: it asks with a generation of its choice, the server answers with a
MAC over the endpoint, the generation and the address the request came from, and the
client returns the MAC from that address.

The endpoints are shared by two indices and by packet handlers that run concurrently, so
they live in a heap and the indices hold pointers into it.  `Step` is the interleaving of
the critical sections of the code: `AllocateEndpoint` and `getMACSecrets` under the mutex
of the server, the handling of a packet under the mutex of its endpoint after its endpoint
and its secrets were loaded, and `endpointGC`, which holds the mutex of the server while
it visits one endpoint after the other.  An endpoint that expires is closed and taken out
of the indices in one step: a packet that would find it in between is dropped just like
one that does not find it.

Keyed BLAKE2s and the disco boxes are not part of the repository; `Crypto` stands for
them.  A reply is the message that the server seals, not the bytes of the box.  Lamport
IDs and counters do not wrap.
-/

namespace Multiport.Udprelay

open Lib Net Disco Tailcfg Function

/-- `mono.Time`. -/
abbrev MonoTime := Int

/-- A Geneve virtual network identifier. -/
abbrev VNI := BitVec 32

abbrev Secret := BitVec 256

def minVNI : VNI := 1

def maxVNI : VNI := 0xffffff

def totalPossibleVNI : Nat := maxVNI.toNat - minVNI.toNat + 1

/-- `macSecretRotationInterval`, two minutes. -/
def macSecretRotationInterval : Int := 2 * 60 * 10 ^ 9

/-- The two legs of an endpoint: the indices of its arrays. -/
inductive Leg
  | first
  | second
  deriving DecidableEq, Repr

namespace Leg

/-- `otherSender`. -/
def other : Leg → Leg
  | first => second
  | second => first

end Leg

def clientKey (pair : SortedPairOfDiscoPublic) : Leg → PublicKey
  | .first => pair.lo
  | .second => pair.hi

/-- Keyed BLAKE2s, and opening a box with the secret shared with a client. -/
structure Crypto where
  mac : Secret → Bytes → BitVec 256
  openBox : PublicKey → Bytes → Option Bytes

/-! ## Endpoints -/

inductive EndpointState
  | closed
  | connecting
  | active
  deriving DecidableEq, Repr

/-- The gauges of the endpoints in a state. -/
structure Gauges where
  connecting : Int := 0
  active : Int := 0
  deriving DecidableEq, Repr

/-- The user metrics and the client metrics. -/
structure Metrics where
  user : Gauges := {}
  client : Gauges := {}
  deriving DecidableEq, Repr

/-- `Add` on the gauge of a state; closed endpoints have none. -/
def Gauges.add (g : Gauges) (st : EndpointState) (n : Int) : Gauges :=
  match st with
  | .closed => g
  | .connecting => { g with connecting := g.connecting + n }
  | .active => { g with active := g.active + n }

def Metrics.updateEndpoint (m : Metrics) (before after : EndpointState) : Metrics :=
  if before = after then m
  else
    { user := (m.user.add before (-1)).add after 1
      client := (m.client.add before (-1)).add after 1 }

structure ServerEndpoint where
  discoPubKeys : SortedPairOfDiscoPublic
  lamportID : Nat
  vni : VNI
  allocatedAt : MonoTime
  closed : Bool := false
  /-- Zero if a handshake has never started, or has just completed. -/
  inProgressGeneration : Leg → BitVec 32 := fun _ => 0
  boundAddrPorts : Leg → AddrPort := fun _ => {}
  lastSeen : Leg → MonoTime := fun _ => 0
  packetsRx : Leg → Nat := fun _ => 0
  bytesRx : Leg → Nat := fun _ => 0

namespace ServerEndpoint

/-- `isBoundLocked`. -/
def isBound (e : ServerEndpoint) : Bool :=
  (e.boundAddrPorts .first).isValid && (e.boundAddrPorts .second).isValid

/-- `stateLocked`. -/
def state (e : ServerEndpoint) : EndpointState :=
  if e.closed then .closed else if e.isBound then .active else .connecting

/-- `isExpiredLocked`. -/
def isExpired (e : ServerEndpoint) (now : MonoTime) (bindLifetime steadyStateLifetime : Int) :
    Bool :=
  if !e.isBound then bindLifetime < now - e.allocatedAt
  else
    steadyStateLifetime < now - e.lastSeen .first || steadyStateLifetime < now - e.lastSeen .second

end ServerEndpoint

/-- `netip.Addr.AppendBinary`. -/
def addrBinary : Addr → Bytes
  | .zero => []
  | .v4 a => putBE 4 a
  | .v6 a zone => putBE 16 a ++ zone.toByteArray.data.toList.map UInt8.toBitVec

/-- `netip.AddrPort.AppendBinary`; the port is little-endian. -/
def addrPortBinary (ap : AddrPort) : Bytes :=
  addrBinary ap.addr ++ (putBE 2 ap.port.toBitVec).reverse

/-- What `blakeMACFromBindMsg` hashes. -/
def macInput (src : AddrPort) (msg : BindUDPRelayEndpointCommon) : Bytes :=
  putBE 4 msg.vni ++ putBE 4 msg.generation ++ putKey msg.remoteKey ++ addrPortBinary src

def blakeMACFromBindMsg (C : Crypto) (blakeKey : Secret) (src : AddrPort)
    (msg : BindUDPRelayEndpointCommon) : BitVec 256 :=
  C.mac blakeKey (macInput src msg)

/-- What handling a control message comes to: nothing, a challenge that is sent back, or a
completed handshake. -/
inductive Outcome
  | dropped
  | challenged (m : BindUDPRelayEndpointCommon)
  | bound
  deriving DecidableEq, Repr

/-- `validateVNIAndRemoteKey`. -/
def validates (e : ServerEndpoint) (sender : Leg) (m : BindUDPRelayEndpointCommon) : Bool :=
  m.vni == e.vni && m.remoteKey == clientKey e.discoPubKeys sender.other

def handleDiscoControlMsg (C : Crypto) (e : ServerEndpoint) (src : AddrPort) (sender : Leg)
    (discoMsg : Message) (macSecrets : List Secret) (now : MonoTime) (metrics : Metrics) :
    ServerEndpoint × Metrics × Outcome :=
  if e.state = .closed then (e, metrics, .dropped)
  else
    match discoMsg with
    | .bindUDPRelayEndpoint m =>
      if validates e sender m = false then (e, metrics, .dropped)
      else if m.generation = 0 then (e, metrics, .dropped)
      else
        match macSecrets.head? with
        | none => (e, metrics, .dropped)
        | some secret =>
          let e' := { e with
            inProgressGeneration := update e.inProgressGeneration sender m.generation }
          let reply : BindUDPRelayEndpointCommon :=
            { vni := e.vni, generation := m.generation
              remoteKey := clientKey e.discoPubKeys sender.other, challenge := 0 }
          (e', metrics,
            .challenged { reply with challenge := blakeMACFromBindMsg C secret src reply })
    | .bindUDPRelayEndpointAnswer m =>
      if validates e sender m = false then (e, metrics, .dropped)
      else
        let generation := e.inProgressGeneration sender
        if generation = 0 ∨ generation ≠ m.generation then (e, metrics, .dropped)
        else if macSecrets.any fun secret => blakeMACFromBindMsg C secret src m == m.challenge then
          let e' := { e with
            boundAddrPorts := update e.boundAddrPorts sender src
            lastSeen := update e.lastSeen sender now
            inProgressGeneration := update e.inProgressGeneration sender 0 }
          (e', metrics.updateEndpoint e.state e'.state, .bound)
        else (e, metrics, .dropped)
    | _ => (e, metrics, .dropped)

/-- `disco.Magic`, "TS💬". -/
def magic : Bytes := [0x54, 0x53, 0xf0, 0x9f, 0x92, 0xac]

/-- `disco.NonceLen`. -/
def nonceLen : Nat := 24

/-- `disco.Source`. -/
def source (b : Bytes) : Option PublicKey :=
  if b.length < magic.length + publicRawLen + nonceLen then none
  else if magic.isPrefixOf b = false then none
  else some (getBE 256 ((b.drop magic.length).take publicRawLen))

def senderIndex (pair : SortedPairOfDiscoPublic) (sender : PublicKey) : Option Leg :=
  if sender = pair.lo then some .first else if sender = pair.hi then some .second else none

/-- The message in a box of `handleSealedDiscoControlMsg`, and the leg of its sender. -/
def openControl (C : Crypto) (pair : SortedPairOfDiscoPublic) (b : Bytes) :
    Option (Leg × Message) := do
  let sender ← source b
  let leg ← senderIndex pair sender
  let payload ← C.openBox (clientKey pair leg) (b.drop (magic.length + publicRawLen))
  match parse payload with
  | .error _ => none
  | .ok msg => some (leg, msg)

/-- `handleDataPacket`: where the packet is sent on to. -/
def handleDataPacket (e : ServerEndpoint) (src : AddrPort) (b : Bytes) (now : MonoTime) :
    ServerEndpoint × Option AddrPort :=
  let seen (leg : Leg) : ServerEndpoint :=
    { e with
      lastSeen := update e.lastSeen leg now
      packetsRx := update e.packetsRx leg (e.packetsRx leg + 1)
      bytesRx := update e.bytesRx leg (e.bytesRx leg + b.length) }
  if e.isBound = false then (e, none)
  else if e.state = .closed then (e, none)
  else if src = e.boundAddrPorts .first then (seen .first, some (e.boundAddrPorts .second))
  else if src = e.boundAddrPorts .second then (seen .second, some (e.boundAddrPorts .first))
  else (e, none)

/-- `maybeExpire`: whether the endpoint was expired and closed. -/
def maybeExpire (e : ServerEndpoint) (now : MonoTime) (bindLifetime steadyStateLifetime : Int)
    (metrics : Metrics) : ServerEndpoint × Metrics × Bool :=
  if e.isExpired now bindLifetime steadyStateLifetime then
    let e' := { e with closed := true }
    (e', metrics.updateEndpoint e.state e'.state, true)
  else (e, metrics, false)

/-! ## The server -/

/-- A pointer to an endpoint. -/
abbrev Ptr := Nat

/-- `Server`, with the endpoints its pointers point to. -/
structure Server where
  discoPublic : PublicKey
  bindLifetime : Int := 30 * 10 ^ 9
  steadyStateLifetime : Int := 5 * 60 * 10 ^ 9
  metrics : Metrics := {}
  /-- The most recent secret first; at most two. -/
  macSecrets : List Secret := []
  macSecretRotatedAt : MonoTime := 0
  staticAddrPorts : List AddrPort := []
  dynamicAddrPorts : List AddrPort := []
  lamportID : Nat := 0
  nextVNI : VNI := minVNI
  serverEndpointByVNI : GoMap VNI Ptr := ∅
  serverEndpointByDisco : GoMap SortedPairOfDiscoPublic Ptr := ∅
  heap : List ServerEndpoint := []

variable (s : Server)

/-- `maybeRotateMACSecretLocked`, with the random bytes it reads. -/
def maybeRotateMACSecret (now : MonoTime) (random : Secret) : Server :=
  if s.macSecretRotatedAt ≠ 0 ∧ now - s.macSecretRotatedAt < macSecretRotationInterval then s
  else { s with macSecrets := random :: s.macSecrets.take 1, macSecretRotatedAt := now }

/-- The VNI after one, in the order of the allocator. -/
def advanceVNI (vni : VNI) : VNI := if vni = maxVNI then minVNI else vni + 1

/-- The loop of `getNextVNILocked`: the VNI, if one is free, and `nextVNI` afterwards. -/
def getNextVNI : Nat → VNI → Option VNI × VNI
  | 0, vni => (none, vni)
  | n + 1, vni =>
    match s.serverEndpointByVNI.lookup vni with
    | none => (some vni, advanceVNI vni)
    | some _ => getNextVNI n (advanceVNI vni)

inductive AllocateError
  | notReady
  | clientDiscoEqualsServerDisco
  | vniPoolExhausted
  deriving DecidableEq, Repr

/-- `endpoint.ServerEndpoint`. -/
structure EndpointInfo where
  serverDisco : PublicKey
  clientDisco : SortedPairOfDiscoPublic
  addrPorts : List AddrPort
  vni : VNI
  lamportID : Nat
  bindLifetime : Int
  steadyStateLifetime : Int
  deriving DecidableEq

/-- What `AllocateEndpoint` returns for an endpoint. -/
def Server.info (e : ServerEndpoint) : EndpointInfo where
  serverDisco := s.discoPublic
  clientDisco := e.discoPubKeys
  addrPorts := s.staticAddrPorts ++ s.dynamicAddrPorts
  vni := e.vni
  lamportID := e.lamportID
  bindLifetime := s.bindLifetime
  steadyStateLifetime := s.steadyStateLifetime

/-- A new endpoint in both indices. -/
def Server.addEndpoint (e : ServerEndpoint) : Server :=
  { s with
    heap := s.heap ++ [e]
    serverEndpointByDisco := s.serverEndpointByDisco.insert e.discoPubKeys s.heap.length
    serverEndpointByVNI := s.serverEndpointByVNI.insert e.vni s.heap.length
    metrics := s.metrics.updateEndpoint .closed .connecting }

/-- The end of `AllocateEndpoint`, for a pair of keys without an endpoint. -/
def allocateNew (pair : SortedPairOfDiscoPublic) (now : MonoTime) :
    Except AllocateError EndpointInfo × Server :=
  match getNextVNI s totalPossibleVNI s.nextVNI with
  | (none, nextVNI) => (.error .vniPoolExhausted, { s with nextVNI })
  | (some vni, nextVNI) =>
    let e : ServerEndpoint :=
      { discoPubKeys := pair, lamportID := s.lamportID + 1, allocatedAt := now, vni }
    let s := { s with nextVNI, lamportID := s.lamportID + 1 }
    (.ok (s.info e), s.addEndpoint e)

/-- `AllocateEndpoint` of a server that is not closed.  The keys of the clients are not zero: the
source computes a shared secret with each, and `Shared` panics on a zero key. -/
def allocateEndpoint (discoA discoB : PublicKey) (now : MonoTime) :
    Except AllocateError EndpointInfo × Server :=
  if s.staticAddrPorts = [] ∧ s.dynamicAddrPorts = [] then (.error .notReady, s)
  else if discoA = s.discoPublic ∨ discoB = s.discoPublic then
    (.error .clientDiscoEqualsServerDisco, s)
  else
    let pair := newSortedPairOfDiscoPublic discoA discoB
    match (s.serverEndpointByDisco.lookup pair).bind (s.heap[·]?) with
    | some e => (.ok (s.info e), s)
    | none => allocateNew s pair now

/-- The fixed part of a Geneve header. -/
structure GeneveHeader where
  control : Bool
  protocol : BitVec 16
  vni : VNI
  deriving DecidableEq, Repr

def geneveProtocolDisco : BitVec 16 := 0x7a11

def GeneveHeader.decode (b : Bytes) : Option GeneveHeader :=
  if b.length < 8 then none
  else some
    { control := b.getD 1 0 &&& 0x80 != 0
      protocol := getBE 16 ((b.drop 2).take 2)
      vni := getBE 32 ((b.drop 4).take 4) >>> 8 }

/-- `stun.Is` and a binding request or response. -/
def isSTUNBinding (b : Bytes) : Bool :=
  20 ≤ b.length && b.getD 0 0 &&& 0xc0 == 0 && (b.drop 4).take 4 == [0x21, 0x12, 0xa4, 0x42] &&
    b.getD 1 0 == 0x01

/-- What `handlePacket` does with a packet before it takes a lock. -/
inductive Dispatch
  | drop
  | control (p : Ptr) (msg : Bytes)
  | data (p : Ptr)
  deriving DecidableEq, Repr

/-- The start of `handlePacket`. -/
def dispatch (b : Bytes) : Dispatch :=
  if isSTUNBinding b then .drop
  else
    match GeneveHeader.decode b with
    | none => .drop
    | some gh =>
      match s.serverEndpointByVNI.lookup gh.vni with
      | none => .drop
      | some p =>
        if gh.control then
          if gh.protocol ≠ geneveProtocolDisco then .drop else .control p (b.drop 8)
        else .data p

/-- Writing to an endpoint. -/
def Server.setEndpoint (p : Ptr) (e : ServerEndpoint) (metrics : Metrics) : Server :=
  { s with heap := s.heap.set p e, metrics }

/-- Taking an endpoint out of both indices. -/
def Server.unlink (e : ServerEndpoint) : Server :=
  { s with
    serverEndpointByDisco := s.serverEndpointByDisco.erase e.discoPubKeys
    serverEndpointByVNI := s.serverEndpointByVNI.erase e.vni }

/-! ## Runs -/

/-- The VNIs that `getNextVNILocked` tries, the last of which is the one it returns. -/
def passedVNIs : Nat → VNI → List VNI
  | 0, _ => []
  | n + 1, vni =>
    match s.serverEndpointByVNI.lookup vni with
    | none => [vni]
    | some _ => vni :: passedVNIs n (advanceVNI vni)

/-- The VNIs that one `AllocateEndpoint` tries. -/
def allocatePassed (discoA discoB : PublicKey) : List VNI :=
  if s.staticAddrPorts = [] ∧ s.dynamicAddrPorts = [] then []
  else if discoA = s.discoPublic ∨ discoB = s.discoPublic then []
  else
    match (s.serverEndpointByDisco.lookup (newSortedPairOfDiscoPublic discoA discoB)).bind
        (s.heap[·]?) with
    | some _ => []
    | none => passedVNIs s totalPossibleVNI s.nextVNI

/-- A packet between the critical sections of `handlePacket`. -/
inductive Handler
  /-- A control packet before `getMACSecrets`. -/
  | control (src : AddrPort) (p : Ptr) (msg : Bytes) (now : MonoTime)
  /-- A control packet with its secrets, before the mutex of the endpoint. -/
  | armed (src : AddrPort) (p : Ptr) (msg : Bytes) (now : MonoTime) (macSecrets : List Secret)
  /-- A data packet before the mutex of the endpoint. -/
  | data (src : AddrPort) (p : Ptr) (b : Bytes) (now : MonoTime)

/-- The handler of a packet after its endpoint was loaded. -/
def Dispatch.handlers (d : Dispatch) (src : AddrPort) (b : Bytes) (now : MonoTime) : List Handler :=
  match d with
  | .drop => []
  | .control p msg => [.control src p msg now]
  | .data p => [.data src p b now]

/-- The server with the packets in flight, and the time and the pointers that are left to
visit when `endpointGC` holds its mutex. -/
structure Sys where
  server : Server
  handlers : List Handler := []
  gc : Option (MonoTime × List Ptr) := none

/-- What a step shows. -/
inductive Event
  | allocate (discoA discoB : PublicKey) (result : Except AllocateError EndpointInfo)
      (passed : List VNI)
  | setAddrPorts (static dynamic : List AddrPort)
  | receive (src : AddrPort) (b : Bytes)
  | secrets (random : Secret)
  | control (p : Ptr) (sender : Leg) (src : AddrPort) (msg : Message) (macSecrets : List Secret)
      (out : Outcome)
  | unopened (p : Ptr)
  | data (p : Ptr) (src : AddrPort) (b : Bytes) (dst : Option AddrPort)
  | gcStart (now : MonoTime)
  | gcVisit (p : Ptr) (now : MonoTime) (expired : Bool)
  | gcEnd

/-- One critical section.  The packets that arrive, their addresses, the clocks and the
random secrets are arbitrary. -/
inductive Step (C : Crypto) (s : Sys) : Event → Sys → Prop
  | allocate {discoA discoB now result server} (mu : s.gc = none)
      (eq : allocateEndpoint s.server discoA discoB now = (result, server)) :
      Step C s (.allocate discoA discoB result (allocatePassed s.server discoA discoB))
        { s with server }
  /-- `SetStaticAddrPorts`, or the discovery of addresses. -/
  | setAddrPorts (static dynamic : List AddrPort) (mu : s.gc = none) :
      Step C s (.setAddrPorts static dynamic)
        { s with server := { s.server with
            staticAddrPorts := static, dynamicAddrPorts := dynamic } }
  /-- `handlePacket` until it has loaded the endpoint. -/
  | receive (src : AddrPort) (b : Bytes) (now : MonoTime) :
      Step C s (.receive src b)
        { s with handlers := s.handlers ++ (dispatch s.server b).handlers src b now }
  /-- `getMACSecrets`. -/
  | secrets {before after src p msg now} (random : Secret) (mu : s.gc = none)
      (mem : s.handlers = before ++ .control src p msg now :: after) :
      Step C s (.secrets random)
        { s with
          server := maybeRotateMACSecret s.server now random
          handlers := before ++ .armed src p msg now
            (maybeRotateMACSecret s.server now random).macSecrets :: after }
  /-- `handleDiscoControlMsg`. -/
  | control {before after src p msg now macSecrets e e' sender m metrics out}
      (mem : s.handlers = before ++ .armed src p msg now macSecrets :: after)
      (load : s.server.heap[p]? = some e)
      (opened : openControl C e.discoPubKeys msg = some (sender, m))
      (eq : handleDiscoControlMsg C e src sender m macSecrets now s.server.metrics =
        (e', metrics, out)) :
      Step C s (.control p sender src m macSecrets out)
        { s with server := s.server.setEndpoint p e' metrics, handlers := before ++ after }
  /-- A box that does not open. -/
  | unopened {before after src p msg now macSecrets e}
      (mem : s.handlers = before ++ .armed src p msg now macSecrets :: after)
      (load : s.server.heap[p]? = some e) (opened : openControl C e.discoPubKeys msg = none) :
      Step C s (.unopened p) { s with handlers := before ++ after }
  /-- `handleDataPacket`. -/
  | data {before after src p b now e e' dst}
      (mem : s.handlers = before ++ .data src p b now :: after)
      (load : s.server.heap[p]? = some e) (eq : handleDataPacket e src b now = (e', dst)) :
      Step C s (.data p src b dst)
        { s with
          server := s.server.setEndpoint p e' s.server.metrics, handlers := before ++ after }
  /-- `endpointGC` takes the mutex of the server. -/
  | gcStart (now : MonoTime) (mu : s.gc = none) :
      Step C s (.gcStart now) { s with gc := some (now, s.server.serverEndpointByDisco.values) }
  /-- `endpointGC` visits an endpoint, in any order. -/
  | gcVisit {now before after p e e' metrics expired}
      (mu : s.gc = some (now, before ++ p :: after)) (load : s.server.heap[p]? = some e)
      (eq : maybeExpire e now s.server.bindLifetime s.server.steadyStateLifetime
        s.server.metrics = (e', metrics, expired)) :
      Step C s (.gcVisit p now expired)
        { s with
          server := if expired then (s.server.setEndpoint p e' metrics).unlink e'
            else s.server.setEndpoint p e' metrics
          gc := some (now, before ++ after) }
  | gcEnd {now} (mu : s.gc = some (now, [])) :
      Step C s .gcEnd { s with gc := none }

def newServer (discoPublic : PublicKey) (bindLifetime steadyStateLifetime : Int) : Sys :=
  { server := { discoPublic, bindLifetime, steadyStateLifetime } }

end Multiport.Udprelay
