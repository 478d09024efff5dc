import Multiport.Disco.Message
import Multiport.Lib.Bytes

/-!
# Disco messages as bytes

`Parse` and the `AppendMarshal` methods of `disco/disco.go`.  A message is a byte
for its type, a byte for its version and its data.

An encoder makes room for its data, as many zero bytes as it says, and writes its
fields from the front.  Fields that do not fit would be a panic.  A decoder takes
its fields off the front of a slice; here every access is checked, and one beyond
the end of the slice is the error `outOfRange`.
-/

namespace Multiport.Disco

open Lib Net Tailcfg BindUDPRelayEndpointCommon UDPRelayEndpoint

/-- Why a message is not parsed.  With `outOfRange` the code panics instead. -/
inductive ParseError where
  | short
  | unknownMessageType (t : Byte)
  | outOfRange
deriving DecidableEq, Repr

/-! ## Types and lengths -/

inductive MessageType where
  | ping | pong | callMeMaybe
  | bindUDPRelayEndpoint | bindUDPRelayEndpointChallenge | bindUDPRelayEndpointAnswer
  | callMeMaybeVia | allocateUDPRelayEndpointRequest | allocateUDPRelayEndpointResponse
  | sourcePathProbe
deriving DecidableEq, Repr

def MessageType.code : MessageType → Byte
  | ping => 0x01
  | pong => 0x02
  | callMeMaybe => 0x03
  | bindUDPRelayEndpoint => 0x04
  | bindUDPRelayEndpointChallenge => 0x05
  | bindUDPRelayEndpointAnswer => 0x06
  | callMeMaybeVia => 0x07
  | allocateUDPRelayEndpointRequest => 0x08
  | allocateUDPRelayEndpointResponse => 0x09
  | sourcePathProbe => 0x0a

def MessageType.all : List MessageType :=
  [ping, pong, callMeMaybe, bindUDPRelayEndpoint, bindUDPRelayEndpointChallenge,
    bindUDPRelayEndpointAnswer, callMeMaybeVia, allocateUDPRelayEndpointRequest,
    allocateUDPRelayEndpointResponse, sourcePathProbe]

/-- `key.NodePublicRawLen` and `key.DiscoPublicRawLen`. -/
def publicRawLen : Nat := 32

def epLength : Nat := 16 + 2

def pongLen : Nat := 12 + 16 + 2

def bindUDPRelayEndpointCommonLen : Nat := 72

def bindUDPRelayChallengeLen : Nat := 32

def allocateUDPRelayEndpointRequestLen : Nat := publicRawLen * 2 + 4

def udpRelayEndpointLenMinusAddrPorts : Nat := publicRawLen + publicRawLen * 2 + 8 + 4 + 8 + 8

/-! ## Encoders -/

/-- `appendMsgHeader` with `v0`, and then the fields of the message in the data; `none` if
they do not fit. -/
def appendMsg (b : Bytes) (t : MessageType) (dataLen : Nat) (fields : Bytes) : Option Bytes :=
  if fields.length ≤ dataLen then
    some (b ++ t.code :: 0 :: fields ++ List.replicate (dataLen - fields.length) 0)
  else none

def putKey (k : PublicKey) : Bytes := putBE publicRawLen k

/-- An address in `epLength` bytes. -/
def putAddrPort (ipp : AddrPort) : Bytes := putBE 16 ipp.addr.as16 ++ putBE 2 ipp.port.toBitVec

/-- The body of `Ping.AppendMarshal` and of `SourcePathProbe.AppendMarshal`. -/
def appendPing (b : Bytes) (t : MessageType) (txID : BitVec 96) (nodeKey : PublicKey)
    (padding : Nat) : Option Bytes :=
  let dataLen := if nodeKey ≠ 0 then 12 + publicRawLen else 12
  appendMsg b t (dataLen + padding) (putBE 12 txID ++ if nodeKey ≠ 0 then putKey nodeKey else [])

def Ping.appendMarshal (m : Ping) (b : Bytes) : Option Bytes :=
  appendPing b .ping m.txID m.nodeKey m.padding

def SourcePathProbe.appendMarshal (m : SourcePathProbe) (b : Bytes) : Option Bytes :=
  appendPing b .sourcePathProbe m.txID m.nodeKey m.padding

def Pong.appendMarshal (m : Pong) (b : Bytes) : Option Bytes :=
  appendMsg b .pong pongLen (putBE 12 m.txID ++ putAddrPort m.src)

def CallMeMaybe.appendMarshal (m : CallMeMaybe) (b : Bytes) : Option Bytes :=
  appendMsg b .callMeMaybe (epLength * m.myNumber.length) (m.myNumber.flatMap putAddrPort)

def BindUDPRelayEndpointCommon.encode (m : BindUDPRelayEndpointCommon) : Bytes :=
  putBE 4 m.vni ++ (putBE 4 m.generation ++ (putKey m.remoteKey ++
    putBE bindUDPRelayChallengeLen m.challenge))

/-- `AppendMarshal` of the three messages of a handshake. -/
def BindUDPRelayEndpointCommon.appendMarshal (t : MessageType) (m : BindUDPRelayEndpointCommon)
    (b : Bytes) : Option Bytes :=
  appendMsg b t bindUDPRelayEndpointCommonLen m.encode

def AllocateUDPRelayEndpointRequest.appendMarshal (m : AllocateUDPRelayEndpointRequest)
    (b : Bytes) : Option Bytes :=
  appendMsg b .allocateUDPRelayEndpointRequest allocateUDPRelayEndpointRequestLen
    (putKey m.clientDisco.1 ++ (putKey m.clientDisco.2 ++ putBE 4 m.generation))

/-- The fields of `UDPRelayEndpoint.encode` before the addresses. -/
def UDPRelayEndpoint.encodeFixed (m : UDPRelayEndpoint) : Bytes :=
  putKey m.serverDisco ++ (putKey m.clientDisco.1 ++ (putKey m.clientDisco.2 ++
    (putBE 8 m.lamportID ++ (putBE 4 m.vni ++ (putBE 8 m.bindLifetime.toBitVec ++
      putBE 8 m.steadyStateLifetime.toBitVec)))))

def UDPRelayEndpoint.encode (m : UDPRelayEndpoint) : Bytes :=
  m.encodeFixed ++ m.addrPorts.flatMap putAddrPort

/-- `CallMeMaybeVia.AppendMarshal`. -/
def UDPRelayEndpoint.appendMarshal (m : UDPRelayEndpoint) (b : Bytes) : Option Bytes :=
  let endpointsLen := epLength * m.addrPorts.length
  appendMsg b .callMeMaybeVia (udpRelayEndpointLenMinusAddrPorts + endpointsLen) m.encode

def AllocateUDPRelayEndpointResponse.appendMarshal (m : AllocateUDPRelayEndpointResponse)
    (b : Bytes) : Option Bytes :=
  let endpointsLen := epLength * m.addrPorts.length
  let generationLen := 4
  appendMsg b .allocateUDPRelayEndpointResponse
    (generationLen + udpRelayEndpointLenMinusAddrPorts + endpointsLen)
    (putBE 4 m.generation ++ m.encode)

def Message.appendMarshal (m : Message) (b : Bytes) : Option Bytes :=
  match m with
  | ping m => m.appendMarshal b
  | pong m => m.appendMarshal b
  | callMeMaybe m => m.appendMarshal b
  | bindUDPRelayEndpoint m => m.appendMarshal .bindUDPRelayEndpoint b
  | bindUDPRelayEndpointChallenge m => m.appendMarshal .bindUDPRelayEndpointChallenge b
  | bindUDPRelayEndpointAnswer m => m.appendMarshal .bindUDPRelayEndpointAnswer b
  | callMeMaybeVia m => m.appendMarshal b
  | allocateUDPRelayEndpointRequest m => m.appendMarshal b
  | allocateUDPRelayEndpointResponse m => m.appendMarshal b
  | sourcePathProbe m => m.appendMarshal b

/-! ## Decoders -/

/-- The next `n` bytes as a number. -/
def uint (n w : Nat) : Reader ParseError (BitVec w) := Reader.nextBE .outOfRange n w

/-- `key.DiscoPublicFromRaw32` and `key.NodePublicFromRaw32` of the next bytes. -/
def readKey : Reader ParseError PublicKey := uint publicRawLen 256

/-- A round of the loops over addresses. -/
def readAddrPort : Reader ParseError AddrPort := do
  let a ← uint 16 128
  let port ← uint 2 16
  return ⟨(Addr.addrFrom16 a).unmap, ⟨port⟩⟩

/-- The key of a ping, if there are enough bytes left for one. -/
def parsePingKey (txID : BitVec 96) (padding : Nat) (p : Bytes) : Except ParseError Ping :=
  if publicRawLen ≤ p.length then do
    let (nodeKey, _) ← readKey p
    return { txID, nodeKey, padding := padding - publicRawLen }
  else .ok { txID, nodeKey := 0, padding }

def parsePing (p : Bytes) : Except ParseError Ping :=
  if p.length < 12 then .error .short
  else do
    let (txID, rest) ← uint 12 96 p
    parsePingKey txID (p.length - 12) rest

def parseSourcePathProbe (p : Bytes) : Except ParseError SourcePathProbe := do
  let ping ← parsePing p
  return { txID := ping.txID, nodeKey := ping.nodeKey, padding := ping.padding }

/-- The fields of a `Pong`. -/
def Pong.read : Reader ParseError Pong := do
  let txID ← uint 12 96
  let src ← readAddrPort
  return { txID, src }

def parsePong (p : Bytes) : Except ParseError Pong :=
  if p.length < pongLen then .error .short
  else Pong.read.run' p

/-- The loop over addresses until the bytes are used up.  Every round takes some. -/
def readAddrPorts (p : Bytes) : Except ParseError (List AddrPort) :=
  Reader.readAll readAddrPort p.length p

def parseCallMeMaybe (ver : Byte) (p : Bytes) : Except ParseError CallMeMaybe :=
  if p.length % epLength ≠ 0 ∨ ver ≠ 0 ∨ p.length = 0 then .ok {}
  else do
    let myNumber ← readAddrPorts p
    return { myNumber }

/-- The fields of `BindUDPRelayEndpointCommon`. -/
def BindUDPRelayEndpointCommon.read : Reader ParseError BindUDPRelayEndpointCommon := do
  let vni ← uint 4 32
  let generation ← uint 4 32
  let remoteKey ← readKey
  let challenge ← uint bindUDPRelayChallengeLen 256
  return { vni, generation, remoteKey, challenge }

/-- `BindUDPRelayEndpointCommon.decode`, which is all that parsing the three messages of a
handshake does. -/
def BindUDPRelayEndpointCommon.decode (b : Bytes) : Except ParseError BindUDPRelayEndpointCommon :=
  if b.length < bindUDPRelayEndpointCommonLen then .error .short
  else read.run' b

/-- The fields of an `AllocateUDPRelayEndpointRequest`. -/
def AllocateUDPRelayEndpointRequest.read : Reader ParseError AllocateUDPRelayEndpointRequest := do
  let first ← readKey
  let second ← readKey
  let generation ← uint 4 32
  return { clientDisco := (first, second), generation }

def parseAllocateUDPRelayEndpointRequest (ver : Byte) (p : Bytes) :
    Except ParseError AllocateUDPRelayEndpointRequest :=
  if ver ≠ 0 then .ok {}
  else if p.length < allocateUDPRelayEndpointRequestLen then .error .short
  else AllocateUDPRelayEndpointRequest.read.run' p

/-- The fields of `UDPRelayEndpoint.decode` before the addresses. -/
def UDPRelayEndpoint.readFixed : Reader ParseError UDPRelayEndpoint := do
  let serverDisco ← readKey
  let first ← readKey
  let second ← readKey
  let lamportID ← uint 8 64
  let vni ← uint 4 32
  let bindLifetime ← uint 8 64
  let steadyStateLifetime ← uint 8 64
  return { serverDisco, clientDisco := (first, second), lamportID, vni,
           bindLifetime := .ofBitVec bindLifetime,
           steadyStateLifetime := .ofBitVec steadyStateLifetime }

/-- The addresses of `UDPRelayEndpoint.decode`.  The capacity that is made for them is a
difference, which must not be negative; because of the precedence of the division it is not
their number. -/
def UDPRelayEndpoint.decodeAddrPorts (m : UDPRelayEndpoint) (b : Bytes) :
    Except ParseError UDPRelayEndpoint :=
  if b.length < udpRelayEndpointLenMinusAddrPorts / epLength then .error .outOfRange
  else do
    let addrPorts ← readAddrPorts b
    return { m with addrPorts }

def UDPRelayEndpoint.decode (b : Bytes) : Except ParseError UDPRelayEndpoint :=
  if b.length < udpRelayEndpointLenMinusAddrPorts + epLength ∨
      (b.length - udpRelayEndpointLenMinusAddrPorts) % epLength ≠ 0 then .error .short
  else do
    let (m, rest) ← readFixed b
    m.decodeAddrPorts rest

def parseCallMeMaybeVia (ver : Byte) (p : Bytes) : Except ParseError UDPRelayEndpoint :=
  if ver ≠ 0 then .ok {} else decode p

def parseAllocateUDPRelayEndpointResponse (ver : Byte) (p : Bytes) :
    Except ParseError AllocateUDPRelayEndpointResponse :=
  if ver ≠ 0 then .ok {}
  else if p.length < 4 then .error .short
  else do
    let (generation, rest) ← uint 4 32 p
    let m ← UDPRelayEndpoint.decode rest
    return { m with generation }

/-- The `switch` of `Parse`. -/
def parseType (t : MessageType) (ver : Byte) (p : Bytes) : Except ParseError Message :=
  match t with
  | .ping => .ping <$> parsePing p
  | .pong => .pong <$> parsePong p
  | .callMeMaybe => .callMeMaybe <$> parseCallMeMaybe ver p
  | .bindUDPRelayEndpoint => .bindUDPRelayEndpoint <$> decode p
  | .bindUDPRelayEndpointChallenge =>
    .bindUDPRelayEndpointChallenge <$> decode p
  | .bindUDPRelayEndpointAnswer =>
    .bindUDPRelayEndpointAnswer <$> decode p
  | .callMeMaybeVia => .callMeMaybeVia <$> parseCallMeMaybeVia ver p
  | .allocateUDPRelayEndpointRequest =>
    .allocateUDPRelayEndpointRequest <$> parseAllocateUDPRelayEndpointRequest ver p
  | .allocateUDPRelayEndpointResponse =>
    .allocateUDPRelayEndpointResponse <$> parseAllocateUDPRelayEndpointResponse ver p
  | .sourcePathProbe => .sourcePathProbe <$> parseSourcePathProbe p

def parse : Bytes → Except ParseError Message
  | t :: ver :: p =>
    match MessageType.all.find? (·.code == t) with
    | some type => parseType type ver p
    | none => .error (.unknownMessageType t)
  | _ => .error .short

end Multiport.Disco
