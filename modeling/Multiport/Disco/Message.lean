import Multiport.Tailcfg.Node

/-!
# Disco messages

The ten messages of the discovery protocol (`disco/disco.go`), and the sorted
pairs of disco keys that name an allocation (`types/key/disco.go`).

Keys and the other fixed arrays of bytes are bit vectors, with the first byte on
top, so that `Compare` is the order of their numbers.
-/

namespace Multiport.Disco

open Net Tailcfg

/-- `Ping`.  The padding is a number of bytes, so that it is not negative. -/
structure Ping where
  txID : BitVec 96
  nodeKey : PublicKey
  padding : Nat
deriving DecidableEq, Repr

structure SourcePathProbe where
  txID : BitVec 96
  nodeKey : PublicKey
  padding : Nat
deriving DecidableEq, Repr

structure Pong where
  txID : BitVec 96
  src : AddrPort
deriving DecidableEq, Repr

structure CallMeMaybe where
  myNumber : List AddrPort := []
deriving DecidableEq, Repr

structure BindUDPRelayEndpointCommon where
  vni : BitVec 32
  generation : BitVec 32
  remoteKey : PublicKey
  challenge : BitVec 256
deriving DecidableEq, Repr

/-- `UDPRelayEndpoint`, which mirrors `udprelay.ServerEndpoint`. -/
structure UDPRelayEndpoint where
  serverDisco : PublicKey := 0
  clientDisco : PublicKey × PublicKey := (0, 0)
  lamportID : BitVec 64 := 0
  vni : BitVec 32 := 0
  bindLifetime : Int64 := 0
  steadyStateLifetime : Int64 := 0
  addrPorts : List AddrPort := []
deriving DecidableEq, Repr

structure AllocateUDPRelayEndpointRequest where
  clientDisco : PublicKey × PublicKey := (0, 0)
  generation : BitVec 32 := 0
deriving DecidableEq, Repr

structure AllocateUDPRelayEndpointResponse extends UDPRelayEndpoint where
  generation : BitVec 32 := 0
deriving DecidableEq, Repr

inductive Message where
  | ping (m : Ping)
  | pong (m : Pong)
  | callMeMaybe (m : CallMeMaybe)
  | bindUDPRelayEndpoint (m : BindUDPRelayEndpointCommon)
  | bindUDPRelayEndpointChallenge (m : BindUDPRelayEndpointCommon)
  | bindUDPRelayEndpointAnswer (m : BindUDPRelayEndpointCommon)
  | callMeMaybeVia (m : UDPRelayEndpoint)
  | allocateUDPRelayEndpointRequest (m : AllocateUDPRelayEndpointRequest)
  | allocateUDPRelayEndpointResponse (m : AllocateUDPRelayEndpointResponse)
  | sourcePathProbe (m : SourcePathProbe)
deriving DecidableEq, Repr

structure SortedPairOfDiscoPublic where
  lo : PublicKey
  hi : PublicKey
  lo_le_hi : lo ≤ hi
deriving DecidableEq

def newSortedPairOfDiscoPublic (a b : PublicKey) : SortedPairOfDiscoPublic :=
  if h : a < b then ⟨a, b, BitVec.le_of_lt h⟩ else ⟨b, a, BitVec.not_lt.1 h⟩

end Multiport.Disco
