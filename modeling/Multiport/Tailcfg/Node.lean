import Mathlib.Data.Finmap
import Multiport.Lib.Maps
import Multiport.Lib.Overwrite
import Multiport.Net.Addr

/-!
# Nodes, patches and map responses

The data of `tailcfg` that a map session works on: a full `Node`, a
`PeerChange` (a patch of one node), and the peer part of a `MapResponse`.

Structure fields default to Go's zero values.  Three conventions:

* a `time.Time` is the instant it denotes, in nanoseconds after the zero time:
  all code here compares times with `Equal` or copies them;
* a slice is a `Slice` where `nil` and empty are told apart by some modelled
  code, and a `List` otherwise;
* `Hostinfo` is a parameter `H`: the code here only compares two of them.

The ten fields a patch can write are indexed by `PatchField`, so that a node is
its patchable fields (`Node.get`) together with the rest (`Node.rest`), and a
patch is a partial overwrite of the former.
-/

namespace Multiport.Tailcfg

open Lib Net

abbrev NodeID := Int

abbrev UserID := Int

/-- A 32-byte key: `key.NodePublic`, `key.DiscoPublic`, `key.MachinePublic`. -/
abbrev PublicKey := BitVec 256

/-- `time.Time`, as an instant; zero is Go's zero time. -/
abbrev Time := Int

/-- `tailcfg.NodeCapMap`: a map no code here ranges over in an observable order. -/
abbrev NodeCapMap := Finmap (fun _ : String => List String)

inductive EndpointType where
  | unknown | «local» | stun | portmapped | stun4LocalPort | explicitConf
deriving DecidableEq, Repr

structure Endpoint where
  addr : AddrPort
  type : EndpointType
deriving DecidableEq, Repr

/-- `dnstype.Resolver`. -/
structure Resolver where
  addr : String := ""
  bootstrapResolution : List Addr := []
  useWithExitNode : Bool := false
deriving DecidableEq, Repr

structure Node (H : Type) where
  id : NodeID := 0
  stableID : String := ""
  name : String := ""
  user : UserID := 0
  sharer : UserID := 0
  key : PublicKey := 0
  keyExpiry : Time := 0
  keySignature : Slice UInt8 := none
  machine : PublicKey := 0
  discoKey : PublicKey := 0
  addresses : List Prefix := []
  allowedIPs : List Prefix := []
  endpoints : Slice AddrPort := none
  legacyDERPString : String := ""
  homeDERP : Int := 0
  hostinfo : Option H := none
  created : Time := 0
  cap : Int := 0
  tags : List String := []
  primaryRoutes : List Prefix := []
  lastSeen : Option Time := none
  online : Option Bool := none
  machineAuthorized : Bool := false
  capabilities : List String := []
  capMap : Option NodeCapMap := none
  unsignedPeerAPIOnly : Bool := false
  computedName : String := ""
  computedHostIfDifferent : String := ""
  computedNameWithHost : String := ""
  dataPlaneAuditLogID : String := ""
  expired : Bool := false
  selfNodeV4MasqAddrForThisPeer : Option Addr := none
  selfNodeV6MasqAddrForThisPeer : Option Addr := none
  isWireGuardOnly : Bool := false
  isJailed : Bool := false
  exitNodeDNSResolvers : List (Option Resolver) := []

/-- `tailcfg.PeerChange`: a patch of the node `nodeID`.  Nil and zero fields mean
"unchanged". -/
structure PeerChange where
  nodeID : NodeID := 0
  derpRegion : Int := 0
  cap : Int := 0
  capMap : Option NodeCapMap := none
  endpoints : Slice AddrPort := none
  key : Option PublicKey := none
  keySignature : Slice UInt8 := none
  discoKey : Option PublicKey := none
  online : Option Bool := none
  lastSeen : Option Time := none
  keyExpiry : Option Time := none

/-! ## The patchable fields -/

/-- The fields of a node that a `PeerChange` can write. -/
inductive PatchField where
  | homeDERP | cap | capMap | endpoints | key | keySignature | discoKey | online | lastSeen
  | keyExpiry
deriving DecidableEq, Repr

/-- The type of a patchable field. -/
def PatchField.Val : PatchField → Type
  | homeDERP | cap => Int
  | capMap => Option NodeCapMap
  | endpoints => Slice AddrPort
  | key | discoKey => PublicKey
  | keySignature => Slice UInt8
  | online => Option Bool
  | lastSeen => Option Time
  | keyExpiry => Time

variable {H : Type}

namespace Node

/-- A patchable field of a node. -/
def get (n : Node H) : ∀ f : PatchField, f.Val
  | .homeDERP => n.homeDERP
  | .cap => n.cap
  | .capMap => n.capMap
  | .endpoints => n.endpoints
  | .key => n.key
  | .keySignature => n.keySignature
  | .discoKey => n.discoKey
  | .online => n.online
  | .lastSeen => n.lastSeen
  | .keyExpiry => n.keyExpiry

/-- A node with its patchable fields replaced. -/
def withFields (n : Node H) (r : ∀ f : PatchField, f.Val) : Node H :=
  { n with
    homeDERP := r .homeDERP
    cap := r .cap
    capMap := r .capMap
    endpoints := r .endpoints
    key := r .key
    keySignature := r .keySignature
    discoKey := r .discoKey
    online := r .online
    lastSeen := r .lastSeen
    keyExpiry := r .keyExpiry }

/-- A node without its patchable fields: what no patch can change. -/
def rest (n : Node H) : Node H :=
  { n with
    homeDERP := 0
    cap := 0
    capMap := none
    endpoints := none
    key := 0
    keySignature := none
    discoKey := 0
    online := none
    lastSeen := none
    keyExpiry := 0 }

/-- The effect of a partial overwrite on a node. -/
def overwrite (n : Node H) (o : Overwrite PatchField.Val) : Node H := n.withFields (o.apply n.get)

variable (n : Node H)

@[simp] theorem get_withFields (r : ∀ f : PatchField, f.Val) : (n.withFields r).get = r := by
  funext f
  cases f <;> rfl

variable (o : Overwrite PatchField.Val)

@[simp] theorem get_overwrite : (n.overwrite o).get = o.apply n.get := get_withFields _ _

@[simp] theorem rest_overwrite : (n.overwrite o).rest = n.rest := rfl

@[simp] theorem id_overwrite : (n.overwrite o).id = n.id := rfl

@[simp] theorem overwrite_nop : n.overwrite .nop = n := rfl

/-- A node is its patchable fields together with the rest. -/
theorem ext_get {n m : Node H} (hr : n.rest = m.rest) (hg : n.get = m.get) : n = m := by
  calc n = n.rest.withFields n.get := rfl
    _ = m.rest.withFields m.get := by rw [hr, hg]
    _ = m := rfl

theorem overwrite_eq_iff (n m : Node H) (o p : Overwrite PatchField.Val) :
    n.overwrite o = m.overwrite p ↔
      n.rest = m.rest ∧ ∀ f, (o f).getD (n.get f) = (p f).getD (m.get f) := by
  constructor
  · intro h
    refine ⟨by simpa using congrArg Node.rest h, fun f => ?_⟩
    have hget := congrFun (congrArg Node.get h) f
    rwa [get_overwrite, get_overwrite] at hget
  · rintro ⟨hr, h⟩
    exact ext_get hr (by rw [get_overwrite, get_overwrite]; exact funext h)

theorem overwrite_andThen (o p : Overwrite PatchField.Val) :
    n.overwrite (o.andThen p) = (n.overwrite o).overwrite p :=
  ext_get rfl (by simp [Overwrite.apply_andThen])

end Node

/-- The overwrite a patch stands for, with nil and zero meaning "unchanged". -/
def PeerChange.toOverwrite (pc : PeerChange) : Overwrite PatchField.Val
  | .homeDERP => if pc.derpRegion ≠ 0 then some pc.derpRegion else none
  | .cap => if pc.cap ≠ 0 then some pc.cap else none
  | .capMap => pc.capMap.map some
  | .endpoints => pc.endpoints.map some
  | .key => pc.key
  | .keySignature => pc.keySignature.map some
  | .discoKey => pc.discoKey
  | .online => pc.online.map some
  | .lastSeen => pc.lastSeen.map some
  | .keyExpiry => pc.keyExpiry

/-! ## Map responses -/

/-- The fields of a `MapResponse` other than the peer fields below that
`mapResponseContainsNonPatchFields` looks at. -/
inductive NonPatchField where
  | node | derpMap | dnsConfig | domain | collectServices | packetFilter | packetFilters
  | userProfiles | health | displayMessages | sshPolicy | tkaInfo | domainDataPlaneAuditLogID
  | debug | controlDialPlan | clientVersion | deprecatedDefaultAutoUpdate
deriving DecidableEq, Repr

/-- `tailcfg.MapResponse`.  Of the fields that do not describe peers, only
whether they are set plays a part. -/
structure MapResponse (H : Type) where
  present : List NonPatchField := []
  peers : Slice (Node H) := none
  peersChanged : Slice (Node H) := none
  peersRemoved : Slice NodeID := none
  peersChangedPatch : List PeerChange := []
  peerSeenChange : GoMap NodeID Bool := ∅
  onlineChange : GoMap NodeID Bool := ∅

end Multiport.Tailcfg
