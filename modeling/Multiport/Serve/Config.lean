import Multiport.Lib.Maps
import Multiport.Lib.SlashPath

/-!
# Serve configurations

What a node serves on its own addresses: the background configuration, and one for each foreground
session.  A `ServeConfig` has its sessions as configurations of their own; as nothing looks further
down than into the sessions of a session, the type is given the type of its sessions.

The pointers in the maps of a configuration are not nil.
-/

namespace Multiport.Serve

open Lib

abbrev HostPort : Type := List Char

abbrev ServiceName : Type := List Char

abbrev SessionID : Type := List Char

structure TCPPortHandler where
  https : Bool := false
  http : Bool := false
  tcpForward : List Char := []
  terminateTLS : List Char := []
  deriving DecidableEq

/-- `WebServerConfig`: the handlers by their mount points. -/
structure WebServerConfig (H : Type) where
  handlers : GoMap Path H := ∅

structure ServiceConfig (H : Type) where
  tcp : GoMap UInt16 TCPPortHandler := ∅
  web : GoMap HostPort (WebServerConfig H) := ∅
  tun : Bool := false

/-- `ServeConfig`, with foreground sessions of type `F`. -/
structure ServeConfig (H F : Type) where
  tcp : GoMap UInt16 TCPPortHandler := ∅
  web : GoMap HostPort (WebServerConfig H) := ∅
  services : GoMap ServiceName (ServiceConfig H) := ∅
  foreground : GoMap SessionID F := ∅

/-- The configuration of a foreground session. -/
abbrev Session (H : Type) : Type := ServeConfig H (ServeConfig H Empty)

/-- The configuration of a node. -/
abbrev Config (H : Type) : Type := ServeConfig H (Session H)

namespace ServeConfig

variable {H F : Type}

variable (v : ServeConfig H (ServeConfig H F))

/-- `TCPs`: the listeners in the background and in the foreground. -/
def tcps : List (Sigma fun _ : UInt16 => TCPPortHandler) :=
  v.tcp.entries ++ v.foreground.entries.flatMap fun conf => conf.2.tcp.entries

def findForegroundTCP (port : UInt16) : Option TCPPortHandler :=
  v.foreground.entries.findSome? fun conf => conf.2.tcp.lookup port

/-- `FindTCP`: the foreground comes first. -/
def findTCP (port : UInt16) : Option TCPPortHandler :=
  (v.findForegroundTCP port).or (v.tcp.lookup port)

/-- `FindWeb`: the foreground comes first. -/
def findWeb (hp : HostPort) : Option (WebServerConfig H) :=
  (v.foreground.entries.findSome? fun conf => conf.2.web.lookup hp).or (v.web.lookup hp)

def findServiceWeb (v : ServeConfig H F) (svcName : ServiceName) (hp : HostPort) :
    Option (WebServerConfig H) :=
  (v.services.lookup svcName).bind fun svcCfg => svcCfg.web.lookup hp

end ServeConfig

end Multiport.Serve
