import Multiport.Lib.Runs
import Multiport.Lib.SlidingQueue

/-!
# The event bus

A bus accepts events one at a time into a bounded queue and hands each to the clients that are
subscribed to its type when its routing begins.  Every client has an unbounded queue and delivers
from it.  Both pumps go on accepting while they wait to pass on the first event of their queue.

Events are numbered in the order in which the bus accepts them.  The number and the lists of the
events that were accepted, routed and delivered are history: no step looks at them.  A client has
one `subscribeState`: only the debugger makes another, for a client that was closed before.  An
event counts as delivered to a callback when the callback is started.
-/

namespace Multiport.Eventbus

open Lib Function

variable {Ty Cl E : Type}

/-! ## Clients -/

/-- How a subscription delivers: on a channel (`Subscriber`) or by a call (`SubscriberFunc`). -/
inductive Kind
  | chan
  | func
  deriving DecidableEq, Repr

/-- Where the pump of a client is. -/
inductive SubPc (E : Type)
  /-- At the top of its loop. -/
  | top
  /-- Its queue is empty, it waits for an event. -/
  | selecting
  /-- In `Subscriber.dispatch`, with an event to be received. -/
  | sending (x : Nat × E)
  /-- In `SubscriberFunc.dispatch`, with the callback running. -/
  | calling (x : Nat × E)
  /-- The pump has returned. -/
  | stopped

/-- The pump selects on incoming events. -/
def SubPc.Accepts : SubPc E → Prop
  | selecting | sending _ | calling _ => True
  | _ => False

/-- The pump after it has accepted an event. -/
def SubPc.accepted : SubPc E → SubPc E
  | selecting => top
  | pc => pc

/-- A client with its `subscribeState`. -/
structure Sub (Ty E : Type) where
  isOpen : Bool := true
  outputs : Ty → Option Kind := fun _ => none
  vals : SlidingQueue (Nat × E) := {}
  pc : SubPc E := .top
  delivered : List (Nat × E) := []

/-! ## The bus -/

/-- Where the pump of the bus is. -/
inductive BusPc (Cl E : Type)
  /-- At the top of one of its loops. -/
  | top
  /-- Its queue is empty, it waits for an event. -/
  | selecting
  /-- Handing an event to the clients that are left. -/
  | delivering (x : Nat × E) (dests : List Cl)
  /-- The pump has returned. -/
  | stopped

/-- A bus with its clients. -/
structure Bus (Ty Cl E : Type) where
  accepted : List (Nat × E) := []
  routed : List (Nat × E) := []
  vals : SlidingQueue (Nat × E) := { capacity := 16 }
  pc : BusPc Cl E := .top
  topics : Ty → List Cl := fun _ => []
  subs : Cl → Sub Ty E := fun _ => {}

/-- What happens next: a step of the bus, of a client or of its owner. -/
inductive Action (Ty Cl E : Type)
  | accept (e : E)
  | wait
  | route
  | deliver (c : Cl)
  | skip (c : Cl)
  | finish
  | stop
  | subscribe (c : Cl) (t : Ty)
  | unsubscribe (c : Cl) (t : Ty)
  | close (c : Cl)
  | stopSub (c : Cl)
  | clear (c : Cl)
  | waitSub (c : Cl)
  | dropSub (c : Cl)
  | dispatch (c : Cl)
  | receive (c : Cl)
  | callDone (c : Cl)
  deriving DecidableEq

namespace Bus

variable [DecidableEq Ty] [DecidableEq Cl] [Inhabited E]

/-- A client changes. -/
def setSub (s : Bus Ty Cl E) (c : Cl) (sub : Sub Ty E) : Bus Ty Cl E :=
  { s with subs := update s.subs c sub }

/-- The steps of a bus whose events have the type `ty` and whose arrays grow by `grow`. -/
inductive Step (ty : E → Ty) (grow : Nat → Nat) (s : Bus Ty Cl E) :
    Action Ty Cl E → Bus Ty Cl E → Prop
  -- the pump of the bus
  | acceptIdle {e vals} (hpc : s.pc = .selecting)
      (hadd : s.vals.add grow (s.accepted.length, e) = some vals) :
      Step ty grow s (.accept e)
        { s with accepted := s.accepted ++ [(s.accepted.length, e)], vals, pc := .top }
  | acceptBusy {e vals x c cs} (hpc : s.pc = .delivering x (c :: cs)) (hfull : s.vals.full = false)
      (hadd : s.vals.add grow (s.accepted.length, e) = some vals) :
      Step ty grow s (.accept e)
        { s with accepted := s.accepted ++ [(s.accepted.length, e)], vals }
  | wait (hpc : s.pc = .top) (hempty : s.vals.isEmpty = true) :
      Step ty grow s .wait { s with pc := .selecting }
  | route {x} (hpc : s.pc = .top) (hpeek : s.vals.peek = some x) :
      Step ty grow s .route { s with pc := .delivering x (s.topics (ty x.2)) }
  | deliver {x c cs vals} (hpc : s.pc = .delivering x (c :: cs))
      (haccepts : (s.subs c).pc.Accepts) (hadd : (s.subs c).vals.add grow x = some vals) :
      Step ty grow s (.deliver c)
        ({ s with pc := .delivering x cs }.setSub c
          { s.subs c with vals, pc := (s.subs c).pc.accepted })
  | skip {x c cs} (hpc : s.pc = .delivering x (c :: cs)) (hclosed : (s.subs c).pc = .stopped) :
      Step ty grow s (.skip c) { s with pc := .delivering x cs }
  | finish {x} (hpc : s.pc = .delivering x []) :
      Step ty grow s .finish { s with routed := s.routed ++ [x], vals := s.vals.drop, pc := .top }
  | stop (hpc : s.pc = .selecting ∨ ∃ x c cs, s.pc = .delivering x (c :: cs)) :
      Step ty grow s .stop { s with pc := .stopped }
  -- subscriptions
  | subscribe {c t} (kind : Kind) (hopen : (s.subs c).isOpen = true)
      (hnew : (s.subs c).outputs t = none) :
      Step ty grow s (.subscribe c t)
        ({ s with topics := update s.topics t (s.topics t ++ [c]) }.setSub c
          { s.subs c with outputs := update (s.subs c).outputs t (some kind) })
  | unsubscribe (c : Cl) (t : Ty) :
      Step ty grow s (.unsubscribe c t)
        ({ s with topics := update s.topics t ((s.topics t).erase c) }.setSub c
          { s.subs c with outputs := update (s.subs c).outputs t none })
  | close (c : Cl) :
      Step ty grow s (.close c) (s.setSub c { s.subs c with isOpen := false })
  | stopSub {c} (hclosed : (s.subs c).isOpen = false) (haccepts : (s.subs c).pc.Accepts) :
      Step ty grow s (.stopSub c) (s.setSub c { s.subs c with pc := .stopped })
  | clear {c} (hpc : (s.subs c).pc = .stopped) :
      Step ty grow s (.clear c) (s.setSub c { s.subs c with outputs := fun _ => none })
  -- the pump of a client
  | waitSub {c} (hpc : (s.subs c).pc = .top) (hempty : (s.subs c).vals.isEmpty = true) :
      Step ty grow s (.waitSub c) (s.setSub c { s.subs c with pc := .selecting })
  | dropSub {c x} (hpc : (s.subs c).pc = .top)
      (hpeek : (s.subs c).vals.peek = some x) (hsub : (s.subs c).outputs (ty x.2) = none) :
      Step ty grow s (.dropSub c) (s.setSub c { s.subs c with vals := (s.subs c).vals.drop })
  | send {c x} (hpc : (s.subs c).pc = .top)
      (hpeek : (s.subs c).vals.peek = some x) (hsub : (s.subs c).outputs (ty x.2) = some .chan) :
      Step ty grow s (.dispatch c) (s.setSub c { s.subs c with pc := .sending x })
  | call {c x} (hpc : (s.subs c).pc = .top)
      (hpeek : (s.subs c).vals.peek = some x) (hsub : (s.subs c).outputs (ty x.2) = some .func) :
      Step ty grow s (.dispatch c)
        (s.setSub c { s.subs c with pc := .calling x, delivered := (s.subs c).delivered ++ [x] })
  | receive {c x} (hpc : (s.subs c).pc = .sending x) :
      Step ty grow s (.receive c)
        (s.setSub c { s.subs c with
          vals := (s.subs c).vals.drop, pc := .top, delivered := (s.subs c).delivered ++ [x] })
  | callDone {c x} (hpc : (s.subs c).pc = .calling x) :
      Step ty grow s (.callDone c)
        (s.setSub c { s.subs c with vals := (s.subs c).vals.drop, pc := .top })

/-- The client is open and its subscription to the type is registered. -/
structure Registered (s : Bus Ty Cl E) (c : Cl) (t : Ty) : Prop where
  isOpen : (s.subs c).isOpen = true
  topic : c ∈ s.topics t

end Bus

end Multiport.Eventbus
