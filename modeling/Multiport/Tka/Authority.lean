import Multiport.Lib.ForkTree
import Multiport.Tka.Chonk

/-!
# The key authority

How the authority finds its active chain in a storage, and how it takes in updates:
`computeChainCandidates`, the fork resolution of `pickNextAUM`, `fastForward`,
`computeStateAt`, `computeActiveChain`, and on top of them `Open`, `Bootstrap` and
`InformIdempotent`.  Every loop of the code with a bound on its rounds is a bounded
walk.

An operation that writes to the storage returns the storage it leaves, also when it
fails.  The operations of the storage themselves do not fail.
-/

namespace Multiport.Tka

open Lib Tailcfg

/-- `maxScanIterations`: the bound on the walks of `Open` and `InformIdempotent`. -/
def maxScanIterations : Nat := 2000

inductive Error
  /-- `os.ErrNotExist` itself, which some callers tell from other errors. -/
  | notExist
  | readingNext
  | readingParent
  | invalidInitialState
  | iterationLimit
  | advancing (e : ApplyError)
  | noCandidateMatchingPath
  | unexpectedOutcome
  | nilCheckpointState
  | applyingGenesis (e : ApplyError)
  | invalidGenesis
  | noChainCandidates
  | multipleDistinctChains
  | bootstrappingState (e : Error)
  | fastForward (e : Error)
  | notEmpty
  | notACheckpoint
  | missingState
  | invalidBootstrap (e : VerifyError)
  | emptySlice
  | missingParent
  | computingState (e : Error)
  | invalidUpdate (e : VerifyError)
  | cannotBeApplied (e : ApplyError)
  deriving DecidableEq, Repr

variable {C : Crypto} {σ : Type} (K : Chonk C σ)

/-! ## Fork resolution -/

variable (C) in
/-- Whether `a` is sorted before `b`: by signature weight, then key removals, then the
lowest hash. -/
def forkPrecedes (state : State) (a b : AUM) : Bool :=
  if a.weight state ≠ b.weight state then b.weight state < a.weight state
  else if a.messageKind ≠ b.messageKind ∧
      (a.messageKind = .removeKey ∨ b.messageKind = .removeKey) then a.messageKind = .removeKey
  else C.hash a < C.hash b

variable (C) in
/-- `pickNextAUM`; it is not called without candidates. -/
def pickNextAUM (state : State) (candidates : List AUM) : Option AUM :=
  (candidates.insertionSort fun a b => forkPrecedes C state b a = false).head?

variable (C) in
def advanceByPrimary (state : State) (candidates : List AUM) :
    Except Error (Option (AUM × State)) :=
  match pickNextAUM C state candidates with
  | none => .ok none
  | some aum =>
    match state.applyVerifiedAUM C aum with
    | .error e => .error (.advancing e)
    | .ok state => .ok (some (aum, state))

/-! ## Walks -/

/-- One round of `fastForwardWithAdvancer`. -/
def forwardStep (s : σ) (advancer : State → List AUM → Except Error (Option (AUM × State)))
    (done : AUM → Bool) (x : AUM × State) : Except Error (Option (AUM × State)) :=
  if done x.1 then .ok none else advancer x.2 (K.childAUMs s (C.hash x.1))

def fastForwardWithAdvancer (s : σ) (maxIter : Nat) (startState : State)
    (advancer : State → List AUM → Except Error (Option (AUM × State))) (done : AUM → Bool) :
    Except Error (AUM × State) :=
  match startState.lastAUMHash with
  | none => .error .invalidInitialState
  | some h =>
    match K.aum s h with
    | none => .error .readingNext
    | some curs => walk (forwardStep K s advancer done) .iterationLimit maxIter (curs, startState)

def fastForward (s : σ) (maxIter : Nat) (startState : State) (done : AUM → Bool) :
    Except Error (AUM × State) :=
  fastForwardWithAdvancer K s maxIter startState (advanceByPrimary C) done

/-- One round back towards a checkpoint or a genesis AUM, with the hashes passed so far. -/
def backStep (s : σ) (x : AUM × List AUMHash) : Except Error (Option (AUM × List AUMHash)) :=
  if x.1.messageKind = .checkpoint then .ok none
  else
    match x.1.parent with
    | none => .ok none
    | some parent =>
      match K.aum s parent with
      | none => .error .readingParent
      | some a => .ok (some (a, C.hash x.1 :: x.2))

variable (C) in
/-- The state at the AUM where the walk back ended. -/
def baseState (curs : AUM) : Except Error State :=
  if curs.messageKind = .checkpoint then
    match curs.state with
    | none => .error .nilCheckpointState
    | some st => .ok (st.cloneForUpdate C curs)
  else if curs.messageKind = .noOp ∨ curs.messageKind = .addKey then
    (({} : State).applyVerifiedAUM C curs).mapError .applyingGenesis
  else .error .invalidGenesis

variable (C) in
/-- The advancer of `computeStateAt`: the first candidate on the path. -/
def advanceOnPath (path : List AUMHash) (state : State) (candidates : List AUM) :
    Except Error (Option (AUM × State)) :=
  match candidates.find? fun c => path.contains (C.hash c) with
  | none => .error .noCandidateMatchingPath
  | some c =>
    match state.applyVerifiedAUM C c with
    | .error e => .error (.advancing e)
    | .ok state => .ok (some (c, state))

def computeStateAt (s : σ) (maxIter : Nat) (wantHash : AUMHash) : Except Error State :=
  match K.aum s wantHash with
  | none => .error .notExist
  | some topAUM => do
    let base ← walk (backStep K s) .iterationLimit (maxIter + 1) (topAUM, [])
    let state ← baseState C base.1
    let x ← fastForwardWithAdvancer K s maxIter state
      (advanceOnPath C (C.hash base.1 :: base.2)) fun curs => C.hash curs = wantHash
    if x.2.lastAUMHash = some wantHash then .ok x.2 else .error .unexpectedOutcome

/-! ## The active chain -/

/-- A candidate chain; `chainsThroughActive` tells whether it passed the AUM that was
active before. -/
structure Chain where
  oldest : AUM
  head : AUM
  chainsThroughActive : Bool := false
  deriving DecidableEq

variable (C) in
/-- The candidate with its oldest AUM moved to the parent. -/
def Chain.moveTo (c : Chain) (lastKnownOldest : Option AUMHash) (parent : AUM) : Chain :=
  { c with
    oldest := parent
    chainsThroughActive := c.chainsThroughActive || lastKnownOldest == some (C.hash parent) }

/-- One candidate in one round: its oldest AUM moves to the parent, if that is stored. -/
def climb (s : σ) (lastKnownOldest : Option AUMHash) (c : Chain) : Option Chain :=
  (c.oldest.parent.bind (K.aum s)).map (c.moveTo C lastKnownOldest)

def computeChainCandidates (s : σ) (lastKnownOldest : Option AUMHash) (maxIter : Nat) :
    Except Error (List Chain) :=
  let candidates := ((K.heads s).insertionSort fun a b => C.hash a ≤ C.hash b).map fun head =>
    { oldest := head, head := head : Chain }
  match walkAll (climb K s lastKnownOldest) maxIter candidates with
  | none => .error .iterationLimit
  | some candidates => .ok candidates

variable (C) in
/-- The map `ancestors` of `computeActiveAncestor`. -/
def ancestors (chains : List Chain) : GoMap AUMHash Bool :=
  chains.foldl (fun m c => m.insert (C.hash c.oldest) c.chainsThroughActive) ∅

variable (C) in
def computeActiveAncestor (chains : List Chain) : Except Error AUMHash :=
  match (ancestors C chains).entries with
  | [e] => .ok e.1
  | es =>
    match es.find? fun e => e.2 with
    | some e => .ok e.1
    | none => .error .multipleDistinctChains

structure Authority where
  head : AUM
  oldestAncestor : AUM
  state : State
  deriving DecidableEq

/-- `Authority.Head`; every authority has applied an AUM. -/
def Authority.headHash (a : Authority) : AUMHash := a.state.lastAUMHash.getD 0

/-- `computeActiveChain`, which returns what an authority is made of. -/
def computeActiveChain (s : σ) (lastKnownOldest : Option AUMHash) (maxIter : Nat) :
    Except Error Authority := do
  let chains ← computeChainCandidates K s lastKnownOldest maxIter
  if chains = [] then .error .noChainCandidates
  else
    let oldestHash ← computeActiveAncestor C chains
    match K.aum s oldestHash with
    | none => .error .notExist
    | some ancestor => do
      let state ← (computeStateAt K s maxIter oldestHash).mapError .bootstrappingState
      let x ← (fastForward K s maxIter state fun _ => false).mapError .fastForward
      .ok { head := x.1, oldestAncestor := ancestor, state := x.2 }

/-- `Open`. -/
def openAuthority (s : σ) : Except Error Authority :=
  computeActiveChain K s (K.lastActiveAncestor s) maxScanIterations

def bootstrap (s : σ) (now : Time) (aum : AUM) : Except Error Authority × σ :=
  if K.heads s ≠ [] then (.error .notEmpty, s)
  else if aum.messageKind ≠ .checkpoint then (.error .notACheckpoint, s)
  else
    match aum.state with
    | none => (.error .missingState, s)
    | some state =>
      match aumVerify C aum state true with
      | .error e => (.error (.invalidBootstrap e), s)
      | .ok _ =>
        let s := K.setLastActiveAncestor (K.commitVerifiedAUMs s now [aum]) (C.hash aum)
        (openAuthority K s, s)

/-! ## Taking in updates -/

/-- The variables of the loop of `InformIdempotent`. -/
structure Progress where
  stateAt : GoMap AUMHash State
  toCommit : List AUM := []
  prevHash : AUMHash
  isHeadChain : Bool := true

/-- The state at an update's parent: one computed before, or one computed from the
storage. -/
def stateAtParent (s : σ) (st : Progress) (parent : AUMHash) : Except Error State :=
  match st.stateAt.lookup parent with
  | some state => .ok state
  | none => (computeStateAt K s maxScanIterations parent).mapError .computingState

/-- One round of the loop of `InformIdempotent`. -/
def informStep (s : σ) (st : Progress) (update : AUM) : Except Error Progress :=
  match K.aum s (C.hash update) with
  | some _ => .ok { st with isHeadChain := false }
  | none =>
    match update.parent with
    | none => .error .missingParent
    | some parent => do
      let state ← stateAtParent K s st parent
      (aumVerify C update state false).mapError .invalidUpdate
      let next ← (state.applyVerifiedAUM C update).mapError .cannotBeApplied
      .ok {
        stateAt := (st.stateAt.insert parent state).insert (C.hash update) next
        toCommit := st.toCommit ++ [update]
        prevHash := C.hash update
        isHeadChain := st.isHeadChain && parent == st.prevHash }

/-- What the loop starts with: the state at the head is the authority's own. -/
def Authority.progress (a : Authority) : Progress where
  stateAt := (∅ : GoMap AUMHash State).insert a.headHash a.state
  prevHash := a.headHash

def informIdempotent (s : σ) (now : Time) (a : Authority) (updates : List AUM) :
    Except Error Authority × σ :=
  match updates.getLast? with
  | none => (.error .emptySlice, s)
  | some last =>
    match updates.foldlM (informStep K s) a.progress with
    | .error e => (.error e, s)
    | .ok st =>
      let s' := K.commitVerifiedAUMs s now st.toCommit
      if st.isHeadChain then
        (.ok { head := last, oldestAncestor := a.oldestAncestor,
               state := (st.stateAt.lookup st.prevHash).getD {} }, s')
      else (computeActiveChain K s' (some (C.hash a.oldestAncestor)) maxScanIterations, s')

end Multiport.Tka
