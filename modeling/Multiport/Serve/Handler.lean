import Multiport.Serve.Config

/-!
# The handler of a request

`getServeHandler` looks for the mount point of a request: the path itself, or the cleaned path and
the directories above it, up to the root.  The search has no other end, so it goes on for ever
when a path that does not start with a slash is not under a mount point: the directory above `.`
is `.`.
-/

namespace Multiport.Serve

open Lib Nat Path WebServerConfig

variable {H : Type}

/-! ## The search -/

/-- The search, as far as it gets in a number of rounds: `some none` is that there is no handler,
and `none` that the search goes on. -/
def search (handlers : GoMap Path H) : Nat → Path → Option (Option (H × Path))
  | 0, _ => none
  | rounds + 1, pth =>
    let withSlash := pth ++ ['/']
    match handlers.lookup withSlash with
    | some h => some (some (h, withSlash))
    | none =>
      match handlers.lookup pth with
      | some h => some (some (h, pth))
      | none => if pth = ['/'] then some none else search handlers rounds pth.dir

/-- The handler for a path, and where it is mounted. -/
def WebServerConfig.handlerFor (wsc : WebServerConfig H) (rounds : Nat) (path : Path) :
    Option (Option (H × Path)) :=
  match wsc.handlers.lookup path with
  | some h => some (some (h, path))
  | none => search wsc.handlers rounds path.clean

/-- What `getServeHandler` reads of a request: `serverName` is the name of a TLS connection, and
`context` the service and the port of the connection. -/
structure Request where
  host : List Char
  serverName : Option (List Char) := none
  path : Path
  context : Option (ServiceName × UInt16)

/-- What `getServeHandler` reads of a backend. -/
structure Backend (H : Type) where
  magicDNSName : List Char
  magicDNSSuffix : List Char
  serveConfig : Option (Config H)

/-- `net.JoinHostPort`. -/
def joinHostPort (host : List Char) (port : UInt16) : HostPort :=
  let port := toDigits 10 port.toNat
  if ':' ∈ host then '[' :: host ++ [']', ':'] ++ port else host ++ ':' :: port

def ServiceName.withoutPrefix : ServiceName → List Char
  | 's' :: 'v' :: 'c' :: ':' :: bareName => bareName
  | _ => []

namespace Backend

def webServerConfig (b : Backend H) (hostname : List Char) (forVIPService : ServiceName)
    (port : UInt16) : Option (WebServerConfig H) :=
  b.serveConfig.bind fun conf =>
    if forVIPService ≠ [] then
      let fqdn := ServiceName.withoutPrefix forVIPService ++ '.' :: b.magicDNSSuffix
      conf.findServiceWeb forVIPService (joinHostPort fqdn port)
    else conf.findWeb (joinHostPort hostname port)

variable (splitHostPort : List Char → Option (List Char × List Char))

/-- The host of a request: the name of its TLS connection, or its host with the domain of the
node. -/
def hostname (b : Backend H) (r : Request) : List Char :=
  match r.serverName with
  | some name => name
  | none =>
    let tcd := '.' :: b.magicDNSName
    let host := ((splitHostPort r.host).map Prod.fst).getD r.host
    if tcd.isSuffixOf host then host else host ++ tcd

/-- `getServeHandler`, in a number of rounds of its search. -/
def getServeHandler (b : Backend H) (rounds : Nat) (r : Request) : Option (Option (H × Path)) :=
  match r.context with
  | none => some none
  | some (forVIPService, destPort) =>
    match b.webServerConfig (b.hostname splitHostPort r) forVIPService destPort with
    | none => some none
    | some wsc => wsc.handlerFor rounds r.path

end Backend

/-! ## What it finds -/

variable (handlers : GoMap Path H)

/-- How a directory is mounted: with a slash, or without. -/
def mountAt (p : Path) : Option (H × Path) :=
  ((handlers.lookup (p ++ ['/'])).map (·, p ++ ['/'])).or ((handlers.lookup p).map (·, p))

/-- The mount point of the longest of the `k` shortest ancestors that has one. -/
def LongestMount (p : Path) (k : Nat) : Option (H × Path) → Prop
  | some m => ∃ j ≤ k, mountAt handlers (p.ancestor j) = some m ∧
      ∀ i, j < i → i ≤ k → mountAt handlers (p.ancestor i) = none
  | none => ∀ j ≤ k, mountAt handlers (p.ancestor j) = none

/-- The answer for a path: the handler mounted there, or else at its longest ancestor. -/
def Answers (p : Path) (m : Option (H × Path)) : Prop :=
  match handlers.lookup p with
  | some h => m = some (h, p)
  | none => LongestMount handlers p p.elements.length m

/-- The path or an ancestor of it is mounted. -/
def UnderMount (p : Path) : Prop :=
  (handlers.lookup p).isSome = true ∨
    ∃ k ≤ p.elements.length, (mountAt handlers (p.ancestor k)).isSome = true

instance (handlers : GoMap Path H) (p : Path) : Decidable (UnderMount handlers p) :=
  inferInstanceAs (Decidable (_ ∨ ∃ k ≤ p.elements.length, _))

variable {handlers} {p : Path} {k : Nat}

theorem search_succ (rounds : Nat) (pth : Path) :
    search handlers (rounds + 1) pth =
      match mountAt handlers pth with
      | some m => some (some m)
      | none => if pth = ['/'] then some none else search handlers rounds pth.dir := by
  rw [search, mountAt]
  cases handlers.lookup (pth ++ ['/']) with
  | some h => rfl
  | none => cases handlers.lookup pth <;> rfl

/-- The search ends at a mount point, or at the root. -/
theorem search_ancestor (hk : k ≤ p.elements.length)
    (hends : p.rooted = true ∨ ∃ j ≤ k, (mountAt handlers (p.ancestor j)).isSome = true)
    {rounds : Nat} (hrounds : k < rounds) :
    ∃ m, search handlers rounds (p.ancestor k) = some m ∧ LongestMount handlers p k m := by
  induction k generalizing rounds with
  | zero =>
    obtain _ | rounds := rounds
    · exact absurd hrounds (not_lt_zero _)
    rw [search_succ]
    cases hmount : mountAt handlers (p.ancestor 0) with
    | some m =>
      refine ⟨some m, rfl, 0, le_refl 0, hmount, fun i hi hle => ?_⟩
      exact absurd hi (not_lt.2 hle)
    | none =>
      have hrooted : p.rooted = true := by
        rcases hends with hrooted | ⟨j, hj, hsome⟩
        · exact hrooted
        · rw [le_zero.1 hj, hmount] at hsome
          cases hsome
      have hroot : p.ancestor 0 = ['/'] := (ancestor_eq_root_iff hk).2 ⟨hrooted, rfl⟩
      refine ⟨none, if_pos hroot, fun j hj => ?_⟩
      rw [le_zero.1 hj, hmount]
  | succ k ih =>
    obtain _ | rounds := rounds
    · exact absurd hrounds (not_lt_zero _)
    rw [search_succ]
    cases hmount : mountAt handlers (p.ancestor (k + 1)) with
    | some m =>
      refine ⟨some m, rfl, k + 1, le_refl _, hmount, fun i hi hle => ?_⟩
      exact absurd hi (not_lt.2 hle)
    | none =>
      have hroot : p.ancestor (k + 1) ≠ ['/'] := fun heq =>
        absurd ((ancestor_eq_root_iff hk).1 heq).2 k.succ_ne_zero
      have hends' : p.rooted = true ∨ ∃ j ≤ k, (mountAt handlers (p.ancestor j)).isSome = true := by
        refine hends.imp_right ?_
        rintro ⟨j, hj, hsome⟩
        rcases le_succ_iff.1 hj with hle | rfl
        · exact ⟨j, hle, hsome⟩
        · rw [hmount] at hsome
          cases hsome
      obtain ⟨m, hsearch, hlongest⟩ :=
        ih (le_of_succ_le hk) hends' (lt_of_succ_lt_succ hrounds)
      refine ⟨m, ?_, ?_⟩
      · rw [dir_ancestor hk]
        exact (if_neg hroot).trans hsearch
      · cases m with
        | some m =>
          obtain ⟨j, hj, hm, hlonger⟩ := hlongest
          refine ⟨j, le_succ_of_le hj, hm, fun i hi hle => ?_⟩
          rcases le_succ_iff.1 hle with hle | rfl
          · exact hlonger i hi hle
          · exact hmount
        | none =>
          intro j hj
          rcases le_succ_iff.1 hj with hle | rfl
          · exact hlongest j hle
          · exact hmount

/-- The search does not end on a relative path that is not under a mount point. -/
theorem search_ancestor_eq_none (hrooted : p.rooted = false) (hk : k ≤ p.elements.length)
    (hnone : ∀ j ≤ p.elements.length, mountAt handlers (p.ancestor j) = none) (rounds : Nat) :
    search handlers rounds (p.ancestor k) = none := by
  induction rounds generalizing k with
  | zero => rfl
  | succ rounds ih =>
    have hroot : p.ancestor k ≠ ['/'] := fun heq => by
      rw [((ancestor_eq_root_iff hk).1 heq).1] at hrooted
      cases hrooted
    rw [search_succ, hnone k hk]
    refine (if_neg hroot).trans ?_
    cases k with
    | zero =>
      rw [dir_ancestor_zero hrooted]
      exact ih hk
    | succ k =>
      rw [dir_ancestor hk]
      exact ih (le_of_succ_le hk)

theorem WebServerConfig.handlerFor_eq_none {wsc : WebServerConfig H} (hrooted : p.rooted = false)
    (hunder : ¬UnderMount wsc.handlers p) (rounds : Nat) : wsc.handlerFor rounds p = none := by
  rw [UnderMount, not_or, Option.not_isSome_iff_eq_none] at hunder
  obtain ⟨hexact, hmount⟩ := hunder
  rw [handlerFor, hexact, ← ancestor_length]
  refine search_ancestor_eq_none hrooted (le_refl _) (fun j hj => ?_) rounds
  by_contra hsome
  exact hmount ⟨j, hj, Option.isSome_iff_ne_none.2 hsome⟩

/-- The search for a handler ends with the right answer exactly when the path is rooted or
under a mount point. -/
theorem WebServerConfig.handlerFor_iff (wsc : WebServerConfig H) (p : Path) :
    (∃ rounds m, wsc.handlerFor rounds p = some m ∧ Answers wsc.handlers p m) ↔
      p.rooted = true ∨ UnderMount wsc.handlers p := by
  constructor
  · rintro ⟨rounds, m, hfound, -⟩
    by_contra hnot
    rw [not_or, Bool.not_eq_true] at hnot
    rw [handlerFor_eq_none hnot.1 hnot.2] at hfound
    cases hfound
  · intro hends
    unfold handlerFor Answers
    cases hexact : wsc.handlers.lookup p with
    | some h => exact ⟨0, some (h, p), rfl, rfl⟩
    | none =>
      rw [UnderMount, hexact, Option.isSome_none, or_iff_right Bool.false_ne_true] at hends
      rw [← ancestor_length]
      exact ⟨_, search_ancestor (le_refl _) hends (lt_succ_self _)⟩

/-- **The handler search** of a request with a web server configuration ends, with the handler
mounted at its path or else at the longest ancestor that is mounted, exactly when the path starts
with a slash or is under a mount point. -/
theorem Backend.getServeHandler_answers_iff
    (splitHostPort : List Char → Option (List Char × List Char)) (b : Backend H) (r : Request)
    {forVIPService : ServiceName} {destPort : UInt16} {wsc : WebServerConfig H}
    (hcontext : r.context = some (forVIPService, destPort))
    (hwsc : b.webServerConfig (b.hostname splitHostPort r) forVIPService destPort = some wsc) :
    (∃ rounds m, b.getServeHandler splitHostPort rounds r = some m ∧
      Answers wsc.handlers r.path m) ↔
      r.path.rooted = true ∨ UnderMount wsc.handlers r.path := by
  simp only [getServeHandler, hcontext, hwsc]
  exact wsc.handlerFor_iff r.path

/-- Handlers at the root and at `/a`. -/
def mounts : WebServerConfig Nat where
  handlers := (∅ : GoMap Path Nat).insert ['/'] 0 |>.insert ['/', 'a'] 1

/-- A node `n` that serves them. -/
def node : Backend Nat where
  magicDNSName := ['n']
  magicDNSSuffix := []
  serveConfig := some { web := (∅ : GoMap HostPort _).insert ['n', ':', '8', '0'] mounts }

/-- A request to it. -/
def get (path : Path) : Request where
  host := ['n']
  serverName := some ['n']
  path
  context := some ([], 80)

theorem getServeHandler_answers_iff_nested :
    (∃ rounds m,
      node.getServeHandler (fun _ => none) rounds (get ['/', 'a', '/', '/', 'b']) = some m ∧
      Answers mounts.handlers ['/', 'a', '/', '/', 'b'] m) ∧
      node.getServeHandler (fun _ => none) 2 (get ['/', 'a', '/', '/', 'b']) =
        some (some (1, ['/', 'a'])) :=
  ⟨(node.getServeHandler_answers_iff (fun _ => none) (get ['/', 'a', '/', '/', 'b']) rfl rfl).2
    (.inl rfl), by decide⟩

/-- The search for an empty path, for `*` and for a relative path does not end. -/
theorem getServeHandler_relative_never_ends :
    (∀ rounds, node.getServeHandler (fun _ => none) rounds (get []) = none) ∧
    (∀ rounds, node.getServeHandler (fun _ => none) rounds (get ['*']) = none) ∧
    ∀ rounds, node.getServeHandler (fun _ => none) rounds (get ['a', '/', 'b']) = none := by
  have hnode (path : Path) (rounds : Nat) :
      node.getServeHandler (fun _ => none) rounds (get path) = mounts.handlerFor rounds path := rfl
  simp only [hnode]
  exact ⟨handlerFor_eq_none rfl (by decide),
    handlerFor_eq_none rfl (by decide),
    handlerFor_eq_none rfl (by decide)⟩

end Multiport.Serve
