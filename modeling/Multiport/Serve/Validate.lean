import Multiport.Lib.Checks
import Multiport.Lib.Runs
import Multiport.Serve.Config

/-!
# Updates of the serve configuration

`validateServeConfigUpdate` compares a new configuration with the one in use: new sessions listen
on open ports, and the background does not take a port of a session.  It does not compare the new
configuration with itself, and not at all if there is none in use, and a session that is there
already may listen on any port.  As long as no update makes use of that (`Safe`), no port has two
listeners, and sessions can be deleted.
-/

namespace Multiport.Serve

open Lib GoMap ServeConfig Option

variable {H : Type}

/-! ## The validation -/

inductive ServeType
  | https | http | tcp | tlsTerminatedTCP | unknown
  deriving DecidableEq

def ServeType.string : ServeType → String
  | http => "http"
  | https => "https"
  | tcp => "tcp"
  | tlsTerminatedTCP => "tls-terminated-tcp"
  | unknown => "unknownServeType"

def serveTypeFromPortHandler (ph : TCPPortHandler) : ServeType :=
  if ph.http then .http
  else if ph.https then .https
  else if ph.terminateTLS ≠ [] then .tlsTerminatedTCP
  else if ph.tcpForward ≠ [] then .tcp
  else .unknown

/-- A service in TUN mode has no TCP or web handlers. -/
def ServiceConfig.Separate (svcCfg : ServiceConfig H) : Prop :=
  ¬(svcCfg.tun = true ∧ (0 < svcCfg.tcp.size ∨ 0 < svcCfg.web.size))

instance (svcCfg : ServiceConfig H) : Decidable svcCfg.Separate :=
  inferInstanceAs (Decidable (¬_))

/-- A handler keeps the serve type of the one in use. -/
def checkServeType (port : UInt16) (ofService : String) (existingHandler : Option TCPPortHandler)
    (incomingHandler : TCPPortHandler) : Except String Unit :=
  match existingHandler with
  | none => .ok ()
  | some existingHandler =>
    let was := (serveTypeFromPortHandler existingHandler).string
    let want := (serveTypeFromPortHandler incomingHandler).string
    reject (serveTypeFromPortHandler incomingHandler ≠ serveTypeFromPortHandler existingHandler)
      s!"want to serve \"{want}\", but port {port} is already serving \"{was}\"{ofService}"

def checkService (existing : Config H) (svc : Sigma fun _ : ServiceName => ServiceConfig H) :
    Except String Unit :=
  let svcName := String.ofList svc.1
  match existing.services.lookup svc.1 with
  | none => .ok ()
  | some existingSvcCfg =>
    checkAll (fun h =>
      checkServeType h.1 s!" for {svcName}" (existingSvcCfg.tcp.lookup h.1) h.2) svc.2.tcp.entries
    >>= fun _ => reject
      (svc.2.tun = true ∧ (0 < existingSvcCfg.tcp.size ∨ 0 < existingSvcCfg.web.size))
      s!"cannot turn on TUN mode with existing TCP or web handlers for {svcName}"
    >>= fun _ => reject ((0 < svc.2.tcp.size ∨ 0 < svc.2.web.size) ∧ existingSvcCfg.tun = true)
      s!"cannot add TCP or web handlers as TUN mode is enabled for {svcName}"

/-- A new session listens on open ports. -/
def checkSession (existing : Config H) (fg : Sigma fun _ : SessionID => Session H) :
    Except String Unit :=
  if (existing.foreground.lookup fg.1).isSome then .ok ()
  else checkAll (fun h =>
    let port := h.1
    reject ((existing.findTCP port).isSome = true) s!"listener already exists for port {port}")
    fg.2.tcps

/-- The validation of services in TUN mode. -/
def checkTun (svc : Sigma fun _ : ServiceName => ServiceConfig H) : Except String Unit :=
  let svcName := String.ofList svc.1
  reject (¬svc.2.Separate)
    s!"cannot configure TUN mode in combination with TCP or web handlers for {svcName}"

/-- The background does not take a port of a session. -/
def checkBackground (existing : Config H) (h : Sigma fun _ : UInt16 => TCPPortHandler) :
    Except String Unit :=
  let port := h.1
  reject ((existing.findForegroundTCP port).isSome = true)
    s!"foreground listener already exists for port {port}"

def validateServeConfigUpdate (existing incoming : Option (Config H)) : Except String Unit :=
  match incoming with
  | none => .ok ()
  | some incoming =>
    checkAll checkTun incoming.services.entries >>= fun _ =>
    match existing with
    | none => .ok ()
    | some existing =>
      checkAll (checkSession existing) incoming.foreground.entries
      >>= fun _ => checkAll (checkBackground existing) incoming.tcp.entries
      >>= fun _ => checkAll (fun h => checkServeType h.1 "" (existing.findTCP h.1) h.2)
        incoming.tcp.entries
      >>= fun _ => checkAll (checkService existing) incoming.services.entries

/-- The configuration without a session. -/
def ServeConfig.deleteForeground (conf : Config H) (sessionID : SessionID) : Config H :=
  { conf with foreground := conf.foreground.erase sessionID }

/-- `DeleteForegroundSession`, as far as the validation is concerned. -/
def deleteForegroundSession (conf : Option (Config H)) (sessionID : SessionID) :
    Except String (Option (Config H)) :=
  match conf with
  | none => .ok none
  | some sc =>
    if (sc.foreground.lookup sessionID).isSome then
      validateServeConfigUpdate conf (some (sc.deleteForeground sessionID)) >>= fun _ =>
        .ok (some (sc.deleteForeground sessionID))
    else .ok conf

/-! ## Listeners -/

/-- Who listens on a port. -/
inductive Place
  | background
  | session (id : SessionID)
  deriving DecidableEq

namespace ServeConfig

/-- The place has a listener on the port. -/
def claims (conf : Config H) : Place → UInt16 → Bool
  | .background, port => (conf.tcp.lookup port).isSome
  | .session id, port => ((conf.foreground.lookup id).bind fun fg => fg.tcp.lookup port).isSome

/-- What the configurations in use should keep. -/
structure Consistent (conf : Config H) : Prop where
  /-- No port is claimed twice. -/
  exclusive : ∀ {port a b}, conf.claims a port = true → conf.claims b port = true → a = b
  /-- No service combines TUN mode with handlers. -/
  separate : ∀ {svcName svcCfg}, conf.services.lookup svcName = some svcCfg → svcCfg.Separate

variable {conf : Config H} {port : UInt16}

theorem claims_session_iff {id : SessionID} :
    conf.claims (.session id) port = true ↔
      ∃ fg, conf.foreground.lookup id = some fg ∧ (fg.tcp.lookup port).isSome = true := by
  change (Option.bind _ _).isSome = true ↔ _
  cases conf.foreground.lookup id <;> simp

theorem isSome_findForegroundTCP :
    (conf.findForegroundTCP port).isSome = true ↔ ∃ id, conf.claims (.session id) port = true := by
  rw [findForegroundTCP, List.findSome?_isSome_iff]
  constructor
  · rintro ⟨⟨id, fg⟩, hmem, hsome⟩
    exact ⟨id, claims_session_iff.2 ⟨fg, lookup_eq_some_iff.2 hmem, hsome⟩⟩
  · rintro ⟨id, hid⟩
    obtain ⟨fg, hfg, hsome⟩ := claims_session_iff.1 hid
    exact ⟨⟨id, fg⟩, lookup_eq_some_iff.1 hfg, hsome⟩

theorem isSome_findTCP : (conf.findTCP port).isSome = true ↔ ∃ a, conf.claims a port = true := by
  rw [findTCP, isSome_or, Bool.or_eq_true, isSome_findForegroundTCP]
  constructor
  · rintro (⟨id, hid⟩ | hbackground)
    · exact ⟨.session id, hid⟩
    · exact ⟨.background, hbackground⟩
  · rintro ⟨a, ha⟩
    cases a with
    | background => exact .inr ha
    | session id => exact .inl ⟨id, ha⟩

end ServeConfig

variable {existing incoming conf : Config H} {port : UInt16}

/-! ## What is accepted -/

theorem checkServeType_eq_ok_iff {ofService : String} {existingHandler} {incomingHandler} :
    checkServeType port ofService existingHandler incomingHandler = .ok () ↔
      ∀ h ∈ existingHandler,
        serveTypeFromPortHandler incomingHandler = serveTypeFromPortHandler h := by
  cases existingHandler with
  | none | some h => simp [checkServeType]

/-- What the validation asks for when there is a configuration in use. -/
theorem validateServeConfigUpdate_eq_ok_iff :
    validateServeConfigUpdate (some existing) (some incoming) = .ok () ↔
      (∀ svc ∈ incoming.services.entries, checkTun svc = .ok ()) ∧
      (∀ fg ∈ incoming.foreground.entries, checkSession existing fg = .ok ()) ∧
      (∀ h ∈ incoming.tcp.entries, checkBackground existing h = .ok ()) ∧
      (∀ h ∈ incoming.tcp.entries, checkServeType h.1 "" (existing.findTCP h.1) h.2 = .ok ()) ∧
      ∀ svc ∈ incoming.services.entries, checkService existing svc = .ok () := by
  simp [validateServeConfigUpdate]

variable {old : Option (Config H)}

/-- What the validation accepts has no service that combines TUN mode with handlers. -/
theorem separate_of_accepted (h : validateServeConfigUpdate old (some incoming) = .ok ())
    {svcName} {svcCfg}
    (hsvc : incoming.services.lookup svcName = some svcCfg) : svcCfg.Separate := by
  have htun : ∀ svc ∈ incoming.services.entries, checkTun svc = .ok () := by
    cases old with
    | none => simpa [validateServeConfigUpdate] using h
    | some existing => exact (validateServeConfigUpdate_eq_ok_iff.1 h).1
  have hcheck := htun _ (lookup_eq_some_iff.1 hsvc)
  rw [checkTun, reject_eq_ok_iff, not_not] at hcheck
  exact hcheck

/-- A consistent configuration can do without any of its sessions. -/
theorem ServeConfig.Consistent.delete_accepted (h : conf.Consistent) (id : SessionID) :
    validateServeConfigUpdate (some conf) (some (conf.deleteForeground id)) = .ok () := by
  have hforeground {port : UInt16} {handler : TCPPortHandler}
      (hport : conf.tcp.lookup port = some handler) : conf.findForegroundTCP port = none := by
    by_contra hsome
    obtain ⟨id, hid⟩ := isSome_findForegroundTCP.1 (isSome_iff_ne_none.2 hsome)
    have hbackground : conf.claims .background port = true :=
      isSome_iff_exists.2 ⟨handler, hport⟩
    cases h.exclusive hbackground hid
  refine validateServeConfigUpdate_eq_ok_iff.2 ⟨?_, ?_, ?_, ?_, ?_⟩
  · rintro ⟨svcName, svcCfg⟩ hmem
    rw [checkTun, reject_eq_ok_iff, not_not]
    exact h.separate (lookup_eq_some_iff.2 hmem)
  · rintro ⟨session, fg⟩ hmem
    have hlookup := lookup_eq_some_iff.2 hmem
    rw [checkSession, (lookup_erase_iff.1 hlookup).1]
    rfl
  · rintro ⟨port, handler⟩ hmem
    rw [checkBackground, hforeground (lookup_eq_some_iff.2 hmem)]
    simp
  · rintro ⟨port, handler⟩ hmem
    have hport : conf.tcp.lookup port = some handler := lookup_eq_some_iff.2 hmem
    rw [checkServeType_eq_ok_iff, findTCP, hforeground hport, hport]
    simp
  · rintro ⟨svcName, svcCfg⟩ hmem
    have hsvc : conf.services.lookup svcName = some svcCfg := lookup_eq_some_iff.2 hmem
    have hseparate := h.separate hsvc
    simp only [checkService, hsvc, bind_eq_ok_iff, exists_const, checkAll_eq_ok_iff,
      reject_eq_ok_iff]
    refine ⟨?_, hseparate, fun hboth => hseparate ⟨hboth.2, hboth.1⟩⟩
    rintro ⟨port, handler⟩ hmem
    have hport : svcCfg.tcp.lookup port = some handler := lookup_eq_some_iff.2 hmem
    rw [checkServeType_eq_ok_iff, hport]
    simp

/-! ## Runs -/

/-- What is done to the configuration in use: an update with `SetServeConfig`, or a reload that
removes the sessions that are not active. -/
inductive Action (H : Type)
  | update (incoming : Option (Config H))
  | reload (active : SessionID → Bool)

/-- The sessions of a configuration that are active. -/
def ServeConfig.removeInactive (conf : Config H) (active : SessionID → Bool) : Config H :=
  { conf with foreground := conf.foreground.deleteWhere fun id _ => !active id }

/-- A step: an update is one that the validation accepts. -/
inductive Step : Option (Config H) → Action H → Option (Config H) → Prop
  | update {existing incoming : Option (Config H)}
      (h : validateServeConfigUpdate existing incoming = .ok ()) :
      Step existing (.update incoming) incoming
  | reload {existing : Option (Config H)} (active : SessionID → Bool) :
      Step existing (.reload active) (existing.map (·.removeInactive active))

/-- The listeners of the configuration in use, if there is one. -/
def claims (existing : Option (Config H)) (a : Place) (port : UInt16) : Bool :=
  existing.elim false fun conf => conf.claims a port

/-- An update is safe when a session that is there already gets no port that another place has,
and no two places get the same port at once. -/
def Safe (existing : Option (Config H)) : Action H → Prop
  | .update (some incoming) =>
    (∀ conf ∈ existing, ∀ id port, (conf.foreground.lookup id).isSome = true →
      incoming.claims (.session id) port = true →
        conf.claims (.session id) port = true ∨ ∀ a, conf.claims a port = false) ∧
    ∀ a b port, a ≠ b → incoming.claims a port = true → incoming.claims b port = true →
      claims existing a port = true ∨ claims existing b port = true
  | _ => True

def SafeStep (s : Option (Config H)) (a : Action H) (t : Option (Config H)) : Prop :=
  Safe s a ∧ Step s a t

section

variable (h : validateServeConfigUpdate (some existing) (some incoming) = .ok ())

include h

/-- The validation accepts no new session on a port in use. -/
theorem not_claims_of_accepted_session {id : SessionID}
    (hnew : existing.foreground.lookup id = none)
    (hclaims : incoming.claims (.session id) port = true) (a : Place) :
    existing.claims a port = false := by
  obtain ⟨-, hsessions, -⟩ := validateServeConfigUpdate_eq_ok_iff.1 h
  obtain ⟨fg, hfg, hsome⟩ := claims_session_iff.1 hclaims
  obtain ⟨handler, hport⟩ := isSome_iff_exists.1 hsome
  have hcheck := hsessions _ (lookup_eq_some_iff.1 hfg)
  rw [checkSession, hnew, if_neg (by simp), checkAll_eq_ok_iff] at hcheck
  have hopen := hcheck ⟨port, handler⟩ (List.mem_append_left _ (lookup_eq_some_iff.1 hport))
  rw [reject_eq_ok_iff, isSome_findTCP] at hopen
  exact Bool.eq_false_iff.2 fun hclaim => hopen ⟨a, hclaim⟩

/-- The validation accepts no background listener on a port of a session. -/
theorem not_claims_of_accepted_background
    (hclaims : incoming.claims .background port = true) (id : SessionID) :
    existing.claims (.session id) port = false := by
  obtain ⟨-, -, hbackground, -⟩ := validateServeConfigUpdate_eq_ok_iff.1 h
  obtain ⟨handler, hport⟩ := isSome_iff_exists.1 hclaims
  have hcheck := hbackground _ (lookup_eq_some_iff.1 hport)
  rw [checkBackground, reject_eq_ok_iff, isSome_findForegroundTCP] at hcheck
  exact Bool.eq_false_iff.2 fun hclaim => hcheck ⟨id, hclaim⟩

/-- Who gets a port in a safe update that is accepted: nobody, if another one has it. -/
theorem eq_of_claims_of_accepted
    (hsafe : Safe (some existing) (.update (some incoming))) (hcons : existing.Consistent)
    {a b : Place} (ha : existing.claims a port = true) (hb : incoming.claims b port = true) :
    b = a := by
  cases b with
  | background =>
    cases a with
    | background => rfl
    | session id =>
      rw [not_claims_of_accepted_background h hb id] at ha
      cases ha
  | session id =>
    cases hold : existing.foreground.lookup id with
    | none =>
      rw [not_claims_of_accepted_session h hold hb a] at ha
      cases ha
    | some fg =>
      rcases hsafe.1 existing rfl id port (by rw [hold]; rfl) hb with hclaims | hfree
      · exact hcons.exclusive hclaims ha
      · exact absurd ha (Bool.eq_false_iff.1 (hfree a))

end

theorem consistent_of_accepted (h : validateServeConfigUpdate old (some incoming) = .ok ())
    (hsafe : Safe old (.update (some incoming))) (hcons : ∀ conf ∈ old, conf.Consistent) :
    incoming.Consistent where
  separate := separate_of_accepted h
  exclusive {port a b} ha hb := by
    by_contra hne
    have hone := hsafe.2 a b port hne ha hb
    cases old with
    | none => exact hone.elim Bool.false_ne_true Bool.false_ne_true
    | some existing =>
      rcases hone with hone | hone
      · exact hne (eq_of_claims_of_accepted h hsafe (hcons existing rfl) hone hb).symm
      · exact hne (eq_of_claims_of_accepted h hsafe (hcons existing rfl) hone ha)

theorem ServeConfig.Consistent.removeInactive (h : conf.Consistent) (active : SessionID → Bool) :
    (conf.removeInactive active).Consistent where
  separate := h.separate
  exclusive {port a b} ha hb := by
    have hclaims : ∀ a, (conf.removeInactive active).claims a port = true →
        conf.claims a port = true := by
      rintro (_ | id) hclaim
      · exact hclaim
      · obtain ⟨fg, hfg, hsome⟩ := claims_session_iff.1 hclaim
        rw [ServeConfig.removeInactive, lookup_deleteWhere, filter_eq_some_iff] at hfg
        exact claims_session_iff.2 ⟨fg, hfg.1, hsome⟩
    exact h.exclusive (hclaims a ha) (hclaims b hb)

theorem consistent_of_step {s t} {a : Action H}
    (hcons : ∀ conf ∈ s, conf.Consistent) (hstep : SafeStep s a t) :
    ∀ conf ∈ t, conf.Consistent := by
  obtain ⟨hsafe, hstep⟩ := hstep
  cases hstep with
  | update haccepted =>
    rintro conf ⟨⟩
    exact consistent_of_accepted haccepted hsafe hcons
  | reload active =>
    intro conf hconf
    obtain ⟨was, hwas, rfl⟩ := map_eq_some_iff.1 hconf
    exact (hcons was hwas).removeInactive active

/-- **No port is claimed twice, no service combines TUN mode with handlers, and every session can
be deleted**, in every configuration reached from none by safe steps. -/
theorem exclusive_of_run {acts : List (Action H)} {conf : Option (Config H)}
    (hrun : Run SafeStep none acts conf) :
    (∀ sc ∈ conf, sc.Consistent) ∧ ∀ id, ∃ t, deleteForegroundSession conf id = .ok t := by
  have hcons : ∀ sc ∈ conf, sc.Consistent :=
    Run.invariant (I := fun _ conf => ∀ sc ∈ conf, sc.Consistent)
      (fun _ h => absurd h (not_mem_none _))
      (fun _ _ _ _ hcons hstep => consistent_of_step hcons hstep) hrun
  refine ⟨hcons, fun id => ?_⟩
  cases conf with
  | none => exact ⟨none, rfl⟩
  | some sc =>
    rw [deleteForegroundSession]
    split
    · rw [(hcons sc rfl).delete_accepted id]
      exact ⟨_, rfl⟩
    · exact ⟨_, rfl⟩

/-- Listeners on some ports, with any handler. -/
def listeners (ports : List UInt16) : GoMap UInt16 TCPPortHandler :=
  ports.foldl (fun m port => m.insert port {}) ∅

/-- A configuration with listeners in the background and in the session `s`. -/
def withSession (background session : List UInt16) : Config Unit where
  tcp := listeners background
  foreground := (∅ : GoMap SessionID (Session Unit)).insert ['s'] { tcp := listeners session }

theorem exclusive_of_run_withSession :
    (withSession [443] [80]).Consistent ∧
      ∃ t, deleteForegroundSession (some (withSession [443] [80])) ['s'] = .ok t := by
  have hbackground : SafeStep none (.update (some { tcp := listeners [443] }))
      (some ({ tcp := listeners [443] } : Config Unit)) := by
    refine ⟨⟨fun _ h => absurd h (not_mem_none _), ?_⟩, .update rfl⟩
    rintro (_ | id) (_ | id') port hne ha hb
    · exact absurd rfl hne
    · cases hb
    · cases ha
    · cases ha
  have hid {id : SessionID} {fg : Session Unit}
      (h : (withSession [443] [80]).foreground.lookup id = some fg) : id = ['s'] := by
    rw [withSession, lookup_insert_eq] at h
    split at h
    next hid => exact hid
    next => cases h
  have hsession : SafeStep (some { tcp := listeners [443] })
      (.update (some (withSession [443] [80]))) (some (withSession [443] [80])) := by
    refine ⟨⟨?_, ?_⟩, .update rfl⟩
    · rintro _ ⟨⟩ id port hold
      cases hold
    · rintro (_ | id) (_ | id') port hne ha hb
      · exact absurd rfl hne
      · exact .inl ha
      · exact .inr hb
      · obtain ⟨fg, hfg, -⟩ := claims_session_iff.1 ha
        obtain ⟨fg', hfg', -⟩ := claims_session_iff.1 hb
        exact absurd (by rw [hid hfg, hid hfg']) hne
  have hrun := exclusive_of_run ((Run.nil.snoc hbackground).snoc hsession)
  exact ⟨hrun.1 _ rfl, hrun.2 ['s']⟩

/-- Updates that are accepted although they give a port to two places: the first configuration
does so at once, and in the second one the session gets the port of the background.  The session
cannot be deleted then. -/
theorem accepted_twice :
    validateServeConfigUpdate none (some (withSession [80] [80])) = .ok () ∧
      validateServeConfigUpdate none (some (withSession [443] [80])) = .ok () ∧
      validateServeConfigUpdate (some (withSession [443] [80]))
        (some (withSession [443] [80, 443])) = .ok () ∧
      (∀ a ∈ [.background, .session ['s']], (withSession [80] [80]).claims a 80 = true ∧
        (withSession [443] [80, 443]).claims a 443 = true) ∧
      (deleteForegroundSession (some (withSession [80] [80])) ['s']).isOk = false ∧
      (deleteForegroundSession (some (withSession [443] [80, 443])) ['s']).isOk = false := by
  decide

end Multiport.Serve
