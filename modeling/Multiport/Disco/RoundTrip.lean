import Multiport.Disco.Codec

/-!
# Encoding and parsing disco messages

What an encoder writes is parsed to the message again, if the addresses survive
the 16 bytes that they are written in and if the length of the data tells the
padding of a ping from its key.  Whatever is parsed has such addresses.

Parsing never reads beyond the bytes it is given: every decoder checks the length
before it takes its fields, and the fields take no more than that.
-/

namespace Multiport.Disco

open Lib Net Tailcfg List BindUDPRelayEndpointCommon Reader.Decodes

/-! ## Messages that can be told from their bytes -/

/-- A valid address, unmapped and without a zone. -/
structure Plain (ipp : AddrPort) : Prop where
  valid : ipp.addr.isValid
  unmapped : ipp.addr.unmap = ipp.addr
  zoneless : ipp.addr.zone = ""

/-- The addresses of a relay endpoint: there is one, and all are plain. -/
def UDPRelayEndpoint.AddrsPlain (m : UDPRelayEndpoint) : Prop :=
  m.addrPorts ≠ [] ∧ ∀ ipp ∈ m.addrPorts, Plain ipp

namespace Message

/-- All addresses of the message are plain, and a relay endpoint has some. -/
def AddrsPlain : Message → Prop
  | pong m => Plain m.src
  | callMeMaybe m => ∀ ipp ∈ m.myNumber, Plain ipp
  | callMeMaybeVia m => m.AddrsPlain
  | allocateUDPRelayEndpointResponse m => m.toUDPRelayEndpoint.AddrsPlain
  | _ => True

/-- The padding of a ping or a probe without a key is shorter than a key. -/
def PaddingShort : Message → Prop
  | ping m => m.nodeKey = 0 → m.padding < publicRawLen
  | sourcePathProbe m => m.nodeKey = 0 → m.padding < publicRawLen
  | _ => True

end Message

/-! ## Fields -/

theorem length_putKey (k : PublicKey) : (putKey k).length = publicRawLen := length_putBE _ _

theorem length_putAddrPort (ipp : AddrPort) : (putAddrPort ipp).length = epLength := by
  rw [putAddrPort, length_append]
  rfl

theorem length_flatMap_putAddrPort (l : List AddrPort) :
    (l.flatMap putAddrPort).length = epLength * l.length := by
  induction l with
  | nil => rfl
  | cons ipp l ih =>
    rw [flatMap_cons, length_append, length_putAddrPort, ih, length_cons]
    ring

theorem decodes_uint {n w : Nat} (hw : w ≤ 8 * n) (x : BitVec w) :
    (uint n w).Decodes (putBE n x) x := nextBE hw x

theorem decodes_readKey (k : PublicKey) : readKey.Decodes (putKey k) k :=
  decodes_uint (by decide) k

theorem reads_uint (n w : Nat) : (uint n w).Reads n fun _ => True := Reader.Reads.nextBE

theorem reads_readKey : readKey.Reads publicRawLen fun _ => True := reads_uint _ _

theorem decodes_readAddrPort {ipp : AddrPort} (h : Plain ipp) :
    readAddrPort.Decodes (putAddrPort ipp) ipp := by
  have haddr := (Addr.unmap_addrFrom16_as16 h.valid h.zoneless).trans h.unmapped
  apply Reader.Decodes.bind (decodes_uint (by decide) ipp.addr.as16)
  rw [haddr]
  exact (decodes_uint (by decide) ipp.port.toBitVec).map _

theorem reads_readAddrPort : readAddrPort.Reads epLength Plain := by
  refine (reads_uint 16 128).bind fun a _ => (reads_uint 2 16).bind (n := 0) fun port _ => ?_
  apply Reader.Reads.pure
  exact ⟨(Addr.unmap_addrFrom16 a).1, Addr.unmap_unmap (Addr.addrFrom16 a),
    (Addr.unmap_addrFrom16 a).2⟩

/-- The loop over addresses reads back what was written. -/
theorem readAddrPorts_flatMap {l} (h : ∀ ipp ∈ l, Plain ipp) :
    readAddrPorts (l.flatMap putAddrPort) = .ok l := by
  apply Reader.readAll_flatMap fun ipp hipp => decodes_readAddrPort (h ipp hipp)
  · intro ipp hnil
    have hlen := length_putAddrPort ipp
    rw [hnil] at hlen
    exact absurd hlen (by decide)
  · rw [length_flatMap_putAddrPort]
    exact Nat.le_mul_of_pos_left _ (by decide)

/-- The loop over addresses succeeds on whole addresses. -/
theorem readAddrPorts_of_mod {b : Bytes} (h : b.length % epLength = 0) :
    ∃ l, readAddrPorts b = .ok l ∧ l.length = b.length / epLength ∧ ∀ ipp ∈ l, Plain ipp := by
  apply Reader.readAll_of_length reads_readAddrPort (by decide)
  · exact (Nat.div_mul_cancel (Nat.dvd_of_mod_eq_zero h)).symm
  · exact Nat.div_le_self _ _

/-! ## Decoders -/

/-- A decoder that fails only for want of bytes, and otherwise returns a value in `P`. -/
def Sound {α : Type} (x : Except ParseError α) (P : α → Prop) : Prop :=
  x = .error .short ∨ ∃ a, x = .ok a ∧ P a

section Checked

variable {α : Type} {r : Reader ParseError α} {n : Nat} {P : α → Prop}

/-- Fields that are taken once the length was checked. -/
theorem Sound.of_reads (h : r.Reads n P) (b : Bytes) :
    Sound (if b.length < n then .error .short else r.run' b) P := by
  split
  · exact .inl rfl
  next hlen =>
    obtain ⟨a, ha, hP⟩ := h b (Nat.le_of_not_lt hlen)
    refine .inr ⟨a, ?_, hP⟩
    change ((fun p => p.1) <$> r b) = _
    rw [ha]
    rfl

theorem checked_eq_ok {bs : Bytes} {a : α} (h : r.Decodes bs a) (hlen : bs.length = n) :
    (if bs.length < n then .error .short else r.run' bs) = .ok a := by
  have hrun := h []
  rw [append_nil] at hrun
  rw [if_neg hlen.not_lt]
  change ((fun p => p.1) <$> r bs) = _
  rw [hrun]
  rfl

end Checked

theorem Sound.map {α β : Type} {x} {P : α → Prop} {Q : β → Prop}
    (h : Sound x P) {f : α → β} (hf : ∀ a, P a → Q (f a)) : Sound (f <$> x) Q := by
  rcases h with rfl | ⟨a, rfl, hP⟩
  · exact .inl rfl
  · exact .inr ⟨f a, rfl, hf a hP⟩

theorem parsePing_append (txID : BitVec 96) (rest : Bytes) :
    parsePing (putBE 12 txID ++ rest) = parsePingKey txID rest.length rest := by
  have hlen : (putBE 12 txID ++ rest).length = 12 + rest.length := by simp
  rw [parsePing, if_neg (by omega), decodes_uint (by decide) txID, Reader.ok_bind, hlen,
    Nat.add_sub_cancel_left]

theorem parsePingKey_putKey (txID : BitVec 96) (k : PublicKey) (rest : Bytes) :
    parsePingKey txID (putKey k ++ rest).length (putKey k ++ rest) =
      .ok ⟨txID, k, rest.length⟩ := by
  have hlen : (putKey k ++ rest).length = publicRawLen + rest.length := by
    rw [length_append, length_putKey]
  rw [parsePingKey, if_pos (by omega), decodes_readKey k, hlen]
  simp

variable (p : Bytes)

theorem sound_parsePing : Sound (parsePing p) fun _ => True := by
  rw [parsePing]
  split
  · exact .inl rfl
  next hlen =>
    obtain ⟨txID, htxID, -⟩ := reads_uint 12 96 p (Nat.le_of_not_lt hlen)
    rw [htxID]
    change Sound (parsePingKey txID (p.length - 12) (p.drop 12)) _
    rw [parsePingKey]
    split
    next hkey =>
      obtain ⟨k, hk, -⟩ := reads_readKey (p.drop 12) hkey
      rw [hk]
      exact .inr ⟨_, rfl, trivial⟩
    · exact .inr ⟨_, rfl, trivial⟩

theorem sound_parseSourcePathProbe : Sound (parseSourcePathProbe p) fun _ => True :=
  (sound_parsePing p).map fun _ _ => trivial

theorem decodes_pong {m : Pong} (h : Plain m.src) :
    Pong.read.Decodes (putBE 12 m.txID ++ putAddrPort m.src) m := by
  apply Reader.Decodes.bind (decodes_uint (by decide) m.txID)
  exact (decodes_readAddrPort h).map _

theorem sound_parsePong : Sound (parsePong p) fun m => Plain m.src := by
  have hread : Pong.read.Reads pongLen fun m => Plain m.src := by
    apply (reads_uint 12 96).bind (n := 18) fun txID _ => ?_
    exact reads_readAddrPort.bind (n := 0) fun src h => .pure h
  exact .of_reads hread p

theorem sound_parseCallMeMaybe (ver : Byte) (p : Bytes) :
    Sound (parseCallMeMaybe ver p) fun m => ∀ ipp ∈ m.myNumber, Plain ipp := by
  rw [parseCallMeMaybe]
  split
  · exact .inr ⟨{}, rfl, by simp⟩
  next h =>
    obtain ⟨l, hl, -, hplain⟩ := readAddrPorts_of_mod (not_not.1 fun hmod => h (.inl hmod))
    rw [hl]
    exact .inr ⟨⟨l⟩, rfl, hplain⟩

theorem decodes_bind (m : BindUDPRelayEndpointCommon) : read.Decodes m.encode m := by
  apply Reader.Decodes.bind (decodes_uint (by decide) m.vni)
  apply Reader.Decodes.bind (decodes_uint (by decide) m.generation)
  apply bind (decodes_readKey m.remoteKey)
  exact (decodes_uint (by decide) m.challenge).map _

theorem sound_bind : Sound (decode p) fun _ => True := by
  have hread : read.Reads bindUDPRelayEndpointCommonLen fun _ => True := by
    apply (reads_uint 4 32).bind (n := 68) fun vni _ => ?_
    apply (reads_uint 4 32).bind (n := 64) fun generation _ => ?_
    apply reads_readKey.bind (n := 32) fun remoteKey _ => ?_
    exact (reads_uint bindUDPRelayChallengeLen 256).bind (n := 0) fun _ _ => .pure trivial
  exact .of_reads hread p

theorem decodes_allocateRequest (m : AllocateUDPRelayEndpointRequest) :
    AllocateUDPRelayEndpointRequest.read.Decodes
      (putKey m.clientDisco.1 ++ (putKey m.clientDisco.2 ++ putBE 4 m.generation)) m := by
  apply bind (decodes_readKey m.clientDisco.1)
  apply bind (decodes_readKey m.clientDisco.2)
  exact (decodes_uint (by decide) m.generation).map _

theorem sound_parseAllocateRequest (ver : Byte) (p : Bytes) :
    Sound (parseAllocateUDPRelayEndpointRequest ver p) fun _ => True := by
  have hread : AllocateUDPRelayEndpointRequest.read.Reads allocateUDPRelayEndpointRequestLen
      fun _ => True := by
    apply reads_readKey.bind (n := 36) fun first _ => ?_
    apply reads_readKey.bind (n := 4) fun second _ => ?_
    exact (reads_uint 4 32).bind (n := 0) fun _ _ => .pure trivial
  rw [parseAllocateUDPRelayEndpointRequest]
  split
  · exact .inr ⟨{}, rfl, trivial⟩
  · exact .of_reads hread p

/-! ### Relay endpoints -/

theorem length_encodeFixed (m : UDPRelayEndpoint) :
    m.encodeFixed.length = udpRelayEndpointLenMinusAddrPorts := by
  simp only [UDPRelayEndpoint.encodeFixed, length_append, length_putKey]
  rfl

theorem length_encode (m : UDPRelayEndpoint) :
    m.encode.length = udpRelayEndpointLenMinusAddrPorts + epLength * m.addrPorts.length := by
  rw [UDPRelayEndpoint.encode, length_append, length_encodeFixed, length_flatMap_putAddrPort]

theorem decodes_encodeFixed (m : UDPRelayEndpoint) :
    UDPRelayEndpoint.readFixed.Decodes m.encodeFixed { m with addrPorts := [] } := by
  apply bind (decodes_readKey m.serverDisco)
  apply bind (decodes_readKey m.clientDisco.1)
  apply bind (decodes_readKey m.clientDisco.2)
  apply Reader.Decodes.bind (decodes_uint (by decide) m.lamportID)
  apply Reader.Decodes.bind (decodes_uint (by decide) m.vni)
  apply Reader.Decodes.bind (decodes_uint (by decide) m.bindLifetime.toBitVec)
  exact (decodes_uint (by decide) m.steadyStateLifetime.toBitVec).map _

theorem reads_readFixed :
    UDPRelayEndpoint.readFixed.Reads udpRelayEndpointLenMinusAddrPorts fun _ => True := by
  apply reads_readKey.bind (n := 92) fun serverDisco _ => ?_
  apply reads_readKey.bind (n := 60) fun first _ => ?_
  apply reads_readKey.bind (n := 28) fun second _ => ?_
  apply (reads_uint 8 64).bind (n := 20) fun lamportID _ => ?_
  apply (reads_uint 4 32).bind (n := 16) fun vni _ => ?_
  apply (reads_uint 8 64).bind (n := 8) fun bindLifetime _ => ?_
  exact (reads_uint 8 64).bind (n := 0) fun _ _ => .pure trivial

theorem decode_encode {m : UDPRelayEndpoint} (h : m.AddrsPlain) :
    UDPRelayEndpoint.decode m.encode = .ok m := by
  have hpos : 1 ≤ m.addrPorts.length := length_pos_iff.2 h.1
  have haddrs := length_flatMap_putAddrPort m.addrPorts
  have hguard : ¬(m.encode.length < udpRelayEndpointLenMinusAddrPorts + epLength ∨
      (m.encode.length - udpRelayEndpointLenMinusAddrPorts) % epLength ≠ 0) := by
    rw [length_encode, Nat.add_sub_cancel_left, Nat.mul_mod_right]
    have := Nat.le_mul_of_pos_right epLength hpos
    omega
  have hcap : ¬(m.addrPorts.flatMap putAddrPort).length <
      udpRelayEndpointLenMinusAddrPorts / epLength := by
    have hroom : udpRelayEndpointLenMinusAddrPorts / epLength ≤ epLength := by decide
    have := Nat.le_mul_of_pos_right epLength hpos
    omega
  rw [UDPRelayEndpoint.decode, if_neg hguard, UDPRelayEndpoint.encode, decodes_encodeFixed]
  change UDPRelayEndpoint.decodeAddrPorts _ _ = _
  rw [UDPRelayEndpoint.decodeAddrPorts, if_neg hcap, readAddrPorts_flatMap h.2]
  rfl

theorem sound_decode (b : Bytes) :
    Sound (UDPRelayEndpoint.decode b) UDPRelayEndpoint.AddrsPlain := by
  rw [UDPRelayEndpoint.decode]
  split
  · exact .inl rfl
  next hguard =>
    obtain ⟨hlong, hmod⟩ := not_or.1 hguard
    obtain ⟨m, hm, -⟩ := reads_readFixed b (by omega)
    have hrest : (b.drop udpRelayEndpointLenMinusAddrPorts).length % epLength = 0 := by
      rw [length_drop]
      exact not_not.1 hmod
    have hlen : epLength ≤ (b.drop udpRelayEndpointLenMinusAddrPorts).length := by
      rw [length_drop]
      omega
    rw [hm]
    change Sound (m.decodeAddrPorts (b.drop udpRelayEndpointLenMinusAddrPorts)) _
    have hroom : udpRelayEndpointLenMinusAddrPorts / epLength ≤ epLength := by decide
    obtain ⟨l, hl, hcount, hplain⟩ := readAddrPorts_of_mod hrest
    rw [UDPRelayEndpoint.decodeAddrPorts, if_neg (by omega), hl]
    refine .inr ⟨{ m with addrPorts := l }, rfl, ?_, hplain⟩
    apply length_pos_iff.1
    rw [hcount]
    exact Nat.div_pos hlen (by decide)

theorem sound_parseCallMeMaybeVia (ver : Byte) (p : Bytes) :
    Sound (parseCallMeMaybeVia ver p) fun m => ver = 0 → m.AddrsPlain := by
  rw [parseCallMeMaybeVia]
  split
  next hver => exact .inr ⟨{}, rfl, fun h => absurd h hver⟩
  · exact (sound_decode p).imp_right fun ⟨m, hm, hplain⟩ => ⟨m, hm, fun _ => hplain⟩

theorem sound_parseAllocateResponse (ver : Byte) (p : Bytes) :
    Sound (parseAllocateUDPRelayEndpointResponse ver p)
      fun m => ver = 0 → m.toUDPRelayEndpoint.AddrsPlain := by
  rw [parseAllocateUDPRelayEndpointResponse]
  split
  next hver => exact .inr ⟨{}, rfl, fun h => absurd h hver⟩
  · split
    · exact .inl rfl
    next hlen =>
      obtain ⟨generation, hgen, -⟩ := reads_uint 4 32 p (Nat.le_of_not_lt hlen)
      rw [hgen, Reader.ok_bind]
      rcases sound_decode (p.drop 4) with hshort | ⟨m, hm, hplain⟩
      · dsimp only
        rw [hshort]
        exact .inl rfl
      · dsimp only
        rw [hm]
        exact .inr ⟨_, rfl, fun _ => hplain⟩

/-! ## Whole messages -/

theorem parse_code (t : MessageType) (ver : Byte) (p : Bytes) :
    parse (t.code :: ver :: p) = parseType t ver p := by
  cases t <;> rfl

variable {t : MessageType} {m : Message}

/-- Data that the fields fill, and what they are parsed to. -/
theorem parse_appendMsg {dataLen : Nat} {fields : Bytes} (hlen : fields.length ≤ dataLen)
    (hparse : parseType t 0 (fields ++ List.replicate (dataLen - fields.length) 0) = .ok m) :
    ∃ p, appendMsg [] t dataLen fields = some p ∧ parse p = .ok m := by
  refine ⟨_, if_pos hlen, ?_⟩
  exact (parse_code t 0 _).trans hparse

/-- **Parsing fails only for want of bytes or for an unknown type**, and what it returns for
version 0 has plain addresses. -/
theorem sound_parseType (t : MessageType) (ver : Byte) (p : Bytes) :
    Sound (parseType t ver p) fun m => ver = 0 → m.AddrsPlain := by
  cases t with
  | ping => exact (sound_parsePing p).map fun _ _ _ => trivial
  | pong => exact (sound_parsePong p).map fun _ h _ => h
  | callMeMaybe => exact (sound_parseCallMeMaybe ver p).map fun _ h _ => h
  | bindUDPRelayEndpoint | bindUDPRelayEndpointChallenge | bindUDPRelayEndpointAnswer =>
    exact (sound_bind p).map fun _ _ _ => trivial
  | callMeMaybeVia => exact (sound_parseCallMeMaybeVia ver p).map fun _ h => h
  | allocateUDPRelayEndpointRequest =>
    exact (sound_parseAllocateRequest ver p).map fun _ _ _ => trivial
  | allocateUDPRelayEndpointResponse =>
    exact (sound_parseAllocateResponse ver p).map fun _ h => h
  | sourcePathProbe => exact (sound_parseSourcePathProbe p).map fun _ _ _ => trivial

/-- A ping or a probe: its fields fit, and its data are parsed to them and the padding. -/
theorem parsePing_fields {txID : BitVec 96} {nodeKey : PublicKey} {padding : Nat}
    (h : nodeKey = 0 → padding < publicRawLen) :
    ∃ fields dataLen, fields.length ≤ dataLen ∧
      (∀ t, appendPing [] t txID nodeKey padding = appendMsg [] t dataLen fields) ∧
      parsePing (fields ++ List.replicate (dataLen - fields.length) 0) =
        .ok ⟨txID, nodeKey, padding⟩ := by
  by_cases hkey : nodeKey = 0
  · refine ⟨putBE 12 txID, 12 + padding, by rw [length_putBE]; omega, fun t => ?_, ?_⟩
    · rw [appendPing, if_neg (not_not.2 hkey), if_neg (not_not.2 hkey), append_nil]
    · rw [length_putBE, Nat.add_sub_cancel_left, parsePing_append, parsePingKey,
        length_replicate, if_neg (not_le.2 (h hkey)), hkey]
  · have hlen : (putBE 12 txID ++ putKey nodeKey).length = 12 + publicRawLen := by
      rw [length_append, length_putBE, length_putKey]
    refine ⟨putBE 12 txID ++ putKey nodeKey, 12 + publicRawLen + padding, by omega,
      fun t => ?_, ?_⟩
    · rw [appendPing, if_pos hkey, if_pos hkey]
    · rw [hlen, Nat.add_sub_cancel_left, append_assoc, parsePing_append, parsePingKey_putKey,
        length_replicate]

theorem parse_appendMsg_of_length {dataLen : Nat} {fields : Bytes} (hlen : fields.length = dataLen)
    (hparse : parseType t 0 fields = .ok m) :
    ∃ p, appendMsg [] t dataLen fields = some p ∧ parse p = .ok m := by
  apply parse_appendMsg (le_of_eq hlen)
  rw [hlen, Nat.sub_self, replicate_zero, append_nil, hparse]

theorem Ping.parse_appendMarshal {m : Ping} (h : m.nodeKey = 0 → m.padding < publicRawLen) :
    ∃ p, m.appendMarshal [] = some p ∧ parse p = .ok (.ping m) := by
  obtain ⟨fields, dataLen, hlen, happend, hparse⟩ := parsePing_fields h
  rw [Ping.appendMarshal, happend]
  exact parse_appendMsg hlen (congrArg (Message.ping <$> ·) hparse)

theorem SourcePathProbe.parse_appendMarshal {m : SourcePathProbe}
    (h : m.nodeKey = 0 → m.padding < publicRawLen) :
    ∃ p, m.appendMarshal [] = some p ∧ parse p = .ok (.sourcePathProbe m) := by
  obtain ⟨fields, dataLen, hlen, happend, hparse⟩ := parsePing_fields h
  rw [SourcePathProbe.appendMarshal, happend]
  apply parse_appendMsg hlen
  rw [parseType, parseSourcePathProbe, hparse]
  rfl

theorem Pong.parse_appendMarshal {m : Pong} (h : Plain m.src) :
    ∃ p, m.appendMarshal [] = some p ∧ parse p = .ok (.pong m) := by
  have hlen : (putBE 12 m.txID ++ putAddrPort m.src).length = pongLen := by
    rw [length_append, length_putAddrPort]
    rfl
  apply parse_appendMsg_of_length hlen
  rw [parseType, parsePong, checked_eq_ok (decodes_pong h) hlen]
  rfl

/-- A list without addresses is not parsed, which gives an empty list too. -/
theorem CallMeMaybe.parse_appendMarshal {m : CallMeMaybe} (h : ∀ ipp ∈ m.myNumber, Plain ipp) :
    ∃ p, m.appendMarshal [] = some p ∧ parse p = .ok (.callMeMaybe m) := by
  have hlen := length_flatMap_putAddrPort m.myNumber
  apply parse_appendMsg_of_length hlen
  rw [parseType, parseCallMeMaybe]
  split
  next hempty =>
    have hnil : m.myNumber = [] := by
      rw [hlen] at hempty
      simpa [epLength] using hempty
    obtain ⟨l⟩ := m
    rw [show l = [] from hnil]
    rfl
  · rw [readAddrPorts_flatMap h]
    rfl

theorem BindUDPRelayEndpointCommon.parse_appendMarshal (m : BindUDPRelayEndpointCommon)
    {f} (ht : ∀ p, parseType t 0 p = f <$> decode p) :
    ∃ p, m.appendMarshal t [] = some p ∧ parse p = .ok (f m) := by
  have hlen : m.encode.length = bindUDPRelayEndpointCommonLen := by
    simp only [encode, length_append, length_putBE, length_putKey]
    rfl
  apply parse_appendMsg_of_length hlen
  rw [ht, decode, checked_eq_ok (decodes_bind m) hlen]
  rfl

theorem UDPRelayEndpoint.parse_appendMarshal {m : UDPRelayEndpoint} (h : m.AddrsPlain) :
    ∃ p, m.appendMarshal [] = some p ∧ parse p = .ok (.callMeMaybeVia m) := by
  apply parse_appendMsg_of_length (length_encode m)
  rw [parseType, parseCallMeMaybeVia, decode_encode h]
  rfl

theorem AllocateUDPRelayEndpointRequest.parse_appendMarshal (m : AllocateUDPRelayEndpointRequest) :
    ∃ p, m.appendMarshal [] = some p ∧ parse p = .ok (.allocateUDPRelayEndpointRequest m) := by
  have hlen : (putKey m.clientDisco.1 ++ (putKey m.clientDisco.2 ++
      putBE 4 m.generation)).length = allocateUDPRelayEndpointRequestLen := by
    simp only [length_append, length_putKey]
    rfl
  apply parse_appendMsg_of_length hlen
  rw [parseType, parseAllocateUDPRelayEndpointRequest,
    checked_eq_ok (decodes_allocateRequest m) hlen]
  rfl

theorem AllocateUDPRelayEndpointResponse.parse_appendMarshal
    {m : AllocateUDPRelayEndpointResponse} (h : m.toUDPRelayEndpoint.AddrsPlain) :
    ∃ p, m.appendMarshal [] = some p ∧ parse p = .ok (.allocateUDPRelayEndpointResponse m) := by
  have hlen : (putBE 4 m.generation ++ m.encode).length =
      4 + udpRelayEndpointLenMinusAddrPorts + epLength * m.addrPorts.length := by
    rw [length_append, length_putBE, length_encode, add_assoc]
  apply parse_appendMsg_of_length hlen
  rw [parseType, parseAllocateUDPRelayEndpointResponse, decodes_uint (by decide) m.generation,
    Reader.ok_bind]
  dsimp only
  rw [decode_encode h]
  rfl

/-- **What is encoded is parsed to the message again.** -/
theorem Message.parse_appendMarshal (haddrs : m.AddrsPlain) (hpad : m.PaddingShort) :
    ∃ p, m.appendMarshal [] = some p ∧ parse p = .ok m := by
  cases m with
  | ping m => exact m.parse_appendMarshal hpad
  | pong m | callMeMaybe m => exact m.parse_appendMarshal haddrs
  | bindUDPRelayEndpoint m | bindUDPRelayEndpointChallenge m | bindUDPRelayEndpointAnswer m =>
    exact m.parse_appendMarshal fun _ => rfl
  | callMeMaybeVia m => exact m.parse_appendMarshal haddrs
  | allocateUDPRelayEndpointRequest m => exact m.parse_appendMarshal
  | allocateUDPRelayEndpointResponse m => exact m.parse_appendMarshal haddrs
  | sourcePathProbe m => exact m.parse_appendMarshal hpad

/-- What `Parse` can return: a parsed message has plain addresses if its version is 0. -/
theorem parse_cases : parse p ≠ .error .outOfRange ∧
      ∀ m, parse p = .ok m → p[1]? = some 0 → m.AddrsPlain := by
  match p with
  | [] | [_] => exact ⟨nofun, nofun⟩
  | t :: ver :: p =>
    rw [parse]
    split
    next type _ =>
      rcases sound_parseType type ver p with hshort | ⟨m, hm, hplain⟩
      · rw [hshort]
        exact ⟨nofun, nofun⟩
      · rw [hm]
        refine ⟨nofun, fun m' hm' hver => ?_⟩
        rw [← Except.ok.inj hm']
        exact hplain (Option.some.inj hver)
    · exact ⟨nofun, nofun⟩

/-- **The codec of disco messages**: messages whose addresses and padding can be told from
their bytes are parsed from what they are encoded to; what is parsed from version 0 is also
parsed from its own encoding, unless it is a ping or a probe without a key and with at least
32 bytes after it; and parsing never reads beyond the bytes it is given. -/
theorem disco_codec :
    (∀ m : Message, m.AddrsPlain → m.PaddingShort →
      ∃ p, m.appendMarshal [] = some p ∧ parse p = .ok m) ∧
    (∀ (p : Bytes) (m : Message), p[1]? = some 0 → parse p = .ok m → m.PaddingShort →
      ∃ q, m.appendMarshal [] = some q ∧ parse q = .ok m) ∧
    ∀ p : Bytes, parse p ≠ .error .outOfRange := by
  refine ⟨fun m => m.parse_appendMarshal, fun p m hver hp hpad => ?_, fun p => (parse_cases p).1⟩
  exact m.parse_appendMarshal ((parse_cases p).2 m hp hver) hpad

/-- A relay endpoint with an IPv4 address and an IPv6 one. -/
def dualStackEndpoint : UDPRelayEndpoint where
  serverDisco := 1
  lamportID := 2
  vni := 3
  bindLifetime := -4
  addrPorts := [⟨.v4 5, 6⟩, ⟨.v6 7 "", 8⟩]

theorem disco_codec_dualStack :
    (∃ p, (Message.callMeMaybeVia dualStackEndpoint).appendMarshal [] = some p ∧
      parse p = .ok (.callMeMaybeVia dualStackEndpoint)) ∧
    ∃ p, (Message.ping ⟨1, 0, 31⟩).appendMarshal [] = some p ∧
      parse p = .ok (.ping ⟨1, 0, 31⟩) := by
  refine ⟨disco_codec.1 _ ⟨by decide, ?_⟩ trivial, disco_codec.1 _ trivial fun _ => by decide⟩
  intro ipp hipp
  rcases mem_cons.1 hipp with rfl | hipp
  · exact ⟨rfl, rfl, rfl⟩
  · rw [mem_singleton.1 hipp]
    exact ⟨rfl, by decide, rfl⟩

example : ((Message.ping ⟨1, 0, 32⟩).appendMarshal []).map parse =
    some (.ok (.ping ⟨1, 0, 0⟩)) := by
  decide

end Multiport.Disco
