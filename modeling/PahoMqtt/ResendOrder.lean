import PahoMqtt.FlowControl

/-!
# Re-sends and new publications

When a connection completes, the messages in flight are sent again in the order
of the list, as long as the socket takes each packet whole.  A write that is
left unfinished ends the loop; the rest waits for a later retry, while new
publications are started as soon as the write is finished.  The module says
under which condition on the writes every older message has been sent again
before a new publication goes out.
-/

namespace PahoMqtt

open MQTTPacket MQTTProtocol MQTTPersistence

/-! ### What a write comes to -/

/-- The bytes that the socket is given for a packet of `total` bytes. -/
def wireSize (websocket : Bool) (total : Nat) : Nat :=
  if websocket then WebSocket.calculateFrameHeaderSize total + total else total

/-- The return code of a write on an idle socket. -/
def writeRc (env : Env) (call total : Nat) : Int :=
  match env.writev call total with
  | none => SOCKET_ERROR
  | some bytes => if bytes = total then TCPSOCKET_COMPLETE else TCPSOCKET_INTERRUPTED

/-- The net after a write that returned `rc`, the next call of the environment being `calls`. -/
structure Written (net net' : Net) (rc : Int) (calls : Nat) : Prop where
  calls : net'.calls = calls
  websocket : net'.websocket = net.websocket
  persisted : net'.persistence.isSome = net.persistence.isSome
  pending : Socket.noPendingWrites net' = decide (rc ≠ TCPSOCKET_INTERRUPTED)

theorem socket_putdatas_written
    (env : Env) {net : Net}
    (hidle : Socket.noPendingWrites net = true)
    (total : Nat) :
    (Socket.putdatas env net total).1 = writeRc env net.calls total ∧
      Written net (Socket.putdatas env net total).2 (writeRc env net.calls total)
        (net.calls + 1) := by
  unfold Socket.putdatas writeRc
  rw [if_neg (by simp [hidle])]
  cases henv : env.writev net.calls total with
  | none =>
      exact ⟨rfl, ⟨rfl, rfl, rfl, hidle⟩⟩
  | some bytes =>
      dsimp only
      split
      · exact ⟨rfl, ⟨rfl, rfl, rfl, hidle⟩⟩
      · exact ⟨rfl, ⟨rfl, rfl, rfl, rfl⟩⟩

theorem putdatas_written
    (env : Env) {net : Net}
    (hidle : Socket.noPendingWrites net = true)
    (buf0len : Nat) (bufs : PacketBuffers) :
    let size := wireSize net.websocket (buf0len + (bufs.buffers.map List.length).sum)
    (WebSocket.putdatas env net buf0len bufs).1 = writeRc env net.calls size ∧
      Written net (WebSocket.putdatas env net buf0len bufs).2.2 (writeRc env net.calls size)
        (net.calls + 1) := by
  dsimp only [WebSocket.putdatas, wireSize]
  split
  · split <;> exact socket_putdatas_written env hidle _
  · exact socket_putdatas_written env hidle _

/-- Storing a record takes one call where there is a store and the key is printed. -/
theorem putPacket_calls
    (env : Env) (net : Net) (buf0 : Bytes) (buffers : List Bytes) (htype : PacketType)
    (msgId : MsgId) (MQTTVersion : Nat) :
    (putPacket env net buf0 buffers htype msgId false MQTTVersion).2.calls = net.calls +
      if net.persistence.isSome = true ∧ KeyFits (putStem htype false MQTTVersion) msgId then 1
      else 0 := by
  unfold putPacket
  cases hstore : net.persistence with
  | none =>
      simp
  | some store =>
      by_cases hfits : KeyFits (putStem htype false MQTTVersion) msgId
      · have hboth : (some store).isSome = true ∧ KeyFits (putStem htype false MQTTVersion) msgId :=
          ⟨rfl, hfits⟩
        rw [messageKey_of_fits hfits, if_pos hboth]
        dsimp only
        split <;> rfl
      · rw [messageKey_of_not_fits hfits, if_neg (fun h => hfits h.2)]
        rfl

/-- The calls that storing a PUBLISH or PUBREL takes before its write. -/
def storeCalls (persisted : Bool) (htype : PacketType) (MQTTVersion : Nat) (msgid : MsgId) : Nat :=
  if persisted = true ∧ KeyFits (putStem htype false MQTTVersion) msgid then 1 else 0

theorem putPacket_written
    (env : Env) {net : Net}
    (hidle : Socket.noPendingWrites net = true)
    (buf0 : Bytes) (buffers : List Bytes) (htype : PacketType) (msgId : MsgId) (MQTTVersion : Nat) :
    let net' := (putPacket env net buf0 buffers htype msgId false MQTTVersion).2
    Socket.noPendingWrites net' = true ∧ net'.websocket = net.websocket ∧
      net'.persistence.isSome = net.persistence.isSome ∧
      net'.calls = net.calls +
        storeCalls net.persistence.isSome htype MQTTVersion msgId := by
  obtain ⟨hwebsocket, hpending⟩ := putPacket_socket env net buf0 buffers htype msgId false MQTTVersion
  refine ⟨?_, hwebsocket, putPacket_isSome env net _ _ _ _ _ _, putPacket_calls env net _ _ _ _ _⟩
  rw [Socket.noPendingWrites, hpending]
  exact hidle

/-! ### The packets of a re-send -/

/-- The size of a PUBLISH on the socket. -/
def publishSize (websocket : Bool) (pack : Publish) (qos : Nat) : Nat :=
  wireSize websocket
    ((fixedHeader (publishHeader true qos false)
        ((publishBuffers pack qos).map List.length).sum).length +
      ((publishBuffers pack qos).map List.length).sum)

/-- The size of a PUBREL on the socket. -/
def pubrelSize (websocket : Bool) : Nat :=
  wireSize websocket 4

/-- The outcome of sending a packet of `size` bytes, after `stored` calls for its record. -/
structure SentWhole (env : Env) (net net' : Net) (rc : Int) (stored size : Nat) : Prop where
  rc_eq : rc = writeRc env (net.calls + stored) size
  written : Written net net' rc (net.calls + stored + 1)

theorem logHanded_written
    {before after net : Net} {header : Header} {msgId : MsgId} {rc rc' : Int} {calls : Nat}
    (h : Written net after rc calls) :
    Written net (logHanded before after header msgId rc') rc calls := by
  unfold logHanded
  split
  · exact ⟨h.calls, h.websocket, h.persisted, h.pending⟩
  · exact h

/-- Writing a packet after its record was stored. -/
theorem sentWhole_of_stored
    (env : Env) {net stored : Net} {calls : Nat}
    (hidle : Socket.noPendingWrites stored = true)
    (hwebsocket : stored.websocket = net.websocket)
    (hpersisted : stored.persistence.isSome = net.persistence.isSome)
    (hcalls : stored.calls = net.calls + calls)
    (before : Net) (header : Header) (msgId : MsgId) (rc' : Int) (buf0len : Nat)
    (bufs : PacketBuffers) :
    SentWhole env net
      (logHanded before (WebSocket.putdatas env stored buf0len bufs).2.2 header msgId rc')
      (WebSocket.putdatas env stored buf0len bufs).1 calls
      (wireSize net.websocket (buf0len + (bufs.buffers.map List.length).sum)) := by
  obtain ⟨hrc, hwritten⟩ := putdatas_written env hidle buf0len bufs
  rw [hcalls, hwebsocket] at hrc hwritten
  have hkept : Written net (WebSocket.putdatas env stored buf0len bufs).2.2 _ _ :=
    ⟨hwritten.calls, hwritten.websocket.trans hwebsocket, hwritten.persisted.trans hpersisted,
      hwritten.pending⟩
  refine ⟨hrc, ?_⟩
  rw [← hrc] at hkept
  exact logHanded_written hkept

theorem send_publish_written
    (env : Env) {net : Net}
    (hidle : Socket.noPendingWrites net = true)
    (pack : Publish) (dup : Bool) {qos : Nat} (retained : Bool)
    (hqos : qos = 1 ∨ qos = 2) :
    SentWhole env net (send_publish env net pack dup qos retained).2.2
      (send_publish env net pack dup qos retained).1
      (storeCalls net.persistence.isSome .publish pack.MQTTVersion pack.msgId)
      (publishSize net.websocket pack qos) := by
  have hheader : (publishHeader dup qos retained).qos ≠ 0 := by
    rcases hqos with rfl | rfl <;> simp [publishHeader]
  have htype : (publishHeader dup qos retained).type = .publish := rfl
  have hid := sendsMsgId_publish pack dup retained pack.mask hqos
  obtain ⟨hidle', hwebsocket, hpersisted, hcalls⟩ := putPacket_written env hidle
    (fixedHeader (publishHeader dup qos retained) ((publishBuffers pack qos).map List.length).sum)
    (publishBuffers pack qos) .publish pack.msgId pack.MQTTVersion
  have hstored : storeds env net (publishHeader dup qos retained)
      ⟨publishBuffers pack qos, pack.mask⟩ pack.MQTTVersion =
      (putPacket env net (fixedHeader (publishHeader dup qos retained)
        ((publishBuffers pack qos).map List.length).sum) (publishBuffers pack qos) .publish
        pack.msgId false pack.MQTTVersion).2 := by
    rw [storeds, if_pos ⟨htype, hheader⟩, hid]
    rfl
  rw [← hstored] at hidle' hwebsocket hpersisted hcalls
  exact sentWhole_of_stored env hidle' hwebsocket hpersisted hcalls _ _ _ _ _ _

theorem send_pubrel_written
    (env : Env) {net : Net}
    (hidle : Socket.noPendingWrites net = true)
    (MQTTVersion : Nat) (msgid : MsgId) :
    SentWhole env net (send_pubrel env net MQTTVersion msgid false).2
      (send_pubrel env net MQTTVersion msgid false).1
      (storeCalls net.persistence.isSome .pubrel MQTTVersion msgid)
      (pubrelSize net.websocket) := by
  obtain ⟨hidle', hwebsocket, hpersisted, hcalls⟩ := putPacket_written env hidle
    (fixedHeader (ackHeader .pubrel false) 2) [writeInt msgid.toNat] .pubrel msgid MQTTVersion
  have hstored : stored env net (ackHeader .pubrel false) (writeInt msgid.toNat) MQTTVersion =
      (putPacket env net (fixedHeader (ackHeader .pubrel false) 2) [writeInt msgid.toNat] .pubrel
        msgid false MQTTVersion).2 := by
    rw [stored, if_pos (show (ackHeader .pubrel false).type = .pubrel from rfl), peekMsgId_ack]
    rfl
  rw [← hstored] at hidle' hwebsocket hpersisted hcalls
  exact sentWhole_of_stored env hidle' hwebsocket hpersisted hcalls
    (stored env net (ackHeader .pubrel false) (writeInt msgid.toNat) MQTTVersion)
    (ackHeader .pubrel false) (peekMsgId (writeInt msgid.toNat))
    (send_pubrel env net MQTTVersion msgid false).1 (fixedHeader (ackHeader .pubrel false) 2).length
    ⟨[writeInt msgid.toNat], ⟨0, 0, 0, 0⟩⟩

/-! ### The re-sends of a connection -/

/-- A message that a retry can send, as a PUBLISH or as a PUBREL. -/
def Sendable (m : Messages) : Prop :=
  (resendable m = true ∧ m.publish.isSome = true) ∨
    (resendable m = false ∧ m.qos ≠ 0 ∧ m.nextMessageType = some .pubcomp)

def resendType (m : Messages) : PacketType :=
  if resendable m then .publish else .pubrel

/-- The size of the packet that a retry sends. -/
def resendSize (websocket : Bool) (m : Messages) : Nat :=
  if resendable m then
    match m.publish with
    | some p => publishSize websocket (retryPublish m p) m.qos
    | none => 0
  else pubrelSize websocket

/-- The calls before the write of a re-send. -/
def resendCalls (persisted : Bool) (m : Messages) : Nat :=
  storeCalls persisted (resendType m) m.MQTTVersion m.msgid

/-- What `writev` makes of a re-send. -/
def resendRc (env : Env) (websocket persisted : Bool) (calls : Nat) (m : Messages) : Int :=
  writeRc env (calls + resendCalls persisted m) (resendSize websocket m)

/--
No PUBLISH before the last message is left unfinished by `writev`.  After an
error of the socket, and after a PUBREL that is not taken whole, the connection
is closed, so that the writes after it do not matter.
-/
def Uninterrupted (env : Env) (websocket persisted : Bool) : Nat → List Messages → Prop
  | calls, m :: m' :: msgs =>
      (resendable m = true → resendRc env websocket persisted calls m ≠ TCPSOCKET_INTERRUPTED) ∧
        (resendRc env websocket persisted calls m = TCPSOCKET_COMPLETE →
          Uninterrupted env websocket persisted (calls + resendCalls persisted m + 1) (m' :: msgs))
  | _, _ => True

instance Uninterrupted.decidable (env : Env) (websocket persisted : Bool) :
    (calls : Nat) → (msgs : List Messages) →
      Decidable (Uninterrupted env websocket persisted calls msgs)
  | _, [] => isTrue trivial
  | _, [_] => isTrue trivial
  | calls, m :: m' :: msgs =>
      have := Uninterrupted.decidable env websocket persisted
        (calls + resendCalls persisted m + 1) (m' :: msgs)
      inferInstanceAs (Decidable (_ ∧ _))

theorem resent_put
    (htype : PacketType) (msgId : MsgId) (scr : Bool) (rc : Int) :
    Output.resent (.putPacket htype msgId scr rc) = none :=
  rfl

/-- A retry of one message on an idle socket. -/
structure Resent (env : Env) (net : Net) (m : Messages) (r : Messages × Bool × Net) (rc : Int) :
    Prop where
  good : r.2.1 = true ↔ rc = TCPSOCKET_COMPLETE ∨ (resendable m = true ∧ rc = TCPSOCKET_INTERRUPTED)
  closes : r.2.1 = false → r.2.2.log.any Output.isCloseSession = true
  sent : r.2.2.log.filterMap Output.resent =
    net.log.filterMap Output.resent ++ if rc = SOCKET_ERROR then [] else [m.msgid]
  written : Written net r.2.2 rc (net.calls + resendCalls net.persistence.isSome m + 1)

theorem writeRc_cases
    (env : Env) (call total : Nat) :
    writeRc env call total = SOCKET_ERROR ∨ writeRc env call total = TCPSOCKET_COMPLETE ∨
      writeRc env call total = TCPSOCKET_INTERRUPTED := by
  unfold writeRc
  split
  · exact Or.inl rfl
  · split
    · exact Or.inr (Or.inl rfl)
    · exact Or.inr (Or.inr rfl)

/-- Logging that the session is to be closed does not touch the socket. -/
theorem Written.closeSession
    {net net' : Net} {rc : Int} {calls : Nat}
    (h : Written net net' rc calls) :
    Written net (closeSession net') rc calls :=
  ⟨h.calls, h.websocket, h.persisted, h.pending⟩

theorem closeSession_resent
    (net : Net) :
    (closeSession net).log.filterMap Output.resent = net.log.filterMap Output.resent := by
  rw [closeSession, Net.emit, List.filterMap_append, List.filterMap_cons_none rfl,
    List.filterMap_nil, List.append_nil]

theorem closeSession_closes
    (net : Net) :
    (closeSession net).log.any Output.isCloseSession = true := by
  simp [closeSession, Net.emit, Output.isCloseSession]

theorem resent_handed
    {header : Header} (msgId : MsgId) (rc : Int) (store : Option Store)
    (hheader : header.type = .publish ∧ header.dup = true ∨ header.type = .pubrel) :
    (Output.resent (.handed header msgId rc store)).toList =
      if rc = SOCKET_ERROR then [] else [msgId] := by
  unfold Output.resent
  dsimp only
  by_cases hrc : rc = SOCKET_ERROR
  · rw [if_pos hrc, if_neg (fun h => h.2 hrc)]
    rfl
  · rw [if_neg hrc, if_pos ⟨hheader, hrc⟩]
    rfl

theorem send_publish_resent
    (env : Env) {net : Net}
    (hidle : Socket.noPendingWrites net = true)
    (pack : Publish) {qos : Nat} (retained : Bool)
    (hqos : qos = 1 ∨ qos = 2) :
    (send_publish env net pack true qos retained).2.2.log.filterMap Output.resent =
      net.log.filterMap Output.resent ++
        if (send_publish env net pack true qos retained).1 = SOCKET_ERROR then []
        else [pack.msgId] := by
  obtain ⟨store, hlog⟩ := sends_observed resent_put env net
    (publishHeader true qos retained) ⟨publishBuffers pack qos, pack.mask⟩ pack.MQTTVersion
  rw [sendsMsgId_publish pack true retained _ hqos, if_pos hidle,
    resent_handed _ _ _ (Or.inl ⟨rfl, rfl⟩)] at hlog
  exact hlog

theorem send_pubrel_resent
    (env : Env) {net : Net}
    (hidle : Socket.noPendingWrites net = true)
    (MQTTVersion : Nat) (msgid : MsgId) :
    (send_pubrel env net MQTTVersion msgid false).2.log.filterMap Output.resent =
      net.log.filterMap Output.resent ++
        if (send_pubrel env net MQTTVersion msgid false).1 = SOCKET_ERROR then [] else [msgid] := by
  obtain ⟨store, hlog⟩ := send_observed resent_put env net (ackHeader .pubrel false)
    (writeInt msgid.toNat) MQTTVersion
  rw [peekMsgId_ack, if_pos hidle, resent_handed _ _ _ (Or.inr rfl)] at hlog
  exact hlog

theorem retryMessage_resent
    (env : Env) (retryInterval now : Int) {net : Net}
    (hidle : Socket.noPendingWrites net = true)
    {m : Messages}
    (hm : Sendable m) :
    Resent env net m (retryMessage env retryInterval now true net m)
      (resendRc env net.websocket net.persistence.isSome net.calls m) := by
  unfold retryMessage
  rw [if_pos (Or.inl rfl)]
  rcases hm with ⟨hre, hpublish⟩ | ⟨hre, hqos, hnext⟩
  · have hkind : m.qos = 1 ∨ (m.qos = 2 ∧ m.nextMessageType = some .pubrec) := by
      simpa [resendable] using hre
    obtain ⟨p, hp⟩ := Option.isSome_iff_exists.mp hpublish
    rw [if_pos hkind, hp]
    have hsent := send_publish_resent env hidle (retryPublish m p) m.retain (hkind.imp_right And.left)
    have hwhole := send_publish_written env hidle (retryPublish m p) true m.retain
      (hkind.imp_right And.left)
    have hrc : resendRc env net.websocket net.persistence.isSome net.calls m =
        (send_publish env net (retryPublish m p) true m.qos m.retain).1 := by
      rw [hwhole.rc_eq, resendRc, resendCalls, resendType, resendSize, if_pos hre, if_pos hre, hp]
      rfl
    have hcalls : resendCalls net.persistence.isSome m = storeCalls net.persistence.isSome .publish
        (retryPublish m p).MQTTVersion (retryPublish m p).msgId := by
      rw [resendCalls, resendType, if_pos hre]
      rfl
    have hthree := writeRc_cases env (net.calls + resendCalls net.persistence.isSome m)
      (resendSize net.websocket m)
    rw [← resendRc, hrc] at hthree
    rw [hrc]
    dsimp only
    split
    next herror =>
      exact {
        good := by simp [herror, SOCKET_ERROR, TCPSOCKET_COMPLETE, TCPSOCKET_INTERRUPTED]
        closes := fun _ => closeSession_closes _
        sent := (closeSession_resent _).trans hsent
        written := by
          rw [hcalls]
          exact hwhole.written.closeSession }
    next hok =>
      refine { good := ?_, closes := fun h => absurd h Bool.noConfusion, sent := hsent, written := ?_ }
      · have hdone := hthree.resolve_left hok
        exact ⟨fun _ => hdone.imp_right (fun h => ⟨hre, h⟩), fun _ => rfl⟩
      · rw [hcalls]
        exact hwhole.written
  · have hkind : ¬(m.qos = 1 ∨ (m.qos = 2 ∧ m.nextMessageType = some .pubrec)) := by
      simpa [resendable] using hre
    rw [if_neg hkind, if_pos ⟨hqos, hnext⟩]
    have hsent := send_pubrel_resent env hidle m.MQTTVersion m.msgid
    have hwhole := send_pubrel_written env hidle m.MQTTVersion m.msgid
    have hnot : ¬resendable m = true := by simp [hre]
    have hcalls : resendCalls net.persistence.isSome m =
        storeCalls net.persistence.isSome .pubrel m.MQTTVersion m.msgid := by
      rw [resendCalls, resendType, if_neg hnot]
    have hrc : resendRc env net.websocket net.persistence.isSome net.calls m =
        (send_pubrel env net m.MQTTVersion m.msgid false).1 := by
      rw [hwhole.rc_eq, resendRc, hcalls, resendSize, if_neg hnot]
    rw [hrc]
    dsimp only
    split
    next herror =>
      exact {
        good := by simp [hnot, herror]
        closes := fun _ => closeSession_closes _
        sent := (closeSession_resent _).trans hsent
        written := by
          rw [hcalls]
          exact hwhole.written.closeSession }
    next hok =>
      refine { good := ?_, closes := fun h => absurd h Bool.noConfusion, sent := hsent, written := ?_ }
      · exact ⟨fun _ => Or.inl (not_not.mp hok), fun _ => rfl⟩
      · rw [hcalls]
        exact hwhole.written

theorem Uninterrupted.tail
    {env : Env} {websocket persisted : Bool} {calls : Nat} {m : Messages} {msgs : List Messages}
    (h : Uninterrupted env websocket persisted calls (m :: msgs))
    (hcomplete : resendRc env websocket persisted calls m = TCPSOCKET_COMPLETE) :
    Uninterrupted env websocket persisted (calls + resendCalls persisted m + 1) msgs := by
  cases msgs with
  | nil => trivial
  | cons m' msgs => exact h.2 hcomplete

/-- The loop stops at once where the client is not good or the socket is busy. -/
theorem retryLoop_stops
    (env : Env) (retryInterval now : Int) (regardless connected : Bool) {good : Bool} {net : Net}
    (h : ¬(good = true ∧ Socket.noPendingWrites net = true))
    (msgs : List Messages) :
    retryLoop env retryInterval now regardless connected good net msgs = (msgs, good, net) := by
  cases msgs with
  | nil =>
      rfl
  | cons m msgs =>
      unfold retryLoop
      rw [if_neg (fun hrun => h hrun.2)]

/--
The re-sends go through the list from its start, and to its end unless a write
is left unfinished or the session is to be closed.
-/
theorem retryLoop_resent
    (env : Env) (retryInterval now : Int) {net : Net}
    (hidle : Socket.noPendingWrites net = true)
    {msgs : List Messages}
    (hmsgs : ∀ m ∈ msgs, Sendable m) :
    let net' := (retryLoop env retryInterval now true true true net msgs).2.2
    ∃ sent : List MsgId, sent <+: msgIds msgs ∧
      net'.log.filterMap Output.resent = net.log.filterMap Output.resent ++ sent ∧
      (Uninterrupted env net.websocket net.persistence.isSome net.calls msgs →
        sent = msgIds msgs ∨ net'.log.any Output.isCloseSession = true) := by
  induction msgs generalizing net with
  | nil =>
      exact ⟨[], List.nil_prefix, (List.append_nil _).symm, fun _ => Or.inl rfl⟩
  | cons m msgs ih =>
      have hresent := retryMessage_resent env retryInterval now hidle (hmsgs m List.mem_cons_self)
      unfold retryLoop
      rw [if_pos ⟨rfl, rfl, hidle⟩]
      dsimp only
      generalize retryMessage env retryInterval now true net m = r at hresent ⊢
      obtain ⟨m', good, net₁⟩ := r
      obtain ⟨hgood, hcloses, hsent, hwritten⟩ := hresent
      dsimp only at hgood hcloses hsent hwritten ⊢
      by_cases hup : good = true
      · have hone : net₁.log.filterMap Output.resent =
            net.log.filterMap Output.resent ++ [m.msgid] := by
          rw [hsent, if_neg]
          rcases hgood.mp hup with h | ⟨_, h⟩ <;> rw [h] <;> decide
        rcases hgood.mp hup with hcomplete | ⟨hre, hinterrupted⟩
        · have hidle₁ : Socket.noPendingWrites net₁ = true := by
            rw [hwritten.pending, hcomplete]
            decide
          obtain ⟨sent, hbegins, hlog, hall⟩ :=
            ih hidle₁ (fun x hx => hmsgs x (List.mem_cons_of_mem _ hx))
          rw [hwritten.websocket, hwritten.persisted, hwritten.calls] at hall
          rw [hup]
          refine ⟨m.msgid :: sent, ?_, ?_, ?_⟩
          · exact List.cons_prefix_cons.mpr ⟨rfl, hbegins⟩
          · rw [hlog, hone, List.append_assoc]
            rfl
          · intro hwhole
            refine (hall (hwhole.tail hcomplete)).imp_left (fun h => ?_)
            rw [h]
            rfl
        · have hbusy : ¬(good = true ∧ Socket.noPendingWrites net₁ = true) := by
            rw [hwritten.pending, hinterrupted]
            simp
          rw [retryLoop_stops env retryInterval now true true hbusy]
          refine ⟨[m.msgid], List.cons_prefix_cons.mpr ⟨rfl, List.nil_prefix⟩, hone, ?_⟩
          intro hwhole
          cases msgs with
          | nil => exact Or.inl rfl
          | cons m' msgs => exact absurd hinterrupted (hwhole.1 hre)
      · rw [retryLoop_stops env retryInterval now true true (fun h => hup h.1)]
        refine ⟨_, ?_, hsent, fun _ => Or.inr (hcloses (Bool.not_eq_true _ ▸ hup))⟩
        split
        · exact List.nil_prefix
        · exact List.cons_prefix_cons.mpr ⟨rfl, List.nil_prefix⟩

/-! ### The messages stay sendable -/

theorem Sendable.of_same
    {m m' : Messages}
    (h : Sendable m)
    (hsame : Messages.SameExchange m m')
    (hpublish : m'.publish.isSome = m.publish.isSome) :
    Sendable m' := by
  rw [Sendable, resendable, hsame.qos, hsame.nextMessageType, hpublish]
  exact h

theorem retryMessage_publish
    (env : Env) (retryInterval now : Int) (regardless : Bool) (net : Net) (m : Messages) :
    (retryMessage env retryInterval now regardless net m).1.publish.isSome = m.publish.isSome := by
  unfold retryMessage
  split
  · split
    · split
      · rfl
      next p hp =>
        rw [hp]
        dsimp only
        split <;> rfl
    · split
      · dsimp only
        split <;> rfl
      · rfl
  · rfl

theorem retryLoop_sendable
    (env : Env) (retryInterval now : Int) (regardless connected good : Bool) (net : Net)
    {msgs : List Messages}
    (hmsgs : ∀ m ∈ msgs, Sendable m) :
    ∀ m ∈ (retryLoop env retryInterval now regardless connected good net msgs).1, Sendable m := by
  have hall : List.Forall₂ (fun m m' => Sendable m → Sendable m') msgs
      (retryLoop env retryInterval now regardless connected good net msgs).1 :=
    retryLoop_msgs env retryInterval now regardless connected (fun _ h => h)
      (fun net m _ h => h.of_same (retryMessage_same env _ _ _ net m)
        (retryMessage_publish env _ _ _ net m)) good net
  intro m' hm'
  obtain ⟨i, hi, rfl⟩ := List.mem_iff_getElem.mp hm'
  have hlen := hall.length_eq
  exact (List.forall₂_iff_get.mp hall).2 i (by omega) hi (hmsgs _ (List.getElem_mem _))

theorem retry_sendable
    (env : Env) (now : Int) (doRetry regardless : Bool) {client : Clients}
    (hmsgs : ∀ m ∈ client.outboundMsgs, Sendable m) :
    ∀ m ∈ (retry env now doRetry regardless client).outboundMsgs, Sendable m := by
  unfold retry
  split
  · exact hmsgs
  · split
    · exact hmsgs
    · split
      · exact hmsgs
      · split
        · unfold retries
          split
          · exact hmsgs
          · exact retryLoop_sendable env _ _ _ _ _ _ hmsgs
        · exact hmsgs

theorem touched_sendable
    {msgs : List Messages}
    (hmsgs : ∀ m ∈ msgs, Sendable m) :
    ∀ m ∈ msgs.map (fun m => { m with lastTouch := 0 }), Sendable m := by
  intro m hm
  obtain ⟨x, hx, rfl⟩ := List.mem_map.mp hm
  exact (hmsgs x hx).of_same ⟨rfl, rfl, rfl, rfl, rfl, rfl⟩ rfl

theorem startPublish_sendable
    (env : Env) {client : Clients} (publish : Publish) {qos : Nat} (retained : Bool)
    (hqos : qos ≤ 2)
    (hmsgs : ∀ m ∈ client.outboundMsgs, Sendable m) :
    ∀ m ∈ (client.act env (.startPublish publish qos retained)).2.outboundMsgs, Sendable m := by
  simp only [Clients.act, startPublish]
  split
  next hpos =>
    intro m hm
    rcases List.mem_append.mp hm with hm | hm
    · exact hmsgs m hm
    · obtain rfl := List.mem_singleton.mp hm
      refine Or.inl ⟨?_, rfl⟩
      rcases (by omega : qos = 1 ∨ qos = 2) with rfl | rfl <;> simp [resendable, createMessage]
  · exact hmsgs

theorem movedOn_sendable
    (env : Env) (net : Net) {m : Messages}
    (h : Sendable m) :
    Sendable (movedOn env net m) := by
  rcases h with ⟨hre, hpublish⟩ | ⟨hre, hqos, hnext⟩
  · have hkind : m.qos = 1 ∨ m.qos = 2 ∧ m.nextMessageType = some .pubrec := by
      simpa [resendable] using hre
    rcases hkind with hone | ⟨htwo, _⟩
    · exact Or.inl ⟨by simp [resendable, movedOn, hone], hpublish⟩
    · exact Or.inr ⟨by simp [resendable, movedOn, htwo], by simp [movedOn, htwo], rfl⟩
  · have hone : m.qos ≠ 1 := by
      intro h
      simp [resendable, h] at hre
    exact Or.inr ⟨by simp [resendable, movedOn, hone], hqos, rfl⟩

theorem handle_sendable
    (env : Env) {client : Clients} (pack : Packet)
    (hmsgs : ∀ m ∈ client.outboundMsgs, Sendable m) :
    ∀ m ∈ (client.handle env pack).2.outboundMsgs, Sendable m := by
  rcases handle_outbound env client pack with ⟨ack, rfl, heffect⟩ | hsame
  · generalize (client.handle env (.ack ack)).2 = client' at heffect ⊢
    cases heffect with
    | ignored _ _ hsame =>
        rw [hsame]
        exact hmsgs
    | completed m _ _ _ hclient =>
        rw [hclient]
        intro x hx
        exact hmsgs x (mem_removeMsg.mp hx).1
    | movedOn m _ _ hclient =>
        rw [hclient]
        intro x hx
        rcases mem_modifyMsg hx with ⟨hx, _⟩ | ⟨y, hy, _, rfl⟩
        · exact hmsgs x hx
        · exact movedOn_sendable env _ (hmsgs y hy)
  · rw [hsame]
    exact hmsgs

/-! ### The completion of a connection -/

theorem uninterrupted_touched
    {env : Env} {websocket persisted : Bool} {calls : Nat} {msgs : List Messages}
    (h : Uninterrupted env websocket persisted calls msgs) :
    Uninterrupted env websocket persisted calls
      (msgs.map (fun m => { m with lastTouch := 0 })) := by
  induction msgs generalizing calls with
  | nil =>
      exact h
  | cons m msgs ih =>
      cases msgs with
      | nil => trivial
      | cons m' msgs => exact ⟨h.1, fun hcomplete => ih (h.2 hcomplete)⟩

theorem completeConnection_sendable
    (env : Env) {client : Clients} (websocket : Bool)
    (hmsgs : ∀ m ∈ client.outboundMsgs, Sendable m) :
    ∀ m ∈ (MQTTAsync.completeConnection env client websocket).outboundMsgs, Sendable m := by
  unfold MQTTAsync.completeConnection
  dsimp only
  split
  · exact retry_sendable env 0 true true (touched_sendable hmsgs)
  · exact hmsgs

theorem completeConnection_resent
    (env : Env) {client : Clients} (websocket : Bool)
    (hmsgs : ∀ m ∈ client.outboundMsgs, Sendable m) :
    let client' := MQTTAsync.completeConnection env client websocket
    ∃ sent : List MsgId, sent <+: msgIds client.outboundMsgs ∧
      client'.net.log.filterMap Output.resent = client.net.log.filterMap Output.resent ++ sent ∧
      ((client.outboundMsgs ≠ [] → Socket.noPendingWrites client.net = true ∧
          Uninterrupted env websocket client.net.persistence.isSome client.net.calls
            client.outboundMsgs) →
        sent = msgIds client.outboundMsgs ∨ client'.net.log.any Output.isCloseSession = true) := by
  dsimp only [MQTTAsync.completeConnection]
  split
  next hlen =>
    have hne : client.outboundMsgs ≠ [] := List.length_pos_iff.mp hlen
    have hids : msgIds (client.outboundMsgs.map (fun m => { m with lastTouch := 0 })) =
        msgIds client.outboundMsgs := (sameExchanges_touch client.outboundMsgs 0).msgIds_eq
    unfold retry
    rw [if_neg (by simp), if_neg (by simp)]
    by_cases hidle : Socket.noPendingWrites client.net = true
    · have hidle' : Socket.noPendingWrites { client.net with websocket } = true := hidle
      obtain ⟨sent, hbegins, hlog, hall⟩ := retryLoop_resent env client.retryInterval 0 hidle'
        (touched_sendable hmsgs)
      rw [hids] at hbegins hall
      rw [if_neg (by simp [hidle']), if_pos rfl]
      unfold retries
      rw [if_neg (by simp)]
      exact ⟨sent, hbegins, hlog, fun h => hall (uninterrupted_touched (h hne).2)⟩
    · have hbusy : (!Socket.noPendingWrites { client.net with websocket }) = true := by
        rw [Bool.not_eq_true']
        exact Bool.not_eq_true _ ▸ hidle
      rw [if_pos hbusy]
      exact ⟨[], List.nil_prefix, (List.append_nil _).symm, fun h => absurd (h hne).1 hidle⟩
  next hlen =>
    have hnil : client.outboundMsgs = [] := by
      rw [← List.length_eq_zero_iff]
      omega
    rw [hnil]
    exact ⟨[], List.nil_prefix, (List.append_nil _).symm, fun _ => Or.inl rfl⟩

/-! ### Runs -/

namespace MQTTAsync.FlowState

/--
The re-sends of the step are not broken off: at the completion of a connection
no write is unfinished, and no PUBLISH before the last is left unfinished.
-/
def ResendsWhole (env : Env) (s : FlowState) : FlowEvent → Prop
  | .connack connack websocket _ _ _ =>
      s.connect_state = .waitForConnack → connack.rc = 0 → s.kept connack ≠ [] →
        Socket.noPendingWrites s.client.net = true ∧
          Uninterrupted env websocket s.client.net.persistence.isSome s.client.net.calls
            (s.kept connack)
  | _ => True

instance (env : Env) (s : FlowState) : (e : FlowEvent) → Decidable (s.ResendsWhole env e)
  | .connack connack websocket _ _ _ => inferInstanceAs (Decidable
      (s.connect_state = .waitForConnack → connack.rc = 0 → s.kept connack ≠ [] →
        Socket.noPendingWrites s.client.net = true ∧
          Uninterrupted env websocket s.client.net.persistence.isSome s.client.net.calls
            (s.kept connack)))
  | .connect _ => inferInstanceAs (Decidable True)
  | .connecting _ => inferInstanceAs (Decidable True)
  | .processCommand .. => inferInstanceAs (Decidable True)
  | .retry .. => inferInstanceAs (Decidable True)
  | .writeInterrupted => inferInstanceAs (Decidable True)
  | .continueWrites => inferInstanceAs (Decidable True)
  | .packet _ => inferInstanceAs (Decidable True)
  | .disconnect => inferInstanceAs (Decidable True)
  | .closeOnly _ => inferInstanceAs (Decidable True)
  | .closeSession .. => inferInstanceAs (Decidable True)

/-- On the connection that there is, nothing is owed, or it is about to be closed. -/
structure ResendsDone (s : FlowState) : Prop where
  sendable : ∀ m ∈ s.client.outboundMsgs, Sendable m
  done : s.client.connected = true → s.wire.owed = [] ∨ s.closing = true

/--
A new publication goes out only when every older message has been sent again or
completed, and the re-sends are in the order of the list.
-/
structure ResendsFirst (x : Lib.Transition FlowState FlowEvent) : Prop where
  new_after : ∀ command pub, x.event = .processCommand command pub →
    x.post.client.net.log.any Output.isPublish = true → x.pre.wire.owed = []
  in_order : ∀ connack websocket pkeys more disconnect,
    x.event = .connack connack websocket pkeys more disconnect →
    x.post.client.connected = true →
      x.post.client.net.log.filterMap Output.resent <+: msgIds (x.pre.kept connack)
  retry_in_order : ∀ now doRetry regardless, x.event = .retry now doRetry regardless →
    (x.post.client.net.log.filterMap Output.resent).Sublist (msgIds x.pre.client.outboundMsgs)

theorem ResendsDone.of_closed
    {s t : FlowState}
    (h : s.ResendsDone)
    (hclosed : Closed s t) :
    t.ResendsDone where
  sendable := by
    rcases hclosed.outbound with hsame | hnil
    · rw [hsame]
      exact h.sendable
    · rw [hnil]
      intro m hm
      cases hm
  done hconnected := by
    rw [hclosed.connected] at hconnected
    cases hconnected

/-- What is owed does not grow by what the client does. -/
theorem ResendsDone.of_after
    {s : FlowState} {client : Clients}
    (h : s.ResendsDone)
    (hsendable : ∀ m ∈ client.outboundMsgs, Sendable m)
    (hconnected : client.connected = s.client.connected) :
    (s.after client).ResendsDone where
  sendable := hsendable
  done hup := by
    rcases h.done (hconnected ▸ hup) with howed | hclosing
    · refine Or.inl ?_
      show s.wire.owed.filter _ = []
      rw [howed]
      rfl
    · refine Or.inr ?_
      show (s.closing || _) = true
      rw [hclosing]
      rfl

theorem kept_sendable
    {s : FlowState}
    (h : s.ResendsDone)
    (connack : Connack) :
    ∀ m ∈ s.kept connack, Sendable m := by
  unfold kept
  split
  · intro m hm
    cases hm
  · exact h.sendable

/-- The calls of the environment are those of the state before, unless the session is cleaned. -/
theorem cleaned_net
    (env : Env) (s : FlowState) (pkeys : Int × List Key) {connack : Connack}
    (hkept : s.kept connack ≠ []) :
    (s.cleaned env pkeys connack).2 = s.client.start := by
  unfold kept at hkept
  unfold cleaned
  split at hkept
  · exact absurd rfl hkept
  next hclean => rw [if_neg hclean]

/-- The re-sends at a CONNACK. -/
theorem complete_resent
    {env : Env} {s : FlowState} (h : s.ResendsDone) (connack : Connack) (websocket : Bool)
    (pkeys : Int × List Key) :
    let t := s.complete env (s.cleaned env pkeys connack).2 connack websocket
    t.client.net.log.filterMap Output.resent <+: msgIds (s.kept connack) ∧
      ((s.kept connack ≠ [] → Socket.noPendingWrites s.client.net = true ∧
          Uninterrupted env websocket s.client.net.persistence.isSome s.client.net.calls
            (s.kept connack)) →
        t.wire.owed = [] ∨ t.closing = true) := by
  obtain ⟨hkept, _, hlog, _⟩ := cleaned_spec env s pkeys connack
  have hclean := @cleaned_net env s pkeys connack
  set client := (s.cleaned env pkeys connack).2
  have hsendable := kept_sendable h connack
  rw [← hkept] at hsendable
  obtain ⟨sent, hbegins, hsent, hall⟩ := completeConnection_resent env websocket hsendable
  rw [hlog, List.filterMap_nil, List.nil_append] at hsent
  have hresent : (s.complete env client connack websocket).client.net.log.filterMap
      Output.resent = sent := hsent
  refine ⟨by rw [hresent, ← hkept]; exact hbegins, ?_⟩
  intro hwhole
  have hcond : client.outboundMsgs ≠ [] → Socket.noPendingWrites client.net = true ∧
      Uninterrupted env websocket client.net.persistence.isSome client.net.calls
        client.outboundMsgs := by
    rw [hkept]
    intro hne
    rw [hclean hne]
    exact hwhole hne
  rcases hall hcond with hdone | hclose
  · refine Or.inl ?_
    show (msgIds client.outboundMsgs).filter _ = []
    rw [List.filter_eq_nil_iff]
    intro msgid hmsgid
    have hin : msgid ∈ (MQTTAsync.completeConnection env client websocket).net.log.filterMap
        Output.resent := by
      rw [hsent, hdone]
      exact hmsgid
    simp [hin]
  · refine Or.inr ?_
    show (false || _) = true
    exact hclose

theorem step_resendsDone
    {env : Env} {s t : FlowState} {e : FlowEvent}
    (h : s.ResendsDone)
    (hwhole : s.ResendsWhole env e)
    (hstep : s.Step env e t) :
    t.ResendsDone := by
  obtain ⟨hadm, rfl⟩ := hstep
  have hstart : ∀ m ∈ s.client.start.outboundMsgs, Sendable m := h.sendable
  cases e with
  | connect options => exact ⟨h.sendable, h.done⟩
  | connecting state => exact ⟨h.sendable, h.done⟩
  | connack connack websocket pkeys more disconnect =>
      simp only [next]
      split
      next hok =>
        obtain ⟨hkept, _⟩ := cleaned_spec env s pkeys connack
        have hsendable := kept_sendable h connack
        rw [← hkept] at hsendable
        exact ⟨completeConnection_sendable env websocket hsendable,
          fun _ => (complete_resent h connack websocket pkeys).2 (hwhole hok.1 hok.2.1)⟩
      · exact h.of_closed (notCompleted_closed env s pkeys connack websocket more disconnect)
  | processCommand command pub =>
      obtain ⟨_, hlow, hhigh, _⟩ := hadm
      have hafter := h.of_after
        (startPublish_sendable env (publishOf s.client command pub) (pub.retained ≠ 0)
          (qos_toNat hlow hhigh).1 hstart)
        (Clients.startPublish_connected env s.client.start _ _ _)
      refine ⟨hafter.sendable, fun hup => (hafter.done hup).imp_right (fun hclosing => ?_)⟩
      exact (Bool.or_eq_true _ _).mpr (Or.inl hclosing)
  | retry now doRetry regardless =>
      exact h.of_after (retry_sendable env now doRetry regardless hstart)
        (Clients.retry_connected env s.client.start _ _ _)
  | writeInterrupted => exact ⟨h.sendable, h.done⟩
  | continueWrites => exact h.of_after h.sendable rfl
  | packet pack =>
      have hreceive : ({ s with wire := s.wire.receive pack } : FlowState).ResendsDone := by
        refine ⟨h.sendable, fun hup => ?_⟩
        have howed : (s.wire.receive pack).owed = s.wire.owed := by
          unfold Wire.receive
          split
          · split <;> rfl
          · rfl
        exact (h.done hup).imp_left howed.trans
      exact hreceive.of_after (handle_sendable env pack hstart)
        (Clients.handle_connected env s.client.start pack)
  | disconnect => exact ⟨h.sendable, h.done⟩
  | closeOnly disconnect => exact h.of_closed (closeOnly_closed env s disconnect)
  | closeSession disconnect pkeys =>
      exact h.of_closed (closeSession_closed env s disconnect pkeys)

/-- A retry pass goes through the list in its order. -/
theorem retry_resent
    (env : Env) (client : Clients) (now : Int) (doRetry regardless : Bool) :
    Net.Gains Output.resent (msgIds client.outboundMsgs) client.net
      (MQTTProtocol.retry env now doRetry regardless client).net := by
  have hmsg : ∀ net m, Net.Gains Output.resent (if (fun _ => true) m then [m.msgid] else []) net
      (retryMessage env client.retryInterval now regardless net m).2.2 := by
    intro net m
    refine retryMessage_gains resent_put rfl env _ now regardless net m ?_ ?_
    · intro _ _ rc store
      rw [resent_handed _ _ _ (Or.inl ⟨rfl, rfl⟩)]
      split
      · exact List.nil_sublist _
      · exact List.Sublist.refl _
    · intro _ rc store
      rw [resent_handed _ _ _ (Or.inr rfl)]
      split
      · exact List.nil_sublist _
      · exact List.Sublist.refl _
  unfold MQTTProtocol.retry
  split
  · exact Net.Gains.of_eq _ rfl
  · split
    · exact (Net.Gains.of_eq _ rfl).closeSession rfl
    · split
      · exact Net.Gains.of_eq _ rfl
      · split
        · unfold retries
          split
          · exact Net.Gains.of_eq _ rfl
          · have hloop := retryLoop_gains env client.retryInterval now regardless client.connected
              hmsg client.good client.net client.outboundMsgs
            rwa [List.filter_true] at hloop
        · exact Net.Gains.of_eq _ rfl

theorem step_resendsFirst
    {env : Env} {s t : FlowState} {e : FlowEvent}
    (h : s.ResendsDone)
    (hstep : s.Step env e t) :
    ResendsFirst ⟨s, e, t⟩ := by
  obtain ⟨hadm, rfl⟩ := hstep
  refine ⟨?_, ?_, ?_⟩
  · rintro command pub rfl _
    have hready := publishReady hadm.1 hadm.2.2.2
    rcases h.done hready.connected with howed | hclosing
    · exact howed
    · exact absurd (hready.closing.symm.trans hclosing) (by simp)
  · rintro connack websocket pkeys more disconnect rfl
    simp only [next]
    split
    · intro _
      exact (complete_resent h connack websocket pkeys).1
    · intro hup
      have hdown := (notCompleted_closed env s pkeys connack websocket more disconnect).connected
      exact absurd (hdown.symm.trans hup) (by simp)
  · rintro now doRetry regardless rfl
    obtain ⟨sent, hsent, hlog⟩ := retry_resent env s.client.start now doRetry regardless
    have hresent : (s.next env (.retry now doRetry regardless)).client.net.log.filterMap
        Output.resent = sent := hlog
    rw [hresent]
    exact hsent

/--
In a run whose re-sends are not broken off, every new publication goes out after
all the older messages of its connection, and the re-sends keep their order.
-/
theorem resends_first
    {env : Env} {s t : FlowState} {tr : List (Lib.Transition FlowState FlowEvent)}
    (hrun : Lib.Runs (Step env) s tr t)
    (hsendable : ∀ m ∈ s.client.outboundMsgs, Sendable m)
    (hconnected : s.client.connected = false)
    (hwhole : ∀ x ∈ tr, x.pre.ResendsWhole env x.event) :
    ∀ x ∈ tr, ResendsFirst x := by
  have hstart : s.ResendsDone :=
    ⟨hsendable, fun hup => absurd (hconnected.symm.trans hup) (by simp)⟩
  obtain ⟨hall, _⟩ := hrun.invariant_of
    (fun _ _ _ h hwhole hstep => step_resendsDone h hwhole hstep) hstart hwhole
  intro x hx
  exact step_resendsFirst (hall x hx).1 (hrun.step_of_mem x hx)

/-- One write takes a single byte, all others take everything. -/
def shortWrite (short : Nat) : Env :=
  { Env.reliable with writev := fun call total => if call = short then some 1 else some total }

/--
Two messages are in flight when the connection is lost; a new one completes, and
what the socket has not taken of the re-sends is written later.
-/
def reconnected : List FlowEvent :=
  [.connect keepSession, .connecting .waitForConnack, accepted false 10, qos1 1, qos1 2,
    .closeSession [] (0, []), .connecting .waitForConnack, accepted true 10, .continueWrites]

/-- The last re-send is left unfinished, and a new message follows when it is finished. -/
theorem resends_first_lastShort :
    ((reconnected ++ [qos1 3]).foldl (next (shortWrite 4)) (fresh 4 none)).wire.unacked =
        [1, 2, 3] ∧
      ∀ x ∈ Lib.trace (next (shortWrite 4)) (fresh 4 none) (reconnected ++ [qos1 3]),
        ResendsFirst x := by
  have hrun : Lib.Runs (Step (shortWrite 4)) (fresh 4 none) _
      ((reconnected ++ [qos1 3]).foldl (next (shortWrite 4)) (fresh 4 none)) :=
    runs_trace (by decide)
  exact ⟨by decide, resends_first hrun (by simp [fresh, Clients.fresh]) rfl (by decide)⟩

/-- The first re-send is left unfinished, and a new message overtakes the second one. -/
theorem new_before_resend :
    ∃ tr t x, Lib.Runs (Step (shortWrite 3)) (fresh 4 none) tr t ∧ x ∈ tr ∧
      x.pre.wire.owed = [2] ∧ x.post.wire.unacked = [1, 3] ∧ ¬ResendsFirst x := by
  have hrun : Lib.Runs (Step (shortWrite 3)) (fresh 4 none) _
      (reconnected.foldl (next (shortWrite 3)) (fresh 4 none)) :=
    runs_trace (by decide)
  set s := reconnected.foldl (next (shortWrite 3)) (fresh 4 none)
  have hstep : s.Step (shortWrite 3) (qos1 3) (s.next (shortWrite 3) (qos1 3)) :=
    ⟨by decide, rfl⟩
  have howed : s.wire.owed = [2] := by decide
  refine ⟨_, _, ⟨s, qos1 3, _⟩,
    Lib.Runs.append_iff.mpr ⟨s, hrun, Lib.Runs.cons hstep (Lib.Runs.nil _)⟩,
    List.mem_append_right _ List.mem_cons_self, howed, by decide, ?_⟩
  intro hfirst
  have hnone := hfirst.new_after _ _ rfl (by decide)
  exact absurd (howed.symm.trans hnone) (by simp)

end MQTTAsync.FlowState

end PahoMqtt
