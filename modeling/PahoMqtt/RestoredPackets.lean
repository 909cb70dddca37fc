import PahoMqtt.PacketBodies
import PahoMqtt.RestoredOrder

/-!
# Restoring stored packets

`MQTTPersistence_restorePacket` over arbitrary buffers, and the loop of
`MQTTPersistence_restorePackets` that calls it.  The fixed header is read
without asking for the end of the buffer, and its remaining length may have any
number of bytes: what an `int` holds of it then matches by chance.
-/

namespace PahoMqtt
namespace MQTTPersistence

open MQTTPacket MQTTProperties

/-! ### The restoring loop -/

/-- The answers of `pget` and of the hook behind it, by the number of the entry. -/
structure Reads where
  pget : Nat → Int
  afterRead : Option (Nat → Bytes → Int × Bytes)

/-- `pget` and `afterRead` of an entry: the return code, and the buffer. -/
def readRecord (reads : Reads) (store : Store) (i : Nat) (key : Key) : Int × Bytes :=
  match store key with
  | none => (PERSISTENCE_ERROR, [])
  | some buffer =>
      if reads.pget i ≠ 0 then (reads.pget i, [])
      else
        match reads.afterRead with
        | none => (0, buffer)
        | some hook => hook i buffer

/-- The keys of commands and of queued messages, which are not of packets. -/
def isOtherKey (key : Key) : Bool :=
  Stem.command.isStemOf key || Stem.v5Command.isStemOf key ||
    (Stem.queue.isStemOf key || Stem.v5Queue.isStemOf key)

/-- `data_MQTTVersion`, and which of the three stems `cur_key` then starts with. -/
def restoreKind (key : Key) : Nat × Option Stem :=
  if Stem.v5PublishReceived.isStemOf key then (5, some .publishReceived)
  else if Stem.v5PublishSent.isStemOf key then (5, some .publishSent)
  else if Stem.v5Pubrel.isStemOf key then (5, some .pubrel)
  else if Stem.publishReceived.isStemOf key then (4, some .publishReceived)
  else if Stem.publishSent.isStemOf key then (4, some .publishSent)
  else if Stem.pubrel.isStemOf key then (4, some .pubrel)
  else (4, none)

/-- A received PUBLISH; an MQTT 5 message has been delivered, and is left without its data. -/
def restoreReceived (env : Env) (c : Clients) (publish : Publish) : Clients :=
  let publish := { publish with MQTTVersion := c.MQTTVersion }
  let msg := MQTTProtocol.createMessage (env.time_now c.net.calls) publish
    publish.header.qos.val publish.header.retain
  let msg := { msg with nextMessageType := some .pubrel }
  let msg :=
    if c.MQTTVersion ≥ 5 then
      { msg with publish := msg.publish.map ({ · with topic := [], payload := [] }) }
    else msg
  { c with inboundMsgs := c.inboundMsgs ++ [msg] }

/-- A sent PUBLISH; a PUBREL in the store says that it was answered. -/
def restoreSent (env : Env) (store : Store) (c : Clients) (publish : Publish) : Int × Clients :=
  let publish := { publish with MQTTVersion := c.MQTTVersion }
  match messageKey (if c.MQTTVersion ≥ 5 then .v5Pubrel else .pubrel) publish.msgId with
  | none => (PERSISTENCE_ERROR, c)
  | some key =>
      let msg := MQTTProtocol.createMessage (env.time_now c.net.calls) publish
        publish.header.qos.val publish.header.retain
      let msg := if (store key).isSome then { msg with nextMessageType := some .pubcomp } else msg
      let msg := { msg with lastTouch := 0 }
      (0, { c with outboundMsgs := insertInOrder c.outboundMsgs msg })

/-- `premove` of the entry's key -/
def removeEntry (env : Env) (store : Store) (c : Clients) (key : Key) : Int × Clients :=
  let removed := env.premove c.net.calls
  let store := if removed = 0 then store.remove key else store
  (removed, { c with net := { c.net.tick with persistence := some store } })

/-- A PUBREL is removed if its PUBLISH is not in the store. -/
def restorePubrel (env : Env) (store : Store) (c : Clients) (key : Key) (pubrel : Ack) :
    Int × Clients :=
  match messageKey (if c.MQTTVersion ≥ 5 then .v5PublishSent else .publishSent) pubrel.msgId with
  | none => (PERSISTENCE_ERROR, c)
  | some sent => if (store sent).isNone then removeEntry env store c key else (0, c)

/-- How the body of the loop leaves the client; `exited` is its `goto exit`. -/
structure Ending where
  rc : Int
  exited : Bool
  client : Clients

/--
One entry of `MQTTPersistence_restorePackets`.  A packet of another type than
its key's is accessed as if it were of that type.
-/
def restoreEntry (env : Env) (reads : Reads) (store : Store) (i : Nat) (key : Key) (c : Clients) :
    Except ReadError Ending :=
  if isOtherKey key then .ok ⟨0, false, c⟩
  else
    match readRecord reads store i key with
    | (rc, buffer) =>
        if rc ≠ 0 then .ok ⟨rc, false, c⟩
        else
          match restoreKind key with
          | (data_MQTTVersion, cur_key) =>
              if data_MQTTVersion = 5 ∧ c.MQTTVersion < 5 then
                .ok ⟨PERSISTENCE_ERROR, true, c⟩
              else
                match restorePacket data_MQTTVersion buffer with
                | .error .outOfBounds => .error .outOfBounds
                | .error .malformed | .ok none =>
                    let (rc, c) := removeEntry env store c key
                    .ok ⟨rc, false, c⟩
                | .ok (some pack) =>
                    match cur_key, pack with
                    | some .publishReceived, .publish publish =>
                        .ok ⟨0, false, restoreReceived env c publish⟩
                    | some .publishSent, .publish publish =>
                        let (rc, c) := restoreSent env store c publish
                        .ok ⟨rc, false, c⟩
                    | some .pubrel, .ack pubrel =>
                        let (rc, c) := restorePubrel env store c key pubrel
                        .ok ⟨rc, false, c⟩
                    | some _, _ => .error .outOfBounds
                    | none, _ => .ok ⟨0, false, c⟩

/-- The loop of `MQTTPersistence_restorePackets` from the entry `i` on. -/
def restoreLoop (env : Env) (reads : Reads) :
    (i : Nat) → List Key → Clients → Except ReadError Ending
  | _, [], c => .ok ⟨0, false, c⟩
  | i, key :: keys, c =>
      match c.net.persistence with
      | none => .ok ⟨0, false, c⟩
      | some store =>
          match restoreEntry env reads store i key c with
          | .error e => .error e
          | .ok ending =>
              if ending.rc = 0 ∧ !ending.exited then
                restoreLoop env reads (i + 1) keys ending.client
              else
                .ok ending

/-- `MQTTPersistence_restorePackets`; `pkeys` is the answer of the store. -/
def restorePackets (env : Env) (reads : Reads) (pkeys : Int × List Key) (c : Clients) :
    Except ReadError (Int × Clients) :=
  let wrap := fun c : Clients => { c with outboundMsgs := wrapMsgID c.outboundMsgs }
  if c.net.persistence.isNone then
    .ok (0, wrap c)
  else if pkeys.1 ≠ 0 then
    .ok (pkeys.1, wrap c)
  else
    match restoreLoop env reads 0 pkeys.2 c with
    | .error e => .error e
    | .ok ending => .ok (ending.rc, if ending.exited then ending.client else wrap ending.client)

/-! ### Well-formed records -/

/--
One header byte, a remaining length of at most four bytes that is the number of
the bytes that follow, and a well-formed body.
-/
def WellFormedRecord (MQTTVersion : Nat) (buffer : Bytes) : Prop :=
  ∃ (byte : UInt8) (lead body : Bytes), buffer = byte :: (lead ++ body) ∧
    WellFormedInt lead body.length ∧ WellFormedBody MQTTVersion (Header.ofByte byte) body

/-- The lists are as they were when the loop goes on behind the entry, or ends there. -/
def SkipsEntry (env : Env) (reads : Reads) (i : Nat) (key : Key) (keys : List Key) (c : Clients) :
    Prop :=
  ∃ ending : Ending, ending.client.inboundMsgs = c.inboundMsgs ∧
    ending.client.outboundMsgs = c.outboundMsgs ∧
    restoreLoop env reads i (key :: keys) c =
      if ending.rc = 0 ∧ !ending.exited then restoreLoop env reads (i + 1) keys ending.client
      else .ok ending

/--
Only bytes of the buffer are read, a packet is returned only for a well-formed
record, and an entry with another buffer is skipped.
-/
structure RestoresSafely (MQTTVersion : Nat) (buffer : Bytes) : Prop where
  inside : restorePacket MQTTVersion buffer ≠ .error .outOfBounds
  wellFormed : ∀ pack, restorePacket MQTTVersion buffer = .ok (some pack) →
    WellFormedRecord MQTTVersion buffer
  skipped : ¬WellFormedRecord MQTTVersion buffer →
    ∀ env reads store i key keys (c : Clients), c.net.persistence = some store →
      isOtherKey key = false → readRecord reads store i key = (0, buffer) →
      (restoreKind key).1 = MQTTVersion → SkipsEntry env reads i key keys c

/-- The sum of both lengths, as an `int` that is compared with `buflen`. -/
def LengthMatches (lead : Bytes) (n : Nat) (buffer : Bytes) : Prop :=
  toSize (toInt ((1 + lead.length + n : Nat) : Int)) = buffer.length

/--
The remaining length ends inside the buffer; and if it matches, the body is one
that is refused, or it is well formed behind at most four bytes of length.
-/
def Restorable (MQTTVersion : Nat) (buffer : Bytes) : Prop :=
  ∃ (byte : UInt8) (lead : Bytes) (n : Nat) (body : Bytes), buffer = byte :: (lead ++ body) ∧
    Lib.IsVarInt lead n ∧
    (LengthMatches lead n buffer →
      RefusedBody MQTTVersion (Header.ofByte byte) body ∨
      lead.length ≤ 4 ∧ WellFormedBody MQTTVersion (Header.ofByte byte) body)

/-! ### The fixed header -/

/-- Without a last byte the length is read on behind the end. -/
theorem restoreLength_continues
    {buffer : Bytes} {fuel pos : Nat} {multiplier sum : Int}
    (hmore : ∀ b ∈ buffer.drop pos, 128 ≤ b.toNat) :
    restoreLength buffer fuel multiplier sum pos = .error .outOfBounds := by
  induction fuel generalizing multiplier sum pos with
  | zero =>
      rfl
  | succ fuel ih =>
      rw [restoreLength]
      cases hb : buffer[pos]? with
      | none => rfl
      | some b =>
          rw [drop_of_getElem? hb, List.forall_mem_cons] at hmore
          dsimp only
          rw [if_pos ((continues_iff b).mpr hmore.1)]
          exact ih hmore.2

/-- Behind a length that ends, everything depends on whether it matches. -/
theorem restorePacket_cons
    (MQTTVersion : Nat) {buffer lead body : Bytes} {byte : UInt8} {n : Nat}
    (hbuffer : buffer = byte :: (lead ++ body))
    (hlead : Lib.IsVarInt lead n) :
    (LengthMatches lead n buffer →
      restorePacket MQTTVersion buffer = newPacket MQTTVersion byte body) ∧
    (¬LengthMatches lead n buffer → restorePacket MQTTVersion buffer = .ok none) := by
  have hdrop : buffer.drop 1 = lead ++ body := by
    rw [hbuffer, List.drop_one, List.tail_cons]
  have hsize : lead.length ≤ buffer.length := by
    rw [hbuffer, List.length_cons, List.length_append]
    omega
  have hloop := @restoreLength_isVarInt _ _ hlead buffer body buffer.length 1 1 0 hdrop hsize
  have hstart : toInt 1 = 1 ∧ toInt 0 = 0 := by decide
  rw [hstart.1, hstart.2, zero_add, mul_one] at hloop
  have hsum : toInt ((1 + lead.length : Nat) + toInt n) =
      toInt ((1 + lead.length + n : Nat) : Int) := by
    rw [toInt, toInt, Int.add_bmod_bmod, ← Nat.cast_add]
    rfl
  have hfirst : buffer[0]? = some byte := by
    rw [hbuffer]
    rfl
  have hbody : buffer.drop (1 + lead.length) = body := Lib.Reader.drop_add hdrop
  unfold restorePacket
  rw [hfirst]
  dsimp only
  rw [hloop]
  dsimp only
  rw [hsum, hbody]
  exact ⟨fun hmatch => if_pos hmatch, fun hmatch => if_neg hmatch⟩

theorem restorePacket_unterminated
    (MQTTVersion : Nat) {buffer : Bytes}
    (hmore : ∀ b ∈ buffer.drop 1, 128 ≤ b.toNat) :
    restorePacket MQTTVersion buffer = .error .outOfBounds := by
  unfold restorePacket
  cases buffer[0]? with
  | none => rfl
  | some byte =>
      dsimp only
      rw [restoreLength_continues hmore]

/-- A length of at most four bytes matches when it is the number of the bytes behind it. -/
theorem lengthMatches_iff
    {buffer lead body : Bytes} {byte : UInt8} {n : Nat}
    (hbuffer : buffer = byte :: (lead ++ body))
    (hlead : Lib.IsVarInt lead n)
    (hfour : lead.length ≤ 4) :
    LengthMatches lead n buffer ↔ n = body.length := by
  have hlt : n < 268435456 :=
    calc n < 128 ^ lead.length := hlead.lt_pow
      _ ≤ 128 ^ 4 := Nat.pow_le_pow_right (by omega) hfour
      _ = 268435456 := by norm_num
  have hsize : buffer.length = 1 + lead.length + body.length := by
    rw [hbuffer, List.length_cons, List.length_append]
    omega
  rw [LengthMatches, toInt_of_lt (by omega) (by omega), toSize_of_lt (by omega), hsize]
  omega

/-- One byte is the header, and one length stands behind it. -/
theorem wellFormedRecord_iff
    {MQTTVersion : Nat} {buffer lead body : Bytes} {byte : UInt8} {n : Nat}
    (hbuffer : buffer = byte :: (lead ++ body))
    (hlead : Lib.IsVarInt lead n) :
    WellFormedRecord MQTTVersion buffer ↔
      LengthMatches lead n buffer ∧ lead.length ≤ 4 ∧
        WellFormedBody MQTTVersion (Header.ofByte byte) body := by
  constructor
  · rintro ⟨byte', lead', body', hbuffer', hlead', hbody⟩
    have hsame := hbuffer
    rw [hbuffer', List.cons.injEq] at hsame
    obtain ⟨rfl, hsame⟩ := hsame
    obtain ⟨rfl, rfl, rfl⟩ := hlead'.1.prefix_unique hlead hsame
    exact ⟨(lengthMatches_iff hbuffer hlead hlead'.2).mpr rfl, hlead'.2, hbody⟩
  · rintro ⟨hmatch, hfour, hbody⟩
    obtain rfl := (lengthMatches_iff hbuffer hlead hfour).mp hmatch
    exact ⟨byte, lead, body, hbuffer, ⟨hlead, hfour⟩, hbody⟩

/-- An `int` from a buffer of that size cannot match. -/
theorem not_lengthMatches_of_le
    {buffer lead : Bytes} {n : Nat}
    (hle : 2147483648 ≤ buffer.length)
    (hlt : buffer.length < 9223372036854775808) :
    ¬LengthMatches lead n buffer := by
  unfold LengthMatches toSize
  generalize hint : toInt ((1 + lead.length + n : Nat) : Int) = sum
  have hupper : sum < 2147483648 := by
    rw [← hint, toInt, Int.bmod_def]
    omega
  have hlower : -2147483648 ≤ sum := by
    rw [← hint, toInt, Int.bmod_def]
    omega
  omega

/-! ### The whole record -/

theorem restorable_behind
    {MQTTVersion : Nat} {buffer lead body : Bytes} {byte : UInt8} {n : Nat}
    (hbuffer : buffer = byte :: (lead ++ body))
    (hlead : Lib.IsVarInt lead n) :
    Restorable MQTTVersion buffer ↔
      (LengthMatches lead n buffer →
        RefusedBody MQTTVersion (Header.ofByte byte) body ∨
        lead.length ≤ 4 ∧ WellFormedBody MQTTVersion (Header.ofByte byte) body) := by
  constructor
  · rintro ⟨byte', lead', n', body', hbuffer', hlead', h⟩
    have hsame := hbuffer
    rw [hbuffer', List.cons.injEq] at hsame
    obtain ⟨rfl, hsame⟩ := hsame
    obtain ⟨rfl, rfl, rfl⟩ := hlead'.prefix_unique hlead hsame
    exact h
  · intro h
    exact ⟨byte, lead, n, body, hbuffer, hlead, h⟩

/-- What `MQTTPersistence_restorePacket` does with a buffer of any contents. -/
theorem restorePacket_returnsOnly_iff
    (MQTTVersion : Nat) {buffer : Bytes}
    (hlen : buffer.length < 9223372036854775808) :
    ReturnsOnly (WellFormedRecord MQTTVersion buffer) (restorePacket MQTTVersion buffer) ↔
      Restorable MQTTVersion buffer := by
  rcases Lib.varInt_split (buffer.drop 1) with ⟨lead, n, body, hdrop, hlead⟩ | hmore
  · obtain ⟨byte, hbuffer⟩ : ∃ byte, buffer = byte :: (lead ++ body) := by
      cases buffer with
      | nil =>
          have hpos := hlead.length_pos
          have hsize := congrArg List.length hdrop
          simp only [List.drop_nil, List.length_nil, List.length_append] at hsize
          omega
      | cons byte rest => exact ⟨byte, congrArg (byte :: ·) hdrop⟩
    obtain ⟨hmatches, hnot⟩ := restorePacket_cons MQTTVersion hbuffer hlead
    rw [restorable_behind hbuffer hlead]
    by_cases hmatch : LengthMatches lead n buffer
    · have hbody : body.length < 4294967295 := by
        have hsize := congrArg List.length hbuffer
        simp only [List.length_cons, List.length_append] at hsize
        by_contra hlong
        exact not_lengthMatches_of_le (by omega) hlen hmatch
      obtain ⟨hnull, hreturned⟩ := newPacket_spec MQTTVersion byte hbody
      rw [hmatches hmatch, wellFormedRecord_iff hbuffer hlead,
        returnsOnly_iff (fun h => hreturned h.2.2), hnull]
      simp only [hmatch, true_and, true_imp_iff]
    · rw [hnot hmatch]
      exact iff_of_true ⟨by simp, by simp⟩ (fun h => absurd h hmatch)
  · rw [restorePacket_unterminated MQTTVersion hmore]
    refine iff_of_false (fun h => h.1 rfl) ?_
    rintro ⟨byte, lead, n, body, rfl, hlead, _⟩
    obtain ⟨b, hb, hlast⟩ := hlead.not_continues
    have hlarge := hmore b (by simp [hb])
    omega

/-- NULL leaves the lists as they are, whatever `premove` answers. -/
theorem skipsEntry_of_null
    {env : Env} {reads : Reads} {store : Store} {i : Nat} {key : Key} {keys : List Key}
    {c : Clients} {buffer : Bytes}
    (hstore : c.net.persistence = some store)
    (hkey : isOtherKey key = false)
    (hread : readRecord reads store i key = (0, buffer))
    (hnull : IsNull (restorePacket (restoreKind key).1 buffer)) :
    SkipsEntry env reads i key keys c := by
  have hentry : ∃ ending, restoreEntry env reads store i key c = .ok ending ∧
      ending.client.inboundMsgs = c.inboundMsgs ∧
      ending.client.outboundMsgs = c.outboundMsgs := by
    unfold restoreEntry
    rw [hread, hkey]
    dsimp only
    by_cases hversion : (restoreKind key).1 = 5 ∧ c.MQTTVersion < 5
    · simp only [hversion, Bool.false_eq_true, if_false, if_true, ne_eq, not_true, and_self]
      exact ⟨_, rfl, rfl, rfl⟩
    · simp only [hversion, Bool.false_eq_true, if_false, ne_eq, not_true]
      rcases hnull with hnull | hnull <;> rw [hnull] <;> exact ⟨_, rfl, rfl, rfl⟩
  obtain ⟨ending, hentry, hinbound, houtbound⟩ := hentry
  refine ⟨ending, hinbound, houtbound, ?_⟩
  rw [restoreLoop, hstore]
  dsimp only
  rw [hentry]

/-! ### Whole runs -/

/-- The buffer of an entry is that of a PUBLISH. -/
def RestoresPublish (reads : Reads) (store : Store) (i : Nat) (key : Key) (publish : Publish) :
    Prop :=
  ∃ buffer, isOtherKey key = false ∧ readRecord reads store i key = (0, buffer) ∧
    restorePacket (restoreKind key).1 buffer = .ok (some (.publish publish))

theorem restorePubrel_client
    (env : Env) (store : Store) (c : Clients) (key : Key) (pubrel : Ack) :
    (restorePubrel env store c key pubrel).2 = c ∨
      (restorePubrel env store c key pubrel).2 = (removeEntry env store c key).2 := by
  unfold restorePubrel
  split
  · exact .inl rfl
  · split
    · exact .inr rfl
    · exact .inl rfl

/-- All that an entry can do to the client. -/
theorem restoreEntry_cases
    {env : Env} {reads : Reads} {store : Store} {i : Nat} {key : Key} {c : Clients}
    {ending : Ending}
    (h : restoreEntry env reads store i key c = .ok ending) :
    ending.client = c ∨ ending.client = (removeEntry env store c key).2 ∨
      ∃ publish, RestoresPublish reads store i key publish ∧
        (ending.client = restoreReceived env c publish ∨
          ending.client = (restoreSent env store c publish).2) := by
  unfold restoreEntry at h
  split at h
  · cases h
    exact .inl rfl
  next hkey =>
    rw [Bool.not_eq_true] at hkey
    split at h
    next rc buffer hread =>
      split at h
      · cases h
        exact .inl rfl
      next hrc =>
        obtain rfl := not_not.mp hrc
        split at h
        next MQTTVersion cur_key hkind =>
          split at h
          · cases h
            exact .inl rfl
          · split at h
            · cases h
            · cases h
              exact .inr (.inl rfl)
            · cases h
              exact .inr (.inl rfl)
            next pack hpack =>
              have hpublish : ∀ publish, pack = .publish publish →
                  RestoresPublish reads store i key publish := by
                rintro publish rfl
                exact ⟨buffer, hkey, hread, by rw [hkind]; exact hpack⟩
              split at h
              · cases h
                exact .inr (.inr ⟨_, hpublish _ rfl, .inl rfl⟩)
              · cases h
                exact .inr (.inr ⟨_, hpublish _ rfl, .inr rfl⟩)
              next pubrel =>
                cases h
                rcases restorePubrel_client env store c key pubrel with hsame | hsame
                · exact .inl hsame
                · exact .inr (.inl hsame)
              · cases h
              · cases h
                exact .inl rfl

/-- The message is in one of the in-flight lists. -/
def InFlight (c : Clients) (m : Messages) : Prop :=
  m ∈ c.inboundMsgs ∨ m ∈ c.outboundMsgs

theorem inFlight_restoreReceived
    {env : Env} {c : Clients} {publish : Publish} {m : Messages}
    (h : InFlight (restoreReceived env c publish) m) :
    InFlight c m ∨ m.msgid = publish.msgId := by
  rcases h with h | h
  · rcases List.mem_append.mp h with h | h
    · exact .inl (.inl h)
    · refine .inr ?_
      rw [List.mem_singleton.mp h]
      split <;> rfl
  · exact .inl (.inr h)

theorem inFlight_restoreSent
    {env : Env} {store : Store} {c : Clients} {publish : Publish} {m : Messages}
    (h : InFlight (restoreSent env store c publish).2 m) :
    InFlight c m ∨ m.msgid = publish.msgId := by
  unfold restoreSent at h
  dsimp only at h
  split at h
  · exact .inl h
  · rcases h with h | h
    · exact .inl (.inl h)
    · rcases List.mem_cons.mp ((Lib.insertBy_perm _ _).mem_iff.mp h) with rfl | h
      · refine .inr ?_
        dsimp only
        split <;> rfl
      · exact .inl (.inr h)

/-- Every record of the first store was there in the second. -/
def StoreLe (store' store : Store) : Prop :=
  ∀ key buffer, store' key = some buffer → store key = some buffer

theorem storeLe_removeEntry
    (env : Env) (store : Store) (c : Clients) (key : Key) :
    ∃ store', (removeEntry env store c key).2.net.persistence = some store' ∧
      StoreLe store' store := by
  refine ⟨_, rfl, ?_⟩
  intro key' buffer hbuffer
  split at hbuffer
  · rw [Lib.ExactMap.remove_apply] at hbuffer
    split at hbuffer
    · cases hbuffer
    · exact hbuffer
  · exact hbuffer

theorem StoreLe.restoresPublish
    {store' store : Store} {reads : Reads} {i : Nat} {key : Key} {publish : Publish}
    (hle : StoreLe store' store)
    (h : RestoresPublish reads store' i key publish) :
    RestoresPublish reads store i key publish := by
  obtain ⟨buffer, hkey, hread, hpack⟩ := h
  refine ⟨buffer, hkey, ?_, hpack⟩
  unfold readRecord at hread ⊢
  cases hstored : store' key with
  | none =>
      rw [hstored] at hread
      cases hread
  | some stored =>
      rw [hstored] at hread
      rw [hle key stored hstored]
      exact hread

/-- One entry: a message that is new is that of the PUBLISH, and the store only shrinks. -/
theorem restoreEntry_inFlight
    {env : Env} {reads : Reads} {store : Store} {i : Nat} {key : Key} {c : Clients}
    {ending : Ending}
    (hstore : c.net.persistence = some store)
    (h : restoreEntry env reads store i key c = .ok ending) :
    (∃ store', ending.client.net.persistence = some store' ∧ StoreLe store' store) ∧
    ∀ m, InFlight ending.client m →
      InFlight c m ∨ ∃ publish, RestoresPublish reads store i key publish ∧
        m.msgid = publish.msgId := by
  rcases restoreEntry_cases h with
    hsame | hsame | ⟨publish, hpublish, hsame | hsame⟩ <;> rw [hsame]
  · exact ⟨⟨store, hstore, fun _ _ hb => hb⟩, fun m hm => .inl hm⟩
  · exact ⟨storeLe_removeEntry env store c key, fun m hm => .inl hm⟩
  · refine ⟨⟨store, hstore, fun _ _ hb => hb⟩, ?_⟩
    intro m hm
    exact (inFlight_restoreReceived hm).imp id fun hid => ⟨publish, hpublish, hid⟩
  · refine ⟨⟨store, ?_, fun _ _ hb => hb⟩, ?_⟩
    · unfold restoreSent
      dsimp only
      split <;> exact hstore
    · intro m hm
      exact (inFlight_restoreSent hm).imp id fun hid => ⟨publish, hpublish, hid⟩

/-- Every message behind the loop was there before it, or one of the entries was its PUBLISH. -/
theorem restoreLoop_inFlight
    {env : Env} {reads : Reads} {store : Store} {i : Nat} {keys : List Key} {c : Clients}
    {ending : Ending}
    (hstore : ∃ store', c.net.persistence = some store' ∧ StoreLe store' store)
    (h : restoreLoop env reads i keys c = .ok ending) :
    ∀ m, InFlight ending.client m →
      InFlight c m ∨ ∃ j key publish, keys[j]? = some key ∧
        RestoresPublish reads store (i + j) key publish ∧ m.msgid = publish.msgId := by
  induction keys generalizing i c with
  | nil =>
      cases h
      exact fun m hm => .inl hm
  | cons key keys ih =>
      obtain ⟨store', hstore', hle⟩ := hstore
      rw [restoreLoop, hstore'] at h
      dsimp only at h
      split at h
      · cases h
      next next hentry =>
        obtain ⟨⟨store'', hstore'', hle'⟩, hnew⟩ := restoreEntry_inFlight hstore' hentry
        have hfirst : ∀ m, InFlight next.client m →
            InFlight c m ∨ ∃ j key' publish, (key :: keys)[j]? = some key' ∧
              RestoresPublish reads store (i + j) key' publish ∧ m.msgid = publish.msgId := by
          intro m hm
          refine (hnew m hm).imp id ?_
          rintro ⟨publish, hpublish, hid⟩
          exact ⟨0, key, publish, rfl, hle.restoresPublish hpublish, hid⟩
        split at h
        · intro m hm
          rcases ih ⟨store'', hstore'', fun k b hb => hle k b (hle' k b hb)⟩ h m hm with
            hm | ⟨j, key', publish, hkey', hpublish, hid⟩
          · exact hfirst m hm
          · refine .inr ⟨j + 1, key', publish, hkey', ?_, hid⟩
            rwa [Nat.add_assoc, Nat.add_comm 1] at hpublish
        · cases h
          exact hfirst

/--
Where all records are restored safely, a message that is in flight behind the
call was so before it, or comes from a well-formed record of a PUBLISH.
-/
theorem restorePackets_inFlight
    {env : Env} {reads : Reads} {store : Store} {pkeys : Int × List Key} {c c' : Clients}
    {rc : Int}
    (hstore : c.net.persistence = some store)
    (hsafe : ∀ (i : Nat) key buffer, pkeys.2[i]? = some key →
      readRecord reads store i key = (0, buffer) → RestoresSafely (restoreKind key).1 buffer)
    (h : restorePackets env reads pkeys c = .ok (rc, c')) :
    ∀ m, InFlight c' m →
      InFlight c m ∨ ∃ i key buffer, pkeys.2[i]? = some key ∧
        readRecord reads store i key = (0, buffer) ∧
        WellFormedRecord (restoreKind key).1 buffer := by
  have hwrap : ∀ {c₁ : Clients} {m : Messages},
      InFlight { c₁ with outboundMsgs := wrapMsgID c₁.outboundMsgs } m → InFlight c₁ m :=
    fun hm => hm.imp id List.mem_rotate.mp
  intro m hm
  unfold restorePackets at h
  simp only [hstore, Option.isNone_some, Bool.false_eq_true, if_false] at h
  split at h
  · cases h
    exact .inl (hwrap hm)
  · split at h
    · cases h
    next ending hloop =>
      cases h
      have hending : InFlight ending.client m := by
        split at hm
        · exact hm
        · exact hwrap hm
      refine (restoreLoop_inFlight ⟨store, hstore, fun _ _ hb => hb⟩ hloop m hending).imp id ?_
      rintro ⟨i, key, publish, hkey, ⟨buffer, _, hread, hpack⟩, _⟩
      rw [Nat.zero_add] at hread
      exact ⟨i, key, buffer, hkey, hread, (hsafe i key buffer hkey hread).wellFormed _ hpack⟩

/-! ### The condition -/

/--
A buffer of any length and contents is restored safely when its remaining
length ends inside it and, if it matches, the body is refused or well formed.
-/
theorem restorePacket_restoresSafely_iff
    (MQTTVersion : Nat) {buffer : Bytes}
    (hlen : buffer.length < 9223372036854775808) :
    RestoresSafely MQTTVersion buffer ↔ Restorable MQTTVersion buffer := by
  have hreturns := restorePacket_returnsOnly_iff MQTTVersion hlen
  constructor
  · intro h
    exact hreturns.mp ⟨h.inside, h.wellFormed⟩
  · intro h
    obtain ⟨hinside, hpack⟩ := hreturns.mpr h
    refine ⟨hinside, hpack, ?_⟩
    intro hnot env reads store i key keys c hstore hkey hread hversion
    refine skipsEntry_of_null hstore hkey hread ?_
    rw [hversion, ← returnsOnly_false_iff]
    exact ⟨hinside, fun pack hpack' => hnot (hpack pack hpack')⟩

theorem restorePacket_restoresSafely_iff_qos1 :
    RestoresSafely 4 [50, 6, 0, 1, 97, 0, 5, 120] := by
  refine (restorePacket_restoresSafely_iff 4 (by decide)).mpr ?_
  refine ⟨50, [6], 6, [0, 1, 97, 0, 5, 120], rfl, .last (by decide), ?_⟩
  intro _
  refine .inr ⟨by decide, ?_⟩
  change IsPublish 4 1 [0, 1, 97, 0, 5, 120]
  exact ⟨[0, 1, 97], [0, 5], [120], rfl, ⟨0, 1, [97], rfl, rfl⟩, rfl, by omega⟩

/-- The record that a write that was never done leaves: its first byte is read behind the end. -/
theorem empty_not_restoresSafely :
    restorePacket 4 [] = .error .outOfBounds ∧ ¬RestoresSafely 4 [] := by
  have hread : restorePacket 4 [] = .error .outOfBounds := by
    decide
  exact ⟨hread, fun h => h.inside hread⟩

/-- A PINGREQ is restored with whatever follows it. -/
example : restorePacket 4 [192, 1, 7] = .ok (some (.header_only (Header.ofByte 192))) := by
  decide

end MQTTPersistence
end PahoMqtt
