import PahoMqtt.Lib.NumberedQueue
import PahoMqtt.MessageQueue

/-!
# Persisting and restoring the queues

How the commands of the asynchronous client and its received messages come
into the store and back: the functions that persist and unpersist one entry
under the next sequence number, and the two that restore a queue from the keys
of the store.  The store is an exact map.

`MQTTAsync_restoreCommands` is given the keys as `qsort` leaves them, and
`MQTTPersistence_restoreMessageQueue` as the store enumerates them.
-/

namespace PahoMqtt

/-- `PERSISTENCE_SEQNO_LIMIT` -/
def PERSISTENCE_SEQNO_LIMIT : Nat := 1000000

/-- `PERSISTENCE_MAX_KEY_LENGTH + 1` -/
def KEYSIZE : Nat := 10

/-- The sequence number after this one. -/
def nextSeqno (seqno : Nat) : Nat :=
  if seqno + 1 = PERSISTENCE_SEQNO_LIMIT then 0 else seqno + 1

/-- The members of `Clients` and `MQTTAsyncs` that persisting the queues uses. -/
structure QueueClient where
  MQTTVersion : Nat
  command_seqno : Nat
  qentry_seqno : Nat
  store : Store

/-- What a key and its record say; the kind is whether the record is of MQTT 5. -/
abbrev QueueRecord := Lib.Record Bool Bytes

/-- An entry of a queue, and the record that was written for it, which no function reads. -/
structure Queued (α : Type) where
  entry : α
  record : Option QueueRecord

/-- The records of the entries that have one. -/
def records {α : Type} (queue : List (Queued α)) : List QueueRecord :=
  queue.filterMap (·.record)

namespace Stem

def queueStem (MQTTVersion : Nat) : Stem :=
  if MQTTVersion ≥ 5 then .v5Queue else .queue

def commandStem (MQTTVersion : Nat) : Stem :=
  if MQTTVersion ≥ 5 then .v5Command else .command

end Stem

/-- The record that stands under a key. -/
def recordAt (v5Stem : Stem) (key : Key) (bytes : Bytes) : QueueRecord :=
  { kind := v5Stem.isStemOf key, seqno := Stem.number key, bytes }

/-- A restore loop: the largest number seen, and what was found, as it is added to the queue. -/
def restoreLoop {α : Type} (find : Key → Option α) (seqno : α → Nat)
    (add : List α → α → List α) (n : Nat) (keys : List Key) : Nat × List α :=
  keys.foldl (fun restored key =>
    match find key with
    | some x => (max restored.1 (seqno x), add restored.2 x)
    | none => restored) (n, [])

namespace MQTTAsync

/-- `MQTTAsync_persistCommand`; a command without a record takes a number as well. -/
def persistCommand (host : HostInt) (client : QueueClient) (qcmd : QueuedCommand) :
    QueueClient × Queued QueuedCommand :=
  let command_seqno := nextSeqno client.command_seqno
  let counted := { client with command_seqno }
  match (Stem.commandStem client.MQTTVersion).snprintf KEYSIZE command_seqno,
      persistedRecord host client.MQTTVersion qcmd.command with
  | some key, some bytes =>
      ({ counted with store := client.store.put key bytes },
        ⟨{ qcmd with seqno := command_seqno },
          some ⟨decide (client.MQTTVersion ≥ 5), command_seqno, bytes⟩⟩)
  | _, _ => (counted, ⟨qcmd, none⟩)

/-- `MQTTAsync_unpersistCommand` -/
def unpersistCommand (client : QueueClient) (qcmd : QueuedCommand) : QueueClient :=
  match (Stem.commandStem client.MQTTVersion).snprintf KEYSIZE qcmd.seqno with
  | none => client
  | some key => { client with store := client.store.remove key }

/-- The key is one of a command's. -/
def isCommandKey (key : Key) : Bool :=
  Stem.command.isStemOf key || Stem.v5Command.isStemOf key

/-- The command that the first phase makes of a record. -/
def restoredCommand (host : HostInt) (key : Key) (buffer : Bytes) :
    Option (Queued QueuedCommand) :=
  match restoreCommand host buffer (restoreVersion key) none with
  | .error _ => none
  | .ok cmd =>
      some ⟨{ cmd with key := some key, seqno := Stem.number key },
        some (recordAt .v5Command key buffer)⟩

/-- What the loop of `MQTTAsync_restoreCommands` finds under a key. -/
def commandAt (host : HostInt) (store : Store) (key : Key) : Option (Queued QueuedCommand) :=
  if isCommandKey key then (store key).bind (restoredCommand host key) else none

/-- `MQTTAsync_restoreCommands` over the sorted keys: the sequence number and the commands. -/
def restoreCommands (host : HostInt) (client : QueueClient) (keys : List Key) :
    Nat × List (Queued QueuedCommand) :=
  restoreLoop (commandAt host client.store) (·.entry.seqno) (fun commands cmd => commands ++ [cmd])
    client.command_seqno keys

end MQTTAsync

namespace MQTTPersistence

/-- `MQTTPersistence_persistQueueEntry` -/
def persistQueueEntry (host : HostInt) (client : QueueClient) (qe : QEntry) :
    QueueClient × Queued QEntry :=
  let qentry_seqno := nextSeqno client.qentry_seqno
  let counted := { client with qentry_seqno }
  let bytes := queueEntryRecord host client.MQTTVersion qe
  match (Stem.queueStem client.MQTTVersion).snprintf KEYSIZE qentry_seqno with
  | none => (counted, ⟨qe, none⟩)
  | some key =>
      ({ counted with store := client.store.put key bytes },
        ⟨{ qe with seqno := qentry_seqno },
          some ⟨decide (client.MQTTVersion ≥ 5), qentry_seqno, bytes⟩⟩)

/-- `MQTTPersistence_unpersistQueueEntry` -/
def unpersistQueueEntry (client : QueueClient) (qe : QEntry) : QueueClient :=
  match (Stem.queueStem client.MQTTVersion).snprintf KEYSIZE qe.seqno with
  | none => client
  | some key => { client with store := client.store.remove key }

/-- The key is one of a queued message's. -/
def isQueueKey (key : Key) : Bool :=
  Stem.queue.isStemOf key || Stem.v5Queue.isStemOf key

/-- The entry that is made of a record. -/
def restoredEntry (host : HostInt) (key : Key) (buffer : Bytes) : Option (Queued QEntry) :=
  match restoreQueueEntry host buffer (if Stem.v5Queue.isStemOf key then 5 else 4) with
  | .error _ => none
  | .ok qe =>
      some ⟨{ qe with seqno := Stem.number key }, some (recordAt .v5Queue key buffer)⟩

/-- What the loop of `MQTTPersistence_restoreMessageQueue` finds under a key. -/
def entryAt (host : HostInt) (store : Store) (key : Key) : Option (Queued QEntry) :=
  if isQueueKey key then (store key).bind (restoredEntry host key) else none

/-- `MQTTPersistence_insertInSeqOrder` -/
def insertInSeqOrder (list : List (Queued QEntry)) (qEntry : Queued QEntry) :
    List (Queued QEntry) :=
  Lib.insertBy (·.entry.seqno) list qEntry

/-- `MQTTPersistence_restoreMessageQueue`: the sequence number and the entries. -/
def restoreMessageQueue (host : HostInt) (client : QueueClient) (keys : List Key) :
    Nat × List (Queued QEntry) :=
  restoreLoop (entryAt host client.store) (·.entry.seqno) insertInSeqOrder client.qentry_seqno keys

end MQTTPersistence

/-! ### The keys of the queues -/

/-- How the keys of commands are numbered. -/
def commandNumbering : Lib.Numbering Bool Key where
  key v5 := (if v5 then Stem.v5Command else Stem.command).key
  key_inj s t m n h := by
    obtain ⟨hstem, hn⟩ := Stem.key_eq_key.mp h
    refine ⟨?_, hn⟩
    cases s <;> cases t <;> simp at hstem <;> rfl
  isKey := MQTTAsync.isCommandKey
  isKey_key s n := by
    cases s <;> simp [MQTTAsync.isCommandKey]
  number := Stem.number
  number_key s n := Stem.number_key _ n

/-- How the keys of queued messages are numbered. -/
def messageNumbering : Lib.Numbering Bool Key where
  key v5 := (if v5 then Stem.v5Queue else Stem.queue).key
  key_inj s t m n h := by
    obtain ⟨hstem, hn⟩ := Stem.key_eq_key.mp h
    refine ⟨?_, hn⟩
    cases s <;> cases t <;> simp at hstem <;> rfl
  isKey := MQTTPersistence.isQueueKey
  isKey_key s n := by
    cases s <;> simp [MQTTPersistence.isQueueKey]
  number := Stem.number
  number_key s n := Stem.number_key _ n

/-- A sequence number below the limit always fits into a key. -/
theorem snprintf_of_lt
    {stem : Stem} {seqno : Nat}
    (hstem : stem.text.length ≤ 3)
    (hlt : seqno < PERSISTENCE_SEQNO_LIMIT) :
    stem.snprintf KEYSIZE seqno = some (stem.key seqno) := by
  have hlen : (stem.key seqno).length ≤ stem.text.length + 6 :=
    (stem.key_length_le_iff (by decide)).mpr hlt
  have hshort : ¬(stem.key seqno).length ≥ KEYSIZE := by
    rw [KEYSIZE]
    omega
  rw [Stem.snprintf, if_neg hshort]

theorem nextSeqno_lt
    {seqno : Nat}
    (hlt : seqno < PERSISTENCE_SEQNO_LIMIT) :
    nextSeqno seqno < PERSISTENCE_SEQNO_LIMIT := by
  rw [nextSeqno]
  split
  · decide
  · omega

theorem commandStem_key
    (MQTTVersion seqno : Nat) :
    (Stem.commandStem MQTTVersion).key seqno =
      commandNumbering.key (decide (MQTTVersion ≥ 5)) seqno := by
  by_cases h : MQTTVersion ≥ 5 <;> simp [Stem.commandStem, commandNumbering, h]

theorem queueStem_key
    (MQTTVersion seqno : Nat) :
    (Stem.queueStem MQTTVersion).key seqno =
      messageNumbering.key (decide (MQTTVersion ≥ 5)) seqno := by
  by_cases h : MQTTVersion ≥ 5 <;> simp [Stem.queueStem, messageNumbering, h]

theorem commandStem_short
    (MQTTVersion : Nat) :
    (Stem.commandStem MQTTVersion).text.length ≤ 3 := by
  rw [Stem.commandStem]
  split <;> decide

theorem queueStem_short
    (MQTTVersion : Nat) :
    (Stem.queueStem MQTTVersion).text.length ≤ 3 := by
  rw [Stem.queueStem]
  split <;> decide

/-- A record under its own key is seen as it is. -/
theorem recordAt_command
    (r : QueueRecord) :
    recordAt .v5Command (commandNumbering.keyOf r) r.bytes = r := by
  obtain ⟨kind, seqno, bytes⟩ := r
  cases kind <;> simp [recordAt, Lib.Numbering.keyOf, commandNumbering]

theorem recordAt_message
    (r : QueueRecord) :
    recordAt .v5Queue (messageNumbering.keyOf r) r.bytes = r := by
  obtain ⟨kind, seqno, bytes⟩ := r
  cases kind <;> simp [recordAt, Lib.Numbering.keyOf, messageNumbering]

/-- A restore loop adds what it finds, and keeps the largest number. -/
theorem restoreLoop_eq
    {α : Type} (find : Key → Option α) (seqno : α → Nat) (add : List α → α → List α)
    (n : Nat) (keys : List Key) :
    restoreLoop find seqno add n keys =
      ((keys.filterMap find).foldl (fun n x => max n (seqno x)) n,
        (keys.filterMap find).foldl add []) := by
  rw [restoreLoop]
  generalize ([] : List α) = done
  induction keys generalizing n done with
  | nil =>
      rfl
  | cons key keys ih =>
      rw [List.foldl_cons]
      cases hfind : find key with
      | none =>
          rw [List.filterMap_cons_none hfind]
          exact ih n done
      | some x =>
          rw [List.filterMap_cons_some hfind, List.foldl_cons, List.foldl_cons]
          exact ih _ _

/-- The largest number stays below a bound. -/
theorem foldl_max_lt
    {α : Type} {seqno : α → Nat} {l : List α} {n bound : Nat}
    (hn : n < bound)
    (hl : ∀ x ∈ l, seqno x < bound) :
    l.foldl (fun n x => max n (seqno x)) n < bound := by
  induction l generalizing n with
  | nil =>
      exact hn
  | cons x l ih =>
      exact ih (max_lt hn (hl x List.mem_cons_self)) (fun y hy => hl y (List.mem_cons_of_mem x hy))

/-- The number that a restore loop leaves is one of those it has restored, or the first. -/
theorem restoreLoop_seqno_lt
    {α : Type} {find : Key → Option α} {seqno : α → Nat} {add : List α → α → List α}
    {n bound : Nat} {keys : List Key}
    (hadd : ∀ l : List α, ∀ x ∈ l, x ∈ l.foldl add [])
    (hn : n < bound)
    (hrestored : ∀ x ∈ (restoreLoop find seqno add n keys).2, seqno x < bound) :
    (restoreLoop find seqno add n keys).1 < bound := by
  rw [restoreLoop_eq] at hrestored ⊢
  exact foldl_max_lt hn (fun x hx => hrestored x (hadd _ x hx))

/-! ### What persisting and unpersisting do -/

namespace MQTTAsync

/-- The record that a command gets. -/
def commandRecord (client : QueueClient) (bytes : Bytes) : QueueRecord :=
  ⟨decide (client.MQTTVersion ≥ 5), nextSeqno client.command_seqno, bytes⟩

theorem persistCommand_eq
    (host : HostInt) {client : QueueClient} {qcmd : QueuedCommand} {bytes : Bytes}
    (hlt : client.command_seqno < PERSISTENCE_SEQNO_LIMIT)
    (hrecord : persistedRecord host client.MQTTVersion qcmd.command = some bytes) :
    persistCommand host client qcmd =
      ({ client with
          command_seqno := nextSeqno client.command_seqno
          store := client.store.put
            (commandNumbering.keyOf (commandRecord client bytes)) bytes },
        ⟨{ qcmd with seqno := nextSeqno client.command_seqno },
          some (commandRecord client bytes)⟩) := by
  rw [persistCommand, snprintf_of_lt (commandStem_short _) (nextSeqno_lt hlt), hrecord,
    commandStem_key]
  rfl

/-- A command without a record takes a number and changes nothing else. -/
theorem persistCommand_none
    (host : HostInt) {client : QueueClient} {qcmd : QueuedCommand}
    (hrecord : persistedRecord host client.MQTTVersion qcmd.command = none) :
    persistCommand host client qcmd =
      ({ client with command_seqno := nextSeqno client.command_seqno }, ⟨qcmd, none⟩) := by
  rw [persistCommand, hrecord]
  cases (Stem.commandStem client.MQTTVersion).snprintf KEYSIZE (nextSeqno client.command_seqno) <;>
    rfl

theorem unpersistCommand_eq
    {client : QueueClient} {qcmd : QueuedCommand}
    (hlt : qcmd.seqno < PERSISTENCE_SEQNO_LIMIT) :
    unpersistCommand client qcmd =
      { client with
        store := client.store.remove
          (commandNumbering.key (decide (client.MQTTVersion ≥ 5)) qcmd.seqno) } := by
  rw [unpersistCommand, snprintf_of_lt (commandStem_short _) hlt, commandStem_key]

/-- Appending one by one puts the commands together. -/
theorem foldl_append
    (cmds done : List (Queued QueuedCommand)) :
    cmds.foldl (fun commands cmd => commands ++ [cmd]) done = done ++ cmds := by
  induction cmds generalizing done with
  | nil =>
      rw [List.foldl_nil, List.append_nil]
  | cons cmd cmds ih =>
      rw [List.foldl_cons, ih, List.append_assoc]
      rfl

theorem restoreCommands_eq
    (host : HostInt) (client : QueueClient) (keys : List Key) :
    (restoreCommands host client keys).2 = keys.filterMap (commandAt host client.store) := by
  rw [restoreCommands, restoreLoop_eq, foldl_append, List.nil_append]

theorem restoreCommands_seqno_lt
    {host : HostInt} {client : QueueClient} {keys : List Key} {bound : Nat}
    (hclient : client.command_seqno < bound)
    (hrestored : ∀ cmd ∈ (restoreCommands host client keys).2, cmd.entry.seqno < bound) :
    (restoreCommands host client keys).1 < bound := by
  refine restoreLoop_seqno_lt (fun l x hx => ?_) hclient hrestored
  rw [foldl_append]
  exact hx

/-- The command that is restored from a record. -/
def ownCommand (host : HostInt) (r : QueueRecord) : Option (Queued QueuedCommand) :=
  restoredCommand host (commandNumbering.keyOf r) r.bytes

theorem ownCommand_seqno
    {host : HostInt} {r : QueueRecord} {cmd : Queued QueuedCommand}
    (h : ownCommand host r = some cmd) :
    cmd.entry.seqno = r.seqno ∧ cmd.record = some r := by
  rw [ownCommand, restoredCommand] at h
  split at h
  · cases h
  · cases h
    refine ⟨?_, ?_⟩
    · exact commandNumbering.number_key _ _
    · rw [recordAt_command]

/-- The sorted keys yield the commands of the queue, each from its own record. -/
theorem restoreCommands_holds
    (host : HostInt) {client : QueueClient} {queue : List QueueRecord} {keys : List Key}
    (h : commandNumbering.Holds client.store queue)
    (hkeys : client.store.Enumerates keys)
    (hsorted : keys.Pairwise (fun j k => Stem.number j ≤ Stem.number k)) :
    (restoreCommands host client keys).2 = queue.filterMap (ownCommand host) := by
  have hfilter : keys.filter isCommandKey = queue.map commandNumbering.keyOf :=
    h.filter_sorted hkeys hsorted
  have hskip : ∀ l : List Key, l.filterMap (commandAt host client.store) =
      (l.filter isCommandKey).filterMap (commandAt host client.store) := by
    intro l
    rw [List.filterMap_filter]
    refine List.filterMap_congr (fun k _ => ?_)
    rw [commandAt]
    split <;> rfl
  rw [restoreCommands_eq, hskip, hfilter, List.filterMap_map]
  refine List.filterMap_congr (fun r hr => ?_)
  have hkey : isCommandKey (commandNumbering.keyOf r) = true := commandNumbering.isKey_key _ _
  rw [Function.comp_apply, commandAt, if_pos hkey, h.stored r hr]
  rfl

end MQTTAsync

namespace MQTTPersistence

/-- The record that a received message gets. -/
def messageRecord (host : HostInt) (client : QueueClient) (qe : QEntry) : QueueRecord :=
  ⟨decide (client.MQTTVersion ≥ 5), nextSeqno client.qentry_seqno,
    queueEntryRecord host client.MQTTVersion qe⟩

theorem persistQueueEntry_eq
    (host : HostInt) {client : QueueClient} (qe : QEntry)
    (hlt : client.qentry_seqno < PERSISTENCE_SEQNO_LIMIT) :
    persistQueueEntry host client qe =
      ({ client with
          qentry_seqno := nextSeqno client.qentry_seqno
          store := client.store.put (messageNumbering.keyOf (messageRecord host client qe))
            (messageRecord host client qe).bytes },
        ⟨{ qe with seqno := nextSeqno client.qentry_seqno },
          some (messageRecord host client qe)⟩) := by
  rw [persistQueueEntry, snprintf_of_lt (queueStem_short _) (nextSeqno_lt hlt), queueStem_key]
  rfl

theorem unpersistQueueEntry_eq
    {client : QueueClient} {qe : QEntry}
    (hlt : qe.seqno < PERSISTENCE_SEQNO_LIMIT) :
    unpersistQueueEntry client qe =
      { client with
        store := client.store.remove
          (messageNumbering.key (decide (client.MQTTVersion ≥ 5)) qe.seqno) } := by
  rw [unpersistQueueEntry, snprintf_of_lt (queueStem_short _) hlt, queueStem_key]

/-- The entry that is restored from a record. -/
def ownEntry (host : HostInt) (r : QueueRecord) : Option (Queued QEntry) :=
  restoredEntry host (messageNumbering.keyOf r) r.bytes

theorem ownEntry_seqno
    {host : HostInt} {r : QueueRecord} {qe : Queued QEntry}
    (h : ownEntry host r = some qe) :
    qe.entry.seqno = r.seqno ∧ qe.record = some r := by
  rw [ownEntry, restoredEntry] at h
  split at h
  · cases h
  · cases h
    refine ⟨?_, ?_⟩
    · exact messageNumbering.number_key _ _
    · rw [recordAt_message]

/-- An entry that is restorable is what its record is restored to. -/
theorem ownEntry_messageRecord
    {host : HostInt} {client : QueueClient} {qe : QEntry}
    (h : qe.Restorable host client.MQTTVersion) :
    ownEntry host (messageRecord host client qe) =
      some ⟨{ qe with seqno := nextSeqno client.qentry_seqno },
        some (messageRecord host client qe)⟩ := by
  have hstem : Stem.v5Queue.isStemOf (messageNumbering.keyOf (messageRecord host client qe)) =
      decide (client.MQTTVersion ≥ 5) := by
    by_cases hversion : client.MQTTVersion ≥ 5 <;>
      simp [Lib.Numbering.keyOf, messageNumbering, messageRecord, hversion]
  rw [QEntry.Restorable] at h
  have hversion : (if decide (client.MQTTVersion ≥ 5) = true then 5 else 4) =
      if client.MQTTVersion ≥ 5 then 5 else 4 := by
    simp
  have hbytes : (messageRecord host client qe).bytes =
      queueEntryRecord host client.MQTTVersion qe := rfl
  rw [ownEntry, restoredEntry, hstem, hversion, hbytes, h]
  have hnumber : Stem.number (messageNumbering.keyOf (messageRecord host client qe)) =
      nextSeqno client.qentry_seqno := messageNumbering.number_key _ _
  have hrecord : recordAt .v5Queue (messageNumbering.keyOf (messageRecord host client qe))
      (queueEntryRecord host client.MQTTVersion qe) = messageRecord host client qe :=
    recordAt_message _
  simp only [hnumber, hrecord]

theorem restoreMessageQueue_eq
    (host : HostInt) (client : QueueClient) (keys : List Key) :
    (restoreMessageQueue host client keys).2 =
      (keys.filterMap (entryAt host client.store)).foldl insertInSeqOrder [] := by
  rw [restoreMessageQueue, restoreLoop_eq]

theorem restoreMessageQueue_seqno_lt
    {host : HostInt} {client : QueueClient} {keys : List Key} {bound : Nat}
    (hclient : client.qentry_seqno < bound)
    (hrestored : ∀ qe ∈ (restoreMessageQueue host client keys).2, qe.entry.seqno < bound) :
    (restoreMessageQueue host client keys).1 < bound := by
  refine restoreLoop_seqno_lt (fun l x hx => ?_) hclient hrestored
  exact (Lib.foldl_insertBy_perm [] l).mem_iff.mpr hx

/-- The keys in any order yield the entries of the queue in its order. -/
theorem restoreMessageQueue_holds
    (host : HostInt) {client : QueueClient} {queue : List QueueRecord} {keys : List Key}
    (h : messageNumbering.Holds client.store queue)
    (hkeys : client.store.Enumerates keys) :
    (restoreMessageQueue host client keys).2 = queue.filterMap (ownEntry host) := by
  have hfilter : (keys.filter isQueueKey).Perm (queue.map messageNumbering.keyOf) :=
    h.filter_perm hkeys
  have hskip : keys.filterMap (entryAt host client.store) =
      (keys.filter isQueueKey).filterMap (entryAt host client.store) := by
    rw [List.filterMap_filter]
    refine List.filterMap_congr (fun k _ => ?_)
    rw [entryAt]
    split <;> rfl
  have hown : (queue.map messageNumbering.keyOf).filterMap (entryAt host client.store) =
      queue.filterMap (ownEntry host) := by
    rw [List.filterMap_map]
    refine List.filterMap_congr (fun r hr => ?_)
    have hkey : isQueueKey (messageNumbering.keyOf r) = true := messageNumbering.isKey_key _ _
    rw [Function.comp_apply, entryAt, if_pos hkey, h.stored r hr]
    rfl
  have hascending : Lib.Ascending (·.entry.seqno) (queue.filterMap (ownEntry host)) := by
    refine List.Pairwise.filterMap (ownEntry host) ?_ h.ascending
    intro r t hlt qr hqr qt hqt
    show qr.entry.seqno < qt.entry.seqno
    rw [(ownEntry_seqno hqr).1, (ownEntry_seqno hqt).1]
    exact hlt
  rw [restoreMessageQueue_eq]
  refine Lib.foldl_insertBy_eq hascending ?_
  rw [hskip, ← hown]
  exact hfilter.filterMap _

end MQTTPersistence

end PahoMqtt
