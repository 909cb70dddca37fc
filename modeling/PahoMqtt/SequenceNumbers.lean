import PahoMqtt.Lib.Runs
import PahoMqtt.CommandStartup
import PahoMqtt.QueuePersistence

/-!
# The queues over runs and restarts

A client persists and unpersists commands and received messages, in any order
and any number of them, and is restarted from the store.  The sequence numbers
start again from 0 after 999999.  As long as no entry is persisted while one
from before the wrap is still queued, every restart finds the entries in the
order in which they were queued.
-/

namespace PahoMqtt

open MQTTAsync MQTTPersistence

/-- A client with its two queues. -/
structure QueueState where
  client : QueueClient
  commands : List (Queued QueuedCommand)
  messageQueue : List (Queued QEntry)

/--
What happens to the queues.  A CONNECT is not persisted, nor is a publication
with QoS 0 if the client is created so; `writeElsewhere` stands for the other
records of the client.
-/
inductive QueueEvent where
  | addCommand (command : Command)
  | addUnpersisted (atHead : Bool) (command : Command)
  | processCommand (i : Nat)
  | queueMessage (qe : QEntry)
  | deliverMessage (i : Nat)
  | setVersion (MQTTVersion : Nat)
  | writeElsewhere (key : Key) (record : Option Bytes)
  | restart (MQTTVersion : Nat) (sortedKeys keys : List Key)

/-- A persisted publication is kept without its payload until its turn comes. -/
def MQTTAsync.deferPayload (MQTTVersion : Nat) (qcmd : Queued QueuedCommand) :
    Queued QueuedCommand :=
  match qcmd.record, qcmd.entry.command.details with
  | some _, .pub pub =>
      { qcmd with
        entry :=
          { qcmd.entry with
            not_restored := true
            key := (Stem.commandStem MQTTVersion).snprintf KEYSIZE qcmd.entry.seqno
            command :=
              { qcmd.entry.command with
                details := .pub { pub with payload := none, destinationName := none }
                properties := MQTTProperties.initializer } } }
  | _, _ => qcmd

/-- A client that has just been created over a store. -/
def QueueClient.created (MQTTVersion : Nat) (store : Store) : QueueClient :=
  { MQTTVersion, command_seqno := 0, qentry_seqno := 0, store }

namespace QueueState

/-- What `MQTTAsync_create` leaves in a client with an empty store. -/
def fresh (MQTTVersion : Nat) : QueueState :=
  { client := .created MQTTVersion Lib.ExactMap.empty, commands := [], messageQueue := [] }

/-- A created client restores its commands and its messages. -/
def restarted (host : HostInt) (MQTTVersion : Nat) (store : Store)
    (sortedKeys keys : List Key) : QueueState :=
  let client := QueueClient.created MQTTVersion store
  let commands := restoreCommands host client sortedKeys
  let messages := restoreMessageQueue host client keys
  { client := { client with command_seqno := commands.1, qentry_seqno := messages.1 }
    commands := commands.2
    messageQueue := messages.2 }

def next (host : HostInt) (s : QueueState) : QueueEvent → QueueState
  | .addCommand command =>
      let (client, qcmd) := persistCommand host s.client
        { command, seqno := 0, not_restored := false, key := none }
      { s with client, commands := s.commands ++ [deferPayload client.MQTTVersion qcmd] }
  | .addUnpersisted atHead command =>
      let qcmd : Queued QueuedCommand :=
        ⟨{ command, seqno := 0, not_restored := false, key := none }, none⟩
      { s with commands := if atHead then qcmd :: s.commands else s.commands ++ [qcmd] }
  | .processCommand i =>
      match s.commands[i]? with
      | some qcmd =>
          { s with
            client := unpersistCommand s.client qcmd.entry
            commands := s.commands.eraseIdx i }
      | none => s
  | .queueMessage qe =>
      let (client, qe) := persistQueueEntry host s.client qe
      { s with client, messageQueue := s.messageQueue ++ [qe] }
  | .deliverMessage i =>
      match s.messageQueue[i]? with
      | some qe =>
          { s with
            client := unpersistQueueEntry s.client qe.entry
            messageQueue := s.messageQueue.eraseIdx i }
      | none => s
  | .setVersion MQTTVersion => { s with client := { s.client with MQTTVersion } }
  | .writeElsewhere key record =>
      { s with client := { s.client with store := Function.update s.client.store key record } }
  | .restart MQTTVersion sortedKeys keys =>
      restarted host MQTTVersion s.client.store sortedKeys keys

/-- The keys as `pkeys` returns them, and as `qsort` leaves them. -/
def Admissible (s : QueueState) : QueueEvent → Prop
  | .writeElsewhere key _ => isCommandKey key = false ∧ isQueueKey key = false
  | .restart _ sortedKeys keys =>
      s.client.store.Enumerates sortedKeys ∧
        sortedKeys.Pairwise (fun j k => Stem.number j ≤ Stem.number k) ∧
        s.client.store.Enumerates keys
  | _ => True

def Step (host : HostInt) (s : QueueState) (e : QueueEvent) (t : QueueState) : Prop :=
  s.Admissible e ∧ t = s.next host e

/-! ### What a restart restores -/

/-- A restored command is the one that the record of the queued one holds. -/
def RestoredFrom (host : HostInt) (qcmd cmd : Queued QueuedCommand) : Prop :=
  qcmd.record.bind (ownCommand host) = some cmd ∧ cmd.entry.seqno = qcmd.entry.seqno

/-- A restart would restore exactly the queued entries, in the order of the queue. -/
structure Restores (host : HostInt) (s : QueueState) : Prop where
  commands : ∀ MQTTVersion keys, s.client.store.Enumerates keys →
    keys.Pairwise (fun j k => Stem.number j ≤ Stem.number k) →
    List.Forall₂ (RestoredFrom host) (s.commands.filter (·.record.isSome))
      (restoreCommands host (.created MQTTVersion s.client.store) keys).2
  messageQueue : ∀ MQTTVersion keys, s.client.store.Enumerates keys →
    (restoreMessageQueue host (.created MQTTVersion s.client.store) keys).2 = s.messageQueue

/-- An entry is persisted. -/
def Persists : QueueEvent → Prop
  | .addCommand _ => True
  | .queueMessage _ => True
  | _ => False

/-- Persisting an entry changes no record that is there. -/
def KeepsRecords (x : Lib.Transition QueueState QueueEvent) : Prop :=
  Persists x.event → ∀ key bytes, x.pre.client.store key = some bytes →
    x.post.client.store key = some bytes

/-! ### When the order is kept -/

/-- No number of a queued entry is beyond the last one given, and the next does not wrap. -/
def Room (seqno : Nat) (queue : List QueueRecord) : Prop :=
  ∀ r ∈ queue, r.seqno ≤ seqno ∧ seqno + 1 < PERSISTENCE_SEQNO_LIMIT

/--
The condition on a step.  A new entry finds no entry from before a wrap in its
queue, and is one whose record is read back; an entry is unpersisted under the
version it was persisted under, and an entry without a record takes nobody
else's along.
-/
def InTurn (s : QueueState) : QueueEvent → Prop
  | .addCommand command =>
      (∀ type, command.details ≠ .other type) →
        Room s.client.command_seqno (records s.commands) ∧
          command.Readable s.client.MQTTVersion
  | .processCommand i =>
      ∀ qcmd, s.commands[i]? = some qcmd →
        match qcmd.record with
        | some r => r.kind = decide (s.client.MQTTVersion ≥ 5)
        | none => ∀ r ∈ records s.commands, r.seqno = 0 →
            r.kind ≠ decide (s.client.MQTTVersion ≥ 5)
  | .queueMessage qe =>
      Room s.client.qentry_seqno (records s.messageQueue) ∧
        qe.WellFormed s.client.MQTTVersion
  | .deliverMessage i =>
      ∀ qe r, s.messageQueue[i]? = some qe → qe.record = some r →
        r.kind = decide (s.client.MQTTVersion ≥ 5)
  | _ => True

/-- What holds of the queues and the store as long as the order is kept. -/
structure InOrder (host : HostInt) (s : QueueState) : Prop where
  command_seqno : s.client.command_seqno < PERSISTENCE_SEQNO_LIMIT
  qentry_seqno : s.client.qentry_seqno < PERSISTENCE_SEQNO_LIMIT
  commands : commandNumbering.Holds s.client.store (records s.commands)
  messages : messageNumbering.Holds s.client.store (records s.messageQueue)
  numbered : ∀ qcmd ∈ s.commands, qcmd.entry.seqno = (qcmd.record.map (·.seqno)).getD 0
  readable : ∀ r ∈ records s.commands, (ownCommand host r).isSome
  own : ∀ qe ∈ s.messageQueue, ∃ r, qe.record = some r ∧ ownEntry host r = some qe
  command_lt : ∀ r ∈ records s.commands, r.seqno < PERSISTENCE_SEQNO_LIMIT
  message_lt : ∀ r ∈ records s.messageQueue, r.seqno < PERSISTENCE_SEQNO_LIMIT

/-! ### The records of a queue -/

section Records

variable {α : Type}

@[simp] theorem records_nil : records ([] : List (Queued α)) = [] := by
  rfl

@[simp] theorem records_append
    (xs ys : List (Queued α)) :
    records (xs ++ ys) = records xs ++ records ys := by
  exact List.filterMap_append

theorem records_cons
    (q : Queued α) (queue : List (Queued α)) :
    records (q :: queue) = q.record.toList ++ records queue := by
  obtain ⟨entry, record⟩ := q
  cases record <;> rfl

/-- A queue around one of its places. -/
theorem split_at
    {l : List α} {i : Nat} {a : α}
    (h : l[i]? = some a) :
    ∃ xs ys, l = xs ++ a :: ys ∧ l.eraseIdx i = xs ++ ys := by
  obtain ⟨hi, rfl⟩ := List.getElem?_eq_some_iff.mp h
  refine ⟨l.take i, l.drop (i + 1), ?_, List.eraseIdx_eq_take_drop_succ l i⟩
  rw [← List.drop_eq_getElem_cons hi, List.take_append_drop]

/-- An empty store holds the empty queue. -/
theorem holds_nil
    (N : Lib.Numbering Bool Key) :
    N.Holds (Lib.ExactMap.empty : Store) [] where
  stored _ hr := absurd hr List.not_mem_nil
  only _ _ hne := absurd rfl hne
  ascending := List.Pairwise.nil

/-- The entry at a place leaves with its record, or without one. -/
theorem holds_unpersist
    {N : Lib.Numbering Bool Key} {store : Store} {xs ys : List (Queued α)} {q : Queued α}
    {key : Key}
    (h : N.Holds store (records (xs ++ q :: ys)))
    (hsome : ∀ r, q.record = some r → N.keyOf r = key)
    (hnone : q.record = none → ∀ r ∈ records (xs ++ q :: ys), N.keyOf r ≠ key) :
    N.Holds (store.remove key) (records (xs ++ ys)) := by
  rw [records_append, records_cons] at h hnone
  rw [records_append]
  cases hrecord : q.record with
  | none =>
      rw [hrecord] at h hnone
      exact Lib.Numbering.Holds.remove_other h (hnone rfl)
  | some r =>
      rw [hrecord] at h
      rw [← hsome r hrecord]
      exact h.remove

/-- A new number with room before it is greater than those of the queue. -/
theorem Room.lt_next
    {seqno : Nat} {queue : List QueueRecord}
    (h : Room seqno queue) :
    ∀ r ∈ queue, r.seqno < nextSeqno seqno := by
  intro r hr
  obtain ⟨hle, hlimit⟩ := h r hr
  rw [nextSeqno, if_neg (by omega)]
  omega

end Records

theorem not_other_of_record
    {host : HostInt} {MQTTVersion : Nat} {command : Command} {bytes : Bytes}
    (h : persistedRecord host MQTTVersion command = some bytes) :
    ∀ type, command.details ≠ .other type := by
  intro type heq
  rw [persistedRecord, heq] at h
  cases h

@[simp] theorem deferPayload_record
    (MQTTVersion : Nat) (qcmd : Queued QueuedCommand) :
    (deferPayload MQTTVersion qcmd).record = qcmd.record := by
  rw [deferPayload]
  split <;> rfl

@[simp] theorem deferPayload_seqno
    (MQTTVersion : Nat) (qcmd : Queued QueuedCommand) :
    (deferPayload MQTTVersion qcmd).entry.seqno = qcmd.entry.seqno := by
  rw [deferPayload]
  split <;> rfl

/-! ### The order is kept by every step in turn -/

/-- A command key and a message key are never the same. -/
theorem isQueueKey_command
    (r : QueueRecord) :
    isQueueKey (commandNumbering.keyOf r) = false := by
  obtain ⟨kind, seqno, bytes⟩ := r
  cases kind <;> simp [isQueueKey, Lib.Numbering.keyOf, commandNumbering]

theorem isCommandKey_message
    (r : QueueRecord) :
    isCommandKey (messageNumbering.keyOf r) = false := by
  obtain ⟨kind, seqno, bytes⟩ := r
  cases kind <;> simp [isCommandKey, Lib.Numbering.keyOf, messageNumbering]

namespace InOrder

variable {host : HostInt} {s : QueueState}

/-- The command records make their commands again. -/
theorem filterMap_own
    {queue : List QueueRecord}
    (h : ∀ r ∈ queue, (ownCommand host r).isSome) :
    (queue.filterMap (ownCommand host)).map (·.record) = queue.map some := by
  induction queue with
  | nil =>
      rfl
  | cons r queue ih =>
      obtain ⟨cmd, hcmd⟩ := Option.isSome_iff_exists.mp (h r List.mem_cons_self)
      rw [List.filterMap_cons_some hcmd, List.map_cons, List.map_cons,
        (ownCommand_seqno hcmd).2, ih (fun t ht => h t (List.mem_cons_of_mem r ht))]

/-- The entries are what their records make. -/
theorem filterMap_ownEntry
    {queue : List (Queued QEntry)}
    (h : ∀ qe ∈ queue, ∃ r, qe.record = some r ∧ ownEntry host r = some qe) :
    (records queue).filterMap (ownEntry host) = queue := by
  induction queue with
  | nil =>
      rfl
  | cons qe queue ih =>
      obtain ⟨r, hrecord, hown⟩ := h qe List.mem_cons_self
      rw [records_cons, hrecord, Option.toList_some, List.singleton_append,
        List.filterMap_cons_some hown, ih (fun q hq => h q (List.mem_cons_of_mem qe hq))]

/-- The queue of commands is restored one by one. -/
theorem forall₂_restored
    {commands : List (Queued QueuedCommand)}
    (hnumbered : ∀ qcmd ∈ commands, qcmd.entry.seqno = (qcmd.record.map (·.seqno)).getD 0)
    (hreadable : ∀ r ∈ records commands, (ownCommand host r).isSome) :
    List.Forall₂ (RestoredFrom host) (commands.filter (·.record.isSome))
      ((records commands).filterMap (ownCommand host)) := by
  induction commands with
  | nil =>
      exact List.Forall₂.nil
  | cons qcmd commands ih =>
      have hrest := ih (fun q hq => hnumbered q (List.mem_cons_of_mem qcmd hq))
      rw [records_cons] at hreadable ⊢
      cases hrecord : qcmd.record with
      | none =>
          rw [hrecord] at hreadable
          rw [List.filter_cons_of_neg (by simp [hrecord])]
          exact hrest hreadable
      | some r =>
          rw [hrecord] at hreadable
          obtain ⟨cmd, hcmd⟩ := Option.isSome_iff_exists.mp (hreadable r List.mem_cons_self)
          have hseqno := hnumbered qcmd List.mem_cons_self
          rw [hrecord] at hseqno
          rw [List.filter_cons_of_pos (by simp [hrecord]), Option.toList_some,
            List.singleton_append, List.filterMap_cons_some hcmd]
          refine List.Forall₂.cons ⟨?_, ?_⟩
            (hrest (fun t ht => hreadable t (List.mem_cons_of_mem r ht)))
          · rw [hrecord]
            exact hcmd
          · rw [(ownCommand_seqno hcmd).1, hseqno]
            rfl

theorem restores
    (h : InOrder host s) :
    Restores host s where
  commands MQTTVersion keys hkeys hsorted := by
    have hholds : commandNumbering.Holds (QueueClient.created MQTTVersion s.client.store).store
        (records s.commands) := h.commands
    rw [restoreCommands_holds host hholds hkeys hsorted]
    exact forall₂_restored h.numbered h.readable
  messageQueue MQTTVersion keys hkeys := by
    have hholds : messageNumbering.Holds (QueueClient.created MQTTVersion s.client.store).store
        (records s.messageQueue) := h.messages
    rw [restoreMessageQueue_holds host hholds hkeys]
    exact filterMap_ownEntry h.own

theorem fresh
    (host : HostInt) (MQTTVersion : Nat) :
    InOrder host (QueueState.fresh MQTTVersion) where
  command_seqno := Nat.succ_pos _
  qentry_seqno := Nat.succ_pos _
  commands := holds_nil _
  messages := holds_nil _
  numbered _ hq := absurd hq List.not_mem_nil
  readable _ hr := absurd hr List.not_mem_nil
  own _ hq := absurd hq List.not_mem_nil
  command_lt _ hr := absurd hr List.not_mem_nil
  message_lt _ hr := absurd hr List.not_mem_nil

/-- A command without a record joins the queue. -/
theorem addUnrecorded
    (h : InOrder host s)
    {commands : List (Queued QueuedCommand)} {command_seqno : Nat}
    (hlt : command_seqno < PERSISTENCE_SEQNO_LIMIT)
    (hrecords : records commands = records s.commands)
    (hnumbered : ∀ qcmd ∈ commands, qcmd ∈ s.commands ∨
      qcmd.record = none ∧ qcmd.entry.seqno = 0) :
    InOrder host { s with client := { s.client with command_seqno }, commands } where
  command_seqno := hlt
  qentry_seqno := h.qentry_seqno
  commands := by
    rw [hrecords]
    exact h.commands
  messages := h.messages
  numbered qcmd hmem := by
    rcases hnumbered qcmd hmem with hold | ⟨hrecord, hseqno⟩
    · exact h.numbered qcmd hold
    · rw [hrecord, hseqno]
      rfl
  readable := by
    rw [hrecords]
    exact h.readable
  own := h.own
  command_lt := by
    rw [hrecords]
    exact h.command_lt
  message_lt := h.message_lt

theorem step_addCommand
    (h : InOrder host s)
    {command : Command}
    (hturn : InTurn s (.addCommand command)) :
    InOrder host (s.next host (.addCommand command)) := by
  rw [QueueState.next]
  cases hrecord : persistedRecord host s.client.MQTTVersion command with
  | none =>
      rw [persistCommand_none host hrecord]
      refine h.addUnrecorded (nextSeqno_lt h.command_seqno) ?_ ?_
      · rw [records_append]
        exact List.append_nil _
      · intro qcmd hmem
        rcases List.mem_append.mp hmem with hold | hnew
        · exact .inl hold
        · obtain rfl := List.mem_singleton.mp hnew
          exact .inr ⟨rfl, rfl⟩
  | some bytes =>
      obtain ⟨hroom, hreadable⟩ := hturn (not_other_of_record hrecord)
      obtain ⟨cmd, hread⟩ := hreadable.restoreCommand_ok host hrecord
      rw [persistCommand_eq host h.command_seqno hrecord]
      have hlt : nextSeqno s.client.command_seqno < PERSISTENCE_SEQNO_LIMIT :=
        nextSeqno_lt h.command_seqno
      have hrecords : ∀ key seqno, records (s.commands ++ [deferPayload s.client.MQTTVersion
          ⟨{ command, seqno, not_restored := false, key }, some (commandRecord s.client bytes)⟩]) =
          records s.commands ++ [commandRecord s.client bytes] := by
        intro key seqno
        rw [records_append, records_cons, deferPayload_record]
        rfl
      have hown : (ownCommand host (commandRecord s.client bytes)).isSome := by
        have hversion : restoreVersion (commandNumbering.keyOf (commandRecord s.client bytes)) =
            if s.client.MQTTVersion ≥ 5 then 5 else 4 := by
          by_cases hfive : s.client.MQTTVersion ≥ 5 <;>
            simp [restoreVersion, Lib.Numbering.keyOf, commandNumbering, commandRecord, hfive]
        have hbytes : (commandRecord s.client bytes).bytes = bytes := rfl
        rw [ownCommand, restoredCommand, hversion, hbytes, hread]
        rfl
      refine ⟨hlt, h.qentry_seqno, ?_, ?_, ?_, ?_, h.own, ?_, h.message_lt⟩
      · rw [hrecords]
        exact h.commands.put hroom.lt_next
      · refine h.messages.congr (fun key hkey => Lib.ExactMap.put_of_ne _ _ ?_)
        rintro rfl
        rw [show messageNumbering.isKey = isQueueKey from rfl, isQueueKey_command] at hkey
        cases hkey
      · intro qcmd hmem
        rcases List.mem_append.mp hmem with hold | hnew
        · exact h.numbered qcmd hold
        · obtain rfl := List.mem_singleton.mp hnew
          rw [deferPayload_record, deferPayload_seqno]
          rfl
      · rw [hrecords]
        intro r hr
        rcases List.mem_append.mp hr with hold | hnew
        · exact h.readable r hold
        · obtain rfl := List.mem_singleton.mp hnew
          exact hown
      · rw [hrecords]
        intro r hr
        rcases List.mem_append.mp hr with hold | hnew
        · exact h.command_lt r hold
        · obtain rfl := List.mem_singleton.mp hnew
          exact hlt

theorem step_addUnpersisted
    (h : InOrder host s)
    (atHead : Bool) (command : Command) :
    InOrder host (s.next host (.addUnpersisted atHead command)) := by
  rw [QueueState.next]
  refine h.addUnrecorded h.command_seqno ?_ ?_
  · cases atHead
    · rw [if_neg (by simp), records_append]
      exact List.append_nil _
    · rw [if_pos rfl, records_cons]
      rfl
  · intro qcmd hmem
    have hor : qcmd ∈ s.commands ∨
        qcmd = ⟨{ command, seqno := 0, not_restored := false, key := none }, none⟩ := by
      cases atHead
      · simpa using hmem
      · simpa [or_comm] using hmem
    rcases hor with hold | rfl
    · exact .inl hold
    · exact .inr ⟨rfl, rfl⟩

/-- A record of the queue around one of its places. -/
theorem seqno_lt
    (h : InOrder host s)
    {qcmd : Queued QueuedCommand}
    (hmem : qcmd ∈ s.commands) :
    qcmd.entry.seqno < PERSISTENCE_SEQNO_LIMIT := by
  rw [h.numbered qcmd hmem]
  cases hrecord : qcmd.record with
  | none =>
      exact Nat.succ_pos _
  | some r =>
      exact h.command_lt r (List.mem_filterMap.mpr ⟨qcmd, hmem, hrecord⟩)

theorem step_processCommand
    (h : InOrder host s)
    {i : Nat}
    (hturn : InTurn s (.processCommand i)) :
    InOrder host (s.next host (.processCommand i)) := by
  rw [QueueState.next]
  cases hfound : s.commands[i]? with
  | none =>
      exact h
  | some qcmd =>
      obtain ⟨xs, ys, hsplit, herase⟩ := split_at hfound
      have hmem : qcmd ∈ s.commands := by
        rw [hsplit]
        exact List.mem_append_right _ List.mem_cons_self
      have hsub : ∀ q ∈ xs ++ ys, q ∈ s.commands := by
        intro q hq
        rw [hsplit]
        rcases List.mem_append.mp hq with hq | hq
        · exact List.mem_append_left _ hq
        · exact List.mem_append_right _ (List.mem_cons_of_mem qcmd hq)
      have hsubrecords : ∀ r ∈ records (xs ++ ys), r ∈ records s.commands := by
        intro r hr
        obtain ⟨q, hq, hrecord⟩ := List.mem_filterMap.mp hr
        exact List.mem_filterMap.mpr ⟨q, hsub q hq, hrecord⟩
      have hseqno := h.numbered qcmd hmem
      have hturn' := hturn qcmd hfound
      dsimp only
      rw [unpersistCommand_eq (h.seqno_lt hmem), herase]
      refine ⟨h.command_seqno, h.qentry_seqno, ?_, ?_, fun q hq => h.numbered q (hsub q hq),
        fun r hr => h.readable r (hsubrecords r hr), h.own,
        fun r hr => h.command_lt r (hsubrecords r hr), h.message_lt⟩
      · have hholds := h.commands
        rw [hsplit] at hholds
        refine holds_unpersist hholds ?_ ?_
        · intro r hrecord
          rw [hrecord] at hturn' hseqno
          rw [Lib.Numbering.keyOf, hseqno]
          exact congrArg (fun v5 => commandNumbering.key v5 r.seqno) hturn'
        · intro hrecord r hr heq
          rw [hrecord] at hturn' hseqno
          rw [← hsplit] at hr
          obtain ⟨hkind, hnumber⟩ := commandNumbering.key_inj _ _ _ _ heq
          exact hturn' r hr (hnumber.trans hseqno) hkind
      · refine h.messages.congr (fun key hkey => Lib.ExactMap.remove_of_ne _ ?_)
        rintro rfl
        have hcommand := isQueueKey_command
          ⟨decide (s.client.MQTTVersion ≥ 5), qcmd.entry.seqno, []⟩
        exact absurd (hcommand.symm.trans hkey) (by decide)

theorem step_queueMessage
    (h : InOrder host s)
    {qe : QEntry}
    (hturn : InTurn s (.queueMessage qe)) :
    InOrder host (s.next host (.queueMessage qe)) := by
  obtain ⟨hroom, hwellFormed⟩ := hturn
  have hlt : nextSeqno s.client.qentry_seqno < PERSISTENCE_SEQNO_LIMIT :=
    nextSeqno_lt h.qentry_seqno
  rw [QueueState.next, persistQueueEntry_eq host qe h.qentry_seqno]
  have hrecords : ∀ entry, records (s.messageQueue ++
      [⟨entry, some (messageRecord host s.client qe)⟩]) =
      records s.messageQueue ++ [messageRecord host s.client qe] := by
    intro entry
    rw [records_append]
    rfl
  refine ⟨h.command_seqno, hlt, ?_, ?_, h.numbered, h.readable, ?_, h.command_lt, ?_⟩
  · refine h.commands.congr (fun key hkey => Lib.ExactMap.put_of_ne _ _ ?_)
    rintro rfl
    exact absurd ((isCommandKey_message _).symm.trans hkey) (by decide)
  · rw [hrecords]
    exact h.messages.put hroom.lt_next
  · intro q hmem
    rcases List.mem_append.mp hmem with hold | hnew
    · exact h.own q hold
    · obtain rfl := List.mem_singleton.mp hnew
      exact ⟨_, rfl, ownEntry_messageRecord (hwellFormed.restorable host)⟩
  · rw [hrecords]
    intro r hr
    rcases List.mem_append.mp hr with hold | hnew
    · exact h.message_lt r hold
    · obtain rfl := List.mem_singleton.mp hnew
      exact hlt

theorem step_deliverMessage
    (h : InOrder host s)
    {i : Nat}
    (hturn : InTurn s (.deliverMessage i)) :
    InOrder host (s.next host (.deliverMessage i)) := by
  rw [QueueState.next]
  cases hfound : s.messageQueue[i]? with
  | none =>
      exact h
  | some qe =>
      obtain ⟨xs, ys, hsplit, herase⟩ := split_at hfound
      have hmem : qe ∈ s.messageQueue := by
        rw [hsplit]
        exact List.mem_append_right _ List.mem_cons_self
      have hsub : ∀ q ∈ xs ++ ys, q ∈ s.messageQueue := by
        intro q hq
        rw [hsplit]
        rcases List.mem_append.mp hq with hq | hq
        · exact List.mem_append_left _ hq
        · exact List.mem_append_right _ (List.mem_cons_of_mem qe hq)
      obtain ⟨r, hrecord, hown⟩ := h.own qe hmem
      have hseqno : qe.entry.seqno = r.seqno := (ownEntry_seqno hown).1
      have hkind := hturn qe r hfound hrecord
      have hlt : qe.entry.seqno < PERSISTENCE_SEQNO_LIMIT := by
        rw [hseqno]
        exact h.message_lt r (List.mem_filterMap.mpr ⟨qe, hmem, hrecord⟩)
      dsimp only
      rw [unpersistQueueEntry_eq hlt, herase]
      refine ⟨h.command_seqno, h.qentry_seqno, ?_, ?_, h.numbered, h.readable,
        fun q hq => h.own q (hsub q hq), h.command_lt, ?_⟩
      · refine h.commands.congr (fun key hkey => Lib.ExactMap.remove_of_ne _ ?_)
        rintro rfl
        have hmessage := isCommandKey_message
          ⟨decide (s.client.MQTTVersion ≥ 5), qe.entry.seqno, []⟩
        exact absurd (hmessage.symm.trans hkey) (by decide)
      · have hholds := h.messages
        rw [hsplit] at hholds
        refine holds_unpersist hholds ?_ ?_
        · intro t ht
          obtain rfl : r = t := Option.some.inj (hrecord.symm.trans ht)
          rw [Lib.Numbering.keyOf, hseqno, hkind]
        · intro hnone
          rw [hrecord] at hnone
          cases hnone
      · intro t ht
        obtain ⟨q, hq, hq'⟩ := List.mem_filterMap.mp ht
        exact h.message_lt t (List.mem_filterMap.mpr ⟨q, hsub q hq, hq'⟩)

/-- The restored commands have the records of the queue. -/
theorem records_own
    (h : InOrder host s) :
    records ((records s.commands).filterMap (ownCommand host)) = records s.commands := by
  have hmap := congrArg (List.filterMap id) (filterMap_own h.readable)
  rw [List.filterMap_map, List.filterMap_map] at hmap
  exact hmap.trans List.filterMap_some

/-- A restart in order: the same records, and counters that go on from them. -/
theorem step_restart
    (h : InOrder host s)
    {MQTTVersion : Nat} {sortedKeys keys : List Key}
    (hadm : s.Admissible (.restart MQTTVersion sortedKeys keys)) :
    InOrder host (s.next host (.restart MQTTVersion sortedKeys keys)) := by
  obtain ⟨hsortedKeys, hsorted, hkeys⟩ := hadm
  have hcommands : commandNumbering.Holds (QueueClient.created MQTTVersion s.client.store).store
      (records s.commands) := h.commands
  have hmessages : messageNumbering.Holds (QueueClient.created MQTTVersion s.client.store).store
      (records s.messageQueue) := h.messages
  have hrestored := restoreCommands_holds host hcommands hsortedKeys hsorted
  have hqueue := (restoreMessageQueue_holds host hmessages hkeys).trans (filterMap_ownEntry h.own)
  have hown : ∀ cmd ∈ (records s.commands).filterMap (ownCommand host),
      ∃ r ∈ records s.commands, ownCommand host r = some cmd := by
    intro cmd hmem
    exact List.mem_filterMap.mp hmem
  have hcommand_seqno : (restoreCommands host (.created MQTTVersion s.client.store) sortedKeys).1 <
      PERSISTENCE_SEQNO_LIMIT := by
    refine restoreCommands_seqno_lt (Nat.succ_pos _) ?_
    rw [hrestored]
    intro cmd hmem
    obtain ⟨r, hr, hcmd⟩ := hown cmd hmem
    rw [(ownCommand_seqno hcmd).1]
    exact h.command_lt r hr
  have hqentry_seqno : (restoreMessageQueue host (.created MQTTVersion s.client.store) keys).1 <
      PERSISTENCE_SEQNO_LIMIT := by
    refine restoreMessageQueue_seqno_lt (Nat.succ_pos _) ?_
    rw [hqueue]
    intro qe hmem
    obtain ⟨r, hr, hqe⟩ := h.own qe hmem
    rw [(ownEntry_seqno hqe).1]
    exact h.message_lt r (List.mem_filterMap.mpr ⟨qe, hmem, hr⟩)
  rw [QueueState.next, restarted, hrestored, hqueue]
  refine ⟨hcommand_seqno, hqentry_seqno, ?_, h.messages, ?_, ?_, h.own, ?_, h.message_lt⟩
  · rw [h.records_own]
    exact h.commands
  · intro cmd hmem
    obtain ⟨r, _, hr⟩ := hown cmd hmem
    rw [(ownCommand_seqno hr).2, (ownCommand_seqno hr).1]
    rfl
  · rw [h.records_own]
    exact h.readable
  · rw [h.records_own]
    exact h.command_lt

end InOrder

/-- A record under a key of another kind leaves the records of a kind as they were. -/
theorem update_other
    {p : Key → Bool} {store : Store} {key : Key}
    (hkey : p key = false)
    (record : Option Bytes) :
    ∀ k, p k = true → Function.update store key record k = store k := by
  intro k hk
  refine Function.update_of_ne ?_ _ _
  rintro rfl
  rw [hkey] at hk
  cases hk

/-- A step in turn keeps the order. -/
theorem step_inOrder
    {host : HostInt} {s t : QueueState} {e : QueueEvent}
    (h : InOrder host s)
    (hturn : InTurn s e)
    (hstep : Step host s e t) :
    InOrder host t := by
  obtain ⟨hadm, rfl⟩ := hstep
  cases e with
  | addCommand command => exact h.step_addCommand hturn
  | addUnpersisted atHead command => exact h.step_addUnpersisted atHead command
  | processCommand i => exact h.step_processCommand hturn
  | queueMessage qe => exact h.step_queueMessage hturn
  | deliverMessage i => exact h.step_deliverMessage hturn
  | setVersion MQTTVersion => exact { h with }
  | writeElsewhere key record =>
      obtain ⟨hcommand, hqueue⟩ := hadm
      exact { h with
        commands := h.commands.congr (update_other hcommand record)
        messages := h.messages.congr (update_other hqueue record) }
  | restart MQTTVersion sortedKeys keys => exact h.step_restart hadm

/-- A record that is written in turn goes under a key that was free. -/
theorem step_keepsRecords
    {host : HostInt} {x : Lib.Transition QueueState QueueEvent}
    (h : InOrder host x.pre)
    (hturn : InTurn x.pre x.event)
    (hstep : Step host x.pre x.event x.post) :
    KeepsRecords x := by
  obtain ⟨s, e, t⟩ := x
  have ht : t = s.next host e := hstep.2
  subst ht
  have hfree : ∀ {store : Store} {key : Key} (record : Bytes), store key = none →
      ∀ k bytes, store k = some bytes → store.put key record k = some bytes := by
    intro store key record hnone k bytes hk
    rw [Lib.ExactMap.put_of_ne store record]
    · exact hk
    · rintro rfl
      exact absurd (hnone.symm.trans hk) (by simp)
  intro hpersists
  cases e with
  | addCommand command =>
      show ∀ key bytes, _ → (QueueState.next host s (.addCommand command)).client.store key = _
      rw [QueueState.next]
      cases hrecord : persistedRecord host s.client.MQTTVersion command with
      | none =>
          rw [persistCommand_none host hrecord]
          exact fun _ _ hk => hk
      | some bytes =>
          obtain ⟨hroom, _⟩ := hturn (not_other_of_record hrecord)
          rw [persistCommand_eq host h.command_seqno hrecord]
          exact hfree bytes (h.commands.fresh hroom.lt_next)
  | queueMessage qe =>
      show ∀ key bytes, _ → (QueueState.next host s (.queueMessage qe)).client.store key = _
      rw [QueueState.next, persistQueueEntry_eq host qe h.qentry_seqno]
      exact hfree _ (h.messages.fresh hturn.1.lt_next)
  | _ => exact absurd hpersists id

/--
In every run from a fresh client whose steps are all in turn, no record is
overwritten, and a restart at any point restores the queues as they are.
-/
theorem queues_keep_order
    (host : HostInt) {MQTTVersion : Nat} {t : QueueState}
    {tr : List (Lib.Transition QueueState QueueEvent)}
    (hrun : Lib.Runs (Step host) (QueueState.fresh MQTTVersion) tr t)
    (hturn : ∀ x ∈ tr, InTurn x.pre x.event) :
    (∀ x ∈ tr, KeepsRecords x ∧ Restores host x.post) ∧ Restores host t := by
  have hinv := hrun.invariant_of (fun _ _ _ h hC hstep => step_inOrder h hC hstep)
    (InOrder.fresh host MQTTVersion) hturn
  refine ⟨fun x hx => ⟨?_, (hinv.1 x hx).2.restores⟩, hinv.2.restores⟩
  exact step_keepsRecords (hinv.1 x hx).1 (hturn x hx) (hrun.step_of_mem x hx)

/-- A received message. -/
def hello (msgid : Int32) : QEntry where
  msg := { struct_version := 1, payloadlen := 2, payload := [104, 105], qos := 1, retained := 0
           dup := 0, msgid, properties := MQTTProperties.initializer }
  topicName := [97]
  topicLen := 1
  seqno := 0

theorem hello_wellFormed
    (msgid : Int32) :
    (hello msgid).WellFormed 4 where
  struct_version := rfl
  payload := (by decide : 2 = (2 : Int32).toNatClampNeg)
  nonneg := (by decide : ¬(2 : Int32) < 0)
  topic := (by decide : (0 : UInt8) ∉ [97])
  survives h := absurd h (by decide)
  none _ := rfl

/-- The transitions of a fresh 3.1.1 client over a list of events. -/
def freshRun (events : List QueueEvent) : List (Lib.Transition QueueState QueueEvent) :=
  Lib.trace (next .littleEndian) (fresh 4) events

theorem runs_freshRun
    {events : List QueueEvent}
    (hadm : ∀ s : QueueState, ∀ e ∈ events, s.Admissible e) :
    Lib.Runs (Step .littleEndian) (fresh 4) (freshRun events)
      (events.foldl (next .littleEndian) (fresh 4)) := by
  refine Lib.Runs.of_trace _ _ (fun x hx => ⟨?_, Lib.post_of_mem_trace hx⟩)
  exact hadm x.pre x.event (Lib.event_of_mem_trace hx)

/-- Two messages that are queued in turn, and restored so. -/
theorem queues_keep_order_two :
    Restores .littleEndian
      ([.queueMessage (hello 7), .queueMessage (hello 8)].foldl (next .littleEndian) (fresh 4)) := by
  refine (queues_keep_order .littleEndian (runs_freshRun ?_) ?_).2
  · intro s e he
    rcases List.mem_cons.mp he with rfl | he
    · trivial
    · obtain rfl := List.mem_singleton.mp he
      trivial
  · intro x hx
    rcases List.mem_cons.mp hx with rfl | hx
    · exact ⟨fun r hr => absurd hr List.not_mem_nil, hello_wellFormed 7⟩
    · obtain rfl := List.mem_singleton.mp hx
      refine ⟨fun r hr => ?_, hello_wellFormed 8⟩
      obtain rfl := List.mem_singleton.mp hr
      decide

/-- A message is queued and taken from the queue. -/
def passing : List QueueEvent :=
  [.queueMessage (hello 7), .deliverMessage 0]

/-- A fresh client through whose queue `n` messages have passed. -/
def afterPassing (n : Nat) : QueueState :=
  { fresh 4 with client := { (fresh 4).client with qentry_seqno := n } }

theorem afterPassing_queueMessage
    {n : Nat}
    (hn : n + 1 < PERSISTENCE_SEQNO_LIMIT) :
    (afterPassing n).next .littleEndian (.queueMessage (hello 7)) =
      { client :=
          { (afterPassing (n + 1)).client with
            store := Lib.ExactMap.empty.put (Stem.queue.key (n + 1))
              (queueEntryRecord .littleEndian 4 (hello 7)) }
        commands := []
        messageQueue := [⟨{ hello 7 with seqno := n + 1 },
          some ⟨false, n + 1, queueEntryRecord .littleEndian 4 (hello 7)⟩⟩] } := by
  have hlt : (afterPassing n).client.qentry_seqno < PERSISTENCE_SEQNO_LIMIT := Nat.lt_of_succ_lt hn
  have hnext : nextSeqno (afterPassing n).client.qentry_seqno = n + 1 := if_neg hn.ne
  rw [QueueState.next, persistQueueEntry_eq .littleEndian (hello 7) hlt, messageRecord, hnext]
  rfl

/-- Messages that pass one by one leave nothing but the counter. -/
theorem foldl_passing
    {n : Nat}
    (hn : n < PERSISTENCE_SEQNO_LIMIT) :
    (List.replicate n passing).flatten.foldl (next .littleEndian) (fresh 4) = afterPassing n := by
  induction n with
  | zero =>
      rfl
  | succ n ih =>
      rw [List.replicate_succ', List.flatten_append, List.foldl_append, ih (Nat.lt_of_succ_lt hn),
        List.flatten_singleton, passing, List.foldl_cons, afterPassing_queueMessage hn]
      have hseqno : ({ hello 7 with seqno := n + 1 } : QEntry).seqno < PERSISTENCE_SEQNO_LIMIT := hn
      have hfree := Lib.ExactMap.remove_put (m := (Lib.ExactMap.empty : Store))
        (k := Stem.queue.key (n + 1)) (queueEntryRecord .littleEndian 4 (hello 7)) rfl
      simp only [List.foldl_cons, List.foldl_nil, QueueState.next, List.getElem?_cons_zero,
        unpersistQueueEntry_eq hseqno]
      exact congrArg (fun store => (⟨⟨4, 0, n + 1, store⟩, [], []⟩ : QueueState)) hfree

/-- Two messages of which the second one gets the number 0. -/
def acrossWrap : List QueueEvent :=
  (List.replicate 999998 passing).flatten ++ [.queueMessage (hello 7), .queueMessage (hello 8)]

/--
After 999998 messages have passed, two are queued: the first as 999999 and the
second as 0, and a restart restores the second one before the first.
-/
theorem order_lost_at_wrap :
    ∃ t, Lib.Runs (Step .littleEndian) (fresh 4) (freshRun acrossWrap) t ∧
      t.messageQueue.map (·.entry.msg.msgid) = [7, 8] ∧
      t.client.store.Enumerates [Stem.queue.key 999999, Stem.queue.key 0] ∧
      (restoreMessageQueue .littleEndian (.created 4 t.client.store)
        [Stem.queue.key 999999, Stem.queue.key 0]).2.map (·.entry.msg.msgid) = [8, 7] ∧
      ¬Restores .littleEndian t := by
  have hend : acrossWrap.foldl (next .littleEndian) (fresh 4) =
      { client :=
          { MQTTVersion := 4
            command_seqno := 0
            qentry_seqno := 0
            store := (Lib.ExactMap.empty.put (Stem.queue.key 999999)
              (queueEntryRecord .littleEndian 4 (hello 7))).put (Stem.queue.key 0)
                (queueEntryRecord .littleEndian 4 (hello 8)) }
        commands := []
        messageQueue := [⟨{ hello 7 with seqno := 999999 },
            some ⟨false, 999999, queueEntryRecord .littleEndian 4 (hello 7)⟩⟩,
          ⟨{ hello 8 with seqno := 0 },
            some ⟨false, 0, queueEntryRecord .littleEndian 4 (hello 8)⟩⟩] } := by
    rw [acrossWrap, List.foldl_append, foldl_passing (by decide), List.foldl_cons,
      afterPassing_queueMessage (by decide)]
    rfl
  have hadm : ∀ s : QueueState, ∀ e ∈ acrossWrap, s.Admissible e := by
    intro s e he
    rcases List.mem_append.mp he with he | he
    · obtain ⟨events, hevents, he⟩ := List.mem_flatten.mp he
      obtain rfl := List.eq_of_mem_replicate hevents
      rcases List.mem_cons.mp he with rfl | he
      · trivial
      · obtain rfl := List.mem_singleton.mp he
        trivial
    · rcases List.mem_cons.mp he with rfl | he
      · trivial
      · obtain rfl := List.mem_singleton.mp he
        trivial
  refine ⟨_, runs_freshRun hadm, ?_⟩
  rw [hend]
  have hkeys : Lib.ExactMap.Enumerates ((Lib.ExactMap.empty.put (Stem.queue.key 999999)
      (queueEntryRecord .littleEndian 4 (hello 7))).put (Stem.queue.key 0)
        (queueEntryRecord .littleEndian 4 (hello 8)) : Store)
      [Stem.queue.key 999999, Stem.queue.key 0] := by
    refine ⟨by decide, fun k => ?_⟩
    rw [Lib.ExactMap.put_apply, Lib.ExactMap.put_apply]
    by_cases h₀ : k = Stem.queue.key 0 <;> by_cases h₁ : k = Stem.queue.key 999999 <;>
      simp [h₀, h₁, Stem.key_eq_key]
  refine ⟨rfl, hkeys, by decide, ?_⟩
  intro hrestores
  have hqueue := congrArg (List.map (·.entry.msg.msgid)) (hrestores.messageQueue 4 _ hkeys)
  exact absurd hqueue (by decide)

end QueueState
end PahoMqtt
