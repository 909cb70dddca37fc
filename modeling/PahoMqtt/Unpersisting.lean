import PahoMqtt.SequenceNumbers

/-!
# Unpersisting an entry

The key that `MQTTAsync_unpersistCommand` and
`MQTTPersistence_unpersistQueueEntry` remove is made from the version of the
client at that time and the number of the entry, which is 0 for an entry that
was never persisted.  A step removes its own record and no other exactly when
this key is the one the record was written under and belongs to no other entry.
-/

namespace PahoMqtt

open MQTTAsync MQTTPersistence

namespace QueueState

/-- The key under which a command is unpersisted. -/
def unpersistKey (client : QueueClient) (seqno : Nat) : Key :=
  commandNumbering.key (decide (client.MQTTVersion ≥ 5)) seqno

/-- The key under which a received message is unpersisted. -/
def unpersistMessageKey (client : QueueClient) (seqno : Nat) : Key :=
  messageNumbering.key (decide (client.MQTTVersion ≥ 5)) seqno

/-- What is to become of the records when an entry with this record leaves, others staying. -/
structure RemovesOwn (key : QueueRecord → Key) (before after : Store)
    (record : Option QueueRecord) (others : List QueueRecord) : Prop where
  own : ∀ r, record = some r → after (key r) = none
  others : ∀ r ∈ others, after (key r) = before (key r)
  nothing : record = none → after = before

/-- The step unpersists the entry that leaves, and nothing else. -/
def UnpersistsOwn (x : Lib.Transition QueueState QueueEvent) : Prop :=
  let before := x.pre.client.store
  let after := x.post.client.store
  match x.event with
  | .processCommand i => ∀ qcmd, x.pre.commands[i]? = some qcmd →
      RemovesOwn commandNumbering.keyOf before after qcmd.record
        (records (x.pre.commands.eraseIdx i)) ∧
      ∀ r ∈ records x.pre.messageQueue,
        after (messageNumbering.keyOf r) = before (messageNumbering.keyOf r)
  | .deliverMessage i => ∀ qe, x.pre.messageQueue[i]? = some qe →
      RemovesOwn messageNumbering.keyOf before after qe.record
        (records (x.pre.messageQueue.eraseIdx i)) ∧
      ∀ r ∈ records x.pre.commands,
        after (commandNumbering.keyOf r) = before (commandNumbering.keyOf r)
  | _ => True

/--
The key is the entry's own: a record that is still there was written in the
version class of the client, no other entry has its record under the key, and
for an entry without a record there is nothing under it.
-/
structure OwnKey (N : Lib.Numbering Bool Key) (MQTTVersion : Nat) (store : Store) (key : Key)
    (record : Option QueueRecord) (others : List QueueRecord) : Prop where
  own : ∀ r, record = some r → store (N.keyOf r) ≠ none → r.kind = decide (MQTTVersion ≥ 5)
  others : ∀ r ∈ others, store (N.keyOf r) ≠ none → N.keyOf r ≠ key
  nothing : record = none → store key = none

/-- The condition on a step. -/
def KeyIsOwn (s : QueueState) : QueueEvent → Prop
  | .processCommand i => ∀ qcmd, s.commands[i]? = some qcmd →
      OwnKey commandNumbering s.client.MQTTVersion s.client.store
        (unpersistKey s.client qcmd.entry.seqno) qcmd.record (records (s.commands.eraseIdx i))
  | .deliverMessage i => ∀ qe, s.messageQueue[i]? = some qe →
      OwnKey messageNumbering s.client.MQTTVersion s.client.store
        (unpersistMessageKey s.client qe.entry.seqno) qe.record
        (records (s.messageQueue.eraseIdx i))
  | _ => True

/-- Removing a key does what it should exactly when the key is the entry's own. -/
theorem removesOwn_iff
    {N : Lib.Numbering Bool Key} {MQTTVersion seqno : Nat} {store : Store}
    {record : Option QueueRecord} {others : List QueueRecord}
    (hseqno : ∀ r, record = some r → seqno = r.seqno) :
    RemovesOwn N.keyOf store (store.remove (N.key (decide (MQTTVersion ≥ 5)) seqno)) record
        others ↔
      OwnKey N MQTTVersion store (N.key (decide (MQTTVersion ≥ 5)) seqno) record others := by
  have happly : ∀ k, store.remove (N.key (decide (MQTTVersion ≥ 5)) seqno) k = none ↔
      k = N.key (decide (MQTTVersion ≥ 5)) seqno ∨ store k = none := by
    intro k
    rw [Lib.ExactMap.remove_apply]
    split
    next heq => simp [heq]
    next hne => simp [hne]
  have hkept : ∀ k, store.remove (N.key (decide (MQTTVersion ≥ 5)) seqno) k = store k ↔
      (store k ≠ none → k ≠ N.key (decide (MQTTVersion ≥ 5)) seqno) := by
    intro k
    rw [Lib.ExactMap.remove_apply]
    split
    next heq => simp [heq, eq_comm]
    next hne => simp [hne]
  have hown : ∀ r, record = some r →
      (N.keyOf r = N.key (decide (MQTTVersion ≥ 5)) seqno ↔
        r.kind = decide (MQTTVersion ≥ 5)) := by
    intro r hr
    rw [hseqno r hr, Lib.Numbering.keyOf]
    exact ⟨fun heq => (N.key_inj _ _ _ _ heq).1, fun heq => by rw [heq]⟩
  have hnothing : store.remove (N.key (decide (MQTTVersion ≥ 5)) seqno) = store ↔
      store (N.key (decide (MQTTVersion ≥ 5)) seqno) = none := by
    constructor
    · intro hsame
      rw [← congrFun hsame, Lib.ExactMap.remove_self]
    · intro hnone
      rw [Lib.ExactMap.remove, ← hnone, Function.update_eq_self]
  constructor
  · rintro ⟨h₁, h₂, h₃⟩
    refine ⟨?_, ?_, ?_⟩
    · intro r hr hne
      exact (hown r hr).mp (((happly _).mp (h₁ r hr)).resolve_right hne)
    · intro r hr
      exact (hkept _).mp (h₂ r hr)
    · intro hrecord
      exact hnothing.mp (h₃ hrecord)
  · rintro ⟨h₁, h₂, h₃⟩
    refine ⟨?_, ?_, ?_⟩
    · intro r hr
      refine (happly _).mpr ?_
      by_cases hne : store (N.keyOf r) = none
      · exact .inr hne
      · exact .inl ((hown r hr).mpr (h₁ r hr hne))
    · intro r hr
      exact (hkept _).mpr (h₂ r hr)
    · intro hrecord
      exact hnothing.mpr (h₃ hrecord)

/-! ### The numbers in every run -/

/-- The entries of a queue have the numbers of their records, all of them below the limit. -/
structure Numbered {α : Type} (seqno : α → Nat) (queue : List (Queued α)) : Prop where
  own : ∀ q ∈ queue, seqno q.entry = (q.record.map (·.seqno)).getD 0
  lt : ∀ q ∈ queue, seqno q.entry < PERSISTENCE_SEQNO_LIMIT

namespace Numbered

variable {α : Type} {seqno : α → Nat} {queue : List (Queued α)}

theorem nil :
    Numbered seqno ([] : List (Queued α)) :=
  ⟨fun _ hq => absurd hq List.not_mem_nil, fun _ hq => absurd hq List.not_mem_nil⟩

theorem of_subset
    {queue' : List (Queued α)}
    (h : Numbered seqno queue)
    (hsub : ∀ q ∈ queue', q ∈ queue) :
    Numbered seqno queue' :=
  ⟨fun q hq => h.own q (hsub q hq), fun q hq => h.lt q (hsub q hq)⟩

theorem cons
    {q : Queued α}
    (h : Numbered seqno queue)
    (hown : seqno q.entry = (q.record.map (·.seqno)).getD 0)
    (hlt : seqno q.entry < PERSISTENCE_SEQNO_LIMIT) :
    Numbered seqno (q :: queue) := by
  refine ⟨?_, ?_⟩
  · intro x hx
    rcases List.mem_cons.mp hx with rfl | hx
    · exact hown
    · exact h.own x hx
  · intro x hx
    rcases List.mem_cons.mp hx with rfl | hx
    · exact hlt
    · exact h.lt x hx

theorem append
    {q : Queued α}
    (h : Numbered seqno queue)
    (hown : seqno q.entry = (q.record.map (·.seqno)).getD 0)
    (hlt : seqno q.entry < PERSISTENCE_SEQNO_LIMIT) :
    Numbered seqno (queue ++ [q]) := by
  refine (h.cons hown hlt).of_subset (fun x hx => ?_)
  rcases List.mem_append.mp hx with hx | hx
  · exact List.mem_cons_of_mem q hx
  · obtain rfl := List.mem_singleton.mp hx
    exact List.mem_cons_self

end Numbered

/-- What holds of the numbers in every reachable state. -/
structure WellNumbered (s : QueueState) : Prop where
  command_seqno : s.client.command_seqno < PERSISTENCE_SEQNO_LIMIT
  qentry_seqno : s.client.qentry_seqno < PERSISTENCE_SEQNO_LIMIT
  commands : Numbered QueuedCommand.seqno s.commands
  messages : Numbered QEntry.seqno s.messageQueue
  commandKeys : commandNumbering.Within s.client.store PERSISTENCE_SEQNO_LIMIT
  messageKeys : messageNumbering.Within s.client.store PERSISTENCE_SEQNO_LIMIT

theorem message_ne_command
    (v v' : Bool) (n m : Nat) :
    messageNumbering.key v n ≠ commandNumbering.key v' m := by
  intro heq
  have hcommand : commandNumbering.isKey (messageNumbering.key v n) = true := by
    rw [heq]
    exact commandNumbering.isKey_key v' m
  have hmessage := isCommandKey_message ⟨v, n, []⟩
  exact absurd (hmessage.symm.trans hcommand) (by decide)

/-- A restored command has the number of the key it was found under. -/
theorem commandAt_numbered
    {host : HostInt} {store : Store} {key : Key} {cmd : Queued QueuedCommand}
    (h : commandAt host store key = some cmd) :
    isCommandKey key = true ∧ store key ≠ none ∧ cmd.entry.seqno = Stem.number key ∧
      cmd.record.map (·.seqno) = some (Stem.number key) := by
  rw [commandAt] at h
  split at h
  next hkey =>
    obtain ⟨buffer, hbuffer, hcmd⟩ := Option.bind_eq_some_iff.mp h
    rw [restoredCommand] at hcmd
    split at hcmd
    · cases hcmd
    · cases hcmd
      exact ⟨hkey, by simp [hbuffer], rfl, rfl⟩
  · cases h

theorem entryAt_numbered
    {host : HostInt} {store : Store} {key : Key} {qe : Queued QEntry}
    (h : entryAt host store key = some qe) :
    isQueueKey key = true ∧ store key ≠ none ∧ qe.entry.seqno = Stem.number key ∧
      qe.record.map (·.seqno) = some (Stem.number key) := by
  rw [entryAt] at h
  split at h
  next hkey =>
    obtain ⟨buffer, hbuffer, hqe⟩ := Option.bind_eq_some_iff.mp h
    rw [restoredEntry] at hqe
    split at hqe
    · cases hqe
    · cases hqe
      exact ⟨hkey, by simp [hbuffer], rfl, rfl⟩
  · cases h

theorem restoreCommands_numbered
    (host : HostInt) (client : QueueClient)
    (h : commandNumbering.Within client.store PERSISTENCE_SEQNO_LIMIT)
    (keys : List Key) :
    Numbered QueuedCommand.seqno (restoreCommands host client keys).2 := by
  rw [restoreCommands_eq]
  refine ⟨?_, ?_⟩
  · intro q hq
    obtain ⟨key, _, hfound⟩ := List.mem_filterMap.mp hq
    obtain ⟨_, _, hseqno, hrecord⟩ := commandAt_numbered hfound
    rw [hseqno, hrecord]
    rfl
  · intro q hq
    obtain ⟨key, _, hfound⟩ := List.mem_filterMap.mp hq
    obtain ⟨hkey, hstored, hseqno, _⟩ := commandAt_numbered hfound
    rw [hseqno]
    exact h.number_lt hkey hstored

theorem restoreMessageQueue_numbered
    (host : HostInt) (client : QueueClient)
    (h : messageNumbering.Within client.store PERSISTENCE_SEQNO_LIMIT)
    (keys : List Key) :
    Numbered QEntry.seqno (restoreMessageQueue host client keys).2 := by
  have hfound : ∀ q ∈ (restoreMessageQueue host client keys).2,
      ∃ key, entryAt host client.store key = some q := by
    intro q hq
    rw [restoreMessageQueue_eq] at hq
    have hmem := (Lib.foldl_insertBy_perm [] _).mem_iff.mp hq
    obtain ⟨key, _, hkey⟩ := List.mem_filterMap.mp hmem
    exact ⟨key, hkey⟩
  refine ⟨?_, ?_⟩
  · intro q hq
    obtain ⟨key, hkey⟩ := hfound q hq
    obtain ⟨_, _, hseqno, hrecord⟩ := entryAt_numbered hkey
    rw [hseqno, hrecord]
    rfl
  · intro q hq
    obtain ⟨key, hkey⟩ := hfound q hq
    obtain ⟨hisKey, hstored, hseqno, _⟩ := entryAt_numbered hkey
    rw [hseqno]
    exact h.number_lt hisKey hstored

namespace WellNumbered

variable {host : HostInt} {s : QueueState}

theorem fresh
    (MQTTVersion : Nat) :
    WellNumbered (QueueState.fresh MQTTVersion) where
  command_seqno := Nat.succ_pos _
  qentry_seqno := Nat.succ_pos _
  commands := Numbered.nil
  messages := Numbered.nil
  commandKeys := .empty _ _
  messageKeys := .empty _ _

theorem step_addCommand
    (h : WellNumbered s)
    (command : Command) :
    WellNumbered (s.next host (.addCommand command)) := by
  have hlt := nextSeqno_lt h.command_seqno
  rw [QueueState.next]
  cases hrecord : persistedRecord host s.client.MQTTVersion command with
  | none =>
      rw [persistCommand_none host hrecord]
      refine ⟨hlt, h.qentry_seqno, ?_, h.messages, h.commandKeys, h.messageKeys⟩
      exact h.commands.append rfl (Nat.succ_pos _)
  | some bytes =>
      rw [persistCommand_eq host h.command_seqno hrecord]
      refine ⟨hlt, h.qentry_seqno, ?_, h.messages, h.commandKeys.put _ hlt bytes, ?_⟩
      · refine h.commands.append ?_ ?_
        · rw [deferPayload_record, deferPayload_seqno]
          rfl
        · rw [deferPayload_seqno]
          exact hlt
      · refine h.messageKeys.congr (fun k hk => Lib.ExactMap.put_of_ne _ _ ?_)
        rintro rfl
        exact absurd ((isQueueKey_command _).symm.trans hk) (by decide)

theorem step_addUnpersisted
    (h : WellNumbered s)
    (atHead : Bool) (command : Command) :
    WellNumbered (s.next host (.addUnpersisted atHead command)) := by
  refine ⟨h.command_seqno, h.qentry_seqno, ?_, h.messages, h.commandKeys, h.messageKeys⟩
  rw [QueueState.next]
  cases atHead
  · exact h.commands.append rfl (Nat.succ_pos _)
  · exact h.commands.cons rfl (Nat.succ_pos _)

theorem step_processCommand
    (h : WellNumbered s)
    (i : Nat) :
    WellNumbered (s.next host (.processCommand i)) := by
  rw [QueueState.next]
  cases hfound : s.commands[i]? with
  | none =>
      exact h
  | some qcmd =>
      dsimp only
      rw [unpersistCommand_eq (h.commands.lt qcmd (List.mem_of_getElem? hfound))]
      exact ⟨h.command_seqno, h.qentry_seqno,
        h.commands.of_subset (fun q hq => List.mem_of_mem_eraseIdx hq), h.messages,
        h.commandKeys.remove _, h.messageKeys.remove _⟩

theorem step_queueMessage
    (h : WellNumbered s)
    (qe : QEntry) :
    WellNumbered (s.next host (.queueMessage qe)) := by
  have hlt := nextSeqno_lt h.qentry_seqno
  rw [QueueState.next, persistQueueEntry_eq host qe h.qentry_seqno]
  refine ⟨h.command_seqno, hlt, h.commands, h.messages.append rfl hlt, ?_,
    h.messageKeys.put _ hlt _⟩
  refine h.commandKeys.congr (fun k hk => Lib.ExactMap.put_of_ne _ _ ?_)
  rintro rfl
  exact absurd ((isCommandKey_message _).symm.trans hk) (by decide)

theorem step_deliverMessage
    (h : WellNumbered s)
    (i : Nat) :
    WellNumbered (s.next host (.deliverMessage i)) := by
  rw [QueueState.next]
  cases hfound : s.messageQueue[i]? with
  | none =>
      exact h
  | some qe =>
      dsimp only
      rw [unpersistQueueEntry_eq (h.messages.lt qe (List.mem_of_getElem? hfound))]
      exact ⟨h.command_seqno, h.qentry_seqno, h.commands,
        h.messages.of_subset (fun q hq => List.mem_of_mem_eraseIdx hq),
        h.commandKeys.remove _, h.messageKeys.remove _⟩

theorem step_restart
    (h : WellNumbered s)
    (MQTTVersion : Nat) (sortedKeys keys : List Key) :
    WellNumbered (s.next host (.restart MQTTVersion sortedKeys keys)) := by
  have hcommands := restoreCommands_numbered host (.created MQTTVersion s.client.store)
    h.commandKeys sortedKeys
  have hmessages := restoreMessageQueue_numbered host (.created MQTTVersion s.client.store)
    h.messageKeys keys
  exact ⟨restoreCommands_seqno_lt (Nat.succ_pos _) hcommands.lt,
    restoreMessageQueue_seqno_lt (Nat.succ_pos _) hmessages.lt, hcommands, hmessages,
    h.commandKeys, h.messageKeys⟩

end WellNumbered

/-- Every step keeps the numbers in order. -/
theorem step_wellNumbered
    {host : HostInt} {s t : QueueState} {e : QueueEvent}
    (h : WellNumbered s)
    (hstep : Step host s e t) :
    WellNumbered t := by
  obtain ⟨hadm, rfl⟩ := hstep
  cases e with
  | addCommand command => exact h.step_addCommand command
  | addUnpersisted atHead command => exact h.step_addUnpersisted atHead command
  | processCommand i => exact h.step_processCommand i
  | queueMessage qe => exact h.step_queueMessage qe
  | deliverMessage i => exact h.step_deliverMessage i
  | setVersion MQTTVersion => exact { h with }
  | writeElsewhere key record =>
      obtain ⟨hcommand, hqueue⟩ := hadm
      exact { h with
        commandKeys := h.commandKeys.congr (update_other hcommand record)
        messageKeys := h.messageKeys.congr (update_other hqueue record) }
  | restart MQTTVersion sortedKeys keys => exact h.step_restart MQTTVersion sortedKeys keys

/-! ### The steps that unpersist -/

/-- An entry with a record has its number. -/
theorem Numbered.seqno_eq
    {α : Type} {seqno : α → Nat} {queue : List (Queued α)} {q : Queued α}
    (h : Numbered seqno queue)
    (hq : q ∈ queue) :
    ∀ r, q.record = some r → seqno q.entry = r.seqno := by
  intro r hr
  rw [h.own q hq, hr]
  rfl

/-- A step removes exactly the record of its entry if and only if the key is the entry's own. -/
theorem step_unpersistsOwn_iff
    {host : HostInt} {x : Lib.Transition QueueState QueueEvent}
    (h : WellNumbered x.pre)
    (hstep : Step host x.pre x.event x.post) :
    UnpersistsOwn x ↔ KeyIsOwn x.pre x.event := by
  obtain ⟨s, e, t⟩ := x
  have ht : t = s.next host e := hstep.2
  clear hstep
  subst ht
  cases e with
  | processCommand i =>
      have hstep : ∀ qcmd, s.commands[i]? = some qcmd →
          (s.next host (.processCommand i)).client.store =
            s.client.store.remove (unpersistKey s.client qcmd.entry.seqno) := by
        intro qcmd hfound
        rw [QueueState.next, hfound]
        dsimp only
        rw [unpersistCommand_eq (h.commands.lt qcmd (List.mem_of_getElem? hfound))]
        rfl
      refine forall₂_congr (fun qcmd hfound => ?_)
      have hmessages : ∀ r ∈ records s.messageQueue,
          (s.next host (.processCommand i)).client.store (messageNumbering.keyOf r) =
            s.client.store (messageNumbering.keyOf r) := by
        intro r _
        rw [hstep qcmd hfound]
        exact Lib.ExactMap.remove_of_ne _ (message_ne_command _ _ _ _)
      dsimp only
      rw [and_iff_left hmessages, hstep qcmd hfound]
      exact removesOwn_iff (h.commands.seqno_eq (List.mem_of_getElem? hfound))
  | deliverMessage i =>
      have hstep : ∀ qe, s.messageQueue[i]? = some qe →
          (s.next host (.deliverMessage i)).client.store =
            s.client.store.remove (unpersistMessageKey s.client qe.entry.seqno) := by
        intro qe hfound
        rw [QueueState.next, hfound]
        dsimp only
        rw [unpersistQueueEntry_eq (h.messages.lt qe (List.mem_of_getElem? hfound))]
        rfl
      refine forall₂_congr (fun qe hfound => ?_)
      have hcommands : ∀ r ∈ records s.commands,
          (s.next host (.deliverMessage i)).client.store (commandNumbering.keyOf r) =
            s.client.store (commandNumbering.keyOf r) := by
        intro r _
        rw [hstep qe hfound]
        exact Lib.ExactMap.remove_of_ne _ (message_ne_command _ _ _ _).symm
      dsimp only
      rw [and_iff_left hcommands, hstep qe hfound]
      exact removesOwn_iff (h.messages.seqno_eq (List.mem_of_getElem? hfound))
  | _ => exact Iff.rfl

/-- A publication of QoS 1. -/
def greeting : PublishRequest where
  destinationName := [97]
  noNul := by decide
  payload := [104, 105]
  lt := by decide
  qos := 1
  retained := 0
  properties := MQTTProperties.initializer

/-- A publication that is queued before the version changes. -/
def acrossVersions : List QueueEvent :=
  [.addCommand (greeting.command 1), .setVersion 5, .processCommand 0]

end QueueState
end PahoMqtt
