import PahoMqtt.Unpersisting

/-!
# Publications that wait in the store

`MQTTAsync_addCommand` keeps a persisted publication without its strings, and
so does `MQTTAsync_restoreCommands`; `MQTTAsync_processCommand` reads the
record again before it starts the publication.  What it starts is what was
accepted, as long as the record of a queued command is neither overwritten by
that of a command with the same number nor removed under that number.
-/

namespace PahoMqtt

open Lib (Reader)

namespace MQTTAsync

/--
The reload in `MQTTAsync_processCommand`; where `pget` has failed, the command
goes on as it is.
-/
def reloadCommand (host : HostInt) (store : Store) (qcmd : QueuedCommand) :
    Except ReadError QueuedCommand :=
  match qcmd.not_restored, qcmd.key with
  | true, some key =>
      match store key with
      | some buffer =>
          restoreCommand host buffer (restoreVersion key) (some { qcmd with key := none })
      | none => .ok qcmd
  | _, _ => .ok qcmd

theorem reloadCommand_stored
    (host : HostInt) {store : Store} {qcmd : QueuedCommand} {key : Key} {buffer : Bytes}
    (hnot : qcmd.not_restored = true)
    (hkey : qcmd.key = some key)
    (hstored : store key = some buffer) :
    reloadCommand host store qcmd =
      restoreCommand host buffer (restoreVersion key) (some { qcmd with key := none }) := by
  simp only [reloadCommand, hnot, hkey, hstored]

/-- What `MQTTProtocol_startPublish` is called with. -/
structure StartedPublish where
  topic : Option Bytes
  payload : Option Bytes
  payloadlen : Int32
  msgId : Int32
  MQTTVersion : Nat
  properties : Properties
  qos : Int32
  retained : Int32
deriving DecidableEq

/-- The publication that `MQTTAsync_processCommand` makes of a command. -/
def startedPublish (MQTTVersion : Nat) (command : Command) : Option StartedPublish :=
  match command.details with
  | .pub pub =>
      some
        { topic := pub.destinationName
          payload := pub.payload
          payloadlen := pub.payloadlen
          msgId := command.token
          MQTTVersion
          properties :=
            if MQTTVersion ≥ 5 then command.properties else MQTTProperties.initializer
          qos := pub.qos
          retained := pub.retained }
  | _ => none

/-- The second phase gives the publication back from its record. -/
theorem restoreCommand_publish
    (host : HostInt) {MQTTVersion : Nat} (request : PublishRequest) (msgid : Int32)
    (hsurvives : MQTTVersion ≥ 5 → MQTTProperties.Survives request.properties)
    {bytes : Bytes}
    (hrecord : persistedRecord host MQTTVersion (request.command msgid) = some bytes)
    (qcmd : QueuedCommand) :
    ∃ cmd, restoreCommand host bytes (if MQTTVersion ≥ 5 then 5 else 4) (some qcmd) = .ok cmd ∧
      cmd.command.token = msgid ∧
      cmd.command.details = (request.command msgid).details ∧
      (MQTTVersion ≥ 5 → cmd.command.properties = request.properties) := by
  obtain ⟨body, hbody⟩ : ∃ body,
      detailsRecord host MQTTVersion (request.command msgid).details = some body := ⟨_, rfl⟩
  rw [persistedRecord, hbody, Option.map_some, Option.some.injEq] at hrecord
  have hdrop := drop_front host (typeCode (request.command msgid).details.type)
    (request.command msgid).token
    (body ++ if MQTTVersion ≥ 5 then MQTTProperties.write request.properties else [])
  have hbytes : host.bytes (typeCode (request.command msgid).details.type) ++
      (host.bytes (request.command msgid).token ++
        (body ++ if MQTTVersion ≥ 5 then MQTTProperties.write request.properties else [])) =
      bytes := hrecord
  rw [hbytes] at hdrop
  have hdetails := restorePublish_record host MQTTVersion false request msgid hbody hdrop
  rw [restoreCommand_front host _ _ hbytes.symm]
  have hread : restoreDetails host (if MQTTVersion ≥ 5 then 5 else 4)
      (typeCode (request.command msgid).details.type) ((some qcmd).map (·.command.details))
      bytes 8 = .ok ((request.command msgid).details, 8 + body.length) := hdetails
  rw [hread]
  by_cases hversion : MQTTVersion ≥ 5
  · have hproperties : bytes.drop (8 + body.length) =
        MQTTProperties.write request.properties ++ [] := by
      rw [Reader.drop_add hdrop, if_pos hversion, List.append_nil]
    have hreads := MQTTProperties.reads_of_survives (hsurvives hversion) hproperties trivial
    simp only [restoreProperties, if_pos hversion, ge_iff_le, le_refl, if_true, hreads]
    exact ⟨_, rfl, rfl, rfl, fun _ => rfl⟩
  · simp only [restoreProperties, if_neg hversion, ge_iff_le, Nat.reduceLeDiff, if_false]
    exact ⟨_, rfl, rfl, rfl, fun h => absurd h hversion⟩

end MQTTAsync

namespace QueueState

open MQTTAsync MQTTPersistence

/-- The record under this key was written for a command that was added earlier. -/
def WrittenFor (host : HostInt) (past : List (Lib.Transition QueueState QueueEvent)) (key : Key)
    (bytes : Bytes) : Prop :=
  ∃ y ∈ past, ∃ command, y.event = .addCommand command ∧
    persistedRecord host y.pre.client.MQTTVersion command = some bytes ∧
    key = commandNumbering.keyOf (commandRecord y.pre.client bytes)

/--
The command that is processed by `x` was added by `y`; if it is a publication
and the version class is still the same, what is started is what was added.
-/
structure StartsAccepted (host : HostInt) (x y : Lib.Transition QueueState QueueEvent)
    (qcmd : Queued QueuedCommand) (command : Command) : Prop where
  added : y.event = .addCommand command
  recorded : ∃ bytes, persistedRecord host y.pre.client.MQTTVersion command = some bytes ∧
    qcmd.record = some (commandRecord y.pre.client bytes)
  started : ∀ (request : PublishRequest) (token : Int32), command = request.command token →
    (y.pre.client.MQTTVersion ≥ 5 → MQTTProperties.Survives request.properties) →
    (y.pre.client.MQTTVersion ≥ 5 ↔ x.pre.client.MQTTVersion ≥ 5) →
    ∃ cmd, reloadCommand host x.pre.client.store qcmd.entry = .ok cmd ∧
      startedPublish x.pre.client.MQTTVersion cmd.command =
        startedPublish x.pre.client.MQTTVersion command

/--
The condition on a step: a new record does not go under the key of a queued
command, and what is unpersisted is not under the key of another one.
-/
def Apart (s : QueueState) : QueueEvent → Prop
  | .addCommand command => (∀ type, command.details ≠ .other type) →
      ∀ r ∈ records s.commands,
        commandNumbering.keyOf r ≠ unpersistKey s.client (nextSeqno s.client.command_seqno)
  | .processCommand i => ∀ qcmd, s.commands[i]? = some qcmd →
      ∀ r ∈ records (s.commands.eraseIdx i),
        commandNumbering.keyOf r ≠ unpersistKey s.client qcmd.entry.seqno
  | _ => True

/-- What holds of the queued commands and their records as long as the steps are apart. -/
structure Kept (host : HostInt) (past : List (Lib.Transition QueueState QueueEvent))
    (s : QueueState) : Prop where
  numbers : WellNumbered s
  written : ∀ key bytes, isCommandKey key = true → s.client.store key = some bytes →
    WrittenFor host past key bytes
  stored : ∀ r ∈ records s.commands, s.client.store (commandNumbering.keyOf r) = some r.bytes
  deferred : ∀ qcmd ∈ s.commands, qcmd.entry.not_restored = true →
    ∃ r, qcmd.record = some r ∧ qcmd.entry.key = some (commandNumbering.keyOf r)

theorem WrittenFor.more
    {host : HostInt} {past : List (Lib.Transition QueueState QueueEvent)} {key : Key}
    {bytes : Bytes}
    (h : WrittenFor host past key bytes)
    (x : Lib.Transition QueueState QueueEvent) :
    WrittenFor host (past ++ [x]) key bytes := by
  obtain ⟨y, hy, hrest⟩ := h
  exact ⟨y, List.mem_append_left _ hy, hrest⟩

namespace Kept

variable {host : HostInt} {past : List (Lib.Transition QueueState QueueEvent)} {s : QueueState}

theorem fresh
    (host : HostInt) (MQTTVersion : Nat) :
    Kept host [] (QueueState.fresh MQTTVersion) where
  numbers := WellNumbered.fresh MQTTVersion
  written _ _ _ hstored := by cases hstored
  stored _ hr := absurd hr List.not_mem_nil
  deferred _ hq := absurd hq List.not_mem_nil

/-- A step that does not touch the records of the commands. -/
theorem of_same
    {t : QueueState}
    (h : Kept host past s)
    (x : Lib.Transition QueueState QueueEvent)
    (hnumbers : WellNumbered t)
    (hstore : ∀ key, isCommandKey key = true → t.client.store key = s.client.store key)
    (hcommands : ∀ qcmd ∈ t.commands, qcmd ∈ s.commands ∨
      qcmd.record = none ∧ qcmd.entry.not_restored = false) :
    Kept host (past ++ [x]) t where
  numbers := hnumbers
  written key bytes hkey hstored := by
    rw [hstore key hkey] at hstored
    exact (h.written key bytes hkey hstored).more x
  stored r hr := by
    have hkey : isCommandKey (commandNumbering.keyOf r) = true := commandNumbering.isKey_key _ _
    rw [hstore _ hkey]
    obtain ⟨qcmd, hmem, hrecord⟩ := List.mem_filterMap.mp hr
    rcases hcommands qcmd hmem with hold | ⟨hnone, _⟩
    · exact h.stored r (List.mem_filterMap.mpr ⟨qcmd, hold, hrecord⟩)
    · rw [hnone] at hrecord
      cases hrecord
  deferred qcmd hmem hnot := by
    rcases hcommands qcmd hmem with hold | ⟨_, hrestored⟩
    · exact h.deferred qcmd hold hnot
    · rw [hrestored] at hnot
      cases hnot

/-- A command whose payload is deferred is found under the key of its record. -/
theorem deferPayload_key
    {MQTTVersion seqno : Nat} {command : Command} {bytes : Bytes}
    (hlt : seqno < PERSISTENCE_SEQNO_LIMIT)
    (hnot : (deferPayload MQTTVersion ⟨{ command, seqno, not_restored := false, key := none },
      some ⟨decide (MQTTVersion ≥ 5), seqno, bytes⟩⟩).entry.not_restored = true) :
    (deferPayload MQTTVersion ⟨{ command, seqno, not_restored := false, key := none },
      some ⟨decide (MQTTVersion ≥ 5), seqno, bytes⟩⟩).entry.key =
        some (commandNumbering.key (decide (MQTTVersion ≥ 5)) seqno) := by
  rw [deferPayload] at hnot ⊢
  dsimp only at hnot ⊢
  split at hnot
  · dsimp only
    rw [snprintf_of_lt (commandStem_short _) hlt, commandStem_key]
  · cases hnot

/-- A command with a record is queued under the next number. -/
theorem next_addCommand
    {command : Command} {bytes : Bytes}
    (hlt : s.client.command_seqno < PERSISTENCE_SEQNO_LIMIT)
    (hrecord : persistedRecord host s.client.MQTTVersion command = some bytes) :
    s.next host (.addCommand command) =
      { s with
        client :=
          { s.client with
            command_seqno := nextSeqno s.client.command_seqno
            store := s.client.store.put
              (commandNumbering.keyOf (commandRecord s.client bytes)) bytes }
        commands := s.commands ++ [deferPayload s.client.MQTTVersion
          ⟨{ command, seqno := nextSeqno s.client.command_seqno, not_restored := false
             key := none }, some (commandRecord s.client bytes)⟩] } := by
  rw [QueueState.next, persistCommand_eq host hlt hrecord]

theorem step_addCommand
    (h : Kept host past s)
    {command : Command}
    (hapart : Apart s (.addCommand command)) :
    Kept host (past ++ [⟨s, .addCommand command, s.next host (.addCommand command)⟩])
      (s.next host (.addCommand command)) := by
  have hnumbers : WellNumbered (s.next host (.addCommand command)) :=
    h.numbers.step_addCommand command
  cases hrecord : persistedRecord host s.client.MQTTVersion command with
  | none =>
      refine h.of_same _ hnumbers ?_ ?_
      · intro key _
        rw [QueueState.next, persistCommand_none host hrecord]
      · intro qcmd hmem
        rw [QueueState.next, persistCommand_none host hrecord] at hmem
        rcases List.mem_append.mp hmem with hold | hnew
        · exact .inl hold
        · obtain rfl := List.mem_singleton.mp hnew
          exact .inr ⟨rfl, rfl⟩
  | some bytes =>
      have happly := hapart (not_other_of_record hrecord)
      have hlt := nextSeqno_lt h.numbers.command_seqno
      rw [next_addCommand h.numbers.command_seqno hrecord] at hnumbers ⊢
      refine ⟨hnumbers, ?_, ?_, ?_⟩
      · intro key bytes' hkey hstored
        dsimp only at hstored
        rw [Lib.ExactMap.put_apply] at hstored
        split at hstored
        next heq =>
          obtain rfl := Option.some.inj hstored
          exact ⟨_, List.mem_append_right _ List.mem_cons_self, command, rfl, hrecord, heq⟩
        next hne =>
          exact (h.written key bytes' hkey hstored).more _
      · intro r hr
        dsimp only at hr ⊢
        rw [records_append, List.mem_append] at hr
        rcases hr with hold | hnew
        · have hne : commandNumbering.keyOf r ≠
              commandNumbering.keyOf (commandRecord s.client bytes) := happly r hold
          rw [Lib.ExactMap.put_of_ne _ _ hne]
          exact h.stored r hold
        · rw [records_cons, deferPayload_record] at hnew
          obtain rfl := List.mem_singleton.mp hnew
          exact Lib.ExactMap.put_self _ _ _
      · intro qcmd hmem hnot
        dsimp only at hmem
        rcases List.mem_append.mp hmem with hold | hnew
        · exact h.deferred qcmd hold hnot
        · obtain rfl := List.mem_singleton.mp hnew
          exact ⟨_, deferPayload_record _ _, deferPayload_key hlt hnot⟩

theorem step_processCommand
    (h : Kept host past s)
    {i : Nat}
    (hapart : Apart s (.processCommand i))
    (x : Lib.Transition QueueState QueueEvent) :
    Kept host (past ++ [x]) (s.next host (.processCommand i)) := by
  have hnumbers : WellNumbered (s.next host (.processCommand i)) :=
    h.numbers.step_processCommand i
  cases hfound : s.commands[i]? with
  | none =>
      have hnext : s.next host (.processCommand i) = s := by
        rw [QueueState.next, hfound]
      rw [hnext]
      exact h.of_same x h.numbers (fun _ _ => rfl) (fun _ hq => .inl hq)
  | some qcmd =>
      have hnext : s.next host (.processCommand i) =
          { s with
            client :=
              { s.client with
                store := s.client.store.remove (unpersistKey s.client qcmd.entry.seqno) }
            commands := s.commands.eraseIdx i } := by
        rw [QueueState.next, hfound]
        dsimp only
        rw [unpersistCommand_eq (h.numbers.commands.lt qcmd (List.mem_of_getElem? hfound))]
        rfl
      rw [hnext] at hnumbers ⊢
      have hsub : ∀ q ∈ s.commands.eraseIdx i, q ∈ s.commands :=
        fun q hq => List.mem_of_mem_eraseIdx hq
      refine ⟨hnumbers, ?_, ?_, fun q hq => h.deferred q (hsub q hq)⟩
      · intro key bytes hkey hstored
        dsimp only at hstored
        rw [Lib.ExactMap.remove_apply] at hstored
        split at hstored
        · cases hstored
        · exact (h.written key bytes hkey hstored).more x
      · intro r hr
        dsimp only
        rw [Lib.ExactMap.remove_of_ne _ (hapart qcmd hfound r hr)]
        obtain ⟨q, hq, hrecord⟩ := List.mem_filterMap.mp hr
        exact h.stored r (List.mem_filterMap.mpr ⟨q, hsub q hq, hrecord⟩)

/-- A restored command has the record that it was restored from. -/
theorem commandAt_record
    {store : Store} {key : Key} {qcmd : Queued QueuedCommand}
    (hwithin : commandNumbering.Within store PERSISTENCE_SEQNO_LIMIT)
    (hfound : commandAt host store key = some qcmd) :
    ∃ r, qcmd.record = some r ∧ qcmd.entry.key = some (commandNumbering.keyOf r) ∧
      store (commandNumbering.keyOf r) = some r.bytes := by
  rw [commandAt] at hfound
  split at hfound
  next hkey =>
    obtain ⟨buffer, hbuffer, hcmd⟩ := Option.bind_eq_some_iff.mp hfound
    obtain ⟨kind, n, _, rfl⟩ := hwithin key hkey (by simp [hbuffer])
    rw [restoredCommand] at hcmd
    split at hcmd
    · cases hcmd
    · cases hcmd
      have hrecord := recordAt_command ⟨kind, n, buffer⟩
      refine ⟨⟨kind, n, buffer⟩, ?_, rfl, hbuffer⟩
      exact congrArg some hrecord
  · cases hfound

theorem step_restart
    (h : Kept host past s)
    (MQTTVersion : Nat) (sortedKeys keys : List Key)
    (x : Lib.Transition QueueState QueueEvent) :
    Kept host (past ++ [x]) (s.next host (.restart MQTTVersion sortedKeys keys)) := by
  have hfound : ∀ qcmd ∈ (s.next host (.restart MQTTVersion sortedKeys keys)).commands,
      ∃ key, commandAt host s.client.store key = some qcmd := by
    intro qcmd hmem
    have hlist := restoreCommands_eq host (.created MQTTVersion s.client.store) sortedKeys
    have hmem' : qcmd ∈ (restoreCommands host (.created MQTTVersion s.client.store)
        sortedKeys).2 := hmem
    rw [hlist] at hmem'
    obtain ⟨key, _, hkey⟩ := List.mem_filterMap.mp hmem'
    exact ⟨key, hkey⟩
  refine ⟨h.numbers.step_restart MQTTVersion sortedKeys keys, ?_, ?_, ?_⟩
  · intro key bytes hkey hstored
    exact (h.written key bytes hkey hstored).more x
  · intro r hr
    obtain ⟨qcmd, hmem, hrecord⟩ := List.mem_filterMap.mp hr
    obtain ⟨key, hkey⟩ := hfound qcmd hmem
    obtain ⟨r', hr', _, hstored⟩ := commandAt_record h.numbers.commandKeys hkey
    obtain rfl : r = r' := Option.some.inj (hrecord.symm.trans hr')
    exact hstored
  · intro qcmd hmem _
    obtain ⟨key, hkey⟩ := hfound qcmd hmem
    obtain ⟨r, hr, hrkey, _⟩ := commandAt_record h.numbers.commandKeys hkey
    exact ⟨r, hr, hrkey⟩

end Kept

/-- A step apart from the queued commands keeps their records. -/
theorem step_kept
    {host : HostInt} {past : List (Lib.Transition QueueState QueueEvent)} {s t : QueueState}
    {e : QueueEvent}
    (h : Kept host past s)
    (hapart : Apart s e)
    (hstep : Step host s e t) :
    Kept host (past ++ [⟨s, e, t⟩]) t := by
  have hnumbers := step_wellNumbered h.numbers hstep
  obtain ⟨hadm, rfl⟩ := hstep
  cases e with
  | addCommand command => exact h.step_addCommand hapart
  | addUnpersisted atHead command =>
      refine h.of_same _ hnumbers (fun _ _ => rfl) ?_
      intro qcmd hmem
      have hor : qcmd ∈ s.commands ∨
          qcmd = ⟨{ command, seqno := 0, not_restored := false, key := none }, none⟩ := by
        cases atHead
        · simpa [QueueState.next] using hmem
        · simpa [QueueState.next, or_comm] using hmem
      rcases hor with hold | rfl
      · exact .inl hold
      · exact .inr ⟨rfl, rfl⟩
  | processCommand i => exact h.step_processCommand hapart _
  | queueMessage qe =>
      refine h.of_same _ hnumbers ?_ (fun _ hq => .inl hq)
      intro key hkey
      rw [QueueState.next, persistQueueEntry_eq host qe h.numbers.qentry_seqno]
      refine Lib.ExactMap.put_of_ne _ _ ?_
      rintro rfl
      exact absurd ((isCommandKey_message _).symm.trans hkey) (by decide)
  | deliverMessage i =>
      cases hfound : s.messageQueue[i]? with
      | none =>
          have hnext : s.next host (.deliverMessage i) = s := by
            rw [QueueState.next, hfound]
          rw [hnext] at hnumbers ⊢
          exact h.of_same _ hnumbers (fun _ _ => rfl) (fun _ hq => .inl hq)
      | some qe =>
          have hlt := h.numbers.messages.lt qe (List.mem_of_getElem? hfound)
          have hnext : s.next host (.deliverMessage i) =
              { s with
                client :=
                  { s.client with
                    store := s.client.store.remove (unpersistMessageKey s.client qe.entry.seqno) }
                messageQueue := s.messageQueue.eraseIdx i } := by
            rw [QueueState.next, hfound]
            dsimp only
            rw [unpersistQueueEntry_eq hlt]
            rfl
          rw [hnext] at hnumbers ⊢
          refine h.of_same _ hnumbers ?_ (fun _ hq => .inl hq)
          intro key hkey
          refine Lib.ExactMap.remove_of_ne _ ?_
          rintro rfl
          have hmessage := isCommandKey_message
            ⟨decide (s.client.MQTTVersion ≥ 5), qe.entry.seqno, []⟩
          exact absurd (hmessage.symm.trans hkey) (by decide)
  | setVersion MQTTVersion =>
      exact h.of_same _ hnumbers (fun _ _ => rfl) (fun _ hq => .inl hq)
  | writeElsewhere key record =>
      refine h.of_same _ hnumbers ?_ (fun _ hq => .inl hq)
      intro k hk
      refine Function.update_of_ne ?_ _ _
      rintro rfl
      exact absurd (hadm.1.symm.trans hk) (by decide)
  | restart MQTTVersion sortedKeys keys =>
      exact h.step_restart MQTTVersion sortedKeys keys _

/-- A command that is read again comes back as it was added. -/
theorem Kept.startsAccepted
    {host : HostInt} {past : List (Lib.Transition QueueState QueueEvent)}
    {x : Lib.Transition QueueState QueueEvent} {qcmd : Queued QueuedCommand}
    (h : Kept host past x.pre)
    (hmem : qcmd ∈ x.pre.commands)
    (hnot : qcmd.entry.not_restored = true) :
    ∃ y ∈ past, ∃ command, StartsAccepted host x y qcmd command := by
  obtain ⟨r, hrecord, hkey⟩ := h.deferred qcmd hmem hnot
  have hstored := h.stored r (List.mem_filterMap.mpr ⟨qcmd, hmem, hrecord⟩)
  obtain ⟨y, hy, command, hadded, hbytes, hkeys⟩ :=
    h.written _ _ (commandNumbering.isKey_key _ _) hstored
  obtain ⟨hkind, hseqno⟩ := commandNumbering.key_inj _ _ _ _ hkeys
  have hown : r = commandRecord y.pre.client r.bytes := by
    obtain ⟨kind, seqno, bytes⟩ := r
    simp only [commandRecord] at hkind hseqno ⊢
    rw [hkind, hseqno]
  refine ⟨y, hy, command, hadded, ⟨r.bytes, hbytes, hrecord.trans (congrArg some hown)⟩, ?_⟩
  rintro request token rfl hsurvives hversion
  have hrestore : restoreVersion (commandNumbering.keyOf r) =
      if y.pre.client.MQTTVersion ≥ 5 then 5 else 4 := by
    rw [hown, Lib.Numbering.keyOf]
    by_cases hfive : y.pre.client.MQTTVersion ≥ 5 <;>
      simp [restoreVersion, commandNumbering, commandRecord, hfive]
  obtain ⟨cmd, hcmd, htoken, hdetails, hproperties⟩ :=
    restoreCommand_publish host request token hsurvives hbytes { qcmd.entry with key := none }
  refine ⟨cmd, ?_, ?_⟩
  · rw [reloadCommand, hnot, hkey]
    dsimp only
    rw [hstored]
    dsimp only
    rw [hrestore]
    exact hcmd
  · have hsame : (if x.pre.client.MQTTVersion ≥ 5 then cmd.command.properties
        else MQTTProperties.initializer) =
        if x.pre.client.MQTTVersion ≥ 5 then request.properties else MQTTProperties.initializer := by
      split
      next hfive => exact hproperties (hversion.mpr hfive)
      · rfl
    rw [startedPublish, hdetails]
    simp only [PublishRequest.command, startedPublish, htoken, hsame]

/--
In every run whose steps are apart, a command that is read again from its
record when it is processed is the one that was added: the publication that is
started is the one that was accepted.
-/
theorem reload_invisible
    (host : HostInt) {MQTTVersion : Nat} {t : QueueState}
    {tr : List (Lib.Transition QueueState QueueEvent)}
    (hrun : Lib.Runs (Step host) (QueueState.fresh MQTTVersion) tr t)
    (hapart : ∀ x ∈ tr, Apart x.pre x.event) :
    ∀ past x future i qcmd, tr = past ++ x :: future → x.event = .processCommand i →
      x.pre.commands[i]? = some qcmd → qcmd.entry.not_restored = true →
      ∃ y ∈ past, ∃ command, StartsAccepted host x y qcmd command := by
  have hkept := hrun.history_of (fun _ _ _ _ h hC hstep => step_kept h hC hstep)
    (Kept.fresh host MQTTVersion) hapart
  intro past x future i qcmd hsplit _ hfound hnot
  exact (hkept.1 past x future hsplit).startsAccepted (List.mem_of_getElem? hfound) hnot

/-- A publication that is queued and processed in its turn. -/
def oneGreeting : List QueueEvent :=
  [.addCommand (greeting.command 1), .processCommand 0]

/-- The greeting is started as it was accepted. -/
theorem reload_invisible_greeting :
    ∃ x y qcmd, freshRun oneGreeting = [y, x] ∧ x.pre.commands[0]? = some qcmd ∧
      qcmd.entry.not_restored = true ∧
      StartsAccepted .littleEndian x y qcmd (greeting.command 1) := by
  have hadm : ∀ s : QueueState, ∀ e ∈ oneGreeting, s.Admissible e := by
    intro s e he
    rcases List.mem_cons.mp he with rfl | he
    · trivial
    · obtain rfl := List.mem_singleton.mp he
      trivial
  have hapart : ∀ x ∈ freshRun oneGreeting, Apart x.pre x.event := by
    intro x hx
    rcases List.mem_cons.mp hx with rfl | hx
    · exact fun _ r hr => absurd hr List.not_mem_nil
    · obtain rfl := List.mem_singleton.mp hx
      intro qcmd hq r hr
      exact absurd hr List.not_mem_nil
  obtain ⟨y, hy, command, hstarts⟩ :=
    reload_invisible .littleEndian (runs_freshRun hadm) hapart [_] _ [] 0 _ rfl rfl rfl rfl
  obtain rfl := List.mem_singleton.mp hy
  obtain rfl : greeting.command 1 = command := QueueEvent.addCommand.inj hstarts.added
  exact ⟨_, _, _, rfl, rfl, rfl, hstarts⟩

/-- Another publication. -/
def farewell : PublishRequest where
  destinationName := [98]
  noNul := by decide
  payload := [98, 121, 101]
  lt := by decide
  qos := 1
  retained := 0
  properties := MQTTProperties.initializer

/-- So many publications are queued that the last one gets the number of the first. -/
def roundTheNumbers : List QueueEvent :=
  List.replicate 999999 (.addCommand (greeting.command 1)) ++
    [.addCommand (greeting.command 1), .addCommand (farewell.command 2)]

/-- A 3.1.1 client whose first command is the greeting with the number 1. -/
structure GreetingFirst (command_seqno : Nat) (s : QueueState) : Prop where
  MQTTVersion : s.client.MQTTVersion = 4
  command_seqno : s.client.command_seqno = command_seqno
  first : ∃ bytes qcmd rest, persistedRecord .littleEndian 4 (greeting.command 1) = some bytes ∧
    s.commands = qcmd :: rest ∧ qcmd.entry.not_restored = true ∧
    qcmd.entry.key = some (Stem.command.key 1) ∧ qcmd.record = some ⟨false, 1, bytes⟩

/-- One more command does not change the first one. -/
theorem GreetingFirst.addCommand
    {n : Nat} {s : QueueState}
    (h : GreetingFirst n s)
    (hn : n < PERSISTENCE_SEQNO_LIMIT)
    {command : Command} {bytes : Bytes}
    (hrecord : persistedRecord .littleEndian 4 command = some bytes) :
    GreetingFirst (nextSeqno n) (s.next .littleEndian (.addCommand command)) ∧
      (s.next .littleEndian (.addCommand command)).client.store (Stem.command.key (nextSeqno n)) =
        some bytes := by
  obtain ⟨hversion, rfl, first, qcmd, rest, hfirst, hcommands, hnot, hkey, hown⟩ := h
  have hrecord' : persistedRecord .littleEndian s.client.MQTTVersion command = some bytes := by
    rw [hversion, hrecord]
  rw [Kept.next_addCommand hn hrecord', hcommands]
  refine ⟨⟨hversion, rfl, first, qcmd, _, hfirst, List.cons_append, hnot, hkey, hown⟩, ?_⟩
  · have hkeys : commandNumbering.keyOf (commandRecord s.client bytes) =
        Stem.command.key (nextSeqno s.client.command_seqno) := by
      rw [Lib.Numbering.keyOf, commandRecord, hversion]
      rfl
    rw [hkeys]
    exact Lib.ExactMap.put_self _ _ _

theorem greeting_record :
    persistedRecord .littleEndian 4 (greeting.command 1) =
      some [3, 0, 0, 0, 1, 0, 0, 0, 97, 0, 2, 0, 0, 0, 104, 105, 1, 0, 0, 0, 0, 0, 0, 0] := by
  decide

theorem greetingFirst_replicate
    {n : Nat}
    (hpos : 0 < n)
    (hn : n < PERSISTENCE_SEQNO_LIMIT) :
    GreetingFirst n ((List.replicate n (.addCommand (greeting.command 1))).foldl
      (next .littleEndian) (fresh 4)) := by
  induction n with
  | zero =>
      exact absurd hpos (lt_irrefl 0)
  | succ n ih =>
      rw [List.replicate_succ', List.foldl_append]
      cases n with
      | zero =>
          exact ⟨rfl, rfl, _, _, [], rfl, rfl, rfl, rfl, rfl⟩
      | succ n =>
          have hbefore := ih (Nat.succ_pos n) (Nat.lt_of_succ_lt hn)
          have hafter := (hbefore.addCommand (Nat.lt_of_succ_lt hn) greeting_record).1
          rwa [nextSeqno, if_neg hn.ne] at hafter

/--
After 1000000 more publications have been queued behind it, the greeting is
started as the last one of them.
-/
theorem greeting_replaced :
    ∃ t qcmd cmd bytes, Lib.Runs (Step .littleEndian) (fresh 4) (freshRun roundTheNumbers) t ∧
      t.commands[0]? = some qcmd ∧ qcmd.entry.not_restored = true ∧
      persistedRecord .littleEndian 4 (greeting.command 1) = some bytes ∧
      qcmd.record = some ⟨false, 1, bytes⟩ ∧
      reloadCommand .littleEndian t.client.store qcmd.entry = .ok cmd ∧
      startedPublish 4 cmd.command = startedPublish 4 (farewell.command 2) ∧
      startedPublish 4 cmd.command ≠ startedPublish 4 (greeting.command 1) := by
  have hmany := greetingFirst_replicate (by decide : 0 < 999999) (by decide)
  have hwrapped := (hmany.addCommand (by decide) greeting_record).1
  have hzero : nextSeqno 999999 = 0 := rfl
  rw [hzero] at hwrapped
  obtain ⟨record, hrecord⟩ :
      ∃ record, persistedRecord .littleEndian 4 (farewell.command 2) = some record := ⟨_, rfl⟩
  obtain ⟨hlast, hstored⟩ := hwrapped.addCommand (by decide) hrecord
  obtain ⟨_, _, bytes, qcmd, rest, hbytes, hcommands, hnot, hkey, hown⟩ := hlast
  obtain ⟨cmd, hcmd, htoken, hdetails, _⟩ := restoreCommand_publish .littleEndian farewell 2
    (fun h => absurd h (by decide : ¬4 ≥ 5)) hrecord { qcmd.entry with key := none }
  have hone : nextSeqno 0 = 1 := rfl
  rw [hone] at hstored
  have hstarted : startedPublish 4 cmd.command = startedPublish 4 (farewell.command 2) := by
    rw [startedPublish, hdetails]
    simp only [PublishRequest.command, startedPublish, htoken, ge_iff_le, Nat.reduceLeDiff, if_false]
  have hadm : ∀ s : QueueState, ∀ e ∈ roundTheNumbers, s.Admissible e := by
    intro s e he
    rcases List.mem_append.mp he with he | he
    · obtain rfl := List.eq_of_mem_replicate he
      trivial
    · rcases List.mem_cons.mp he with rfl | he
      · trivial
      · obtain rfl := List.mem_singleton.mp he
        trivial
  have hend : roundTheNumbers.foldl (next .littleEndian) (fresh 4) =
      (((List.replicate 999999 (.addCommand (greeting.command 1))).foldl (next .littleEndian)
        (fresh 4)).next .littleEndian (.addCommand (greeting.command 1))).next .littleEndian
          (.addCommand (farewell.command 2)) := by
    rw [roundTheNumbers, List.foldl_append, List.foldl_cons, List.foldl_cons, List.foldl_nil]
  refine ⟨_, qcmd, cmd, bytes, runs_freshRun hadm, ?_, hnot, hbytes, hown, ?_, hstarted, ?_⟩
  · rw [hend, hcommands]
    rfl
  · rw [hend, reloadCommand_stored .littleEndian hnot hkey hstored]
    exact hcmd
  · rw [hstarted]
    decide

end QueueState
end PahoMqtt
