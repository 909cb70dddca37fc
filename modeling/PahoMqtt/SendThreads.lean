import PahoMqtt.CommandStartup
import PahoMqtt.BufferedMessages

/-!
# Threads that send

A call of `MQTTAsync_send` takes several steps between which other threads may
run: it looks at the connection, gets a message id, compares the count of
buffered messages with the limit, and adds its command.  The limit is compared
in one critical section and enforced in another one, so that a call that has
passed the check may find the buffer full when it adds its command, and the
oldest message of the client is discarded then.
-/

namespace PahoMqtt
namespace MQTTAsync

def MQTTASYNC_SUCCESS : Int := 0
def MQTTASYNC_DISCONNECTED : Int := -3
def MQTTASYNC_BAD_UTF8_STRING : Int := -5
def MQTTASYNC_BAD_QOS : Int := -9
def MQTTASYNC_NO_MORE_MSGIDS : Int := -10
def MQTTASYNC_MAX_BUFFERED_MESSAGES : Int := -12
def MQTTASYNC_BAD_MQTT_OPTION : Int := -15
def PAHO_MEMORY_ERROR : Int := -99

/-- What `MQTTAsync_send` reads of its `MQTTAsync_responseOptions`. -/
structure SendResponse where
  struct_version : Nat
  callbacks : Bool
  callbacks5 : Bool
  properties : Properties
deriving DecidableEq

/-- The arguments of `MQTTAsync_send`. -/
structure SendArgs where
  m : Handle
  destinationName : Bytes
  payloadlen : Int32
  payload : Bytes
  qos : Int32
  retained : Int32
  response : Option SendResponse
deriving DecidableEq

/-- The command that `MQTTAsync_send` adds. -/
def SendArgs.command (args : SendArgs) (MQTTVersion : Nat) (msgid : Int32) : Command where
  token := msgid
  properties :=
    match args.response with
    | some response =>
        if MQTTVersion ≥ 5 then MQTTProperties.copy response.properties
        else MQTTProperties.initializer
    | none => MQTTProperties.initializer
  details := .pub
    { destinationName := some args.destinationName
      payloadlen := args.payloadlen
      payload := some args.payload
      qos := args.qos
      retained := args.retained }

/-- How far a thread is in a call of `MQTTAsync_send`. -/
inductive SendStage where
  | idle
  | entered (args : SendArgs)
  | assigned (args : SendArgs) (msgid : Int32)
  | admitted (args : SendArgs) (msgid : Int32)
  | returned (rc : Int)
deriving DecidableEq

/-- The clients and the threads. -/
structure SendState where
  async : AsyncState
  calls : Nat → SendStage

/-- What a thread does next, or another part of the library does. -/
inductive SendEvent where
  | call (thread : Nat) (args : SendArgs)
  | assignMsgId (thread : Nat) (msgid : Int32)
  | checkCapacity (thread : Nat)
  | outOfMemory (thread : Nat)
  | addCommand (thread : Nat) (rc : Int)
  | async (event : CommandEvent)

/-! ### The steps of `MQTTAsync_send` -/

/-- The look at the connection. -/
def enter (c : MQTTAsyncs) (args : SendArgs) : SendStage :=
  if c.connection.connected = false then
    match c.createOptions with
    | none => .returned MQTTASYNC_DISCONNECTED
    | some createOptions =>
        if createOptions.sendWhileDisconnected = false then .returned MQTTASYNC_DISCONNECTED
        else if c.connection.shouldBeConnected = false ∧
            (createOptions.struct_version < 2 ∨
              createOptions.allowDisconnectedSendAtAnyTime = false) then
          .returned MQTTASYNC_DISCONNECTED
        else .entered args
  else .entered args

/-- The checks of the arguments and `MQTTAsync_assignMsgId`, which returns `msgid`. -/
def assign (UTF8_validateString : Bytes → Bool) (args : SendArgs) (msgid : Int32) : SendStage :=
  if UTF8_validateString args.destinationName = false then .returned MQTTASYNC_BAD_UTF8_STRING
  else if args.qos < 0 ∨ args.qos > 2 then .returned MQTTASYNC_BAD_QOS
  else if args.qos > 0 ∧ msgid = 0 then .returned MQTTASYNC_NO_MORE_MSGIDS
  else .assigned args (if args.qos > 0 then msgid else 0)

/-- The newest message is refused when the buffer is full. -/
def refusesNewest (c : MQTTAsyncs) : Bool :=
  match c.createOptions with
  | some createOptions =>
      createOptions.struct_version < 2 || createOptions.deleteOldestMessages = false
  | none => false

/-- The response options do not go with the MQTT version. -/
def badOption (MQTTVersion : Nat) (response : SendResponse) : Bool :=
  if MQTTVersion ≥ 5 then response.struct_version = 0 || response.callbacks
  else response.struct_version ≥ 1 && response.callbacks5

/-- The comparison with the limit and the check of the options. -/
def checkRoom (s : AsyncState) (args : SendArgs) (msgid : Int32) : SendStage :=
  if refusesNewest (s.client args.m) = true ∧ s.bufferIsFull args.m = true then
    .returned MQTTASYNC_MAX_BUFFERED_MESSAGES
  else
    match args.response with
    | some response =>
        if badOption (s.client args.m).connection.MQTTVersion response = true then
          .returned MQTTASYNC_BAD_MQTT_OPTION
        else .admitted args msgid
    | none => .admitted args msgid

namespace SendState

def setCall (s : SendState) (thread : Nat) (stage : SendStage) : SendState :=
  { s with calls := fun thread' => if thread' = thread then stage else s.calls thread' }

/-- The command of a call that has been admitted. -/
def commandOf (s : SendState) (args : SendArgs) (msgid : Int32) : Command :=
  args.command (s.async.client args.m).connection.MQTTVersion msgid

def next (UTF8_validateString : Bytes → Bool) (s : SendState) : SendEvent → SendState
  | .call thread args => s.setCall thread (enter (s.async.client args.m) args)
  | .assignMsgId thread msgid =>
      match s.calls thread with
      | .entered args => s.setCall thread (assign UTF8_validateString args msgid)
      | _ => s
  | .checkCapacity thread =>
      match s.calls thread with
      | .assigned args msgid => s.setCall thread (checkRoom s.async args msgid)
      | _ => s
  | .outOfMemory thread => s.setCall thread (.returned PAHO_MEMORY_ERROR)
  | .addCommand thread rc =>
      match s.calls thread with
      | .admitted args msgid =>
          { s with
            async := s.async.addCommand args.m (s.commandOf args msgid) false
            calls := (s.setCall thread (.returned rc)).calls }
      | _ => s
  | .async event => { s with async := s.async.next event }

/-- A thread makes the next step of its call; only `MQTTAsync_send` adds a PUBLISH. -/
def Admissible (s : SendState) : SendEvent → Prop
  | .call thread args =>
      (s.calls thread = .idle ∨ ∃ rc, s.calls thread = .returned rc) ∧ args.m ∈ s.async.handles
  | .assignMsgId thread _ => ∃ args, s.calls thread = .entered args
  | .checkCapacity thread => ∃ args msgid, s.calls thread = .assigned args msgid
  | .outOfMemory thread => ∃ args msgid, s.calls thread = .admitted args msgid
  | .addCommand thread _ =>
      ∃ args msgid, s.calls thread = .admitted args msgid ∧ args.m ∈ s.async.handles
  | .async event => s.async.Admissible event ∧
      ∀ m command internal, event = .addCommand m command internal → command.type ≠ .publish

/-- A step of one of the threads. -/
def Step (UTF8_validateString : Bytes → Bool) (s : SendState) (e : SendEvent) (t : SendState) :
    Prop :=
  s.Admissible e ∧ t = s.next UTF8_validateString e

/-- No client has been created and no thread has made a call. -/
def fresh : SendState where
  async := AsyncState.fresh
  calls _ := .idle

/-! ### What the threads do to the queue -/

/-- The step of the queue that a step of a thread makes. -/
def queueStep (s : SendState) : SendEvent → Option CommandEvent
  | .addCommand thread _ =>
      match s.calls thread with
      | .admitted args msgid => some (.addCommand args.m (s.commandOf args msgid) false)
      | _ => none
  | .async event => some event
  | _ => none

/-- The run of the queue in a run of the threads. -/
def queueRun (tr : List (Lib.Transition SendState SendEvent)) : AsyncRun :=
  tr.filterMap (Lib.Transition.image async queueStep)

section

variable {UTF8_validateString : Bytes → Bool} {s t : SendState} {e : SendEvent}

theorem step_queue
    {event : CommandEvent}
    (hstep : Step UTF8_validateString s e t)
    (hevent : s.queueStep e = some event) :
    AsyncState.Step s.async event t.async := by
  obtain ⟨hadm, rfl⟩ := hstep
  cases e with
  | addCommand thread rc =>
      obtain ⟨args, msgid, hcall, hm⟩ := hadm
      rw [queueStep, hcall] at hevent
      obtain rfl := Option.some.inj hevent
      rw [next, hcall]
      exact ⟨hm, rfl⟩
  | async event =>
      obtain rfl := Option.some.inj hevent
      exact ⟨hadm.1, rfl⟩
  | call | assignMsgId | checkCapacity | outOfMemory =>
      cases hevent

theorem step_no_queue
    (hstep : Step UTF8_validateString s e t)
    (hevent : s.queueStep e = none) :
    t.async = s.async := by
  obtain ⟨hadm, rfl⟩ := hstep
  cases e with
  | call | outOfMemory =>
      rfl
  | assignMsgId thread msgid | checkCapacity thread =>
      rw [next]
      split
      · rfl
      · rfl
  | addCommand thread rc =>
      obtain ⟨args, msgid, hcall, _⟩ := hadm
      rw [queueStep, hcall] at hevent
      cases hevent
  | async event =>
      cases hevent

/-- A run of the threads is a run of the queue. -/
theorem queueRun_runs
    {tr : List (Lib.Transition SendState SendEvent)}
    (hrun : Lib.Runs (Step UTF8_validateString) s tr t) :
    Lib.Runs AsyncState.Step s.async (queueRun tr) t.async :=
  hrun.simulates async queueStep (fun _ _ _ _ hstep hevent => step_queue hstep hevent)
    (fun _ _ _ hstep hevent => step_no_queue hstep hevent)

end

/-! ### What has been accepted stays until it is processed -/

/-- A call for `m` finds room in the buffer when it adds its command. -/
def FindsRoom (m : Handle) (s : SendState) (e : SendEvent) : Prop :=
  ∀ thread rc args msgid, e = .addCommand thread rc → s.calls thread = .admitted args msgid →
    args.m = m → s.async.bufferIsFull m = false

section

variable {UTF8_validateString : Bytes → Bool} {s t : SendState}
  {tr : List (Lib.Transition SendState SendEvent)}

theorem image_addCommand
    {thread : Nat} {args : SendArgs} {msgid : Int32}
    (rc : Int)
    (hcall : s.calls thread = .admitted args msgid) :
    Lib.Transition.image async queueStep ⟨s, .addCommand thread rc, t⟩ =
      some ⟨s.async, .addCommand args.m (s.commandOf args msgid) false, t.async⟩ := by
  rw [Lib.Transition.image, queueStep, hcall]
  rfl

/-- A call that discards a request has not found room. -/
theorem discards_iff
    {x : Lib.Transition SendState SendEvent} {m : Handle}
    (hstep : Step UTF8_validateString x.pre x.event x.post) :
    (∃ y ∈ Lib.Transition.image async queueStep x, AsyncState.discardedBy m y ≠ []) ↔
      ¬FindsRoom m x.pre x.event := by
  obtain ⟨hadm, _⟩ := hstep
  obtain ⟨pre, e, post⟩ := x
  dsimp only at hadm ⊢
  cases e with
  | addCommand thread rc =>
      obtain ⟨args, msgid, hcall, _⟩ := hadm
      have himage := image_addCommand (t := post) rc hcall
      have hpublish : (pre.commandOf args msgid).type = .publish := rfl
      constructor
      · rintro ⟨y, hy, hne⟩ hroom
        rw [himage] at hy
        obtain rfl := Option.some.inj hy
        obtain ⟨cmd, hcmd⟩ := List.exists_mem_of_ne_nil _ hne
        obtain ⟨hdiscarded, hrequest⟩ := List.mem_filter.mp hcmd
        obtain ⟨_, hfull, hclient, _, _⟩ :=
          AsyncState.discards_eq_some (Option.mem_toList.mp hdiscarded)
        rw [CommandElement.isRequestOf, Bool.and_eq_true, decide_eq_true_eq] at hrequest
        have hm : args.m = m := hclient.symm.trans hrequest.1
        rw [hm, hroom thread rc args msgid rfl hcall hm] at hfull
        cases hfull
      · intro hnot
        have hfull : args.m = m ∧ pre.async.bufferIsFull m = true := by
          by_contra hother
          refine hnot fun thread' rc' args' msgid' hevent hcall' hm => ?_
          obtain ⟨rfl, _⟩ := SendEvent.addCommand.inj hevent
          obtain ⟨rfl, _⟩ := SendStage.admitted.inj (hcall.symm.trans hcall')
          exact eq_false_of_ne_true fun hfull => hother ⟨hm, hfull⟩
        obtain ⟨rfl, hfull⟩ := hfull
        obtain ⟨cmd, hcmd⟩ := AsyncState.discards_isSome hpublish hfull false
        refine ⟨_, himage, List.ne_nil_of_mem (a := cmd) ?_⟩
        obtain ⟨_, _, hclient, htype, _⟩ := AsyncState.discards_eq_some hcmd
        refine List.mem_filter.mpr ⟨Option.mem_toList.mpr hcmd, ?_⟩
        simp [CommandElement.isRequestOf, hclient, Command.isRequest, htype]
  | async event =>
      have himage : Lib.Transition.image async queueStep ⟨pre, .async event, post⟩ =
          some ⟨pre.async, event, post.async⟩ := rfl
      refine iff_of_false ?_ (fun hnot => hnot fun _ _ _ _ hevent => SendEvent.noConfusion hevent)
      rintro ⟨y, hy, hne⟩
      rw [himage] at hy
      obtain rfl := Option.some.inj hy
      cases event with
      | addCommand m' command internal =>
          obtain ⟨cmd, hcmd⟩ := List.exists_mem_of_ne_nil _ hne
          obtain ⟨hpublish, _⟩ := AsyncState.discards_eq_some
            (Option.mem_toList.mp (List.mem_filter.mp hcmd).1)
          exact hadm.2 m' command internal rfl hpublish
      | _ =>
          exact hne rfl
  | call | assignMsgId | checkCapacity | outOfMemory =>
      refine iff_of_false ?_ (fun hnot => hnot fun _ _ _ _ hevent => SendEvent.noConfusion hevent)
      rintro ⟨y, hy, _⟩
      cases hy

/-- Nothing is discarded exactly when every call finds room. -/
theorem dropped_eq_nil_iff
    (hrun : Lib.Runs (Step UTF8_validateString) s tr t)
    (m : Handle) :
    (AsyncState.ledger m (queueRun tr)).dropped = [] ↔
      ∀ x ∈ tr, FindsRoom m x.pre x.event := by
  have hsteps := hrun.step_of_mem
  rw [AsyncState.ledger, List.flatMap_eq_nil_iff]
  constructor
  · intro hnone x hx
    by_contra hnot
    obtain ⟨y, hy, hne⟩ := (discards_iff (hsteps x hx)).mpr hnot
    exact hne (hnone y (List.mem_filterMap.mpr ⟨x, hx, hy⟩))
  · intro hroom y hy
    obtain ⟨x, hx, himage⟩ := List.mem_filterMap.mp hy
    by_contra hne
    exact (discards_iff (hsteps x hx)).mp ⟨y, himage, hne⟩ (hroom x hx)

theorem setCall_returned
    {thread thread' : Nat} {stage : SendStage} {rc : Int}
    (hafter : (s.setCall thread' stage).calls thread = .returned rc)
    (hbefore : s.calls thread ≠ .returned rc) :
    thread = thread' ∧ stage = .returned rc := by
  rw [setCall] at hafter
  dsimp only at hafter
  by_cases hthread : thread = thread'
  · rw [if_pos hthread] at hafter
    exact ⟨hthread, hafter⟩
  · rw [if_neg hthread] at hafter
    exact absurd hafter hbefore

/-- The steps before the last one return errors only. -/
theorem enter_ne_success
    (c : MQTTAsyncs) (args : SendArgs) :
    enter c args ≠ .returned MQTTASYNC_SUCCESS := by
  rw [enter]
  repeat' split
  all_goals exact fun h => by cases h

theorem assign_ne_success
    (args : SendArgs) (msgid : Int32) :
    assign UTF8_validateString args msgid ≠ .returned MQTTASYNC_SUCCESS := by
  rw [assign]
  repeat' split
  all_goals exact fun h => by cases h

theorem admit_ne_success
    (async : AsyncState) (args : SendArgs) (msgid : Int32) :
    checkRoom async args msgid ≠ .returned MQTTASYNC_SUCCESS := by
  rw [checkRoom]
  repeat' split
  all_goals exact fun h => by cases h

/-- A call that returns successfully has added its command. -/
theorem returned_success
    {x : Lib.Transition SendState SendEvent} {thread : Nat}
    (hstep : Step UTF8_validateString x.pre x.event x.post)
    (hafter : x.post.calls thread = .returned MQTTASYNC_SUCCESS)
    (hbefore : x.pre.calls thread ≠ .returned MQTTASYNC_SUCCESS) :
    ∃ args msgid, x.pre.calls thread = .admitted args msgid ∧
      ∃ y, Lib.Transition.image async queueStep x = some y ∧
        x.pre.async.element args.m (x.pre.commandOf args msgid) false ∈
          AsyncState.addedBy args.m y := by
  obtain ⟨hadm, hpost⟩ := hstep
  obtain ⟨pre, e, post⟩ := x
  dsimp only at hadm hpost hafter hbefore ⊢
  subst hpost
  cases e with
  | call thread' args =>
      exact absurd (setCall_returned hafter hbefore).2 (enter_ne_success _ args)
  | assignMsgId thread' msgid =>
      obtain ⟨args, hcall⟩ := hadm
      rw [next, hcall] at hafter
      exact absurd (setCall_returned hafter hbefore).2 (assign_ne_success args msgid)
  | checkCapacity thread' =>
      obtain ⟨args, msgid, hcall⟩ := hadm
      rw [next, hcall] at hafter
      exact absurd (setCall_returned hafter hbefore).2 (admit_ne_success _ args msgid)
  | outOfMemory thread' =>
      cases (setCall_returned hafter hbefore).2
  | addCommand thread' rc =>
      obtain ⟨args, msgid, hcall, _⟩ := hadm
      rw [next, hcall] at hafter
      obtain ⟨rfl, _⟩ := setCall_returned hafter hbefore
      refine ⟨args, msgid, hcall, _, image_addCommand rc hcall, ?_⟩
      · refine List.mem_filter.mpr ⟨List.mem_singleton_self _, ?_⟩
        rw [CommandElement.isRequestOf, Bool.and_eq_true, decide_eq_true_eq]
        exact ⟨rfl, rfl⟩
  | async event =>
      exact absurd hafter hbefore

/--
In every run a call that returns successfully has added its command; and the
requests of a client that were added are, in their order, those processed and
those still queued, exactly when every call has found room when it added its command.
-/
theorem accepted_kept_iff
    (hrun : Lib.Runs (Step UTF8_validateString) fresh tr t) :
    (∀ x ∈ tr, ∀ thread, x.post.calls thread = .returned MQTTASYNC_SUCCESS →
      x.pre.calls thread ≠ .returned MQTTASYNC_SUCCESS →
      ∃ args msgid, x.pre.calls thread = .admitted args msgid ∧
        x.pre.async.element args.m (x.pre.commandOf args msgid) false ∈
          (AsyncState.ledger args.m (queueRun tr)).added) ∧
    ∀ m, (AsyncState.ledger m (queueRun tr)).added =
        (AsyncState.ledger m (queueRun tr)).taken ++ t.async.requests m ↔
      ∀ x ∈ tr, FindsRoom m x.pre x.event := by
  constructor
  · intro x hx thread hafter hbefore
    obtain ⟨args, msgid, hcall, y, himage, hadded⟩ :=
      returned_success (hrun.step_of_mem x hx) hafter hbefore
    exact ⟨args, msgid, hcall,
      List.mem_flatMap.mpr ⟨y, List.mem_filterMap.mpr ⟨x, hx, himage⟩, hadded⟩⟩
  · intro m
    have hbalance := (AsyncState.lanes_balanced (queueRun_runs hrun)).balanced m
    rw [← dropped_eq_nil_iff hrun m]
    exact hbalance.added_eq_iff

end

/-- A client that buffers one message and refuses the newest one. -/
def refusing : SendEvent :=
  .async (.createWithOptions 0 (some ⟨2, true, 1, true, false⟩)
    ⟨false, .notInProgress, true, 0, 10, true, 4⟩)

/-- A QoS 0 message for the client. -/
def sending (destinationName : UInt8) : SendArgs :=
  ⟨0, [destinationName], 2, [104, 105], 0, 0, none⟩

/-- Two threads send a message one after the other. -/
def oneAfterTheOther : List SendEvent :=
  [refusing, .call 1 (sending 97), .assignMsgId 1 0, .checkCapacity 1, .addCommand 1 0,
    .call 2 (sending 98), .assignMsgId 2 0, .checkCapacity 2]

/-- Two threads send a message at the same time. -/
def atTheSameTime : List SendEvent :=
  [refusing, .call 1 (sending 97), .assignMsgId 1 0, .checkCapacity 1,
    .call 2 (sending 98), .assignMsgId 2 0, .checkCapacity 2, .addCommand 1 0, .addCommand 2 0]

/-- The run of a list of events when every string is valid. -/
abbrev sendRun (events : List SendEvent) : List (Lib.Transition SendState SendEvent) :=
  Lib.trace (next fun _ => true) fresh events

/-- The state after a list of events. -/
abbrev sendState (events : List SendEvent) : SendState :=
  events.foldl (next fun _ => true) fresh

theorem runs_oneAfterTheOther :
    Lib.Runs (Step fun _ => true) fresh (sendRun oneAfterTheOther)
      (sendState oneAfterTheOther) := by
  refine Lib.Runs.cons ⟨⟨List.not_mem_nil, fun _ _ _ h => by cases h⟩, rfl⟩ ?_
  refine Lib.Runs.cons ⟨⟨Or.inl rfl, List.mem_cons_self⟩, rfl⟩ ?_
  refine Lib.Runs.cons ⟨⟨_, rfl⟩, rfl⟩ ?_
  refine Lib.Runs.cons ⟨⟨_, _, rfl⟩, rfl⟩ ?_
  refine Lib.Runs.cons ⟨⟨_, _, rfl, List.mem_cons_self⟩, rfl⟩ ?_
  refine Lib.Runs.cons ⟨⟨Or.inl rfl, List.mem_cons_self⟩, rfl⟩ ?_
  refine Lib.Runs.cons ⟨⟨_, rfl⟩, rfl⟩ ?_
  exact Lib.Runs.cons ⟨⟨_, _, rfl⟩, rfl⟩ (Lib.Runs.nil _)

theorem runs_atTheSameTime :
    Lib.Runs (Step fun _ => true) fresh (sendRun atTheSameTime) (sendState atTheSameTime) := by
  refine Lib.Runs.cons ⟨⟨List.not_mem_nil, fun _ _ _ h => by cases h⟩, rfl⟩ ?_
  refine Lib.Runs.cons ⟨⟨Or.inl rfl, List.mem_cons_self⟩, rfl⟩ ?_
  refine Lib.Runs.cons ⟨⟨_, rfl⟩, rfl⟩ ?_
  refine Lib.Runs.cons ⟨⟨_, _, rfl⟩, rfl⟩ ?_
  refine Lib.Runs.cons ⟨⟨Or.inl rfl, List.mem_cons_self⟩, rfl⟩ ?_
  refine Lib.Runs.cons ⟨⟨_, rfl⟩, rfl⟩ ?_
  refine Lib.Runs.cons ⟨⟨_, _, rfl⟩, rfl⟩ ?_
  refine Lib.Runs.cons ⟨⟨_, _, rfl, List.mem_cons_self⟩, rfl⟩ ?_
  exact Lib.Runs.cons ⟨⟨_, _, rfl, List.mem_cons_self⟩, rfl⟩ (Lib.Runs.nil _)

/-- One after the other, the second message is refused and every call finds room. -/
theorem accepted_kept_oneAfterTheOther :
    (sendState oneAfterTheOther).calls 2 = .returned MQTTASYNC_MAX_BUFFERED_MESSAGES ∧
      (sendState oneAfterTheOther).async.requests 0 =
        [⟨0, (sending 97).command 4 0, false, 0⟩] ∧
      ∀ x ∈ sendRun oneAfterTheOther, FindsRoom 0 x.pre x.event :=
  ⟨by decide, by decide, ((accepted_kept_iff runs_oneAfterTheOther).2 0).mp (by decide)⟩

/--
At the same time, both calls return successfully; the first message has left
the queue without having been taken for processing.
-/
theorem accepted_message_discarded :
    Lib.Runs (Step fun _ => true) fresh (sendRun atTheSameTime) (sendState atTheSameTime) ∧
      (sendState atTheSameTime).calls 1 = .returned MQTTASYNC_SUCCESS ∧
      (sendState atTheSameTime).calls 2 = .returned MQTTASYNC_SUCCESS ∧
      (AsyncState.ledger 0 (queueRun (sendRun atTheSameTime))).added =
        [⟨0, (sending 97).command 4 0, false, 0⟩, ⟨0, (sending 98).command 4 0, false, 1⟩] ∧
      (AsyncState.ledger 0 (queueRun (sendRun atTheSameTime))).taken = [] ∧
      (sendState atTheSameTime).async.requests 0 =
        [⟨0, (sending 98).command 4 0, false, 1⟩] :=
  ⟨runs_atTheSameTime, by decide, by decide, by decide, by decide, by decide⟩

end SendState
end MQTTAsync
end PahoMqtt
