import PahoMqtt.ConnectCycle
import PahoMqtt.Lib.Runs

/-!
# Every server is tried in turn

The pair of a server and a version is advanced in three functions, each from the
command that it has in hand.  They agree as long as that command is the one of
the attempt before: this is so in a cycle that starts at the first server, that
no reconnect gets into and that no failed handshake with a proxy leaves half
done.  The module states these conditions and follows a cycle under them.
-/

namespace PahoMqtt
namespace MQTTAsync
namespace ConnectingState

open Lib

/-! ### The order of the attempts -/

/-- How many attempts a cycle has. -/
def attempts (serverURIcount version : Nat) : Nat :=
  if version = MQTTVERSION_DEFAULT then 2 * serverURIcount else serverURIcount

/-- The attempt with number `k`. -/
def pairAt (version k : Nat) : Nat × Nat :=
  if version = MQTTVERSION_DEFAULT then
    (k / 2, if k % 2 = 0 then MQTTVERSION_3_1_1 else MQTTVERSION_3_1)
  else (k, version)

theorem pairs_eq
    (n v : Nat) :
    pairs n v = (List.range (attempts n v)).map (pairAt v) := by
  unfold pairs attempts
  split
  · rename_i hv
    induction n with
    | zero =>
        rfl
    | succ n ih =>
        have hodd : (2 * n + 1) / 2 = n := by omega
        rw [List.range_succ, List.flatMap_append, ih, Nat.mul_succ, List.range_succ,
          List.range_succ]
        simp [pairAt, hv, hodd]
  · rename_i hv
    apply List.map_congr_left
    intro k _
    rw [pairAt, if_neg hv]

theorem pairAt_injective
    (v : Nat) :
    Function.Injective (pairAt v) := by
  intro k j h
  unfold pairAt at h
  split at h
  · obtain ⟨huri, hversion⟩ := Prod.mk.inj h
    rcases Nat.mod_two_eq_zero_or_one k with hk | hk
    all_goals
      rcases Nat.mod_two_eq_zero_or_one j with hj | hj
      all_goals
        simp [hk, hj, MQTTVERSION_3_1_1, MQTTVERSION_3_1] at hversion
        try omega
  · exact (Prod.mk.inj h).1

theorem pairs_nodup
    (n v : Nat) :
    (pairs n v).Nodup := by
  rw [pairs_eq]
  exact List.nodup_range.map (pairAt_injective v)

/-- The first attempts of a cycle. -/
theorem prefix_pairs
    {n v k : Nat}
    (hk : k ≤ attempts n v) :
    (List.range k).map (pairAt v) <+: pairs n v := by
  rw [pairs_eq]
  refine ⟨((List.range (attempts n v)).map (pairAt v)).drop k, ?_⟩
  rw [← Nat.min_eq_left hk, ← List.take_range, List.map_take, Nat.min_eq_left hk,
    List.take_append_drop]

/-- The command is for the attempt with number `k`. -/
structure Tries (n v k : Nat) (command : ConnectCommand) : Prop where
  lt : k < attempts n v
  pair : (command.currentURI, tryVersion v command) = pairAt v k

/-- The command was for the attempt before the one with number `k`. -/
structure Follows (n v k : Nat) (command : ConnectCommand) : Prop where
  index_lt : command.currentURI < n
  le : k ≤ attempts n v
  more : checkConn n v command = true → Tries n v k (advance v command)
  last : checkConn n v command = false → k = attempts n v

theorem tries_zero
    {n v : Nat} {command : ConnectCommand}
    (hn : 1 ≤ n)
    (hfirst : command.currentURI = 0)
    (hversion : v = MQTTVERSION_DEFAULT → command.MQTTVersion = MQTTVERSION_DEFAULT) :
    Tries n v 0 command := by
  by_cases hv : v = MQTTVERSION_DEFAULT
  · have hc := hversion hv
    refine ⟨?_, ?_⟩
    · rw [attempts, if_pos hv]
      omega
    · simp [pairAt, tryVersion, hv, hc, hfirst]
  · refine ⟨?_, ?_⟩
    · rw [attempts, if_neg hv]
      omega
    · simp [pairAt, tryVersion, hv, hfirst]

/-- An attempt at a version of its own; the version of the options makes no choice. -/
theorem Tries.follows_fixed
    {n v k : Nat} {command : ConnectCommand}
    (hv : v ≠ MQTTVERSION_DEFAULT)
    (h : Tries n v k command) :
    Follows n v (k + 1) { command with MQTTVersion := tryVersion v command } := by
  have hlt : k < n := by simpa [attempts, hv] using h.lt
  have huri : command.currentURI = k := by
    have hpair := h.pair
    simp only [pairAt, hv, if_false, Prod.mk.injEq] at hpair
    exact hpair.1
  constructor
  · rw [huri]
    exact hlt
  · simpa [attempts, hv] using hlt
  · intro hmore
    have hnext : k + 1 < n := by simpa [checkConn, hv, huri] using hmore
    constructor
    · simpa [attempts, hv] using hnext
    · simp [pairAt, advance, tryVersion, hv, huri]
  · intro hlast
    have hend : n ≤ k + 1 := by simpa [checkConn, hv, huri] using hlast
    simp only [attempts, hv, if_false]
    omega

/-- The second attempt at a server is the one with version 3.1. -/
theorem Tries.follows_default
    {n k : Nat} {command : ConnectCommand}
    (h : Tries n MQTTVERSION_DEFAULT k command) :
    Follows n MQTTVERSION_DEFAULT (k + 1)
      { command with MQTTVersion := tryVersion MQTTVERSION_DEFAULT command } := by
  have hlt : k < 2 * n := by simpa [attempts] using h.lt
  have hpair := h.pair
  simp only [pairAt, if_true, Prod.mk.injEq] at hpair
  obtain ⟨huri, htry⟩ := hpair
  have hindex : k / 2 < n := by omega
  rcases Nat.mod_two_eq_zero_or_one k with heven | hodd
  · rw [if_pos heven] at htry
    rw [htry]
    have hhalf : (k + 1) / 2 = k / 2 := by omega
    have hnext : (k + 1) % 2 ≠ 0 := by omega
    constructor
    · rw [huri]
      exact hindex
    · simp only [attempts, if_true]
      omega
    · intro _
      constructor
      · simp only [attempts, if_true]
        omega
      · simp [pairAt, advance, tryVersion, huri, hhalf, hnext, MQTTVERSION_3_1_1,
          MQTTVERSION_3_1, MQTTVERSION_DEFAULT]
    · intro hlast
      simp [checkConn] at hlast
  · rw [if_neg (by omega)] at htry
    rw [htry]
    have hhalf : (k + 1) / 2 = k / 2 + 1 := by omega
    have hnext : (k + 1) % 2 = 0 := by omega
    constructor
    · rw [huri]
      exact hindex
    · simp only [attempts, if_true]
      omega
    · intro hmore
      have hroom : k / 2 + 1 < n := by
        simpa [checkConn, huri, MQTTVERSION_3_1_1, MQTTVERSION_3_1] using hmore
      constructor
      · simp only [attempts, if_true]
        omega
      · simp [pairAt, advance, tryVersion, huri, hhalf, hnext]
    · intro hlast
      have hend : n ≤ k / 2 + 1 := by
        simpa [checkConn, huri, MQTTVERSION_3_1_1, MQTTVERSION_3_1] using hlast
      simp only [attempts, if_true]
      omega

/-- The attempt of a command is followed by the next attempt in the order. -/
theorem Tries.follows
    {n v k : Nat} {command : ConnectCommand}
    (h : Tries n v k command) :
    Follows n v (k + 1) { command with MQTTVersion := tryVersion v command } := by
  by_cases hv : v = MQTTVERSION_DEFAULT
  · subst hv
    exact h.follows_default
  · exact h.follows_fixed hv

/-- Taking the version back does no harm once the last attempt is made. -/
theorem Follows.restart
    {n v k : Nat} {command : ConnectCommand}
    (h : Follows n v k command)
    (hlast : command.currentURI + 1 = n)
    (hversion : command.MQTTVersion ≠ MQTTVERSION_3_1_1) :
    Follows n v k { command with MQTTVersion := MQTTVERSION_DEFAULT } := by
  have hnone : checkConn n v command = false := by
    simp [checkConn, hlast, hversion]
  refine ⟨h.index_lt, h.le, ?_, fun _ => h.last hnone⟩
  intro hmore
  simp [checkConn, hlast, MQTTVERSION_DEFAULT, MQTTVERSION_3_1_1] at hmore

/-! ### What a cycle has to be spared -/

/-- Nothing is queued, tried or connected. -/
structure Idle (s : ConnectingState) : Prop where
  queued : s.queued = none
  state : s.connect_state = .notInProgress
  connected : s.connected = false

/--
A command to reconnect that is put on the queue now starts a cycle at the first
server.  While a cycle runs, it is dropped, or the same as the command that it
takes the place of, or comes when the last attempt is under way.
-/
def ReconnectsInTurn (s : ConnectingState) (atHead : Bool) : Prop :=
  if s.running then
    (s.queued.isSome = true ∧ atHead = true) ∨
      if s.connect_state = .notInProgress then s.queued = some s.reconnectCommand
      else
        s.MQTTVersion = MQTTVERSION_DEFAULT →
          s.connect.currentURI + 1 = s.serverURIcount ∧
            s.connect.MQTTVersion ≠ MQTTVERSION_3_1_1
  else s.Idle ∧ s.connect.currentURI = 0

/-- A step that leaves the attempts of a cycle in their order. -/
def Undisturbed (s : ConnectingState) : ConnectEvent → Prop
  | .connect _ _ _ _ _ _ => s.Idle
  | .reconnect atHead => s.automaticReconnect = false → s.ReconnectsInTurn atHead
  | .checkTimeouts elapsed atHead =>
      s.reconnectsNow elapsed = true → s.ReconnectsInTurn atHead
  | .processCommand (.failedInProgress _) =>
      s.running = true → s.connect_state ≠ .notInProgress
  | .nextOrClose atHead =>
      s.running = true → s.queued = none ∨
        (checkConn s.serverURIcount s.MQTTVersion s.connect = true ∧ atHead = false)
  | _ => True

/-! ### The invariant -/

/-- The command belongs to the cycle and was for its last attempt. -/
structure Current (s : ConnectingState) (c : Cycle) (command : ConnectCommand) : Prop where
  callback : command.onFailure = c.onFailure
  follows : Follows s.serverURIcount s.MQTTVersion c.tried.length command

/-- Where the next attempt of a running cycle is. -/
inductive Turn (s : ConnectingState) (c : Cycle) : Prop
  | waiting
      {command : ConnectCommand}
      (state : s.connect_state = .notInProgress)
      (queued : s.queued = some command)
      (callback : command.onFailure = c.onFailure)
      (tries : Tries s.serverURIcount s.MQTTVersion c.tried.length command) : Turn s c
  | underWay
      (state : s.connect_state ≠ .notInProgress)
      (connect : Current s c s.connect)
      (queued : ∀ command, s.queued = some command → Current s c command) : Turn s c

structure Running (s : ConnectingState) (c : Cycle) : Prop where
  tried : c.tried = (List.range c.tried.length).map (pairAt s.MQTTVersion)
  failures : c.failures = 0
  connected : s.connected = false
  turn : Turn s c

structure Failed (s : ConnectingState) (c : Cycle) : Prop where
  tried : c.tried = pairs s.serverURIcount s.MQTTVersion
  failures : c.failures = if c.onFailure then 1 else 0
  idle : s.Idle

structure Succeeded (s : ConnectingState) (c : Cycle) : Prop where
  tried : c.tried <+: pairs s.serverURIcount s.MQTTVersion
  failures : c.failures = 0
  connected : s.connected = true
  state : s.connect_state = .notInProgress

/-- Where a cycle is, by its outcome. -/
inductive Stands (s : ConnectingState) (c : Cycle) : Prop
  | running (outcome : c.outcome = .running) (h : Running s c) : Stands s c
  | failed (outcome : c.outcome = .failed) (h : Failed s c) : Stands s c
  | succeeded (outcome : c.outcome = .succeeded) (h : Succeeded s c) : Stands s c

/-- There is a server, and the cycle that was started last is where it has to be. -/
structure InTurn (s : ConnectingState) : Prop where
  servers : 1 ≤ s.serverURIcount
  stands : ∀ c, s.cycle = some c → Stands s c

theorem InTurn.of_none
    {s : ConnectingState}
    (hn : 1 ≤ s.serverURIcount)
    (hcycle : s.cycle = none) :
    InTurn s := by
  refine ⟨hn, ?_⟩
  intro c hc
  rw [hcycle] at hc
  cases hc

theorem InTurn.of_some
    {s : ConnectingState} {c : Cycle}
    (hn : 1 ≤ s.serverURIcount)
    (hcycle : s.cycle = some c)
    (h : Stands s c) :
    InTurn s := by
  refine ⟨hn, ?_⟩
  intro c' hc'
  rw [hcycle] at hc'
  cases hc'
  exact h

theorem running_iff
    {s : ConnectingState} :
    s.running = true ↔ ∃ c, s.cycle = some c ∧ c.outcome = .running := by
  cases hc : s.cycle <;> simp [running, hc]

/-- The attempts of a running cycle are the first ones. -/
theorem Running.le_attempts
    {s : ConnectingState} {c : Cycle}
    (h : Running s c) :
    c.tried.length ≤ attempts s.serverURIcount s.MQTTVersion := by
  cases h.turn with
  | waiting _ _ _ tries => exact Nat.le_of_lt tries.lt
  | underWay _ connect _ => exact connect.follows.le

theorem Running.tried_prefix
    {s : ConnectingState} {c : Cycle}
    (h : Running s c) :
    c.tried <+: pairs s.serverURIcount s.MQTTVersion := by
  rw [h.tried]
  exact prefix_pairs h.le_attempts

theorem Running.good
    {s : ConnectingState} {c : Cycle}
    (houtcome : c.outcome = .running)
    (h : Running s c) :
    Cycle.Good s.serverURIcount s.MQTTVersion c := by
  refine ⟨h.tried_prefix, (pairs_nodup _ _).sublist h.tried_prefix.sublist, ?_, ?_⟩
  · intro hfailed
    rw [houtcome] at hfailed
    cases hfailed
  · rw [h.failures, houtcome]
    simp

theorem Failed.good
    {s : ConnectingState} {c : Cycle}
    (houtcome : c.outcome = .failed)
    (h : Failed s c) :
    Cycle.Good s.serverURIcount s.MQTTVersion c := by
  refine ⟨?_, ?_, fun _ => h.tried, ?_⟩
  · rw [h.tried]
  · rw [h.tried]
    exact pairs_nodup _ _
  · rw [h.failures, houtcome]
    simp

theorem Succeeded.good
    {s : ConnectingState} {c : Cycle}
    (houtcome : c.outcome = .succeeded)
    (h : Succeeded s c) :
    Cycle.Good s.serverURIcount s.MQTTVersion c := by
  refine ⟨h.tried, (pairs_nodup _ _).sublist h.tried.sublist, ?_, ?_⟩
  · intro hfailed
    rw [houtcome] at hfailed
    cases hfailed
  · rw [h.failures, houtcome]
    simp

theorem InTurn.of_running
    {s : ConnectingState}
    (h : InTurn s)
    (hrun : s.running = true) :
    ∃ c, s.cycle = some c ∧ c.outcome = .running ∧ Running s c := by
  obtain ⟨c, hc, ho⟩ := running_iff.mp hrun
  refine ⟨c, hc, ho, ?_⟩
  cases h.stands c hc with
  | running _ h => exact h
  | failed ho' _ => rw [ho] at ho'; cases ho'
  | succeeded ho' _ => rw [ho] at ho'; cases ho'

/-- Where the invariant holds, the cycle is as it has to be. -/
theorem InTurn.triesEveryServer
    {s : ConnectingState}
    (h : InTurn s) :
    s.TriesEveryServer := by
  constructor
  · intro c hc
    cases h.stands c hc with
    | running ho h => exact h.good ho
    | failed ho h => exact h.good ho
    | succeeded ho h => exact h.good ho
  · intro hrun
    obtain ⟨c, _, _, hr⟩ := h.of_running hrun
    cases hr.turn with
    | waiting _ queued _ _ => exact Or.inl (by rw [queued]; rfl)
    | underWay state _ _ => exact Or.inr state
  · intro hrun hstate
    obtain ⟨c, _, _, hr⟩ := h.of_running hrun
    cases hr.turn with
    | waiting state _ _ _ => exact absurd state hstate
    | underWay _ connect _ => exact connect.follows.index_lt
  · intro c hc hfailed
    cases h.stands c hc with
    | running ho _ => rw [hfailed] at ho; cases ho
    | failed _ hf => exact ⟨hf.idle.queued, hf.idle.state⟩
    | succeeded ho _ => rw [hfailed] at ho; cases ho

/-! ### Starting a cycle -/

/-- A command on an empty queue starts a cycle with its attempt. -/
theorem inTurn_started
    {s : ConnectingState} {command : ConnectCommand}
    (hn : 1 ≤ s.serverURIcount)
    (hstate : s.connect_state = .notInProgress)
    (hconnected : s.connected = false)
    (hqueued : s.queued = some command)
    (hcycle : s.cycle = some ⟨[], command.onFailure, 0, .running⟩)
    (htries : Tries s.serverURIcount s.MQTTVersion 0 command) :
    InTurn s :=
  InTurn.of_some hn hcycle
    (Stands.running rfl ⟨rfl, rfl, hconnected, Turn.waiting hstate hqueued rfl htries⟩)

theorem InTurn.connect
    {s : ConnectingState}
    (hidle : s.Idle)
    {serverURIcount MQTTVersion : Nat} {onSuccess onFailure automaticReconnect atHead : Bool}
    (hn : 1 ≤ serverURIcount) :
    InTurn (s.next
      (.connect serverURIcount MQTTVersion onSuccess onFailure automaticReconnect atHead)) := by
  have hempty : ¬ (s.queued.isSome = true ∧ atHead = true) := by
    rw [hidle.queued]
    simp
  simp only [next, addCommand, if_neg hempty]
  exact inTurn_started hn hidle.state hidle.connected rfl rfl
    (tries_zero hn rfl (fun _ => rfl))

/-- A command to reconnect is the one under way, up to the version. -/
theorem Current.reconnectCommand
    {s : ConnectingState} {c : Cycle}
    (h : Current s c s.connect)
    (hlast : s.MQTTVersion = MQTTVERSION_DEFAULT →
      s.connect.currentURI + 1 = s.serverURIcount ∧
        s.connect.MQTTVersion ≠ MQTTVERSION_3_1_1) :
    Current s c s.reconnectCommand := by
  unfold ConnectingState.reconnectCommand
  split
  · rename_i hv
    obtain ⟨huri, hversion⟩ := hlast hv
    exact ⟨h.callback, h.follows.restart huri hversion⟩
  · exact h

theorem InTurn.startCycle
    {s : ConnectingState} {atHead : Bool}
    (h : InTurn s)
    (hturn : s.ReconnectsInTurn atHead) :
    InTurn (s.startCycle s.reconnectCommand atHead) := by
  unfold ReconnectsInTurn at hturn
  by_cases hrun : s.running = true
  · rw [if_pos hrun] at hturn
    simp only [ConnectingState.startCycle, hrun, if_true]
    by_cases hdrop : s.queued.isSome = true ∧ atHead = true
    · rw [addCommand, if_pos hdrop]
      exact h
    · rw [addCommand, if_neg hdrop]
      have hnext := hturn.resolve_left hdrop
      obtain ⟨c, hc, ho, hr⟩ := h.of_running hrun
      cases hr.turn with
      | waiting state _ _ _ =>
          -- the same command again
          rw [if_pos state] at hnext
          rw [← hnext]
          exact h
      | underWay state connect _ =>
          rw [if_neg state] at hnext
          have hcommand := connect.reconnectCommand hnext
          refine InTurn.of_some h.servers hc
            (Stands.running ho ⟨hr.tried, hr.failures, hr.connected, ?_⟩)
          refine Turn.underWay state ⟨connect.callback, connect.follows⟩ ?_
          intro command hqueued
          cases hqueued
          exact ⟨hcommand.callback, hcommand.follows⟩
  · rw [if_neg hrun] at hturn
    obtain ⟨hidle, hfirst⟩ := hturn
    have hempty : ¬ (s.queued.isSome = true ∧ atHead = true) := by
      rw [hidle.queued]
      simp
    simp only [ConnectingState.startCycle, if_neg hrun, addCommand, if_neg hempty]
    refine inTurn_started h.servers hidle.state hidle.connected rfl rfl
      (tries_zero h.servers ?_ ?_)
    · rw [ConnectingState.reconnectCommand]
      split <;> exact hfirst
    · intro hv
      rw [ConnectingState.reconnectCommand, if_pos hv]

/-- The invariant does not depend on what only the retries look at. -/
theorem InTurn.flags
    {s : ConnectingState}
    (h : InTurn s)
    (shouldBeConnected retrying reconnectNow : Bool) :
    InTurn { s with shouldBeConnected, retrying, reconnectNow } := by
  refine ⟨h.servers, ?_⟩
  intro c hc
  cases h.stands c hc with
  | running ho hr =>
      refine Stands.running ho ⟨hr.tried, hr.failures, hr.connected, ?_⟩
      cases hr.turn with
      | waiting state queued callback tries =>
          exact Turn.waiting state queued callback tries
      | underWay state connect queued =>
          refine Turn.underWay state ⟨connect.callback, connect.follows⟩ ?_
          intro command hcommand
          exact ⟨(queued command hcommand).callback, (queued command hcommand).follows⟩
  | failed ho hf =>
      exact Stands.failed ho
        ⟨hf.tried, hf.failures, ⟨hf.idle.queued, hf.idle.state, hf.idle.connected⟩⟩
  | succeeded ho hs =>
      exact Stands.succeeded ho ⟨hs.tried, hs.failures, hs.connected, hs.state⟩

theorem InTurn.startConnectRetry
    {s : ConnectingState}
    (h : InTurn s) :
    InTurn s.startConnectRetry := by
  rw [ConnectingState.startConnectRetry]
  split
  · exact h.flags s.shouldBeConnected true s.reconnectNow
  · exact h

theorem InTurn.reconnect
    {s : ConnectingState} {atHead : Bool}
    (h : InTurn s)
    (hturn : s.Undisturbed (.reconnect atHead)) :
    InTurn (s.reconnect atHead) := by
  rw [ConnectingState.reconnect]
  split
  · split
    · exact h.flags s.shouldBeConnected true true
    · exact h
  · rename_i hmanual
    exact h.startCycle (hturn (by simpa using hmanual))

theorem InTurn.checkTimeouts
    {s : ConnectingState} {elapsed atHead : Bool}
    (h : InTurn s)
    (hturn : s.Undisturbed (.checkTimeouts elapsed atHead)) :
    InTurn (s.checkTimeouts elapsed atHead) := by
  rw [ConnectingState.checkTimeouts]
  split
  · rename_i hnow
    have hstarted := h.startCycle (hturn hnow)
    exact hstarted.flags _ _ false
  · exact h

/-! ### Carrying a cycle on -/

theorem addCommand_of
    {s : ConnectingState} {command : ConnectCommand} {atHead : Bool}
    (h : s.queued = none ∨ atHead = false) :
    s.addCommand command atHead = { s with queued := some command } := by
  rw [addCommand, if_neg]
  rintro ⟨hsome, hhead⟩
  rcases h with h | h
  · rw [h] at hsome
    cases hsome
  · rw [h] at hhead
    cases hhead

@[simp] theorem advance_onFailure
    (v : Nat) (command : ConnectCommand) :
    (advance v command).onFailure = command.onFailure := by
  rw [advance]
  split
  · split <;> rfl
  · rfl

/-- The attempts so far, with the command of the last one. -/
structure Tried (n v : Nat) (c : Cycle) (command : ConnectCommand) : Prop where
  running : c.outcome = .running
  tried : c.tried = (List.range c.tried.length).map (pairAt v)
  failures : c.failures = 0
  callback : command.onFailure = c.onFailure
  follows : Follows n v c.tried.length command

/-- The attempt of a queued command is the next one. -/
theorem Running.tries
    {s : ConnectingState} {c : Cycle} {command : ConnectCommand}
    (h : Running s c)
    (hrunning : c.outcome = .running)
    (hstate : s.connect_state = .notInProgress)
    (hqueued : s.queued = some command) :
    Tried s.serverURIcount s.MQTTVersion
      { c with
        tried := c.tried ++ [(command.currentURI, tryVersion s.MQTTVersion command)] }
      { command with MQTTVersion := tryVersion s.MQTTVersion command } := by
  cases h.turn with
  | underWay state _ _ => exact absurd hstate state
  | waiting _ queued callback tries =>
      rw [hqueued] at queued
      cases queued
      refine ⟨hrunning, ?_, h.failures, callback, ?_⟩
      · rw [List.length_append, List.length_singleton, List.range_succ, List.map_append, ← h.tried,
          List.map_singleton, tries.pair]
      · rw [List.length_append, List.length_singleton]
        exact tries.follows

/-- There is more to try, and the command for it is put on the queue. -/
theorem Tried.inTurn_next
    {s : ConnectingState} {c : Cycle} {command : ConnectCommand}
    (h : Tried s.serverURIcount s.MQTTVersion c command)
    (hn : 1 ≤ s.serverURIcount)
    (hcycle : s.cycle = some c)
    (hmore : checkConn s.serverURIcount s.MQTTVersion command = true)
    (hstate : s.connect_state = .notInProgress)
    (hconnected : s.connected = false)
    (hqueued : s.queued = some (advance s.MQTTVersion command)) :
    InTurn s := by
  refine InTurn.of_some hn hcycle (Stands.running h.running ⟨h.tried, h.failures, hconnected, ?_⟩)
  refine Turn.waiting hstate hqueued ?_ (h.follows.more hmore)
  rw [advance_onFailure]
  exact h.callback

/-- All pairs were tried, and the callback is called for the first time. -/
theorem Tried.inTurn_givenUp
    {s : ConnectingState} {c : Cycle} {command : ConnectCommand}
    (h : Tried s.serverURIcount s.MQTTVersion c command)
    (hn : 1 ≤ s.serverURIcount)
    (hlast : checkConn s.serverURIcount s.MQTTVersion command = false)
    (hidle : s.Idle)
    (hcycle : s.cycle = some { c with
      outcome := .failed, failures := c.failures + if command.onFailure then 1 else 0 }) :
    InTurn s := by
  refine InTurn.of_some hn hcycle (Stands.failed rfl ⟨?_, ?_, hidle⟩)
  · change c.tried = _
    rw [pairs_eq, ← h.follows.last hlast]
    exact h.tried
  · simp only [h.failures, h.callback, Nat.zero_add]

/-- A connect command whose attempt has failed at once. -/
theorem Tried.connectFailed
    {s : ConnectingState} {c : Cycle} {command : ConnectCommand}
    (h : Tried s.serverURIcount s.MQTTVersion c command)
    (hn : 1 ≤ s.serverURIcount)
    (hcycle : s.cycle = some c)
    (hidle : s.Idle) :
    InTurn (s.connectFailed command) := by
  simp only [ConnectingState.connectFailed]
  split
  · rename_i hmore
    rw [addCommand_of (Or.inr rfl)]
    exact Tried.inTurn_next h hn hcycle hmore hidle.state hidle.connected rfl
  · rename_i hlast
    refine InTurn.startConnectRetry (Tried.inTurn_givenUp h hn (Bool.eq_false_of_not_eq_true hlast) ?_ ?_)
    · exact ⟨hidle.queued, hidle.state, hidle.connected⟩
    · simp [giveUp, hcycle, h.running]

theorem connectFailed_of_none
    {s : ConnectingState} {command : ConnectCommand}
    (hn : 1 ≤ s.serverURIcount)
    (hcycle : s.cycle = none) :
    InTurn (s.connectFailed command) := by
  simp only [ConnectingState.connectFailed]
  split
  · rw [addCommand_of (Or.inr rfl)]
    exact InTurn.of_none hn hcycle
  · refine InTurn.startConnectRetry (InTurn.of_none hn ?_)
    simp [giveUp, hcycle]

/-- The connect command is dropped while another attempt goes on, or the client is connected. -/
theorem InTurn.processCommand_busy
    {s : ConnectingState} {command : ConnectCommand}
    (h : InTurn s)
    (hqueued : s.queued = some command)
    (hbusy : s.connect_state ≠ .notInProgress ∨ s.connected = true) :
    InTurn { s with queued := none, connect := command } := by
  refine ⟨h.servers, ?_⟩
  intro c hc
  cases h.stands c hc with
  | running ho hr =>
      refine Stands.running ho ⟨hr.tried, hr.failures, hr.connected, ?_⟩
      cases hr.turn with
      | waiting state _ _ _ =>
          rcases hbusy with hstate | hconnected
          · exact absurd state hstate
          · rw [hr.connected] at hconnected
            cases hconnected
      | underWay state _ queued =>
          have hcommand := queued command hqueued
          refine Turn.underWay state ⟨hcommand.callback, hcommand.follows⟩ ?_
          intro _ hnone
          cases hnone
  | failed _ hf =>
      rw [hf.idle.queued] at hqueued
      cases hqueued
  | succeeded ho hs =>
      exact Stands.succeeded ho ⟨hs.tried, hs.failures, hs.connected, hs.state⟩

/-- An attempt that goes on. -/
theorem Tried.inProgress
    {s : ConnectingState} {c : Cycle} {command : ConnectCommand} {state : ConnectState}
    (h : Tried s.serverURIcount s.MQTTVersion c command)
    (hn : 1 ≤ s.serverURIcount)
    (hcycle : s.cycle = some c)
    (hidle : s.Idle)
    (hstage : Stage state) :
    InTurn { s with connect_state := state, connect := command } := by
  refine InTurn.of_some hn hcycle
    (Stands.running h.running ⟨h.tried, h.failures, hidle.connected, ?_⟩)
  refine Turn.underWay hstage.1 ⟨h.callback, h.follows⟩ ?_
  intro _ hqueued
  rw [show _ = none from hidle.queued] at hqueued
  cases hqueued

theorem InTurn.processCommand
    {s : ConnectingState} {command : ConnectCommand} {result : ConnectResult}
    (h : InTurn s)
    (hqueued : s.queued = some command)
    (hadmissible : s.Admissible (.processCommand result))
    (hundisturbed : s.Undisturbed (.processCommand result)) :
    InTurn (s.processCommand command result) := by
  simp only [ConnectingState.processCommand]
  by_cases hbusy : s.connect_state ≠ .notInProgress ∨ s.connected = true
  · rw [if_pos hbusy]
    exact h.processCommand_busy hqueued hbusy
  · rw [if_neg hbusy]
    obtain ⟨hstate, hconnected⟩ := not_or.mp hbusy
    rw [ne_eq, not_not] at hstate
    rw [Bool.not_eq_true] at hconnected
    rcases Option.eq_none_or_eq_some s.cycle with hc | ⟨c, hc⟩
    · have hnone : ({ s with queued := none }.attempt
          (command.currentURI, tryVersion s.MQTTVersion command)).cycle = none := by
        simp [attempt, hc]
      cases result with
      | inProgress state => exact InTurn.of_none h.servers hnone
      | failed => exact connectFailed_of_none h.servers hnone
      | failedInProgress state => exact connectFailed_of_none h.servers hnone
    · cases h.stands c hc with
      | failed _ hf =>
          rw [hf.idle.queued] at hqueued
          cases hqueued
      | succeeded _ hs =>
          rw [hs.connected] at hconnected
          cases hconnected
      | running ho hr =>
          have htried := hr.tries ho hstate hqueued
          have hcycle : ({ s with queued := none }.attempt
              (command.currentURI, tryVersion s.MQTTVersion command)).cycle =
                some { c with tried :=
                  c.tried ++ [(command.currentURI, tryVersion s.MQTTVersion command)] } := by
            simp [attempt, hc, ho]
          have hidle : ({ s with queued := none }.attempt
              (command.currentURI, tryVersion s.MQTTVersion command)).Idle :=
            ⟨rfl, hstate, hconnected⟩
          cases result with
          | inProgress state =>
              exact Tried.inProgress htried h.servers hcycle hidle hadmissible.2
          | failed => exact Tried.connectFailed htried h.servers hcycle hidle
          | failedInProgress state =>
              exact absurd hstate (hundisturbed (running_iff.mpr ⟨c, hc, ho⟩))

/-- The next stage of an attempt. -/
theorem InTurn.connecting
    {s : ConnectingState} {state : ConnectState}
    (h : InTurn s)
    (hadmissible : s.Admissible (.connecting state)) :
    InTurn { s with connect_state := state } := by
  obtain ⟨hbefore, hafter⟩ := hadmissible
  refine ⟨h.servers, ?_⟩
  intro c hc
  cases h.stands c hc with
  | running ho hr =>
      refine Stands.running ho ⟨hr.tried, hr.failures, hr.connected, ?_⟩
      cases hr.turn with
      | waiting state _ _ _ => exact absurd state hbefore.1
      | underWay _ connect queued =>
          refine Turn.underWay hafter.1 ⟨connect.callback, connect.follows⟩ ?_
          intro command hcommand
          exact ⟨(queued command hcommand).callback, (queued command hcommand).follows⟩
  | failed _ hf => exact absurd hf.idle.state hbefore.1
  | succeeded _ hs => exact absurd hs.state hbefore.1

/-- The end of the attempt under way, in a running cycle. -/
theorem Running.nextOrClose
    {s : ConnectingState} {c : Cycle} {atHead : Bool}
    (h : Running s c)
    (hn : 1 ≤ s.serverURIcount)
    (hcycle : s.cycle = some c)
    (hrunning : c.outcome = .running)
    (hadmissible : s.Admissible (.nextOrClose atHead))
    (hundisturbed : s.queued = none ∨
      (checkConn s.serverURIcount s.MQTTVersion s.connect = true ∧ atHead = false)) :
    InTurn (s.nextOrClose atHead) := by
  have hlost : ¬ s.connected = true := by simp [h.connected]
  cases h.turn with
  | waiting state _ _ _ =>
      rcases hadmissible with hstate | hconnected
      · exact absurd state hstate
      · exact absurd hconnected hlost
  | underWay _ connect _ =>
      have htried : Tried s.serverURIcount s.MQTTVersion c s.connect :=
        ⟨hrunning, h.tried, h.failures, connect.callback, connect.follows⟩
      simp only [ConnectingState.nextOrClose, if_neg hlost]
      split
      · rename_i hmore
        rw [addCommand_of (s := s.closeOnly) (hundisturbed.imp_right And.right)]
        exact Tried.inTurn_next htried hn hcycle hmore rfl rfl rfl
      · rename_i hlast
        have hempty : s.queued = none := by
          rcases hundisturbed with hempty | ⟨hmore, _⟩
          · exact hempty
          · exact absurd hmore hlast
        have hgiven : (s.closeOnly.giveUp s.connect.onFailure).cycle = some { c with
            outcome := .failed,
            failures := c.failures + if s.connect.onFailure then 1 else 0 } := by
          simp [closeOnly, giveUp, hcycle, hrunning]
        apply InTurn.startConnectRetry
        split
        · exact Tried.inTurn_givenUp htried hn (Bool.eq_false_of_not_eq_true hlast)
            ⟨hempty, rfl, rfl⟩ hgiven
        · exact Tried.inTurn_givenUp htried hn (Bool.eq_false_of_not_eq_true hlast)
            ⟨hempty, rfl, rfl⟩ hgiven

/-- What is closed outside a cycle starts none. -/
theorem nextOrClose_of_none
    {s : ConnectingState} {atHead : Bool}
    (hn : 1 ≤ s.serverURIcount)
    (hcycle : s.connected = true ∨ s.cycle = none) :
    InTurn (s.nextOrClose atHead) := by
  simp only [ConnectingState.nextOrClose]
  generalize ht : (if s.connected = true then { s with cycle := none } else s) = t
  have hnone : t.cycle = none := by
    rw [← ht]
    split
    · rfl
    · rename_i hlost
      exact hcycle.resolve_left hlost
  have hservers : 1 ≤ t.serverURIcount := by
    rw [← ht]
    split <;> exact hn
  split
  · rw [addCommand]
    split <;> exact InTurn.of_none hservers hnone
  · have hgiven : (t.closeOnly.giveUp t.connect.onFailure).cycle = none := by
      simp [closeOnly, giveUp, hnone]
    apply InTurn.startConnectRetry
    split
    · exact InTurn.of_none hservers hgiven
    · exact InTurn.of_none hservers hgiven

theorem InTurn.nextOrClose
    {s : ConnectingState} {atHead : Bool}
    (h : InTurn s)
    (hadmissible : s.Admissible (.nextOrClose atHead))
    (hundisturbed : s.Undisturbed (.nextOrClose atHead)) :
    InTurn (s.nextOrClose atHead) := by
  rcases Option.eq_none_or_eq_some s.cycle with hc | ⟨c, hc⟩
  · exact nextOrClose_of_none h.servers (Or.inr hc)
  · cases h.stands c hc with
    | running ho hr =>
        exact hr.nextOrClose h.servers hc ho hadmissible
          (hundisturbed (running_iff.mpr ⟨c, hc, ho⟩))
    | failed _ hf =>
        rcases hadmissible with hstate | hconnected
        · exact absurd hf.idle.state hstate
        · rw [hf.idle.connected] at hconnected
          cases hconnected
    | succeeded _ hs => exact nextOrClose_of_none h.servers (Or.inl hs.connected)

theorem InTurn.completeConnection
    {s : ConnectingState}
    (h : InTurn s)
    (hadmissible : s.Admissible .connack) :
    InTurn s.completeConnection := by
  rcases Option.eq_none_or_eq_some s.cycle with hc | ⟨c, hc⟩
  · refine InTurn.of_none h.servers ?_
    simp [ConnectingState.completeConnection, hc]
  · cases h.stands c hc with
    | running ho hr =>
        have hcycle : s.completeConnection.cycle = some { c with outcome := .succeeded } := by
          simp [ConnectingState.completeConnection, hc, ho]
        exact InTurn.of_some h.servers hcycle
          (Stands.succeeded rfl ⟨hr.tried_prefix, hr.failures, rfl, rfl⟩)
    | failed _ hf =>
        rw [Admissible, hf.idle.state] at hadmissible
        cases hadmissible
    | succeeded _ hs =>
        rw [Admissible, hs.state] at hadmissible
        cases hadmissible

/-- Every step that is undisturbed keeps the cycle in its order. -/
theorem InTurn.step
    {s t : ConnectingState} {e : ConnectEvent}
    (h : InTurn s)
    (hundisturbed : s.Undisturbed e)
    (hstep : Step s e t) :
    InTurn t := by
  obtain ⟨hadmissible, rfl⟩ := hstep
  cases e with
  | connect serverURIcount MQTTVersion onSuccess onFailure automaticReconnect atHead =>
      exact InTurn.connect hundisturbed hadmissible
  | reconnect atHead => exact h.reconnect hundisturbed
  | checkTimeouts elapsed atHead => exact h.checkTimeouts hundisturbed
  | processCommand result =>
      obtain ⟨command, hqueued⟩ := Option.isSome_iff_exists.mp hadmissible.1
      simp only [next, hqueued]
      exact h.processCommand hqueued hadmissible hundisturbed
  | connecting state => exact h.connecting hadmissible
  | nextOrClose atHead => exact h.nextOrClose hadmissible hundisturbed
  | connack => exact h.completeConnection hadmissible
  | disconnect closes =>
      cases closes with
      | true => exact InTurn.of_none h.servers rfl
      | false => exact InTurn.of_none h.servers rfl

instance (state : ConnectState) : Decidable (Stage state) :=
  inferInstanceAs (Decidable (_ ∧ _))

instance (s : ConnectingState) : (e : ConnectEvent) → Decidable (s.Admissible e)
  | .connect _ _ _ _ _ _ => inferInstanceAs (Decidable (_ ≤ _))
  | .reconnect _ => isTrue trivial
  | .checkTimeouts _ _ => isTrue trivial
  | .processCommand (.inProgress _) => inferInstanceAs (Decidable (_ ∧ _))
  | .processCommand .failed => inferInstanceAs (Decidable (_ ∧ _))
  | .processCommand (.failedInProgress _) => inferInstanceAs (Decidable (_ ∧ _))
  | .connecting _ => inferInstanceAs (Decidable (_ ∧ _))
  | .nextOrClose _ => inferInstanceAs (Decidable (_ ∨ _))
  | .connack => inferInstanceAs (Decidable (_ = _))
  | .disconnect _ => inferInstanceAs (Decidable (_ ∨ _))

instance (s : ConnectingState) : Decidable s.Idle :=
  decidable_of_iff (s.queued = none ∧ s.connect_state = .notInProgress ∧ s.connected = false)
    ⟨fun ⟨hq, hs, hc⟩ => ⟨hq, hs, hc⟩, fun h => ⟨h.queued, h.state, h.connected⟩⟩

instance (s : ConnectingState) (atHead : Bool) : Decidable (s.ReconnectsInTurn atHead) :=
  inferInstanceAs (Decidable (ite _ _ _))

instance (s : ConnectingState) : (e : ConnectEvent) → Decidable (s.Undisturbed e)
  | .connect _ _ _ _ _ _ => inferInstanceAs (Decidable s.Idle)
  | .reconnect _ => inferInstanceAs (Decidable (_ → _))
  | .checkTimeouts _ _ => inferInstanceAs (Decidable (_ → _))
  | .processCommand (.inProgress _) => isTrue trivial
  | .processCommand .failed => isTrue trivial
  | .processCommand (.failedInProgress _) => inferInstanceAs (Decidable (_ → _))
  | .connecting _ => isTrue trivial
  | .nextOrClose _ => inferInstanceAs (Decidable (_ → _))
  | .connack => isTrue trivial
  | .disconnect _ => isTrue trivial

theorem runs_trace
    {s : ConnectingState} {events : List ConnectEvent}
    (hadm : ∀ x ∈ trace next s events, x.pre.Admissible x.event) :
    Runs Step s (trace next s events) (events.foldl next s) :=
  Runs.of_trace s events fun x hx => ⟨hadm x hx, post_of_mem_trace hx⟩

/--
Two servers, with a choice of versions: a failure at once, a timeout, a CONNACK
that refuses, and another failure at once.
-/
def fourFailures : List ConnectEvent :=
  [.connect 2 MQTTVERSION_DEFAULT true true true false, .processCommand .failed,
    .processCommand (.inProgress .tcpInProgress), .nextOrClose false,
    .processCommand (.inProgress .tcpInProgress), .connecting .waitForConnack,
    .nextOrClose false, .processCommand .failed]

/--
In every run of a client whose steps are undisturbed, each cycle tries the
servers and versions in their order, each pair once, until one succeeds or all
have failed; the failure callback is called once, at that end.
-/
theorem tries_every_server
    {t : ConnectingState} {tr : List (Transition ConnectingState ConnectEvent)}
    (hrun : Runs Step fresh tr t)
    (hundisturbed : ∀ x ∈ tr, x.pre.Undisturbed x.event) :
    (∀ x ∈ tr, x.post.TriesEveryServer) ∧ t.TriesEveryServer := by
  have hfresh : InTurn fresh := InTurn.of_none (by decide) rfl
  obtain ⟨hall, hend⟩ := hrun.invariant_of
    (fun _ _ _ h hC hstep => h.step hC hstep) hfresh hundisturbed
  exact ⟨fun x hx => (hall x hx).2.triesEveryServer, hend.triesEveryServer⟩

/-- All four pairs are tried, and the callback is called once. -/
theorem tries_every_server_fourFailures :
    (fourFailures.foldl next fresh).cycle =
        some ⟨[(0, 4), (0, 3), (1, 4), (1, 3)], true, 1, .failed⟩ ∧
      (fourFailures.foldl next fresh).TriesEveryServer :=
  ⟨by decide, (tries_every_server (runs_trace (by decide)) (by decide)).2⟩

/-- The automatic reconnect that follows, and its first attempt. -/
def thenReconnect : List ConnectEvent :=
  fourFailures ++ [.checkTimeouts true false, .processCommand .failed]

/-- It starts at the last server. -/
theorem reconnect_skips_servers :
    ∃ tr t, Runs Step fresh tr t ∧ t.serverURIcount = 2 ∧
      t.cycle = some ⟨[(1, 4)], true, 0, .running⟩ ∧ ¬t.TriesEveryServer := by
  refine ⟨_, thenReconnect.foldl next fresh, runs_trace (by decide), by decide, by decide, ?_⟩
  intro h
  exact absurd (h.good _ rfl).in_order (by decide)

end ConnectingState
end MQTTAsync
end PahoMqtt
