import PahoMqtt.Reconnecting

/-!
# A client keeps trying to connect

A client that should be connected, and may reconnect automatically, always has
a connection, an attempt or a connect command, or the time of its next attempt
is set.  The interval to that doubles from the minimum up to the maximum, give
or take a fifth.
-/

namespace PahoMqtt
namespace MQTTAsync

open Keepalive (MQTTTime_difftime)

namespace Reconnecting

/-- A connect command is on the queue. -/
def Queued (s : Reconnecting) : Prop :=
  ∃ command, ConnectionCommand.connect command ∈ s.commands

/-- There is a connection, or one is on its way. -/
def Pursues (s : Reconnecting) : Prop :=
  s.automaticReconnect = true → s.shouldBeConnected = true →
    s.connected = true ∨ s.connect_state ≠ .notInProgress ∨ s.Queued ∨ s.retrying = true

/-- No disconnect of the application is left to be done. -/
structure Internal (s : Reconnecting) : Prop where
  commands : ∀ command, ConnectionCommand.disconnect command ∈ s.commands →
    command.internal = true
  disconnecting : s.connect_state = .disconnecting → s.disconnect.internal = true

/-! ### Commands on the queue -/

theorem insertFirst_frame
    (s : Reconnecting) (command : ConnectionCommand) (atHead : Bool) :
    ∃ commands, s.insertFirst command atHead = { s with commands } := by
  rw [insertFirst]
  split <;> exact ⟨_, rfl⟩

theorem addCommand_frame
    (s : Reconnecting) (command : ConnectionCommand) (atHead : Bool) :
    ∃ commands, s.addCommand command atHead = { s with commands } := by
  cases command with
  | connect c => exact insertFirst_frame s _ atHead
  | disconnect dis =>
      rw [addCommand]
      split
      · exact insertFirst_frame s _ atHead
      · exact ⟨_, rfl⟩

theorem mem_insertFirst
    {s : Reconnecting} {command x : ConnectionCommand} {atHead : Bool}
    (hx : x ∈ (s.insertFirst command atHead).commands) :
    x = command ∨ x ∈ s.commands := by
  rw [insertFirst] at hx
  split at hx
  · exact .inr hx
  · exact (List.mem_cons.mp hx).imp_right List.mem_of_mem_eraseP

theorem mem_addCommand
    {s : Reconnecting} {command x : ConnectionCommand} {atHead : Bool}
    (hx : x ∈ (s.addCommand command atHead).commands) :
    x = command ∨ x ∈ s.commands := by
  cases command with
  | connect c => exact mem_insertFirst hx
  | disconnect dis =>
      rw [addCommand] at hx
      split at hx
      · exact mem_insertFirst hx
      · exact (List.mem_append.mp hx).symm.imp_left List.mem_singleton.mp

/-- A connect command is put on the queue, or one heads it. -/
theorem queued_connect
    (s : Reconnecting) (command : ConnectCommand) (atHead : Bool) :
    (s.addCommand (.connect command) atHead).Queued := by
  rw [addCommand, insertFirst]
  split
  case isTrue hhead =>
    obtain ⟨_, hhead⟩ := Bool.and_eq_true_iff.mp hhead
    cases hfirst : s.commands.head? with
    | none =>
        rw [hfirst] at hhead
        exact absurd hhead Bool.false_ne_true
    | some x =>
        rw [hfirst] at hhead
        cases x with
        | connect c => exact ⟨c, List.mem_of_head? hfirst⟩
        | disconnect dis => exact absurd hhead Bool.false_ne_true
  case isFalse => exact ⟨command, List.mem_cons_self⟩

/-- A disconnect command takes no connect command off the queue. -/
theorem queued_disconnect
    {s : Reconnecting} (command : DisconnectCommand) (atHead : Bool)
    (h : s.Queued) :
    (s.addCommand (.disconnect command) atHead).Queued := by
  obtain ⟨c, hc⟩ := h
  refine ⟨c, ?_⟩
  rw [addCommand, insertFirst]
  split
  · split
    · exact hc
    · exact List.mem_cons_of_mem _
        ((List.mem_eraseP_of_neg (fun h => Bool.false_ne_true h)).mpr hc)
  · exact List.mem_append_left _ hc

/-! ### Pursuing a connection -/

theorem pursues_connect
    (s : Reconnecting) (command : ConnectCommand) (atHead : Bool) :
    (s.addCommand (.connect command) atHead).Pursues := fun _ _ =>
  .inr (.inr (.inl (queued_connect s command atHead)))

/-- Once an attempt has failed, the next is due some time. -/
theorem pursues_startConnectRetry
    (s : Reconnecting) (now r : Int) :
    (s.startConnectRetry now r).Pursues := by
  rw [startConnectRetry]
  split
  case isTrue => exact fun _ _ => .inr (.inr (.inr rfl))
  case isFalse h =>
    intro hauto hshould
    exact absurd (Bool.and_eq_true_iff.mpr ⟨hauto, hshould⟩) h

theorem pursues_nextOrClose
    (s : Reconnecting) (now r : Int) (atHead : Bool) :
    (s.nextOrClose now r atHead).Pursues := by
  rw [nextOrClose]
  split
  · exact pursues_connect _ _ atHead
  · exact pursues_startConnectRetry _ now r

theorem pursues_connectFailed
    (s : Reconnecting) (command : ConnectCommand) (now r : Int) (atHead : Bool) :
    (s.connectFailed command now r atHead).Pursues := by
  dsimp only [connectFailed]
  split
  · exact pursues_connect _ _ atHead
  · exact pursues_startConnectRetry _ now r

theorem pursues_checkDisconnect
    {s : Reconnecting} {command : DisconnectCommand} (finished : Bool) (now r : Int)
    (h : s.Pursues)
    (hinternal : command.internal = true) :
    (s.checkDisconnect command finished now r).Pursues := by
  rw [checkDisconnect]
  split
  · exact pursues_startConnectRetry _ now r
  · exact h

theorem pursues_processConnect
    {s : Reconnecting} {command : ConnectCommand} {result : ConnectResult}
    {now r : Int} {atHead : Bool}
    (hstage : ∀ state, result = .inProgress state → ConnectingState.Stage state) :
    (s.processConnect command result now r atHead).Pursues := by
  rw [processConnect]
  split
  case isTrue h => exact fun _ _ => h.elim (fun h => .inr (.inl h)) .inl
  case isFalse =>
    cases result with
    | inProgress state => exact fun _ _ => .inr (.inl (hstage state rfl).1)
    | failed => exact pursues_connectFailed _ _ now r atHead
    | failedInProgress state => exact pursues_connectFailed _ _ now r atHead

theorem pursues_processDisconnect
    {s : Reconnecting} {command : DisconnectCommand} (finished : Bool) (now r : Int)
    (h : s.Pursues)
    (hinternal : command.internal = true) :
    (s.processDisconnect command finished now r).Pursues := by
  dsimp only [processDisconnect]
  split
  · exact pursues_checkDisconnect finished now r (fun _ _ => .inr (.inl nofun)) hinternal
  · exact h

theorem checkDisconnecting_cases
    (s : Reconnecting) (finished : Bool) (now r : Int)
    (hinternal : s.connect_state = .disconnecting → s.disconnect.internal = true) :
    s.checkDisconnecting finished now r = s ∨
      s.checkDisconnecting finished now r = s.closeOnly.startConnectRetry now r := by
  rw [checkDisconnecting, checkDisconnect]
  split
  case isTrue h =>
    split
    · rw [if_pos (hinternal h)]
      exact .inr rfl
    · exact .inl rfl
  case isFalse => exact .inl rfl

theorem pursues_checkTimeouts
    {s : Reconnecting} (finished timedOut : Bool) (now r : Int) (atHead : Bool)
    (h : s.Pursues)
    (hinternal : s.connect_state = .disconnecting → s.disconnect.internal = true) :
    (s.checkTimeouts finished timedOut now r atHead).Pursues := by
  dsimp only [checkTimeouts]
  split
  case isFalse => exact h
  case isTrue =>
    have hchecked : (checkDisconnecting { s with last := now } finished now r).Pursues := by
      rcases checkDisconnecting_cases { s with last := now } finished now r hinternal with
        heq | heq
      · rw [heq]
        exact h
      · rw [heq]
        exact pursues_startConnectRetry _ now r
    split
    · exact pursues_nextOrClose _ now r atHead
    · split
      · exact pursues_connect _ _ atHead
      · exact hchecked

/-! ### Disconnects of the application -/

theorem Internal.of_commands
    {s : Reconnecting}
    (h : s.Internal) {t : Reconnecting}
    (hcommands : ∀ x ∈ t.commands, x ∈ s.commands ∨ ∃ c, x = .connect c)
    (hstate : t.connect_state ≠ .disconnecting ∨
      t.connect_state = s.connect_state ∧ t.disconnect = s.disconnect) :
    t.Internal where
  commands := by
    intro command hcommand
    rcases hcommands _ hcommand with hmem | ⟨c, hc⟩
    · exact h.commands command hmem
    · cases hc
  disconnecting := by
    intro hdisconnecting
    rcases hstate with hne | ⟨heq, hsame⟩
    · exact absurd hdisconnecting hne
    · rw [hsame]
      exact h.disconnecting (heq ▸ hdisconnecting)

theorem Internal.addConnect
    {s : Reconnecting}
    (h : s.Internal) (command : ConnectCommand) (atHead : Bool) :
    (s.addCommand (.connect command) atHead).Internal := by
  refine h.of_commands (fun x hx => ?_) (.inr ?_)
  · exact (mem_addCommand hx).symm.imp_right fun hc => ⟨command, hc⟩
  · obtain ⟨commands, heq⟩ := addCommand_frame s (.connect command) atHead
    exact heq ▸ ⟨rfl, rfl⟩

@[simp] theorem startConnectRetry_commands
    (s : Reconnecting) (now r : Int) :
    (s.startConnectRetry now r).commands = s.commands := by
  rw [startConnectRetry]
  split <;> rfl

@[simp] theorem startConnectRetry_connect_state
    (s : Reconnecting) (now r : Int) :
    (s.startConnectRetry now r).connect_state = s.connect_state := by
  rw [startConnectRetry]
  split <;> rfl

@[simp] theorem startConnectRetry_disconnect
    (s : Reconnecting) (now r : Int) :
    (s.startConnectRetry now r).disconnect = s.disconnect := by
  rw [startConnectRetry]
  split <;> rfl

theorem Internal.startConnectRetry
    {s : Reconnecting}
    (h : s.Internal) (now r : Int) :
    (s.startConnectRetry now r).Internal :=
  h.of_commands (fun x hx => .inl (by simpa using hx)) (.inr (by simp))

theorem Internal.closeOnly
    {s : Reconnecting}
    (h : s.Internal) :
    s.closeOnly.Internal :=
  h.of_commands (fun _ hx => .inl hx) (.inl nofun)

theorem Internal.failureCalled
    {s : Reconnecting}
    (h : s.Internal) :
    s.failureCalled.Internal := by
  rw [Reconnecting.failureCalled]
  split
  · exact { h with }
  · exact h

theorem Internal.nextOrClose
    {s : Reconnecting}
    (h : s.Internal) (now r : Int) (atHead : Bool) :
    (s.nextOrClose now r atHead).Internal := by
  rw [Reconnecting.nextOrClose]
  split
  · exact h.closeOnly.addConnect _ atHead
  · exact h.closeOnly.failureCalled.startConnectRetry now r

theorem Internal.checkTimeouts
    {s : Reconnecting}
    (h : s.Internal) (finished timedOut : Bool) (now r : Int) (atHead : Bool) :
    (s.checkTimeouts finished timedOut now r atHead).Internal := by
  dsimp only [Reconnecting.checkTimeouts]
  split
  case isFalse => exact h
  case isTrue =>
    have hlast : Internal { s with last := now } := { h with }
    have hchecked : (checkDisconnecting { s with last := now } finished now r).Internal := by
      rcases checkDisconnecting_cases { s with last := now } finished now r h.disconnecting with
        heq | heq
      · rw [heq]
        exact hlast
      · rw [heq]
        exact hlast.closeOnly.startConnectRetry now r
    split
    · exact hchecked.nextOrClose now r atHead
    · split
      · exact { hchecked.addConnect _ atHead with }
      · exact hchecked

theorem Internal.connectFailed
    {s : Reconnecting}
    (h : s.Internal)
    (hconnected : s.connected = false) (command : ConnectCommand) (now r : Int) (atHead : Bool) :
    (s.connectFailed command now r atHead).Internal := by
  have hcalled : Internal { s.disconnect1 false 0 now atHead with shouldBeConnected := true } := by
    simp only [disconnect1, hconnected]
    exact { h with }
  dsimp only [Reconnecting.connectFailed]
  split
  · exact hcalled.addConnect _ atHead
  · refine Internal.startConnectRetry ?_ now r
    exact { hcalled with }

theorem Internal.processConnect
    {s : Reconnecting}
    (h : s.Internal) (command : ConnectCommand) {result : ConnectResult} (now r : Int)
    (atHead : Bool)
    (hstage : ∀ state, result = .inProgress state ∨ result = .failedInProgress state →
      ConnectingState.Stage state) :
    (s.processConnect command result now r atHead).Internal := by
  rw [Reconnecting.processConnect]
  split
  case isTrue => exact { h with }
  case isFalse hfree =>
    have hconnected : s.connected = false := by
      rw [← Bool.not_eq_true]
      exact fun hc => hfree (.inr hc)
    cases result with
    | inProgress state =>
        exact h.of_commands (fun _ hx => .inl hx) (.inl (hstage state (.inl rfl)).2)
    | failed => exact h.connectFailed hconnected _ now r atHead
    | failedInProgress state =>
        have hs : Internal { s with connect_state := state } :=
          h.of_commands (fun _ hx => .inl hx) (.inl (hstage state (.inr rfl)).2)
        exact hs.connectFailed hconnected _ now r atHead

@[simp] theorem failureCalled_commands
    (s : Reconnecting) :
    s.failureCalled.commands = s.commands := by
  rw [failureCalled]
  split <;> rfl

theorem checkDisconnect_commands
    (s : Reconnecting) (command : DisconnectCommand) (finished : Bool) (now r : Int) :
    (s.checkDisconnect command finished now r).commands = s.commands := by
  rw [checkDisconnect]
  split
  · split
    · exact startConnectRetry_commands s.closeOnly now r
    · rfl
  · rfl

theorem processDisconnect_commands
    (s : Reconnecting) (command : DisconnectCommand) (finished : Bool) (now r : Int) :
    (s.processDisconnect command finished now r).commands = s.commands := by
  dsimp only [processDisconnect]
  split
  · rw [checkDisconnect_commands]
    dsimp only
    split
    · exact failureCalled_commands s
    · rfl
  · rfl

theorem Internal.processDisconnect
    {s : Reconnecting} {command : DisconnectCommand}
    (h : s.Internal)
    (hinternal : command.internal = true) (finished : Bool) (now r : Int) :
    (s.processDisconnect command finished now r).Internal where
  commands := by
    rw [processDisconnect_commands]
    exact h.commands
  disconnecting := fun _ => hinternal

theorem Internal.disconnect1
    {s : Reconnecting}
    (h : s.Internal) (timeout now : Int) (atHead : Bool) :
    (s.disconnect1 true timeout now atHead).Internal := by
  rw [Reconnecting.disconnect1, if_pos rfl]
  split
  case isTrue =>
    obtain ⟨commands, heq⟩ := addCommand_frame s (.disconnect ⟨true, timeout, now⟩) atHead
    refine ⟨fun command hcommand => ?_, fun hstate => ?_⟩
    · rcases mem_addCommand hcommand with heq | hmem
      · cases heq
        rfl
      · exact h.commands command hmem
    · rw [heq] at hstate ⊢
      exact h.disconnecting hstate
  case isFalse => exact h

theorem pursues_disconnect1
    {s : Reconnecting} (timeout now : Int) (atHead : Bool)
    (h : s.Pursues) :
    (s.disconnect1 true timeout now atHead).Pursues := by
  rw [disconnect1, if_pos rfl]
  split
  case isTrue hconnected =>
    obtain ⟨commands, heq⟩ := addCommand_frame s (.disconnect ⟨true, timeout, now⟩) atHead
    rw [heq]
    exact fun _ _ => .inl hconnected
  case isFalse => exact h

/-! ### Steps and runs -/

/-- The application does not disconnect. -/
def Persists : ReconnectEvent → Prop
  | .disconnect _ _ _ => False
  | _ => True

theorem pursues_step
    {s t : Reconnecting} {e : ReconnectEvent}
    (hs : s.Pursues ∧ s.Internal)
    (hpersists : Persists e)
    (hstep : Step s e t) :
    t.Pursues ∧ t.Internal := by
  obtain ⟨hpursues, hinternal⟩ := hs
  obtain ⟨hadmissible, rfl⟩ := hstep
  cases e with
  | connect options atHead =>
      refine ⟨pursues_connect _ _ atHead, ?_⟩
      refine Internal.addConnect ?_ _ atHead
      exact { hinternal with }
  | reconnect atHead =>
      dsimp only [next, reconnect]
      split
      case isTrue =>
        split
        case isTrue =>
          split
          case isTrue hretrying =>
            exact ⟨fun _ _ => .inr (.inr (.inr hretrying)), { hinternal with }⟩
          case isFalse => exact ⟨fun _ _ => .inr (.inr (.inr rfl)), { hinternal with }⟩
        case isFalse => exact ⟨hpursues, hinternal⟩
      case isFalse => exact ⟨pursues_connect _ _ atHead, hinternal.addConnect _ atHead⟩
  | disconnect timeout now atHead => exact hpersists.elim
  | disconnectInternal now atHead =>
      exact ⟨pursues_disconnect1 0 now atHead hpursues, hinternal.disconnect1 0 now atHead⟩
  | processCommand result finished now r atHead =>
      have hstage : ∀ state, result = .inProgress state ∨ result = .failedInProgress state →
          ConnectingState.Stage state := by
        rintro state (rfl | rfl)
        · exact hadmissible.2
        · exact hadmissible.2
      rw [next, processCommand]
      cases hcommands : s.commands with
      | nil => exact ⟨hpursues, hinternal⟩
      | cons command commands =>
          have hrest : Internal { s with commands } :=
            hinternal.of_commands (fun x hx => .inl (hcommands ▸ List.mem_cons_of_mem _ hx))
              (.inr ⟨rfl, rfl⟩)
          cases command with
          | connect command =>
              exact ⟨pursues_processConnect fun state h => hstage state (.inl h),
                hrest.processConnect command now r atHead hstage⟩
          | disconnect command =>
              have hcommand : command.internal = true :=
                hinternal.commands command (hcommands ▸ List.mem_cons_self)
              have hothers : Pursues { s with commands } := by
                intro hauto hshould
                refine (hpursues hauto hshould).imp_right (Or.imp_right (Or.imp_left ?_))
                rintro ⟨c, hc⟩
                rw [hcommands] at hc
                exact ⟨c, (List.mem_cons.mp hc).resolve_left nofun⟩
              exact ⟨pursues_processDisconnect finished now r hothers hcommand,
                hrest.processDisconnect hcommand finished now r⟩
  | checkTimeouts finished timedOut now r atHead =>
      exact ⟨pursues_checkTimeouts finished timedOut now r atHead hpursues hinternal.disconnecting,
        hinternal.checkTimeouts finished timedOut now r atHead⟩
  | connecting state =>
      exact ⟨fun _ _ => .inr (.inl hadmissible.2.1),
        hinternal.of_commands (fun _ hx => .inl hx) (.inl hadmissible.2.2)⟩
  | nextOrClose now r atHead =>
      exact ⟨pursues_nextOrClose s now r atHead, hinternal.nextOrClose now r atHead⟩
  | connack =>
      exact ⟨fun _ _ => .inl rfl, hinternal.of_commands (fun _ hx => .inl hx) (.inl nofun)⟩

/-! ### The interval -/

/-- The jitter is a fifth at most. -/
theorem randomJitter_bounds
    {b m M r : Int}
    (hpos : 0 < b)
    (hm : m ≤ b)
    (hM : b ≤ M)
    (hr : minSleep b m < maxSleep b M → 0 ≤ r ∧ r < jitterLimit b m M) :
    b * 5 / 6 ≤ randomJitter b m M r ∧ randomJitter b m M r ≤ b * 6 / 5 := by
  have hmin : minSleep b m = b * 5 / 6 := by rw [minSleep, max_eq_right hm]
  have hmax : maxSleep b M = b * 6 / 5 := by rw [maxSleep, min_eq_right hM]
  rw [jitterLimit, hmin, hmax] at hr
  dsimp only [randomJitter]
  rw [hmin, hmax]
  split
  case isTrue => omega
  case isFalse hlt =>
    obtain ⟨hnonneg, hlimit⟩ := hr (by omega)
    have hbuckets : 0 < RAND_MAX / (b * 6 / 5 - b * 5 / 6 + 1) := by
      by_contra hnot
      have hrange : 0 ≤ b * 6 / 5 - b * 5 / 6 + 1 := by omega
      have := Int.mul_nonpos_of_nonpos_of_nonneg (not_lt.mp hnot) hrange
      omega
    have hlow := Int.ediv_nonneg hnonneg hbuckets.le
    have hhigh : r / (RAND_MAX / (b * 6 / 5 - b * 5 / 6 + 1)) < b * 6 / 5 - b * 5 / 6 + 1 :=
      Int.ediv_lt_of_lt_mul hbuckets (by rwa [mul_comm])
    omega

/-- The fields that the interval depends on. -/
def timer (s : Reconnecting) : Int × Int × Bool × Int × Int × Nat :=
  (s.minRetryInterval, s.maxRetryInterval, s.retrying, s.currentIntervalBase, s.currentInterval,
    s.failures)

/-- The interval has doubled with every failure, up to the maximum, give or take a fifth. -/
structure BacksOff (m M : Int) (s : Reconnecting) : Prop where
  minimum : s.minRetryInterval = m
  maximum : s.maxRetryInterval = M
  base : s.retrying = true → s.currentIntervalBase = min (m * 2 ^ s.failures) M
  lower : s.retrying = true → s.currentIntervalBase * 5 / 6 ≤ s.currentInterval
  upper : s.retrying = true → s.currentInterval ≤ s.currentIntervalBase * 6 / 5

theorem BacksOff.of_timer
    {m M : Int} {s t : Reconnecting}
    (h : BacksOff m M s)
    (htimer : t.timer = s.timer) :
    BacksOff m M t := by
  simp only [timer, Prod.mk.injEq] at htimer
  obtain ⟨h₁, h₂, h₃, h₄, h₅, h₆⟩ := htimer
  constructor
  · rw [h₁, h.minimum]
  · rw [h₂, h.maximum]
  · rw [h₃, h₄, h₆]
    exact h.base
  · rw [h₃, h₄, h₅]
    exact h.lower
  · rw [h₃, h₄, h₅]
    exact h.upper

theorem EndsLoop.of_timer
    {s t : Reconnecting} {r : Int}
    (h : s.EndsLoop r)
    (htimer : t.timer = s.timer) :
    t.EndsLoop r := by
  simp only [timer, Prod.mk.injEq] at htimer
  obtain ⟨h₁, h₂, h₃, h₄, _, _⟩ := htimer
  have hbase : t.nextBase = s.nextBase := by rw [nextBase, nextBase, h₁, h₂, h₃, h₄]
  rw [EndsLoop, hbase, h₁, h₂]
  exact h

/-- The base is within the limits. -/
theorem min_pow_bounds
    {m M : Int} (k : Nat)
    (hm : 0 < m)
    (hM : m ≤ M) :
    m ≤ min (m * 2 ^ k) M ∧ min (min (m * 2 ^ k) M * 2) M = min (m * 2 ^ (k + 1)) M := by
  have hpow : (1 : Int) ≤ 2 ^ k := one_le_pow₀ (by decide)
  have hle : m ≤ m * 2 ^ k := le_mul_of_one_le_right hm.le hpow
  rw [pow_succ, ← mul_assoc]
  omega

theorem BacksOff.startConnectRetry
    {m M : Int} {s : Reconnecting} {r : Int} (now : Int)
    (h : BacksOff m M s)
    (hm : 0 < m)
    (hM : m ≤ M)
    (hr : s.EndsLoop r) :
    BacksOff m M (s.startConnectRetry now r) := by
  have hbase : s.nextBase = min (m * 2 ^ (if s.retrying then s.failures + 1 else 0)) M := by
    rw [nextBase]
    split
    case isTrue hretrying =>
      rw [h.base hretrying, h.maximum, (min_pow_bounds s.failures hm hM).2]
    case isFalse => rw [h.minimum, pow_zero, mul_one, min_eq_left hM]
  have hlow := (min_pow_bounds (if s.retrying then s.failures + 1 else 0) hm hM).1
  have hjitter := randomJitter_bounds (b := s.nextBase) (m := s.minRetryInterval)
    (M := s.maxRetryInterval) (r := r) (by omega) (by rw [h.minimum]; omega)
    (by rw [h.maximum]; omega) hr
  rw [Reconnecting.startConnectRetry]
  split
  case isTrue =>
    exact ⟨h.minimum, h.maximum, fun _ => hbase, fun _ => hjitter.1, fun _ => hjitter.2⟩
  case isFalse => exact h

@[simp] theorem timer_addCommand
    (s : Reconnecting) (command : ConnectionCommand) (atHead : Bool) :
    (s.addCommand command atHead).timer = s.timer := by
  obtain ⟨commands, heq⟩ := addCommand_frame s command atHead
  rw [heq]
  rfl

@[simp] theorem timer_failureCalled
    (s : Reconnecting) :
    s.failureCalled.timer = s.timer := by
  rw [failureCalled]
  split <;> rfl

@[simp] theorem timer_closeOnly
    (s : Reconnecting) :
    s.closeOnly.timer = s.timer :=
  rfl

@[simp] theorem timer_disconnect1
    (s : Reconnecting) (internal : Bool) (timeout now : Int) (atHead : Bool) :
    (s.disconnect1 internal timeout now atHead).timer = s.timer := by
  cases internal with
  | true =>
      rw [disconnect1, if_pos rfl]
      split
      · exact timer_addCommand s _ atHead
      · rfl
  | false =>
      rw [disconnect1, if_neg Bool.false_ne_true]
      split
      · exact timer_addCommand { s with shouldBeConnected := false } _ atHead
      · rfl

section Timer

variable {m M : Int} {s t : Reconnecting} {r : Int}

/-- The timer is left alone, or set once. -/
def MayRetry (s t : Reconnecting) (now r : Int) : Prop :=
  t.timer = s.timer ∨
    ∃ u : Reconnecting, u.timer = s.timer ∧ t.timer = (u.startConnectRetry now r).timer

theorem mayRetry_nextOrClose
    (s : Reconnecting) (now r : Int) (atHead : Bool) :
    MayRetry s (s.nextOrClose now r atHead) now r := by
  rw [nextOrClose]
  split
  · exact .inl (by simp)
  · exact .inr ⟨s.closeOnly.failureCalled, by simp, rfl⟩

theorem mayRetry_checkDisconnect
    (s : Reconnecting) (command : DisconnectCommand) (finished : Bool) (now r : Int) :
    MayRetry s (s.checkDisconnect command finished now r) now r := by
  rw [checkDisconnect]
  split
  · split
    · exact .inr ⟨s.closeOnly, rfl, rfl⟩
    · exact .inl rfl
  · exact .inl rfl

theorem mayRetry_connectFailed
    (s : Reconnecting) (command : ConnectCommand) (now r : Int) (atHead : Bool) :
    MayRetry s (s.connectFailed command now r atHead) now r := by
  have hcalled := timer_disconnect1 s false 0 now atHead
  dsimp only [connectFailed]
  split
  · left
    rw [timer_addCommand]
    exact hcalled
  · refine .inr ⟨_, ?_, rfl⟩
    exact hcalled

theorem mayRetry_processConnect
    (s : Reconnecting) (command : ConnectCommand) (result : ConnectResult) (now r : Int)
    (atHead : Bool) :
    MayRetry s (s.processConnect command result now r atHead) now r := by
  rw [processConnect]
  split
  · exact .inl rfl
  · cases result with
    | inProgress state => exact .inl rfl
    | failed => exact mayRetry_connectFailed s _ now r atHead
    | failedInProgress state => exact mayRetry_connectFailed _ _ now r atHead

theorem mayRetry_processDisconnect
    (s : Reconnecting) (command : DisconnectCommand) (finished : Bool) (now r : Int) :
    MayRetry s (s.processDisconnect command finished now r) now r := by
  dsimp only [processDisconnect]
  split
  · have hcalled : (if s.connect_state ≠ .notInProgress then s.failureCalled else s).timer =
        s.timer := by
      split
      · exact timer_failureCalled s
      · rfl
    rcases mayRetry_checkDisconnect
      { (if s.connect_state ≠ .notInProgress then s.failureCalled else s) with
        connect_state := .disconnecting } command finished now r with h | ⟨u, hu, h⟩
    · exact .inl (h.trans hcalled)
    · exact .inr ⟨u, hu.trans hcalled, h⟩
  · exact .inl rfl

theorem checkDisconnecting_timer
    (s : Reconnecting) (finished : Bool) (now r : Int) :
    (s.checkDisconnecting finished now r).timer = s.timer ∨
      s.checkDisconnecting finished now r = s.closeOnly.startConnectRetry now r := by
  rw [checkDisconnecting, checkDisconnect]
  split
  · split
    · split
      · exact .inr rfl
      · exact .inl rfl
    · exact .inl rfl
  · exact .inl rfl

theorem MayRetry.of_timer
    {u : Reconnecting} {now : Int}
    (h : MayRetry u t now r)
    (htimer : u.timer = s.timer) :
    MayRetry s t now r := by
  rcases h with h | ⟨v, hv, h⟩
  · exact .inl (h.trans htimer)
  · exact .inr ⟨v, hv.trans htimer, h⟩

/-- A disconnect that is done leaves no attempt that could time out. -/
theorem mayRetry_checkTimeouts
    (s : Reconnecting) (finished timedOut : Bool) (now r : Int) (atHead : Bool) :
    MayRetry s (s.checkTimeouts finished timedOut now r atHead) now r := by
  dsimp only [checkTimeouts]
  split
  case isFalse => exact .inl rfl
  case isTrue =>
    rcases checkDisconnecting_timer { s with last := now } finished now r with htimer | heq
    · split
      · exact (mayRetry_nextOrClose _ now r atHead).of_timer htimer
      · split
        · exact .inl ((timer_addCommand _ _ atHead).trans htimer)
        · exact .inl htimer
    · have hidle : (checkDisconnecting { s with last := now } finished now r).connect_state =
          .notInProgress := by
        rw [heq, startConnectRetry_connect_state]
        rfl
      have hretry : MayRetry s (checkDisconnecting { s with last := now } finished now r) now r :=
        .inr ⟨closeOnly { s with last := now }, rfl, by rw [heq]⟩
      rw [if_neg fun h => h.1 hidle]
      split
      · rcases hretry with h | ⟨u, hu, h⟩
        · exact .inl ((timer_addCommand _ _ atHead).trans h)
        · exact .inr ⟨u, hu, (timer_addCommand _ _ atHead).trans h⟩
      · exact hretry

theorem BacksOff.of_mayRetry
    (now : Int)
    (h : BacksOff m M s)
    (hm : 0 < m)
    (hM : m ≤ M)
    (hr : s.EndsLoop r)
    (ht : MayRetry s t now r) :
    BacksOff m M t := by
  rcases ht with ht | ⟨u, hu, ht⟩
  · exact h.of_timer ht
  · exact ((h.of_timer hu).startConnectRetry now hm hM (hr.of_timer hu)).of_timer ht

/-- The options of a connect command keep the intervals. -/
def KeepsIntervals (m M : Int) : ReconnectEvent → Prop
  | .connect options _ => ∀ retry ∈ options.retry, retry.2 = (m, M)
  | _ => True

theorem backsOff_step
    {e : ReconnectEvent}
    (h : BacksOff m M s)
    (hm : 0 < m)
    (hM : m ≤ M)
    (hkeeps : KeepsIntervals m M e)
    (hstep : Step s e t) :
    BacksOff m M t := by
  obtain ⟨hadmissible, rfl⟩ := hstep
  cases e with
  | connect options atHead =>
      refine h.of_timer ?_
      dsimp only [next, startConnect]
      rw [timer_addCommand]
      cases hretry : options.retry with
      | none => rfl
      | some retry =>
          obtain ⟨automaticReconnect, intervals⟩ := retry
          obtain rfl : intervals = (m, M) := hkeeps _ hretry
          rw [Option.getD_some, timer, timer, h.minimum, h.maximum]
  | reconnect atHead =>
      dsimp only [next, reconnect]
      split
      · split
        · split
          · exact h.of_timer rfl
          · refine ⟨h.minimum, h.maximum, fun _ => ?_, fun _ => ?_, fun _ => ?_⟩
            · rw [pow_zero, mul_one, min_eq_left hM]
              exact h.minimum
            · have := h.minimum
              dsimp only
              omega
            · have := h.minimum
              dsimp only
              omega
        · exact h
      · exact h.of_timer (timer_addCommand s _ atHead)
  | disconnect timeout now atHead => exact h.of_timer (timer_disconnect1 s false timeout now atHead)
  | disconnectInternal now atHead => exact h.of_timer (timer_disconnect1 s true 0 now atHead)
  | processCommand result finished now r atHead =>
      refine h.of_mayRetry now hm hM hadmissible.1 ?_
      rw [next, processCommand]
      split
      · exact .inl rfl
      · exact mayRetry_processConnect { s with commands := _ } _ result now r atHead
      · exact mayRetry_processDisconnect { s with commands := _ } _ finished now r
  | checkTimeouts finished timedOut now r atHead =>
      exact h.of_mayRetry now hm hM hadmissible
        (mayRetry_checkTimeouts s finished timedOut now r atHead)
  | connecting state => exact h.of_timer rfl
  | nextOrClose now r atHead =>
      exact h.of_mayRetry now hm hM hadmissible.1 (mayRetry_nextOrClose s now r atHead)
  | connack => exact ⟨h.minimum, h.maximum, nofun, nofun, nofun⟩

/-- A call of `MQTTAsync_connect` sets the intervals. -/
theorem backsOff_connect
    (s : Reconnecting) {options : ReconnectOptions} {automaticReconnect : Bool} (atHead : Bool)
    (hretrying : s.retrying = false)
    (hoptions : options.retry = some (automaticReconnect, m, M)) :
    BacksOff m M (s.startConnect options atHead) := by
  have htimer : (s.startConnect options atHead).timer =
      (m, M, false, s.currentIntervalBase, s.currentInterval, s.failures) := by
    dsimp only [startConnect]
    rw [timer_addCommand, hoptions, Option.getD_some, timer, hretrying]
  simp only [timer, Prod.mk.injEq] at htimer
  obtain ⟨hminimum, hmaximum, hnot, _⟩ := htimer
  rw [← Bool.not_eq_true] at hnot
  exact ⟨hminimum, hmaximum, fun h => absurd h hnot, fun h => absurd h hnot,
    fun h => absurd h hnot⟩

/-- Where nothing is in progress, at most a connect command is put on the queue. -/
theorem checkTimeouts_idle
    {now : Int} (finished timedOut : Bool) (atHead : Bool)
    (hstate : s.connect_state = .notInProgress)
    (hdue : s.due now = true) :
    (s.reconnects now = true ∧ (s.checkTimeouts finished timedOut now r atHead).Queued) ∨
      (s.reconnects now = false ∧
        (s.checkTimeouts finished timedOut now r atHead).commands = s.commands) := by
  have hsame : checkDisconnecting { s with last := now } finished now r =
      { s with last := now } := by
    rw [checkDisconnecting, if_neg]
    rw [hstate]
    exact nofun
  dsimp only [checkTimeouts]
  rw [if_pos hdue, hsame, if_neg fun h => h.1 hstate]
  cases hreconnects : reconnects { s with last := now } now with
  | true =>
      rw [if_pos rfl]
      exact .inl ⟨hreconnects, queued_connect _ _ atHead⟩
  | false =>
      rw [if_neg Bool.false_ne_true]
      exact .inr ⟨hreconnects, rfl⟩

/--
As long as the application does not disconnect, a client that should be connected always has
a connection, an attempt, a connect command or a time for the next attempt; and it does not
wait for longer than the maximum and a fifth.
-/
theorem keeps_trying
    {tr : List (Lib.Transition Reconnecting ReconnectEvent)}
    (hrun : Lib.Runs Step s tr t)
    (hpursues : s.Pursues)
    (hinternal : s.Internal)
    (hintervals : BacksOff m M s)
    (hm : 0 < m)
    (hM : m ≤ M)
    (hevents : ∀ x ∈ tr, Persists x.event ∧ KeepsIntervals m M x.event) :
    (∀ x ∈ tr, x.post.Pursues) ∧
      ∀ x ∈ tr, ∀ finished timedOut now r atHead,
        x.event = .checkTimeouts finished timedOut now r atHead →
        x.pre.due now = true →
        x.pre.automaticReconnect = true → x.pre.shouldBeConnected = true →
        x.pre.connected = false → x.pre.connect_state = .notInProgress →
        MQTTTime_difftime now x.pre.lastConnectionFailedTime > M * 1200 →
        x.post.Queued := by
  have hinv := (hrun.invariant_of
    (I := fun s => (s.Pursues ∧ s.Internal) ∧ BacksOff m M s)
    (C := fun _ e => Persists e ∧ KeepsIntervals m M e)
    (fun _ _ _ h hC hstep => ⟨pursues_step h.1 hC.1 hstep, backsOff_step h.2 hm hM hC.2 hstep⟩)
    ⟨⟨hpursues, hinternal⟩, hintervals⟩ hevents).1
  refine ⟨fun x hx => (hinv x hx).2.1.1, ?_⟩
  intro x hx finished timedOut now r atHead hevent hdue hauto hshould hconnected hstate helapsed
  obtain ⟨⟨⟨hpursues, _⟩, hbacks⟩, _⟩ := hinv x hx
  have hpost := (hrun.step_of_mem x hx).2
  rw [hevent] at hpost
  rw [hpost]
  rcases checkTimeouts_idle finished timedOut atHead hstate hdue with ⟨_, h⟩ | ⟨hnot, hsame⟩
  · exact h
  · rcases hpursues hauto hshould with h | h | ⟨c, hc⟩ | hretrying
    · exact absurd (hconnected.symm.trans h) Bool.false_ne_true
    · exact absurd hstate h
    · exact ⟨c, by rw [next, hsame]; exact hc⟩
    · -- The interval is over, whatever the jitter was.
      have hbase := hbacks.base hretrying
      have hupper := hbacks.upper hretrying
      have hover : MQTTTime_difftime now x.pre.lastConnectionFailedTime >
          x.pre.currentInterval * 1000 := by omega
      rw [reconnects, hauto, hretrying, decide_eq_true hover, Bool.or_true] at hnot
      cases hnot

/-- A client that has not been connected. -/
def created : Reconnecting where
  serverURIcount := 0
  MQTTVersion := MQTTVERSION_DEFAULT
  connected := false
  connect_state := .notInProgress
  connect := ⟨0, 0, false, false⟩
  disconnect := ⟨false, 0, 0⟩
  commands := []
  automaticReconnect := false
  minRetryInterval := 0
  maxRetryInterval := 0
  shouldBeConnected := false
  retrying := false
  reconnectNow := false
  currentIntervalBase := 0
  currentInterval := 0
  lastConnectionFailedTime := 0
  failures := 0
  last := 0

/-- It is connected with intervals from a second to a minute. -/
def connects : Reconnecting :=
  created.startConnect ⟨1, MQTTVERSION_3_1_1, false, false, some (true, 1, 60)⟩ false

/-- The attempt fails, and the timeouts are checked more than a minute later. -/
def failsOnce : List ReconnectEvent :=
  [.processCommand .failed true 1000000 0 false, .checkTimeouts true false 80000000 0 false]

theorem runs_failsOnce :
    Lib.Runs Step connects (Lib.trace next connects failsOnce) (failsOnce.foldl next connects) := by
  refine Lib.Runs.of_trace connects failsOnce fun x hx => ⟨?_, Lib.post_of_mem_trace hx⟩
  revert x
  refine List.forall_mem_cons.mpr ⟨⟨fun _ => by decide, trivial⟩,
    List.forall_mem_cons.mpr ⟨fun _ => by decide, ?_⟩⟩
  exact fun _ h => absurd h List.not_mem_nil

theorem pursues_connects :
    connects.Pursues ∧ connects.Internal :=
  ⟨fun _ _ => .inr (.inr (.inl ⟨_, List.mem_cons_self⟩)),
    ⟨fun _ h => absurd h (by simp [connects, created, startConnect, addCommand, insertFirst]),
      nofun⟩⟩

theorem keeps_trying_once :
    (∀ x ∈ Lib.trace next connects failsOnce, x.post.Pursues) ∧
      ∀ x ∈ Lib.trace next connects failsOnce, ∀ finished timedOut now r atHead,
        x.event = .checkTimeouts finished timedOut now r atHead →
        x.pre.due now = true →
        x.pre.automaticReconnect = true → x.pre.shouldBeConnected = true →
        x.pre.connected = false → x.pre.connect_state = .notInProgress →
        MQTTTime_difftime now x.pre.lastConnectionFailedTime > 60 * 1200 →
        x.post.Queued :=
  keeps_trying runs_failsOnce pursues_connects.1 pursues_connects.2
    (backsOff_connect created false rfl rfl) (by decide) (by decide)
    (List.forall_mem_cons.mpr ⟨⟨trivial, trivial⟩, List.forall_mem_cons.mpr ⟨⟨trivial, trivial⟩,
      fun _ h => absurd h List.not_mem_nil⟩⟩)

end Timer

end Reconnecting
end MQTTAsync
end PahoMqtt
