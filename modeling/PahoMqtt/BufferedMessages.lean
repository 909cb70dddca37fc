import PahoMqtt.CommandOrder

/-!
# The count of buffered messages

`noBufferedMessages` is raised when a PUBLISH is appended or restored, left
alone when the limit discards the oldest one, and lowered when a PUBLISH is
taken for processing.  Along every run it is the number of PUBLISH commands of
the client on the shared queue.
-/

namespace PahoMqtt
namespace MQTTAsync
namespace AsyncState

/-- A PUBLISH of the client. -/
def isPublishOf (m : Handle) (cmd : CommandElement) : Bool :=
  cmd.client = m && cmd.command.type = .publish

/-- The PUBLISH commands of a client on the queue. -/
def publishes (s : AsyncState) (m : Handle) : List CommandElement :=
  s.commands.filter (isPublishOf m)

theorem isPublishOf_iff
    {m : Handle} {cmd : CommandElement} :
    isPublishOf m cmd = true ↔ cmd.client = m ∧ cmd.command.type = .publish := by
  rw [isPublishOf, Bool.and_eq_true, decide_eq_true_eq, decide_eq_true_eq]

theorem request_of_isPublishOf
    {m : Handle} {cmd : CommandElement}
    (h : isPublishOf m cmd = true) :
    cmd.command.isRequest = true := by
  simp [Command.isRequest, (isPublishOf_iff.mp h).2]

/-- The number of PUBLISH commands after one command has been erased. -/
theorem length_filter_erase
    {m : Handle} {commands : List CommandElement} {cmd : CommandElement}
    (hin : cmd ∈ commands) :
    ((commands.erase cmd).filter (isPublishOf m)).length +
        (if isPublishOf m cmd = true then 1 else 0) =
      (commands.filter (isPublishOf m)).length := by
  rw [← List.erase_filter]
  by_cases hpublish : isPublishOf m cmd = true
  · have hmem : cmd ∈ commands.filter (isPublishOf m) := List.mem_filter.mpr ⟨hin, hpublish⟩
    have hpos : 0 < (commands.filter (isPublishOf m)).length := List.length_pos_of_mem hmem
    rw [if_pos hpublish, List.length_erase_of_mem hmem]
    omega
  · rw [if_neg hpublish, Nat.add_zero,
      List.erase_of_not_mem (fun hmem => hpublish (List.mem_filter.mp hmem).2)]

/-- The number of PUBLISH commands after one command has been appended. -/
theorem length_filter_append
    (m : Handle) (commands : List CommandElement) (cmd : CommandElement) :
    ((commands ++ [cmd]).filter (isPublishOf m)).length =
      (commands.filter (isPublishOf m)).length + (if isPublishOf m cmd = true then 1 else 0) := by
  rw [List.filter_append, List.length_append]
  by_cases hpublish : isPublishOf m cmd = true
  · rw [List.filter_cons_of_pos hpublish, if_pos hpublish]
    rfl
  · rw [List.filter_cons_of_neg hpublish, if_neg hpublish]
    rfl

/-! ### What the operations do to the count -/

section

variable {s : AsyncState} {m : Handle} {command : Command} {internal : Bool}

theorem addCommand_handles :
    (s.addCommand m command internal).handles = s.handles := by
  rw [addCommand]
  split
  · split
    · rfl
    · rw [listInsertFirst_handles, removeConnectCommand]
      split
      · rfl
      · rfl
  · split
    · rw [bufferPublish]
      split
      · split
        · rfl
        · rfl
      · rfl
    · rfl

theorem restoreCommand_handles :
    (s.restoreCommand m command).handles = s.handles := by
  rw [restoreCommand]
  split
  · rfl
  · rfl

theorem restoreCommand_options
    (m' : Handle) :
    ((s.restoreCommand m command).client m').createOptions = (s.client m').createOptions := by
  rw [restoreCommand]
  split
  · by_cases hm : m' = m
    · subst hm
      rw [modifyClient_self]
      rfl
    · rw [modifyClient_other hm]
      rfl
  · rfl

theorem processCommand_handles :
    s.processCommand.handles = s.handles := by
  rw [processCommand]
  split
  · rw [detachCommand]
    split
    · rfl
    · rfl
  · rfl

/-- A PUBLISH that is appended is counted, or takes the place of an older one. -/
theorem addCommand_publish
    (s : AsyncState) (m : Handle) (internal : Bool)
    (hpublish : command.type = .publish) :
    (s.bufferIsFull m = true ∧ (s.addCommand m command internal).client = s.client ∧
      ∀ m', ((s.addCommand m command internal).publishes m').length = (s.publishes m').length) ∨
    (s.bufferIsFull m = false ∧
      (s.addCommand m command internal).client =
        (s.modifyClient m
          (fun c => { c with noBufferedMessages := c.noBufferedMessages + 1 })).client ∧
      ∀ m', ((s.addCommand m command internal).publishes m').length =
        (s.publishes m').length + (if m = m' then 1 else 0)) := by
  have hcond : ¬(command.type = .connect ∨ command.type = .disconnect ∧ internal = true) := by
    rw [hpublish]
    rintro (h | ⟨h, _⟩) <;> cases h
  have hsame : (s.listAppend (s.element m command internal)).bufferIsFull m =
      s.bufferIsFull m := rfl
  have hnew : ∀ m', isPublishOf m' (s.element m command internal) = true ↔ m = m' :=
    fun m' => isPublishOf_iff.trans (and_iff_left hpublish)
  rw [addCommand, if_neg hcond, if_pos hpublish, bufferPublish, hsame]
  cases hfull : s.bufferIsFull m with
  | true =>
      refine Or.inl ⟨rfl, ?_⟩
      have hin : s.element m command internal ∈
          (s.listAppend (s.element m command internal)).commands :=
        List.mem_append_right _ (List.mem_singleton_self _)
      have hfind : ((s.listAppend (s.element m command internal)).firstPublish m).isSome =
          true :=
        List.find?_isSome.mpr ⟨_, hin, isPublishOf_iff.mpr ⟨rfl, hpublish⟩⟩
      obtain ⟨first_publish, hfirst⟩ := Option.isSome_iff_exists.mp hfind
      rw [if_pos rfl, hfirst]
      refine ⟨rfl, fun m' => ?_⟩
      have hclient := isPublishOf_iff.mp (List.find?_some hfirst)
      have herase := length_filter_erase (m := m') (List.mem_of_find?_eq_some hfirst)
      have happend := length_filter_append m' s.commands
        (s.element m command internal)
      have hboth : (isPublishOf m' first_publish = true) = (m = m') :=
        propext (isPublishOf_iff.trans (by rw [hclient.1, and_iff_left hclient.2]))
      rw [listAppend_commands] at herase
      simp only [hnew, hboth] at herase happend
      rw [publishes, listUnlink_commands, listAppend_commands, publishes]
      omega
  | false =>
      refine Or.inr ⟨rfl, ?_⟩
      rw [if_neg Bool.false_ne_true]
      refine ⟨rfl, fun m' => ?_⟩
      have happend := length_filter_append m' s.commands
        (s.element m command internal)
      simp only [hnew] at happend
      exact happend

/-- Any other command does not change the count. -/
theorem addCommand_other
    (s : AsyncState) (m : Handle) (internal : Bool)
    (hpublish : command.type ≠ .publish) :
    (s.addCommand m command internal).client = s.client ∧
      ∀ m', ((s.addCommand m command internal).publishes m').length =
        (s.publishes m').length := by
  by_cases hfirst : goesFirst command internal
  · have hsame := fun m' => addCommand_first (s := s) (m := m) hfirst
      (fun cmd hcmd => request_of_isPublishOf (m := m') hcmd)
    exact ⟨(hsame m).2.1, fun m' => congrArg List.length (hsame m').1⟩
  · have hcond : ¬(command.type = .connect ∨ command.type = .disconnect ∧ internal = true) :=
      hfirst
    rw [addCommand, if_neg hcond, if_neg hpublish]
    refine ⟨rfl, fun m' => ?_⟩
    have happend := length_filter_append m' s.commands
      (s.element m command internal)
    rw [if_neg (fun hin => hpublish (isPublishOf_iff.mp hin).2)] at happend
    exact happend

theorem restoreCommand_counts
    (s : AsyncState) (m : Handle) (command : Command) :
    (∀ m', ((s.restoreCommand m command).client m').noBufferedMessages =
      (s.client m').noBufferedMessages +
        (if m = m' ∧ command.type = .publish then 1 else 0)) ∧
    ∀ m', ((s.restoreCommand m command).publishes m').length =
      (s.publishes m').length + (if m = m' ∧ command.type = .publish then 1 else 0) := by
  constructor
  · intro m'
    rw [restoreCommand]
    by_cases hpublish : command.type = .publish
    · rw [if_pos hpublish]
      by_cases hm : m = m'
      · subst hm
        rw [modifyClient_self, if_pos ⟨rfl, hpublish⟩]
        rfl
      · rw [modifyClient_other (Ne.symm hm), if_neg (fun h => hm h.1), add_zero]
        rfl
    · rw [if_neg hpublish, if_neg (fun h => hpublish h.2), add_zero]
      rfl
  · intro m'
    have happend := length_filter_append m' s.commands
      (s.element m command false)
    rw [publishes, (restoreCommand_commands s m command).1, happend]
    simp only [isPublishOf_iff]
    rfl

theorem processCommand_counts
    (s : AsyncState) :
    (∀ m', (s.processCommand.client m').createOptions = (s.client m').createOptions) ∧
    ∀ m', (s.processCommand.client m').noBufferedMessages - (s.processCommand.publishes m').length =
        (s.client m').noBufferedMessages - (s.publishes m').length ∧
      (s.processCommand.publishes m').length ≤ (s.publishes m').length := by
  cases hnext : s.nextCommand with
  | none =>
      rw [processCommand_none hnext]
      exact ⟨fun _ => rfl, fun _ => ⟨rfl, le_rfl⟩⟩
  | some cmd =>
      obtain ⟨_, before, after, hsplit, _⟩ := nextCommand_eq_some hnext
      have hin : cmd ∈ s.commands := by
        rw [hsplit]
        exact List.mem_append_right _ List.mem_cons_self
      have hcommands := (processCommand_some hnext).1
      have hcount : ∀ m', (s.processCommand.publishes m').length +
          (if isPublishOf m' cmd = true then 1 else 0) = (s.publishes m').length := by
        intro m'
        rw [publishes, hcommands]
        exact length_filter_erase hin
      simp only [isPublishOf_iff] at hcount
      rw [processCommand, hnext] at hcount ⊢
      dsimp only at hcount ⊢
      rw [detachCommand] at hcount ⊢
      by_cases hpublish : cmd.command.type = .publish
      · rw [if_pos hpublish] at hcount ⊢
        refine ⟨fun m' => ?_, fun m' => ?_⟩
        · by_cases hm : m' = cmd.client
          · subst hm
            rw [listUnlink_client, modifyClient_self]
          · rw [listUnlink_client, modifyClient_other hm]
        · have hlen := hcount m'
          rw [listUnlink_client]
          by_cases hm : m' = cmd.client
          · subst hm
            rw [if_pos ⟨rfl, hpublish⟩] at hlen
            rw [modifyClient_self]
            dsimp only
            omega
          · rw [if_neg (fun h => hm h.1.symm)] at hlen
            rw [modifyClient_other hm]
            omega
      · rw [if_neg hpublish] at hcount ⊢
        refine ⟨fun m' => rfl, fun m' => ?_⟩
        have hlen := hcount m'
        rw [if_neg (fun h => hpublish h.2)] at hlen
        rw [listUnlink_client]
        omega

end

/-! ### The count along a run -/

/-- The client has been created with these options. -/
def CreatedWith (past : AsyncRun) (m : Handle) (options : CreateOptions) : Prop :=
  ∃ x ∈ past, ∃ connection, x.event = .createWithOptions m (some options) connection

/-- No command of the client has been restored. -/
def StoreWasEmpty (past : AsyncRun) (m : Handle) : Prop :=
  ∀ x ∈ past, ∀ command, x.event ≠ .restoreCommand m command

/-- What holds of the counts after a run. -/
structure Counted (past : AsyncRun) (s : AsyncState) : Prop where
  counter : ∀ m, (s.client m).noBufferedMessages = (s.publishes m).length
  unknown : ∀ m, m ∉ s.handles → (s.publishes m).length = 0
  created : ∀ m options, CreatedWith past m options →
    m ∈ s.handles ∧ (s.client m).createOptions = some options
  limited : ∀ m options, CreatedWith past m options → StoreWasEmpty past m →
    ((s.publishes m).length : Int) ≤ max options.maxBufferedMessages 0

theorem createdWith_append
    {past : AsyncRun} {x : Lib.Transition AsyncState CommandEvent} {m : Handle}
    {options : CreateOptions}
    (hx : ∀ connection, x.event ≠ .createWithOptions m (some options) connection) :
    CreatedWith (past ++ [x]) m options ↔ CreatedWith past m options := by
  constructor
  · rintro ⟨y, hy, connection, hevent⟩
    rcases List.mem_append.mp hy with hy | hy
    · exact ⟨y, hy, connection, hevent⟩
    · obtain rfl := List.mem_singleton.mp hy
      exact absurd hevent (hx connection)
  · rintro ⟨y, hy, hevent⟩
    exact ⟨y, List.mem_append_left _ hy, hevent⟩

theorem StoreWasEmpty.before
    {past : AsyncRun} {x : Lib.Transition AsyncState CommandEvent} {m : Handle}
    (h : StoreWasEmpty (past ++ [x]) m) :
    StoreWasEmpty past m ∧ ∀ command, x.event ≠ .restoreCommand m command :=
  ⟨fun y hy => h y (List.mem_append_left _ hy),
    h x (List.mem_append_right _ (List.mem_singleton_self x))⟩

namespace Counted

variable {past : AsyncRun} {s : AsyncState} {e : CommandEvent}

theorem fresh : Counted [] fresh where
  counter _ := rfl
  unknown _ _ := rfl
  created _ _ h := by
    obtain ⟨x, hx, _⟩ := h
    cases hx
  limited _ _ h _ := by
    obtain ⟨x, hx, _⟩ := h
    cases hx

/--
A step that creates no client, leaves the options alone and changes a counter
by as much as the number it counts, which may only grow below the limit.
-/
theorem step_of_counts
    (h : Counted past s)
    (hcreates : ∀ m options connection, e ≠ .createWithOptions m options connection)
    (hhandles : (s.next e).handles = s.handles)
    (hoptions : ∀ m, ((s.next e).client m).createOptions = (s.client m).createOptions)
    (hcounter : ∀ m, ((s.next e).client m).noBufferedMessages - ((s.next e).publishes m).length =
      (s.client m).noBufferedMessages - (s.publishes m).length)
    (hgrows : ∀ m, ((s.next e).publishes m).length ≤ (s.publishes m).length ∨
      m ∈ s.handles ∧ ∀ options, (s.client m).createOptions = some options →
        ((s.next e).publishes m).length ≤ max options.maxBufferedMessages 0 ∨
          ∃ command, e = .restoreCommand m command) :
    Counted (past ++ [⟨s, e, s.next e⟩]) (s.next e) where
  counter m := by
    have hsame := hcounter m
    have hbefore := h.counter m
    omega
  unknown m hm := by
    rw [hhandles] at hm
    have hbefore := h.unknown m hm
    rcases hgrows m with hle | ⟨hin, _⟩
    · omega
    · exact absurd hin hm
  created m options hcreated := by
    rw [createdWith_append (fun connection => hcreates m (some options) connection)] at hcreated
    rw [hhandles, hoptions m]
    exact h.created m options hcreated
  limited m options hcreated hempty := by
    rw [createdWith_append (fun connection => hcreates m (some options) connection)] at hcreated
    obtain ⟨hempty, hrestores⟩ := hempty.before
    have hbefore := h.limited m options hcreated hempty
    rcases hgrows m with hle | ⟨_, hle⟩
    · omega
    · rcases hle options (h.created m options hcreated).2 with hle | ⟨command, hrestore⟩
      · exact hle
      · exact absurd hrestore (hrestores command)

theorem step_createWithOptions
    (h : Counted past s)
    {m : Handle} {options : Option CreateOptions} {connection : Connection}
    (hnew : m ∉ s.handles) :
    Counted (past ++ [⟨s, .createWithOptions m options connection,
      s.next (.createWithOptions m options connection)⟩])
      (s.next (.createWithOptions m options connection)) := by
  have hpublishes : ∀ m', (s.next (.createWithOptions m options connection)).publishes m' =
      s.publishes m' := fun _ => rfl
  have hself : (s.next (.createWithOptions m options connection)).client m =
      ⟨options, 0, connection⟩ := if_pos rfl
  have hother : ∀ m', m' ≠ m →
      (s.next (.createWithOptions m options connection)).client m' = s.client m' :=
    fun _ hm => if_neg hm
  have hbefore : ∀ m' options', m' ≠ m →
      CreatedWith (past ++ [⟨s, .createWithOptions m options connection,
        s.next (.createWithOptions m options connection)⟩]) m' options' →
      CreatedWith past m' options' := by
    intro m' options' hm hcreated
    refine (createdWith_append ?_).mp hcreated
    intro connection' hevent
    exact hm (CommandEvent.createWithOptions.inj hevent).1.symm
  refine ⟨fun m' => ?_, fun m' hm' => ?_, fun m' options' hcreated => ?_,
    fun m' options' hcreated hempty => ?_⟩
  · rw [hpublishes]
    by_cases hm : m' = m
    · subst hm
      rw [hself, h.unknown m' hnew]
      rfl
    · rw [hother m' hm]
      exact h.counter m'
  · rw [hpublishes]
    exact h.unknown m' (fun hin => hm' (List.mem_cons_of_mem m hin))
  · by_cases hm : m' = m
    · subst hm
      rw [hself]
      refine ⟨List.mem_cons_self, ?_⟩
      obtain ⟨y, hy, connection', hevent⟩ := hcreated
      rcases List.mem_append.mp hy with hy | hy
      · exact absurd (h.created m' options' ⟨y, hy, connection', hevent⟩).1 hnew
      · obtain rfl := List.mem_singleton.mp hy
        exact (CommandEvent.createWithOptions.inj hevent).2.1
    · rw [hother m' hm]
      obtain ⟨hin, hoptions⟩ := h.created m' options' (hbefore m' options' hm hcreated)
      exact ⟨List.mem_cons_of_mem m hin, hoptions⟩
  · rw [hpublishes]
    by_cases hm : m' = m
    · subst hm
      rw [h.unknown m' hnew]
      exact le_max_right _ _
    · exact h.limited m' options' (hbefore m' options' hm hcreated) hempty.before.1

theorem step_addCommand
    (h : Counted past s)
    {m : Handle} (command : Command) (internal : Bool)
    (hm : m ∈ s.handles) :
    Counted (past ++ [⟨s, .addCommand m command internal,
      s.next (.addCommand m command internal)⟩]) (s.next (.addCommand m command internal)) := by
  have hhandles : (s.addCommand m command internal).handles = s.handles := addCommand_handles
  by_cases hpublish : command.type = .publish
  · rcases addCommand_publish s m internal hpublish with
      ⟨_, hclient, hcount⟩ | ⟨hfull, hclient, hcount⟩
    · refine h.step_of_counts (fun _ _ _ he => CommandEvent.noConfusion he) hhandles
        (fun m' => ?_) (fun m' => ?_) (fun m' => Or.inl (hcount m').le)
      · rw [next, hclient]
      · rw [next, hclient, hcount m']
    · have hclient' : ∀ m', (s.addCommand m command internal).client m' =
          (s.modifyClient m
            (fun c => { c with noBufferedMessages := c.noBufferedMessages + 1 })).client m' :=
        fun m' => congrFun hclient m'
      refine h.step_of_counts (fun _ _ _ he => CommandEvent.noConfusion he) hhandles
        (fun m' => ?_) (fun m' => ?_) (fun m' => ?_)
      · rw [next, hclient' m']
        by_cases hm' : m' = m
        · subst hm'
          rw [modifyClient_self]
        · rw [modifyClient_other hm']
      · rw [next, hclient' m', hcount m']
        by_cases hm' : m' = m
        · subst hm'
          rw [modifyClient_self, if_pos rfl]
          dsimp only
          omega
        · rw [modifyClient_other hm', if_neg (fun h => hm' h.symm), Nat.add_zero]
      · rw [next, hcount m']
        by_cases hm' : m' = m
        · subst hm'
          refine Or.inr ⟨hm, fun options hoptions => Or.inl ?_⟩
          have hbefore := h.counter m'
          rw [bufferIsFull, hoptions] at hfull
          have hlt := of_decide_eq_false hfull
          rw [if_pos rfl]
          push_cast
          omega
        · rw [if_neg (fun h => hm' h.symm)]
          exact Or.inl le_rfl
  · obtain ⟨hclient, hcount⟩ := addCommand_other s m internal hpublish
    refine h.step_of_counts (fun _ _ _ he => CommandEvent.noConfusion he) hhandles
      (fun m' => ?_) (fun m' => ?_) (fun m' => Or.inl (hcount m').le)
    · rw [next, hclient]
    · rw [next, hclient, hcount m']

theorem step_restoreCommand
    (h : Counted past s)
    {m : Handle} (command : Command)
    (hm : m ∈ s.handles) :
    Counted (past ++ [⟨s, .restoreCommand m command, s.next (.restoreCommand m command)⟩])
      (s.next (.restoreCommand m command)) := by
  obtain ⟨hcounter, hcount⟩ := restoreCommand_counts s m command
  refine h.step_of_counts (fun _ _ _ he => CommandEvent.noConfusion he) restoreCommand_handles
    (fun m' => restoreCommand_options m') (fun m' => ?_) (fun m' => ?_)
  · rw [next, hcounter m', hcount m']
    push_cast
    omega
  · rw [next, hcount m']
    by_cases hm' : m = m'
    · subst hm'
      exact Or.inr ⟨hm, fun _ _ => Or.inr ⟨command, rfl⟩⟩
    · rw [if_neg (fun h => hm' h.1)]
      exact Or.inl le_rfl

/-- Every step keeps the counters exact. -/
theorem step
    {t : AsyncState}
    (h : Counted past s)
    (hstep : Step s e t) :
    Counted (past ++ [⟨s, e, t⟩]) t := by
  obtain ⟨hadm, rfl⟩ := hstep
  cases e with
  | createWithOptions m options connection =>
      exact h.step_createWithOptions hadm
  | restoreCommand m command =>
      exact h.step_restoreCommand command hadm
  | addCommand m command internal =>
      exact h.step_addCommand command internal hadm
  | processCommand =>
      obtain ⟨hoptions, hcounts⟩ := processCommand_counts s
      exact h.step_of_counts (fun _ _ _ he => CommandEvent.noConfusion he)
        processCommand_handles hoptions (fun m => (hcounts m).1)
        (fun m => Or.inl (hcounts m).2)
  | listFindItem cmd =>
      exact h.step_of_counts (fun _ _ _ he => CommandEvent.noConfusion he) rfl (fun _ => rfl)
        (fun _ => rfl) (fun _ => Or.inl le_rfl)
  | connection m connection =>
      have hclient : ∀ m', ((s.next (.connection m connection)).client m').createOptions =
            (s.client m').createOptions ∧
          ((s.next (.connection m connection)).client m').noBufferedMessages =
            (s.client m').noBufferedMessages := by
        intro m'
        by_cases hm : m' = m
        · subst hm
          rw [next, modifyClient_self]
          exact ⟨rfl, rfl⟩
        · rw [next, modifyClient_other hm]
          exact ⟨rfl, rfl⟩
      refine h.step_of_counts (fun _ _ _ he => CommandEvent.noConfusion he) rfl
        (fun m' => (hclient m').1) (fun m' => ?_) (fun _ => Or.inl le_rfl)
      rw [(hclient m').2]
      rfl

end Counted

/--
After every run the counter of each client is the number of its PUBLISH
commands on the queue, and for a client that was created with options and an
empty store that number is within the limit, or zero where the limit is negative.
-/
theorem buffered_messages_exact
    {tr : AsyncRun} {t : AsyncState}
    (hrun : Lib.Runs Step fresh tr t) :
    (∀ m, (t.client m).noBufferedMessages = (t.publishes m).length) ∧
    ∀ m options, CreatedWith tr m options → StoreWasEmpty tr m →
      ((t.publishes m).length : Int) ≤ max options.maxBufferedMessages 0 := by
  have hcounted := (hrun.history_of (C := fun _ _ => True)
    (fun _ _ _ _ h _ hstep => h.step hstep) Counted.fresh (fun _ _ => trivial)).2
  exact ⟨hcounted.counter, hcounted.limited⟩

/-- A client that may buffer this many messages. -/
def bufferOf (maxBufferedMessages : Int) : CommandEvent :=
  .createWithOptions 0
    (some ⟨2, true, maxBufferedMessages, true, true⟩) ⟨false, .notInProgress, true, 0, 10, true, 4⟩

/-- Three messages for a client that buffers two of them. -/
def oneTooMany : List CommandEvent :=
  [bufferOf 2, .addCommand 0 hello false, .addCommand 0 hello false, .addCommand 0 hello false]

theorem buffered_messages_exact_oneTooMany :
    ((oneTooMany.foldl next fresh).publishes 0).length = 2 ∧
      ((oneTooMany.foldl next fresh).client 0).noBufferedMessages = 2 ∧
      ((oneTooMany.foldl next fresh).publishes 0).length ≤ (max 2 0 : Int) := by
  have hrun : Lib.Runs Step fresh (Lib.trace next fresh oneTooMany)
      (oneTooMany.foldl next fresh) :=
    runs_trace (by decide)
  obtain ⟨hcounter, hlimited⟩ := buffered_messages_exact hrun
  have hlength : ((oneTooMany.foldl next fresh).publishes 0).length = 2 := by decide
  refine ⟨hlength, ?_, ?_⟩
  · rw [hcounter 0, hlength]
    rfl
  · refine hlimited 0 ⟨2, true, 2, true, true⟩ ⟨_, List.mem_cons_self, _, rfl⟩ ?_
    intro x hx command hevent
    have hin := Lib.event_of_mem_trace hx
    rw [hevent] at hin
    simp [oneTooMany, bufferOf] at hin

/-- A client may be created with a negative limit, and holds no message then. -/
theorem negative_limit_exceeded :
    ∃ t, Lib.Runs Step fresh (Lib.trace next fresh [bufferOf (-1)]) t ∧
      CreatedWith (Lib.trace next fresh [bufferOf (-1)]) 0 ⟨2, true, -1, true, true⟩ ∧
      StoreWasEmpty (Lib.trace next fresh [bufferOf (-1)]) 0 ∧
      ¬((t.publishes 0).length : Int) ≤ -1 := by
  refine ⟨_, runs_trace (by decide), ⟨_, List.mem_cons_self, _, rfl⟩, ?_, by decide⟩
  intro x hx command hevent
  have hin := Lib.event_of_mem_trace hx
  rw [hevent] at hin
  simp [bufferOf] at hin

end AsyncState
end MQTTAsync
end PahoMqtt
