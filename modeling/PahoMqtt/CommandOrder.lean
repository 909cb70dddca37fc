import PahoMqtt.CommandQueue

/-!
# Every client's commands are processed in their order

The PUBLISH, SUBSCRIBE and UNSUBSCRIBE commands of a client form its lane of
the shared queue.  The module keeps a ledger of every lane along a run: what
was added, what was taken for processing and what the buffer limit discarded.
The ledger stays balanced whatever the other clients do, so the commands of a
client are taken in the order in which they were added, and one that is passed
over was discarded by the limit of its own client.
-/

namespace PahoMqtt
namespace MQTTAsync

abbrev AsyncRun := List (Lib.Transition AsyncState CommandEvent)

/-- A request of the client. -/
def CommandElement.isRequestOf (m : Handle) (cmd : CommandElement) : Bool :=
  cmd.client = m && cmd.command.isRequest

namespace AsyncState

/-- The requests of a client that are queued. -/
def requests (s : AsyncState) (m : Handle) : List CommandElement :=
  s.commands.filter (CommandElement.isRequestOf m)

/-! ### What a step adds, takes and discards -/

/-- The command is put at the head of the queue. -/
def goesFirst (command : Command) (internal : Bool) : Prop :=
  command.type = .connect ∨ command.type = .disconnect ∧ internal = true

/-- The requests of `m` that a step adds to the queue. -/
def addedBy (m : Handle) (x : Lib.Transition AsyncState CommandEvent) : List CommandElement :=
  match x.event with
  | .restoreCommand m' command =>
      [x.pre.element m' command false].filter (CommandElement.isRequestOf m)
  | .addCommand m' command internal =>
      [x.pre.element m' command internal].filter (CommandElement.isRequestOf m)
  | _ => []

/-- The requests of `m` that a step takes for processing. -/
def takenBy (m : Handle) (x : Lib.Transition AsyncState CommandEvent) : List CommandElement :=
  match x.event with
  | .processCommand => x.pre.nextCommand.toList.filter (CommandElement.isRequestOf m)
  | _ => []

/-- What the buffer limit discards when a PUBLISH of a client is added. -/
def discards (s : AsyncState) (m : Handle) (command : Command) (internal : Bool) :
    Option CommandElement :=
  if command.type = .publish ∧ s.bufferIsFull m = true then
    (s.listAppend (s.element m command internal)).firstPublish m
  else none

/-- The requests of `m` that a step discards. -/
def discardedBy (m : Handle) (x : Lib.Transition AsyncState CommandEvent) :
    List CommandElement :=
  match x.event with
  | .addCommand m' command internal =>
      (x.pre.discards m' command internal).toList.filter (CommandElement.isRequestOf m)
  | _ => []

/-- What a run has done to the requests of a client. -/
def ledger (m : Handle) (tr : AsyncRun) : Lib.Ledger CommandElement where
  added := tr.flatMap (addedBy m)
  taken := tr.flatMap (takenBy m)
  dropped := tr.flatMap (discardedBy m)

/-- The ledger after one more step. -/
theorem ledger_concat
    (m : Handle) (tr : AsyncRun) (x : Lib.Transition AsyncState CommandEvent) :
    ledger m (tr ++ [x]) =
      { added := (ledger m tr).added ++ addedBy m x
        taken := (ledger m tr).taken ++ takenBy m x
        dropped := (ledger m tr).dropped ++ discardedBy m x } := by
  simp only [ledger, List.flatMap_append, List.flatMap_singleton]

/-! ### The queue after each operation -/

section

variable {s : AsyncState} {m : Handle} {command : Command} {internal : Bool}

theorem goesFirst.not_request
    (h : goesFirst command internal) :
    command.isRequest = false := by
  rcases h with h | ⟨h, _⟩ <;> simp [Command.isRequest, h]

/-- What is searched by `clientCompareConnectCommand` is no request. -/
theorem not_request_of_compare
    {cmd1 cmd2 : CommandElement}
    (h : clientCompareConnectCommand cmd1 cmd2 = true) :
    cmd1.command.isRequest = false := by
  simp only [clientCompareConnectCommand, Bool.and_eq_true, Bool.or_eq_true,
    decide_eq_true_eq] at h
  rcases h.2 with h | h <;> simp [Command.isRequest, h]

theorem listFindItem_callback
    {callback : CommandElement → Bool} {cmd : CommandElement}
    (h : s.listFindItem callback = some cmd) :
    callback cmd = true := by
  rw [listFindItem] at h
  cases hcurrent : s.current with
  | none =>
      rw [hcurrent] at h
      exact List.find?_some h
  | some c =>
      rw [hcurrent] at h
      dsimp only at h
      by_cases hc : callback c = true
      · rw [if_pos hc] at h
        exact Option.some.inj h ▸ hc
      · rw [if_neg hc] at h
        exact List.find?_some h

/-- A command that goes first does not touch the requests and the clients. -/
theorem addCommand_first
    (h : goesFirst command internal)
    {P : CommandElement → Bool}
    (hP : ∀ cmd, P cmd = true → cmd.command.isRequest = true) :
    (s.addCommand m command internal).commands.filter P = s.commands.filter P ∧
      (s.addCommand m command internal).client = s.client ∧
      s.added ≤ (s.addCommand m command internal).added := by
  have hnew : P (s.element m command internal) ≠ true := fun hin =>
    Bool.noConfusion ((hP _ hin).symm.trans h.not_request)
  have hsame : (s.removeConnectCommand (s.element m command internal)).commands.filter P =
      s.commands.filter P ∧
      (s.removeConnectCommand (s.element m command internal)).client = s.client ∧
      (s.removeConnectCommand (s.element m command internal)).added = s.added := by
    rw [removeConnectCommand]
    split
    next cmd hfound =>
      have hcompare := listFindItem_callback hfound
      have hcmd : P cmd ≠ true := fun hin =>
        Bool.noConfusion ((hP _ hin).symm.trans (not_request_of_compare hcompare))
      refine ⟨?_, rfl, rfl⟩
      rw [listUnlink_commands, ← List.erase_filter]
      exact List.erase_of_not_mem (fun hin => hcmd (List.mem_filter.mp hin).2)
    · exact ⟨rfl, rfl, rfl⟩
  have hcond : command.type = .connect ∨ command.type = .disconnect ∧ internal = true := h
  rw [addCommand, if_pos hcond]
  by_cases hduplicate : s.headIsDuplicate (s.element m command internal) = true
  · rw [if_pos hduplicate]
    exact ⟨rfl, rfl, le_rfl⟩
  · rw [if_neg hduplicate, listInsertFirst_commands, listInsertFirst_client,
      listInsertFirst_added, List.filter_cons_of_neg hnew, hsame.2.2]
    exact ⟨hsame.1, hsame.2.1, Nat.le_succ _⟩

/-- Any other command is appended, and a PUBLISH may discard one. -/
theorem addCommand_last
    (h : ¬goesFirst command internal) :
    (s.addCommand m command internal).added = s.added + 1 ∧
      (s.addCommand m command internal).commands =
        match s.discards m command internal with
        | some cmd => (s.commands ++ [s.element m command internal]).erase cmd
        | none => s.commands ++ [s.element m command internal] := by
  have hcond : ¬(command.type = .connect ∨ command.type = .disconnect ∧ internal = true) := h
  rw [addCommand, discards, if_neg hcond]
  by_cases hpublish : command.type = .publish
  · rw [if_pos hpublish, bufferPublish]
    have hsame : (s.listAppend (s.element m command internal)).bufferIsFull m =
        s.bufferIsFull m := rfl
    rw [hsame]
    by_cases hfull : s.bufferIsFull m = true
    · rw [if_pos hfull, if_pos ⟨hpublish, hfull⟩]
      cases (s.listAppend (s.element m command internal)).firstPublish m with
      | some cmd => exact ⟨rfl, rfl⟩
      | none => exact ⟨rfl, rfl⟩
    · rw [if_neg hfull, if_neg (fun hboth => hfull hboth.2)]
      exact ⟨rfl, rfl⟩
  · rw [if_neg hpublish, if_neg (fun hboth => hpublish hboth.1)]
    exact ⟨rfl, rfl⟩

theorem discards_eq_some
    {cmd : CommandElement}
    (h : s.discards m command internal = some cmd) :
    command.type = .publish ∧ s.bufferIsFull m = true ∧ cmd.client = m ∧
      cmd.command.type = .publish ∧ cmd ∈ s.commands ++ [s.element m command internal] := by
  rw [discards] at h
  by_cases hboth : command.type = .publish ∧ s.bufferIsFull m = true
  · rw [if_pos hboth] at h
    have hfound := List.find?_some h
    rw [Bool.and_eq_true, decide_eq_true_eq, decide_eq_true_eq] at hfound
    exact ⟨hboth.1, hboth.2, hfound.1, hfound.2, List.mem_of_find?_eq_some h⟩
  · rw [if_neg hboth] at h
    cases h

/-- A PUBLISH that finds the buffer full discards one, itself in the last resort. -/
theorem discards_isSome
    (hpublish : command.type = .publish)
    (hfull : s.bufferIsFull m = true)
    (internal : Bool) :
    ∃ cmd, s.discards m command internal = some cmd := by
  rw [discards, if_pos ⟨hpublish, hfull⟩]
  refine Option.isSome_iff_exists.mp (List.find?_isSome.mpr ⟨s.element m command internal, ?_, ?_⟩)
  · exact List.mem_append_right _ (List.mem_singleton_self _)
  · rw [Bool.and_eq_true, decide_eq_true_eq, decide_eq_true_eq]
    exact ⟨rfl, hpublish⟩

theorem restoreCommand_commands
    (s : AsyncState) (m : Handle) (command : Command) :
    (s.restoreCommand m command).commands = s.commands ++ [s.element m command false] ∧
      (s.restoreCommand m command).added = s.added + 1 := by
  rw [restoreCommand]
  split
  · exact ⟨rfl, rfl⟩
  · exact ⟨rfl, rfl⟩

theorem processCommand_some
    {cmd : CommandElement}
    (h : s.nextCommand = some cmd) :
    s.processCommand.commands = s.commands.erase cmd ∧ s.processCommand.added = s.added := by
  rw [processCommand, h]
  dsimp only
  rw [detachCommand]
  split
  · exact ⟨rfl, rfl⟩
  · exact ⟨rfl, rfl⟩

theorem processCommand_none
    (h : s.nextCommand = none) :
    s.processCommand = s := by
  rw [processCommand, h]

/-- The command that is taken is the first one of its client. -/
theorem nextCommand_eq_some
    {cmd : CommandElement}
    (h : s.nextCommand = some cmd) :
    s.mayProcess cmd = true ∧
      ∃ before after, s.commands = before ++ cmd :: after ∧
        ∀ b ∈ before, b.client ≠ cmd.client := by
  obtain ⟨hready, _, hsplit⟩ := Lib.firstReady_eq_some h
  exact ⟨hready, hsplit⟩

/-- A request that is taken is the first one of its lane. -/
theorem requests_of_nextCommand
    {cmd : CommandElement}
    (h : s.nextCommand = some cmd)
    (hrequest : cmd.isRequestOf m = true) :
    s.requests m = cmd :: (s.commands.erase cmd).filter (CommandElement.isRequestOf m) := by
  obtain ⟨_, before, after, hsplit, hbefore⟩ := nextCommand_eq_some h
  have hclient : cmd.client = m := by
    rw [CommandElement.isRequestOf, Bool.and_eq_true, decide_eq_true_eq] at hrequest
    exact hrequest.1
  have hnone : before.filter (CommandElement.isRequestOf m) = [] := by
    refine List.filter_eq_nil_iff.mpr fun b hb hin => ?_
    rw [CommandElement.isRequestOf, Bool.and_eq_true, decide_eq_true_eq] at hin
    exact hbefore b hb (hin.1.trans hclient.symm)
  have hlane : s.requests m = cmd :: after.filter (CommandElement.isRequestOf m) := by
    rw [requests, hsplit, List.filter_append, hnone, List.nil_append,
      List.filter_cons_of_pos hrequest]
  rw [← List.erase_filter]
  rw [requests] at hlane
  rw [requests, hlane, List.erase_cons_head]

/-- Removing what is no request of a client leaves its lane as it is. -/
theorem filter_erase_other
    {commands : List CommandElement} {cmd : CommandElement}
    (hother : cmd.isRequestOf m ≠ true) :
    (commands.erase cmd).filter (CommandElement.isRequestOf m) =
      commands.filter (CommandElement.isRequestOf m) := by
  rw [← List.erase_filter]
  exact List.erase_of_not_mem (fun hin => hother (List.mem_filter.mp hin).2)

end

/-! ### The ledgers stay balanced -/

/-- What holds after a run of the asynchronous clients. -/
structure InLanes (past : AsyncRun) (s : AsyncState) : Prop where
  serials : ∀ m, ∀ cmd ∈ (ledger m past).added, cmd.serial < s.added
  balanced : ∀ m, (ledger m past).Balanced (s.requests m)

namespace InLanes

variable {past : AsyncRun} {s t : AsyncState} {e : CommandEvent}

theorem fresh : InLanes [] fresh where
  serials _ _ h := absurd h List.not_mem_nil
  balanced _ := Lib.Ledger.Balanced.empty

/-- A step that adds, takes and discards nothing and leaves the lanes as they are. -/
theorem same
    (h : InLanes past s)
    (hadded : ∀ m, addedBy m ⟨s, e, t⟩ = [])
    (htaken : ∀ m, takenBy m ⟨s, e, t⟩ = [])
    (hdiscarded : ∀ m, discardedBy m ⟨s, e, t⟩ = [])
    (hserial : s.added ≤ t.added)
    (hsame : ∀ m, t.requests m = s.requests m) :
    InLanes (past ++ [⟨s, e, t⟩]) t := by
  have hledger : ∀ m, ledger m (past ++ [⟨s, e, t⟩]) = ledger m past := by
    intro m
    simp only [ledger_concat, hadded m, htaken m, hdiscarded m, List.append_nil]
  refine ⟨?_, ?_⟩
  · intro m cmd hcmd
    rw [hledger m] at hcmd
    exact lt_of_lt_of_le (h.serials m cmd hcmd) hserial
  · intro m
    rw [hledger m, hsame m]
    exact h.balanced m

/-- The lane of a client after one more command has been appended. -/
theorem add
    (h : InLanes past s)
    (cmd : CommandElement)
    (hcmd : cmd.serial = s.added)
    (m : Handle) :
    Lib.Ledger.Balanced
      { ledger m past with
        added := (ledger m past).added ++ [cmd].filter (CommandElement.isRequestOf m) }
      ((s.commands ++ [cmd]).filter (CommandElement.isRequestOf m)) := by
  rw [List.filter_append]
  by_cases hrequest : cmd.isRequestOf m = true
  · rw [List.filter_cons_of_pos hrequest, List.filter_nil]
    refine (h.balanced m).add fun hin => ?_
    exact absurd (h.serials m cmd hin) (by rw [hcmd]; exact lt_irrefl _)
  · rw [List.filter_cons_of_neg hrequest, List.filter_nil, List.append_nil, List.append_nil]
    exact h.balanced m

/-- The numbers of the commands added, after one more has been appended. -/
theorem serials_add
    (h : InLanes past s)
    {cmd : CommandElement}
    (hcmd : cmd.serial = s.added)
    {m : Handle} :
    ∀ c ∈ (ledger m past).added ++ [cmd].filter (CommandElement.isRequestOf m),
      c.serial < s.added + 1 := by
  intro c hc
  rcases List.mem_append.mp hc with hc | hc
  · exact Nat.lt_succ_of_lt (h.serials m c hc)
  · obtain rfl := List.mem_singleton.mp (List.mem_filter.mp hc).1
    rw [hcmd]
    exact Nat.lt_succ_self _

theorem step_restoreCommand
    (h : InLanes past s)
    (m' : Handle) (command : Command) :
    InLanes (past ++ [⟨s, .restoreCommand m' command, s.restoreCommand m' command⟩])
      (s.restoreCommand m' command) := by
  obtain ⟨hcommands, hadded⟩ := restoreCommand_commands s m' command
  have hledger : ∀ m, ledger m (past ++ [⟨s, .restoreCommand m' command,
      s.restoreCommand m' command⟩]) =
        { ledger m past with
          added := (ledger m past).added ++
            [s.element m' command false].filter (CommandElement.isRequestOf m) } := by
    intro m
    simp only [ledger_concat, addedBy, takenBy, discardedBy, List.append_nil]
  refine ⟨?_, ?_⟩
  · intro m
    rw [hledger m, hadded]
    exact h.serials_add rfl
  · intro m
    rw [hledger m, requests, hcommands]
    exact h.add _ rfl m

theorem step_addCommand
    (h : InLanes past s)
    (m' : Handle) (command : Command) (internal : Bool) :
    InLanes (past ++ [⟨s, .addCommand m' command internal, s.addCommand m' command internal⟩])
      (s.addCommand m' command internal) := by
  by_cases hfirst : goesFirst command internal
  · have hnone : ∀ m, [s.element m' command internal].filter (CommandElement.isRequestOf m) =
        [] := by
      intro m
      refine List.filter_cons_of_neg fun hin => ?_
      rw [CommandElement.isRequestOf, Bool.and_eq_true] at hin
      exact Bool.noConfusion (hin.2.symm.trans hfirst.not_request)
    have hnot : ¬(command.type = .publish ∧ s.bufferIsFull m' = true) := by
      rintro ⟨hpublish, _⟩
      rcases hfirst with hother | ⟨hother, _⟩ <;> rw [hpublish] at hother <;> cases hother
    have hdiscards : s.discards m' command internal = none := if_neg hnot
    refine h.same hnone (fun _ => rfl) (fun m => ?_) ?_ (fun m => ?_)
    · simp only [discardedBy, hdiscards, Option.toList_none, List.filter_nil]
    · exact (addCommand_first hfirst (P := fun _ => false) (fun _ h => Bool.noConfusion h)).2.2
    · refine (addCommand_first hfirst fun cmd hcmd => ?_).1
      rw [CommandElement.isRequestOf, Bool.and_eq_true] at hcmd
      exact hcmd.2
  · obtain ⟨hadded, hcommands⟩ := addCommand_last (s := s) (m := m') hfirst
    have hledger : ∀ m, ledger m (past ++ [⟨s, .addCommand m' command internal,
        s.addCommand m' command internal⟩]) =
          { added := (ledger m past).added ++
              [s.element m' command internal].filter (CommandElement.isRequestOf m)
            taken := (ledger m past).taken
            dropped := (ledger m past).dropped ++
              (s.discards m' command internal).toList.filter (CommandElement.isRequestOf m) } := by
      intro m
      simp only [ledger_concat, addedBy, takenBy, discardedBy, List.append_nil]
    refine ⟨?_, ?_⟩
    · intro m
      rw [hledger m, hadded]
      exact h.serials_add rfl
    · intro m
      have hlane := h.add (s.element m' command internal) rfl m
      rw [hledger m, requests, hcommands]
      cases hdiscards : s.discards m' command internal with
      | none =>
          rw [Option.toList_none, List.filter_nil, List.append_nil]
          exact hlane
      | some cmd =>
          obtain ⟨_, _, _, _, hin⟩ := discards_eq_some hdiscards
          rw [Option.toList_some]
          dsimp only
          by_cases hrequest : cmd.isRequestOf m = true
          · rw [List.filter_cons_of_pos hrequest, List.filter_nil, ← List.erase_filter]
            exact hlane.drop (List.mem_filter.mpr ⟨hin, hrequest⟩)
          · rw [List.filter_cons_of_neg hrequest, List.filter_nil, List.append_nil,
              filter_erase_other hrequest]
            exact hlane

theorem step_processCommand
    (h : InLanes past s) :
    InLanes (past ++ [⟨s, .processCommand, s.processCommand⟩]) s.processCommand := by
  cases hnext : s.nextCommand with
  | none =>
      rw [processCommand_none hnext]
      refine h.same (fun _ => rfl) (fun m => ?_) (fun _ => rfl) le_rfl (fun _ => rfl)
      simp only [takenBy, hnext, Option.toList_none, List.filter_nil]
  | some cmd =>
      obtain ⟨hcommands, hadded⟩ := processCommand_some hnext
      have hledger : ∀ m, ledger m (past ++ [⟨s, .processCommand, s.processCommand⟩]) =
          { ledger m past with
            taken := (ledger m past).taken ++ [cmd].filter (CommandElement.isRequestOf m) } := by
        intro m
        simp only [ledger_concat, addedBy, takenBy, hnext, discardedBy, List.append_nil,
          Option.toList_some]
      refine ⟨?_, ?_⟩
      · intro m
        rw [hledger m, hadded]
        exact h.serials m
      · intro m
        rw [hledger m, requests, hcommands]
        by_cases hrequest : cmd.isRequestOf m = true
        · have hlane := h.balanced m
          rw [requests_of_nextCommand hnext hrequest] at hlane
          rw [List.filter_cons_of_pos hrequest, List.filter_nil]
          exact hlane.take
        · rw [List.filter_cons_of_neg hrequest, List.filter_nil, List.append_nil,
            filter_erase_other hrequest]
          exact h.balanced m

/-- Every step keeps the ledgers balanced. -/
theorem step
    (h : InLanes past s)
    (hstep : Step s e t) :
    InLanes (past ++ [⟨s, e, t⟩]) t := by
  obtain ⟨_, rfl⟩ := hstep
  cases e with
  | createWithOptions m options connection =>
      exact h.same (fun _ => rfl) (fun _ => rfl) (fun _ => rfl) le_rfl (fun _ => rfl)
  | restoreCommand m command =>
      exact h.step_restoreCommand m command
  | addCommand m command internal =>
      exact h.step_addCommand m command internal
  | processCommand =>
      exact h.step_processCommand
  | listFindItem cmd =>
      exact h.same (fun _ => rfl) (fun _ => rfl) (fun _ => rfl) le_rfl (fun _ => rfl)
  | connection m connection =>
      exact h.same (fun _ => rfl) (fun _ => rfl) (fun _ => rfl) le_rfl (fun _ => rfl)

end InLanes

/-- The ledgers are balanced after every run. -/
theorem lanes_balanced
    {tr : AsyncRun} {t : AsyncState}
    (hrun : Lib.Runs Step fresh tr t) :
    InLanes tr t :=
  (hrun.history_of (C := fun _ _ => True)
    (fun _ _ _ _ h _ hstep => h.step hstep) InLanes.fresh (fun _ _ => trivial)).2

/-- What has been discarded was discarded by the limit of its own client. -/
theorem discarded_by_limit
    {m : Handle} {tr : AsyncRun} {cmd : CommandElement}
    (h : cmd ∈ (ledger m tr).dropped) :
    ∃ x ∈ tr, ∃ command internal, x.event = .addCommand m command internal ∧
      command.type = .publish ∧ x.pre.bufferIsFull m = true ∧ cmd.command.type = .publish := by
  obtain ⟨x, hx, hcmd⟩ := List.mem_flatMap.mp h
  cases hevent : x.event with
  | addCommand m' command internal =>
      rw [discardedBy, hevent] at hcmd
      obtain ⟨hin, hrequest⟩ := List.mem_filter.mp hcmd
      obtain ⟨hpublish, hfull, hclient, htype, _⟩ := discards_eq_some (Option.mem_toList.mp hin)
      rw [CommandElement.isRequestOf, Bool.and_eq_true, decide_eq_true_eq] at hrequest
      obtain rfl : m' = m := hclient.symm.trans hrequest.1
      exact ⟨x, hx, command, internal, hevent, hpublish, hfull, htype⟩
  | _ =>
      rw [discardedBy, hevent] at hcmd
      cases hcmd

/--
In every run of any number of clients, the requests of each client are taken
in the order in which they were added, each at most once, and are passed over
only when the buffer limit of their own client has discarded them; and when the
first command of some client may be processed, a command is taken.
-/
theorem requests_in_order
    {tr : AsyncRun} {t : AsyncState}
    (hrun : Lib.Runs Step fresh tr t) :
    (∀ m, (ledger m tr).added.Nodup ∧ (ledger m tr).taken.Nodup ∧
      (ledger m tr).added.filter (fun cmd => decide (cmd ∉ (ledger m tr).dropped)) =
        (ledger m tr).taken ++ t.requests m) ∧
    (∀ m, ∀ cmd ∈ (ledger m tr).dropped,
      ∃ x ∈ tr, ∃ command internal, x.event = .addCommand m command internal ∧
        command.type = .publish ∧ x.pre.bufferIsFull m = true ∧
        cmd.command.type = .publish) ∧
    (∀ x ∈ tr, x.event = .processCommand → ∀ before cmd after,
      x.pre.commands = before ++ cmd :: after → (∀ b ∈ before, b.client ≠ cmd.client) →
      x.pre.mayProcess cmd = true →
        ∃ taken, x.pre.nextCommand = some taken ∧ x.post.commands = x.pre.commands.erase taken) := by
  have hlanes := lanes_balanced hrun
  refine ⟨fun m => ?_, fun m cmd hcmd => discarded_by_limit hcmd, ?_⟩
  · have hbalanced := hlanes.balanced m
    exact ⟨hbalanced.nodup, hbalanced.nodup_taken, hbalanced.balance⟩
  · intro x hx hevent before cmd after hsplit hbefore hmay
    obtain ⟨_, hpost⟩ := hrun.step_of_mem x hx
    have hsome : (Lib.firstReady CommandElement.client x.pre.mayProcess []
        (before ++ cmd :: after)).isSome = true :=
      Lib.firstReady_isSome hmay List.not_mem_nil hbefore
    rw [← hsplit] at hsome
    obtain ⟨taken, htaken⟩ := Option.isSome_iff_exists.mp hsome
    refine ⟨taken, htaken, ?_⟩
    rw [hpost, hevent]
    exact (processCommand_some htaken).1

/-- A QoS 0 PUBLISH. -/
def hello : Command where
  token := 0
  properties := MQTTProperties.initializer
  details := .pub ⟨some [97], 2, some [104, 105], 0, 0⟩

/-- Two clients queue a message each; only the second one is connected. -/
def oneBlocked : List CommandEvent :=
  [.createWithOptions 0 none ⟨false, .notInProgress, true, 0, 10, true, 4⟩,
    .createWithOptions 1 none ⟨true, .notInProgress, true, 0, 10, true, 4⟩,
    .addCommand 0 hello false, .addCommand 1 hello false, .processCommand]

/-- The second client's message is taken, the first client's stays in its lane. -/
theorem requests_in_order_oneBlocked :
    (ledger 1 (Lib.trace next fresh oneBlocked)).added =
      (ledger 1 (Lib.trace next fresh oneBlocked)).taken ∧
    (ledger 0 (Lib.trace next fresh oneBlocked)).taken = [] ∧
    (oneBlocked.foldl next fresh).requests 0 = [⟨0, hello, false, 0⟩] := by
  have hrun : Lib.Runs Step fresh (Lib.trace next fresh oneBlocked)
      (oneBlocked.foldl next fresh) :=
    runs_trace (by decide)
  have hbalance := ((requests_in_order hrun).1 1).2.2
  have hdropped : (ledger 1 (Lib.trace next fresh oneBlocked)).dropped = [] := by decide
  have hqueued : (oneBlocked.foldl next fresh).requests 1 = [] := by decide
  rw [hdropped, hqueued, List.append_nil] at hbalance
  refine ⟨?_, by decide, by decide⟩
  rw [← hbalance]
  exact (List.filter_eq_self.mpr fun _ _ => decide_eq_true List.not_mem_nil).symm

end AsyncState
end MQTTAsync
end PahoMqtt
