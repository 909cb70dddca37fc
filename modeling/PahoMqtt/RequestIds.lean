import PahoMqtt.Lib.CyclicSearch
import PahoMqtt.CommandQueue

/-!
# The message ids of outstanding requests

A request gets its id in one step of the calling thread and is put on the
command queue in a later one.  In between its id is in the hands of the caller,
where `MQTTAsync_assignMsgId` does not look for it: the search sees the command
queue, `outboundMsgs` and `responses` only.  The module follows the ids through
these places and says exactly when two requests get the same one.

`mqttasync_mutex` is held while an id is assigned, while a command is taken
from the queue and started, and while an acknowledgement or the completion of a
connection is handled, so that each of these is one step.
-/

namespace PahoMqtt
namespace MQTTAsync

/-- A request that has a message id; its serial number tells it from the others. -/
structure NumberedRequest where
  serial : Nat
  client : Handle
  type : PacketType
  msgid : Nat
deriving DecidableEq

/-- The fields of a client that hold message ids. -/
structure IdClient where
  msgID : Nat
  outboundMsgs : List NumberedRequest
  responses : List NumberedRequest

/-- The clients, the shared command queue and what callers have in hand. -/
structure IdState where
  client : Handle → IdClient
  commands : List NumberedRequest
  inHand : List NumberedRequest
  made : Nat

/-- The id after `msgid`. -/
def nextId (msgid : Nat) : Nat :=
  if msgid = MAX_MSG_ID.toNat then 1 else msgid + 1

namespace IdState

/-- `cmdMessageIDCompare` and `messageIDCompare` -/
def hasId (msgid : Nat) (request : NumberedRequest) : Bool :=
  request.msgid = msgid

/-- The id is found on one of the lists; the command queue is that of all clients. -/
def isListed (s : IdState) (m : Handle) (msgid : Nat) : Bool :=
  s.commands.any (hasId msgid) || (s.client m).outboundMsgs.any (hasId msgid) ||
    (s.client m).responses.any (hasId msgid)

/-- `MQTTAsync_assignMsgId`, where `cameRound` stands for the result 0. -/
def assignMsgId (s : IdState) (m : Handle) : Lib.SearchResult Nat :=
  Lib.cyclicSearch nextId (s.isListed m) (s.client m).msgID MAX_MSG_ID.toNat
    (nextId (s.client m).msgID)

def modifyClient (s : IdState) (m : Handle) (f : IdClient → IdClient) : IdState :=
  { s with client := fun m' => if m' = m then f (s.client m) else s.client m' }

end IdState

/-- What the threads do to the requests. -/
inductive IdEvent where
  | assignMsgId (m : Handle) (type : PacketType)
  | giveUp (request : NumberedRequest)
  | addCommand (request : NumberedRequest) (discarded : Option NumberedRequest)
  | processCommand (request : NumberedRequest) (ok : Bool)
  | acknowledge (m : Handle) (msgid : Nat) (published : Bool)
  | cleanSession (m : Handle)
  | freeResponses (m : Handle)

namespace IdState

/-- A command is started: a message is stored, and a response is awaited where that went well. -/
def start (s : IdState) (request : NumberedRequest) (ok : Bool) : IdState :=
  s.modifyClient request.client fun c =>
    { c with
      outboundMsgs :=
        if request.type = .publish then c.outboundMsgs ++ [request] else c.outboundMsgs
      responses := if ok then c.responses ++ [request] else c.responses }

/-- A request of the client gets an id. -/
def assigned (s : IdState) (m : Handle) (type : PacketType) (msgid : Nat) : IdState :=
  { s.modifyClient m (fun c => { c with msgID := msgid }) with
    inHand := s.inHand ++ [⟨s.made, m, type, msgid⟩]
    made := s.made + 1 }

def next (s : IdState) : IdEvent → IdState
  | .assignMsgId m type =>
      match s.assignMsgId m with
      | .found msgid => s.assigned m type msgid
      | _ => s
  -- the call returns an error after the id was assigned
  | .giveUp request => { s with inHand := s.inHand.erase request }
  | .addCommand request discarded =>
      { s with
        inHand := s.inHand.erase request
        commands :=
          match discarded with
          | some oldest => (s.commands ++ [request]).erase oldest
          | none => s.commands ++ [request] }
  | .processCommand request ok =>
      { s with commands := s.commands.erase request }.start request ok
  -- an acknowledgement that the protocol layer accepts also ends the message
  | .acknowledge m msgid published =>
      s.modifyClient m fun c =>
        { c with
          outboundMsgs :=
            if published then c.outboundMsgs.eraseP (hasId msgid) else c.outboundMsgs
          responses := c.responses.eraseP (hasId msgid) }
  | .cleanSession m => s.modifyClient m fun c => { c with msgID := 0, outboundMsgs := [] }
  | .freeResponses m => s.modifyClient m fun c => { c with responses := [] }

def Admissible (s : IdState) : IdEvent → Prop
  -- a search that does not end blocks the client for good
  | .assignMsgId m _ => s.assignMsgId m ≠ .outOfFuel
  | .giveUp request => request ∈ s.inHand
  | .addCommand request _ => request ∈ s.inHand
  | .processCommand request _ => request ∈ s.commands
  | _ => True

/-- A step of the threads. -/
def Step (s : IdState) (e : IdEvent) (t : IdState) : Prop :=
  s.Admissible e ∧ t = s.next e

/-- No request has been made. -/
def fresh : IdState where
  client _ := ⟨0, [], []⟩
  commands := []
  inHand := []
  made := 0

/-! ### Outstanding requests -/

/-- The request has its id and is not completed. -/
def Outstanding (s : IdState) (m : Handle) (request : NumberedRequest) : Prop :=
  request.client = m ∧
    (request ∈ s.inHand ∨ request ∈ s.commands ∨ request ∈ (s.client m).outboundMsgs ∨
      request ∈ (s.client m).responses)

/-- No two outstanding requests of a client have the same id. -/
def UniqueIds (s : IdState) : Prop :=
  ∀ m request request', s.Outstanding m request → s.Outstanding m request' →
    request.msgid = request'.msgid → request = request'

/-- No call of the client has the id in hand that the search comes to. -/
def Clear (s : IdState) : IdEvent → Prop
  | .assignMsgId m _ => ∀ request ∈ s.inHand, request.client = m →
      ¬Lib.Reaches nextId (s.isListed m) (s.client m).msgID MAX_MSG_ID.toNat
        (nextId (s.client m).msgID) request.msgid
  | _ => True

/-- The requests there are were made before, and no two of a client have the same id. -/
structure Distinct (s : IdState) : Prop where
  made : ∀ m request, s.Outstanding m request → request.serial < s.made
  unique : s.UniqueIds

@[simp] theorem modifyClient_self
    (s : IdState) (m : Handle) (f : IdClient → IdClient) :
    (s.modifyClient m f).client m = f (s.client m) :=
  if_pos rfl

theorem modifyClient_other
    (s : IdState) {m m' : Handle} (f : IdClient → IdClient)
    (h : m' ≠ m) :
    (s.modifyClient m f).client m' = s.client m' :=
  if_neg h

theorem not_listed
    {s : IdState} {m : Handle} {msgid : Nat}
    (h : s.isListed m msgid = false)
    {request : NumberedRequest}
    (hout : s.Outstanding m request)
    (hid : request.msgid = msgid) :
    request ∈ s.inHand := by
  rw [isListed, Bool.or_eq_false_iff, Bool.or_eq_false_iff] at h
  obtain ⟨⟨hcommands, houtbound⟩, hresponses⟩ := h
  have hfound : hasId msgid request = true := decide_eq_true hid
  rcases hout.2 with hin | hin | hin | hin
  · exact hin
  · exact absurd hfound (List.any_eq_false.mp hcommands request hin)
  · exact absurd hfound (List.any_eq_false.mp houtbound request hin)
  · exact absurd hfound (List.any_eq_false.mp hresponses request hin)

theorem outstanding_of_lists
    {s t : IdState}
    (hqueued : ∀ request, request ∈ t.inHand ∨ request ∈ t.commands →
      request ∈ s.inHand ∨ request ∈ s.commands)
    (hclient : ∀ m request, request.client = m →
      request ∈ (t.client m).outboundMsgs ∨ request ∈ (t.client m).responses →
        s.Outstanding m request)
    {m : Handle} {request : NumberedRequest}
    (h : t.Outstanding m request) :
    s.Outstanding m request := by
  obtain ⟨hm, hin⟩ := h
  rcases hin with hin | hin | hin | hin
  · rcases hqueued request (Or.inl hin) with hin | hin
    · exact ⟨hm, Or.inl hin⟩
    · exact ⟨hm, Or.inr (Or.inl hin)⟩
  · rcases hqueued request (Or.inr hin) with hin | hin
    · exact ⟨hm, Or.inl hin⟩
    · exact ⟨hm, Or.inr (Or.inl hin)⟩
  · exact hclient m request hm (Or.inl hin)
  · exact hclient m request hm (Or.inr hin)

/-- Where the lists of a client only lose requests, none becomes outstanding. -/
theorem outstanding_of_modifyClient
    {s : IdState} {m' : Handle} {f : IdClient → IdClient}
    (hf : ∀ request, request ∈ (f (s.client m')).outboundMsgs ∨
      request ∈ (f (s.client m')).responses →
        request ∈ (s.client m').outboundMsgs ∨ request ∈ (s.client m').responses)
    {m : Handle} {request : NumberedRequest}
    (h : (s.modifyClient m' f).Outstanding m request) :
    s.Outstanding m request := by
  refine outstanding_of_lists (s := s) (t := s.modifyClient m' f) (fun _ h => h) ?_ h
  intro m r hm hin
  by_cases hsame : m = m'
  · subst hsame
    rw [modifyClient_self] at hin
    exact ⟨hm, Or.inr (Or.inr (hf r hin))⟩
  · rw [modifyClient_other s f hsame] at hin
    exact ⟨hm, Or.inr (Or.inr hin)⟩

/-- A request is started from the queue. -/
theorem outstanding_of_start
    {s : IdState} {request : NumberedRequest} {ok : Bool}
    (hqueued : request ∈ s.commands)
    {m : Handle} {r : NumberedRequest}
    (h : ({ s with commands := s.commands.erase request }.start request ok).Outstanding m r) :
    s.Outstanding m r := by
  refine outstanding_of_lists ?_ ?_ h
  · intro r hr
    exact hr.imp_right List.mem_of_mem_erase
  · intro m r hm hin
    by_cases hsame : m = request.client
    · subst hsame
      rw [start, modifyClient_self] at hin
      dsimp only at hin
      have hcases : r = request ∨ r ∈ (s.client request.client).outboundMsgs ∨
          r ∈ (s.client request.client).responses := by
        rcases hin with hin | hin
        · split at hin
          · rcases List.mem_append.mp hin with hin | hin
            · exact Or.inr (Or.inl hin)
            · exact Or.inl (List.mem_singleton.mp hin)
          · exact Or.inr (Or.inl hin)
        · split at hin
          · rcases List.mem_append.mp hin with hin | hin
            · exact Or.inr (Or.inr hin)
            · exact Or.inl (List.mem_singleton.mp hin)
          · exact Or.inr (Or.inr hin)
      rcases hcases with rfl | hin
      · exact ⟨rfl, Or.inr (Or.inl hqueued)⟩
      · exact ⟨hm, Or.inr (Or.inr hin)⟩
    · rw [start, modifyClient_other _ _ hsame] at hin
      exact ⟨hm, Or.inr (Or.inr hin)⟩

/-- A step that only moves or completes requests makes none outstanding. -/
theorem outstanding_of_next
    {s : IdState} {e : IdEvent}
    (hadm : s.Admissible e)
    (hassign : ∀ m type, e ≠ .assignMsgId m type)
    {m : Handle} {request : NumberedRequest}
    (h : (s.next e).Outstanding m request) :
    s.Outstanding m request := by
  cases e with
  | assignMsgId m' type =>
      exact absurd rfl (hassign m' type)
  | giveUp given =>
      exact outstanding_of_lists (s := s) (t := s.next (.giveUp given))
        (fun _ hin => hin.imp_left List.mem_of_mem_erase)
        (fun _ _ hm hin => ⟨hm, Or.inr (Or.inr hin)⟩) h
  | addCommand added discarded =>
      refine outstanding_of_lists (s := s) (t := s.next (.addCommand added discarded)) ?_
        (fun _ _ hm hin => ⟨hm, Or.inr (Or.inr hin)⟩) h
      rintro r (hin | hin)
      · exact Or.inl (List.mem_of_mem_erase hin)
      · have hall : r ∈ s.commands ++ [added] := by
          cases discarded with
          | none => exact hin
          | some oldest => exact List.mem_of_mem_erase hin
        rcases List.mem_append.mp hall with hin | hin
        · exact Or.inr hin
        · obtain rfl := List.mem_singleton.mp hin
          exact Or.inl hadm
  | processCommand taken ok =>
      exact outstanding_of_start hadm h
  | acknowledge m' msgid published =>
      refine outstanding_of_modifyClient ?_ h
      rintro r (hin | hin)
      · cases published with
        | false => exact Or.inl hin
        | true => exact Or.inl (List.mem_of_mem_eraseP hin)
      · exact Or.inr (List.mem_of_mem_eraseP hin)
  | cleanSession m' =>
      refine outstanding_of_modifyClient ?_ h
      rintro r (hin | hin)
      · cases hin
      · exact Or.inr hin
  | freeResponses m' =>
      refine outstanding_of_modifyClient ?_ h
      rintro r (hin | hin)
      · exact Or.inl hin
      · cases hin

theorem made_le_next
    (s : IdState) (e : IdEvent) :
    s.made ≤ (s.next e).made := by
  cases e with
  | assignMsgId m type =>
      rw [next]
      split
      · exact Nat.le_succ s.made
      · exact le_rfl
  | _ =>
      exact le_rfl

/-- The new request is outstanding, and all others were. -/
theorem outstanding_assigned
    {s : IdState} {m' : Handle} {type : PacketType} {msgid : Nat} {m : Handle}
    {request : NumberedRequest} :
    (s.assigned m' type msgid).Outstanding m request ↔
      s.Outstanding m request ∨ request = ⟨s.made, m', type, msgid⟩ ∧ m' = m := by
  have hclient : ((s.assigned m' type msgid).client m).outboundMsgs =
        (s.client m).outboundMsgs ∧
      ((s.assigned m' type msgid).client m).responses = (s.client m).responses := by
    by_cases hsame : m = m'
    · subst hsame
      rw [assigned]
      dsimp only
      rw [modifyClient_self]
      exact ⟨rfl, rfl⟩
    · rw [assigned]
      dsimp only
      rw [modifyClient_other _ _ hsame]
      exact ⟨rfl, rfl⟩
  rw [Outstanding, hclient.1, hclient.2]
  constructor
  · rintro ⟨hm, hin | hin⟩
    · rcases List.mem_append.mp hin with hin | hin
      · exact Or.inl ⟨hm, Or.inl hin⟩
      · obtain rfl := List.mem_singleton.mp hin
        exact Or.inr ⟨rfl, hm⟩
    · exact Or.inl ⟨hm, Or.inr hin⟩
  · rintro (⟨hm, hin⟩ | ⟨rfl, hm⟩)
    · exact ⟨hm, hin.imp_left (List.mem_append_left _)⟩
    · exact ⟨hm, Or.inl (List.mem_append_right _ (List.mem_singleton_self _))⟩

/-! ### When two requests get the same id -/

theorem assignMsgId_eq_found_iff
    {s : IdState} {m : Handle} {msgid : Nat} :
    s.assignMsgId m = .found msgid ↔
      Lib.Reaches nextId (s.isListed m) (s.client m).msgID MAX_MSG_ID.toNat
        (nextId (s.client m).msgID) msgid :=
  Lib.cyclicSearch_eq_found_iff _ _ _

/-- A step makes at most one request outstanding, which is the next one to be made. -/
theorem outstanding_step
    {s t : IdState} {e : IdEvent}
    (hstep : Step s e t) :
    (∃ m type msgid, e = .assignMsgId m type ∧ s.assignMsgId m = .found msgid ∧
      t = s.assigned m type msgid) ∨
    (s.made ≤ t.made ∧ ∀ m request, t.Outstanding m request → s.Outstanding m request) := by
  obtain ⟨hadm, rfl⟩ := hstep
  by_cases hassign : ∃ m type, e = .assignMsgId m type
  · obtain ⟨m, type, rfl⟩ := hassign
    rw [next]
    cases hresult : s.assignMsgId m with
    | found msgid => exact Or.inl ⟨m, type, msgid, rfl, hresult, rfl⟩
    | cameRound => exact Or.inr ⟨le_rfl, fun _ _ hout => hout⟩
    | outOfFuel => exact Or.inr ⟨le_rfl, fun _ _ hout => hout⟩
  · exact Or.inr ⟨made_le_next s e, fun m request hout =>
      outstanding_of_next hadm (fun m type he => hassign ⟨m, type, he⟩) hout⟩

/-- All outstanding requests have been made before. -/
theorem made_step
    {s t : IdState} {e : IdEvent}
    (h : ∀ m request, s.Outstanding m request → request.serial < s.made)
    (hstep : Step s e t) :
    ∀ m request, t.Outstanding m request → request.serial < t.made := by
  intro m request hout
  rcases outstanding_step hstep with ⟨m', type, msgid, _, _, rfl⟩ | ⟨hmade, hsubset⟩
  · rcases outstanding_assigned.mp hout with hout | ⟨rfl, _⟩
    · exact Nat.lt_succ_of_lt (h m request hout)
    · exact Nat.lt_succ_self s.made
  · exact lt_of_lt_of_le (h m request (hsubset m request hout)) hmade

/-- A step that is clear keeps the ids distinct. -/
theorem Distinct.step
    {s t : IdState} {e : IdEvent}
    (h : Distinct s)
    (hclear : s.Clear e)
    (hstep : Step s e t) :
    Distinct t := by
  refine ⟨made_step h.made hstep, ?_⟩
  intro m' request request' hout hout' hid
  rcases outstanding_step hstep with ⟨m, type, msgid, rfl, hfound, rfl⟩ | ⟨_, hsubset⟩
  · have hreaches := assignMsgId_eq_found_iff.mp hfound
    have hother : ∀ request, s.Outstanding m request → request.msgid ≠ msgid := by
      intro request hout hid
      have hin := not_listed hreaches.1 hout hid
      exact hclear request hin hout.1 (hid ▸ hreaches)
    rcases outstanding_assigned.mp hout with hout | ⟨rfl, hm⟩
    · rcases outstanding_assigned.mp hout' with hout' | ⟨rfl, hm⟩
      · exact h.unique m' request request' hout hout' hid
      · exact absurd hid (hother request (hm ▸ hout))
    · rcases outstanding_assigned.mp hout' with hout' | ⟨rfl, _⟩
      · exact absurd hid.symm (hother request' (hm ▸ hout'))
      · rfl
  · exact h.unique m' request request' (hsubset m' request hout) (hsubset m' request' hout') hid

/-- With no id in hand every search is clear. -/
theorem clear_of_inHand_nil
    {s : IdState} {e : IdEvent}
    (h : s.inHand = []) :
    s.Clear e := by
  cases e with
  | assignMsgId m type =>
      intro request hin
      rw [h] at hin
      cases hin
  | _ =>
      trivial

/-- A step that is not clear gives a new request the id of another one. -/
theorem Distinct.step_breaks
    {s t : IdState} {e : IdEvent}
    (h : Distinct s)
    (hclear : ¬s.Clear e)
    (hstep : Step s e t) :
    ¬Distinct t := by
  obtain ⟨hadm, rfl⟩ := hstep
  cases e with
  | assignMsgId m type =>
      obtain ⟨request, hin, hm, hreaches⟩ : ∃ request ∈ s.inHand, request.client = m ∧
          Lib.Reaches nextId (s.isListed m) (s.client m).msgID MAX_MSG_ID.toNat
            (nextId (s.client m).msgID) request.msgid := by
        by_contra hnone
        exact hclear fun request hin hm hreaches => hnone ⟨request, hin, hm, hreaches⟩
      have hnext : s.next (.assignMsgId m type) = s.assigned m type request.msgid := by
        rw [next, assignMsgId_eq_found_iff.mpr hreaches]
      have hout : s.Outstanding m request := ⟨hm, Or.inl hin⟩
      intro hafter
      rw [hnext] at hafter
      have hsame := hafter.unique m request ⟨s.made, m, type, request.msgid⟩
        (outstanding_assigned.mpr (Or.inl hout)) (outstanding_assigned.mpr (Or.inr ⟨rfl, rfl⟩))
        rfl
      have hlt := h.made m request hout
      rw [hsame] at hlt
      exact absurd hlt (lt_irrefl s.made)
  | _ =>
      exact absurd trivial hclear

/--
From a state in which the outstanding requests of every client have different
ids, such as the empty one, they keep different ids all along a run exactly
when no search for an id comes to one that a caller has in hand.
-/
theorem unique_ids_iff
    {s t : IdState} {tr : List (Lib.Transition IdState IdEvent)}
    (hstart : Distinct s)
    (hrun : Lib.Runs Step s tr t) :
    (∀ x ∈ tr, x.post.UniqueIds) ↔ ∀ x ∈ tr, x.pre.Clear x.event := by
  have hmade := (hrun.invariant (fun _ _ _ h hstep => made_step h hstep) hstart.made).1
  have hiff : (∀ x ∈ tr, Distinct x.post) ↔ ∀ x ∈ tr, x.pre.Clear x.event :=
    hrun.invariant_iff (fun _ _ _ h hclear hstep => h.step hclear hstep)
      (fun _ _ _ h hclear hstep => h.step_breaks hclear hstep) hstart
  rw [← hiff]
  constructor
  · intro hunique x hx
    exact ⟨(hmade x hx).2, hunique x hx⟩
  · intro hdistinct x hx
    exact (hdistinct x hx).unique

theorem Distinct.fresh : Distinct fresh where
  made _ _ h := by
    rcases h.2 with hin | hin | hin | hin <;> cases hin
  unique _ _ _ h _ _ := by
    rcases h.2 with hin | hin | hin | hin <;> cases hin

/-- A message is queued before the next request gets its id. -/
def queuedInTime : List IdEvent :=
  [.assignMsgId 0 .publish, .addCommand ⟨0, 0, .publish, 1⟩ none, .assignMsgId 0 .subscribe]

/-- The session is cleaned while a call has an id in hand. -/
def cleanedInBetween : List IdEvent :=
  [.assignMsgId 0 .publish, .cleanSession 0, .assignMsgId 0 .subscribe]

theorem runs_queuedInTime :
    Lib.Runs Step fresh (Lib.trace next fresh queuedInTime) (queuedInTime.foldl next fresh) := by
  refine Lib.Runs.cons ⟨(fun h : _ = _ => by cases h), rfl⟩ ?_
  refine Lib.Runs.cons ⟨List.mem_cons_self, rfl⟩ ?_
  exact Lib.Runs.cons ⟨(fun h : _ = _ => by cases h), rfl⟩ (Lib.Runs.nil _)

/-- The message is on the queue with the id 1, and the subscription gets the id 2. -/
theorem unique_ids_queuedInTime :
    (queuedInTime.foldl next fresh).commands = [⟨0, 0, .publish, 1⟩] ∧
      (queuedInTime.foldl next fresh).inHand = [⟨1, 0, .subscribe, 2⟩] ∧
      ∀ x ∈ Lib.trace next fresh queuedInTime, x.post.UniqueIds := by
  refine ⟨by decide, by decide, (unique_ids_iff Distinct.fresh runs_queuedInTime).mpr ?_⟩
  intro x hx
  rcases List.mem_cons.mp hx with rfl | hx
  · exact clear_of_inHand_nil rfl
  · rcases List.mem_cons.mp hx with rfl | hx
    · trivial
    · obtain rfl := List.mem_singleton.mp hx
      exact clear_of_inHand_nil rfl

/-- Two requests of the client have the id 1 in hand. -/
theorem same_id_after_cleanSession :
    ∃ t, Lib.Runs Step fresh (Lib.trace next fresh cleanedInBetween) t ∧
      t.Outstanding 0 ⟨0, 0, .publish, 1⟩ ∧ t.Outstanding 0 ⟨1, 0, .subscribe, 1⟩ ∧
      ¬t.UniqueIds := by
  have hrun : Lib.Runs Step fresh (Lib.trace next fresh cleanedInBetween)
      (cleanedInBetween.foldl next fresh) := by
    refine Lib.Runs.cons ⟨(fun h : _ = _ => by cases h), rfl⟩ ?_
    refine Lib.Runs.cons ⟨trivial, rfl⟩ ?_
    exact Lib.Runs.cons ⟨(fun h : _ = _ => by cases h), rfl⟩ (Lib.Runs.nil _)
  have hinHand : (cleanedInBetween.foldl next fresh).inHand =
      [⟨0, 0, .publish, 1⟩, ⟨1, 0, .subscribe, 1⟩] := by decide
  have hout : ∀ request ∈ (cleanedInBetween.foldl next fresh).inHand, request.client = 0 →
      (cleanedInBetween.foldl next fresh).Outstanding 0 request :=
    fun _ hin hclient => ⟨hclient, Or.inl hin⟩
  rw [hinHand] at hout
  have hfirst := hout ⟨0, 0, .publish, 1⟩ List.mem_cons_self rfl
  have hsecond := hout ⟨1, 0, .subscribe, 1⟩ (List.mem_cons_of_mem _ List.mem_cons_self) rfl
  refine ⟨_, hrun, hfirst, hsecond, ?_⟩
  intro hunique
  exact absurd (hunique 0 _ _ hfirst hsecond rfl) (by decide)

end IdState
end MQTTAsync
end PahoMqtt
