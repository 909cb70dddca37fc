import PahoMqtt.ProtocolClient
import PahoMqtt.RequestIds

/-!
# Finding a free message id

`MQTTProtocol_assignMsgId` and `MQTTAsync_assignMsgId` go round the ids from the
one that was assigned last.  That id itself is never tried again, and where no id
was assigned yet the search does not notice that it has come round.
-/

namespace PahoMqtt

/-- The ids that a packet may have. -/
def IsMsgId (msgid : Nat) : Prop := 1 ≤ msgid ∧ msgid ≤ 65535

/-- A free id is found whenever there is one, and 0 is returned where there is none. -/
structure FindsFreeId (inUse : Nat → Bool) (result : Lib.SearchResult Nat) : Prop where
  ends : result ≠ .outOfFuel
  free : ∀ msgid, result = .found msgid → IsMsgId msgid ∧ inUse msgid = false
  found : (∃ msgid, IsMsgId msgid ∧ inUse msgid = false) → ∃ msgid, result = .found msgid
  none : result = .cameRound ↔ ∀ msgid, IsMsgId msgid → inUse msgid = true

namespace MQTTProtocol

/-- The search of `MQTTProtocol_assignMsgId`, where `cameRound` stands for the result 0. -/
def searchMsgId (client : Clients) : Lib.SearchResult MsgId :=
  Lib.cyclicSearch nextMsgId (fun msgid => (findMsg client.outboundMsgs msgid).isSome)
    client.msgID 65536 (nextMsgId client.msgID)

/-- The id is that of a message in flight. -/
def inUse (client : Clients) (msgid : Nat) : Bool :=
  client.outboundMsgs.any (fun m => m.msgid.toNat = msgid)

theorem assignMsgIdLoop_eq
    (msgs : List Messages) (start_msgid : MsgId) (fuel : Nat) (msgid : MsgId) :
    assignMsgIdLoop msgs start_msgid fuel msgid =
      match Lib.cyclicSearch nextMsgId (fun msgid => (findMsg msgs msgid).isSome) start_msgid
        fuel msgid with
      | .found msgid => msgid
      | _ => 0 := by
  induction fuel generalizing msgid with
  | zero =>
      rfl
  | succ fuel ih =>
      rw [assignMsgIdLoop, Lib.cyclicSearch]
      by_cases hused : (findMsg msgs msgid).isSome = true
      · rw [if_pos hused, if_pos hused]
        by_cases hround : nextMsgId msgid = start_msgid
        · simp only [hround, if_true]
        · simp only [hround, if_false]
          exact ih (nextMsgId msgid)
      · rw [if_neg hused, if_neg hused]

/-- The search is that of the function, which returns 0 where nothing is found. -/
theorem assignMsgId_eq
    (client : Clients) :
    (assignMsgId client).1 =
      match searchMsgId client with
      | .found msgid => msgid
      | _ => 0 :=
  assignMsgIdLoop_eq _ _ _ _

end MQTTProtocol

namespace MQTTAsync
namespace IdState

/-- The id is that of a request of the client that is queued, in flight or awaits its response. -/
def inUse (s : IdState) (m : Handle) (msgid : Nat) : Bool :=
  s.commands.any (fun request => request.client = m && hasId msgid request) ||
    (s.client m).outboundMsgs.any (hasId msgid) || (s.client m).responses.any (hasId msgid)

theorem isListed_of_inUse
    {s : IdState} {m : Handle} {msgid : Nat}
    (h : s.inUse m msgid = true) :
    s.isListed m msgid = true := by
  simp only [inUse, isListed, Bool.or_eq_true, List.any_eq_true, Bool.and_eq_true] at h ⊢
  rcases h with (⟨request, hmem, _, hid⟩ | hout) | hresponse
  · exact .inl (.inl ⟨request, hmem, hid⟩)
  · exact .inl (.inr hout)
  · exact .inr hresponse

end IdState

/-! ### Going round -/

/-- The ids in the order in which they are tried. -/
theorem nextId_iterate
    {start : Nat}
    (hstart : start ≤ 65535) (k : Nat) :
    nextId^[k] (nextId start) = (start + k) % 65535 + 1 := by
  have hmax : MAX_MSG_ID.toNat = 65535 := rfl
  induction k with
  | zero =>
      rw [Function.iterate_zero, id, nextId, hmax]
      split <;> omega
  | succ k ih =>
      rw [Function.iterate_succ_apply', ih, nextId, hmax]
      split <;> omega

/-- Every id but the last one is tried before the search can come round. -/
theorem exists_try
    {start msgid : Nat}
    (hstart : start ≤ 65535)
    (hid : IsMsgId msgid)
    (hne : msgid ≠ start) :
    ∃ k < 65535, nextId^[k] (nextId start) = msgid ∧ (start ≠ 0 → k < 65534) := by
  obtain ⟨hlow, hhigh⟩ := hid
  refine ⟨(msgid + 65534 - start) % 65535, Nat.mod_lt _ (by omega), ?_, fun hpos => ?_⟩
  · rw [nextId_iterate hstart]
    omega
  · omega

/-- Coming round takes a whole turn. -/
theorem le_of_round
    {start k : Nat}
    (hstart : start ≤ 65535)
    (hround : nextId^[k + 1] (nextId start) = start) :
    start ≠ 0 ∧ 65533 ≤ k := by
  rw [nextId_iterate hstart] at hround
  omega

/--
A free id is found if one other than the last is not on the lists that are searched,
and the answer that there is none is right where an id was assigned before.
-/
theorem search_findsFreeId_iff
    {start fuel : Nat} {listed inUse : Nat → Bool}
    (hstart : start ≤ 65535)
    (hfuel : 65535 ≤ fuel)
    (hlisted : ∀ msgid, inUse msgid = true → listed msgid = true) :
    FindsFreeId inUse (Lib.cyclicSearch nextId listed start fuel (nextId start)) ↔
      (∃ msgid, IsMsgId msgid ∧ msgid ≠ start ∧ listed msgid = false) ∨
        (start ≠ 0 ∧ ∀ msgid, IsMsgId msgid → inUse msgid = true) := by
  have hfree : ∀ msgid, listed msgid = false → inUse msgid = false := by
    intro msgid h
    by_contra hused
    rw [hlisted msgid (by simpa using hused)] at h
    cases h
  -- what is tried before the search ends, for the two ways in which it finds nothing
  have htried : (∀ j < 65534, listed (nextId^[j] (nextId start)) = true) → start ≠ 0 →
      ¬ ∃ msgid, IsMsgId msgid ∧ msgid ≠ start ∧ listed msgid = false := by
    rintro hpassed hpos ⟨msgid, hid, hne, hnot⟩
    obtain ⟨k, _, htry, hk⟩ := exists_try hstart hid hne
    rw [← htry, hpassed k (hk hpos)] at hnot
    cases hnot
  generalize hresult : Lib.cyclicSearch nextId listed start fuel (nextId start) = result
  cases result with
  | found msgid =>
      obtain ⟨hnot, k, hk, htry, hpassed⟩ := (Lib.cyclicSearch_eq_found_iff _ _ _).mp hresult
      have hid : IsMsgId msgid := by
        rw [nextId_iterate hstart] at htry
        constructor <;> omega
      have hne : msgid ≠ start := by
        cases k with
        | zero =>
            rw [nextId_iterate hstart] at htry
            omega
        | succ j =>
            exact htry ▸ (hpassed j (Nat.lt_succ_self j)).2
      refine iff_of_true { ends := ?_, free := ?_, found := fun _ => ⟨msgid, rfl⟩, none := ?_ }
        (.inl ⟨msgid, hid, hne, hnot⟩)
      · exact fun h => by cases h
      · intro msgid' h
        obtain rfl := Lib.SearchResult.found.inj h
        exact ⟨hid, hfree _ hnot⟩
      · refine iff_of_false (fun h => by cases h) fun hall => ?_
        have hused := hall msgid hid
        rw [hfree msgid hnot] at hused
        cases hused
  | cameRound =>
      obtain ⟨k, _, hround, hpassed⟩ := Lib.exists_of_cameRound hresult
      obtain ⟨hpos, hk⟩ := le_of_round hstart hround
      have hnone := htried (fun j hj => hpassed j (by omega)) hpos
      constructor
      · exact fun h => .inr ⟨hpos, h.none.mp rfl⟩
      · rintro (hother | ⟨_, hall⟩)
        · exact absurd hother hnone
        · refine ⟨fun h => (by cases h), fun _ h => (by cases h), ?_, iff_of_true rfl hall⟩
          rintro ⟨msgid, hid, hnot⟩
          rw [hall msgid hid] at hnot
          cases hnot
  | outOfFuel =>
      have hpassed := (Lib.cyclicSearch_eq_outOfFuel_iff _ _).mp hresult
      refine iff_of_false (fun h => h.ends rfl) ?_
      have hzero : start = 0 := by
        by_contra hpos
        refine (hpassed 65533 (by omega)).2 ?_
        rw [nextId_iterate hstart]
        omega
      rintro (⟨msgid, hid, hne, hnot⟩ | ⟨hpos, _⟩)
      · obtain ⟨k, hk, htry, _⟩ := exists_try hstart hid hne
        rw [← htry, (hpassed k (by omega)).1] at hnot
        cases hnot
      · exact hpos hzero

/-! ### Both functions -/

theorem nextMsgId_toNat
    (msgid : MsgId) :
    (MQTTProtocol.nextMsgId msgid).toNat = nextId msgid.toNat := by
  have hmax : MAX_MSG_ID.toNat = 65535 := rfl
  have hlt := msgid.toNat_lt
  rw [MQTTProtocol.nextMsgId, nextId]
  by_cases hlast : msgid = MAX_MSG_ID
  · rw [if_pos hlast, if_pos (congrArg UInt16.toNat hlast)]
    rfl
  · have hne : msgid.toNat ≠ MAX_MSG_ID.toNat := fun h => hlast (UInt16.toNat_inj.mp h)
    have hone : (1 : UInt16).toNat = 1 := rfl
    rw [if_neg hlast, if_neg hne, UInt16.toNat_add]
    omega

theorem isSome_findMsg
    (client : Clients) (msgid : MsgId) :
    (findMsg client.outboundMsgs msgid).isSome = MQTTProtocol.inUse client msgid.toNat := by
  rw [findMsg, List.isSome_find?, MQTTProtocol.inUse]
  simp only [UInt16.toNat_inj]

/-- The ids of both functions are searched in the same way. -/
theorem searchMsgId_toNat
    (client : Clients) :
    (MQTTProtocol.searchMsgId client).map UInt16.toNat =
      Lib.cyclicSearch nextId (MQTTProtocol.inUse client) client.msgID.toNat 65536
        (nextId client.msgID.toNat) := by
  rw [MQTTProtocol.searchMsgId, ← nextMsgId_toNat]
  exact (Lib.cyclicSearch_map (fun _ _ h => UInt16.toNat_inj.mp h)
    (fun msgid => (nextMsgId_toNat msgid).symm) (fun msgid => (isSome_findMsg client msgid).symm)
    _ _).symm

/--
Both functions find a free id exactly where one other than the last is on none of the
lists that they search, or where all are in use and the last is not 0.
-/
theorem assignMsgId_findsFreeId_iff
    (client : Clients) (s : IdState) (m : Handle)
    (hmsgID : (s.client m).msgID ≤ 65535) :
    (FindsFreeId (MQTTProtocol.inUse client)
        ((MQTTProtocol.searchMsgId client).map UInt16.toNat) ↔
      (∃ msgid, IsMsgId msgid ∧ msgid ≠ client.msgID.toNat ∧
          MQTTProtocol.inUse client msgid = false) ∨
        (client.msgID ≠ 0 ∧ ∀ msgid, IsMsgId msgid → MQTTProtocol.inUse client msgid = true)) ∧
    (FindsFreeId (s.inUse m) (s.assignMsgId m) ↔
      (∃ msgid, IsMsgId msgid ∧ msgid ≠ (s.client m).msgID ∧ s.isListed m msgid = false) ∨
        ((s.client m).msgID ≠ 0 ∧ ∀ msgid, IsMsgId msgid → s.inUse m msgid = true)) := by
  constructor
  · have hlt := client.msgID.toNat_lt
    have hzero : client.msgID ≠ 0 ↔ client.msgID.toNat ≠ 0 := by
      rw [ne_eq, ← UInt16.toNat_inj]
      rfl
    rw [searchMsgId_toNat, hzero]
    exact search_findsFreeId_iff (by omega) (by omega) fun _ h => h
  · exact search_findsFreeId_iff hmsgID (le_refl _) fun _ h => IdState.isListed_of_inUse h

/-- A client that assigned `msgID` last, with these messages in flight. -/
def sendingClient (msgID : MsgId) (outboundMsgs : List Messages) : Clients where
  net := ⟨false, false, none, 0, []⟩
  MQTTVersion := 4
  connected := true
  good := true
  msgID
  retryInterval := 0
  inboundMsgs := []
  outboundMsgs

theorem assignMsgId_findsFreeId_first :
    FindsFreeId (MQTTProtocol.inUse (sendingClient 0 []))
        ((MQTTProtocol.searchMsgId (sendingClient 0 [])).map UInt16.toNat) ∧
      FindsFreeId (IdState.fresh.inUse 0) (IdState.fresh.assignMsgId 0) := by
  obtain ⟨hprotocol, hasync⟩ :=
    assignMsgId_findsFreeId_iff (sendingClient 0 []) IdState.fresh 0 (Nat.zero_le _)
  have hone : IsMsgId 1 := ⟨le_refl 1, by omega⟩
  exact ⟨hprotocol.mpr (.inl ⟨1, hone, one_ne_zero, rfl⟩),
    hasync.mpr (.inl ⟨1, hone, one_ne_zero, rfl⟩)⟩

/-- The messages with all ids but 1, which was assigned last. -/
def allButFirst : List Messages :=
  (List.range 65534).map fun k =>
    { qos := 1, retain := false, msgid := UInt16.ofNat (k + 2), MQTTVersion := 4
      properties := MQTTProperties.initializer, publish := none, lastTouch := 0
      nextMessageType := none }

theorem inUse_allButFirst
    (msgid : Nat) :
    MQTTProtocol.inUse (sendingClient 1 allButFirst) msgid = true ↔ 2 ≤ msgid ∧ msgid ≤ 65535 := by
  have htoNat : ∀ k < 65534, (UInt16.ofNat (k + 2)).toNat = k + 2 := by
    intro k hk
    rw [UInt16.toNat_ofNat']
    omega
  simp only [MQTTProtocol.inUse, sendingClient, allButFirst, List.any_map, List.any_eq_true,
    List.mem_range, Function.comp_apply, decide_eq_true_eq]
  constructor
  · rintro ⟨k, hk, hid⟩
    rw [htoNat k hk] at hid
    omega
  · rintro ⟨hlow, hhigh⟩
    refine ⟨msgid - 2, by omega, ?_⟩
    rw [htoNat (msgid - 2) (by omega)]
    omega

/-- With all ids but 1 in flight, 1 is not found after it was assigned last. -/
theorem assignMsgId_skips_last :
    ¬ FindsFreeId (MQTTProtocol.inUse (sendingClient 1 allButFirst))
      ((MQTTProtocol.searchMsgId (sendingClient 1 allButFirst)).map UInt16.toNat) := by
  have hlast : (sendingClient 1 allButFirst).msgID.toNat = 1 := rfl
  rw [searchMsgId_toNat, hlast,
    search_findsFreeId_iff (by omega : 1 ≤ 65535) (by omega) (fun _ h => h)]
  rintro (⟨msgid, ⟨hlow, hhigh⟩, hne, hfree⟩ | ⟨_, hall⟩)
  · rw [(inUse_allButFirst msgid).mpr (by omega)] at hfree
    cases hfree
  · have hone := (inUse_allButFirst 1).mp (hall 1 ⟨le_refl 1, by omega⟩)
    omega

end MQTTAsync
end PahoMqtt
