import PahoMqtt.Socks5Memory

/-!
# Calls that use absent data

An attempt makes the calls of `socks5__send` and `socks5__read` in an order that
the proxy has a part in, and it makes them again after they returned an error.
The numbers of `in_packet` are right in all states that are reached.  Two things
are not looked at by the code: whether a reply that is read was freed after an
error, and whether there are a user name and a password when the proxy asks for
them.
-/

set_option linter.style.nameCheck false

namespace PahoMqtt
namespace Socks5

/-- The calls of an attempt, and what else changes the state. -/
inductive Call where
  | connect (sends : List SendAnswer)
  | send (sends : List SendAnswer)
  | read (recvs : List RecvAnswer) (sends : List SendAnswer)
  | giveUp
deriving DecidableEq

/-- The states in which `socks5__read` reads a reply. -/
def IsReading : Socks5State → Prop
  | .socks5_start | .socks5_userpass_reply | .socks5_request => True
  | _ => False

/-- How many bytes there are until `recv` fails or has none. -/
def deliverable : List RecvAnswer → Nat
  | .bytes (n + 1) :: answers => n + 1 + deliverable answers
  | _ => 0

namespace MemoryClient

/-- A call; none if an access of it is a fault. -/
def call (inet_pton : InetPton) (m : MemoryClient) : Call → Option (Int × MemoryClient)
  | .connect sends => (m.withState .socks5_new).socks5__send inet_pton sends
  | .send sends => m.socks5__send inet_pton sends
  | .read recvs sends => m.socks5__read inet_pton recvs sends
  | .giveUp => some (0, m.withState .error)

/-- The numbers of the packet that is read add up. -/
def Counts (m : MemoryClient) : Prop :=
  IsReading m.aClient.state → m.in_packet.payload ≠ none →
    m.in_packet.pos + m.in_packet.to_process = m.in_packet.packet_length

/-- No call has an access that is a fault, and the numbers add up in each state. -/
def Safe (inet_pton : InetPton) (m : MemoryClient) : List Call → Prop
  | [] => m.Counts
  | c :: calls =>
      m.Counts ∧ ∃ rc m', m.call inet_pton c = some (rc, m') ∧ m'.Safe inet_pton calls

/-- A user name and a password are set. -/
def HasCredentials (m : MemoryClient) : Prop :=
  m.aClient.socks5_username ≠ none ∧ m.aClient.socks5_password ≠ none

/-- All of the selection arrives, and it is the method of a user name and a password. -/
structure SelectsUserpass (recvs : List RecvAnswer) (m : MemoryClient) : Prop where
  state : m.aClient.state = .socks5_start
  arrives : m.in_packet.to_process ≤ min (deliverable recvs) m.aClient.unread.length
  selects : ∃ payload, m.in_packet.payload = some payload ∧
    [5, SOCKS_AUTH_USERPASS] <+: payload.take m.in_packet.pos ++ m.aClient.unread

/--
What a call relies on: that a reply which is read was not freed, and that the proxy
asks for a user name and a password only where they are set.
-/
def Relies (m : MemoryClient) : Call → Prop
  | .connect _ | .giveUp => True
  | .send _ => m.aClient.state = .socks5_send_userpass → m.HasCredentials
  | .read recvs _ =>
      (IsReading m.aClient.state → m.in_packet.payload ≠ none) ∧
        (m.SelectsUserpass recvs → m.HasCredentials)

/-- All calls meet what they rely on, up to one that does not return. -/
def Meets (inet_pton : InetPton) (m : MemoryClient) : List Call → Prop
  | [] => True
  | c :: calls =>
      m.Relies c ∧ ∀ rc m', m.call inet_pton c = some (rc, m') → m'.Meets inet_pton calls

end MemoryClient

/-! ### What arrives -/

/-- The loop reads all of the reply exactly where that much is delivered. -/
theorem fill_filled_iff
    {recvs : List RecvAnswer} {aClient : Socks5Client}
    (hpayload : aClient.in_packet.payload ≠ none) :
    (∃ after, fill recvs aClient = .filled after) ↔
      aClient.in_packet.to_process ≤ min (deliverable recvs) aClient.unread.length := by
  induction recvs generalizing aClient with
  | nil =>
      have hnothing : deliverable [] = 0 := rfl
      rw [fill, hnothing]
      split_ifs with hzero
      · exact iff_of_true ⟨aClient, rfl⟩ (by omega)
      · exact iff_of_false (by simp) (by omega)
  | cons answer answers ih =>
      rw [fill.eq_def]
      dsimp only
      by_cases hzero : aClient.in_packet.to_process = 0
      · rw [if_pos hzero]
        exact iff_of_true ⟨aClient, rfl⟩ (by omega)
      · rw [if_neg hzero]
        cases answer with
        | error errno =>
            rw [deliverable.eq_def]
            dsimp only
            split_ifs <;> exact iff_of_false (by simp) (by omega)
        | bytes n =>
            dsimp only
            generalize hdata : aClient.unread.take (min n aClient.in_packet.to_process) = data
            have hlength : data.length =
                min (min n aClient.in_packet.to_process) aClient.unread.length := by
              rw [← hdata, List.length_take]
            obtain ⟨payload, hsome⟩ := Option.ne_none_iff_exists'.mp hpayload
            rw [hsome]
            by_cases hempty : data = []
            · rw [if_pos hempty]
              have hnone : data.length = 0 := List.length_eq_zero_iff.mpr hempty
              refine iff_of_false (by simp) ?_
              cases n with
              | zero =>
                  rw [deliverable.eq_def]
                  dsimp only
                  omega
              | succ n =>
                  omega
            · rw [if_neg hempty]
              have hpos : 0 < data.length := List.length_pos_iff.mpr hempty
              dsimp only
              rw [ih (Option.some_ne_none _)]
              dsimp only
              cases n with
              | zero =>
                  omega
              | succ n =>
                  rw [deliverable, List.length_drop]
                  omega

theorem socks5__send_eq_none_iff
    {inet_pton : InetPton} {sends : List SendAnswer} {aClient : Socks5Client} :
    socks5__send inet_pton sends aClient = none ↔
      aClient.state = .socks5_send_userpass ∧
        ¬ (aClient.socks5_username ≠ none ∧ aClient.socks5_password ≠ none) := by
  rw [socks5__send]
  cases hstate : aClient.state with
  | socks5_auth_ok =>
      dsimp only
      cases connectPacket inet_pton aClient.serverURI <;> simp
  | socks5_send_userpass =>
      cases aClient.socks5_username with
      | none => simp
      | some username =>
          cases aClient.socks5_password <;> simp
  | new | socks5_new | socks5_start | socks5_request | socks5_userpass_reply | error =>
      simp

/-- The selection of a method is evaluated without what it needs. -/
theorem evaluateMethod_eq_none_iff
    {inet_pton : InetPton} {sends : List SendAnswer} {aClient : Socks5Client} {payload : Bytes} :
    evaluateMethod inet_pton sends aClient payload = none ↔
      (payload.getD 0 0 = 5 ∧ payload.getD 1 0 = SOCKS_AUTH_USERPASS) ∧
        ¬ (aClient.socks5_username ≠ none ∧ aClient.socks5_password ≠ none) := by
  rw [evaluateMethod]
  split_ifs with hversion hnone huserpass
  · exact iff_of_false not_false fun h => hversion h.1.1
  · rw [socks5__send_eq_none_iff]
    refine iff_of_false (fun h => by cases h.1) fun h => ?_
    rw [hnone] at h
    cases h.1.2
  · rw [socks5__send_eq_none_iff]
    exact ⟨fun h => ⟨⟨not_not.mp hversion, huserpass⟩, h.2⟩, fun h => ⟨rfl, h.2⟩⟩
  · exact iff_of_false not_false fun h => huserpass h.1.2

theorem evaluateUserpass_ne_none
    (inet_pton : InetPton) (sends : List SendAnswer) (aClient : Socks5Client) (payload : Bytes) :
    evaluateUserpass inet_pton sends aClient payload ≠ none := by
  rw [evaluateUserpass]
  split_ifs
  · simp
  · rw [ne_eq, socks5__send_eq_none_iff]
    simp
  · simp

theorem evaluateRequest_ne_none
    (aClient : Socks5Client) (payload : Bytes) :
    evaluateRequest aClient payload ≠ none := by
  rw [evaluateRequest]
  split_ifs
  · cases moreBytes payload <;> simp
  · simp
  · simp
  · simp

namespace MemoryClient

section Delivered

variable {m : MemoryClient} {payload : Bytes}

theorem abstract_payload
    (hpayload : m.in_packet.payload = some payload) :
    m.abstract.in_packet.payload = some (payload.take m.in_packet.pos) := by
  simp only [abstract, PacketMemory.abstract, hpayload, Option.map_some]

/-- A reply of which all arrives is evaluated. -/
theorem readReply_delivered
    {recvs : List RecvAnswer}
    (hpayload : m.in_packet.payload = some payload)
    (hdelivered : m.in_packet.to_process ≤ min (deliverable recvs) m.aClient.unread.length)
    (evaluate : Socks5Client → Bytes → Option (Int × Socks5Client)) :
    Socks5.readReply recvs m.abstract evaluate =
      evaluate (received m.abstract (m.aClient.unread.take m.in_packet.to_process))
        (payload.take m.in_packet.pos ++ m.aClient.unread.take m.in_packet.to_process) := by
  have hbytes := abstract_payload hpayload
  have hsome : m.abstract.in_packet.payload ≠ none := by simp [hbytes]
  obtain ⟨after, hfill⟩ := (fill_filled_iff hsome).mpr hdelivered
  have hfills := fill_spec recvs m.abstract
  rw [Socks5.readReply]
  rw [hfill] at hfills ⊢
  cases hfills with
  | @filled data hread hlength =>
      obtain rfl : data = m.aClient.unread.take m.in_packet.to_process := by
        rw [List.prefix_iff_eq_take.mp hread, hlength]
        rfl
      simp only [received, hbytes, Option.map_some]

/-- The call ends with a fault exactly where all of the reply arrives and its evaluation does. -/
theorem readReply_eq_none_iff
    (h : m.Consistent)
    (hpayload : m.in_packet.payload = some payload) (recvs : List RecvAnswer)
    (evaluate : Socks5Client → Bytes → Option (Int × Socks5Client)) :
    Socks5.readReply recvs m.abstract evaluate = none ↔
      m.in_packet.to_process ≤ min (deliverable recvs) m.aClient.unread.length ∧
        evaluate (received m.abstract (m.aClient.unread.take m.in_packet.to_process))
          (payload.take m.in_packet.pos ++ m.aClient.unread.take m.in_packet.to_process) =
            none := by
  by_cases hdelivered : m.in_packet.to_process ≤ min (deliverable recvs) m.aClient.unread.length
  · rw [readReply_delivered hpayload hdelivered, and_iff_right hdelivered]
  · have hsome : m.abstract.in_packet.payload ≠ none := by simp [abstract_payload hpayload]
    have hfilled := (fill_filled_iff hsome).not.mpr hdelivered
    have hrefines := refines_fill h recvs
    rw [Socks5.readReply]
    generalize m.fill recvs = reading, Socks5.fill recvs m.abstract = filling at hrefines hfilled
    cases hrefines with
    | filled =>
        exact absurd ⟨_, rfl⟩ hfilled
    | returned rc _ =>
        exact iff_of_false (Option.some_ne_none _) fun hboth => hdelivered hboth.1

end Delivered

/-- A reply that was freed is used, whatever arrives. -/
theorem readReply_freed
    {m : MemoryClient}
    (h : m.Consistent)
    (hpayload : m.in_packet.payload = none) (recvs : List RecvAnswer)
    (evaluate : Socks5Client → Bytes → Option (Int × Socks5Client)) :
    Socks5.readReply recvs m.abstract evaluate = none := by
  have hbytes : m.abstract.in_packet.payload = none := by
    simp only [abstract, PacketMemory.abstract, hpayload, Option.map_none]
  have hzero : m.abstract.in_packet.to_process = 0 := h.memory.freed hpayload
  have hfill : Socks5.fill recvs m.abstract = .filled m.abstract := by
    rw [Socks5.fill.eq_def]
    cases recvs <;> exact if_pos hzero
  rw [Socks5.readReply, hfill]
  dsimp only
  rw [hbytes]

/-- The two bytes of a selection that arrived. -/
theorem selects_iff
    {m : MemoryClient} {payload : Bytes}
    (h : m.Consistent)
    (hstate : m.aClient.state = .socks5_start)
    (hpayload : m.in_packet.payload = some payload)
    (harrives : m.in_packet.to_process ≤ m.aClient.unread.length) :
    ((payload.take m.in_packet.pos ++
          m.aClient.unread.take m.in_packet.to_process).getD 0 0 = 5 ∧
        (payload.take m.in_packet.pos ++
          m.aClient.unread.take m.in_packet.to_process).getD 1 0 = SOCKS_AUTH_USERPASS) ↔
      [5, SOCKS_AUTH_USERPASS] <+: payload.take m.in_packet.pos ++ m.aClient.unread := by
  obtain ⟨hlength, hcount⟩ := h.memory.allocated payload hpayload
  have hexpected := h.expected (by simp [hpayload])
  rw [hstate] at hexpected
  have htwo : 2 ≤ m.in_packet.packet_length := hexpected
  have hsplit : payload.take m.in_packet.pos ++ m.aClient.unread =
      payload.take m.in_packet.pos ++ m.aClient.unread.take m.in_packet.to_process ++
        m.aClient.unread.drop m.in_packet.to_process := by
    rw [List.append_assoc, List.take_append_drop]
  have hreply : 2 ≤ (payload.take m.in_packet.pos ++
      m.aClient.unread.take m.in_packet.to_process).length := by
    rw [List.length_append, List.length_take, List.length_take]
    omega
  rw [hsplit]
  generalize payload.take m.in_packet.pos ++ m.aClient.unread.take m.in_packet.to_process = reply
    at hreply
  match reply, hreply with
  | a :: b :: rest, _ =>
      simp [List.cons_prefix_cons, eq_comm]

/-- A call of `socks5__read` returns exactly where it has what it relies on. -/
theorem read_ne_none_iff
    {m : MemoryClient}
    (h : m.Consistent) (inet_pton : InetPton) (recvs : List RecvAnswer)
    (sends : List SendAnswer) :
    m.socks5__read inet_pton recvs sends ≠ none ↔ m.Relies (.read recvs sends) := by
  have himage := (refines_read h inet_pton recvs sends).image
  have hfault : m.socks5__read inet_pton recvs sends = none ↔
      Socks5.socks5__read inet_pton recvs sends m.abstract = none := by
    rw [← himage, Option.map_eq_none_iff]
  have hstate : m.abstract.state = m.aClient.state := rfl
  rw [ne_eq, hfault, Socks5.socks5__read, hstate, Relies]
  cases hpayload : m.in_packet.payload with
  | none =>
      have hfreed := readReply_freed h hpayload recvs
      have hselects : ¬ m.SelectsUserpass recvs := by
        rintro ⟨_, _, payload, hsome, _⟩
        rw [hpayload] at hsome
        cases hsome
      cases hreading : m.aClient.state <;> simp [IsReading, hfreed, hselects]
  | some payload =>
      have hother : m.aClient.state ≠ .socks5_start → ¬ m.SelectsUserpass recvs :=
        fun hne hselects => hne hselects.state
      cases hreading : m.aClient.state with
      | socks5_start =>
          have hselects : (m.in_packet.to_process ≤
                min (deliverable recvs) m.aClient.unread.length ∧
              [5, SOCKS_AUTH_USERPASS] <+: payload.take m.in_packet.pos ++ m.aClient.unread) ↔
                m.SelectsUserpass recvs := by
            constructor
            · exact fun hboth => ⟨hreading, hboth.1, payload, hpayload, hboth.2⟩
            · rintro ⟨_, harrives, payload', hsome, hbegins⟩
              obtain rfl := Option.some.inj (hpayload.symm.trans hsome)
              exact ⟨harrives, hbegins⟩
          dsimp only
          rw [readReply_eq_none_iff h hpayload, evaluateMethod_eq_none_iff, ← and_assoc,
            and_congr_right fun harrives => selects_iff h hreading hpayload (by omega), hselects]
          have hcredentials : (received m.abstract
                (m.aClient.unread.take m.in_packet.to_process)).socks5_username ≠ none ∧
              (received m.abstract
                (m.aClient.unread.take m.in_packet.to_process)).socks5_password ≠ none ↔
              m.HasCredentials := Iff.rfl
          rw [hcredentials, not_and, not_not]
          simp
      | socks5_userpass_reply =>
          dsimp only
          rw [readReply_eq_none_iff h hpayload]
          simp [evaluateUserpass_ne_none, hother (by simp [hreading])]
      | socks5_request =>
          dsimp only
          rw [readReply_eq_none_iff h hpayload]
          simp [evaluateRequest_ne_none, hother (by simp [hreading])]
      | new | socks5_new | socks5_auth_ok | socks5_send_userpass | error =>
          simp [hother (by simp [hreading])]

theorem Consistent.withState
    {m : MemoryClient} {state : Socks5State}
    (h : m.Consistent)
    (hlength : replyLength state = 0) :
    (m.withState state).Consistent where
  memory := h.memory
  expected _ := hlength ▸ Nat.zero_le _

/-- What a call leaves is consistent. -/
theorem Consistent.call
    {m m' : MemoryClient} {inet_pton : InetPton} {c : Call} {rc : Int}
    (h : m.Consistent)
    (hcall : m.call inet_pton c = some (rc, m')) :
    m'.Consistent := by
  cases c with
  | connect sends =>
      have hnew : (m.withState .socks5_new).Consistent := h.withState rfl
      exact (refines_send hnew inet_pton sends).consistent rc m' hcall
  | send sends =>
      exact (refines_send h inet_pton sends).consistent rc m' hcall
  | read recvs sends =>
      exact (refines_read h inet_pton recvs sends).consistent rc m' hcall
  | giveUp =>
      obtain rfl := (Prod.mk.inj (Option.some.inj hcall)).2
      exact h.withState rfl

/-- A call returns exactly where it has what it relies on. -/
theorem call_ne_none_iff
    {m : MemoryClient}
    (h : m.Consistent) (inet_pton : InetPton) (c : Call) :
    m.call inet_pton c ≠ none ↔ m.Relies c := by
  have hsend (m : MemoryClient) (h : m.Consistent) (sends : List SendAnswer) :
      m.socks5__send inet_pton sends ≠ none ↔
        (m.aClient.state = .socks5_send_userpass → m.HasCredentials) := by
    have hfault : m.socks5__send inet_pton sends = none ↔
        Socks5.socks5__send inet_pton sends m.abstract = none := by
      rw [← (refines_send h inet_pton sends).image, Option.map_eq_none_iff]
    rw [ne_eq, hfault, socks5__send_eq_none_iff, not_and, not_not]
    exact Iff.rfl
  cases c with
  | connect sends =>
      rw [MemoryClient.call, hsend _ (h.withState rfl)]
      exact iff_of_true (fun hstate => by cases hstate) trivial
  | send sends =>
      exact hsend m h sends
  | read recvs sends =>
      exact read_ne_none_iff h inet_pton recvs sends
  | giveUp =>
      exact iff_of_true (Option.some_ne_none _) trivial

theorem Consistent.counts
    {m : MemoryClient}
    (h : m.Consistent) :
    m.Counts := by
  intro _ hpayload
  obtain ⟨payload, hsome⟩ := Option.ne_none_iff_exists'.mp hpayload
  exact (h.memory.allocated payload hsome).2

theorem Consistent.safe_iff
    {m : MemoryClient}
    (h : m.Consistent) (inet_pton : InetPton) (calls : List Call) :
    m.Safe inet_pton calls ↔ m.Meets inet_pton calls := by
  induction calls generalizing m with
  | nil =>
      exact iff_of_true h.counts trivial
  | cons c calls ih =>
      rw [Safe, Meets, and_iff_right h.counts, ← call_ne_none_iff h inet_pton c]
      constructor
      · rintro ⟨rc, m', hcall, hsafe⟩
        refine ⟨by simp [hcall], fun rc' m'' hcall' => ?_⟩
        obtain ⟨rfl, rfl⟩ := Prod.mk.inj (Option.some.inj (hcall.symm.trans hcall'))
        exact (ih (h.call hcall)).mp hsafe
      · rintro ⟨hreturns, hrest⟩
        obtain ⟨⟨rc, m'⟩, hcall⟩ := Option.ne_none_iff_exists'.mp hreturns
        exact ⟨rc, m', hcall, (ih (h.call hcall)).mpr (hrest rc m' hcall)⟩

/-- A client without a user name, which a proxy sends `unread` to. -/
def anonymous (unread : Bytes) : Socks5Client where
  state := .socks5_new
  socks5_username := none
  socks5_password := none
  serverURI := [97]
  in_packet := ⟨none, 0, 0⟩
  out_packet := []
  queued := []
  consumed := []
  unread

end MemoryClient

end Socks5
end PahoMqtt
