import PahoMqtt.Socks5Safety

/-!
# Reading a reply until it is finished

`Socks5_ReadThread` calls `socks5__read` again at once where it returned
`PAHOMQTT_ERR_NOT_FINISHED`.  That happens when the length of a reply is known, and
the reader then has to ask for more.  It does not where the reply has a name of no
bytes: the length stays the one that the reply was begun with.
-/

set_option linter.style.nameCheck false

namespace PahoMqtt
namespace Socks5

/-! ### Which calls do not finish -/

theorem success_ne_notFinished :
    ERR_SUCCESS ≠ ERR_NOT_FINISHED := by
  decide

theorem writeError_ne_notFinished
    (errno : Int) :
    writeError errno ≠ ERR_NOT_FINISHED := by
  rw [writeError]
  split_ifs <;> decide

theorem packet__write_ne_notFinished
    (sends : List SendAnswer) (packets : List Bytes) :
    (packet__write sends packets).1 ≠ ERR_NOT_FINISHED := by
  induction sends generalizing packets with
  | nil =>
      cases packets <;> exact success_ne_notFinished
  | cons answer answers ih =>
      cases packets with
      | nil =>
          exact success_ne_notFinished
      | cons packet packets =>
          cases answer with
          | error errno =>
              exact writeError_ne_notFinished errno
          | bytes n =>
              rw [packet__write]
              split_ifs
              · exact ih packets
              · exact ih (packet.drop (n + 1) :: packets)

theorem socks5__send_ne_notFinished
    {inet_pton : InetPton} {sends : List SendAnswer} {aClient aClient' : Socks5Client} {rc : Int}
    (h : socks5__send inet_pton sends aClient = some (rc, aClient')) :
    rc ≠ ERR_NOT_FINISHED := by
  have hqueue {before : Socks5Client} {packet : Bytes}
      (h : some (packet__queue sends before packet) = some (rc, aClient')) :
      rc ≠ ERR_NOT_FINISHED := by
    have hrc := (Prod.mk.inj (Option.some.inj h)).1
    exact hrc ▸ packet__write_ne_notFinished sends _
  have hother {rc' : Int} {after : Socks5Client}
      (h : some (rc', after) = some (rc, aClient'))
      (hne : rc' ≠ ERR_NOT_FINISHED) :
      rc ≠ ERR_NOT_FINISHED := (Prod.mk.inj (Option.some.inj h)).1 ▸ hne
  rw [socks5__send] at h
  cases hstate : aClient.state with
  | socks5_new =>
      rw [hstate] at h
      exact hqueue h
  | socks5_auth_ok =>
      rw [hstate] at h
      dsimp only at h
      cases hpacket : connectPacket inet_pton aClient.serverURI with
      | none =>
          rw [hpacket] at h
          exact hother h (by decide)
      | some packet =>
          rw [hpacket] at h
          exact hqueue h
  | socks5_send_userpass =>
      rw [hstate] at h
      dsimp only at h
      split at h
      · exact hqueue h
      · cases h
  | new | socks5_start | socks5_request | socks5_userpass_reply | error =>
      rw [hstate] at h
      exact hother h success_ne_notFinished

theorem readError_ne_notFinished
    (errno : Int) :
    readError errno ≠ ERR_NOT_FINISHED := by
  rw [readError]
  split_ifs <;> decide

theorem replyError_ne_notFinished
    (i : UInt8) :
    replyError i ≠ ERR_NOT_FINISHED := by
  rw [replyError]
  split_ifs <;> decide

theorem fill_returned_ne_notFinished
    {recvs : List RecvAnswer} {aClient aClient' : Socks5Client} {rc : Int}
    (h : fill recvs aClient = .returned rc aClient') :
    rc ≠ ERR_NOT_FINISHED := by
  induction recvs generalizing aClient with
  | nil =>
      rw [fill.eq_def] at h
      dsimp only at h
      split_ifs at h
      obtain ⟨rfl, _⟩ := Filling.returned.inj h
      exact success_ne_notFinished
  | cons answer answers ih =>
      rw [fill.eq_def] at h
      dsimp only at h
      split_ifs at h
      cases answer with
      | error errno =>
          dsimp only at h
          split_ifs at h
          · obtain ⟨rfl, _⟩ := Filling.returned.inj h
            exact success_ne_notFinished
          · obtain ⟨rfl, _⟩ := Filling.returned.inj h
            exact readError_ne_notFinished errno
      | bytes n =>
          dsimp only at h
          split_ifs at h
          · obtain ⟨rfl, _⟩ := Filling.returned.inj h
            exact success_ne_notFinished
          · cases hpayload : aClient.in_packet.payload with
            | none =>
                rw [hpayload] at h
                cases h
            | some payload =>
                rw [hpayload] at h
                exact ih h

/-- A call that does not finish has read all that it waited for, and evaluated it. -/
theorem readReply_notFinished
    {recvs : List RecvAnswer} {aClient aClient' : Socks5Client}
    {evaluate : Socks5Client → Bytes → Option (Int × Socks5Client)}
    (h : readReply recvs aClient evaluate = some (ERR_NOT_FINISHED, aClient')) :
    ∃ data payload, data <+: aClient.unread ∧ data.length = aClient.in_packet.to_process ∧
      aClient.in_packet.payload = some payload ∧
      evaluate (received aClient data) (payload ++ data) =
        some (ERR_NOT_FINISHED, aClient') := by
  have hfills := fill_spec recvs aClient
  rw [readReply] at h
  cases hfill : fill recvs aClient with
  | missing =>
      rw [hfill] at h
      cases h
  | returned rc after =>
      rw [hfill] at h
      have hrc := (Prod.mk.inj (Option.some.inj h)).1
      exact absurd hrc (fill_returned_ne_notFinished hfill)
  | filled after =>
      rw [hfill] at h hfills
      cases hfills with
      | @filled data hread hlength =>
          cases hpayload : aClient.in_packet.payload with
          | none =>
              simp [received, hpayload] at h
          | some payload =>
              refine ⟨data, payload, hread, hlength, rfl, ?_⟩
              simpa [received, hpayload] using h

/-- The client whose reply goes on for `n` bytes. -/
def extended (aClient : Socks5Client) (n : Nat) : Socks5Client :=
  { aClient with
    in_packet :=
      { aClient.in_packet with
        to_process := aClient.in_packet.to_process + n
        packet_length := aClient.in_packet.packet_length + n } }

/-- Only the beginning of the reply to a request is not finished. -/
theorem read_notFinished
    {inet_pton : InetPton} {recvs : List RecvAnswer} {sends : List SendAnswer}
    {aClient aClient' : Socks5Client}
    (h : socks5__read inet_pton recvs sends aClient = some (ERR_NOT_FINISHED, aClient')) :
    aClient.state = .socks5_request ∧ aClient.in_packet.packet_length = 5 ∧
      ∃ data payload n, data <+: aClient.unread ∧
        data.length = aClient.in_packet.to_process ∧ aClient.in_packet.payload = some payload ∧
        moreBytes (payload ++ data) = some n ∧ aClient' = extended (received aClient data) n := by
  have hother {rc : Int} {after : Socks5Client}
      (h : some (rc, after) = some (ERR_NOT_FINISHED, aClient')) :
      rc = ERR_NOT_FINISHED := (Prod.mk.inj (Option.some.inj h)).1
  rw [socks5__read] at h
  cases hstate : aClient.state with
  | socks5_start =>
      rw [hstate] at h
      obtain ⟨data, payload, _, _, _, hevaluate⟩ := readReply_notFinished h
      rw [evaluateMethod] at hevaluate
      split_ifs at hevaluate
      · exact absurd (hother hevaluate) (by decide)
      · exact absurd rfl (socks5__send_ne_notFinished hevaluate)
      · exact absurd rfl (socks5__send_ne_notFinished hevaluate)
      · exact absurd (hother hevaluate) (by decide)
  | socks5_userpass_reply =>
      rw [hstate] at h
      obtain ⟨data, payload, _, _, _, hevaluate⟩ := readReply_notFinished h
      rw [evaluateUserpass] at hevaluate
      split_ifs at hevaluate
      · exact absurd (hother hevaluate) (by decide)
      · exact absurd rfl (socks5__send_ne_notFinished hevaluate)
      · exact absurd (hother hevaluate) (replyError_ne_notFinished _)
  | socks5_request =>
      rw [hstate] at h
      obtain ⟨data, payload, hread, hlength, hpayload, hevaluate⟩ := readReply_notFinished h
      rw [evaluateRequest] at hevaluate
      split_ifs at hevaluate with hfive
      · cases hmore : moreBytes (payload ++ data) with
        | none =>
            rw [hmore] at hevaluate
            exact absurd (hother hevaluate) (by decide)
        | some n =>
            rw [hmore] at hevaluate
            exact ⟨rfl, hfive, data, payload, n, hread, hlength, hpayload, hmore,
              (Prod.mk.inj (Option.some.inj hevaluate)).2.symm⟩
      · exact absurd (hother hevaluate) (by decide)
      · exact absurd (hother hevaluate) (by decide)
      · exact absurd (hother hevaluate) (replyError_ne_notFinished _)
  | new | socks5_new | socks5_auth_ok | socks5_send_userpass | error =>
      rw [hstate] at h
      exact absurd (hother h) (by decide)

/-- No more of the reply to a request can turn out to be missing. -/
structure Settled (aClient : Socks5Client) : Prop where
  start : aClient.state ≠ .socks5_start
  userpass : aClient.state ≠ .socks5_userpass_reply
  request : aClient.state = .socks5_request → aClient.in_packet.packet_length ≠ 5

theorem Settled.ends
    {aClient aClient' : Socks5Client} {inet_pton : InetPton} {recvs : List RecvAnswer}
    {sends : List SendAnswer}
    (h : Settled aClient) :
    socks5__read inet_pton recvs sends aClient ≠ some (ERR_NOT_FINISHED, aClient') := by
  intro hread
  obtain ⟨hstate, hfive, _⟩ := read_notFinished hread
  exact h.request hstate hfive

/-- That remains so, whatever is read. -/
theorem Settled.read
    {aClient aClient' : Socks5Client} {inet_pton : InetPton} {recvs : List RecvAnswer}
    {sends : List SendAnswer} {rc : Int}
    (h : Settled aClient)
    (hread : socks5__read inet_pton recvs sends aClient = some (rc, aClient')) :
    Settled aClient' := by
  have hsame {after : Socks5Client}
      (heq : after.state = aClient.state)
      (hlength : after.in_packet.packet_length = aClient.in_packet.packet_length) :
      Settled after := by
    constructor
    · exact heq ▸ h.start
    · exact heq ▸ h.userpass
    · rw [heq, hlength]
      exact h.request
  have hstays {rc' : Int}
      (heq : some (rc', aClient) = some (rc, aClient')) :
      Settled aClient' := (Prod.mk.inj (Option.some.inj heq)).2 ▸ h
  rw [socks5__read] at hread
  cases hstate : aClient.state with
  | socks5_start =>
      exact absurd hstate h.start
  | socks5_userpass_reply =>
      exact absurd hstate h.userpass
  | socks5_request =>
      rw [hstate] at hread
      have hlength := h.request hstate
      obtain ⟨data, _, _, rfl | rfl | ⟨payload, _, _, hevaluate⟩⟩ := readReply_cases hread
      · exact hsame rfl rfl
      · exact hsame rfl rfl
      · have hlength' : (received aClient data).in_packet.packet_length ≠ 5 := hlength
        rw [evaluateRequest, if_neg hlength'] at hevaluate
        dsimp only at hevaluate
        split_ifs at hevaluate
        · obtain ⟨_, rfl⟩ := Prod.mk.inj (Option.some.inj hevaluate)
          exact hsame rfl rfl
        · obtain ⟨_, rfl⟩ := Prod.mk.inj (Option.some.inj hevaluate)
          exact ⟨fun heq => (by cases heq), fun heq => (by cases heq), fun heq => (by cases heq)⟩
        · obtain ⟨_, rfl⟩ := Prod.mk.inj (Option.some.inj hevaluate)
          exact ⟨fun heq => (by cases heq), fun heq => (by cases heq), fun heq => (by cases heq)⟩
  | new | socks5_new | socks5_auth_ok | socks5_send_userpass | error =>
      rw [hstate] at hread
      exact hstays hread

/-! ### The loop -/

namespace MemoryClient

/-- The states that any calls lead to. -/
inductive Reachable (inet_pton : InetPton) : MemoryClient → Prop
  | fresh (aClient : Socks5Client) :
      Reachable inet_pton (MemoryClient.fresh aClient)
  | call {m m' : MemoryClient} {c : Call} {rc : Int}
      (h : Reachable inet_pton m)
      (hcall : m.call inet_pton c = some (rc, m')) :
      Reachable inet_pton m'

/-- A call of `socks5__read`, with any chunks. -/
def Reads (inet_pton : InetPton) (m m' : MemoryClient) : Prop :=
  ∃ recvs sends rc, m.socks5__read inet_pton recvs sends = some (rc, m')

/-- A call of `socks5__read` that did not finish, so that the loop goes round. -/
def Repeats (inet_pton : InetPton) (m m' : MemoryClient) : Prop :=
  ∃ recvs sends, m.socks5__read inet_pton recvs sends = some (ERR_NOT_FINISHED, m')

/-- The loop in which `socks5__read` is repeated comes to an end. -/
structure LoopEnds (inet_pton : InetPton) (m : MemoryClient) : Prop where
  /-- The next call asks for at least one more byte. -/
  asks : ∀ m', Repeats inet_pton m m' → 1 ≤ m'.in_packet.to_process
  /-- There is no second time for the same reply. -/
  once : ∀ m' m'' m''', Repeats inet_pton m m' →
    Relation.ReflTransGen (Reads inet_pton) m' m'' → ¬ Repeats inet_pton m'' m'''
  ends : ∀ f : Nat → MemoryClient, f 0 = m → ∃ k, ¬ Repeats inet_pton (f k) (f (k + 1))

/-- The reply that is awaited, of which nothing was evaluated yet, has a name of no bytes. -/
def NamesNothing (m : MemoryClient) : Prop :=
  m.aClient.state = .socks5_request ∧ m.in_packet.packet_length = 5 ∧
    ∃ payload, m.in_packet.payload = some payload ∧
      ∃ ver rep rsv rest, payload.take m.in_packet.pos ++ m.aClient.unread =
        ver :: rep :: rsv :: SOCKS_ATYPE_DOMAINNAME :: 0 :: rest

theorem Reachable.consistent
    {inet_pton : InetPton} {m : MemoryClient}
    (h : Reachable inet_pton m) :
    m.Consistent := by
  induction h with
  | fresh aClient => exact Consistent.fresh aClient
  | call _ hcall ih => exact ih.call hcall

theorem moreBytes_eq_zero_iff
    (ver rep rsv atyp len : UInt8) (rest : Bytes) :
    moreBytes (ver :: rep :: rsv :: atyp :: len :: rest) = some 0 ↔
      atyp = SOCKS_ATYPE_DOMAINNAME ∧ len = 0 := by
  have hatyp : (ver :: rep :: rsv :: atyp :: len :: rest).getD 3 0 = atyp := rfl
  have hlen : (ver :: rep :: rsv :: atyp :: len :: rest).getD 4 0 = len := rfl
  rw [moreBytes, hatyp, hlen]
  split_ifs with hv4 hv6 hdomain
  · rw [hv4]
    exact iff_of_false (by simp) fun h => absurd h.1 (by decide)
  · rw [hv6]
    exact iff_of_false (by simp) fun h => absurd h.1 (by decide)
  · rw [Option.some.injEq, and_iff_right hdomain, ← UInt8.toNat_inj]
    rfl
  · simp [hdomain]

/-- A call on the memory is one on the bytes. -/
theorem Consistent.read_abstract
    {m m' : MemoryClient} {inet_pton : InetPton} {recvs : List RecvAnswer}
    {sends : List SendAnswer} {rc : Int}
    (h : m.Consistent)
    (hread : m.socks5__read inet_pton recvs sends = some (rc, m')) :
    Socks5.socks5__read inet_pton recvs sends m.abstract = some (rc, m'.abstract) := by
  rw [← (refines_read h inet_pton recvs sends).image, hread]
  rfl

/-- A reply that names something makes the reader ask for more. -/
theorem Repeats.asks
    {m m' : MemoryClient} {inet_pton : InetPton}
    (h : m.Consistent)
    (hnames : ¬ m.NamesNothing)
    (hrepeats : Repeats inet_pton m m') :
    1 ≤ m'.in_packet.to_process ∧ Settled m'.abstract := by
  obtain ⟨recvs, sends, hread⟩ := hrepeats
  obtain ⟨hstate, hfive, data, reply, n, hbegins, hlength, hreply, hmore, hafter⟩ :=
    read_notFinished (h.read_abstract hread)
  have hprocess : m'.in_packet.to_process = m.in_packet.to_process - data.length + n :=
    congrArg (fun c => c.in_packet.to_process) hafter
  have hpacket : m'.in_packet.packet_length = m.in_packet.packet_length + n :=
    congrArg (fun c => c.in_packet.packet_length) hafter
  have hsame : m'.abstract.state = .socks5_request :=
    (congrArg Socks5Client.state hafter).trans hstate
  have hlen : m'.abstract.in_packet.packet_length = m'.in_packet.packet_length := rfl
  have hbase : m.in_packet.packet_length = 5 := hfive
  have hpos : n ≠ 0 := by
    rintro rfl
    obtain ⟨payload, hpayload, htake⟩ := Option.map_eq_some_iff.mp hreply
    obtain ⟨hblock, hcount⟩ := h.memory.allocated payload hpayload
    obtain ⟨rest, hunread⟩ := hbegins
    have hunread' : data ++ rest = m.aClient.unread := hunread
    have hdata : data.length = m.in_packet.to_process := hlength
    have htaken : reply.length = m.in_packet.pos := by
      rw [← htake, List.length_take]
      omega
    have hall : (reply ++ data).length = 5 := by
      rw [List.length_append]
      omega
    match hbytes : reply ++ data, hall with
    | [ver, rep, rsv, atyp, len], _ =>
        rw [hbytes] at hmore
        obtain ⟨rfl, rfl⟩ := (moreBytes_eq_zero_iff ver rep rsv atyp len []).mp hmore
        refine hnames ⟨hstate, hfive, payload, hpayload, ver, rep, rsv, rest, ?_⟩
        rw [htake, ← hunread', ← List.append_assoc, hbytes]
        rfl
  refine ⟨by omega, ?_, ?_, fun _ => by omega⟩
  · rw [hsame]
    exact fun heq => by cases heq
  · rw [hsame]
    exact fun heq => by cases heq

/-- The loop goes round with nothing to read where the reply names nothing. -/
theorem NamesNothing.repeats
    {m : MemoryClient}
    (h : m.Consistent)
    (hnames : m.NamesNothing) (inet_pton : InetPton) :
    ∃ m', Repeats inet_pton m m' ∧ m'.in_packet.to_process = 0 := by
  obtain ⟨hstate, hfive, payload, hpayload, ver, rep, rsv, rest, hbytes⟩ := hnames
  obtain ⟨hblock, hcount⟩ := h.memory.allocated payload hpayload
  have htaken : (payload.take m.in_packet.pos).length = m.in_packet.pos := by
    rw [List.length_take]
    omega
  have harrives : m.in_packet.to_process ≤ m.aClient.unread.length := by
    have hlength := congrArg List.length hbytes
    rw [List.length_append, htaken] at hlength
    simp only [List.length_cons] at hlength
    omega
  -- all that is waited for arrives at once
  have hdelivered : m.in_packet.to_process ≤
      min (deliverable [.bytes m.in_packet.to_process]) m.aClient.unread.length := by
    refine le_min ?_ harrives
    cases m.in_packet.to_process with
    | zero => exact Nat.zero_le _
    | succ n => exact Nat.le_refl _
  have hreply : payload.take m.in_packet.pos ++ m.aClient.unread.take m.in_packet.to_process =
      [ver, rep, rsv, SOCKS_ATYPE_DOMAINNAME, 0] := by
    have hfirst := congrArg (List.take 5) hbytes
    rw [List.take_append, List.take_of_length_le (by omega), htaken] at hfirst
    have hrest : 5 - m.in_packet.pos = m.in_packet.to_process := by omega
    rw [hrest] at hfirst
    exact hfirst
  have hlen : (received m.abstract
      (m.aClient.unread.take m.in_packet.to_process)).in_packet.packet_length = 5 := hfive
  have hstate' : m.abstract.state = .socks5_request := hstate
  have hread : Socks5.socks5__read inet_pton [.bytes m.in_packet.to_process] [] m.abstract =
      some (ERR_NOT_FINISHED, extended (received m.abstract
        (m.aClient.unread.take m.in_packet.to_process)) 0) := by
    rw [Socks5.socks5__read, hstate']
    dsimp only
    rw [readReply_delivered hpayload hdelivered, hreply, Socks5.evaluateRequest, if_pos hlen,
      (moreBytes_eq_zero_iff ver rep rsv _ _ []).mpr ⟨rfl, rfl⟩]
    rfl
  rw [← (refines_read h inet_pton _ []).image] at hread
  obtain ⟨⟨rc, m'⟩, hmemory, hresult⟩ := Option.map_eq_some_iff.mp hread
  obtain ⟨hrc, habstract⟩ := Prod.mk.inj hresult
  have hnotFinished : rc = ERR_NOT_FINISHED := hrc
  refine ⟨m', ⟨_, _, hnotFinished ▸ hmemory⟩, ?_⟩
  have hprocess : m'.in_packet.to_process = m.in_packet.to_process -
      (m.aClient.unread.take m.in_packet.to_process).length + 0 :=
    congrArg (fun c => c.in_packet.to_process) habstract
  rw [hprocess, List.length_take]
  omega

/-- What follows a reply that names something is never read as another. -/
theorem Settled.reads
    {m m' : MemoryClient} {inet_pton : InetPton}
    (h : m.Consistent)
    (hsettled : Settled m.abstract)
    (hreads : Relation.ReflTransGen (Reads inet_pton) m m') :
    m'.Consistent ∧ Settled m'.abstract := by
  induction hreads with
  | refl => exact ⟨h, hsettled⟩
  | tail _ hstep ih =>
      obtain ⟨recvs, sends, rc, hread⟩ := hstep
      exact ⟨(refines_read ih.1 inet_pton recvs sends).consistent rc _ hread,
        ih.2.read (ih.1.read_abstract hread)⟩

theorem Consistent.loopEnds
    {m : MemoryClient}
    (h : m.Consistent) (inet_pton : InetPton) :
    LoopEnds inet_pton m ↔ ¬ m.NamesNothing := by
  constructor
  · intro hends hnames
    obtain ⟨m', hrepeats, hzero⟩ := hnames.repeats h inet_pton
    have hasks := hends.asks m' hrepeats
    omega
  · intro hnames
    have honce : ∀ m' m'' m''', Repeats inet_pton m m' →
        Relation.ReflTransGen (Reads inet_pton) m' m'' → ¬ Repeats inet_pton m'' m''' := by
      rintro m' m'' m''' hfirst hreads ⟨recvs, sends, hsecond⟩
      have hsettled := (Repeats.asks h hnames hfirst).2
      obtain ⟨recvs', sends', hread⟩ := hfirst
      have hconsistent := (refines_read h inet_pton recvs' sends').consistent _ _ hread
      obtain ⟨hlater, hsettled'⟩ := Settled.reads hconsistent hsettled hreads
      exact hsettled'.ends (hlater.read_abstract hsecond)
    refine ⟨fun m' hrepeats => (Repeats.asks h hnames hrepeats).1, honce, ?_⟩
    rintro f rfl
    by_contra hforever
    have hall : ∀ k, Repeats inet_pton (f k) (f (k + 1)) :=
      fun k => not_not.mp fun hnot => hforever ⟨k, hnot⟩
    exact honce (f 1) (f 1) (f 2) (hall 0) .refl (hall 1)

/-- The loop ends exactly where the reply that is awaited names something. -/
theorem loopEnds_iff
    {m : MemoryClient} (inet_pton : InetPton)
    (hreachable : Reachable inet_pton m) :
    LoopEnds inet_pton m ↔ ¬ m.NamesNothing :=
  hreachable.consistent.loopEnds inet_pton

/-- A client that waits for the reply to its request. -/
def awaiting (unread : Bytes) : MemoryClient where
  aClient :=
    { anonymous unread with
      state := .socks5_request
      queued := [[5, 1, 0], [5, 1, 0, 3, 1, 97, 7, 91]]
      consumed := [5, 0] }
  in_packet := .await 5

theorem reachable_awaiting
    (unread : Bytes) :
    Reachable hostNames (awaiting unread) := by
  have hfresh : Reachable hostNames (MemoryClient.fresh (anonymous (5 :: 0 :: unread))) := .fresh _
  have hconnect := hfresh.call (c := .connect [.bytes 2]) rfl
  exact hconnect.call (c := .read [.bytes 2] [.bytes 7]) rfl

theorem loopEnds_address :
    LoopEnds hostNames (awaiting [5, 0, 0, 1, 10, 0, 0, 1, 4, 56]) := by
  refine (loopEnds_iff hostNames (reachable_awaiting _)).mpr ?_
  rintro ⟨_, _, payload, hpayload, ver, rep, rsv, rest, hbytes⟩
  obtain rfl := Option.some.inj hpayload
  cases hbytes

/-- The loop does not end with a name of no bytes. -/
theorem loop_endless :
    ¬ ∀ m, Reachable hostNames m → LoopEnds hostNames m := by
  intro hall
  have hreachable := reachable_awaiting [5, 0, 0, 3, 0, 4, 56]
  refine (hreachable.consistent.loopEnds hostNames).mp (hall _ hreachable) ⟨rfl, rfl, ?_⟩
  exact ⟨_, rfl, 5, 0, 0, [4, 56], rfl⟩

end MemoryClient
end Socks5
end PahoMqtt
