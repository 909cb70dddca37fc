import PahoMqtt.SocketSelect

/-!
# Ready sockets are handed out once

What the lists and descriptor sets of Socket.c agree on in every run, and that
`Socket_getReadySocket` hands out every socket that a `select` has found ready,
and hands it out once, before it calls `select` again.
-/

namespace PahoMqtt
namespace Sockets

/-- What the lists and sets agree on. -/
structure Valid (s : Sockets) : Prop where
  nodup : s.clientsds.Nodup
  saved : ∀ sd, sd ∈ s.rset_saved ↔ sd ∈ s.clientsds
  positive : ∀ sd ∈ s.clientsds, 0 < sd
  below : ∀ sd ∈ s.clientsds, sd < s.maxfdp1
  cursor : Lib.Within s.clientsds s.cur_clientsds
  connecting : s.connect_pending.Nodup ∧ s.connect_pending ⊆ s.clientsds
  writing : s.write_pending.Nodup ∧ s.write_pending ⊆ s.clientsds
  current : Lib.Within s.write_pending s.write_current

/-- What `isReady` looks for. -/
def Ready (s : Sockets) (sd : Int) : Prop :=
  sd ∈ s.wset ∧ (sd ∈ s.connect_pending ∨ sd ∈ s.rset ∧ sd ∉ s.write_pending)

/-! ### The functions of the module -/

theorem valid_outInitialize :
    outInitialize.Valid where
  nodup := List.nodup_nil
  saved := fun _ => iff_of_false (Finset.notMem_empty _) List.not_mem_nil
  positive := fun _ h => absurd h List.not_mem_nil
  below := fun _ h => absurd h List.not_mem_nil
  cursor := Lib.within_none _
  connecting := ⟨List.nodup_nil, List.nil_subset _⟩
  writing := ⟨List.nodup_nil, List.nil_subset _⟩
  current := Lib.within_none _

theorem lt_highest
    {sds : List Int} {sd : Int}
    (h : sd ∈ sds) :
    sd < highest sds := by
  have hfold : ∀ (sds : List Int) (m : Int),
      m ≤ sds.foldl (fun maxfdp1 socket => max socket maxfdp1) m ∧
      ∀ sd ∈ sds, sd ≤ sds.foldl (fun maxfdp1 socket => max socket maxfdp1) m := by
    intro sds
    induction sds with
    | nil =>
        intro m
        exact ⟨le_refl m, fun _ h => absurd h List.not_mem_nil⟩
    | cons x sds ih =>
        intro m
        obtain ⟨hm, hmem⟩ := ih (max x m)
        refine ⟨(le_max_right x m).trans hm, ?_⟩
        intro sd hsd
        rcases List.mem_cons.mp hsd with rfl | hsd
        · exact (le_max_left sd m).trans hm
        · exact hmem sd hsd
  have := (hfold sds 0).2 sd h
  rw [highest]
  omega

theorem Valid.addSocket
    {s : Sockets} {newSd : Int}
    (hs : s.Valid)
    (hpos : 0 < newSd) (rc : Int) :
    (s.addSocket newSd rc).2.Valid := by
  rw [Sockets.addSocket]
  split
  case isFalse => exact hs
  case isTrue hnew =>
    split
    case isTrue => exact hs
    case isFalse =>
      have hmem : ∀ sd ∈ s.clientsds ++ [newSd], sd ∈ s.clientsds ∨ sd = newSd := by
        intro sd hsd
        exact (List.mem_append.mp hsd).imp_right List.mem_singleton.mp
      exact {
        nodup := List.nodup_append.mpr ⟨hs.nodup, List.nodup_singleton _, by
          intro a ha b hb hab
          rw [List.mem_singleton.mp hb] at hab
          exact hnew (hab ▸ ha)⟩
        saved := by
          intro sd
          rw [Finset.mem_insert, hs.saved sd, List.mem_append, List.mem_singleton, or_comm]
        positive := by
          intro sd hsd
          rcases hmem sd hsd with hsd | rfl
          · exact hs.positive sd hsd
          · exact hpos
        below := by
          intro sd hsd
          rcases hmem sd hsd with hsd | rfl
          · exact lt_max_of_lt_left (hs.below sd hsd)
          · exact lt_max_of_lt_right (lt_add_one sd)
        cursor := hs.cursor.append _
        connecting := ⟨hs.connecting.1, List.subset_append_of_subset_left _ hs.connecting.2⟩
        writing := ⟨hs.writing.1, List.subset_append_of_subset_left _ hs.writing.2⟩
        current := hs.current }

theorem Valid.noPendingWrites
    {s : Sockets}
    (hs : s.Valid) (socket : Int) :
    (s.noPendingWrites socket).2.Valid := by
  rw [Sockets.noPendingWrites]
  split
  case isTrue h => exact { hs with current := Lib.within_some.mpr h }
  case isFalse => exact hs

theorem putdatas_eq
    (s : Sockets) (socket : Int) :
    s.putdatas socket =
      if socket ∈ s.write_pending then { s with write_current := some socket }
      else
        { s with
          write_pending := s.write_pending ++ [socket]
          pending_wset := insert socket s.pending_wset } := by
  by_cases h : socket ∈ s.write_pending
  · simp [putdatas, noPendingWrites, h]
  · simp [putdatas, noPendingWrites, h]

theorem Valid.putdatas
    {s : Sockets} {socket : Int}
    (hs : s.Valid)
    (hopen : socket ∈ s.clientsds) :
    (s.putdatas socket).Valid := by
  rw [putdatas_eq]
  split
  case isTrue h => exact { hs with current := Lib.within_some.mpr h }
  case isFalse h =>
    exact { hs with
      writing := ⟨List.concat_eq_append ▸ hs.writing.1.concat h,
        List.append_subset.mpr ⟨hs.writing.2, by simpa using hopen⟩⟩
      current := hs.current.append _ }

theorem Valid.removeWrite
    {s : Sockets}
    (hs : s.Valid) (socket : Int) :
    (s.removeWrite socket).Valid :=
  { hs with
    writing := ⟨hs.writing.1.erase socket, fun _ hx => hs.writing.2 (List.mem_of_mem_erase hx)⟩
    current := hs.current.past hs.writing.1 socket }

theorem erase_subset_erase
    {sds clientsds : List Int}
    (hnodup : sds.Nodup)
    (hsub : sds ⊆ clientsds) (sd : Int) :
    sds.erase sd ⊆ clientsds.erase sd := by
  intro x hx
  obtain ⟨hne, hx⟩ := hnodup.mem_erase_iff.mp hx
  exact (List.mem_erase_of_ne hne).mpr (hsub hx)

theorem Valid.close
    {s : Sockets}
    (hs : s.Valid) (socket : Int) :
    (s.close socket).Valid where
  nodup := hs.nodup.erase socket
  saved := by
    intro sd
    simp only [Sockets.close, Finset.mem_erase, hs.saved sd, hs.nodup.mem_erase_iff]
  positive := fun sd hsd => hs.positive sd (List.mem_of_mem_erase hsd)
  below := by
    intro sd hsd
    simp only [Sockets.close] at hsd ⊢
    split
    case isTrue => exact lt_highest hsd
    case isFalse => exact hs.below sd (List.mem_of_mem_erase hsd)
  cursor := hs.cursor.past hs.nodup socket
  connecting := ⟨hs.connecting.1.erase socket,
    erase_subset_erase hs.connecting.1 hs.connecting.2 socket⟩
  writing := ⟨hs.writing.1.erase socket, erase_subset_erase hs.writing.1 hs.writing.2 socket⟩
  current := hs.current.past hs.writing.1 socket

/-- What a new socket is added to. -/
theorem addSocket_new
    {s : Sockets} {newSd : Int} (rc : Int)
    (hnew : newSd ∉ s.clientsds) :
    s.addSocket newSd rc = (SOCKET_ERROR, s) ∨
      ∃ s', s.addSocket newSd rc = (rc, s') ∧ s'.clientsds = s.clientsds ++ [newSd] ∧
        s'.connect_pending = s.connect_pending := by
  rw [addSocket, if_pos hnew]
  split
  case isTrue => exact .inl rfl
  case isFalse => exact .inr ⟨_, rfl, rfl, rfl⟩

/-! ### Looking for a ready socket -/

theorem isReady_iff
    (s : Sockets) (socket : Int) :
    (s.isReady socket).1 = true ↔ s.Ready socket := by
  rw [isReady, noPendingWrites, Ready]
  split
  case isTrue h => exact iff_of_true rfl ⟨h.2, .inl h.1⟩
  case isFalse h =>
    split
    case isTrue hset =>
      have hconnect : socket ∉ s.connect_pending := fun hmem => h ⟨hmem, hset.2⟩
      split
      case isTrue hwriting => simp [hwriting, hconnect]
      case isFalse hwriting => simp [hset, hwriting]
    case isFalse hset =>
      have hnot : ¬ (socket ∈ s.wset ∧
          (socket ∈ s.connect_pending ∨ socket ∈ s.rset ∧ socket ∉ s.write_pending)) := by
        rintro ⟨hw, hconnect | ⟨hr, _⟩⟩
        · exact h ⟨hconnect, hw⟩
        · exact hset ⟨hr, hw⟩
      simp [hnot]

/-- `isReady` leaves all but `current` and the list of connecting sockets alone. -/
theorem isReady_state
    {s : Sockets}
    (hs : s.Valid) (socket : Int) :
    ∃ current connecting, (s.isReady socket).2 =
        { s with write_current := current, connect_pending := connecting } ∧
      Lib.Within s.write_pending current ∧
      (connecting = s.connect_pending ∨
        s.Ready socket ∧ connecting = s.connect_pending.erase socket) := by
  rw [isReady, noPendingWrites]
  split
  case isTrue h =>
    exact ⟨s.write_current, _, rfl, hs.current, .inr ⟨⟨h.2, .inl h.1⟩, rfl⟩⟩
  case isFalse =>
    split
    case isTrue =>
      split
      case isTrue h => exact ⟨some socket, _, rfl, Lib.within_some.mpr h, .inl rfl⟩
      case isFalse => exact ⟨_, _, rfl, hs.current, .inl rfl⟩
    case isFalse => exact ⟨_, _, rfl, hs.current, .inl rfl⟩

/-- The loop over some sockets ends at the first that is ready, or at the end. -/
theorem sweep_cases
    {s : Sockets}
    (hs : s.Valid) (sds : List Int) :
    ∃ current, Lib.Within s.write_pending current ∧
      ((∀ sd ∈ sds, ¬ s.Ready sd) ∧
          sweep sds s = { s with cur_clientsds := none, write_current := current } ∨
        ∃ passed sd after connecting, sds = passed ++ sd :: after ∧
          (∀ x ∈ passed, ¬ s.Ready x) ∧ s.Ready sd ∧
          (connecting = s.connect_pending ∨ connecting = s.connect_pending.erase sd) ∧
          sweep sds s =
            { s with
              cur_clientsds := some sd
              write_current := current
              connect_pending := connecting }) := by
  induction sds generalizing s with
  | nil =>
      exact ⟨s.write_current, hs.current, .inl ⟨fun _ h => absurd h List.not_mem_nil, rfl⟩⟩
  | cons x sds ih =>
      obtain ⟨current, connecting, hstate, hcurrent, hconnecting⟩ := isReady_state hs x
      have hready := isReady_iff s x
      rw [sweep]
      obtain ⟨b, s', heq⟩ : ∃ b s', s.isReady x = (b, s') := ⟨_, _, rfl⟩
      rw [heq] at hstate hready ⊢
      dsimp only at hstate hready ⊢
      subst hstate
      cases b with
      | true =>
          refine ⟨current, hcurrent, .inr ⟨[], x, sds, connecting, rfl,
            fun _ h => absurd h List.not_mem_nil, hready.mp rfl, ?_, if_pos rfl⟩⟩
          exact hconnecting.imp_right And.right
      | false =>
          have hnot : ¬ s.Ready x := fun h => Bool.false_ne_true (hready.mpr h)
          obtain rfl : connecting = s.connect_pending := by
            rcases hconnecting with h | ⟨h, _⟩
            · exact h
            · exact absurd h hnot
          rw [if_neg Bool.false_ne_true]
          obtain ⟨current', hcurrent', hcases⟩ :=
            ih (s := { s with write_current := current }) { hs with current := hcurrent }
          refine ⟨current', hcurrent', ?_⟩
          rcases hcases with ⟨hnone, heq⟩ | ⟨passed, sd, after, pending, rfl, hpassed, hsd, hrest⟩
          · exact .inl ⟨List.forall_mem_cons.mpr ⟨hnot, hnone⟩, heq⟩
          · exact .inr ⟨x :: passed, sd, after, pending, rfl,
              List.forall_mem_cons.mpr ⟨hnot, hpassed⟩, hsd, hrest⟩

/-- The loop over some sockets has come to `sd`, and it is taken. -/
structure Hands (s : Sockets) (sds : List Int) (sd : Int) (s' : Sockets) : Prop where
  before : ∃ passed, sds = passed ++ sd :: s'.left ∧ ∀ x ∈ passed, ¬ s.Ready x
  ready : s.Ready sd
  changes : ∃ cursor current connecting,
    (connecting = s.connect_pending ∨ connecting = s.connect_pending.erase sd) ∧
    s' = { s with
      cur_clientsds := cursor
      write_current := current
      connect_pending := connecting }
  valid : s'.Valid

theorem sweep_take
    {s : Sockets} {sds : List Int}
    (hs : s.Valid)
    (hsds : sds <:+ s.clientsds) :
    ((∀ sd ∈ sds, ¬ s.Ready sd) ∧ ∃ current, Lib.Within s.write_pending current ∧
      sweep sds s = { s with cur_clientsds := none, write_current := current }) ∨
    ∃ sd s', (sweep sds s).cur_clientsds = some sd ∧ (sweep sds s).take = (sd, s') ∧
      s.Hands sds sd s' := by
  obtain ⟨current, hcurrent, hcases⟩ := sweep_cases hs sds
  rcases hcases with ⟨hnone, heq⟩ |
    ⟨passed, sd, after, connecting, rfl, hpassed, hsd, hconnecting, heq⟩
  · exact .inl ⟨hnone, current, hcurrent, heq⟩
  · rw [heq]
    refine .inr ⟨sd, _, rfl, rfl, ⟨passed, ?_, hpassed⟩, hsd, ⟨_, _, _, hconnecting, rfl⟩, ?_⟩
    · rw [left, Lib.rest_of_suffix hs.nodup ((List.suffix_append _ _).trans hsds)]
    · have hconnect : connecting.Nodup ∧ connecting ⊆ s.clientsds := by
        rcases hconnecting with rfl | rfl
        · exact hs.connecting
        · exact ⟨hs.connecting.1.erase sd,
            fun _ h => hs.connecting.2 (List.mem_of_mem_erase h)⟩
      exact { hs with
        cursor := Lib.within_following _ _
        connecting := hconnect
        current := hcurrent }

theorem Hands.mem
    {s s' : Sockets} {sds : List Int} {sd : Int}
    (h : s.Hands sds sd s') :
    sd ∈ sds := by
  obtain ⟨passed, hsds, _⟩ := h.before
  rw [hsds]
  exact List.mem_append_right _ List.mem_cons_self

theorem Hands.clientsds
    {s s' : Sockets} {sds : List Int} {sd : Int}
    (h : s.Hands sds sd s') :
    s'.clientsds = s.clientsds := by
  obtain ⟨_, _, _, _, rfl⟩ := h.changes
  rfl

theorem Hands.not_left
    {s s' : Sockets} {sds : List Int} {sd : Int}
    (h : s.Hands sds sd s')
    (hnodup : sds.Nodup) :
    sd ∉ s'.left := by
  obtain ⟨passed, hsds, _⟩ := h.before
  rw [hsds] at hnodup
  exact (List.nodup_cons.mp (List.nodup_append.mp hnodup).2.1).1

theorem Hands.left_mem
    {s s' : Sockets} {sds : List Int} {sd x : Int}
    (h : s.Hands sds sd s')
    (hx : x ∈ s'.left) :
    x ∈ sds := by
  obtain ⟨passed, hsds, _⟩ := h.before
  rw [hsds]
  exact List.mem_append_right _ (List.mem_cons_of_mem _ hx)

/-- A socket that is ready is not passed by. -/
theorem Hands.waits
    {s s' : Sockets} {sds : List Int} {sd x : Int}
    (h : s.Hands sds sd s')
    (hx : x ∈ sds)
    (hne : x ≠ sd)
    (hready : s.Ready x) :
    x ∈ s'.left ∧ s'.Ready x := by
  obtain ⟨passed, hsds, hpassed⟩ := h.before
  obtain ⟨cursor, current, connecting, hconnecting, hs'⟩ := h.changes
  constructor
  · rw [hsds] at hx
    rcases List.mem_append.mp hx with hx | hx
    · exact absurd hready (hpassed x hx)
    · exact (List.mem_cons.mp hx).resolve_left hne
  · rw [hs']
    refine ⟨hready.1, hready.2.imp_left fun hmem => ?_⟩
    rcases hconnecting with rfl | rfl
    · exact hmem
    · exact (List.mem_erase_of_ne hne).mpr hmem

/-! ### What is done about other sockets -/

/-- A socket's place in the sweep, and what makes it ready, are the same. -/
structure Alike (sd : Int) (s s' : Sockets) : Prop where
  left : sd ∈ s'.left ↔ sd ∈ s.left
  connecting : sd ∈ s'.connect_pending ↔ sd ∈ s.connect_pending
  writing : sd ∈ s'.write_pending ↔ sd ∈ s.write_pending
  rset : s'.rset = s.rset
  wset : s'.wset = s.wset

theorem Alike.ready
    {sd : Int} {s s' : Sockets}
    (h : Alike sd s s') :
    s'.Ready sd ↔ s.Ready sd := by
  rw [Ready, Ready, h.connecting, h.writing, h.rset, h.wset]

theorem Alike.trans
    {sd : Int} {s₁ s₂ s₃ : Sockets}
    (h : Alike sd s₁ s₂)
    (h' : Alike sd s₂ s₃) :
    Alike sd s₁ s₃ where
  left := h'.left.trans h.left
  connecting := h'.connecting.trans h.connecting
  writing := h'.writing.trans h.writing
  rset := h'.rset.trans h.rset
  wset := h'.wset.trans h.wset

theorem alike_refl
    (sd : Int) (s : Sockets) :
    Alike sd s s :=
  ⟨Iff.rfl, Iff.rfl, Iff.rfl, rfl, rfl⟩

theorem alike_noPendingWrites
    (sd : Int) (s : Sockets) (socket : Int) :
    Alike sd s (s.noPendingWrites socket).2 := by
  rw [noPendingWrites]
  split <;> exact ⟨Iff.rfl, Iff.rfl, Iff.rfl, rfl, rfl⟩

theorem alike_putdatas
    {sd socket : Int}
    (s : Sockets)
    (hne : sd ≠ socket) :
    Alike sd s (s.putdatas socket) := by
  rw [putdatas_eq]
  split
  case isTrue => exact ⟨Iff.rfl, Iff.rfl, Iff.rfl, rfl, rfl⟩
  case isFalse => exact ⟨Iff.rfl, Iff.rfl, by simp [hne], rfl, rfl⟩

theorem close_left
    {s : Sockets}
    (hs : s.Valid) (socket : Int) :
    (s.close socket).left = s.left.erase socket :=
  Lib.rest_past hs.nodup hs.cursor socket

theorem alike_close
    {s : Sockets} {sd socket : Int}
    (hs : s.Valid)
    (hne : sd ≠ socket) :
    Alike sd s (s.close socket) where
  left := by rw [close_left hs, List.mem_erase_of_ne hne]
  connecting := List.mem_erase_of_ne hne
  writing := List.mem_erase_of_ne hne
  rset := rfl
  wset := rfl

theorem addSocket_frame
    (s : Sockets) (newSd rc : Int) :
    (s.addSocket newSd rc).2.cur_clientsds = s.cur_clientsds ∧
      (s.addSocket newSd rc).2.rset = s.rset ∧
      (s.addSocket newSd rc).2.write_pending = s.write_pending ∧
      (s.addSocket newSd rc).2.pending_wset = s.pending_wset := by
  rw [addSocket]
  split
  case isFalse => exact ⟨rfl, rfl, rfl, rfl⟩
  case isTrue => split <;> exact ⟨rfl, rfl, rfl, rfl⟩

theorem alike_addSocket
    {s : Sockets} {sd newSd : Int} (rc : Int)
    (hs : s.Valid)
    (hne : sd ≠ newSd) :
    Alike sd s (s.addSocket newSd rc).2 := by
  rw [addSocket]
  split
  case isFalse => exact alike_refl sd s
  case isTrue =>
    split
    case isTrue => exact alike_refl sd s
    case isFalse =>
      refine ⟨?_, Iff.rfl, Iff.rfl, rfl, rfl⟩
      rw [left, left]
      cases hcur : s.cur_clientsds with
      | none => rfl
      | some x =>
          have hx := hs.cursor x hcur
          simp only [Lib.rest_append hx, List.mem_append, List.mem_singleton, hne, or_false]

/-- A new socket that cannot be used is closed at once. -/
theorem new_state
    {s : Sockets} {sock : Int} (nonblocking rc : Int)
    (hs : s.Valid)
    (hpos : 0 < sock)
    (hnew : sock ∉ s.clientsds) :
    ∃ s', s'.Valid ∧ (∀ sd, sd ≠ sock → Alike sd s s') ∧
      (s'.cur_clientsds = s.cur_clientsds ∧ s'.rset = s.rset ∧
        s'.write_pending = s.write_pending ∧ s'.pending_wset = s.pending_wset) ∧
      ((s.new sock nonblocking rc).2 = s' ∨ (s.new sock nonblocking rc).2 = s'.close sock) := by
  have hnot : sock ∉ s.connect_pending := fun h => hnew (hs.connecting.2 h)
  have hadded := hs.addSocket hpos nonblocking
  have halike := fun sd (hne : sd ≠ sock) => alike_addSocket nonblocking hs hne
  have hframe := addSocket_frame s sock nonblocking
  have hnew := addSocket_new nonblocking hnew
  obtain ⟨added, s', heq⟩ : ∃ added s', s.addSocket sock nonblocking = (added, s') := ⟨_, _, rfl⟩
  simp only [new, heq] at hadded halike hframe hnew ⊢
  refine ⟨if added ≠ SOCKET_ERROR ∧ (rc = EINPROGRESS ∨ rc = EAGAIN) then
    { s' with connect_pending := s'.connect_pending ++ [sock] } else s', ?_, ?_, ?_, ?_⟩
  · split
    case isFalse => exact hadded
    case isTrue h =>
      rcases hnew with heq' | ⟨s'', heq', hsds, hconnecting⟩
      · exact absurd (Prod.mk.inj heq').1 h.1
      · obtain ⟨_, rfl⟩ := Prod.mk.inj heq'
        exact { hadded with
          connecting := ⟨List.concat_eq_append ▸ hadded.connecting.1.concat (hconnecting ▸ hnot),
            List.append_subset.mpr ⟨hadded.connecting.2, by simp [hsds]⟩⟩ }
  · intro sd hne
    split
    case isFalse => exact halike sd hne
    case isTrue =>
      exact (halike sd hne).trans ⟨Iff.rfl, by simp [hne], Iff.rfl, rfl, rfl⟩
  · split <;> exact hframe
  · split
    · exact .inr rfl
    · exact .inl rfl

theorem Valid.new
    {s : Sockets} {sock : Int} (nonblocking rc : Int)
    (hs : s.Valid)
    (hpos : 0 < sock)
    (hnew : sock ∉ s.clientsds) :
    (s.new sock nonblocking rc).2.Valid := by
  obtain ⟨s', hs', _, _, heq | heq⟩ := new_state nonblocking rc hs hpos hnew
  · exact heq ▸ hs'
  · exact heq ▸ hs'.close sock

theorem alike_new
    {s : Sockets} {sd sock : Int} (nonblocking rc : Int)
    (hs : s.Valid)
    (hpos : 0 < sock)
    (hnew : sock ∉ s.clientsds)
    (hne : sd ≠ sock) :
    Alike sd s (s.new sock nonblocking rc).2 := by
  obtain ⟨s', hs', halike, _, heq | heq⟩ := new_state nonblocking rc hs hpos hnew
  · exact heq ▸ halike sd hne
  · exact heq ▸ (halike sd hne).trans (alike_close hs' hne)

/-! ### Pending writes -/

theorem continueLoop_state
    (pwset : Finset Int) (continueWrite : Nat → Int → Int) (n : Nat) (curpending : Option Int)
    (result : Int × Int) (s : Sockets)
    (hs : s.Valid) :
    ∃ pending current set,
      (continueLoop pwset continueWrite n curpending result s).2 =
        { s with write_pending := pending, write_current := current, pending_wset := set } ∧
      pending ⊆ s.write_pending ∧
      (continueLoop pwset continueWrite n curpending result s).2.Valid := by
  induction n generalizing curpending result s with
  | zero =>
      exact ⟨_, _, _, rfl, List.Subset.refl _, hs⟩
  | succ n ih =>
      rw [continueLoop]
      split
      · exact ⟨_, _, _, rfl, List.Subset.refl _, hs⟩
      · rename_i socket _
        have hs' : ({ s.removeWrite socket with
            pending_wset := s.pending_wset.erase socket } : Sockets).Valid :=
          { hs.removeWrite socket with }
        obtain ⟨pending, current, set, heq, hsub, hvalid⟩ := ih _ _ _ hs'
        exact ⟨pending, current, set, heq, fun _ h => List.mem_of_mem_erase (hsub h), hvalid⟩

end Sockets

namespace Polling

/-- While a thread waits in `select` the cursor stands nowhere. -/
structure Valid (p : Polling) : Prop where
  sockets : p.sockets.Valid
  waiting : ∀ sel ∈ p.selecting,
    p.sockets.cur_clientsds = none ∧ ∀ sd ∈ p.sockets.rset, sd < sel.nfds

/-- What a call of `Socket_getReadySocket` does, as far as the first `select`. -/
theorem getReadySocket_cases
    {p : Polling}
    (hp : p.Valid) :
    (p.getReadySocket = (some (0, 0), p) ∧ p.sockets.left = []) ∨
    (∃ sd s', p.getReadySocket = (some (sd, 0), { p with sockets := s' }) ∧
      p.sockets.Hands p.sockets.left sd s') ∨
    (∀ sd ∈ p.sockets.left, ¬ p.sockets.Ready sd) ∧
      ∃ current, Lib.Within p.sockets.write_pending current ∧
        p.getReadySocket =
          (none,
            { sockets := { p.sockets with
                cur_clientsds := none
                write_current := current
                rset := p.sockets.rset_saved }
              selecting := some ⟨p.sockets.maxfdp1, p.sockets.pending_wset⟩ }) := by
  rw [getReadySocket]
  split
  case isTrue h =>
    refine .inl ⟨rfl, ?_⟩
    exact List.suffix_nil.mp (h ▸ Lib.rest_suffix p.sockets.clientsds p.sockets.cur_clientsds)
  case isFalse =>
    right
    rcases Sockets.sweep_take hp.sockets (Lib.rest_suffix _ p.sockets.cur_clientsds) with
      ⟨hnone, current, hcurrent, heq⟩ | ⟨sd, s', hcur, htake, hands⟩
    · right
      refine ⟨hnone, current, hcurrent, ?_⟩
      rw [Sockets.left, heq]
    · left
      refine ⟨sd, s', ?_, hands⟩
      dsimp only [Sockets.left]
      rw [hcur, htake]

/-- The sets and lists that the socket is looked for in, once both `select` calls have returned. -/
structure Selected (sel : Select) (polled : Polled) (s s' : Sockets) : Prop where
  valid : s'.Valid
  changes : ∃ pending current set, pending ⊆ s.write_pending ∧
    s' = { s with
      rset := select sel.nfds polled.readable s.rset
      wset := select s.maxfdp1 polled.writable s.rset_saved
      write_pending := pending
      write_current := current
      pending_wset := set }

theorem Selected.wset
    {p : Polling} {sel : Select} {polled : Polled} {s : Sockets} {sd : Int}
    (hp : p.Valid)
    (h : Selected sel polled p.sockets s) :
    sd ∈ s.wset ↔ sd ∈ p.sockets.clientsds ∧ polled.writable sd = true := by
  obtain ⟨_, _, _, _, rfl⟩ := h.changes
  simp only [select, Finset.mem_filter, hp.sockets.saved]
  exact and_congr_right fun hsd => ⟨fun h => h (hp.sockets.below sd hsd), fun h _ => h⟩

theorem Selected.rset
    {p : Polling} {sel : Select} {polled : Polled} {s : Sockets} {sd : Int}
    (hp : p.Valid)
    (hsel : sel ∈ p.selecting)
    (h : Selected sel polled p.sockets s) :
    sd ∈ s.rset ↔ sd ∈ p.sockets.rset ∧ polled.readable sd = true := by
  obtain ⟨_, _, _, _, rfl⟩ := h.changes
  simp only [select, Finset.mem_filter]
  exact and_congr_right fun hsd => ⟨fun h => h ((hp.waiting sel hsel).2 sd hsd), fun h _ => h⟩

/-- A call that comes back from `select` fails, or looks through all sockets. -/
theorem finish_cases
    {p : Polling} {sel : Select}
    (hp : p.Valid)
    (hsel : sel ∈ p.selecting) (polled : Polled) :
    ((finish sel polled p.sockets).1.2 = SOCKET_ERROR ∧
        (finish sel polled p.sockets).2.Valid ∧ (finish sel polled p.sockets).2.left = []) ∨
      ∃ s, Selected sel polled p.sockets s ∧
        ((∀ sd ∈ s.clientsds, ¬ s.Ready sd) ∧ (finish sel polled p.sockets).1 = (0, 0) ∧
            (finish sel polled p.sockets).2.Valid ∧ (finish sel polled p.sockets).2.left = [] ∨
          ∃ sd s', finish sel polled p.sockets = ((sd, 0), s') ∧ s.Hands s.clientsds sd s') := by
  have hwritten := Sockets.continueLoop_state (select sel.nfds polled.unblocked sel.pwset)
    polled.continueWrite p.sockets.write_pending.length p.sockets.write_pending.head? (0, 0)
    { p.sockets with rset := select sel.nfds polled.readable p.sockets.rset }
    { hp.sockets with }
  have hidle : p.sockets.left = [] :=
    congrArg (Lib.rest p.sockets.clientsds) (hp.waiting sel hsel).1
  rw [finish]
  split
  case isTrue => exact .inl ⟨rfl, hp.sockets, hidle⟩
  case isFalse =>
    dsimp only [Sockets.continueWrites]
    obtain ⟨⟨failed, sock⟩, s, heq⟩ : ∃ rc s, Sockets.continueLoop
        (select sel.nfds polled.unblocked sel.pwset) polled.continueWrite
        p.sockets.write_pending.length p.sockets.write_pending.head? (0, 0)
        { p.sockets with rset := select sel.nfds polled.readable p.sockets.rset } = (rc, s) :=
      ⟨_, _, rfl⟩
    rw [heq] at hwritten ⊢
    obtain ⟨pending, current, set, hs, hsub, hvalid⟩ := hwritten
    dsimp only at hs hvalid ⊢
    have hleft : s.left = [] := by
      rw [hs]
      exact hidle
    split
    case isTrue => exact .inl ⟨rfl, hvalid, hleft⟩
    case isFalse =>
      split
      case isTrue => exact .inl ⟨rfl, { hvalid with }, hleft⟩
      case isFalse =>
        have hvalid' : ({ s with
            wset := select s.maxfdp1 polled.writable s.rset_saved } : Sockets).Valid :=
          { hvalid with }
        have hselected : Selected sel polled p.sockets
            { s with wset := select s.maxfdp1 polled.writable s.rset_saved } :=
          ⟨hvalid', pending, current, set, hsub, by rw [hs]⟩
        refine .inr ⟨_, hselected, ?_⟩
        split
        case isTrue hnothing =>
          refine .inl ⟨?_, rfl, hvalid', hleft⟩
          intro sd hsd hready
          obtain ⟨hopen, hwritable⟩ := (hselected.wset hp).mp hready.1
          have hselected' : sd ∈ s.rset_saved.filter
              fun sd => sd < s.maxfdp1 ∧ polled.writable sd :=
            Finset.mem_filter.mpr ⟨(hvalid.saved sd).mpr hsd, hvalid.below sd hsd, hwritable⟩
          rw [Finset.card_eq_zero.mp hnothing.2] at hselected'
          exact Finset.notMem_empty sd hselected'
        case isFalse =>
          rcases Sockets.sweep_take hvalid' (List.suffix_refl _) with
            ⟨hnone, current, hcurrent, hsweep⟩ | ⟨sd, s', _, htake, hands⟩
          · rw [hsweep]
            exact .inl ⟨hnone, rfl, { hvalid' with
              cursor := Lib.within_none _
              current := hcurrent }, rfl⟩
          · rw [htake]
            exact .inr ⟨sd, s', rfl, hands⟩

/-! ### Steps -/

theorem Valid.waits
    {p : Polling} {s : Sockets}
    (hp : p.Valid)
    (hs : s.Valid)
    (hcursor : p.sockets.cur_clientsds = none → s.cur_clientsds = none)
    (hrset : s.rset = p.sockets.rset) :
    Valid { p with sockets := s } where
  sockets := hs
  waiting := by
    intro sel hsel
    obtain ⟨hnone, hbelow⟩ := hp.waiting sel hsel
    exact ⟨hcursor hnone, hrset ▸ hbelow⟩

theorem valid_new
    {p : Polling} {sock nonblocking rc : Int}
    (hp : p.Valid)
    (hpos : 0 < sock)
    (hnew : sock ∉ p.sockets.clientsds) :
    Valid { p with sockets := (p.sockets.new sock nonblocking rc).2 } := by
  obtain ⟨s', hs', _, ⟨hcursor, hrset, _⟩, heq | heq⟩ :=
    Sockets.new_state nonblocking rc hp.sockets hpos hnew
  · rw [heq]
    exact hp.waits hs' (fun h => hcursor.trans h) hrset
  · rw [heq]
    refine hp.waits (hs'.close sock) (fun h => ?_) hrset
    rw [Sockets.close, hcursor, h]
    rfl

theorem valid_getReadySocket
    {p : Polling}
    (hp : p.Valid)
    (hfree : p.selecting = none) :
    p.getReadySocket.2.Valid := by
  rcases getReadySocket_cases hp with ⟨heq, _⟩ | ⟨sd, s', heq, hands⟩ | ⟨_, current, hcurrent, heq⟩
  · exact heq ▸ hp
  · rw [heq]
    exact ⟨hands.valid, fun sel hsel => absurd (hfree ▸ hsel) (Option.not_mem_none sel)⟩
  · rw [heq]
    refine ⟨{ hp.sockets with cursor := Lib.within_none _, current := hcurrent }, ?_⟩
    intro sel hsel
    rw [← Option.some.inj hsel]
    exact ⟨rfl, fun sd hsd => hp.sockets.below sd ((hp.sockets.saved sd).mp hsd)⟩

theorem valid_finish
    {p : Polling} {sel : Select}
    (hp : p.Valid)
    (hsel : sel ∈ p.selecting) (polled : Polled) :
    Valid ⟨(finish sel polled p.sockets).2, none⟩ := by
  refine ⟨?_, fun sel hsel => absurd hsel (Option.not_mem_none sel)⟩
  rcases finish_cases hp hsel polled with ⟨_, h, _⟩ | ⟨s, _, ⟨_, _, h, _⟩ | ⟨sd, s', heq, hands⟩⟩
  · exact h
  · exact h
  · exact heq ▸ hands.valid

theorem valid_step
    {p p' : Polling} {e : SocketEvent}
    (hp : p.Valid)
    (hstep : Step p e p') :
    p'.Valid := by
  obtain ⟨hadmissible, rfl⟩ := hstep
  cases e with
  | new sock nonblocking rc => exact valid_new hp hadmissible.1 hadmissible.2
  | putdatas socket =>
      refine hp.waits (hp.sockets.putdatas hadmissible) ?_ ?_
      all_goals rw [Sockets.putdatas_eq]; split <;> simp
  | addPendingWrite socket => exact hp.waits { hp.sockets with } id rfl
  | clearPendingWrite socket => exact hp.waits { hp.sockets with } id rfl
  | noPendingWrites socket =>
      refine hp.waits (hp.sockets.noPendingWrites socket) ?_ ?_
      all_goals rw [Sockets.noPendingWrites]; split <;> simp
  | close socket =>
      refine hp.waits (hp.sockets.close socket) (fun h => ?_) rfl
      rw [Sockets.close, h]
      rfl
  | getReadySocket => exact valid_getReadySocket hp hadmissible
  | finish polled =>
      obtain ⟨sel, hsel⟩ := Option.isSome_iff_exists.mp hadmissible
      rw [outcome, hsel]
      exact valid_finish hp hsel polled

/-- The event opens, writes to or closes the socket. -/
def Concerns (sd : Int) : SocketEvent → Prop
  | .new sock _ _ => sock = sd
  | .putdatas socket => socket = sd
  | .close socket => socket = sd
  | _ => False

/-- The socket that a call hands out. -/
def handed (x : Lib.Transition Polling SocketEvent) : Option Int :=
  (x.pre.outcome x.event).1.bind fun returned =>
    if returned.2 = 0 ∧ returned.1 ≠ 0 then some returned.1 else none

/-- A socket's place in the sweep does not become better. -/
structure Kept (sd : Int) (p p' : Polling) : Prop where
  left : sd ∈ p'.sockets.left → sd ∈ p.sockets.left
  connecting : sd ∈ p'.sockets.connect_pending → sd ∈ p.sockets.connect_pending
  wset : p'.sockets.wset = p.sockets.wset
  rset : p'.selecting = none → p.selecting = none ∧ p'.sockets.rset = p.sockets.rset

theorem kept_of_alike
    {sd : Int} {p : Polling} {s : Sockets}
    (h : Sockets.Alike sd p.sockets s) :
    Kept sd p { p with sockets := s } :=
  ⟨h.left.mp, h.connecting.mp, h.wset, fun hfree => ⟨hfree, h.rset⟩⟩

/-- A call hands out the socket at the cursor, and otherwise leaves nothing. -/
theorem handed_getReadySocket
    {p : Polling}
    (hp : p.Valid) :
    (∃ sd, handed ⟨p, .getReadySocket, p.getReadySocket.2⟩ = some sd ∧
        p.sockets.Hands p.sockets.left sd p.getReadySocket.2.sockets ∧
        p.getReadySocket.2.selecting = p.selecting) ∨
      handed ⟨p, .getReadySocket, p.getReadySocket.2⟩ = none ∧
        (∀ sd ∈ p.sockets.left, ¬ p.sockets.Ready sd) ∧
        p.getReadySocket.2.sockets.left = [] ∧
        (p.getReadySocket.2 = p ∨ p.getReadySocket.2.selecting.isSome = true) ∧
        p.getReadySocket.2.sockets.wset = p.sockets.wset ∧
        p.getReadySocket.2.sockets.connect_pending = p.sockets.connect_pending := by
  rcases getReadySocket_cases hp with ⟨heq, hleft⟩ | ⟨sd, s', heq, hands⟩ | ⟨hnone, current, _, heq⟩
  · right
    refine ⟨?_, fun sd hsd => absurd (hleft ▸ hsd) List.not_mem_nil, ?_⟩
    · simp [handed, outcome, heq]
    · rw [heq]
      exact ⟨hleft, .inl rfl, rfl, rfl⟩
  · left
    have hopen : sd ∈ p.sockets.clientsds := (Lib.rest_suffix _ _).subset hands.mem
    have hpos := hp.sockets.positive sd hopen
    refine ⟨sd, ?_, ?_, ?_⟩
    · have hne : sd ≠ 0 := by omega
      simp [handed, outcome, heq, hne]
    · rw [heq]
      exact hands
    · rw [heq]
  · right
    refine ⟨?_, hnone, ?_⟩
    · simp [handed, outcome, heq]
    · rw [heq]
      exact ⟨rfl, .inr rfl, rfl, rfl⟩

theorem kept_step
    {p p' : Polling} {e : SocketEvent} {sd : Int}
    (hp : p.Valid)
    (hstep : Step p e p')
    (hnew : ∀ nonblocking rc, e ≠ .new sd nonblocking rc)
    (hfinish : ∀ polled, e ≠ .finish polled) :
    Kept sd p p' := by
  obtain ⟨hadmissible, rfl⟩ := hstep
  cases e with
  | new sock nonblocking rc =>
      have hne : sd ≠ sock := by
        rintro rfl
        exact hnew nonblocking rc rfl
      exact kept_of_alike
        (Sockets.alike_new nonblocking rc hp.sockets hadmissible.1 hadmissible.2 hne)
  | putdatas socket =>
      rw [outcome, Sockets.putdatas_eq]
      split <;> exact ⟨id, id, rfl, fun h => ⟨h, rfl⟩⟩
  | addPendingWrite socket => exact ⟨id, id, rfl, fun h => ⟨h, rfl⟩⟩
  | clearPendingWrite socket => exact ⟨id, id, rfl, fun h => ⟨h, rfl⟩⟩
  | noPendingWrites socket =>
      exact kept_of_alike (Sockets.alike_noPendingWrites sd p.sockets socket)
  | close socket =>
      refine ⟨fun h => ?_, List.mem_of_mem_erase, rfl, fun h => ⟨h, rfl⟩⟩
      rw [outcome, Sockets.close_left hp.sockets] at h
      exact List.mem_of_mem_erase h
  | getReadySocket =>
      rcases handed_getReadySocket hp with
        ⟨x, _, hands, hselecting⟩ | ⟨_, _, hleft, hstate, hwset, hconnecting⟩
      · obtain ⟨cursor, current, connecting, hconnecting, hs'⟩ := hands.changes
        refine ⟨hands.left_mem, fun h => ?_, by rw [outcome, hs'],
          fun h => ⟨hselecting ▸ h, by rw [outcome, hs']⟩⟩
        rw [outcome, hs'] at h
        rcases hconnecting with rfl | rfl
        · exact h
        · exact List.mem_of_mem_erase h
      · refine ⟨fun h => absurd (hleft ▸ h) List.not_mem_nil, fun h => hconnecting ▸ h, hwset, ?_⟩
        intro hfree
        rcases hstate with heq | hsome
        · rw [outcome, heq] at hfree ⊢
          exact ⟨hfree, rfl⟩
        · rw [outcome] at hfree
          rw [hfree] at hsome
          exact absurd hsome Bool.false_ne_true
  | finish polled => exact absurd rfl (hfinish polled)

theorem handed_step
    {p p' : Polling} {e : SocketEvent} {sd : Int}
    (hp : p.Valid)
    (hstep : Step p e p')
    (hfinish : ∀ polled, e ≠ .finish polled)
    (h : handed ⟨p, e, p'⟩ = some sd) :
    p.sockets.Hands p.sockets.left sd p'.sockets ∧ p.selecting = none := by
  obtain ⟨hadmissible, rfl⟩ := hstep
  cases e with
  | getReadySocket =>
      rcases handed_getReadySocket hp with ⟨x, hx, hands, _⟩ | ⟨hnone, _⟩
      · obtain rfl : x = sd := Option.some.inj (hx.symm.trans h)
        exact ⟨hands, hadmissible⟩
      · cases hnone.symm.trans h
  | finish polled => exact absurd rfl (hfinish polled)
  | _ => cases h

/-- A socket that is ready and not passed yet is handed out, or stays so. -/
theorem waits_step
    {p p' : Polling} {e : SocketEvent} {sd : Int}
    (hp : p.Valid)
    (hstep : Step p e p')
    (hfinish : ∀ polled, e ≠ .finish polled)
    (hother : ¬ Concerns sd e)
    (hleft : sd ∈ p.sockets.left)
    (hready : p.sockets.Ready sd) :
    handed ⟨p, e, p'⟩ = some sd ∨ sd ∈ p'.sockets.left ∧ p'.sockets.Ready sd := by
  obtain ⟨hadmissible, rfl⟩ := hstep
  have halike : ∀ s, Sockets.Alike sd p.sockets s → sd ∈ s.left ∧ s.Ready sd := fun s h =>
    ⟨h.left.mpr hleft, h.ready.mpr hready⟩
  cases e with
  | new sock nonblocking rc =>
      exact .inr (halike _ (Sockets.alike_new nonblocking rc hp.sockets hadmissible.1
        hadmissible.2 fun h => hother h.symm))
  | putdatas socket =>
      exact .inr (halike _ (Sockets.alike_putdatas p.sockets fun h => hother h.symm))
  | addPendingWrite socket => exact .inr ⟨hleft, hready⟩
  | clearPendingWrite socket => exact .inr ⟨hleft, hready⟩
  | noPendingWrites socket =>
      exact .inr (halike _ (Sockets.alike_noPendingWrites sd p.sockets socket))
  | close socket =>
      exact .inr (halike _ (Sockets.alike_close hp.sockets fun h => hother h.symm))
  | getReadySocket =>
      rcases handed_getReadySocket hp with ⟨x, hx, hands, _⟩ | ⟨_, hnone, _⟩
      · by_cases hne : sd = x
        · exact .inl (hne ▸ hx)
        · exact .inr (hands.waits hleft hne hready)
      · exact absurd hready (hnone sd hleft)
  | finish polled => exact absurd rfl (hfinish polled)

/-! ### From one `select` to the next -/

def start : Polling := ⟨.outInitialize, none⟩

theorem valid_start :
    start.Valid where
  sockets := Sockets.valid_outInitialize
  waiting := fun sel hsel => absurd hsel (Option.not_mem_none sel)

def next (p : Polling) (e : SocketEvent) : Polling :=
  (p.outcome e).2

theorem runs_trace
    (es : List SocketEvent)
    (h : ∀ x ∈ Lib.trace next start es, x.pre.Admissible x.event) :
    Lib.Runs Step start (Lib.trace next start es) (es.foldl next start) :=
  Lib.Runs.of_trace start es fun x hx => ⟨h x hx, Lib.post_of_mem_trace hx⟩

theorem valid_run
    {p : Polling} {tr : List (Lib.Transition Polling SocketEvent)}
    (hrun : Lib.Runs Step start tr p) :
    (∀ x ∈ tr, x.pre.Valid ∧ x.post.Valid) ∧ p.Valid :=
  hrun.invariant (fun _ _ _ hp hstep => valid_step hp hstep) valid_start

/-- A call that comes back from `select`, with the sockets that it has found. -/
def Found (polled : Polled) (p : Polling) (sd : Int) : Prop :=
  sd ∈ p.sockets.clientsds ∧ polled.writable sd = true ∧
    (sd ∈ p.sockets.connect_pending ∨ sd ∈ p.sockets.rset ∧ polled.readable sd = true)

/-- How often the transitions have handed a socket out. -/
def timesHanded (sd : Int) (tr : List (Lib.Transition Polling SocketEvent)) : Nat :=
  (tr.filterMap handed).count sd

theorem timesHanded_append
    (sd : Int) (tr : List (Lib.Transition Polling SocketEvent))
    (x : Lib.Transition Polling SocketEvent) :
    timesHanded sd (tr ++ [x]) = timesHanded sd tr + if handed x = some sd then 1 else 0 := by
  rw [timesHanded, List.filterMap_append, List.count_append]
  congr 1
  cases h : handed x with
  | none => simp [h]
  | some y => simp [h, List.count_singleton]

/-- What has been handed out since a `select`, and what can be. -/
structure Served (sd : Int) (P : Prop) (tr : List (Lib.Transition Polling SocketEvent))
    (p : Polling) : Prop where
  valid : p.Valid
  once : timesHanded sd tr ≤ 1
  left : sd ∈ p.sockets.left → timesHanded sd tr = 0
  found : timesHanded sd tr = 1 → P
  ready : sd ∈ p.sockets.left → p.selecting = none → sd ∈ p.sockets.wset →
    (sd ∈ p.sockets.connect_pending ∨ sd ∈ p.sockets.rset) → P

theorem served_step
    {p p' : Polling} {e : SocketEvent} {sd : Int} {P : Prop}
    {tr : List (Lib.Transition Polling SocketEvent)}
    (h : Served sd P tr p)
    (hstep : Step p e p')
    (hnew : ∀ nonblocking rc, e ≠ .new sd nonblocking rc)
    (hfinish : ∀ polled, e ≠ .finish polled) :
    Served sd P (tr ++ [⟨p, e, p'⟩]) p' := by
  have hkept := kept_step h.valid hstep hnew hfinish
  have hready : sd ∈ p'.sockets.left → p'.selecting = none → sd ∈ p'.sockets.wset →
      (sd ∈ p'.sockets.connect_pending ∨ sd ∈ p'.sockets.rset) → P := by
    intro hleft hfree hwset hrest
    obtain ⟨hfree', hrset⟩ := hkept.rset hfree
    rw [hkept.wset] at hwset
    rw [hrset] at hrest
    exact h.ready (hkept.left hleft) hfree' hwset (hrest.imp_left hkept.connecting)
  by_cases hhanded : handed ⟨p, e, p'⟩ = some sd
  · -- It was left to be handed out, so that this is the first time.
    obtain ⟨hands, hfree⟩ := handed_step h.valid hstep hfinish hhanded
    have hcount : timesHanded sd (tr ++ [⟨p, e, p'⟩]) = 1 := by
      rw [timesHanded_append, if_pos hhanded, h.left hands.mem]
    have hnodup : p.sockets.left.Nodup := Lib.rest_nodup h.valid.sockets.nodup _
    exact {
      valid := valid_step h.valid hstep
      once := hcount.le
      left := fun hleft => absurd hleft (hands.not_left hnodup)
      found := fun _ => h.ready hands.mem hfree hands.ready.1 (hands.ready.2.imp_right And.left)
      ready := hready }
  · have hcount : timesHanded sd (tr ++ [⟨p, e, p'⟩]) = timesHanded sd tr := by
      rw [timesHanded_append, if_neg hhanded, Nat.add_zero]
    exact {
      valid := valid_step h.valid hstep
      once := hcount ▸ h.once
      left := fun hleft => hcount.trans (h.left (hkept.left hleft))
      found := fun h1 => h.found (hcount ▸ h1)
      ready := hready }

theorem handed_finish
    {p : Polling} {sel : Select} (sd : Int)
    (hsel : sel ∈ p.selecting) (polled : Polled) (p' : Polling) :
    handed ⟨p, .finish polled, p'⟩ = some sd ↔
      (finish sel polled p.sockets).1 = (sd, 0) ∧ sd ≠ 0 := by
  simp only [handed, outcome, Option.mem_def.mp hsel, Option.bind_some]
  split
  case isTrue h =>
    rw [Option.some_inj]
    constructor
    · rintro rfl
      exact ⟨Prod.ext rfl h.1, h.2⟩
    · rintro ⟨heq, _⟩
      rw [heq]
  case isFalse h =>
    refine iff_of_false nofun fun ⟨heq, hne⟩ => h ?_
    rw [heq]
    exact ⟨rfl, hne⟩

theorem Selected.found
    {p : Polling} {sel : Select} {polled : Polled} {s : Sockets}
    (hp : p.Valid)
    (hsel : sel ∈ p.selecting)
    (h : Selected sel polled p.sockets s) (sd : Int) :
    sd ∈ s.wset ∧ (sd ∈ s.connect_pending ∨ sd ∈ s.rset) ↔ Found polled p sd := by
  have hconnecting : s.connect_pending = p.sockets.connect_pending := by
    obtain ⟨_, _, _, _, rfl⟩ := h.changes
    rfl
  rw [h.wset hp, h.rset hp hsel, hconnecting, Found, and_assoc]

theorem timesHanded_single
    (sd : Int) (x : Lib.Transition Polling SocketEvent) :
    timesHanded sd [x] = if handed x = some sd then 1 else 0 :=
  (timesHanded_append sd [] x).trans (Nat.zero_add _)

/-- The call that comes back from `select` starts the sweep. -/
theorem served_finish
    {p p' : Polling} {polled : Polled} {sd : Int}
    (hp : p.Valid)
    (hstep : Step p (.finish polled) p') :
    Served sd (Found polled p sd) [⟨p, .finish polled, p'⟩] p' := by
  have hvalid := valid_step hp hstep
  obtain ⟨hadmissible, hp'⟩ := hstep
  obtain ⟨sel, hsel⟩ := Option.isSome_iff_exists.mp hadmissible
  rw [outcome, hsel] at hp'
  have hhanded := handed_finish sd hsel polled p'
  have hsockets : p'.sockets = (finish sel polled p.sockets).2 := by rw [hp']
  have hnothing : (finish sel polled p.sockets).1 ≠ (sd, 0) ∨ sd = 0 →
      p'.sockets.left = [] → Served sd (Found polled p sd) [⟨p, .finish polled, p'⟩] p' := by
    intro h hleft
    have hcount : timesHanded sd [⟨p, .finish polled, p'⟩] = 0 := by
      rw [timesHanded_single, if_neg fun hsome => ?_]
      obtain ⟨heq, hne⟩ := hhanded.mp hsome
      exact h.elim (fun h => h heq) hne
    exact {
      valid := hvalid
      once := hcount ▸ Nat.zero_le 1
      left := fun _ => hcount
      found := fun h1 => absurd (hcount.symm.trans h1) Nat.zero_ne_one
      ready := fun h => absurd (hleft ▸ h) List.not_mem_nil }
  rcases finish_cases hp hsel polled with
    ⟨hfailed, _, hleft⟩ | ⟨s, hselected, ⟨_, hidle, _, hleft⟩ | ⟨x, s', heq, hands⟩⟩
  · refine hnothing (.inl fun heq => ?_) (hsockets ▸ hleft)
    rw [heq] at hfailed
    exact absurd (show (0 : Int) = SOCKET_ERROR from hfailed) (by decide)
  · rw [hidle] at hnothing
    refine hnothing ?_ (hsockets ▸ hleft)
    by_cases h0 : sd = 0
    · exact .inr h0
    · exact .inl fun h => h0 (Prod.mk.inj h).1.symm
  · have hsockets' : p'.sockets = s' := by rw [hsockets, heq]
    have hnodup : s.clientsds.Nodup := hselected.valid.nodup
    have hxpos := hselected.valid.positive x hands.mem
    have hfound := hselected.found hp hsel sd
    have hready : sd ∈ p'.sockets.wset →
        (sd ∈ p'.sockets.connect_pending ∨ sd ∈ p'.sockets.rset) → Found polled p sd := by
      obtain ⟨cursor, current, connecting, hconnecting, hs'⟩ := hands.changes
      rw [hsockets', hs']
      intro hwset hrest
      refine hfound.mp ⟨hwset, hrest.imp_left fun hmem => ?_⟩
      rcases hconnecting with rfl | rfl
      · exact hmem
      · exact List.mem_of_mem_erase hmem
    rw [heq] at hhanded
    by_cases hx : sd = x
    · subst hx
      have hcount : timesHanded sd [⟨p, .finish polled, p'⟩] = 1 := by
        rw [timesHanded_single, if_pos (hhanded.mpr ⟨rfl, by omega⟩)]
      exact {
        valid := hvalid
        once := hcount.le
        left := fun h => absurd (hsockets' ▸ h) (hands.not_left hnodup)
        found := fun _ => hfound.mp ⟨hands.ready.1, hands.ready.2.imp_right And.left⟩
        ready := fun _ _ => hready }
    · have hcount : timesHanded sd [⟨p, .finish polled, p'⟩] = 0 := by
        rw [timesHanded_single, if_neg fun hsome => ?_]
        exact hx (Prod.mk.inj (hhanded.mp hsome).1).1.symm
      exact {
        valid := hvalid
        once := hcount ▸ Nat.zero_le 1
        left := fun _ => hcount
        found := fun h1 => absurd (hcount.symm.trans h1) Nat.zero_ne_one
        ready := fun _ _ => hready }

/-- A socket that has been found and can be read from is next, or waits for its turn. -/
theorem waits_finish
    {p p' : Polling} {polled : Polled} {sd : Int} {returned : Int}
    (hp : p.Valid)
    (hstep : Step p (.finish polled) p')
    (hok : (p.outcome (.finish polled)).1 = some (returned, 0))
    (hfound : Found polled p sd)
    (hfree : sd ∉ p.sockets.write_pending) :
    timesHanded sd [⟨p, .finish polled, p'⟩] = 1 ∨
      sd ∈ p'.sockets.left ∧ p'.sockets.Ready sd := by
  obtain ⟨hadmissible, hp'⟩ := hstep
  obtain ⟨sel, hsel⟩ := Option.isSome_iff_exists.mp hadmissible
  rw [outcome, hsel] at hp' hok
  have hhanded := handed_finish sd hsel polled p'
  have hsockets : p'.sockets = (finish sel polled p.sockets).2 := by rw [hp']
  have hready : ∀ s, Selected sel polled p.sockets s → sd ∈ s.clientsds ∧ s.Ready sd := by
    intro s hselected
    obtain ⟨hwset, hrest⟩ := (hselected.found hp hsel sd).mpr hfound
    obtain ⟨pending, _, _, hsub, rfl⟩ := hselected.changes
    exact ⟨hfound.1, hwset, hrest.imp_right fun h => ⟨h, fun hmem => hfree (hsub hmem)⟩⟩
  rcases finish_cases hp hsel polled with
    ⟨hfailed, _⟩ | ⟨s, hselected, ⟨hnone, _⟩ | ⟨x, s', heq, hands⟩⟩
  · rw [show (finish sel polled p.sockets).1 = (returned, 0) from Option.some.inj hok] at hfailed
    exact absurd (show (0 : Int) = SOCKET_ERROR from hfailed) (by decide)
  · exact absurd (hready s hselected).2 (hnone sd (hready s hselected).1)
  · have hpos := hselected.valid.positive sd (hready s hselected).1
    rw [heq] at hhanded hsockets
    by_cases hx : sd = x
    · left
      rw [timesHanded_single, if_pos (hhanded.mpr ⟨by rw [hx], by omega⟩)]
    · right
      rw [hsockets]
      exact hands.waits (hready s hselected).1 hx (hready s hselected).2

/-- No socket is handed out that is not open. -/
theorem handed_open
    {p p' : Polling} {e : SocketEvent} {sd : Int}
    (hp : p.Valid)
    (hstep : Step p e p')
    (h : handed ⟨p, e, p'⟩ = some sd) :
    sd ∈ p'.sockets.clientsds := by
  by_cases hfinish : ∃ polled, e = .finish polled
  · obtain ⟨polled, rfl⟩ := hfinish
    obtain ⟨hadmissible, rfl⟩ := hstep
    obtain ⟨sel, hsel⟩ := Option.isSome_iff_exists.mp hadmissible
    obtain ⟨hreturned, hne⟩ := (handed_finish sd hsel polled _).mp h
    rw [outcome, hsel]
    change sd ∈ (finish sel polled p.sockets).2.clientsds
    rcases finish_cases hp hsel polled with
      ⟨hfailed, _⟩ | ⟨s, _, ⟨_, hidle, _⟩ | ⟨x, s', heq, hands⟩⟩
    · rw [hreturned] at hfailed
      exact absurd (show (0 : Int) = SOCKET_ERROR from hfailed) (by decide)
    · exact absurd (Prod.mk.inj (hreturned.symm.trans hidle)).1 hne
    · rw [heq] at hreturned ⊢
      rw [← show x = sd from (Prod.mk.inj hreturned).1, hands.clientsds]
      exact hands.mem
  · obtain ⟨hands, _⟩ := handed_step hp hstep (fun polled heq => hfinish ⟨polled, heq⟩) h
    rw [hands.clientsds]
    exact (Lib.rest_suffix _ _).subset hands.mem

/--
Until the next call comes back from `select`, a socket that is not opened anew is handed out
at most once, only if it has been found, and only while it is open.
-/
theorem handed_out_once
    {p : Polling} {tr₁ tr₂ : List (Lib.Transition Polling SocketEvent)}
    {x : Lib.Transition Polling SocketEvent} {polled : Polled} {sd : Int}
    (hrun : Lib.Runs Step start (tr₁ ++ x :: tr₂) p)
    (hx : x.event = .finish polled)
    (htail : ∀ y ∈ tr₂, (∀ nonblocking rc, y.event ≠ .new sd nonblocking rc) ∧
      ∀ polled, y.event ≠ .finish polled) :
    timesHanded sd (x :: tr₂) ≤ 1 ∧
      (timesHanded sd (x :: tr₂) = 1 → Found polled x.pre sd) ∧
      ∀ y ∈ x :: tr₂, handed y = some sd → sd ∈ y.post.sockets.clientsds := by
  have hopen : ∀ y ∈ x :: tr₂, handed y = some sd → sd ∈ y.post.sockets.clientsds := by
    intro y hy
    have hmem := List.mem_append_right tr₁ hy
    exact handed_open ((valid_run hrun).1 y hmem).1 (hrun.step_of_mem y hmem)
  obtain ⟨hbefore, hstep, hafter⟩ := hrun.split
  obtain ⟨pre, e, post⟩ := x
  dsimp only at hx hbefore hstep hafter
  subst hx
  have hserved := (hafter.history_of
    (I := fun tr s => Served sd (Found polled pre sd) tr s)
    (C := fun _ e => (∀ nonblocking rc, e ≠ .new sd nonblocking rc) ∧ ∀ polled, e ≠ .finish polled)
    (fun _ _ _ _ h hC hstep => served_step h hstep hC.1 hC.2)
    (served_finish (valid_run hbefore).2 hstep) htail).2
  exact ⟨hserved.once, hserved.found, hopen⟩

/-- Everything is readable and writable. -/
def everything : Polled :=
  ⟨false, fun _ => true, fun _ => true, fun _ _ => 1, false, fun _ => true⟩

/-- Two sockets are opened, one of them connects, and a thread waits in `select`. -/
def opened : List SocketEvent :=
  [.new 5 0 0, .new 7 0 EINPROGRESS, .getReadySocket]

theorem admissible_opened :
    ∀ x ∈ Lib.trace next start
      (opened ++ [.finish everything, .getReadySocket, .getReadySocket]),
      x.pre.Admissible x.event := by
  refine List.forall_mem_cons.mpr ⟨⟨by decide, by decide⟩,
    List.forall_mem_cons.mpr ⟨⟨by decide, by decide⟩,
    List.forall_mem_cons.mpr ⟨rfl, List.forall_mem_cons.mpr ⟨rfl,
      List.forall_mem_cons.mpr ⟨rfl, List.forall_mem_cons.mpr ⟨rfl, ?_⟩⟩⟩⟩⟩⟩
  exact fun _ h => absurd h List.not_mem_nil

theorem handed_out_once_two :
    timesHanded 7 (Lib.trace next (opened.foldl next start)
        [.finish everything, .getReadySocket, .getReadySocket]) ≤ 1 ∧
      (timesHanded 7 (Lib.trace next (opened.foldl next start)
        [.finish everything, .getReadySocket, .getReadySocket]) = 1 →
        Found everything (opened.foldl next start) 7) ∧
      ∀ y ∈ Lib.trace next (opened.foldl next start)
        [.finish everything, .getReadySocket, .getReadySocket],
        handed y = some 7 → 7 ∈ y.post.sockets.clientsds :=
  @handed_out_once _ (Lib.trace next start opened) _ _ everything 7
    (runs_trace _ admissible_opened) rfl
    (List.forall_mem_cons.mpr ⟨⟨nofun, nofun⟩, List.forall_mem_cons.mpr ⟨⟨nofun, nofun⟩,
      fun _ h => absurd h List.not_mem_nil⟩⟩)

/--
A socket that has been found, and has no packet left to be written, is handed out exactly
once before `select` is called again.
-/
theorem found_handed_out
    {p : Polling} {tr₁ tr₂ : List (Lib.Transition Polling SocketEvent)}
    {x : Lib.Transition Polling SocketEvent} {polled : Polled} {sd returned : Int}
    (hrun : Lib.Runs Step start (tr₁ ++ x :: tr₂) p)
    (hx : x.event = .finish polled)
    (hok : (x.pre.outcome x.event).1 = some (returned, 0))
    (hfound : Found polled x.pre sd)
    (hfree : sd ∉ x.pre.sockets.write_pending)
    (htail : ∀ y ∈ tr₂, ¬ Concerns sd y.event ∧ ∀ polled, y.event ≠ .finish polled)
    (hnext : p.selecting.isSome = true) :
    timesHanded sd (x :: tr₂) = 1 := by
  have hnew : ∀ e, ¬ Concerns sd e → ∀ nonblocking rc, e ≠ .new sd nonblocking rc := by
    rintro e he nonblocking rc rfl
    exact he rfl
  have honce := (handed_out_once hrun hx fun y hy =>
    ⟨hnew y.event (htail y hy).1, (htail y hy).2⟩).1
  obtain ⟨hbefore, hstep, hafter⟩ := hrun.split
  obtain ⟨pre, e, post⟩ := x
  dsimp only at hx hok hfound hfree hbefore hstep hafter
  subst hx
  have hpre := (valid_run hbefore).2
  obtain ⟨hp, hwaits⟩ := (hafter.history_of
    (I := fun tr s => s.Valid ∧
      (1 ≤ timesHanded sd tr ∨ sd ∈ s.sockets.left ∧ s.sockets.Ready sd))
    (C := fun _ e => ¬ Concerns sd e ∧ ∀ polled, e ≠ .finish polled)
    (by
      rintro tr s e t ⟨hs, hwaits⟩ hC hstep
      refine ⟨valid_step hs hstep, ?_⟩
      rw [timesHanded_append]
      rcases hwaits with hcount | ⟨hleft, hready⟩
      · exact .inl (Nat.le_add_right_of_le hcount)
      · rcases waits_step hs hstep hC.2 hC.1 hleft hready with h | h
        · rw [if_pos h]
          exact .inl (Nat.le_add_left 1 _)
        · exact .inr h)
    ⟨valid_step hpre hstep, (waits_finish hpre hstep hok hfound hfree).imp_left Eq.ge⟩ htail).2
  -- While a thread waits in `select` no socket is left.
  rcases hwaits with hcount | ⟨hleft, _⟩
  · exact Nat.le_antisymm honce hcount
  · obtain ⟨sel, hsel⟩ := Option.isSome_iff_exists.mp hnext
    rw [Sockets.left, (hp.waiting sel hsel).1] at hleft
    exact absurd hleft List.not_mem_nil

theorem found_handed_out_two :
    timesHanded 7 (Lib.trace next (opened.foldl next start)
      [.finish everything, .getReadySocket, .getReadySocket]) = 1 :=
  @found_handed_out _ (Lib.trace next start opened) _ _ everything 7 5
    (runs_trace _ admissible_opened) rfl (by decide) ⟨by decide, rfl, .inl (by decide)⟩
    (by decide)
    (List.forall_mem_cons.mpr ⟨⟨id, nofun⟩, List.forall_mem_cons.mpr ⟨⟨id, nofun⟩,
      fun _ h => absurd h List.not_mem_nil⟩⟩)
    rfl

/-! ### What `select` is called with -/

/-- Every packet that has been written in part is waited for. -/
def Waited (s : Sockets) : Prop :=
  ∀ sd ∈ s.write_pending, sd ∈ s.pending_wset

theorem waited_erase
    {s : Sockets} (socket : Int)
    (hnodup : s.write_pending.Nodup)
    (h : Waited s) :
    ∀ sd ∈ s.write_pending.erase socket, sd ∈ s.pending_wset.erase socket := by
  intro sd hsd
  obtain ⟨hne, hmem⟩ := hnodup.mem_erase_iff.mp hsd
  exact Finset.mem_erase.mpr ⟨hne, h sd hmem⟩

theorem waited_continueLoop
    (pwset : Finset Int) (continueWrite : Nat → Int → Int) (n : Nat) (curpending : Option Int)
    (result : Int × Int) (s : Sockets)
    (hs : s.write_pending.Nodup)
    (h : Waited s) :
    Waited (Sockets.continueLoop pwset continueWrite n curpending result s).2 := by
  induction n generalizing curpending result s with
  | zero =>
      exact h
  | succ n ih =>
      rw [Sockets.continueLoop]
      split
      · exact h
      · exact ih _ _ _ (hs.erase _) (waited_erase _ hs h)

/-- Looking for a ready socket leaves the pending writes alone. -/
theorem waited_sweep
    (sds : List Int) (s : Sockets)
    (h : Waited s) :
    Waited (Sockets.sweep sds s) := by
  induction sds generalizing s with
  | nil =>
      exact h
  | cons x sds ih =>
      have hready : Waited (s.isReady x).2 := by
        rw [Sockets.isReady, Sockets.noPendingWrites]
        split
        · exact h
        · split
          · split <;> exact h
          · exact h
      dsimp only [Sockets.sweep]
      split
      · exact hready
      · exact ih _ hready

theorem waited_take
    {s : Sockets}
    (h : Waited s) :
    Waited s.take.2 := by
  rw [Sockets.take]
  split <;> exact h

theorem waited_finish
    (sel : Select) (polled : Polled) (s : Sockets)
    (hs : s.write_pending.Nodup)
    (h : Waited s) :
    Waited (finish sel polled s).2 := by
  have hwritten : Waited _ := waited_continueLoop (select sel.nfds polled.unblocked sel.pwset)
    polled.continueWrite s.write_pending.length s.write_pending.head? (0, 0)
    { s with rset := select sel.nfds polled.readable s.rset } hs h
  dsimp only [finish, Sockets.continueWrites]
  split
  · exact h
  · split
    · exact hwritten
    · split
      · exact hwritten
      · split
        · exact hwritten
        · exact waited_take (waited_sweep _ _ hwritten)

theorem waited_step
    {p p' : Polling} {e : SocketEvent}
    (hp : p.Valid)
    (h : Waited p.sockets)
    (hclear : ∀ socket, e = .clearPendingWrite socket → socket ∉ p.sockets.write_pending)
    (hstep : Step p e p') :
    Waited p'.sockets := by
  obtain ⟨hadmissible, rfl⟩ := hstep
  cases e with
  | new sock nonblocking rc =>
      obtain ⟨s', hs', _, ⟨_, _, hpending, hset⟩, heq | heq⟩ :=
        Sockets.new_state nonblocking rc hp.sockets hadmissible.1 hadmissible.2
      all_goals
        have h' : Waited s' := by
          rw [Waited, hpending, hset]
          exact h
        rw [outcome, heq]
      · exact h'
      · exact waited_erase sock hs'.writing.1 h'
  | putdatas socket =>
      rw [outcome, Sockets.putdatas_eq]
      split
      case isTrue => exact h
      case isFalse =>
        intro sd hsd
        rcases List.mem_append.mp hsd with hsd | hsd
        · exact Finset.mem_insert_of_mem (h sd hsd)
        · exact Finset.mem_insert.mpr (.inl (List.mem_singleton.mp hsd))
  | addPendingWrite socket => exact fun sd hsd => Finset.mem_insert_of_mem (h sd hsd)
  | clearPendingWrite socket =>
      intro sd hsd
      refine Finset.mem_erase.mpr ⟨?_, h sd hsd⟩
      rintro rfl
      exact hclear sd rfl hsd
  | noPendingWrites socket =>
      rw [outcome, Sockets.noPendingWrites]
      split <;> exact h
  | close socket => exact waited_erase socket hp.sockets.writing.1 h
  | getReadySocket =>
      rcases getReadySocket_cases hp with ⟨heq, _⟩ | ⟨sd, s', heq, hands⟩ | ⟨_, current, _, heq⟩
      · rw [outcome, heq]
        exact h
      · obtain ⟨_, _, _, _, hs'⟩ := hands.changes
        rw [outcome, heq, hs']
        exact h
      · rw [outcome, heq]
        exact h
  | finish polled =>
      obtain ⟨sel, hsel⟩ := Option.isSome_iff_exists.mp hadmissible
      rw [outcome, hsel]
      exact waited_finish sel polled p.sockets hp.sockets.writing.1 h

/--
Every call that waits in `select` reads from exactly the sockets that are open, and waits for
every packet that has been written in part, with all of them below the number that it gives.
-/
theorem select_watches
    {p : Polling} {tr : List (Lib.Transition Polling SocketEvent)}
    {x : Lib.Transition Polling SocketEvent} {sel : Select}
    (hrun : Lib.Runs Step start tr p)
    (hclear : ∀ x ∈ tr, ∀ socket, x.event = .clearPendingWrite socket →
      socket ∉ x.pre.sockets.write_pending)
    (hx : x ∈ tr)
    (hcall : x.event = .getReadySocket)
    (hsel : x.post.selecting = some sel) :
    (∀ sd, sd ∈ x.post.sockets.rset ↔ sd ∈ x.post.sockets.clientsds) ∧
      (∀ sd ∈ x.post.sockets.clientsds, 0 < sd ∧ sd < sel.nfds) ∧
      ∀ sd ∈ x.post.sockets.write_pending, sd ∈ sel.pwset ∧ sd < sel.nfds := by
  obtain ⟨⟨hp, _⟩, hp', hwaited⟩ := (hrun.invariant_of
    (I := fun s => s.Valid ∧ Waited s.sockets)
    (C := fun s e => ∀ socket, e = .clearPendingWrite socket → socket ∉ s.sockets.write_pending)
    (fun _ _ _ h hC hstep => ⟨valid_step h.1 hstep, waited_step h.1 h.2 hC hstep⟩)
    ⟨valid_start, fun _ h => absurd h List.not_mem_nil⟩ hclear).1 x hx
  have hstep := hrun.step_of_mem x hx
  obtain ⟨pre, e, post⟩ := x
  dsimp only at hcall hsel hp hp' hwaited hstep ⊢
  subst hcall
  obtain ⟨hfree, rfl⟩ := hstep
  change pre.getReadySocket.2.selecting = some sel at hsel
  rcases getReadySocket_cases hp with ⟨heq, _⟩ | ⟨sd, s', heq, _⟩ | ⟨_, current, _, heq⟩
  · rw [heq, show pre.selecting = none from hfree] at hsel
    cases hsel
  · rw [heq, show pre.selecting = none from hfree] at hsel
    cases hsel
  · rw [outcome, heq] at hp' hwaited ⊢
    rw [heq] at hsel
    obtain rfl := Option.some.inj hsel
    have hbelow := hp'.sockets.below
    exact ⟨hp'.sockets.saved, fun sd hsd => ⟨hp'.sockets.positive sd hsd, hbelow sd hsd⟩,
      fun sd hsd => ⟨hwaited sd hsd, hbelow sd (hp'.sockets.writing.2 hsd)⟩⟩

theorem select_watches_two :
    (∀ sd, sd ∈ (opened.foldl next start).sockets.rset ↔
        sd ∈ (opened.foldl next start).sockets.clientsds) ∧
      (∀ sd ∈ (opened.foldl next start).sockets.clientsds, 0 < sd ∧ sd < 8) ∧
      ∀ sd ∈ (opened.foldl next start).sockets.write_pending, sd ∈ (∅ : Finset Int) ∧ sd < 8 :=
  @select_watches _ _ _ ⟨8, ∅⟩ (runs_trace _ admissible_opened)
    (List.forall_mem_cons.mpr ⟨nofun, List.forall_mem_cons.mpr ⟨nofun,
      List.forall_mem_cons.mpr ⟨nofun, List.forall_mem_cons.mpr ⟨nofun,
        List.forall_mem_cons.mpr ⟨nofun, List.forall_mem_cons.mpr ⟨nofun,
          fun _ h => absurd h List.not_mem_nil⟩⟩⟩⟩⟩⟩)
    (List.mem_of_getElem? (i := 2) rfl) rfl rfl

end Polling
end PahoMqtt
