import PahoMqtt.FrameRoundTrip

/-!
# Input through a WebSocket

The server sends frames of data, in messages of one or more, with PING and PONG
frames between them.  What `WebSocket_getch` and `WebSocket_getdata` hand on is
the data, as long as the loop of `WebSocket_receiveFrame` does not go wrong: it
frees the data it has together with a control frame, forgets the fragments that
are in no list when it is interrupted, and takes a continuation for a control
frame if that was the frame before.
-/

namespace PahoMqtt
namespace WebSocket

/-! ### What the server sends -/

/-- A frame without a key. -/
structure ServerFrame where
  header : Lib.FrameHeader
  payload : Bytes
  length : payload.length = header.len
  unmasked : header.key = none

namespace ServerFrame

def bytes (f : ServerFrame) : Bytes := f.header.bytes ++ f.payload

def Control (f : ServerFrame) : Prop :=
  f.header.opcode = OP_PING ∨ f.header.opcode = OP_PONG

instance (f : ServerFrame) : Decidable f.Control :=
  inferInstanceAs (Decidable (_ ∨ _))

/-- What a frame adds to the stream of data. -/
def data (f : ServerFrame) : Bytes := if f.Control then [] else f.payload

end ServerFrame

/-- The frames go on from inside or outside of a fragmented message. -/
def WellFormed : (inside : Bool) → List ServerFrame → Prop
  | _, [] => True
  | inside, f :: fs =>
      if f.Control then
        f.header.fin = true ∧ f.payload.length < 126 ∧ WellFormed inside fs
      else
        f.header.opcode = (if inside then OP_CONTINUE else OP_BINARY) ∧
          WellFormed (!f.header.fin) fs

instance WellFormed.decidable :
    (inside : Bool) → (frames : List ServerFrame) → Decidable (WellFormed inside frames)
  | _, [] => inferInstanceAs (Decidable True)
  | inside, f :: fs =>
      have := WellFormed.decidable inside fs
      have := WellFormed.decidable (!f.header.fin) fs
      inferInstanceAs (Decidable (if f.Control then
        f.header.fin = true ∧ f.payload.length < 126 ∧ WellFormed inside fs
      else
        f.header.opcode = (if inside then OP_CONTINUE else OP_BINARY) ∧
          WellFormed (!f.header.fin) fs))

/-- What the loop relies on of a frame. -/
structure ServerFrame.Plain (f : ServerFrame) : Prop where
  control : f.Control → f.header.fin = true
  data : ¬f.Control → f.header.opcode = OP_CONTINUE ∨ f.header.opcode = OP_BINARY

theorem WellFormed.plain
    {inside : Bool} {frames : List ServerFrame}
    (h : WellFormed inside frames) :
    ∀ f ∈ frames, f.Plain := by
  induction frames generalizing inside with
  | nil =>
      intro f hf
      cases hf
  | cons f fs ih =>
      rw [WellFormed] at h
      intro g hg
      by_cases hcontrol : f.Control
      · rw [if_pos hcontrol] at h
        rcases List.mem_cons.mp hg with rfl | hg
        · exact ⟨fun _ => h.1, fun hnot => absurd hcontrol hnot⟩
        · exact ih h.2.2 g hg
      · rw [if_neg hcontrol] at h
        rcases List.mem_cons.mp hg with rfl | hg
        · refine ⟨fun hyes => absurd hyes hcontrol, fun _ => ?_⟩
          cases inside with
          | true => exact Or.inl h.1
          | false => exact Or.inr h.1
        · exact ih h.2 g hg

/-! ### Where the loop goes wrong -/

/-- Data of a frame that was not handed on. -/
def unreadOf (res : Option WsFrame) : Bytes :=
  res.elim [] fun frame => frame.data.drop frame.pos

/-- Data in the list that was not handed on. -/
def held : InFrames → Bytes
  | .frame frame => frame.data.drop frame.pos
  | _ => []

/-- The operation code that stands in the next frame. -/
def ownOpcode (w : FrameReading) : Nat := ((content w).headD 0).toNat % 16

/--
The loop of `WebSocket_receiveFrame` frees no data with a control frame, takes no
continuation with data for one, and is not interrupted while data is in no list
or the list points to freed memory.  What `after` asks for holds where it ends
with a message.
-/
def LoopSafe (socket : Nat) (rcs : Int) (after : FrameReading → Prop) :
    (fuel opcode : Nat) → Option WsFrame → FrameReading → Prop
  | 0, _, _, _ => True
  | fuel + 1, opcode, res, w =>
      match readFrame w socket opcode rcs with
      | (.error _, w') =>
          (unreadOf res = [] ∨ w'.in_frames ≠ .empty) ∧ w'.in_frames ≠ .freed
      | (.ok f, w') =>
          let res' := appendPayload res f.payload
          let next := (getRawSocketData { w' with in_frames := store w'.in_frames res' }
            socket 0 f.rcs).2
          if !f.is_final then LoopSafe socket rcs after fuel f.opcode (some res') next
          else if f.opcode = OP_PING ∨ f.opcode = OP_PONG then
            (unreadOf res = [] ∧ (ownOpcode w ≠ 0 ∨ f.payload = [])) ∧
              LoopSafe socket rcs after fuel f.opcode none
                { next with
                  pongs := if f.opcode = OP_PING then next.pongs ++ [res'.data] else next.pongs
                  in_frames := afterFree next.in_frames }
          else after { next with in_frames := .frame res' }

/-- The value that `rcs` has by chance is not taken for an error. -/
def RcsSafe (w : FrameReading) (rcs : Int) : Prop :=
  received w ≠ [] → rcs ≠ SOCKET_ERROR

def ReceiveSafe (w : FrameReading) (socket : Nat) (rcs : Int) (after : FrameReading → Prop) :
    Prop :=
  RcsSafe w rcs ∧
    match w.in_frames with
    | .empty => LoopSafe socket rcs after ((content w).length + 1) OP_BINARY none w
    | .frame frame => LoopSafe socket rcs after ((content w).length + 1) OP_BINARY (some frame) w
    | .freed => True

/-- A message that `WebSocket_getch` waits for has at least one byte. -/
def GetchSafe (w : FrameReading) (socket : Nat) (rcs : Int) : Prop :=
  nothingLeft w.in_frames = true → ReceiveSafe w socket rcs fun w' => held w'.in_frames ≠ []

def GetdataLoopSafe (socket bytes : Nat) (rcs : Int) : (fuel : Nat) → FrameReading → Prop
  | 0, _ => True
  | fuel + 1, w =>
      (held w.in_frames).length < bytes →
        ReceiveSafe w socket rcs (GetdataLoopSafe socket bytes rcs fuel)

def GetdataSafe (w : FrameReading) (socket bytes : Nat) (rcs : Int) : Prop :=
  bytes ≠ 0 →
    match w.in_frames with
    | .frame _ => GetdataLoopSafe socket bytes rcs ((content w).length + 1) w
    | .freed => True
    | .empty =>
        ReceiveSafe w socket rcs fun w' =>
          GetdataLoopSafe socket bytes rcs ((content w').length + 1) w'

/-! ### The frames that are left -/

/-- These frames are left; the first of them may have been received in part. -/
structure Left (socket : Nat) (w : FrameReading) (left : List ServerFrame) : Prop where
  steady : Steady socket w
  index : w.frame_buffer_index = 0
  content : content w = left.flatMap ServerFrame.bytes
  part : ∀ f fs, left = f :: fs → (received w).length < frameLength f.header

theorem ServerFrame.bytes_length
    (f : ServerFrame) :
    f.bytes.length = frameLength f.header := by
  rw [bytes, List.length_append, f.length, frameLength]

theorem two_le_frameLength
    (h : Lib.FrameHeader) :
    2 ≤ frameLength h := by
  rw [frameLength_eq]
  omega

/-- There are no more frames than bytes. -/
theorem length_le_content
    (left : List ServerFrame) :
    left.length ≤ (left.flatMap ServerFrame.bytes).length := by
  induction left with
  | nil =>
      exact Nat.le_refl 0
  | cons f fs ih =>
      have htwo := two_le_frameLength f.header
      rw [List.flatMap_cons, List.length_append, f.bytes_length, List.length_cons]
      omega

theorem Left.next
    {socket : Nat} {w : FrameReading} {f : ServerFrame} {fs : List ServerFrame}
    (h : Left socket w (f :: fs)) :
    Next w f.header f.payload (fs.flatMap ServerFrame.bytes) :=
  ⟨by rw [h.content, List.flatMap_cons, ServerFrame.bytes, List.append_assoc], f.length⟩

theorem Left.ownOpcode_eq
    {socket : Nat} {w : FrameReading} {f : ServerFrame} {fs : List ServerFrame}
    (h : Left socket w (f :: fs)) :
    ownOpcode w = f.header.opcode := by
  rw [ownOpcode, h.next.content]
  exact f.header.opcode_eq

/-- There is nothing to read. -/
theorem Left.readFrame_nil
    {socket : Nat} {w : FrameReading}
    (h : Left socket w [])
    {rcs : Int}
    (hrcs : RcsSafe w rcs)
    (opcode : Nat) :
    ∃ w', readFrame w socket opcode rcs = (.error TCPSOCKET_INTERRUPTED, w') ∧
      SameFrames w w' ∧ Left socket (rewindData w') [] := by
  have hstart := Walked.start h.steady h.index rcs
  rw [readFrame]
  rcases hstart.readPart (n := 2) (by decide) 2 (by decide) (by decide) hrcs
      TCPSOCKET_INTERRUPTED with ⟨rcs', w', hpart, hwalked⟩ |
    ⟨w', hpart, hsame, hsteady, hcontent, hlt, _⟩
  · have hle := hwalked.steady.index_le
    have hempty : received w' ++ w'.reading.incoming.unread = [] :=
      hwalked.content.trans h.content
    rw [List.append_eq_nil_iff] at hempty
    rw [hwalked.index, hempty.1] at hle
    exact absurd hle (by decide)
  · rw [hpart]
    refine ⟨w', rfl, hsame, ⟨⟨hsteady.vacant, Nat.zero_le _⟩, rfl, ?_, ?_⟩⟩
    · exact hcontent.trans h.content
    · intro f fs hnil
      cases hnil

/-- The next frame is read, and the buffer given up, or the read is interrupted. -/
theorem Left.readFrame_cons
    {socket : Nat} {w : FrameReading} {f : ServerFrame} {fs : List ServerFrame}
    (h : Left socket w (f :: fs))
    {rcs : Int}
    (hrcs : RcsSafe w rcs)
    {opcode : Nat}
    (hopcode : Known (nextOpcode opcode f.header)) :
    (∃ rcs' w', readFrame w socket opcode rcs =
        (.ok ⟨f.header.fin, nextOpcode opcode f.header, f.payload, rcs'⟩, w') ∧
      SameFrames w w' ∧ rcs' ≠ SOCKET_ERROR ∧
      ∀ in_frames, ∃ b w'', getRawSocketData { w' with in_frames } socket 0 rcs' =
          ((some b, 0, rcs'), w'') ∧
        w''.in_frames = in_frames ∧ w''.websocket = w.websocket ∧ received w'' = [] ∧
        Left socket w'' fs) ∨
    (∃ w', readFrame w socket opcode rcs = (.error TCPSOCKET_INTERRUPTED, w') ∧
      SameFrames w w' ∧ Left socket (rewindData w') (f :: fs)) := by
  rcases readFrame_spec rcs h.steady h.index h.next (h.part f fs rfl) hopcode hrcs with
    ⟨rcs', w', hread, hsame, hsteady, hunread, hpos⟩ |
    ⟨w', hread, hsame, hsteady, hcontent, hlt, _⟩
  · refine Or.inl ⟨rcs', w', hread, hsame, by rw [SOCKET_ERROR]; omega, ?_⟩
    intro in_frames
    have hsteady' : Steady socket { w' with in_frames } := ⟨hsteady.vacant, hsteady.index_le⟩
    obtain ⟨b, w'', hraw, hsame', hsteady'', hreceived, hindex, hincoming⟩ :=
      getRawSocketData_zero hsteady' hpos.ne'
    refine ⟨b, w'', hraw, hsame'.in_frames, hsame'.websocket.trans hsame.websocket, hreceived,
      ⟨hsteady'', hindex, ?_, ?_⟩⟩
    · change received w'' ++ w''.reading.incoming.unread = _
      rw [hreceived, hincoming, List.nil_append]
      exact hunread
    · intro g gs _
      have htwo := two_le_frameLength g.header
      rw [hreceived, List.length_nil]
      omega
  · refine Or.inr ⟨w', hread, hsame, ⟨⟨hsteady.vacant, Nat.zero_le _⟩, rfl, ?_, ?_⟩⟩
    · exact hcontent.trans h.content
    · intro g gs hcons
      obtain ⟨rfl, rfl⟩ := List.cons.inj hcons
      exact hlt

/-! ### The loop of `WebSocket_receiveFrame` -/

/-- The first entry of the list can be read from its position on. -/
def Whole : InFrames → Prop
  | .empty => True
  | .frame frame => frame.pos ≤ frame.data.length
  | .freed => False

/-- Between two calls, with these frames left. -/
structure Going (socket : Nat) (w : FrameReading) (left : List ServerFrame) : Prop where
  frames : Left socket w left
  plain : ∀ f ∈ left, f.Plain
  websocket : w.websocket = true
  whole : Whole w.in_frames

/-- `res` and the list between two frames. -/
def Linked : InFrames → Option WsFrame → Prop
  | .empty, _ => True
  | .frame frame, res => res = some frame
  | .freed, res => res = none

/-- The loop between two frames. -/
structure Looping (socket opcode : Nat) (res : Option WsFrame) (w : FrameReading)
    (left : List ServerFrame) : Prop where
  frames : Left socket w left
  plain : ∀ f ∈ left, f.Plain
  websocket : w.websocket = true
  opcode : opcode = OP_BINARY ∨ opcode = OP_PING ∨ opcode = OP_PONG
  fits : ∀ frame, res = some frame → frame.pos ≤ frame.data.length
  linked : Linked w.in_frames res

/--
The data that was held before, `before`, and what the frames carry: some of it was
handed on, `taken`, and the rest is still to come, in this order.
-/
structure Came (socket : Nat) (before taken : Bytes) (left : List ServerFrame)
    (w' : FrameReading) (left' : List ServerFrame) : Prop where
  going : Going socket w' left'
  suffix : left' <:+ left
  data : before ++ left.flatMap ServerFrame.data =
    taken ++ (held w'.in_frames ++ left'.flatMap ServerFrame.data)

theorem Came.trans
    {socket : Nat} {before taken taken' : Bytes} {w w' : FrameReading}
    {left left₁ left₂ : List ServerFrame}
    (h : Came socket before taken left w left₁)
    (h' : Came socket (held w.in_frames) taken' left₁ w' left₂) :
    Came socket before (taken ++ taken') left w' left₂ := by
  refine ⟨h'.going, h'.suffix.trans h.suffix, ?_⟩
  rw [h.data, h'.data, List.append_assoc]

theorem unreadOf_appendPayload
    {res : Option WsFrame}
    (hfits : ∀ frame, res = some frame → frame.pos ≤ frame.data.length)
    (payload : Bytes) :
    unreadOf (some (appendPayload res payload)) = unreadOf res ++ payload := by
  cases res with
  | none => rfl
  | some frame => exact List.drop_append_of_le_length (hfits frame rfl)

theorem appendPayload_fits
    {res : Option WsFrame}
    (hfits : ∀ frame, res = some frame → frame.pos ≤ frame.data.length)
    (payload : Bytes) :
    (appendPayload res payload).pos ≤ (appendPayload res payload).data.length := by
  cases res with
  | none => exact Nat.zero_le _
  | some frame =>
      have hle := hfits frame rfl
      change frame.pos ≤ (frame.data ++ payload).length
      rw [List.length_append]
      omega

theorem linked_store
    (in_frames : InFrames) (res : WsFrame) :
    Linked (store in_frames res) (some res) := by
  cases in_frames with
  | empty => exact trivial
  | frame _ => exact rfl
  | freed => exact rfl

theorem linked_afterFree
    (in_frames : InFrames) :
    Linked (afterFree in_frames) none := by
  cases in_frames with
  | empty => exact trivial
  | frame _ => exact rfl
  | freed => exact rfl

theorem unreadOf_of_linked
    {in_frames : InFrames} {res : Option WsFrame}
    (h : Linked in_frames res)
    (hempty : unreadOf res = [] ∨ in_frames ≠ .empty) :
    unreadOf res = held in_frames := by
  cases in_frames with
  | empty =>
      rcases hempty with hnil | hne
      · exact hnil
      · exact absurd rfl hne
  | frame frame =>
      obtain rfl : res = some frame := h
      rfl
  | freed =>
      obtain rfl : res = none := h
      rfl

theorem whole_of_linked
    {in_frames : InFrames} {res : Option WsFrame}
    (h : Linked in_frames res)
    (hfits : ∀ frame, res = some frame → frame.pos ≤ frame.data.length)
    (hne : in_frames ≠ .freed) :
    Whole in_frames := by
  cases in_frames with
  | empty => exact trivial
  | frame frame => exact hfits frame h
  | freed => exact absurd rfl hne

theorem Looping.interrupted
    {socket opcode : Nat} {res : Option WsFrame} {w w' : FrameReading} {left : List ServerFrame}
    (h : Looping socket opcode res w left)
    (hsame : SameFrames w w')
    (hleft : Left socket (rewindData w') left)
    (hsafe : (unreadOf res = [] ∨ w'.in_frames ≠ .empty) ∧ w'.in_frames ≠ .freed) :
    Came socket (unreadOf res) [] left (rewindData w') left := by
  have hlinked : Linked w'.in_frames res := by
    rw [hsame.in_frames]
    exact h.linked
  refine ⟨⟨hleft, h.plain, hsame.websocket.trans h.websocket, ?_⟩, List.suffix_refl left, ?_⟩
  · exact whole_of_linked hlinked h.fits hsafe.2
  · rw [List.nil_append, unreadOf_of_linked hlinked hsafe.1]
    rfl

theorem ServerFrame.Plain.nextOpcode_cases
    {f : ServerFrame} {opcode : Nat}
    (hplain : f.Plain)
    (hopcode : opcode = OP_BINARY ∨ opcode = OP_PING ∨ opcode = OP_PONG) :
    nextOpcode opcode f.header = OP_BINARY ∨ nextOpcode opcode f.header = OP_PING ∨
      nextOpcode opcode f.header = OP_PONG := by
  rw [nextOpcode]
  by_cases hcontrol : f.Control
  · right
    rcases hcontrol with hping | hpong
    · rw [hping]
      exact Or.inl rfl
    · rw [hpong]
      exact Or.inr rfl
  · rcases hplain.data hcontrol with hcontinue | hbinary
    · rw [hcontinue]
      exact hopcode
    · rw [hbinary]
      exact Or.inl rfl

theorem known_of_cases
    {opcode : Nat}
    (h : opcode = OP_BINARY ∨ opcode = OP_PING ∨ opcode = OP_PONG) :
    Known opcode := by
  rcases h with rfl | rfl | rfl
  · exact ⟨by decide, by decide⟩
  · exact ⟨by decide, by decide⟩
  · exact ⟨by decide, by decide⟩

theorem ServerFrame.Control.nextOpcode_eq
    {f : ServerFrame}
    (h : f.Control)
    (opcode : Nat) :
    nextOpcode opcode f.header = OP_PING ∨ nextOpcode opcode f.header = OP_PONG := by
  rw [nextOpcode]
  rcases h with hping | hpong
  · rw [hping]
    exact Or.inl rfl
  · rw [hpong]
    exact Or.inr rfl

/-- A frame that is taken for a control frame carries no data, where that is safe. -/
theorem ServerFrame.Plain.data_of_control
    {f : ServerFrame} {opcode : Nat}
    (hplain : f.Plain)
    (hcontrol : nextOpcode opcode f.header = OP_PING ∨ nextOpcode opcode f.header = OP_PONG)
    (hsafe : f.header.opcode ≠ 0 ∨ f.payload = []) :
    f.data = [] := by
  rw [ServerFrame.data]
  by_cases hown : f.Control
  · rw [if_pos hown]
  · rw [if_neg hown]
    rcases hplain.data hown with hcontinue | hbinary
    · rcases hsafe with hne | hnil
      · exact absurd hcontinue hne
      · exact hnil
    · rw [nextOpcode, hbinary, if_pos (by decide)] at hcontrol
      exact absurd hcontrol (by decide)

namespace Looping

variable {socket opcode : Nat} {res : Option WsFrame} {w w' : FrameReading} {f : ServerFrame}
  {fs : List ServerFrame}

/-- A fragment of a message is put behind the ones before. -/
theorem fragment
    (h : Looping socket opcode res w (f :: fs))
    {in_frames : InFrames}
    (hin_frames : w'.in_frames = store in_frames (appendPayload res f.payload))
    (hwebsocket : w'.websocket = w.websocket)
    (hleft : Left socket w' fs) :
    Looping socket (nextOpcode opcode f.header) (some (appendPayload res f.payload)) w' fs := by
  refine ⟨hleft, fun g hg => h.plain g (List.mem_cons_of_mem f hg), hwebsocket.trans h.websocket,
    (h.plain f List.mem_cons_self).nextOpcode_cases h.opcode, ?_, ?_⟩
  · rintro frame hframe
    obtain rfl := Option.some.inj hframe
    exact appendPayload_fits h.fits f.payload
  · rw [hin_frames]
    exact linked_store in_frames _

/-- A control frame is freed, with the entry that it is in. -/
theorem control
    (h : Looping socket opcode res w (f :: fs))
    (hwebsocket : w'.websocket = w.websocket)
    (hleft : Left socket w' fs)
    (pongs : List Bytes) :
    Looping socket (nextOpcode opcode f.header) none
      { w' with pongs, in_frames := afterFree w'.in_frames } fs := by
  refine ⟨⟨⟨hleft.steady.vacant, hleft.steady.index_le⟩, hleft.index, hleft.content, hleft.part⟩,
    fun g hg => h.plain g (List.mem_cons_of_mem f hg), hwebsocket.trans h.websocket,
    (h.plain f List.mem_cons_self).nextOpcode_cases h.opcode, ?_, linked_afterFree _⟩
  intro frame hframe
  cases hframe

/-- The data of a frame comes behind the data that was there. -/
theorem data_eq
    (h : Looping socket opcode res w (f :: fs))
    (hdata : f.data = f.payload) :
    unreadOf (some (appendPayload res f.payload)) ++ fs.flatMap ServerFrame.data =
      unreadOf res ++ (f :: fs).flatMap ServerFrame.data := by
  rw [unreadOf_appendPayload h.fits, List.flatMap_cons, hdata, List.append_assoc]

/-- The last frame of a message goes to the list with the others. -/
theorem message
    (h : Looping socket opcode res w (f :: fs))
    (hdata : f.data = f.payload)
    (hwebsocket : w'.websocket = w.websocket)
    (hleft : Left socket w' fs) :
    Came socket (unreadOf res) [] (f :: fs)
      { w' with in_frames := .frame (appendPayload res f.payload) } fs := by
  refine ⟨⟨⟨⟨hleft.steady.vacant, hleft.steady.index_le⟩, hleft.index, hleft.content, hleft.part⟩,
    fun g hg => h.plain g (List.mem_cons_of_mem f hg), hwebsocket.trans h.websocket,
    appendPayload_fits h.fits f.payload⟩, List.suffix_cons f fs, ?_⟩
  exact (h.data_eq hdata).symm

end Looping

/-- What `WebSocket_receiveFrame` comes back with, from the data that was held before. -/
def Received (socket : Nat) (before : Bytes) (left : List ServerFrame)
    (after : FrameReading → Prop) (out : Option ((Int × Option Nat) × FrameReading)) : Prop :=
  ∃ rc len w' left', out = some ((rc, len), w') ∧ Came socket before [] left w' left' ∧
    ((rc = TCPSOCKET_COMPLETE ∧ (∃ frame, w'.in_frames = .frame frame) ∧
        left'.length < left.length ∧ after w') ∨
      rc = TCPSOCKET_INTERRUPTED)

/-- After a frame that data was taken from, or that had none. -/
theorem Received.cons
    {socket : Nat} {before before' : Bytes} {f : ServerFrame} {fs : List ServerFrame}
    {after : FrameReading → Prop} {out : Option ((Int × Option Nat) × FrameReading)}
    (h : Received socket before' fs after out)
    (hdata : before' ++ fs.flatMap ServerFrame.data =
      before ++ (f :: fs).flatMap ServerFrame.data) :
    Received socket before (f :: fs) after out := by
  obtain ⟨rc, len, w', left', hout, hcame, hrc⟩ := h
  refine ⟨rc, len, w', left', hout, ⟨hcame.going, hcame.suffix.trans (List.suffix_cons f fs), ?_⟩,
    ?_⟩
  · rw [← hdata, hcame.data]
  · rcases hrc with ⟨hrc, hframe, hlt, hafter⟩ | hrc
    · exact Or.inl ⟨hrc, hframe, Nat.lt_succ_of_lt hlt, hafter⟩
    · exact Or.inr hrc

/-- The loop over the frames that are left: all data that comes stays in order. -/
theorem receiveLoop_spec
    {socket : Nat} {rcs : Int} {after : FrameReading → Prop}
    (fuel : Nat)
    {opcode : Nat} (res : Option WsFrame) {w : FrameReading} {left : List ServerFrame}
    (h : Looping socket opcode res w left)
    (hfuel : left.length < fuel)
    (hrcs : RcsSafe w rcs)
    (hsafe : LoopSafe socket rcs after fuel opcode res w) :
    Received socket (unreadOf res) left after (receiveLoop socket rcs fuel opcode res w) := by
  induction fuel generalizing opcode res w left with
  | zero =>
      omega
  | succ fuel ih =>
      rw [LoopSafe] at hsafe
      rw [receiveLoop]
      cases left with
      | nil =>
          obtain ⟨w', hread, hsame, hleft⟩ := h.frames.readFrame_nil hrcs opcode
          rw [hread] at hsafe ⊢
          exact ⟨_, _, _, _, rfl, h.interrupted hsame hleft hsafe, Or.inr rfl⟩
      | cons f fs =>
          have hplain := h.plain f List.mem_cons_self
          have hcases := hplain.nextOpcode_cases h.opcode
          rcases h.frames.readFrame_cons hrcs (known_of_cases hcases) with
            ⟨rcs', w', hread, hsame, hne, hgiven⟩ | ⟨w', hread, hsame, hleft⟩
          case inr =>
            rw [hread] at hsafe ⊢
            exact ⟨_, _, _, _, rfl, h.interrupted hsame hleft hsafe, Or.inr rfl⟩
          obtain ⟨b, w'', hraw, hin_frames, hwebsocket, hreceived, hleft⟩ :=
            hgiven (store w'.in_frames (appendPayload res f.payload))
          have hrcs'' : ∀ pongs in_frames, RcsSafe { w'' with pongs, in_frames } rcs :=
            fun _ _ hreceived' => absurd hreceived hreceived'
          rw [List.length_cons] at hfuel
          rw [hread] at hsafe ⊢
          dsimp only at hsafe ⊢
          rw [hraw] at hsafe ⊢
          dsimp only at hsafe ⊢
          rw [if_neg hne]
          cases hfin : f.header.fin with
          | false =>
              rw [hfin] at hsafe
              have hdata : f.data = f.payload := by
                rw [ServerFrame.data, if_neg]
                intro hcontrol
                rw [hplain.control hcontrol] at hfin
                cases hfin
              exact (ih _ (h.fragment hin_frames hwebsocket hleft) (by omega)
                (hrcs'' w''.pongs w''.in_frames) hsafe).cons (h.data_eq hdata)
          | true =>
              rw [hfin] at hsafe
              simp only [Bool.not_true, Bool.false_eq_true, if_false] at hsafe ⊢
              by_cases hcontrol : nextOpcode opcode f.header = OP_PING ∨
                  nextOpcode opcode f.header = OP_PONG
              · rw [if_pos hcontrol] at hsafe ⊢
                obtain ⟨⟨hunread, hown⟩, hsafe⟩ := hsafe
                rw [h.frames.ownOpcode_eq] at hown
                refine (ih _ (h.control hwebsocket hleft _) (by omega) (hrcs'' _ _) hsafe).cons ?_
                rw [hunread, List.flatMap_cons, hplain.data_of_control hcontrol hown]
                rfl
              · have hbinary : nextOpcode opcode f.header = OP_BINARY :=
                  hcases.resolve_right hcontrol
                have hdata : f.data = f.payload := by
                  rw [ServerFrame.data, if_neg]
                  exact fun hown => hcontrol (hown.nextOpcode_eq opcode)
                rw [if_neg hcontrol] at hsafe ⊢
                rw [if_neg (by rw [hbinary]; decide)]
                exact ⟨_, _, _, _, rfl, h.message hdata hwebsocket hleft,
                  Or.inl ⟨rfl, ⟨_, rfl⟩, Nat.lt_succ_self _, hsafe⟩⟩

theorem receiveFrame_spec
    {socket : Nat} {rcs : Int} {after : FrameReading → Prop} {w : FrameReading}
    {left : List ServerFrame}
    (h : Going socket w left)
    (hsafe : ReceiveSafe w socket rcs after) :
    Received socket (held w.in_frames) left after (receiveFrame w socket rcs) := by
  obtain ⟨hrcs, hloop⟩ := hsafe
  have hfuel : left.length < (content w).length + 1 := by
    rw [h.frames.content]
    exact Nat.lt_succ_of_le (length_le_content left)
  have hwhole := h.whole
  rw [receiveFrame]
  cases hin_frames : w.in_frames with
  | empty =>
      rw [hin_frames] at hloop
      refine receiveLoop_spec _ none ⟨h.frames, h.plain, h.websocket, Or.inl rfl, ?_, ?_⟩
        hfuel hrcs hloop
      · intro frame hframe
        cases hframe
      · rw [hin_frames]
        exact trivial
  | frame frame =>
      rw [hin_frames] at hloop hwhole
      refine receiveLoop_spec _ (some frame)
        ⟨h.frames, h.plain, h.websocket, Or.inl rfl, ?_, ?_⟩ hfuel hrcs hloop
      · rintro g hg
        obtain rfl := Option.some.inj hg
        exact hwhole
      · rw [hin_frames]
        exact rfl
  | freed =>
      rw [hin_frames] at hwhole
      exact hwhole.elim

end WebSocket
end PahoMqtt
