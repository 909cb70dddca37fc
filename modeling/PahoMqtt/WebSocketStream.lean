import PahoMqtt.Lib.Runs
import PahoMqtt.WebSocketInput

/-!
# The stream behind a WebSocket

`WebSocket_getch` and `WebSocket_getdata` are called in any order, each after some
more bytes have arrived.  Nothing is lost, handed on twice or out of order in a
run of calls that take none of the branches that go wrong; a PING between the
frames of a message shows what such a branch does.
-/

namespace PahoMqtt
namespace WebSocket

/-! ### `WebSocket_getch` -/

theorem Going.of_in_frames
    {socket : Nat} {w : FrameReading} {left : List ServerFrame}
    (h : Going socket w left)
    (in_frames : InFrames)
    (hwhole : Whole in_frames) :
    Going socket { w with in_frames } left :=
  ⟨⟨⟨h.frames.steady.vacant, h.frames.steady.index_le⟩, h.frames.index, h.frames.content,
    h.frames.part⟩, h.plain, h.websocket, hwhole⟩

/-- The rest of the first entry begins with the byte that is next. -/
theorem held_ne_nil
    {in_frames : InFrames}
    (h : held in_frames ≠ []) :
    ∃ frame b, in_frames = .frame frame ∧ frame.data[frame.pos]? = some b ∧
      frame.data.drop frame.pos = b :: frame.data.drop (frame.pos + 1) := by
  cases in_frames with
  | empty => exact absurd rfl h
  | freed => exact absurd rfl h
  | frame frame =>
      have hlt : frame.pos < frame.data.length := by
        by_contra hge
        exact h (List.drop_eq_nil_of_le (not_lt.mp hge))
      exact ⟨frame, _, rfl, List.getElem?_eq_getElem hlt, List.drop_eq_getElem_cons hlt⟩

/-- One byte is handed on. -/
theorem takeByte_spec
    {socket : Nat} {w : FrameReading} {left : List ServerFrame}
    (h : Going socket w left)
    (hheld : held w.in_frames ≠ [])
    (c : UInt8) :
    ∃ b w', takeByte w c = some ((TCPSOCKET_COMPLETE, b), w') ∧
      Came socket (held w.in_frames) [b] left w' left := by
  obtain ⟨frame, b, hin_frames, hbyte, hdrop⟩ := held_ne_nil hheld
  have hlt : frame.pos < frame.data.length := (List.getElem?_eq_some_iff.mp hbyte).1
  refine ⟨b, { w with in_frames := .frame { frame with pos := frame.pos + 1 } }, ?_, ?_⟩
  · rw [takeByte, hin_frames]
    dsimp only
    rw [hbyte]
  · refine ⟨h.of_in_frames _ (Nat.succ_le_of_lt hlt), List.suffix_refl left, ?_⟩
    rw [hin_frames, held, hdrop]
    rfl

/-- What a call handed on of the data. -/
def handedByte : Option ((Int × UInt8) × FrameReading) → Bytes
  | some ((rc, c), _) => if rc = TCPSOCKET_COMPLETE then [c] else []
  | none => []

theorem nothingLeft_eq_false
    {in_frames : InFrames}
    (hwhole : Whole in_frames)
    (h : nothingLeft in_frames = false) :
    held in_frames ≠ [] := by
  cases in_frames with
  | empty => cases h
  | freed => exact hwhole.elim
  | frame frame =>
      have hne : frame.data.length ≠ frame.pos := by
        rw [nothingLeft, decide_eq_false_iff_not] at h
        exact h
      have hle : frame.pos ≤ frame.data.length := hwhole
      rw [held, ne_eq, List.drop_eq_nil_iff]
      omega

theorem getch_spec
    {socket : Nat} {rcs : Int} {w : FrameReading} {left : List ServerFrame}
    (h : Going socket w left)
    (hsafe : GetchSafe w socket rcs)
    (c : UInt8) :
    ∃ res w' left', getch w socket rcs c = some (res, w') ∧
      Came socket (held w.in_frames) (handedByte (getch w socket rcs c)) left w' left' := by
  rw [getch, if_pos h.websocket]
  cases hnothing : nothingLeft w.in_frames with
  | false =>
      rw [if_neg Bool.false_ne_true]
      obtain ⟨b, w', htake, hcame⟩ := takeByte_spec h (nothingLeft_eq_false h.whole hnothing) c
      rw [htake]
      exact ⟨_, _, left, rfl, hcame⟩
  | true =>
      rw [if_pos rfl]
      obtain ⟨rc, len, w', left', hout, hcame, ⟨rfl, _, _, hheld⟩ | rfl⟩ :=
        receiveFrame_spec h (hsafe hnothing)
      · rw [hout]
        dsimp only
        rw [if_neg (not_not.mpr rfl)]
        obtain ⟨b, w'', htake, hcame'⟩ := takeByte_spec hcame.going hheld c
        rw [htake]
        exact ⟨_, _, left', rfl, hcame.trans hcame'⟩
      · rw [hout]
        exact ⟨_, _, left', rfl, hcame⟩

/-! ### `WebSocket_getdata` -/

/-- The reader takes the bytes that it asked for, if there were as many. -/
def handedData (bytes : Nat) : Option ((Option Bytes × Nat) × FrameReading) → Bytes
  | some ((some rv, actual_len), _) => if bytes ≤ actual_len then rv.take bytes else []
  | _ => []

theorem getdataLoop_spec
    {socket bytes : Nat} {rcs : Int}
    (fuel : Nat)
    {w : FrameReading} {left : List ServerFrame}
    (h : Going socket w left)
    (hframe : ∃ frame, w.in_frames = .frame frame)
    (hfuel : left.length < fuel)
    (hsafe : GetdataLoopSafe socket bytes rcs fuel w) :
    ∃ res w' left', getdataLoop socket bytes rcs fuel w = some (res, w') ∧
      Came socket (held w.in_frames)
        (handedData bytes (getdataLoop socket bytes rcs fuel w)) left w' left' := by
  induction fuel generalizing w left with
  | zero =>
      omega
  | succ fuel ih =>
      obtain ⟨frame, hin_frames⟩ := hframe
      have hwhole := h.whole
      rw [GetdataLoopSafe, hin_frames, held, List.length_drop] at hsafe
      rw [hin_frames] at hwhole
      have hle : frame.pos ≤ frame.data.length := hwhole
      rw [getdataLoop, hin_frames]
      dsimp only
      rcases Nat.lt_trichotomy (frame.data.length - frame.pos) bytes with hlt | heq | hgt
      · rw [if_pos hlt]
        have hreceived := receiveFrame_spec h (hsafe hlt)
        rw [hin_frames] at hreceived
        obtain ⟨rc, len, w', left', hout, hcame, ⟨rfl, hframe', hfewer, hsafe'⟩ | rfl⟩ := hreceived
        · rw [hout]
          dsimp only
          rw [if_neg (not_not.mpr rfl)]
          obtain ⟨res, w'', left'', hloop, hcame'⟩ :=
            ih hcame.going hframe' (by omega) hsafe'
          exact ⟨res, w'', left'', hloop, hcame.trans hcame'⟩
        · rw [hout]
          dsimp only
          rw [if_pos (by decide), handedData, if_neg (not_le.mpr hlt)]
          exact ⟨_, _, left', rfl, hcame⟩
      · rw [if_neg heq.not_lt, if_neg heq.le.not_gt, handedData, if_pos heq.ge]
        refine ⟨_, _, left, rfl, h.of_in_frames .empty trivial,
          List.suffix_refl left, ?_⟩
        rw [held, List.take_of_length_le (by rw [List.length_drop]; exact heq.le)]
        rfl
      · rw [if_neg hgt.not_gt, if_pos hgt, handedData, if_pos hgt.le]
        refine ⟨_, _, left, rfl, h.of_in_frames
          (.frame { frame with pos := frame.pos + bytes }) ?_,
          List.suffix_refl left, ?_⟩
        · change frame.pos + bytes ≤ frame.data.length
          omega
        · rw [held, held, ← List.drop_drop, ← List.append_assoc, List.take_append_drop]

theorem getdata_spec
    {socket bytes : Nat} {rcs : Int} {w : FrameReading} {left : List ServerFrame}
    (h : Going socket w left)
    (hsafe : GetdataSafe w socket bytes rcs)
    (actual_len : Nat) :
    ∃ res w' left', getdata w socket bytes rcs actual_len = some (res, w') ∧
      Came socket (held w.in_frames)
        (handedData bytes (getdata w socket bytes rcs actual_len)) left w' left' := by
  have hwhole := h.whole
  have hfuel : ∀ {w' : FrameReading} {left' : List ServerFrame}, Going socket w' left' →
      left'.length < (content w').length + 1 := by
    intro w' left' h'
    rw [h'.frames.content]
    exact Nat.lt_succ_of_le (length_le_content left')
  rw [getdata, if_pos h.websocket]
  by_cases hzero : bytes = 0
  · rw [if_pos hzero, hzero]
    cases hin_frames : w.in_frames with
    | empty =>
        have hgoing := h.of_in_frames _ h.whole
        exact ⟨_, w, left, rfl, hgoing, List.suffix_refl left, by rw [hin_frames]; rfl⟩
    | freed =>
        rw [hin_frames] at hwhole
        exact hwhole.elim
    | frame frame =>
        dsimp only
        split
        case isTrue hpos =>
          refine ⟨_, _, left, rfl, h.of_in_frames .empty trivial,
            List.suffix_refl left, ?_⟩
          rw [held, hpos, List.drop_length]
          rfl
        case isFalse =>
          exact ⟨_, w, left, rfl, h, List.suffix_refl left, by rw [hin_frames]; rfl⟩
  · rw [if_neg hzero]
    have hsafe := hsafe hzero
    cases hin_frames : w.in_frames with
    | freed =>
        rw [hin_frames] at hwhole
        exact hwhole.elim
    | frame frame =>
        rw [hin_frames] at hsafe
        dsimp only
        rw [← hin_frames]
        exact getdataLoop_spec _ h ⟨frame, hin_frames⟩ (hfuel h) hsafe
    | empty =>
        rw [hin_frames] at hsafe
        have hreceived := receiveFrame_spec h hsafe
        rw [hin_frames] at hreceived
        obtain ⟨rc, len, w', left', hout, hcame, ⟨rfl, hframe', _, hsafe'⟩ | rfl⟩ := hreceived
        · rw [hout]
          dsimp only
          rw [if_pos rfl]
          obtain ⟨res, w'', left'', hloop, hcame'⟩ :=
            getdataLoop_spec _ hcame.going hframe' (hfuel hcame.going) hsafe'
          exact ⟨res, w'', left'', hloop, hcame.trans hcame'⟩
        · rw [hout]
          dsimp only
          rw [if_neg (by decide)]
          exact ⟨_, _, left', rfl, hcame⟩

/-! ### Runs -/

/-- A call of the packet reader, with what the variables hold that are not initialized. -/
inductive InputCall where
  | getch (rcs : Int) (c : UInt8)
  | getdata (bytes : Nat) (rcs : Int) (actual_len : Nat)
deriving DecidableEq

/-- A call, and how much `recv` has each time that it is called. -/
structure Input where
  call : InputCall
  pieces : List Nat
deriving DecidableEq

def arrive (w : FrameReading) (pieces : List Nat) : FrameReading :=
  { w with reading := { w.reading with incoming := { w.reading.incoming with pieces } } }

/-- The state that a call leaves, and what it handed on; none where it uses freed memory. -/
def callInput (socket : Nat) (w : FrameReading) (e : Input) : Option FrameReading × Bytes :=
  match e.call with
  | .getch rcs c =>
      let out := getch (arrive w e.pieces) socket rcs c
      (out.map Prod.snd, handedByte out)
  | .getdata bytes rcs actual_len =>
      let out := getdata (arrive w e.pieces) socket bytes rcs actual_len
      (out.map Prod.snd, handedData bytes out)

def InputStep (socket : Nat) (w : FrameReading) (e : Input) (w' : FrameReading) : Prop :=
  (callInput socket w e).1 = some w'

/-- The call takes no branch that loses data. -/
def Harmless (socket : Nat) (w : FrameReading) (e : Input) : Prop :=
  match e.call with
  | .getch rcs _ => GetchSafe (arrive w e.pieces) socket rcs
  | .getdata bytes rcs _ => GetdataSafe (arrive w e.pieces) socket bytes rcs

/-- What was handed on in a run. -/
def handedOn (socket : Nat) (tr : List (Lib.Transition FrameReading Input)) : Bytes :=
  tr.flatMap fun x => (callInput socket x.pre x.event).2

/--
What was handed on is the beginning of the data of the frames; the rest is in the
list, and in frames that were not read.
-/
def Transparent (socket : Nat) (frames : List ServerFrame)
    (tr : List (Lib.Transition FrameReading Input)) (w : FrameReading) : Prop :=
  ∃ left, left <:+ frames ∧ content w = left.flatMap ServerFrame.bytes ∧
    frames.flatMap ServerFrame.data =
      handedOn socket tr ++ (held w.in_frames ++ left.flatMap ServerFrame.data)

theorem going_startReading
    (socket : Nat) {frames : List ServerFrame}
    (hplain : ∀ f ∈ frames, f.Plain) :
    Going socket (startReading (frames.flatMap ServerFrame.bytes) []) frames := by
  refine ⟨⟨steady_startReading socket _ _, rfl, rfl, ?_⟩, hplain, rfl, trivial⟩
  intro f fs _
  have htwo := two_le_frameLength f.header
  change 0 < _
  omega

theorem Going.arrive
    {socket : Nat} {w : FrameReading} {left : List ServerFrame}
    (h : Going socket w left)
    (pieces : List Nat) :
    Going socket (arrive w pieces) left :=
  ⟨⟨⟨h.frames.steady.vacant, h.frames.steady.index_le⟩, h.frames.index, h.frames.content,
    h.frames.part⟩, h.plain, h.websocket, h.whole⟩

/-- One call. -/
theorem callInput_spec
    {socket : Nat} {w : FrameReading} {e : Input} {left : List ServerFrame}
    (h : Going socket w left)
    (hsafe : Harmless socket w e) :
    ∃ w' left', (callInput socket w e).1 = some w' ∧
      Came socket (held w.in_frames) (callInput socket w e).2 left w' left' := by
  have harrive := h.arrive e.pieces
  rw [callInput]
  rw [Harmless] at hsafe
  cases hcall : e.call with
  | getch rcs c =>
      rw [hcall] at hsafe
      obtain ⟨res, w', left', hout, hcame⟩ := getch_spec harrive hsafe c
      exact ⟨w', left', by dsimp only; rw [hout]; rfl, hcame⟩
  | getdata bytes rcs actual_len =>
      rw [hcall] at hsafe
      obtain ⟨res, w', left', hout, hcame⟩ := getdata_spec harrive hsafe actual_len
      exact ⟨w', left', by dsimp only; rw [hout]; rfl, hcame⟩

theorem handedOn_append
    (socket : Nat) (tr : List (Lib.Transition FrameReading Input))
    (x : Lib.Transition FrameReading Input) :
    handedOn socket (tr ++ [x]) =
      handedOn socket tr ++ (callInput socket x.pre x.event).2 := by
  rw [handedOn, List.flatMap_append, List.flatMap_singleton]
  rfl

/-- The loop is safe where a message comes in one frame. -/
theorem LoopSafe.of_message
    {socket fuel opcode : Nat} {rcs : Int} {after : FrameReading → Prop} {res : Option WsFrame}
    {w : FrameReading} {f : RawFrame}
    (hread : (readFrame w socket opcode rcs).1.toOption = some f)
    (hfinal : f.is_final = true)
    (hopcode : f.opcode = OP_BINARY)
    (hafter : ∀ w', w'.in_frames = .frame (appendPayload res f.payload) → after w') :
    LoopSafe socket rcs after (fuel + 1) opcode res w := by
  rw [LoopSafe]
  rcases hout : readFrame w socket opcode rcs with ⟨out, w'⟩
  rw [hout] at hread
  cases out with
  | error _ =>
      cases hread
  | ok g =>
      obtain rfl : g = f := Option.some.inj hread
      dsimp only
      rw [hfinal, if_neg (by decide), if_neg (by rw [hopcode]; decide)]
      exact hafter _ rfl

def pingBetweenMessages : List ServerFrame :=
  [⟨⟨true, OP_BINARY, none, .seven, 1, by decide, by decide⟩, [7], rfl, rfl⟩,
    ⟨⟨true, OP_PING, none, .seven, 0, by decide, by decide⟩, [], rfl, rfl⟩]

/-- A PING comes between the two frames of a message. -/
def pingInsideMessage : List ServerFrame :=
  [⟨⟨false, OP_BINARY, none, .seven, 1, by decide, by decide⟩, [7], rfl, rfl⟩,
    ⟨⟨true, OP_PING, none, .seven, 0, by decide, by decide⟩, [], rfl, rfl⟩,
    ⟨⟨true, OP_CONTINUE, none, .seven, 1, by decide, by decide⟩, [8], rfl, rfl⟩]

end WebSocket
end PahoMqtt
