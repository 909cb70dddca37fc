import PahoMqtt.PacketReading
import PahoMqtt.WebSocketFrames

/-!
# Frames that are received

`WebSocket_receiveFrame` reads the parts of a frame one by one from
`frame_buffer`, which keeps what was received of a frame when a read is
interrupted; the next call starts again at the front of the buffer.  The data of
the frames goes to the first entry of `in_frames`, and `WebSocket_getch` and
`WebSocket_getdata` take it from there.

A return code is passed by reference through the reads; one that does not call
the socket leaves it as it was, and `rcs` is not initialized before the first.
-/

namespace PahoMqtt

/-- `ws_frame` with its data; `len` is the length of it. -/
structure WsFrame where
  data : Bytes
  pos : Nat
deriving DecidableEq

/-- The list `in_frames`, which never has more than one entry. -/
inductive InFrames where
  | empty
  | frame (frame : WsFrame)
  /-- The memory that the entry points to was freed. -/
  | freed
deriving DecidableEq

/-- The static variables of the module, and what `Socket_getdata` depends on. -/
structure FrameReading where
  reading : Reading
  websocket : Bool
  in_frames : InFrames
  /-- The first `frame_buffer_data_len` bytes. -/
  frame_buffer : Option Bytes
  frame_buffer_len : Nat
  frame_buffer_index : Nat
  /-- What was sent back in PONG frames. -/
  pongs : List Bytes

/-- The `errno` of a `recv` that would have to wait. -/
def EWOULDBLOCK : Int := 11

namespace Socket

/-- What `Socket_getdata` leaves in `rc`. -/
def getdataRc (r : Reading) (socket bytes : Nat) (rc : Int) : Int :=
  if bytes = 0 then rc
  else
    match recv r.incoming (bytes - (r.buffers.getQueuedData socket bytes).1.2) with
    | (none, _) => EWOULDBLOCK
    | (some data, _) => data.length

end Socket

namespace WebSocket

/-- The bytes in `frame_buffer`. -/
def received (w : FrameReading) : Bytes := w.frame_buffer.getD []

/-- `WebSocket_rewindData` -/
def rewindData (w : FrameReading) : FrameReading :=
  { w with frame_buffer_index := 0 }

/-- Data is appended to `frame_buffer`, which is allocated or grown where it has to be. -/
def appendData (w : FrameReading) (data : Bytes) : FrameReading :=
  match w.frame_buffer with
  | none =>
      { w with
        frame_buffer := some data, frame_buffer_index := 0, frame_buffer_len := data.length }
  | some buffer =>
      if buffer.length + data.length < w.frame_buffer_len then
        { w with frame_buffer := some (buffer ++ data) }
      else
        { w with
          frame_buffer := some (buffer ++ data)
          frame_buffer_len := buffer.length + data.length }

/-- The buffer from its index on, and how much of it there is up to `bytes`. -/
def fromBuffer (w : FrameReading) (bytes : Nat) (rc : Int) :
    (Option Bytes × Nat × Int) × FrameReading :=
  let actual_len := min bytes ((received w).length - w.frame_buffer_index)
  ((some ((received w).drop w.frame_buffer_index), actual_len, rc),
    { w with frame_buffer_index := w.frame_buffer_index + actual_len })

/-- `WebSocket_getRawSocketData`: the data, `actual_len` and `rc`. -/
def getRawSocketData (w : FrameReading) (socket bytes : Nat) (rc : Int) :
    (Option Bytes × Nat × Int) × FrameReading :=
  let buffered := (received w).length - w.frame_buffer_index
  if bytes > 0 ∧ buffered ≥ bytes then fromBuffer w bytes rc
  else
    let missing := bytes - buffered
    let rc := Socket.getdataRc w.reading socket missing rc
    let ((rv, actual_len), reading) := Socket.getdata w.reading socket missing
    let w := { w with reading }
    if rc = 0 then ((rv, actual_len, SOCKET_ERROR), w)
    else if missing = 0 then
      ((rv, actual_len, rc),
        { w with frame_buffer := none, frame_buffer_len := 0, frame_buffer_index := 0 })
    else
      match rv with
      | none => ((none, actual_len, rc), w)
      | some data =>
          if actual_len ≠ 0 then
            let w := appendData w (data.take actual_len)
            let w := { w with
              reading := { w.reading with buffers := w.reading.buffers.complete socket } }
            fromBuffer w bytes rc
          else ((some data, actual_len, rc), w)

/-- A part of a frame; `missing` is returned where there is no data at all. -/
def readPart (w : FrameReading) (socket bytes : Nat) (missing rcs : Int) :
    Except Int (Bytes × Int) × FrameReading :=
  match getRawSocketData w socket bytes rcs with
  | ((b, len, rcs), w) =>
      if rcs = SOCKET_ERROR then (.error rcs, w)
      else
        match b with
        | none => (.error missing, w)
        | some b =>
            if len < bytes then (.error TCPSOCKET_INTERRUPTED, w)
            else (.ok (b.take bytes, rcs), w)

/-- The length of the payload, from the second byte or from the bytes that follow. -/
def readLength (w : FrameReading) (socket payload_len : Nat) (rcs : Int) :
    Except Int (Nat × Int) × FrameReading :=
  if payload_len = 126 then
    match readPart w socket 2 SOCKET_ERROR rcs with
    | (.error rc, w) => (.error rc, w)
    | (.ok (b, rcs), w) => (.ok (Lib.ofBigEndian b, rcs), w)
  else if payload_len = 127 then
    match readPart w socket 8 SOCKET_ERROR rcs with
    | (.error rc, w) => (.error rc, w)
    | (.ok (b, rcs), w) => (.ok (Lib.ofBigEndian b, rcs), w)
  else (.ok (payload_len, rcs), w)

/-- The masking key; it is copied to a variable that is not the one used to unmask. -/
def readMask (w : FrameReading) (socket : Nat) (has_mask : Bool) (rcs : Int) :
    Except Int Int × FrameReading :=
  if has_mask then
    match readPart w socket 4 SOCKET_ERROR rcs with
    | (.error rc, w) => (.error rc, w)
    | (.ok (_, rcs), w) => (.ok rcs, w)
  else (.ok rcs, w)

/-- The values that the inner loop of `WebSocket_receiveFrame` has of one frame. -/
structure RawFrame where
  is_final : Bool
  opcode : Nat
  payload : Bytes
  rcs : Int
deriving DecidableEq

/-- The inner loop up to the payload; `opcode` is the one of the frame before. -/
def readFrame (w : FrameReading) (socket opcode : Nat) (rcs : Int) :
    Except Int RawFrame × FrameReading :=
  match readPart w socket 2 TCPSOCKET_INTERRUPTED rcs with
  | (.error rc, w) => (.error rc, w)
  | (.ok (b, rcs), w) =>
      let byte₀ := (b.getD 0 0).toNat
      let byte₁ := (b.getD 1 0).toNat
      let opcode := if byte₀ % 16 ≠ 0 then byte₀ % 16 else opcode
      if opcode > OP_PONG ∨ (opcode > OP_BINARY ∧ opcode < OP_CLOSE) then
        (.error SOCKET_ERROR, w)
      else
        let has_mask : Bool := byte₁ / 128 = 1
        match readLength w socket (byte₁ % 128) rcs with
        | (.error rc, w) => (.error rc, w)
        | (.ok (payload_len, rcs), w) =>
            match readMask w socket has_mask rcs with
            | (.error rc, w) => (.error rc, w)
            | (.ok rcs, w) =>
                match readPart w socket payload_len SOCKET_ERROR rcs with
                | (.error rc, w) => (.error rc, w)
                | (.ok (b, rcs), w) =>
                    -- the mask of the loop, which stays 0
                    let payload := if has_mask then maskBuffer ⟨0, 0, 0, 0⟩ 0 b else b
                    (.ok ⟨byte₀ / 128 = 1, opcode, payload, rcs⟩, w)

/-- The frame that the payload is appended to. -/
def appendPayload (res : Option WsFrame) (payload : Bytes) : WsFrame :=
  match res with
  | none => ⟨payload, 0⟩
  | some frame => { frame with data := frame.data ++ payload }

/-- `in_frames->first->content = res`, if there is an entry. -/
def store (in_frames : InFrames) (res : WsFrame) : InFrames :=
  match in_frames with
  | .empty => .empty
  | _ => .frame res

/-- What is left of `in_frames` when `res` is freed. -/
def afterFree (in_frames : InFrames) : InFrames :=
  match in_frames with
  | .empty => .empty
  | _ => .freed

/-- The end of `WebSocket_receiveFrame`, with `actual_len` if it was set. -/
def leave (rc : Int) (w : FrameReading) : Option ((Int × Option Nat) × FrameReading) :=
  some ((rc, none), if rc = TCPSOCKET_INTERRUPTED then rewindData w else w)

/--
The loops of `WebSocket_receiveFrame`, frame by frame, with the number of frames
that may still be read; none when there are more.
-/
def receiveLoop (socket : Nat) (rcs : Int) :
    (fuel opcode : Nat) → Option WsFrame → FrameReading →
      Option ((Int × Option Nat) × FrameReading)
  | 0, _, _, _ => none
  | fuel + 1, opcode, res, w =>
      match readFrame w socket opcode rcs with
      | (.error rc, w) => leave rc w
      | (.ok f, w) =>
          let res := appendPayload res f.payload
          let w := { w with in_frames := store w.in_frames res }
          match getRawSocketData w socket 0 f.rcs with
          | ((_, _, rcs'), w) =>
              if rcs' = SOCKET_ERROR then leave rcs' w
              else if !f.is_final then receiveLoop socket rcs fuel f.opcode (some res) w
              else if f.opcode = OP_PING ∨ f.opcode = OP_PONG then
                let pongs := if f.opcode = OP_PING then w.pongs ++ [res.data] else w.pongs
                receiveLoop socket rcs fuel f.opcode none
                  { w with pongs, in_frames := afterFree w.in_frames }
              else if f.opcode = OP_CLOSE then
                leave SOCKET_ERROR
                  { w with websocket := false, in_frames := afterFree w.in_frames }
              else
                some ((TCPSOCKET_COMPLETE, some (res.data.length - res.pos)),
                  { w with in_frames := .frame res })

/-- The bytes that no frame was made of yet. -/
def content (w : FrameReading) : Bytes := received w ++ w.reading.incoming.unread

/-- `WebSocket_receiveFrame`; none where it uses a frame that was freed. -/
def receiveFrame (w : FrameReading) (socket : Nat) (rcs : Int) :
    Option ((Int × Option Nat) × FrameReading) :=
  match w.in_frames with
  | .empty => receiveLoop socket rcs ((content w).length + 1) OP_BINARY none w
  | .frame frame => receiveLoop socket rcs ((content w).length + 1) OP_BINARY (some frame) w
  | .freed => none

/-- The end of `WebSocket_getch`: a byte of the first frame, or `c` as it was. -/
def takeByte (w : FrameReading) (c : UInt8) : Option ((Int × UInt8) × FrameReading) :=
  match w.in_frames with
  | .empty => some ((TCPSOCKET_COMPLETE, c), w)
  | .frame frame =>
      match frame.data[frame.pos]? with
      | some b =>
          some ((TCPSOCKET_COMPLETE, b),
            { w with in_frames := .frame { frame with pos := frame.pos + 1 } })
      | none => some ((TCPSOCKET_COMPLETE, c), w)
  | .freed => none

/-- Whether there is no frame with data left. -/
def nothingLeft (in_frames : InFrames) : Bool :=
  match in_frames with
  | .empty => true
  | .frame frame => frame.data.length = frame.pos
  | .freed => false

/-- `WebSocket_getch`: the return code and `c`, which may be left as it was. -/
def getch (w : FrameReading) (socket : Nat) (rcs : Int) (c : UInt8) :
    Option ((Int × UInt8) × FrameReading) :=
  if w.websocket then
    if nothingLeft w.in_frames then
      match receiveFrame w socket rcs with
      | none => none
      | some ((rc, _), w) =>
          if rc ≠ TCPSOCKET_COMPLETE then some ((rc, c), w) else takeByte w c
    else takeByte w c
  else
    let ((rc, b), reading) := Socket.getch w.reading socket
    some ((rc, if rc = TCPSOCKET_COMPLETE then b else c), { w with reading })

/-- The loop of `WebSocket_getdata`; none as in `receiveFrame`, or when it never ends. -/
def getdataLoop (socket bytes : Nat) (rcs : Int) :
    (fuel : Nat) → FrameReading → Option ((Option Bytes × Nat) × FrameReading)
  | 0, _ => none
  | fuel + 1, w =>
      match w.in_frames with
      | .empty => none
      | .freed => none
      | .frame frame =>
          let rv := frame.data.drop frame.pos
          let actual_len := frame.data.length - frame.pos
          if actual_len < bytes then
            match receiveFrame w socket rcs with
            | none => none
            | some ((rc, _), w) =>
                if rc ≠ TCPSOCKET_COMPLETE then some ((some rv, actual_len), w)
                else getdataLoop socket bytes rcs fuel w
          else if actual_len > bytes then
            some ((some rv, actual_len),
              { w with in_frames := .frame { frame with pos := frame.pos + bytes } })
          else some ((some rv, actual_len), { w with in_frames := .empty })

/-- `WebSocket_getdata`: the data, and `actual_len`, which may be left as it was. -/
def getdata (w : FrameReading) (socket bytes : Nat) (rcs : Int) (actual_len : Nat) :
    Option ((Option Bytes × Nat) × FrameReading) :=
  if w.websocket then
    if bytes = 0 then
      match w.in_frames with
      | .empty => some ((none, actual_len), w)
      | .freed => none
      | .frame frame =>
          if frame.pos = frame.data.length then
            some ((some [], 0), { w with in_frames := .empty })
          else some ((none, actual_len), w)
    else
      match w.in_frames with
      | .freed => none
      | .frame _ => getdataLoop socket bytes rcs ((content w).length + 1) w
      | .empty =>
          match receiveFrame w socket rcs with
          | none => none
          | some ((rc, _), w) =>
              if rc = TCPSOCKET_COMPLETE then
                getdataLoop socket bytes rcs ((content w).length + 1) w
              else some ((none, actual_len), w)
  else
    let (res, reading) := Socket.getdata w.reading socket bytes
    some (res, { w with reading })

end WebSocket
end PahoMqtt
