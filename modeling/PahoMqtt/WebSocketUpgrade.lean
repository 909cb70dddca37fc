import PahoMqtt.FrameRoundTrip
import PahoMqtt.Lib.CStrings

/-!
# The answer to a WebSocket upgrade

`WebSocket_upgrade` looks for the field `Sec-WebSocket-Accept` in the response and
compares its value with the Base64 text of the hash of the key.  The number of
bytes that it compares is computed from the response, one less than what stands
before the end of the line; a value that is too short is not noticed, and a
response of another version of HTTP is no error.
-/

namespace PahoMqtt
namespace WebSocket

open Lib (ascii strncmp tolower memchr)

/-! ### `WebSocket_upgrade` -/

def newline : UInt8 := 10

def ws_guid : Bytes := ascii "258EAFA5-E914-47DA-95CA-C5AB0DC85B11"

/-- `WebSocket_strcasefind`: the rest of the buffer from where the string was found. -/
def strcasefind (str : Bytes) : Bytes → Option Bytes
  | [] => none
  | c :: buf =>
      if str.length ≤ (c :: buf).length then
        if ((c :: buf).take str.length).map tolower = str.map tolower then some (c :: buf)
        else strcasefind str buf
      else none

/-- The check for the upgrade, on the line of the field `Connection`. -/
def checkUpgrade (response : Bytes) : Bool :=
  match strcasefind (ascii "Connection") response with
  | none => false
  | some p =>
      -- the response ends with the end of a line, so there is one in what was received
      match memchr newline p.length p with
      | none => false
      | some eol => (strcasefind (ascii "Upgrade") (p.take (p.length - eol.length))).isSome

/-- The bytes that come before the value of a field. -/
def skipped (c : UInt8) : Bool := c = 58 ∨ c = 32

/-- From the colon on, and from the end of its line on. -/
def acceptField (response : Bytes) : Option (Bytes × Bytes) :=
  match strcasefind (ascii "sec-websocket-accept") response with
  | none => none
  | some p =>
      match memchr newline p.length p with
      | none => none
      | some eol => (memchr 58 (p.length - eol.length) p).map (·, eol)

/-- The check of the key hash; the length to compare is a `size_t`. -/
def checkAccept (ws_key response : Bytes) : Bool :=
  match acceptField response with
  | none => false
  | some (p, eol) =>
      let value := p.dropWhile skipped
      let hash_len := (p.length - eol.length - 1 + 2 ^ 64 - (p.length - value.length)) % 2 ^ 64
      strncmp hash_len value (ws_key ++ [0])

/-- The response is in the second read of `WebSocket_upgrade` as a whole. -/
def complete (response : Bytes) : Bool :=
  response.length ≤ 4 ∨ response.drop (response.length - 4) = ascii "\r\n\r\n"

/--
`WebSocket_upgrade`, with the hash and its Base64 text: the return code and
`websocket_key`.
-/
def upgrade (sha1_base64 : Bytes → Bytes) (w : FrameReading) (socket : Nat)
    (websocket_key : Option Bytes) : (Int × Option Bytes) × FrameReading :=
  match websocket_key with
  | none => ((SOCKET_ERROR, none), w)
  | some key =>
      let ws_key := sha1_base64 ((key ++ ws_guid).take 61)
      match getRawSocketData w socket 12 TCPSOCKET_INTERRUPTED with
      | ((read_buf, rcv, rc), w) =>
          if rc = SOCKET_ERROR then ((rc, some key), w)
          else if read_buf = none ∨ rcv < 12 then ((rc, some key), w)
          else
            let read_buf := read_buf.getD []
            if strncmp 8 read_buf (ascii "HTTP/1.1") ∧
                ¬strncmp 3 (read_buf.drop 9) (ascii "101") then
              ((SOCKET_ERROR, some key), w)
            else if strncmp 12 read_buf (ascii "HTTP/1.1 101") then
              match getRawSocketData w socket 1024 rc with
              | ((read_buf, rcv, rc), w) =>
                  if rc = SOCKET_ERROR then ((rc, some key), w)
                  else
                    let response := (read_buf.getD []).take rcv
                    if read_buf ≠ none ∧ ¬complete response then ((SOCKET_ERROR, some key), w)
                    else
                      let (rc, w) :=
                        if checkUpgrade response ∧ checkAccept ws_key response then
                          (1, { w with websocket := true })
                        else (SOCKET_ERROR, w)
                      let ((_, _, rc), w) := getRawSocketData w socket 0 rc
                      ((rc, none), w)
            else ((rc, some key), w)

/-! ### What the server has to prove -/

/-- White space around the value of a field. -/
def blank (c : UInt8) : Bool := c = 32 ∨ c = 9 ∨ c = 13

def trim (value : Bytes) : Bytes :=
  ((value.dropWhile blank).reverse.dropWhile blank).reverse

/-- The value of a field, on the line of a response. -/
def fieldValue (name line : Bytes) : Option Bytes :=
  if 58 ∈ line ∧ (line.takeWhile (· ≠ 58)).map tolower = name.map tolower then
    some (trim (line.dropWhile (· ≠ 58)).tail)
  else none

/-- The status line has the code 101, and a field has the whole value. -/
def Proves (accept response : Bytes) : Prop :=
  (response.take 5 = ascii "HTTP/" ∧ (response.drop 8).take 4 = ascii " 101") ∧
    ∃ line ∈ response.splitOn newline,
      fieldValue (ascii "sec-websocket-accept") line = some accept

instance (accept response : Bytes) : Decidable (Proves accept response) :=
  inferInstanceAs (Decidable ((_ ∧ _) ∧ ∃ line ∈ response.splitOn newline, _))

/-! ### The comparison -/

/-- The text of the field, up to the end of its line. -/
def acceptText (response : Bytes) : Option Bytes :=
  (acceptField response).map fun field =>
    (field.1.take (field.1.length - field.2.length)).dropWhile skipped

/--
All but the last byte of the text begin the key hash, which may be none at all; or
the text begins with the whole key hash and a zero byte.
-/
def TakenForHash (ws_key text : Bytes) : Prop :=
  (∃ n x, n ≤ ws_key.length ∧ text = ws_key.take n ++ [x]) ∨ ws_key ++ [0] <+: text

/-- What is used of the Base64 text of a hash. -/
structure HashText (ws_key : Bytes) : Prop where
  nonempty : ws_key ≠ []
  terminated : 0 ∉ ws_key
  oneLine : newline ∉ ws_key

theorem dropWhile_skipped_append
    {line rest : Bytes}
    (hrest : ∃ rest', rest = newline :: rest') :
    (line ++ rest).dropWhile skipped = line.dropWhile skipped ++ rest := by
  obtain ⟨rest', rfl⟩ := hrest
  induction line with
  | nil => rfl
  | cons c line ih =>
      rw [List.cons_append, List.dropWhile_cons, List.dropWhile_cons]
      split
      · exact ih
      · rfl

/-- The comparison of the whole rest of the line but for one byte. -/
theorem strncmp_text_iff
    {ws_key text rest : Bytes} {hash_len : Nat}
    (hkey : HashText ws_key)
    (hrest : ∃ rest', rest = newline :: rest')
    (hlen : hash_len = if text = [] then 2 ^ 64 - 1 else text.length - 1) :
    strncmp hash_len (text ++ rest) (ws_key ++ [0]) = true ↔ TakenForHash ws_key text := by
  obtain ⟨rest', rfl⟩ := hrest
  rw [Lib.strncmp_iff hkey.terminated, TakenForHash]
  by_cases hempty : text = []
  · -- the first byte that is compared is the end of the line
    obtain ⟨c, s, rfl⟩ := List.exists_cons_of_ne_nil hkey.nonempty
    have hc : c ≠ newline := fun h => hkey.oneLine (h ▸ List.mem_cons_self)
    rw [if_pos hempty] at hlen
    obtain ⟨n, hn⟩ : ∃ n, hash_len = n + 1 := ⟨2 ^ 64 - 2, hlen⟩
    rw [hempty, hn]
    simp [hc]
  · rw [if_neg hempty] at hlen
    have hpos : 0 < text.length := List.length_pos_iff.mpr hempty
    constructor
    · rintro (⟨hle, hbegins⟩ | ⟨hlt, hbegins⟩)
      · have hshort : ws_key.take hash_len <+: text :=
          List.prefix_of_prefix_length_le hbegins (List.prefix_append text _)
            (by rw [List.length_take]; omega)
        obtain ⟨tail, htail⟩ := hshort
        have hone : tail.length = 1 := by
          have hlength := congrArg List.length htail
          rw [List.length_append, List.length_take] at hlength
          omega
        obtain ⟨x, rfl⟩ := List.length_eq_one_iff.mp hone
        exact Or.inl ⟨hash_len, x, hle, htail.symm⟩
      · refine Or.inr (List.prefix_of_prefix_length_le hbegins (List.prefix_append text _) ?_)
        rw [List.length_append, List.length_singleton]
        omega
    · rintro (⟨n, x, hle, rfl⟩ | hbegins)
      · have hn : hash_len = n := by
          rw [hlen, List.length_append, List.length_take, List.length_singleton]
          omega
        refine Or.inl ⟨by omega, ?_⟩
        rw [hn, List.append_assoc]
        exact List.prefix_append _ _
      · have hle := hbegins.length_le
        rw [List.length_append, List.length_singleton] at hle
        rcases Nat.lt_or_ge ws_key.length hash_len with hlt | hge
        · exact Or.inr ⟨hlt, hbegins.trans (List.prefix_append text _)⟩
        · refine Or.inl ⟨hge, ?_⟩
          exact ((List.take_prefix hash_len ws_key).trans (List.prefix_append _ [0])).trans
            (hbegins.trans (List.prefix_append text _))

theorem strcasefind_suffix
    {str buf p : Bytes}
    (h : strcasefind str buf = some p) :
    p <:+ buf := by
  induction buf with
  | nil =>
      cases h
  | cons c buf ih =>
      rw [strcasefind] at h
      split at h
      · split at h
        · obtain rfl := Option.some.inj h
          exact List.suffix_refl _
        · exact (ih h).trans (List.suffix_cons c buf)
      · cases h

/-- The field goes on to the end of its line. -/
theorem acceptField_split
    {response p eol : Bytes}
    (h : acceptField response = some (p, eol)) :
    ∃ line, p = line ++ eol ∧ line ≠ [] ∧ (∃ rest, eol = newline :: rest) ∧
      p.length ≤ response.length := by
  rw [acceptField] at h
  cases hfind : strcasefind (ascii "sec-websocket-accept") response with
  | none =>
      rw [hfind] at h
      cases h
  | some p₀ =>
      rw [hfind] at h
      dsimp only at h
      cases hnewline : memchr newline p₀.length p₀ with
      | none =>
          rw [hnewline] at h
          cases h
      | some eol₀ =>
          rw [hnewline] at h
          dsimp only at h
          obtain ⟨q, hcolon, hpair⟩ := Option.map_eq_some_iff.mp h
          obtain ⟨rfl, rfl⟩ := Prod.mk.inj hpair
          obtain ⟨hsplit, hrest⟩ := Lib.memchr_split hnewline
          have hlength := congrArg List.length hsplit
          rw [List.length_append] at hlength
          have hline : p₀.take (p₀.length - eol₀.length) = p₀.takeWhile (· ≠ newline) := by
            have htake : (p₀.takeWhile (· ≠ newline) ++ eol₀).take
                (p₀.takeWhile (· ≠ newline)).length = p₀.takeWhile (· ≠ newline) :=
              List.take_left
            rw [← hsplit] at htake
            rw [hlength, Nat.add_sub_cancel]
            exact htake
          have hmem : 58 ∈ p₀.takeWhile (· ≠ newline) := by
            rw [← hline]
            rw [memchr] at hcolon
            split at hcolon
            · assumption
            · cases hcolon
          obtain ⟨tail, htail⟩ := Lib.dropWhile_ne_cons hmem
          have hq : q = p₀.dropWhile (· ≠ 58) := by
            rw [memchr] at hcolon
            split at hcolon
            · exact (Option.some.inj hcolon).symm
            · cases hcolon
          refine ⟨(p₀.takeWhile (· ≠ newline)).dropWhile (· ≠ 58), ?_, ?_, hrest, ?_⟩
          · rw [hq]
            conv_lhs => rw [hsplit]
            rw [List.dropWhile_append, htail]
            rfl
          · rw [htail]
            exact List.cons_ne_nil _ _
          · rw [hq]
            exact ((List.dropWhile_suffix _).trans (strcasefind_suffix hfind)).length_le

/-- The value is compared with the key hash all but for its last byte. -/
theorem checkAccept_iff
    {ws_key response : Bytes}
    (hkey : HashText ws_key)
    (hlength : response.length < 2 ^ 64) :
    checkAccept ws_key response = true ↔
      ∃ text, acceptText response = some text ∧ TakenForHash ws_key text := by
  rw [checkAccept, acceptText]
  cases hfield : acceptField response with
  | none =>
      simp
  | some field =>
      obtain ⟨p, eol⟩ := field
      obtain ⟨line, rfl, hline, hrest, hle⟩ := acceptField_split hfield
      have hpos : 0 < line.length := List.length_pos_iff.mpr hline
      have hdrop : (line ++ eol).dropWhile skipped = line.dropWhile skipped ++ eol :=
        dropWhile_skipped_append hrest
      have htext : (line.dropWhile skipped).length ≤ line.length :=
        (List.dropWhile_suffix skipped).length_le
      rw [List.length_append] at hle
      simp only [Option.map_some, Option.some.injEq, exists_eq_left', List.length_append,
        Nat.add_sub_cancel, List.take_left, hdrop]
      refine strncmp_text_iff hkey hrest ?_
      split
      next hempty =>
        rw [hempty, List.length_nil]
        omega
      next hempty =>
        have htextpos := List.length_pos_iff.mpr hempty
        omega

/-! ### What is read -/

theorem fromBuffer_all
    {w : FrameReading} {n : Nat} (before data : Bytes) (rc : Int)
    (hreceived : received w = before ++ data)
    (hindex : w.frame_buffer_index = before.length)
    (hle : data.length ≤ n) :
    fromBuffer w n rc = ((some data, data.length, rc),
      { w with frame_buffer_index := (received w).length }) := by
  rw [fromBuffer, hreceived, hindex, List.drop_left, List.length_append, Nat.add_sub_cancel_left,
    Nat.min_eq_right hle]

/-- Where the buffer was read up to its end, a read gives what `recv` does. -/
theorem getRawSocketData_recv
    {w : FrameReading} {socket n : Nat}
    (h : Steady socket w)
    (hindex : w.frame_buffer_index = (received w).length)
    (hn : 0 < n)
    (rc : Int) :
    ((recv w.reading.incoming n).1 = none ∧ ∃ buf w',
        getRawSocketData w socket n rc = ((some buf, 0, EWOULDBLOCK), w') ∧
        w'.websocket = w.websocket ∧ Steady socket w') ∨
      ∃ data w', (recv w.reading.incoming n).1 = some data ∧ data ≠ [] ∧ data.length ≤ n ∧
        getRawSocketData w socket n rc = ((some data, data.length, (data.length : Int)), w') ∧
        w'.websocket = w.websocket ∧ Steady socket w' ∧
        w'.frame_buffer_index = (received w').length ∧
        w'.reading.incoming = (recv w.reading.incoming n).2 := by
  have hnone : ¬(n > 0 ∧ (received w).length - w.frame_buffer_index ≥ n) := by omega
  have hmissing : n - ((received w).length - w.frame_buffer_index) = n := by omega
  rw [getRawSocketData, if_neg hnone, hmissing]
  cases hget : Socket.getdata w.reading socket n with
  | mk res reading =>
  dsimp only
  rcases recv_cases w.reading.incoming hn with ⟨hrecv, _⟩ | ⟨data, hne, hle, hrecv, _⟩
  · left
    obtain ⟨⟨buf, hdata⟩, hincoming, hvacant, hrc⟩ := Socket.getdata_nothing h.vacant hn hrecv
    rw [hget] at hdata hvacant
    obtain rfl : res = (some buf, 0) := hdata
    rw [hget, hrc, if_neg (by decide), if_neg hn.ne']
    exact ⟨hrecv, _, _, rfl, rfl, ⟨hvacant, h.index_le⟩⟩
  · right
    obtain ⟨⟨buf, hdata, htake⟩, hincoming, hvacant, hrc⟩ :=
      Socket.getdata_some h.vacant hn hrecv hne hle
    have hpos : 0 < data.length := List.length_pos_iff.mpr hne
    rw [hget] at hdata hincoming hvacant
    obtain rfl : res = (some buf, data.length) := hdata
    obtain ⟨hsame, hreading⟩ := appendData_same { w with reading } data
    have hreceived : received (appendData { w with reading } data) = received w ++ data :=
      received_appendData _ _
    have hkeeps : (appendData { w with reading } data).frame_buffer_index = w.frame_buffer_index :=
      appendData_index (w := { w with reading }) h.index_le data
    rw [hget, hrc, if_neg (by omega), if_neg hn.ne']
    dsimp only
    rw [if_pos (by omega), htake]
    refine ⟨data, _, hrecv, hne, hle,
      fromBuffer_all (received w) data _ hreceived (hkeeps.trans hindex) hle, hsame.websocket,
      ⟨?_, Nat.le_refl _⟩, rfl, ?_⟩
    · dsimp only
      rw [hreading]
      exact hvacant
    · dsimp only
      rw [hreading, hincoming]

/-! ### The outcome -/

/-- A connection that nothing was received on. -/
def notUpgraded (response : Bytes) (pieces : List Nat) : FrameReading :=
  { startReading response pieces with websocket := false }

/-- The return code and `websocket`, from what the two reads got. -/
def outcome (ws_key head rest : Bytes) : Int × Bool :=
  if head.take 8 = ascii "HTTP/1.1" ∧ head.drop 9 ≠ ascii "101" then (SOCKET_ERROR, false)
  else if head = ascii "HTTP/1.1 101" then
    if complete rest ∧ checkUpgrade rest ∧ checkAccept ws_key rest then (1, true)
    else (SOCKET_ERROR, false)
  else (12, false)

theorem strncmp_eq_iff
    {s a : Bytes} {n : Nat}
    (hs : 0 ∉ s)
    (hn : s.length = n)
    (ha : n ≤ a.length) :
    strncmp n a s = true ↔ a.take n = s := by
  subst hn
  rw [Lib.strncmp_length_iff hs]
  constructor
  · exact fun h => (List.prefix_iff_eq_take.mp h).symm
  · exact fun h => List.prefix_iff_eq_take.mpr h.symm

/-- After the first read. -/
theorem upgrade_second
    {w : FrameReading} {socket : Nat} {b : Nat} {pieces : List Nat} {rest : Bytes}
    (h : Steady socket w)
    (hindex : w.frame_buffer_index = (received w).length)
    (hincoming : w.reading.incoming = ⟨rest, b :: pieces⟩)
    (hws : w.websocket = false)
    (rc : Int) :
    ∃ read_buf rcv rc' w', getRawSocketData w socket 1024 rc = ((some read_buf, rcv, rc'), w') ∧
      rc' ≠ SOCKET_ERROR ∧ read_buf.take rcv = rest.take (min b 1024) ∧
      w'.websocket = false ∧ Steady socket w' := by
  rcases getRawSocketData_recv h hindex (n := 1024) (by decide) rc with
    ⟨hrecv, buf, w', hraw, hwebsocket, hsteady⟩ |
    ⟨data, w', hrecv, _, _, hraw, hwebsocket, hsteady, _, _⟩
  · refine ⟨buf, 0, EWOULDBLOCK, w', hraw, by decide, ?_, hwebsocket.trans hws, hsteady⟩
    rw [hincoming, recv, if_neg (by decide)] at hrecv
    dsimp only at hrecv
    split at hrecv
    next hnothing =>
      rcases hnothing with rfl | rfl
      · rw [Nat.zero_min]
        rfl
      · rw [List.take_nil, List.take_zero]
    next =>
      cases hrecv
  · refine ⟨data, data.length, data.length, w', hraw, ?_, ?_, hwebsocket.trans hws, hsteady⟩
    · rw [SOCKET_ERROR]
      omega
    · rw [hincoming, recv, if_neg (by decide)] at hrecv
      dsimp only at hrecv
      split at hrecv
      next =>
        cases hrecv
      next =>
        rw [List.take_length]
        exact (Option.some.inj hrecv).symm

/-- The return code, and whether the connection is a WebSocket then. -/
def upgradeResult (sha1_base64 : Bytes → Bytes) (socket : Nat) (key response : Bytes)
    (pieces : List Nat) : Int × Bool :=
  let out := upgrade sha1_base64 (notUpgraded response pieces) socket (some key)
  (out.1.1, out.2.websocket)

/-- The comparisons of the status line, over its twelve bytes. -/
theorem statusLine_iff
    {head : Bytes}
    (hhead : head.length = 12) :
    (strncmp 8 head (ascii "HTTP/1.1") = true ↔ head.take 8 = ascii "HTTP/1.1") ∧
      (strncmp 3 (head.drop 9) (ascii "101") = true ↔ head.drop 9 = ascii "101") ∧
      (strncmp 12 head (ascii "HTTP/1.1 101") = true ↔ head = ascii "HTTP/1.1 101") := by
  refine ⟨strncmp_eq_iff (by decide) (by decide) (by omega), ?_, ?_⟩
  · have hthree : (head.drop 9).length = 3 := by
      rw [List.length_drop, hhead]
    have heq : strncmp 3 (head.drop 9) (ascii "101") = true ↔
        (head.drop 9).take 3 = ascii "101" :=
      strncmp_eq_iff (by decide) (by decide) hthree.ge
    rwa [List.take_of_length_le hthree.le] at heq
  · have heq : strncmp 12 head (ascii "HTTP/1.1 101") = true ↔
        head.take 12 = ascii "HTTP/1.1 101" :=
      strncmp_eq_iff (by decide) (by decide) hhead.ge
    rwa [List.take_of_length_le hhead.le] at heq

theorem upgradeResult_eq
    (sha1_base64 : Bytes → Bytes) (socket : Nat) (key response : Bytes) {a b : Nat}
    {pieces : List Nat}
    (hfirst : 12 ≤ a)
    (hlength : 12 ≤ response.length) :
    upgradeResult sha1_base64 socket key response (a :: b :: pieces) =
      outcome (sha1_base64 ((key ++ ws_guid).take 61)) (response.take 12)
        ((response.drop 12).take (min b 1024)) := by
  have hsteady : Steady socket (notUpgraded response (a :: b :: pieces)) :=
    ⟨(steady_startReading socket response (a :: b :: pieces)).vacant, Nat.le_refl 0⟩
  have hrecv : recv (notUpgraded response (a :: b :: pieces)).reading.incoming 12 =
      (some (response.take 12), ⟨response.drop 12, b :: pieces⟩) := by
    change recv ⟨response, a :: b :: pieces⟩ 12 = _
    rw [recv, if_neg (by decide)]
    dsimp only
    rw [if_neg, Nat.min_eq_right hfirst]
    rintro (rfl | rfl)
    · exact absurd hfirst (by decide)
    · exact absurd hlength (by decide)
  have hhead : (response.take 12).length = 12 := by
    rw [List.length_take, Nat.min_eq_left hlength]
  rcases getRawSocketData_recv hsteady (n := 12) rfl (by decide) TCPSOCKET_INTERRUPTED with
    ⟨hnone, _⟩ | ⟨data, w', hdata, _, _, hraw, hwebsocket, hsteady', hindex', hincoming'⟩
  · rw [hrecv] at hnone
    cases hnone
  rw [hrecv] at hdata hincoming'
  obtain rfl : response.take 12 = data := Option.some.inj hdata
  rw [hhead] at hraw
  obtain ⟨read_buf, rcv, rc', w'', hraw', hrc', hrest, hwebsocket', hsteady''⟩ :=
    upgrade_second hsteady' hindex' hincoming' hwebsocket (12 : Nat)
  rw [upgradeResult, upgrade]
  dsimp only
  rw [hraw]
  generalize response.take 12 = head at hhead ⊢
  generalize (response.drop 12).take (min b 1024) = rest at hrest ⊢
  obtain ⟨hversion, hcode, hstatus⟩ := statusLine_iff hhead
  have hread : ¬(some head = none ∨ 12 < 12) := by simp
  dsimp only
  rw [if_neg (by decide), if_neg hread, Option.getD_some, outcome]
  by_cases hrejected : head.take 8 = ascii "HTTP/1.1" ∧ head.drop 9 ≠ ascii "101"
  · rw [if_pos hrejected, if_pos ⟨hversion.mpr hrejected.1, fun h => hrejected.2 (hcode.mp h)⟩]
    dsimp only
    rw [hwebsocket]
    rfl
  rw [if_neg hrejected,
    if_neg fun hall => hrejected ⟨hversion.mp hall.1, fun h => hall.2 (hcode.mpr h)⟩]
  by_cases hok : head = ascii "HTTP/1.1 101"
  case neg =>
    rw [if_neg hok, if_neg fun h => hok (hstatus.mp h)]
    dsimp only
    rw [hwebsocket]
    rfl
  rw [if_pos hok, if_pos (hstatus.mpr hok), hraw']
  dsimp only
  rw [if_neg hrc', Option.getD_some, hrest]
  by_cases hcomplete : complete rest = true
  case neg =>
    rw [if_pos ⟨Option.some_ne_none _, hcomplete⟩, if_neg fun hall => hcomplete hall.1]
    dsimp only
    rw [hwebsocket']
  rw [if_neg fun hall => hall.2 hcomplete]
  by_cases hchecks : checkUpgrade rest = true ∧
      checkAccept (sha1_base64 ((key ++ ws_guid).take 61)) rest = true
  · rw [if_pos hchecks, if_pos ⟨hcomplete, hchecks⟩]
    have hupgraded : Steady socket { w'' with websocket := true } :=
      ⟨hsteady''.vacant, hsteady''.index_le⟩
    have hone : (1 : Int) ≠ 0 := by decide
    obtain ⟨buf, w₃, hzero, hsame, _⟩ := getRawSocketData_zero hupgraded hone
    dsimp only
    rw [hzero]
    dsimp only
    rw [hsame.websocket]
  · rw [if_neg hchecks, if_neg fun hall => hchecks hall.2]
    have herror : SOCKET_ERROR ≠ 0 := by decide
    obtain ⟨buf, w₃, hzero, hsame, _⟩ := getRawSocketData_zero hsteady'' herror
    dsimp only
    rw [hzero]
    dsimp only
    rw [hsame.websocket, hwebsocket']

/-! ### What the upgrade is a proof of -/

/-- A response that proves nothing is an error, and the connection is no WebSocket. -/
def Sound (accept response : Bytes) (result : Int × Bool) : Prop :=
  ¬Proves accept response → result = (SOCKET_ERROR, false)

/-- The response is one of HTTP/1.1, with a blank before the code 101. -/
structure AnswersHttp11 (head : Bytes) : Prop where
  version : head.take 8 = ascii "HTTP/1.1"
  status : head.drop 9 = ascii "101" → head = ascii "HTTP/1.1 101"

instance (head : Bytes) : Decidable (AnswersHttp11 head) :=
  decidable_of_iff (head.take 8 = ascii "HTTP/1.1" ∧
      (head.drop 9 = ascii "101" → head = ascii "HTTP/1.1 101"))
    ⟨fun h => ⟨h.1, h.2⟩, fun h => ⟨h.1, h.2⟩⟩

/-- A complete answer with an upgrade, and with a text that is taken for the key hash. -/
structure TakenForProof (ws_key head rest : Bytes) : Prop where
  status : head = ascii "HTTP/1.1 101"
  complete : complete rest = true
  upgrade : checkUpgrade rest = true
  text : ∃ text, acceptText rest = some text ∧ TakenForHash ws_key text

theorem outcome_error_iff
    {ws_key head rest : Bytes}
    (hkey : HashText ws_key)
    (hrest : rest.length < 2 ^ 64) :
    outcome ws_key head rest = (SOCKET_ERROR, false) ↔
      AnswersHttp11 head ∧ ¬TakenForProof ws_key head rest := by
  have haccept := checkAccept_iff hkey hrest
  rw [outcome]
  by_cases hrejected : head.take 8 = ascii "HTTP/1.1" ∧ head.drop 9 ≠ ascii "101"
  · rw [if_pos hrejected]
    refine ⟨fun _ => ⟨⟨hrejected.1, fun h => absurd h hrejected.2⟩, fun htaken => ?_⟩,
      fun _ => rfl⟩
    exact hrejected.2 (by rw [htaken.status]; decide)
  rw [if_neg hrejected]
  by_cases hok : head = ascii "HTTP/1.1 101"
  · rw [if_pos hok]
    by_cases hchecks : complete rest ∧ checkUpgrade rest ∧ checkAccept ws_key rest
    · rw [if_pos hchecks]
      refine ⟨fun h => absurd h (by decide), fun hall => absurd ?_ hall.2⟩
      exact ⟨hok, hchecks.1, hchecks.2.1, haccept.mp hchecks.2.2⟩
    · rw [if_neg hchecks]
      refine ⟨fun _ => ⟨⟨by rw [hok]; decide, fun _ => hok⟩, fun htaken => hchecks ?_⟩,
        fun _ => rfl⟩
      exact ⟨htaken.complete, htaken.upgrade, haccept.mpr htaken.text⟩
  · rw [if_neg hok]
    refine ⟨fun h => absurd h (by decide), fun hall => absurd ?_ hok⟩
    refine hall.1.status ?_
    by_contra hcode
    exact hrejected ⟨hall.1.version, hcode⟩

def sampleKey : Bytes := ascii "dGhlIHNhbXBsZSBub25jZQ=="

/-- The Base64 text of the hash for `sampleKey`. -/
def sampleAccept : Bytes := ascii "s3pPLMBiTxaQ9kYGzzhZRbK+xOo="

theorem hashText_sample :
    HashText sampleAccept :=
  ⟨by decide, by decide, by decide⟩

/-- Answers with an empty value, and with the first four bytes of the value. -/
def emptyValue : Bytes :=
  ascii "HTTP/1.1 101 OK\r\nConnection: Upgrade\r\nSec-WebSocket-Accept: \r\n\r\n"

def firstBytes : Bytes :=
  ascii "HTTP/1.1 101 OK\r\nConnection: Upgrade\r\nSec-WebSocket-Accept: s3pP\r\n\r\n"

end WebSocket
end PahoMqtt
