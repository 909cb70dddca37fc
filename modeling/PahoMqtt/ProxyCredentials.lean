import PahoMqtt.Base64RoundTrip
import PahoMqtt.Lib.PercentEncoding

/-!
# The credentials for a proxy

`MQTTProtocol_setHTTPProxy` takes the text before the first `@` of a proxy's URL for
the credentials, lets `MQTTProtocol_specialChars` replace the escapes in it, and
encodes the result in Base64.  A percent sign that begins no escape is neither copied
nor passed over, so that the loop stays at it.
-/

namespace PahoMqtt
namespace MQTTProtocol

open Lib

/-- The loop has not ended yet, or an access was outside. -/
inductive ProxyFault where
  | running
  | read
  | write
deriving DecidableEq, Repr

/-- The output buffer, the pointer `p0` into it, and `*basic_auth_in_len`. -/
structure Credentials where
  basic_auth : Bytes
  p0 : Nat
  basic_auth_in_len : UInt32

/-- `*p0 = b` -/
def Credentials.put (c : Credentials) (b : UInt8) : Except ProxyFault Credentials :=
  match store c.basic_auth c.p0 [b] with
  | none => .error .write
  | some basic_auth => .ok { c with basic_auth }

/-- `MQTTProtocol_specialChars`, this many turns of it; `p1` is the rest of the input. -/
def specialChars : Nat → Bytes → Credentials → Except ProxyFault Credentials
  | 0, _, _ => .error .running
  | _ + 1, [], _ => .error .read
  | fuel + 1, b :: p1, c =>
      if b = 64 then c.put 0
      else if b ≠ 37 then
        match c.put b with
        | .error e => .error e
        | .ok c => specialChars fuel p1 { c with p0 := c.p0 + 1 }
      else
        match p1 with
        | high :: low :: rest =>
            if isxdigit high = true ∧ isxdigit low = true then
              match c.put (percentByte high low) with
              | .error e => .error e
              | .ok c =>
                  specialChars fuel rest
                    { c with p0 := c.p0 + 1, basic_auth_in_len := c.basic_auth_in_len - 2 }
            else
              specialChars fuel (b :: p1) c
        | p1 => specialChars fuel (b :: p1) c

/-- What is encoded, and the buffer with the Base64 text. -/
structure BasicAuth where
  text : Bytes
  basic_auth_in_len : UInt32
  auth_dest : Bytes

structure ProxySetting where
  dest : Bytes
  auth : Option BasicAuth

/-- The URL as it is used: something is skipped if the prefix is found anywhere in it. -/
def proxySource (start source : Bytes) : Bytes :=
  if start <:+: source then source.drop start.length else source

def PAHO_MEMORY_ERROR : Int := -99

/-- What `MQTTProtocol_setHTTPProxy` does with the decoded credentials. -/
def encodeAuth (auth_ok : Bool) (dest : Bytes) (c : Credentials) :
    Except ProxyFault (ProxySetting × Int) :=
  let basic_auth_out_len := Base64.Base64_encodeLength c.basic_auth_in_len + 1
  if auth_ok = false then .ok (⟨dest, none⟩, PAHO_MEMORY_ERROR)
  else
    let text := c.basic_auth.take c.basic_auth_in_len.toNat
    match Base64.Base64_encode (List.replicate basic_auth_out_len.toNat 0)
        basic_auth_out_len text with
    | .error .read => .error .read
    | .error .write => .error .write
    | .ok (_, auth_dest) => .ok (⟨dest, some ⟨text, c.basic_auth_in_len, auth_dest⟩⟩, 0)

/--
`MQTTProtocol_setHTTPProxy` with a prefix `start`, for allocations that succeed or do
not: the settings and the return code.
-/
def setHTTPProxy (fuel : Nat) (basic_ok auth_ok : Bool) (start source : Bytes) :
    Except ProxyFault (ProxySetting × Int) :=
  let source := proxySource start source
  match strchr 64 source with
  | none => .ok (⟨source, none⟩, 0)
  | some p1 =>
      let dest := source.drop (p1 + 1)
      let basic_auth_in_len := UInt32.ofNat p1
      if 0 < basic_auth_in_len then
        if basic_ok = false then .ok (⟨dest, none⟩, PAHO_MEMORY_ERROR)
        else
          match specialChars fuel source
              ⟨List.replicate (basic_auth_in_len + 1).toNat 0, 0, basic_auth_in_len⟩ with
          | .error e => .error e
          | .ok c => encodeAuth auth_ok dest c
      else
        .ok (⟨dest, none⟩, 0)

/-! ### The turns of the loop -/

section Turns

variable {fuel : Nat} {p1 : Bytes} {c : Credentials}

theorem Credentials.put_ok
    (h : c.p0 < c.basic_auth.length)
    (b : UInt8) :
    c.put b = .ok { c with basic_auth := c.basic_auth.set c.p0 b } := by
  rw [put, store_singleton h]

theorem Credentials.put_eq_ok
    {b : UInt8} {c' : Credentials}
    (h : c.put b = .ok c') :
    c.p0 < c.basic_auth.length ∧ c' = { c with basic_auth := c.basic_auth.set c.p0 b } := by
  by_cases hroom : c.p0 < c.basic_auth.length
  · rw [put_ok hroom] at h
    exact ⟨hroom, (Except.ok.inj h).symm⟩
  · have hnone : store c.basic_auth c.p0 [b] = none :=
      if_neg (by
        rw [List.length_singleton]
        omega)
    rw [put, hnone] at h
    cases h

theorem specialChars_at :
    specialChars (fuel + 1) (64 :: p1) c = c.put 0 := rfl

theorem specialChars_plain
    {b : UInt8}
    (hat : b ≠ 64)
    (hpercent : b ≠ 37) :
    specialChars (fuel + 1) (b :: p1) c =
      match c.put b with
      | .error e => .error e
      | .ok c => specialChars fuel p1 { c with p0 := c.p0 + 1 } := by
  match p1 with
  | [] => simp only [specialChars, if_neg hat, if_pos hpercent]
  | [_] => simp only [specialChars, if_neg hat, if_pos hpercent]
  | _ :: _ :: _ => simp only [specialChars, if_neg hat, if_pos hpercent]

theorem specialChars_escape
    {high low : UInt8}
    (hhigh : isxdigit high = true)
    (hlow : isxdigit low = true) :
    specialChars (fuel + 1) (37 :: high :: low :: p1) c =
      match c.put (percentByte high low) with
      | .error e => .error e
      | .ok c =>
          specialChars fuel p1
            { c with p0 := c.p0 + 1, basic_auth_in_len := c.basic_auth_in_len - 2 } := by
  rw [specialChars, if_neg (by decide), if_neg (by decide)]
  exact if_pos ⟨hhigh, hlow⟩

/-- At a percent sign that begins no escape, a turn changes nothing. -/
theorem specialChars_stuck
    (h : ¬ HexPair p1) :
    specialChars (fuel + 1) (37 :: p1) c = specialChars fuel (37 :: p1) c := by
  have hat : (37 : UInt8) ≠ 64 := by decide
  match p1 with
  | [] => simp only [specialChars, if_neg hat, ne_eq, not_true, if_false]
  | [_] => simp only [specialChars, if_neg hat, ne_eq, not_true, if_false]
  | high :: low :: rest =>
      have hhex : ¬(isxdigit high = true ∧ isxdigit low = true) :=
        fun hhex => h ⟨high, low, rest, rfl, hhex.1, hhex.2⟩
      simp only [specialChars, if_neg hat, ne_eq, not_true, if_false, if_neg hhex]

/-- There the loop does not end. -/
theorem specialChars_running
    (h : ¬ HexPair p1) (fuel : Nat) (c : Credentials) :
    specialChars fuel (37 :: p1) c = .error .running := by
  induction fuel with
  | zero =>
      rfl
  | succ fuel ih =>
      rw [specialChars_stuck h, ih]

/-- The separator is no digit. -/
theorem hexPair_append
    {s rest : Bytes} :
    HexPair (s ++ 64 :: rest) ↔ HexPair s := by
  constructor
  · rintro ⟨high, low, tail, heq, hhigh, hlow⟩
    match s with
    | [] =>
        obtain ⟨rfl, _⟩ := List.cons.inj heq
        exact absurd hhigh (by decide)
    | [x] =>
        obtain ⟨_, hrest⟩ := List.cons.inj heq
        obtain ⟨rfl, _⟩ := List.cons.inj hrest
        exact absurd hlow (by decide)
    | x :: y :: s =>
        obtain ⟨rfl, hrest⟩ := List.cons.inj heq
        obtain ⟨rfl, _⟩ := List.cons.inj hrest
        exact ⟨x, y, s, rfl, hhigh, hlow⟩
  · rintro ⟨high, low, tail, rfl, hhigh, hlow⟩
    exact ⟨high, low, tail ++ 64 :: rest, rfl, hhigh, hlow⟩

end Turns

/-! ### Whole runs of the loop -/

/-- What a run on some user-info has written, and the length that it reports. -/
structure Decoded (c : Credentials) (user : Bytes) (c' : Credentials) : Prop where
  taken : c'.basic_auth.take (c.p0 + (percentDecode user).length) =
    c.basic_auth.take c.p0 ++ percentDecode user
  len : c'.basic_auth_in_len + UInt32.ofNat user.length =
    c.basic_auth_in_len + UInt32.ofNat (percentDecode user).length

/-- A character that stands for itself, or an escape, in front of the rest. -/
theorem Decoded.cons
    {c c' : Credentials} {b : UInt8} {user whole : Bytes} {less : UInt32}
    (hroom : c.p0 < c.basic_auth.length)
    (hdecode : percentDecode whole = b :: percentDecode user)
    (hlength : UInt32.ofNat whole.length = UInt32.ofNat user.length + 1 + less)
    (h : Decoded ⟨c.basic_auth.set c.p0 b, c.p0 + 1, c.basic_auth_in_len - less⟩ user c') :
    Decoded c whole c' where
  taken := by
    have htaken := h.taken
    rw [take_succ_set hroom, List.append_assoc, List.singleton_append, ← hdecode] at htaken
    rw [hdecode, List.length_cons, Nat.add_comm _ 1, ← Nat.add_assoc, ← hdecode]
    exact htaken
  len := by
    have hlen := h.len
    dsimp only at hlen
    rw [hlength, hdecode, List.length_cons, UInt32.ofNat_add]
    have hone : UInt32.ofNat 1 = 1 := rfl
    rw [hone]
    calc c'.basic_auth_in_len + (UInt32.ofNat user.length + 1 + less)
        = c'.basic_auth_in_len + UInt32.ofNat user.length + (1 + less) := by grind
      _ = c.basic_auth_in_len - less + UInt32.ofNat (percentDecode user).length + (1 + less) := by
          rw [hlen]
      _ = c.basic_auth_in_len + (UInt32.ofNat (percentDecode user).length + 1) := by grind

/-- The end of the text. -/
theorem Decoded.nil
    (c : Credentials) :
    Decoded c [] { c with basic_auth := c.basic_auth.set c.p0 0 } where
  taken := by
    rw [percentDecode_nil, List.length_nil, Nat.add_zero, List.append_nil]
    exact List.take_set_of_le (Nat.le_refl _)
  len := rfl

/-- A character that is kept. -/
theorem Decoded.kept
    {c c' : Credentials} {b : UInt8} {user : Bytes}
    (hroom : c.p0 < c.basic_auth.length)
    (hb : b ≠ 37)
    (h : Decoded ⟨c.basic_auth.set c.p0 b, c.p0 + 1, c.basic_auth_in_len⟩ user c') :
    Decoded c (b :: user) c' := by
  have hlength : UInt32.ofNat (b :: user).length = UInt32.ofNat user.length + 1 + 0 := by
    rw [List.length_cons, UInt32.ofNat_add]
    grind
  refine Decoded.cons hroom (percentDecode_cons (fun h => hb h.1)) hlength ?_
  rw [UInt32.sub_zero]
  exact h

/-- An escape. -/
theorem Decoded.escape
    {c c' : Credentials} {high low : UInt8} {user : Bytes}
    (hroom : c.p0 < c.basic_auth.length)
    (hhigh : isxdigit high = true)
    (hlow : isxdigit low = true)
    (h : Decoded ⟨c.basic_auth.set c.p0 (percentByte high low), c.p0 + 1,
      c.basic_auth_in_len - 2⟩ user c') :
    Decoded c (37 :: high :: low :: user) c' := by
  have hlength : UInt32.ofNat (37 :: high :: low :: user).length =
      UInt32.ofNat user.length + 1 + 2 := by
    simp only [List.length_cons, UInt32.ofNat_add]
    grind
  exact Decoded.cons hroom (percentDecode_escape hhigh hlow user) hlength h

/-- User-info without other percent signs is decoded, if the buffer has room for it. -/
theorem specialChars_decodes
    {user : Bytes} {c : Credentials}
    (rest : Bytes)
    (hat : 64 ∉ user)
    (hescaped : WellEscaped user)
    (hroom : c.p0 + (percentDecode user).length < c.basic_auth.length) :
    ∃ fuel c', specialChars fuel (user ++ 64 :: rest) c = .ok c' ∧ Decoded c user c' := by
  induction hn : user.length using Nat.strongRecOn generalizing user c with
  | ind n ih =>
      cases user with
      | nil =>
          rw [percentDecode_nil, List.length_nil, Nat.add_zero] at hroom
          exact ⟨1, _, (specialChars_at).trans (Credentials.put_ok hroom 0), .nil c⟩
      | cons b user =>
          rw [List.mem_cons, not_or] at hat
          obtain ⟨hfirst, hlater⟩ := wellEscaped_cons_iff.mp hescaped
          by_cases hb : b = 37
          · -- an escape
            subst hb
            obtain ⟨high, low, tail, rfl, hhigh, hlow⟩ := hfirst rfl
            have hdecode := percentDecode_escape hhigh hlow tail
            rw [hdecode, List.length_cons] at hroom
            have hp0 : c.p0 < c.basic_auth.length := by omega
            simp only [List.mem_cons, not_or] at hat
            obtain ⟨fuel, c', hrun, hdecoded⟩ := ih tail.length
              (by rw [← hn]; simp only [List.length_cons]; omega) hat.2.2.2
              ((wellEscaped_escape_iff hhigh hlow).mp hescaped)
              (c := ⟨c.basic_auth.set c.p0 (percentByte high low), c.p0 + 1,
                c.basic_auth_in_len - 2⟩) (by
                rw [List.length_set]
                dsimp only
                omega) rfl
            refine ⟨fuel + 1, c', ?_, .escape hp0 hhigh hlow hdecoded⟩
            rw [List.cons_append, List.cons_append, List.cons_append,
              specialChars_escape hhigh hlow, Credentials.put_ok hp0]
            exact hrun
          · -- a character that is kept
            have hdecode : percentDecode (b :: user) = b :: percentDecode user :=
              percentDecode_cons (fun h => hb h.1)
            rw [hdecode, List.length_cons] at hroom
            have hp0 : c.p0 < c.basic_auth.length := by omega
            obtain ⟨fuel, c', hrun, hdecoded⟩ := ih user.length
              (by rw [← hn, List.length_cons]; omega) hat.2 hlater
              (c := ⟨c.basic_auth.set c.p0 b, c.p0 + 1, c.basic_auth_in_len⟩) (by
                rw [List.length_set]
                dsimp only
                omega) rfl
            refine ⟨fuel + 1, c', ?_, .kept hp0 hb hdecoded⟩
            rw [List.cons_append, specialChars_plain (Ne.symm hat.1) hb, Credentials.put_ok hp0]
            exact hrun

/-- A run that ends has met no other percent sign, and there was room for what it wrote. -/
theorem specialChars_ok
    {fuel : Nat} {user rest : Bytes} {c c' : Credentials}
    (hat : 64 ∉ user)
    (hrun : specialChars fuel (user ++ 64 :: rest) c = .ok c') :
    WellEscaped user ∧ c.p0 + (percentDecode user).length < c.basic_auth.length ∧
      Decoded c user c' := by
  induction fuel generalizing user c with
  | zero =>
      cases hrun
  | succ fuel ih =>
      cases user with
      | nil =>
          obtain ⟨hroom, rfl⟩ := Credentials.put_eq_ok hrun
          exact ⟨wellEscaped_nil, hroom, .nil c⟩
      | cons b user =>
          rw [List.mem_cons, not_or] at hat
          by_cases hb : b = 37
          · subst hb
            by_cases hpair : HexPair user
            · obtain ⟨high, low, tail, rfl, hhigh, hlow⟩ := hpair
              rw [List.cons_append, List.cons_append, List.cons_append,
                specialChars_escape hhigh hlow] at hrun
              cases hput : c.put (percentByte high low) with
              | error e =>
                  rw [hput] at hrun
                  cases hrun
              | ok c₁ =>
                  obtain ⟨hroom, rfl⟩ := Credentials.put_eq_ok hput
                  rw [hput] at hrun
                  simp only [List.mem_cons, not_or] at hat
                  obtain ⟨hescaped, hlength, hdecoded⟩ := ih hat.2.2.2 hrun
                  rw [List.length_set] at hlength
                  refine ⟨(wellEscaped_escape_iff hhigh hlow).mpr hescaped, ?_,
                    .escape hroom hhigh hlow hdecoded⟩
                  rw [percentDecode_escape hhigh hlow, List.length_cons]
                  dsimp only at hlength
                  omega
            · -- the loop stays where it is
              rw [List.cons_append, specialChars_stuck (fun h => hpair (hexPair_append.mp h))]
                at hrun
              have hstays : 64 ∉ 37 :: user := by simpa using hat
              exact ih hstays hrun
          · rw [List.cons_append, specialChars_plain (Ne.symm hat.1) hb] at hrun
            cases hput : c.put b with
            | error e =>
                rw [hput] at hrun
                cases hrun
            | ok c₁ =>
                obtain ⟨hroom, rfl⟩ := Credentials.put_eq_ok hput
                rw [hput] at hrun
                obtain ⟨hescaped, hlength, hdecoded⟩ := ih hat.2 hrun
                rw [List.length_set] at hlength
                refine ⟨wellEscaped_cons_iff.mpr ⟨fun h => absurd h hb, hescaped⟩, ?_,
                  .kept hroom hb hdecoded⟩
                rw [percentDecode_cons (fun h => hb h.1), List.length_cons]
                dsimp only at hlength
                omega

/-! ### URLs by their parts -/

/-- The parts of a proxy's URL with user-info: the scheme, if any, and what follows the `@`. -/
structure ProxyURL where
  scheme : Bytes
  user : Bytes
  host : Bytes
  scheme_at : 64 ∉ scheme
  user_at : 64 ∉ user

def ProxyURL.text (url : ProxyURL) : Bytes := url.scheme ++ url.user ++ 64 :: url.host

/--
Whatever allocations succeed, the call ends without an access outside a buffer, and
the text that it encodes, if it gets to that, is what the user-info stands for.
-/
def EncodesUserInfo (start : Bytes) (url : ProxyURL) : Prop :=
  ∀ basic_ok auth_ok : Bool, ∃ fuel setting rc,
    setHTTPProxy fuel basic_ok auth_ok start url.text = .ok (setting, rc) ∧
      setting.auth.map (fun a => (a.text, a.basic_auth_in_len.toNat)) =
        if url.user ≠ [] ∧ basic_ok = true ∧ auth_ok = true then
          some (percentDecode url.user, (percentDecode url.user).length)
        else none

/-- What the function takes for the user-info, if its length is not 0 in 32 bits. -/
def takenUserInfo (start source : Bytes) : Option Bytes :=
  match strchr 64 (proxySource start source) with
  | none => none
  | some p1 =>
      if UInt32.ofNat p1 = 0 then none else some ((proxySource start source).take p1)

/--
What is taken for the user-info stands for the same text, has no other percent signs,
and its length in 32 bits leaves room for the text and a zero byte.
-/
def TakesUserInfo (start : Bytes) (url : ProxyURL) : Prop :=
  match takenUserInfo start url.text with
  | none => url.user = []
  | some taken =>
      percentDecode taken = percentDecode url.user ∧ WellEscaped taken ∧
        (percentDecode taken).length < (UInt32.ofNat taken.length + 1).toNat

theorem strchr_eq_some
    {b : UInt8} {s : Bytes} {i : Nat}
    (h : strchr b s = some i) :
    b ∉ s.take i ∧ ∃ rest, s = s.take i ++ b :: rest ∧ (s.take i).length = i := by
  by_cases hmem : b ∈ s
  · obtain ⟨before, after, hs, hnot⟩ := List.eq_append_cons_of_mem hmem
    rw [hs, strchr_append hnot] at h
    obtain rfl := Option.some.inj h
    rw [hs, List.take_left]
    exact ⟨hnot, after, rfl, rfl⟩
  · rw [strchr_none hmem] at h
    cases h

/-- With nothing to encode, nothing is. -/
theorem setHTTPProxy_nothing
    {start source : Bytes}
    (h : takenUserInfo start source = none)
    (fuel : Nat) (basic_ok auth_ok : Bool) :
    ∃ setting rc, setHTTPProxy fuel basic_ok auth_ok start source = .ok (setting, rc) ∧
      setting.auth = none := by
  rw [takenUserInfo] at h
  rw [setHTTPProxy]
  dsimp only
  cases hat : strchr 64 (proxySource start source) with
  | none =>
      exact ⟨_, _, rfl, rfl⟩
  | some p1 =>
      rw [hat] at h
      dsimp only at h ⊢
      by_cases hzero : UInt32.ofNat p1 = 0
      · rw [hzero, if_neg (UInt32.lt_irrefl 0)]
        exact ⟨_, _, rfl, rfl⟩
      · rw [if_neg hzero] at h
        cases h

/-- The allocated buffer, with the length that was taken for the user-info. -/
def startCredentials (taken : Bytes) : Credentials :=
  ⟨List.replicate (UInt32.ofNat taken.length + 1).toNat 0, 0, UInt32.ofNat taken.length⟩

theorem setHTTPProxy_taken
    {start source taken : Bytes}
    (h : takenUserInfo start source = some taken) :
    64 ∉ taken ∧ taken ≠ [] ∧ ∃ host, ∀ fuel basic_ok auth_ok,
      setHTTPProxy fuel basic_ok auth_ok start source =
        if basic_ok = false then .ok (⟨host, none⟩, PAHO_MEMORY_ERROR)
        else
          match specialChars fuel (taken ++ 64 :: host) (startCredentials taken) with
          | .error e => .error e
          | .ok c => encodeAuth auth_ok host c := by
  rw [takenUserInfo] at h
  cases hat : strchr 64 (proxySource start source) with
  | none =>
      rw [hat] at h
      cases h
  | some p1 =>
      rw [hat] at h
      dsimp only at h
      split_ifs at h with hzero
      obtain ⟨hnot, host, hsource, hlength⟩ := strchr_eq_some hat
      rw [Option.some.inj h] at hnot hsource hlength
      have hne : taken ≠ [] := by
        rintro rfl
        rw [← hlength] at hzero
        exact hzero rfl
      refine ⟨hnot, hne, host, ?_⟩
      intro fuel basic_ok auth_ok
      have hpos : 0 < UInt32.ofNat p1 := UInt32.pos_iff_ne_zero.mpr hzero
      have hdest : (proxySource start source).drop (p1 + 1) = host := by
        rw [hsource, ← List.drop_drop, ← hlength, List.drop_left]
        rfl
      rw [setHTTPProxy]
      dsimp only
      rw [hat]
      dsimp only
      rw [if_pos hpos, hdest, startCredentials, hlength, ← hsource]

/-- Base64 text of any length stays inside the buffer that was allocated for it. -/
theorem encodeAuth_ok
    (host : Bytes) (c : Credentials) :
    ∃ auth_dest, encodeAuth true host c =
      .ok (⟨host, some ⟨c.basic_auth.take c.basic_auth_in_len.toNat, c.basic_auth_in_len,
        auth_dest⟩⟩, 0) := by
  have hlt := Base64.encodeLength_lt c.basic_auth_in_len
  have hsucc : (Base64.Base64_encodeLength c.basic_auth_in_len + 1).toNat =
      (Base64.Base64_encodeLength c.basic_auth_in_len).toNat + 1 := by
    rw [UInt32.toNat_add]
    exact Nat.mod_eq_of_lt (by
      rw [UInt32.toNat_one]
      omega)
  obtain ⟨ret, auth_dest, hencode⟩ := Base64.Base64_encode_bounded
    (x := c.basic_auth.take c.basic_auth_in_len.toNat)
    (List.length_replicate (a := (0 : UInt8))
      (n := (Base64.Base64_encodeLength c.basic_auth_in_len + 1).toNat)) (.inr (by omega))
  refine ⟨auth_dest, ?_⟩
  rw [encodeAuth]
  dsimp only
  rw [if_neg (by decide), hencode]

/-- The credentials after a run that had room: the text, and the length that it has. -/
theorem Decoded.whole
    {taken : Bytes} {c : Credentials}
    (h : Decoded (startCredentials taken) taken c)
    (hroom : (percentDecode taken).length < (UInt32.ofNat taken.length + 1).toNat) :
    c.basic_auth_in_len.toNat = (percentDecode taken).length ∧
      c.basic_auth.take c.basic_auth_in_len.toNat = percentDecode taken := by
  have hlt := (UInt32.ofNat taken.length + 1).toNat_lt
  have hlen : c.basic_auth_in_len = UInt32.ofNat (percentDecode taken).length := by
    have := h.len
    simp only [startCredentials] at this
    grind
  have hnat : c.basic_auth_in_len.toNat = (percentDecode taken).length := by
    rw [hlen]
    exact UInt32.toNat_ofNat_of_lt' (by
      have : UInt32.size = 4294967296 := rfl
      omega)
  refine ⟨hnat, ?_⟩
  rw [hnat]
  simpa [startCredentials] using h.taken

/-- What is taken stands for the user-info. -/
theorem TakesUserInfo.encodes
    {start : Bytes} {url : ProxyURL}
    (h : TakesUserInfo start url) :
    EncodesUserInfo start url := by
  intro basic_ok auth_ok
  rw [TakesUserInfo] at h
  cases htaken : takenUserInfo start url.text with
  | none =>
      rw [htaken] at h
      obtain ⟨setting, rc, hrun, hnone⟩ := setHTTPProxy_nothing htaken 0 basic_ok auth_ok
      refine ⟨0, setting, rc, hrun, ?_⟩
      have huser : url.user = [] := h
      rw [hnone, huser]
      rfl
  | some taken =>
      rw [htaken] at h
      obtain ⟨hdecode, hescaped, hroom⟩ := h
      obtain ⟨hat, hne, host, hrun⟩ := setHTTPProxy_taken htaken
      cases basic_ok with
      | false => exact ⟨0, _, _, hrun 0 false auth_ok, by simp⟩
      | true =>
          obtain ⟨fuel, c, hturns, hdecoded⟩ := specialChars_decodes host hat hescaped
            (c := startCredentials taken) (by
              simpa [startCredentials] using hroom)
          obtain ⟨hlen, htext⟩ := hdecoded.whole hroom
          have hcall := hrun fuel true auth_ok
          rw [if_neg (by decide), hturns] at hcall
          cases auth_ok with
          | false => exact ⟨fuel, _, _, hcall, by simp⟩
          | true =>
              obtain ⟨auth_dest, hencode⟩ := encodeAuth_ok host c
              refine ⟨fuel, _, _, hcall.trans hencode, ?_⟩
              have huser : url.user ≠ [] := by
                intro hempty
                rw [hempty, percentDecode_nil, percentDecode_eq_nil] at hdecode
                exact hne hdecode
              rw [if_pos ⟨huser, rfl, rfl⟩]
              simp only [Option.map_some, hlen]
              rw [← hlen, htext, hlen, hdecode]

/-- A call that encodes what the user-info stands for has taken it for that. -/
theorem EncodesUserInfo.takes
    {start : Bytes} {url : ProxyURL}
    (h : EncodesUserInfo start url) :
    TakesUserInfo start url := by
  obtain ⟨fuel, setting, rc, hcall, hauth⟩ := h true true
  simp only [and_true] at hauth
  rw [TakesUserInfo]
  cases htaken : takenUserInfo start url.text with
  | none =>
      obtain ⟨setting', rc', hrun, hnone⟩ := setHTTPProxy_nothing htaken fuel true true
      rw [hcall] at hrun
      obtain ⟨rfl, rfl⟩ := Prod.mk.inj (Except.ok.inj hrun)
      rw [hnone] at hauth
      by_contra huser
      rw [if_pos huser] at hauth
      cases hauth
  | some taken =>
      obtain ⟨hat, hne, host, hrun⟩ := setHTTPProxy_taken htaken
      have hbody := hrun fuel true true
      rw [if_neg (by decide), hcall] at hbody
      cases hturns : specialChars fuel (taken ++ 64 :: host) (startCredentials taken) with
      | error e =>
          rw [hturns] at hbody
          cases hbody
      | ok c =>
          obtain ⟨hescaped, hroom, hdecoded⟩ := specialChars_ok hat hturns
          have hroom : (percentDecode taken).length < (UInt32.ofNat taken.length + 1).toNat := by
            simpa [startCredentials] using hroom
          obtain ⟨hlen, htext⟩ := hdecoded.whole hroom
          obtain ⟨auth_dest, hencode⟩ := encodeAuth_ok host c
          rw [hturns] at hbody
          dsimp only at hbody
          rw [hencode] at hbody
          obtain ⟨rfl, rfl⟩ := Prod.mk.inj (Except.ok.inj hbody)
          refine ⟨?_, hescaped, hroom⟩
          split_ifs at hauth with huser
          · simp only [Option.map_some, Option.some.injEq, Prod.mk.injEq] at hauth
            rw [← htext]
            exact hauth.1
          · cases hauth

/-- The scheme is skipped, and nothing else. -/
theorem proxySource_text
    {start : Bytes} {url : ProxyURL}
    (h : url.scheme = start ∨ url.scheme = [] ∧ ¬ start <:+: url.text) :
    proxySource start url.text = url.user ++ 64 :: url.host := by
  rw [proxySource]
  rcases h with rfl | ⟨hscheme, hnot⟩
  · have hinfix : url.scheme <:+: url.text := by
      rw [ProxyURL.text, List.append_assoc]
      exact (List.prefix_append _ _).isInfix
    rw [if_pos hinfix, ProxyURL.text, List.append_assoc, List.drop_left]
  · rw [if_neg hnot, ProxyURL.text, hscheme, List.nil_append]

/-- For a URL that begins with the prefix, or does not have it, only the percent signs matter. -/
theorem takesUserInfo_iff
    {start : Bytes} {url : ProxyURL}
    (hscheme : url.scheme = start ∨ url.scheme = [] ∧ ¬ start <:+: url.text)
    (hlength : url.user.length < 4294967295) :
    TakesUserInfo start url ↔ WellEscaped url.user := by
  have hnat : (UInt32.ofNat url.user.length).toNat = url.user.length :=
    UInt32.toNat_ofNat_of_lt' (by
      have : UInt32.size = 4294967296 := rfl
      omega)
  rw [TakesUserInfo, takenUserInfo, proxySource_text hscheme, strchr_append url.user_at]
  dsimp only
  by_cases hzero : UInt32.ofNat url.user.length = 0
  · have hempty : url.user = [] := by
      rw [hzero] at hnat
      exact List.length_eq_zero_iff.mp hnat.symm
    rw [if_pos hzero, hempty]
    exact iff_of_true rfl wellEscaped_nil
  · have hsucc : (UInt32.ofNat url.user.length + 1).toNat = url.user.length + 1 := by
      rw [UInt32.toNat_add, hnat]
      exact Nat.mod_eq_of_lt (by
        rw [UInt32.toNat_one]
        omega)
    have hle := length_percentDecode_le url.user
    rw [if_neg hzero, List.take_left]
    dsimp only
    rw [hsucc]
    exact ⟨fun h => h.2.1, fun h => ⟨rfl, h, by omega⟩⟩

/--
The call does what it is for exactly if what it takes for the user-info stands for the
same text and every percent sign in it begins an escape.
-/
theorem encodesUserInfo_iff
    (start : Bytes) (url : ProxyURL) :
    EncodesUserInfo start url ↔ TakesUserInfo start url :=
  ⟨EncodesUserInfo.takes, TakesUserInfo.encodes⟩

/-- A percent sign in front of the separator: the loop does not end. -/
theorem not_encodes_percent :
    ∃ url : ProxyURL, url.text = ascii "http://u%@proxy:8080" ∧
      (∀ fuel, setHTTPProxy fuel true true (ascii "http://") url.text = .error .running) ∧
      ¬ EncodesUserInfo (ascii "http://") url := by
  have hsource : proxySource (ascii "http://") (ascii "http://u%@proxy:8080") =
      117 :: 37 :: 64 :: ascii "proxy:8080" := by
    decide
  have hpair : ¬ HexPair (64 :: ascii "proxy:8080") := by
    rw [← List.nil_append (64 :: ascii "proxy:8080"), hexPair_append]
    rintro ⟨high, low, rest, h, -, -⟩
    cases h
  have hloop : ∀ fuel, setHTTPProxy fuel true true (ascii "http://")
      (ascii "http://u%@proxy:8080") = .error .running := by
    intro fuel
    rw [setHTTPProxy, hsource]
    cases fuel with
    | zero => rfl
    | succ fuel =>
        change (match specialChars fuel (37 :: 64 :: ascii "proxy:8080") _ with
          | .error e => Except.error e
          | .ok c => encodeAuth true _ c) = _
        rw [specialChars_running hpair]
  have htext : ProxyURL.text ⟨ascii "http://", ascii "u%", ascii "proxy:8080", by decide,
      by decide⟩ = ascii "http://u%@proxy:8080" := by
    decide
  refine ⟨_, htext, by rw [htext]; exact hloop, ?_⟩
  intro h
  obtain ⟨fuel, setting, rc, hrun, -⟩ := h true true
  rw [htext, hloop] at hrun
  cases hrun

end MQTTProtocol
end PahoMqtt
