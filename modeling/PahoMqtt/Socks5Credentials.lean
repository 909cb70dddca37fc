import PahoMqtt.Lib.Buffers
import PahoMqtt.Socks5Proxy

/-!
# The user name and the password for a proxy

The message of the method 02 has a byte for each of the two lengths.  Its memory
is allocated and filled by the lengths that were cut off to a byte, so that all
writes are inside of it, but what a proxy reads are the first bytes only.
-/

set_option linter.style.nameCheck false

namespace PahoMqtt
namespace Socks5

open Lib

/-- The writes of `socks5__send` to the memory of the message. -/
def fillUserpass (payload username password : Bytes) : Option Bytes := do
  let ulen := username.length % 256
  let plen := password.length % 256
  let payload ← store payload 0 [0x01]
  let payload ← store payload 1 [UInt8.ofNat ulen]
  let payload ← store payload 2 (username.take ulen)
  let payload ← store payload (2 + ulen) [UInt8.ofNat plen]
  store payload (3 + ulen) (password.take plen)

/-- `packet_length` of the message -/
def userpassLength (username password : Bytes) : Nat :=
  3 + username.length % 256 + password.length % 256

/-- The user name and the password, as a proxy reads them by RFC 1929. -/
def decodeUserpass : Bytes → Option (Bytes × Bytes)
  | 0x01 :: ulen :: bytes =>
      match bytes.drop ulen.toNat with
      | plen :: password =>
          if password.length = plen.toNat then some (bytes.take ulen.toNat, password) else none
      | [] => none
  | _ => none

/-- The message is written inside its memory, and a proxy reads the user name and the password. -/
structure Carries (username password packet : Bytes) : Prop where
  filled : ∀ payload : Bytes, payload.length = userpassLength username password →
    fillUserpass payload username password = some packet
  decodes : decodeUserpass packet = some (username, password)

/-- A message with the user name and the password is sent, or an error is returned. -/
def SendsCredentials (username password : Bytes) (aClient : Socks5Client)
    (result : Option (Int × Socks5Client)) : Prop :=
  ∃ rc aClient', result = some (rc, aClient') ∧
    ((∃ packet, aClient'.queued = aClient.queued ++ [packet] ∧
        Carries username password packet) ∨
      (aClient'.queued = aClient.queued ∧ rc ≠ ERR_SUCCESS))

/-- All writes are inside the memory of the message, and nothing of it is left as it was. -/
theorem fillUserpass_eq
    {payload username password : Bytes}
    (hlength : payload.length = userpassLength username password) :
    fillUserpass payload username password = some (userpassPacket username password) := by
  have hparts : fillUserpass payload username password =
      storeParts payload 0 [[0x01], [UInt8.ofNat (username.length % 256)],
        username.take (username.length % 256), [UInt8.ofNat (password.length % 256)],
        password.take (password.length % 256)] := by
    have hulen : (username.take (username.length % 256)).length = username.length % 256 := by
      rw [List.length_take]
      exact min_eq_left (Nat.mod_le _ _)
    simp only [fillUserpass, storeParts, Option.bind_eq_bind, Nat.zero_add,
      List.length_singleton, hulen, Option.bind_fun_some, Nat.reduceAdd,
      show 2 + username.length % 256 + 1 = 3 + username.length % 256 from by omega]
  rw [hparts, (storeParts_eq_flatten_iff _ _).mpr]
  · simp [userpassPacket]
  · rw [hlength, userpassLength]
    simp only [List.flatten_cons, List.flatten_nil, List.length_append, List.length_cons,
      List.length_nil, List.length_take, min_eq_left (Nat.mod_le _ _)]
    omega

theorem decodeUserpass_cons
    {username password : Bytes}
    (husername : username.length < 256)
    (hpassword : password.length < 256) :
    decodeUserpass (0x01 :: UInt8.ofNat username.length ::
        (username ++ UInt8.ofNat password.length :: password)) = some (username, password) := by
  have hulen : (UInt8.ofNat username.length).toNat = username.length :=
    UInt8.toNat_ofNat_of_lt husername
  have hplen : (UInt8.ofNat password.length).toNat = password.length :=
    UInt8.toNat_ofNat_of_lt hpassword
  simp only [decodeUserpass, hulen, hplen, List.drop_left, List.take_left, if_true]

/-- A proxy reads as many bytes as the lengths that were cut off say. -/
theorem decodeUserpass_packet
    (username password : Bytes) :
    decodeUserpass (userpassPacket username password) =
      some (username.take (username.length % 256), password.take (password.length % 256)) := by
  have hlength (text : Bytes) : (text.take (text.length % 256)).length = text.length % 256 := by
    rw [List.length_take]
    exact min_eq_left (Nat.mod_le _ _)
  have hlt (text : Bytes) : (text.take (text.length % 256)).length < 256 := by
    rw [hlength]
    exact Nat.mod_lt _ (by omega)
  have hdecodes := decodeUserpass_cons (hlt username) (hlt password)
  rw [hlength, hlength] at hdecodes
  simpa only [userpassPacket, List.cons_append, List.nil_append, List.append_assoc] using hdecodes

theorem take_length_mod_eq_iff
    (text : Bytes) :
    text.take (text.length % 256) = text ↔ text.length ≤ 255 := by
  rw [List.take_eq_self_iff]
  omega

theorem carries_iff
    (username password : Bytes) :
    Carries username password (userpassPacket username password) ↔
      username.length ≤ 255 ∧ password.length ≤ 255 := by
  have hdecodes : decodeUserpass (userpassPacket username password) =
      some (username, password) ↔ username.length ≤ 255 ∧ password.length ≤ 255 := by
    rw [decodeUserpass_packet, Option.some.injEq, Prod.mk.injEq, take_length_mod_eq_iff,
      take_length_mod_eq_iff]
  constructor
  · exact fun h => hdecodes.mp h.decodes
  · exact fun h => ⟨fun _ hlength => fillUserpass_eq hlength, hdecodes.mpr h⟩

theorem sendsCredentials_iff
    (inet_pton : InetPton) (sends : List SendAnswer) (aClient : Socks5Client)
    (username password : Bytes) :
    SendsCredentials username password aClient
        (socks5__send inet_pton sends
          { aClient with
            state := .socks5_send_userpass
            socks5_username := some username
            socks5_password := some password }) ↔
      username.length ≤ 255 ∧ password.length ≤ 255 := by
  rw [← carries_iff]
  constructor
  · rintro ⟨rc, aClient', hresult, ⟨packet, hqueued, hcarries⟩ | ⟨hqueued, _⟩⟩
    · obtain rfl := (Prod.mk.inj (Option.some.inj hresult)).2
      have hpacket : [userpassPacket username password] = [packet] :=
        List.append_cancel_left hqueued
      rwa [(List.cons.inj hpacket).1]
    · obtain rfl := (Prod.mk.inj (Option.some.inj hresult)).2
      have hnothing : [userpassPacket username password] = [] :=
        List.append_cancel_left (hqueued.trans (List.append_nil _).symm)
      cases hnothing
  · exact fun h => ⟨_, _, rfl, .inl ⟨_, rfl, h⟩⟩

/-- A client at the beginning of an attempt. -/
def freshClient : Socks5Client where
  state := .socks5_new
  socks5_username := none
  socks5_password := none
  serverURI := []
  in_packet := ⟨none, 0, 0⟩
  out_packet := []
  queued := []
  consumed := []
  unread := []

/-- Of a user name of 256 bytes nothing is sent. -/
theorem long_username_lost :
    ¬ SendsCredentials (List.replicate 256 97) [98] freshClient
      (socks5__send hostNames []
        { freshClient with
          state := .socks5_send_userpass
          socks5_username := some (List.replicate 256 97)
          socks5_password := some [98] }) := by
  rintro ⟨rc, aClient', hresult, ⟨packet, hqueued, hcarries⟩ | ⟨hqueued, _⟩⟩
  · obtain rfl := (Prod.mk.inj (Option.some.inj hresult)).2
    have hpacket : [userpassPacket (List.replicate 256 97) [98]] = [packet] := hqueued
    obtain rfl := (List.cons.inj hpacket).1
    have hlong := (carries_iff _ _).mp hcarries
    rw [List.length_replicate] at hlong
    omega
  · obtain rfl := (Prod.mk.inj (Option.some.inj hresult)).2
    cases hqueued

end Socks5
end PahoMqtt
