import PahoMqtt.ServerURIs

/-!
# The host, the port and the topic of an address

`MQTTProtocol_addressPort` looks for the last colon, which ends the host, and for the
first slash behind it, where the topic begins.  A colon of the topic is taken for that
of the port, and without a colon the topic stays a part of the host.
-/

namespace PahoMqtt
namespace MQTTProtocol

open Lib MQTTAsync

/-- Where `topic` points to: the first slash from the colon on, or from the start. -/
def addressTopic (uri : Bytes) : Option Nat :=
  let addr_start := (portColon uri).getD 0
  (strchr 47 (uri.drop addr_start)).map (addr_start + ·)

/-- The return value, `*port`, and `*topic` as a place in the address. -/
structure AddressParts where
  len : Nat
  port : Int
  topic : Option Nat

/-- `MQTTProtocol_addressPort` with a pointer for the topic. -/
def addressPortTopic (uri : Bytes) (default_port : Int) : Option AddressParts :=
  (addressPort uri default_port).map fun (len, port) => ⟨len, port, addressTopic uri⟩

/-! ### Addresses by their parts -/

/-- The parts of an address; a path is what follows its slash. -/
structure ServerAddress where
  host : Host
  port : Option Bytes
  path : Option Bytes

namespace ServerAddress

def portText (a : ServerAddress) : Bytes :=
  match a.port with
  | none => []
  | some digits => 58 :: digits

def pathText (a : ServerAddress) : Bytes :=
  match a.path with
  | none => []
  | some path => 47 :: path

def text (a : ServerAddress) : Bytes := a.host.text ++ a.portText ++ a.pathText

/-- The host without the closing bracket. -/
def hostPart (a : ServerAddress) : Bytes :=
  match a.host with
  | .name text => text
  | .ipv4 text => text
  | .ipv6 text => 91 :: text

def effectivePort (a : ServerAddress) (default_port : Int) : Int :=
  match a.port with
  | none => default_port
  | some digits => decimal digits

/-- Where the path begins in the text. -/
def topicPlace (a : ServerAddress) : Option Nat :=
  a.path.map fun _ => (a.host.text ++ a.portText).length

def Bracketed (a : ServerAddress) : Prop := ∃ text, a.host = .ipv6 text

/-- The characters of the parts; nothing is asked of the path, and an `int` holds the port. -/
structure Lexical (a : ServerAddress) : Prop where
  nonempty : a.host.bare ≠ []
  slash : 47 ∉ a.host.bare
  opening : 91 ∉ a.host.bare
  closing : 93 ∉ a.host.bare
  colon : 58 ∈ a.host.bare → a.Bracketed
  digits : ∀ digits, a.port = some digits → ∀ b ∈ digits, isdigit b = true
  port_le : ∀ digits, a.port = some digits → decimal digits ≤ 2147483647

/-- The result is the three parts of the address. -/
structure Split (a : ServerAddress) (default_port : Int) (parts : AddressParts) : Prop where
  len : parts.len ≤ a.text.length
  host : a.text.take parts.len = a.hostPart
  port : parts.port = a.effectivePort default_port
  topic : parts.topic = a.topicPlace

def Splits (a : ServerAddress) (default_port : Int) : Prop :=
  ∃ parts, addressPortTopic a.text default_port = some parts ∧ a.Split default_port parts

/-- No character of the path is taken for one of the host or of the port. -/
def PathApart (a : ServerAddress) : Prop :=
  ∀ path, a.path = some path →
    a.port.isSome = true ∧ 58 ∉ path ∧ (a.Bracketed → 93 ∉ path)

end ServerAddress

/-! ### The colon before the port -/

section Colon

variable {uri : Bytes} {colon_pos bracket : Nat}

theorem portColon_or
    (uri : Bytes) :
    portColon uri = none ∨ portColon uri = strrchr 58 uri := by
  rw [portColon]
  split
  · split
    · exact .inl rfl
    · rename_i hcolon _ _
      exact .inr hcolon.symm
  · exact .inr rfl

theorem portColon_of_head
    (hhead : uri.head? ≠ some 91) :
    portColon uri = strrchr 58 uri := by
  rw [portColon]
  split
  · rename_i hcolon _
    rw [if_neg (fun h => hhead h.1), hcolon]
  · rfl

theorem portColon_of_brackets
    (hhead : uri.head? = some 91)
    (hcolon : strrchr 58 uri = some colon_pos)
    (hbracket : strrchr 93 uri = some bracket) :
    portColon uri = if colon_pos < bracket then none else some colon_pos := by
  rw [portColon, hcolon, hbracket]
  simp only [hhead, true_and]

end Colon

/-! ### The end of the host -/

namespace ServerAddress

variable {a : ServerAddress}

/-- A host is plain, or its text has the closing bracket that its part lacks. -/
theorem Lexical.host_cases
    (h : a.Lexical) :
    (58 ∉ a.host.text ∧ 93 ∉ a.host.text ∧ a.host.text.head? ≠ some 91 ∧ a.host.text ≠ [] ∧
        a.hostPart = a.host.text ∧ ¬ a.Bracketed) ∨
      ∃ text, a.Bracketed ∧ a.host.text = 91 :: text ++ [93] ∧ a.hostPart = 91 :: text ∧
        93 ∉ text := by
  obtain ⟨hne, -, hopening, hclosing, hcolon, -, -⟩ := h
  obtain ⟨host, port, path⟩ := a
  cases host with
  | name text =>
      have hplain : ¬ Bracketed ⟨.name text, port, path⟩ := by
        rintro ⟨_, h⟩
        cases h
      exact .inl ⟨fun hmem => hplain (hcolon hmem), hclosing, head?_ne hopening, hne, rfl, hplain⟩
  | ipv4 text =>
      have hplain : ¬ Bracketed ⟨.ipv4 text, port, path⟩ := by
        rintro ⟨_, h⟩
        cases h
      exact .inl ⟨fun hmem => hplain (hcolon hmem), hclosing, head?_ne hopening, hne, rfl, hplain⟩
  | ipv6 text =>
      exact .inr ⟨text, ⟨text, rfl⟩, rfl, rfl, hclosing⟩

/-- The bytes that follow the host. -/
def tail (a : ServerAddress) : Bytes := a.portText ++ a.pathText

theorem text_eq
    (a : ServerAddress) :
    a.text = a.host.text ++ a.tail := by
  rw [text, tail, List.append_assoc]

theorem Lexical.colon_not_mem_digits
    (h : a.Lexical) {digits : Bytes}
    (hport : a.port = some digits) {b : UInt8}
    (hb : isdigit b = false) :
    b ∉ digits :=
  not_mem_digits (h.digits digits hport) hb

/-- Where the host is taken to end. -/
def stop (a : ServerAddress) : Nat := (portColon a.text).getD a.text.length

/-- In brackets, a colon of the host is before the last bracket. -/
theorem portColon_inside
    {text tail : Bytes}
    (hcolon : 58 ∉ tail) :
    portColon (91 :: text ++ [93] ++ tail) = none := by
  have hparts : 91 :: text ++ [93] ++ tail = 91 :: text ++ 93 :: tail := by simp
  have hlater : 58 ∉ 93 :: tail := by
    rw [List.mem_cons, not_or]
    exact ⟨by decide, hcolon⟩
  have hmem : (93 : UInt8) ∈ 93 :: tail := List.mem_cons_self
  obtain ⟨i, -, hbracket⟩ := strrchr_append_of_mem hmem (91 :: text)
  rw [hparts]
  cases hlast : strrchr 58 (91 :: text ++ 93 :: tail) with
  | none =>
      rcases portColon_or (91 :: text ++ 93 :: tail) with h | h
      · exact h
      · exact h.trans hlast
  | some colon_pos =>
      have hlt : colon_pos < (91 :: text).length := by
        rw [strrchr_append_of_not_mem hlater] at hlast
        exact strrchr_lt hlast
      rw [portColon_of_brackets rfl hlast hbracket, if_pos (by omega)]

/-- The host ends where the port or the string does. -/
theorem Lexical.stop_of_pathApart
    (h : a.Lexical)
    (hapart : a.PathApart) :
    a.stop = a.host.text.length := by
  rw [stop, text_eq, tail]
  cases hport : a.port with
  | none =>
      have hpath : a.path = none := by
        cases hpath : a.path with
        | none => rfl
        | some path =>
            have := (hapart path hpath).1
            rw [hport] at this
            cases this
      have hempty : a.portText ++ a.pathText = [] := by
        rw [portText, pathText, hport, hpath]
        rfl
      rw [hempty, List.append_nil]
      rcases h.host_cases with ⟨hcolon, -, hhead, -⟩ | ⟨text, -, htext, -⟩
      · rw [portColon_of_head hhead, strrchr_none hcolon]
        rfl
      · rw [htext, ← List.append_nil (91 :: text ++ [93]), portColon_inside (by simp)]
        rfl
  | some digits =>
      have hdigits : ∀ b, isdigit b = false → b ∉ digits := fun b hb =>
        h.colon_not_mem_digits hport hb
      have hpath : 58 ∉ a.pathText ∧ (a.Bracketed → 93 ∉ a.pathText) := by
        rw [pathText]
        cases hpath : a.path with
        | none => simp
        | some path =>
            obtain ⟨-, hcolon, hbracket⟩ := hapart path hpath
            simp only [List.mem_cons, not_or]
            exact ⟨⟨by decide, hcolon⟩, fun hb => ⟨by decide, hbracket hb⟩⟩
      have hcolon : 58 ∉ digits ++ a.pathText := by
        rw [List.mem_append, not_or]
        exact ⟨hdigits 58 (by decide), hpath.1⟩
      have hlast : strrchr 58 (a.host.text ++ (a.portText ++ a.pathText)) =
          some a.host.text.length := by
        rw [portText, hport]
        exact strrchr_append hcolon a.host.text
      rcases h.host_cases with ⟨-, -, hhead, hne, -⟩ | ⟨text, hbracketed, htext, -⟩
      · rw [portColon_of_head (by rw [List.head?_append_of_ne_nil _ hne]; exact hhead), hlast]
        rfl
      · have hlater : 93 ∉ a.portText ++ a.pathText := by
          rw [portText, hport, List.mem_append, List.mem_cons, not_or, not_or]
          exact ⟨⟨by decide, hdigits 93 (by decide)⟩, hpath.2 hbracketed⟩
        have hbracket : strrchr 93 (a.host.text ++ (a.portText ++ a.pathText)) =
            some (91 :: text).length := by
          rw [strrchr_append_of_not_mem hlater, htext, strrchr_append (by simp)]
        rw [portColon_of_brackets (by rw [htext]; rfl) hlast hbracket, if_neg]
        · rfl
        · rw [htext, List.length_append]
          omega

/-- Otherwise it is taken to end behind its end. -/
theorem Lexical.lt_stop
    (h : a.Lexical)
    (hmixed : ¬ a.PathApart) :
    a.host.text.length < a.stop := by
  rw [PathApart] at hmixed
  push Not at hmixed
  obtain ⟨path, hpath, hmixed⟩ := hmixed
  have hlonger : a.host.text.length < a.text.length := by
    rw [text, pathText, hpath]
    simp
  have hnone : portColon a.text = none → a.host.text.length < a.stop := by
    intro hnone
    rw [stop, hnone]
    exact hlonger
  have htext : a.text = a.host.text ++ a.portText ++ [47] ++ path := by
    rw [text, pathText, hpath]
    simp
  by_cases hcolon : 58 ∈ path
  · -- the last colon is in the path
    obtain ⟨i, -, hlast⟩ :=
      strrchr_append_of_mem hcolon (a.host.text ++ a.portText ++ [47])
    rw [← htext] at hlast
    rcases portColon_or a.text with hport | hport
    · exact hnone hport
    · rw [stop, hport, hlast, Option.getD_some, List.length_append, List.length_append]
      simp
      omega
  · cases hport : a.port with
    | none =>
        -- no colon ends the host
        apply hnone
        have hcolon' : 58 ∉ 47 :: path := by
          rw [List.mem_cons, not_or]
          exact ⟨by decide, hcolon⟩
        have hparts : a.text = a.host.text ++ 47 :: path := by
          rw [htext, portText, hport]
          simp
        rw [hparts]
        rcases h.host_cases with ⟨hplain, -, hhead, hne, -⟩ | ⟨text, -, hhost, -⟩
        · rw [portColon_of_head (by rw [List.head?_append_of_ne_nil _ hne]; exact hhead),
            strrchr_append_of_not_mem hcolon', strrchr_none hplain]
        · rw [hhost, portColon_inside hcolon']
    | some digits =>
        -- the last bracket is in the path
        apply hnone
        obtain ⟨hbracketed, hbracket⟩ := hmixed (by rw [hport]; rfl) hcolon
        have hlast : strrchr 58 a.text = some a.host.text.length := by
          have hlater : 58 ∉ digits ++ 47 :: path := by
            simp only [List.mem_append, List.mem_cons, not_or]
            exact ⟨h.colon_not_mem_digits hport (by decide), by decide, hcolon⟩
          rw [htext, portText, hport]
          simpa using strrchr_append hlater a.host.text
        obtain ⟨i, -, hclosing⟩ :=
          strrchr_append_of_mem hbracket (a.host.text ++ a.portText ++ [47])
        rw [← htext] at hclosing
        obtain ⟨text, -, hhost, -⟩ := (h.host_cases).resolve_left (fun hplain =>
          hplain.2.2.2.2.2 hbracketed)
        rw [portColon_of_brackets (by rw [text_eq, hhost]; rfl) hlast hclosing, if_pos]
        rw [List.length_append, List.length_append]
        simp
        omega

/-- Where the host is taken to end, the port is looked for behind it. -/
theorem Lexical.portColon_of_pathApart
    (h : a.Lexical)
    (hapart : a.PathApart) :
    portColon a.text = a.port.map fun _ => a.host.text.length := by
  have hstop := h.stop_of_pathApart hapart
  rw [stop] at hstop
  cases hport : a.port with
  | none =>
      cases hcolon : portColon a.text with
      | none => rfl
      | some colon_pos =>
          -- there is no colon behind the end
          have hpath : a.path = none := by
            cases hpath : a.path with
            | none => rfl
            | some path =>
                have := (hapart path hpath).1
                rw [hport] at this
                cases this
          have hlt : colon_pos < a.text.length := by
            rcases portColon_or a.text with h' | h'
            · rw [h'] at hcolon
              cases hcolon
            · exact strrchr_lt (h'.symm.trans hcolon)
          have hlength : a.text.length = a.host.text.length := by
            rw [text, portText, pathText, hport, hpath, List.append_nil, List.append_nil]
          rw [hcolon, Option.getD_some] at hstop
          omega
  | some digits =>
      cases hcolon : portColon a.text with
      | none =>
          rw [hcolon, Option.getD_none, text, portText, hport] at hstop
          simp at hstop
      | some colon_pos =>
          rw [hcolon, Option.getD_some] at hstop
          rw [hstop]
          rfl

theorem Lexical.slash_not_mem
    (h : a.Lexical) :
    47 ∉ a.host.text := by
  obtain ⟨-, hslash, -, -, -, -, -⟩ := h
  obtain ⟨host, port, path⟩ := a
  cases host with
  | name text => exact hslash
  | ipv4 text => exact hslash
  | ipv6 text =>
      have : 47 ∉ text := hslash
      simp [Host.text, this]

/-- What follows the host is found to be the port and the topic. -/
theorem Lexical.rest_of_pathApart
    (h : a.Lexical)
    (hapart : a.PathApart) (default_port : Int) :
    (match portColon a.text with
      | some colon_pos => atoi (a.text.drop (colon_pos + 1))
      | none => default_port) = a.effectivePort default_port ∧
      addressTopic a.text = a.topicPlace := by
  have hcolon := h.portColon_of_pathApart hapart
  rw [addressTopic, hcolon]
  cases hport : a.port with
  | none =>
      have hpath : a.path = none := by
        cases hpath : a.path with
        | none => rfl
        | some path =>
            have := (hapart path hpath).1
            rw [hport] at this
            cases this
      have htext : a.text = a.host.text := by
        rw [text, portText, pathText, hport, hpath, List.append_nil, List.append_nil]
      rw [effectivePort, topicPlace, hport, hpath, htext]
      exact ⟨rfl, by simp [strchr_none h.slash_not_mem]⟩
  | some digits =>
      have hdigits := h.digits digits hport
      have hslash : 47 ∉ a.portText := by
        rw [portText, hport, List.mem_cons, not_or]
        exact ⟨by decide, h.colon_not_mem_digits hport (by decide)⟩
      have hdrop : a.text.drop a.host.text.length = a.portText ++ a.pathText := by
        rw [text_eq, List.drop_left]
        rfl
      have hbehind : a.text.drop (a.host.text.length + 1) = digits ++ a.pathText := by
        rw [← List.drop_drop, hdrop, portText, hport]
        rfl
      simp only [Option.map_some, Option.getD_some]
      rw [hbehind, hdrop]
      constructor
      · rw [effectivePort, hport]
        refine atoi_append hdigits ?_
        rw [pathText]
        cases a.path with
        | none => simp
        | some path => simp [isdigit, isspace]
      · rw [topicPlace, pathText]
        cases a.path with
        | none =>
            rw [List.append_nil, strchr_none hslash]
            rfl
        | some path =>
            rw [strchr_append hslash, List.length_append]
            rfl

/-- The length, for where the host is taken to end. -/
theorem addressPort_eq
    (uri : Bytes) (default_port : Int) :
    addressPort uri default_port =
      let len := (portColon uri).getD uri.length
      let port := match portColon uri with
        | some colon_pos => atoi (uri.drop (colon_pos + 1))
        | none => default_port
      if len = 0 then none
      else some (if uri[len - 1]? = some 93 then len - 1 else len, port) := by
  rw [addressPort]
  cases portColon uri with
  | none =>
      dsimp only [Option.getD_none]
      split_ifs <;> rfl
  | some colon_pos =>
      dsimp only [Option.getD_some]
      split_ifs <;> rfl

theorem Lexical.hostPart_length
    (h : a.Lexical) :
    (a.hostPart.length = a.host.text.length ∧ 93 ∉ a.host.text ∧ a.host.text ≠ []) ∨
      (a.hostPart.length + 1 = a.host.text.length ∧
        a.host.text[a.host.text.length - 1]? = some 93) := by
  rcases h.host_cases with ⟨-, hclosing, -, hne, hpart, -⟩ | ⟨text, -, hhost, hpart, -⟩
  · exact .inl ⟨by rw [hpart], hclosing, hne⟩
  · refine .inr ?_
    rw [hhost, hpart]
    simp

theorem hostPart_isPrefixOf
    (a : ServerAddress) :
    a.hostPart <+: a.text := by
  rw [text_eq]
  refine List.IsPrefix.trans ?_ (List.prefix_append _ _)
  rw [hostPart]
  cases a.host with
  | name text => exact List.prefix_rfl
  | ipv4 text => exact List.prefix_rfl
  | ipv6 text => exact List.prefix_append _ _

/-- A path that is apart from the rest is split from it. -/
theorem Lexical.splits
    (h : a.Lexical)
    (hapart : a.PathApart) (default_port : Int) :
    a.Splits default_port := by
  obtain ⟨hport, htopic⟩ := h.rest_of_pathApart hapart default_port
  have hstop := h.stop_of_pathApart hapart
  have hget : a.host.text ≠ [] →
      a.text[a.host.text.length - 1]? = a.host.text[a.host.text.length - 1]? := by
    intro hne
    have hpos := List.length_pos_of_ne_nil hne
    rw [text_eq, List.getElem?_append_left (by omega)]
  have hlen : (if a.text[a.host.text.length - 1]? = some 93 then a.host.text.length - 1
      else a.host.text.length) = a.hostPart.length ∧ a.host.text.length ≠ 0 := by
    rcases h.hostPart_length with ⟨hlength, hclosing, hne⟩ | ⟨hlength, hclosing⟩
    · have hpos := List.length_pos_of_ne_nil hne
      rw [hget hne, if_neg (getElem?_ne hclosing)]
      omega
    · have hne : a.host.text ≠ [] := by
        rintro hempty
        rw [hempty] at hlength
        simp at hlength
      rw [hget hne, if_pos hclosing]
      omega
  refine ⟨⟨a.hostPart.length, a.effectivePort default_port, a.topicPlace⟩, ?_, ?_, ?_, rfl, rfl⟩
  · rw [addressPortTopic, addressPort_eq, hport, htopic]
    rw [stop] at hstop
    dsimp only
    rw [hstop, if_neg hlen.2, hlen.1]
    rfl
  · exact (hostPart_isPrefixOf a).length_le
  · exact (List.prefix_iff_eq_take.mp (hostPart_isPrefixOf a)).symm

/-- The host that is found does not reach into the path only if the path is apart. -/
theorem Lexical.pathApart
    (h : a.Lexical) {default_port : Int}
    (hsplits : a.Splits default_port) :
    a.PathApart := by
  by_contra hmixed
  have hstop := h.lt_stop hmixed
  obtain ⟨parts, hresult, hle, hhost, -, -⟩ := hsplits
  have hlen : parts.len = a.hostPart.length := by
    rw [← hhost, List.length_take]
    omega
  have hfound : parts.len = if a.text[a.stop - 1]? = some 93 then a.stop - 1 else a.stop := by
    rw [addressPortTopic, addressPort_eq] at hresult
    rw [stop] at hstop ⊢
    dsimp only at hresult
    rw [if_neg (by omega)] at hresult
    rw [← Option.some.inj hresult]
  rw [hlen] at hfound
  rcases h.hostPart_length with ⟨hlength, -, -⟩ | ⟨hlength, -⟩
  · -- what follows the host is no bracket
    have hnext : a.text[a.host.text.length]? ≠ some 93 := by
      rw [PathApart] at hmixed
      push Not at hmixed
      obtain ⟨path, hpath, -⟩ := hmixed
      rw [text_eq, List.getElem?_append_right (Nat.le_refl _), Nat.sub_self, tail, portText,
        pathText, hpath]
      cases a.port with
      | none => simp
      | some digits => simp
    by_cases hone : a.stop = a.host.text.length + 1
    · rw [hone, Nat.add_sub_cancel, if_neg hnext] at hfound
      omega
    · split_ifs at hfound <;> omega
  · split_ifs at hfound <;> omega

/--
The address is split into its parts exactly if no character of the path is taken for
one of the host or of the port.
-/
theorem splits_iff
    (h : a.Lexical) (default_port : Int) :
    a.Splits default_port ↔ a.PathApart :=
  ⟨h.pathApart, fun hapart => h.splits hapart default_port⟩

theorem splits_iff_sample :
    Splits ⟨.name [104], some [49], some [109]⟩ 80 ↔
      PathApart ⟨.name [104], some [49], some [109]⟩ :=
  splits_iff (a := ⟨.name [104], some [49], some [109]⟩)
    { nonempty := by decide
      slash := by decide
      opening := by decide
      closing := by decide
      colon := fun h => absurd h (by decide)
      digits := by
        intro digits h
        obtain rfl := Option.some.inj h
        intro b hb
        obtain rfl := List.mem_singleton.mp hb
        rfl
      port_le := by
        intro digits h
        obtain rfl := Option.some.inj h
        decide } 80

/-- A host without a port, and a path: the path is returned as a part of the host. -/
theorem not_splits_without_port :
    ∃ a : ServerAddress, a.Lexical ∧ a.text = ascii "broker/mqtt" ∧ ¬ a.Splits 80 := by
  have hlexical : Lexical ⟨.name (ascii "broker"), none, some (ascii "mqtt")⟩ :=
    { nonempty := by decide
      slash := by decide
      opening := by decide
      closing := by decide
      colon := fun h => absurd h (by decide)
      digits := fun _ h => nomatch h
      port_le := fun _ h => nomatch h }
  refine ⟨_, hlexical, by decide, ?_⟩
  rintro ⟨parts, hresult, hsplit⟩
  obtain rfl : (⟨11, 80, some 6⟩ : AddressParts) = parts := by
    have hrun : addressPortTopic (ascii "broker/mqtt") 80 = some ⟨11, 80, some 6⟩ := by
      rfl
    exact Option.some.inj (hrun.symm.trans hresult)
  exact absurd hsplit.host (by decide)

end ServerAddress

end MQTTProtocol
end PahoMqtt
