/-
# SOCKS requests (`channel_pre_dynamic` of `channels.c`)

A local program asks for a connection through a dynamic channel: SOCKS4, SOCKS4A, or SOCKS5
after a greeting.  The browser's control requests (load, unload and URL) come the same way, as
SOCKS5 requests with commands of their own, and are rejected once they have been obeyed.

`channel_pre_dynamic` is called after every read, until it makes no progress.  It guesses the
protocol from the first byte again at each call, and each decoder tests that it has seen enough.
The one exception is the URL: `set_url` looks for the space behind it in whatever memory follows
the fifth byte of the request.

`socks_cut_iff` says that the way a request is cut into reads does not matter, unless a read
ends inside such a URL.
-/
import CSBuFLO.Drain
import CSBuFLO.Polling
import CSBuFLO.Reach
import CSBuFLO.UrlMemory

namespace CSBuFLO

open Polling

variable {σ β : Type}

/-! ## The decoders -/

/-- What `c->path` spells out: an address, or a name. -/
inductive Host where
  | ipv4 (addr : List UInt8)
  | ipv6 (addr : List UInt8)
  | name (bytes : List UInt8)
  deriving DecidableEq, Repr

/-- A dynamic channel without its input, and the endpoint it belongs to. -/
structure Dynamic (σ β : Type) where
  output : List UInt8 := []
  authDone : Bool := false
  path : Option Host := none
  hostPort : ℕ := 0
  ep : Endpoint σ β

/-- The values a decoder returns: -1, 0 and 1. -/
inductive Ret where
  | reject
  | more
  | accept
  deriving DecidableEq, Repr

/-- What a decoder leaves: its value, the channel and the rest of the input.  `none` is
`fatal`. -/
abbrev Decoded (σ β : Type) : Type := Option (Ret × Dynamic σ β × List UInt8)

/-- `NI_MAXHOST`. -/
def niMaxhost : ℕ := 1025

/-- `ntohs`. -/
def ntohs (hi lo : UInt8) : ℕ := 256 * hi.toNat + lo.toNat

/-- The search for `left` NULs from index `i` on; `reject` if the peer is probably sending
garbage. -/
def findNuls : ℕ → ℕ → List UInt8 → Ret
  | _, _, [] => .more
  | left, i, b :: bs =>
    if b = 0 ∧ left = 1 then .accept
    else if 1024 < i then .reject
    else findNuls (if b = 0 then left - 1 else left) (i + 1) bs

/-- The bytes of a C string. -/
def cString (bytes : List UInt8) : List UInt8 := bytes.takeWhile (· ≠ 0)

/-- What follows a C string and its NUL. -/
def afterString (bytes : List UInt8) : List UInt8 := bytes.drop ((cString bytes).length + 1)

/-- SOCKS4A uses an invalid address `0.0.0.x`. -/
def isSocks4a (addr : List UInt8) : Bool := addr.take 3 = [0, 0, 0] && addr.getD 3 0 ≠ 0

/-- The answer to a SOCKS4 request once the host is known. -/
def replySocks4 (command : UInt8) (port : ℕ) (host : Host) (rest : List UInt8)
    (s : Dynamic σ β) : Decoded σ β :=
  let s := { s with path := some host, hostPort := port }
  if command ≠ 1 then some (.reject, s, rest)
  else some (.accept, { s with output := s.output ++ [0, 90, 0, 0, 0, 0, 0, 0] }, rest)

/-- The host name of a SOCKS4A request. -/
def replySocks4a (command : UInt8) (port : ℕ) (input : List UInt8) (s : Dynamic σ β) :
    Decoded σ β :=
  let len := (cString input).length + 1
  if input.length < len then none
  else if niMaxhost < len then some (.reject, s, input)
  else replySocks4 command port (.name (cString input)) (afterString input) s

/-- `channel_decode_socks4`. -/
def channelDecodeSocks4 (s : Dynamic σ β) (input : List UInt8) : Decoded σ β :=
  if input.length < 8 then some (.more, s, input)
  else
    let addr := (input.drop 4).take 4
    match findNuls (if isSocks4a addr then 2 else 1) 8 (input.drop 8) with
    | .more => some (.more, s, input)
    | .reject => some (.reject, s, input)
    | .accept =>
      let command := input.getD 1 0
      let port := ntohs (input.getD 2 0) (input.getD 3 0)
      let strings := input.drop 8
      if strings.length < (cString strings).length + 1 then none
      else if isSocks4a addr then
        replySocks4a command port (afterString strings) { s with path := none }
      else
        replySocks4 command port (.ipv4 addr) (afterString strings) { s with path := none }

/-- The greeting of SOCKS5: the authentication methods. -/
def socks5Greeting (s : Dynamic σ β) (input : List UInt8) : Decoded σ β :=
  let nmethods := (input.getD 1 0).toNat
  if input.length < 2 then some (.more, s, input)
  else if input.length < nmethods + 2 then some (.more, s, input)
  else if 0 ∉ (input.drop 2).take nmethods then some (.reject, s, input)
  else some (.more, { s with output := s.output ++ [5, 0], authDone := true },
    input.drop (nmethods + 2))

/-- The address of a SOCKS5 request: where it starts, its length, and the host. -/
def socks5Address (input : List UInt8) : Option (ℕ × ℕ × (List UInt8 → Host)) :=
  match input.getD 3 0 with
  | 1 => some (4, 4, .ipv4)
  | 3 => some (5, (input.getD 4 0).toNat, fun addr => .name (cString addr))
  | 4 => some (4, 16, .ipv6)
  | _ => none

/-- `CONNECT` of SOCKS5. -/
def socks5Connect (s : Dynamic σ β) (input : List UInt8) : Decoded σ β :=
  match socks5Address input with
  | none => some (.reject, s, input)
  | some (start, addrlen, host) =>
    let need := start + addrlen + 2
    if input.length < need then some (.more, s, input)
    else if input.getD 3 0 = 3 ∧ niMaxhost ≤ addrlen then
      some (.reject, { s with path := none }, input.drop need)
    else
      some (.accept, { s with
        path := some (host ((input.drop start).take addrlen))
        hostPort := ntohs (input.getD (start + addrlen) 0) (input.getD (start + addrlen + 1) 0)
        output := s.output ++ [5, 0, 0, 1, 0, 0, 0, 0, 0, 0] }, input.drop need)

section Decoders

variable (c : Codec σ β) (T : Tables)

/-- A SOCKS5 request after the greeting.  Everything but `CONNECT` is rejected, the control
requests after they have been obeyed. -/
def socks5Request (beyond : ℕ → UInt8) (s : Dynamic σ β) (input : List UInt8) : Decoded σ β :=
  if input.length < 5 then some (.more, s, input)
  else if input.getD 1 0 ≠ 1 ∨ input.getD 2 0 ≠ 0 then
    (socksControl c T (memory input beyond) s.ep).map fun ep =>
      (.reject, { s with ep := ep }, input)
  else socks5Connect s input

/-- `channel_decode_socks5`. -/
def channelDecodeSocks5 (beyond : ℕ → UInt8) (s : Dynamic σ β) (input : List UInt8) :
    Decoded σ β :=
  if s.authDone then socks5Request c T beyond s input else socks5Greeting s input

/-- `channel_pre_dynamic`, with the memory behind the buffered input. -/
def channelPreDynamic (beyond : ℕ → UInt8) (s : Dynamic σ β) (input : List UInt8) :
    Decoded σ β :=
  if input.length < 3 then some (.more, s, input)
  else if input.getD 0 0 = 4 then channelDecodeSocks4 s input
  else if input.getD 0 0 = 5 then channelDecodeSocks5 c T beyond s input
  else some (.reject, s, input)

end Decoders

/-! ## Later input -/

/-- The same result with more input behind. -/
def Decoded.append (r : Decoded σ β) (t : List UInt8) : Decoded σ β :=
  r.map fun x => (x.1, x.2.1, x.2.2 ++ t)

/-- A search that came to an end does not look at later input. -/
theorem findNuls_append {left i : ℕ} {bs : List UInt8} (h : findNuls left i bs ≠ .more)
    (t : List UInt8) : findNuls left i (bs ++ t) = findNuls left i bs := by
  induction bs generalizing left i with
  | nil => exact absurd rfl h
  | cons b bs ih =>
    rw [List.cons_append]
    unfold findNuls at h ⊢
    split
    · rfl
    · rename_i hlast
      rw [if_neg hlast] at h
      split
      · rfl
      · rename_i hi
        rw [if_neg hi] at h
        exact ih h

theorem cString_cons {b : UInt8} (hb : b ≠ 0) (bs : List UInt8) :
    cString (b :: bs) = b :: cString bs := by
  unfold cString
  rw [List.takeWhile_cons_of_pos (by simpa using hb)]

/-- A search that found its NULs. -/
theorem zero_mem_of_findNuls {i : ℕ} {bs : List UInt8} (h : findNuls 1 i bs = .accept) :
    0 ∈ bs := by
  induction bs generalizing i with
  | nil => cases h
  | cons b bs ih =>
    unfold findNuls at h
    by_cases hb : b = 0
    · exact hb ▸ List.mem_cons_self
    · rw [if_neg (fun hc => hb hc.1), if_neg hb] at h
      split at h
      · cases h
      · exact List.mem_cons_of_mem b (ih h)

theorem zero_mem_afterString_of_findNuls {i : ℕ} {bs : List UInt8}
    (h : findNuls 2 i bs = .accept) : 0 ∈ bs ∧ 0 ∈ afterString bs := by
  induction bs generalizing i with
  | nil => cases h
  | cons b bs ih =>
    unfold findNuls at h
    rw [if_neg (fun hc => absurd hc.2 (by decide))] at h
    split at h
    · cases h
    · by_cases hb : b = 0
      · rw [if_pos hb] at h
        subst hb
        exact ⟨List.mem_cons_self, zero_mem_of_findNuls h⟩
      · rw [if_neg hb] at h
        obtain ⟨hmem, hafter⟩ := ih h
        refine ⟨List.mem_cons_of_mem b hmem, ?_⟩
        unfold afterString at hafter ⊢
        rwa [cString_cons hb]

variable {l : List UInt8} {s : Dynamic σ β}

theorem cString_append (h : 0 ∈ l) (t : List UInt8) : cString (l ++ t) = cString l := by
  induction l with
  | nil => simp at h
  | cons b l ih =>
    rw [List.cons_append]
    by_cases hb : b = 0
    · subst hb
      rfl
    · rw [cString_cons hb, cString_cons hb,
        ih ((List.mem_cons.mp h).resolve_left (Ne.symm hb))]

theorem length_cString_lt (h : 0 ∈ l) : (cString l).length < l.length := by
  induction l with
  | nil => simp at h
  | cons b l ih =>
    by_cases hb : b = 0
    · subst hb
      exact Nat.succ_pos _
    · rw [cString_cons hb]
      exact Nat.succ_lt_succ (ih ((List.mem_cons.mp h).resolve_left (Ne.symm hb)))

theorem afterString_append (h : 0 ∈ l) (t : List UInt8) :
    afterString (l ++ t) = afterString l ++ t := by
  unfold afterString
  rw [cString_append h, List.drop_append_of_le_length (length_cString_lt h)]

theorem append_replySocks4 (command : UInt8) (port : ℕ) (host : Host) (rest : List UInt8)
    (s : Dynamic σ β) (t : List UInt8) :
    replySocks4 command port host (rest ++ t) s =
      (replySocks4 command port host rest s).append t := by
  unfold replySocks4
  dsimp only
  split <;> rfl

/-- The fields of a request do not depend on what follows it. -/
theorem slice_append {i n : ℕ} (h : i + n ≤ l.length) (t : List UInt8) :
    ((l ++ t).drop i).take n = (l.drop i).take n := by
  rw [List.drop_append_of_le_length (by omega),
    List.take_append_of_le_length (by rw [List.length_drop]; omega)]

theorem append_replySocks4a {command : UInt8} {port : ℕ} {input : List UInt8} (h : 0 ∈ input)
    (s : Dynamic σ β) (t : List UInt8) :
    replySocks4a command port (input ++ t) s = (replySocks4a command port input s).append t := by
  have hlt := length_cString_lt h
  have hin : ¬ input.length < (cString input).length + 1 := by omega
  have hin' : ¬ (input ++ t).length < (cString input).length + 1 := by
    rw [List.length_append]
    omega
  unfold replySocks4a
  dsimp only
  rw [cString_append h, afterString_append h, append_replySocks4, if_neg hin, if_neg hin']
  split <;> rfl

/-- A complete SOCKS4 request: the strings end within the input. -/
theorem channelDecodeSocks4_accept {input : List UInt8} (hlen : 8 ≤ input.length)
    (hfound : findNuls (if isSocks4a ((input.drop 4).take 4) then 2 else 1) 8 (input.drop 8) =
      .accept) :
    0 ∈ input.drop 8 ∧
    (isSocks4a ((input.drop 4).take 4) → 0 ∈ afterString (input.drop 8)) ∧
    channelDecodeSocks4 s input =
      if isSocks4a ((input.drop 4).take 4) then
        replySocks4a (input.getD 1 0) (ntohs (input.getD 2 0) (input.getD 3 0))
          (afterString (input.drop 8)) { s with path := none }
      else
        replySocks4 (input.getD 1 0) (ntohs (input.getD 2 0) (input.getD 3 0))
          (.ipv4 ((input.drop 4).take 4)) (afterString (input.drop 8)) { s with path := none } := by
  have hmem : 0 ∈ input.drop 8 ∧
      (isSocks4a ((input.drop 4).take 4) → 0 ∈ afterString (input.drop 8)) := by
    split at hfound
    · obtain ⟨hmem, hafter⟩ := zero_mem_afterString_of_findNuls hfound
      exact ⟨hmem, fun _ => hafter⟩
    · rename_i h4a
      exact ⟨zero_mem_of_findNuls hfound, fun h => absurd h h4a⟩
  refine ⟨hmem.1, hmem.2, ?_⟩
  have hlt := length_cString_lt hmem.1
  unfold channelDecodeSocks4
  rw [if_neg (by omega)]
  dsimp only
  rw [hfound]
  exact if_neg (by omega)

/-- **SOCKS4 decides for good.** -/
theorem channelDecodeSocks4_append {input : List UInt8}
    (h : channelDecodeSocks4 s input ≠ some (.more, s, input)) (t : List UInt8) :
    channelDecodeSocks4 s (input ++ t) = (channelDecodeSocks4 s input).append t := by
  by_cases hlen : input.length < 8
  · exact absurd (if_pos hlen) h
  · have hlen' : 8 ≤ input.length := by omega
    have haddr := slice_append (l := input) (i := 4) (n := 4) (by omega) t
    have hdrop : (input ++ t).drop 8 = input.drop 8 ++ t := List.drop_append_of_le_length hlen'
    have hget : ∀ i < 8, (input ++ t).getD i 0 = input.getD i 0 :=
      fun i hi => List.getD_append _ _ _ _ (by omega)
    cases hfound : findNuls (if isSocks4a ((input.drop 4).take 4) then 2 else 1) 8
        (input.drop 8) with
    | more =>
      refine absurd ?_ h
      unfold channelDecodeSocks4
      rw [if_neg hlen]
      dsimp only
      rw [hfound]
    | reject =>
      have happend := findNuls_append (by rw [hfound]; decide) t
      unfold channelDecodeSocks4
      rw [if_neg hlen, if_neg (by rw [List.length_append]; omega), haddr, hdrop]
      dsimp only
      rw [happend, hfound]
      rfl
    | accept =>
      have happend := findNuls_append (by rw [hfound]; decide) t
      rw [hfound] at happend
      obtain ⟨hmem, hafter, heq⟩ := channelDecodeSocks4_accept (s := s) hlen' hfound
      have hlong : 8 ≤ (input ++ t).length := by
        rw [List.length_append]
        omega
      obtain ⟨-, -, heq'⟩ := channelDecodeSocks4_accept (s := s) hlong
        (by rw [haddr, hdrop]; exact happend)
      rw [heq, heq', haddr, hdrop, hget 1 (by omega), hget 2 (by omega), hget 3 (by omega),
        afterString_append hmem]
      split
      · rename_i h4a
        exact append_replySocks4a (hafter h4a) _ t
      · exact append_replySocks4 _ _ _ _ _ t

theorem socks5Greeting_append {input : List UInt8}
    (h : socks5Greeting s input ≠ some (.more, s, input)) (t : List UInt8) :
    socks5Greeting s (input ++ t) = (socks5Greeting s input).append t := by
  unfold socks5Greeting at h ⊢
  dsimp only at h ⊢
  by_cases h2 : input.length < 2
  · rw [if_pos h2] at h
    exact absurd rfl h
  · have hget : (input ++ t).getD 1 0 = input.getD 1 0 := List.getD_append _ _ _ _ (by omega)
    rw [if_neg h2] at h ⊢
    rw [if_neg (by rw [List.length_append]; omega), hget]
    by_cases hn : input.length < (input.getD 1 0).toNat + 2
    · rw [if_pos hn] at h
      exact absurd rfl h
    · rw [if_neg hn, if_neg (by rw [List.length_append]; omega),
        slice_append (by omega), List.drop_append_of_le_length (by omega)]
      split <;> rfl

theorem socks5Address_append {input : List UInt8} (h : 5 ≤ input.length) (t : List UInt8) :
    socks5Address (input ++ t) = socks5Address input := by
  unfold socks5Address
  rw [List.getD_append _ _ _ _ (by omega), List.getD_append _ _ _ _ (by omega)]

theorem socks5Connect_append {input : List UInt8} (hlen : 5 ≤ input.length)
    (h : socks5Connect s input ≠ some (.more, s, input)) (t : List UInt8) :
    socks5Connect s (input ++ t) = (socks5Connect s input).append t := by
  unfold socks5Connect at h ⊢
  rw [socks5Address_append hlen]
  cases haddr : socks5Address input with
  | none => rfl
  | some a =>
    obtain ⟨start, addrlen, host⟩ := a
    rw [haddr] at h
    dsimp only at h ⊢
    by_cases hneed : input.length < start + addrlen + 2
    · rw [if_pos hneed] at h
      exact absurd rfl h
    · rw [if_neg hneed, if_neg (by rw [List.length_append]; omega), slice_append (by omega),
        List.getD_append _ _ _ 3 (by omega), List.getD_append _ _ _ (start + addrlen) (by omega),
        List.getD_append _ _ _ (start + addrlen + 1) (by omega),
        List.drop_append_of_le_length (by omega)]
      split <;> rfl

/-! ## URLs in the memory behind a request -/

/-- `set_url` finds the end of the URL within the input: a space, or more bytes than it takes. -/
def UrlComplete (input : List UInt8) : Prop := space ∈ input.drop 3 ∨ 258 < input.length

instance (input : List UInt8) : Decidable (UrlComplete input) :=
  inferInstanceAs (Decidable (_ ∨ _))

/-! ## The request -/

section Requests

variable (c : Codec σ β) (T : Tables)

variable {e : Endpoint σ β} {beyond : ℕ → UInt8} {rest : List UInt8} {s' : Dynamic σ β}

/-- A control request depends on its memory only through the command and the URL. -/
theorem socksControl_congr {p q : ℕ → UInt8} (hcommand : p 1 = q 1)
    (hurl : q 1 = 6 → e.g.stmode = .normal → setUrl p 3 = setUrl q 3) :
    socksControl c T p e = socksControl c T q e := by
  unfold socksControl
  rw [hcommand]
  by_cases h6 : q 1 = 6 ∧ e.g.stmode = .normal
  · unfold startClientPage
    rw [hurl h6.1 h6.2]
  · split
    · rfl
    · split
      · rfl
      · split
        · rename_i h6'
          rw [if_neg fun hmode => h6 ⟨h6', hmode⟩, if_neg fun hmode => h6 ⟨h6', hmode⟩]
        · rfl

/-- The call at which a URL request is obeyed. -/
structure UrlCall (s : Dynamic σ β) (input : List UInt8) : Prop where
  authDone : s.authDone = true
  length : 5 ≤ input.length
  version : input.getD 0 0 = 5
  command : input.getD 1 0 = 6
  mode : s.ep.g.stmode = .normal

theorem socks5Request_append {input : List UInt8}
    (h : socks5Request c T beyond s input ≠ some (.more, s, input)) (t : List UInt8)
    (beyond' : ℕ → UInt8)
    (hurl : 5 ≤ input.length → input.getD 1 0 = 6 → s.ep.g.stmode = .normal → UrlComplete input) :
    socks5Request c T beyond' s (input ++ t) = (socks5Request c T beyond s input).append t := by
  unfold socks5Request at h ⊢
  by_cases hlen : input.length < 5
  · rw [if_pos hlen] at h
    exact absurd rfl h
  · rw [if_neg hlen] at h ⊢
    rw [if_neg (by rw [List.length_append]; omega), List.getD_append _ _ _ 1 (by omega),
      List.getD_append _ _ _ 2 (by omega)]
    by_cases hconnect : input.getD 1 0 ≠ 1 ∨ input.getD 2 0 ≠ 0
    · have hcommand : memory (input ++ t) beyond' 1 = memory input beyond 1 := by
        rw [memory_of_lt (by rw [List.length_append]; omega), memory_of_lt (by omega),
          List.getD_append _ _ _ 1 (by omega)]
      rw [if_pos hconnect, if_pos hconnect, socksControl_congr c T hcommand fun h6 hmode => ?_]
      · cases socksControl c T (memory input beyond) s.ep <;> rfl
      · rw [memory_of_lt (by omega)] at h6
        exact setUrl_append (hurl (by omega) h6 hmode) _ _ t
    · rw [if_neg hconnect] at h ⊢
      rw [if_neg hconnect]
      exact socks5Connect_append (by omega) h t

/-- **A call decides for good**, unless it obeys a URL request before its end. -/
theorem channelPreDynamic_append {input : List UInt8}
    (h : channelPreDynamic c T beyond s input ≠ some (.more, s, input)) (t : List UInt8)
    (beyond' : ℕ → UInt8) (hurl : UrlCall s input → UrlComplete input) :
    channelPreDynamic c T beyond' s (input ++ t) =
      (channelPreDynamic c T beyond s input).append t := by
  unfold channelPreDynamic at h ⊢
  by_cases hlen : input.length < 3
  · rw [if_pos hlen] at h
    exact absurd rfl h
  · rw [if_neg hlen] at h ⊢
    rw [if_neg (by rw [List.length_append]; omega), List.getD_append _ _ _ 0 (by omega)]
    by_cases h4 : input.getD 0 0 = 4
    · rw [if_pos h4] at h ⊢
      rw [if_pos h4]
      exact channelDecodeSocks4_append h t
    · rw [if_neg h4] at h ⊢
      rw [if_neg h4]
      by_cases h5 : input.getD 0 0 = 5
      · rw [if_pos h5] at h ⊢
        rw [if_pos h5]
        unfold channelDecodeSocks5 at h ⊢
        by_cases hauth : s.authDone = true
        · rw [if_pos hauth] at h ⊢
          rw [if_pos hauth]
          exact socks5Request_append c T h t beyond' fun hlen h6 hmode =>
            hurl ⟨hauth, hlen, h5, h6, hmode⟩
        · rw [if_neg hauth] at h ⊢
          rw [if_neg hauth]
          exact socks5Greeting_append h t
      · rw [if_neg h5, if_neg h5]
        rfl

/-- Whether a call waits for more does not depend on the memory behind the input. -/
theorem channelPreDynamic_more {input : List UInt8}
    (h : channelPreDynamic c T beyond s input = some (.more, s', rest)) (beyond' : ℕ → UInt8) :
    channelPreDynamic c T beyond' s input = some (.more, s', rest) := by
  rw [← h]
  unfold channelPreDynamic channelDecodeSocks5 socks5Request at h ⊢
  split
  · rfl
  · rename_i hlen
    rw [if_neg hlen] at h
    split
    · rfl
    · rename_i h4
      rw [if_neg h4] at h
      split
      · rename_i h5
        rw [if_pos h5] at h
        split
        · rename_i hauth
          rw [if_pos hauth] at h
          split
          · rfl
          · rename_i hlen5
            rw [if_neg hlen5] at h
            split
            · rename_i hcontrol
              rw [if_pos hcontrol] at h
              obtain ⟨ep, -, hep⟩ := Option.map_eq_some_iff.mp h
              cases hep
            · rfl
        · rfl
      · rfl

/-! ## The channel as a poller -/

/-- What becomes of a dynamic channel. -/
inductive Fate (σ β : Type) where
  /-- The process called `fatal`. -/
  | exited
  /-- The channel is marked dead. -/
  | dead (s : Dynamic σ β)
  /-- The channel is opened to its host. -/
  | opening (s : Dynamic σ β)

/-- What a call means for the channel.  It makes progress if it takes input. -/
def callOf (input : List UInt8) : Decoded σ β → Call (Dynamic σ β) UInt8 (Fate σ β)
  | none => .stop .exited input
  | some (.reject, s, rest) => .stop (.dead s) rest
  | some (.accept, s, rest) => .stop (.opening s) rest
  | some (.more, s, rest) => if rest.length < input.length then .go s rest else .more

theorem callOf_more (input : List UInt8) (s : Dynamic σ β) (rest : List UInt8) :
    callOf input (some (.more, s, rest)) =
      if rest.length < input.length then .go s rest else .more := rfl

theorem callOf_eq_more {input : List UInt8} {r : Decoded σ β} (h : callOf input r = .more) :
    ∃ s rest, r = some (.more, s, rest) ∧ ¬ rest.length < input.length := by
  obtain _ | ⟨_ | _ | _, s, rest⟩ := r
  · cases h
  · cases h
  · refine ⟨s, rest, rfl, fun hlt => ?_⟩
    rw [callOf_more, if_pos hlt] at h
    cases h
  · cases h

theorem callOf_eq_go {input : List UInt8} {r : Decoded σ β} (h : callOf input r = .go s rest) :
    r = some (.more, s, rest) ∧ rest.length < input.length := by
  obtain _ | ⟨_ | _ | _, s', rest'⟩ := r
  · cases h
  · cases h
  · rw [callOf_more] at h
    split at h
    · rename_i hlt
      obtain ⟨rfl, rfl⟩ := Call.go.inj h
      exact ⟨rfl, hlt⟩
    · cases h
  · cases h

theorem callOf_append {input : List UInt8} {r : Decoded σ β} (h : callOf input r ≠ .more)
    (t : List UInt8) : callOf (input ++ t) (r.append t) = (callOf input r).append t := by
  obtain _ | ⟨_ | _ | _, s, rest⟩ := r
  · rfl
  · rfl
  · rw [callOf_more] at h
    split at h
    · rename_i hlt
      rw [Decoded.append, Option.map_some, callOf_more, callOf_more, if_pos hlt,
        if_pos (by simpa using hlt)]
      rfl
    · exact absurd rfl h
  · rfl

/-- A dynamic channel, called again after every read.  Its environment is the memory behind the
buffered input. -/
def dynamicPoller : Poller (ℕ → UInt8) (Dynamic σ β) UInt8 (Fate σ β) where
  call beyond s input := callOf input (channelPreDynamic c T beyond s input)
  go_lt h := (callOf_eq_go h).2
  call_more beyond' h := by
    obtain ⟨s', rest, hmore, hlt⟩ := callOf_eq_more h
    rw [channelPreDynamic_more c T hmore beyond']
    exact if_neg hlt

theorem stable_of_urlComplete {input : List UInt8} (hurl : UrlCall s input → UrlComplete input) :
    (dynamicPoller c T).Stable s input := by
  intro beyond beyond' t h
  have hdecided : channelPreDynamic c T beyond s input ≠ some (.more, s, input) := by
    intro hmore
    refine h ?_
    change callOf input (channelPreDynamic c T beyond s input) = .more
    rw [hmore]
    exact if_neg (lt_irrefl _)
  change callOf (input ++ t) (channelPreDynamic c T beyond' s (input ++ t)) = _
  rw [channelPreDynamic_append c T hdecided t beyond' hurl]
  exact callOf_append h t

/-! ## Where the channel can be -/

/-- A SOCKS5 greeting that is accepted. -/
structure Greeting (g : List UInt8) : Prop where
  version : g.getD 0 0 = 5
  length : g.length = (g.getD 1 0).toNat + 2
  noAuth : 0 ∈ g.drop 2

/-- The channel after the greeting. -/
def Dynamic.greeted (s : Dynamic σ β) : Dynamic σ β :=
  { s with output := s.output ++ [5, 0], authDone := true }

/-- SOCKS4 takes no input before it decides. -/
theorem channelDecodeSocks4_more {input : List UInt8}
    (h : channelDecodeSocks4 s input = some (.more, s', rest)) : rest = input := by
  have hreply : ∀ {command port host r s}, replySocks4 (σ := σ) (β := β) command port host r s ≠
      some (.more, s', rest) := by
    intro command port host r s h
    unfold replySocks4 at h
    dsimp only at h
    split at h <;> cases h
  unfold channelDecodeSocks4 at h
  split at h
  · cases h
    rfl
  · dsimp only at h
    split at h
    · cases h
      rfl
    · cases h
    · split at h
      · cases h
      · split at h
        · unfold replySocks4a at h
          dsimp only at h
          split at h
          · cases h
          · split at h
            · cases h
            · exact absurd h hreply
        · exact absurd h hreply

theorem socks5Connect_more {input : List UInt8}
    (h : socks5Connect s input = some (.more, s', rest)) : rest = input := by
  unfold socks5Connect at h
  split at h
  · cases h
  · dsimp only at h
    split at h
    · cases h
      rfl
    · split at h <;> cases h

theorem socks5Request_more {input : List UInt8}
    (h : socks5Request c T beyond s input = some (.more, s', rest)) : rest = input := by
  unfold socks5Request at h
  split at h
  · cases h
    rfl
  · split at h
    · obtain ⟨ep, -, hep⟩ := Option.map_eq_some_iff.mp h
      cases hep
    · exact socks5Connect_more h

theorem socks5Greeting_more {input : List UInt8} (hversion : input.getD 0 0 = 5)
    (h : socks5Greeting s input = some (.more, s', rest)) :
    rest = input ∨ (s' = s.greeted ∧ ∃ g, Greeting g ∧ input = g ++ rest) := by
  unfold socks5Greeting at h
  dsimp only at h
  split at h
  · cases h
    exact Or.inl rfl
  · split at h
    · cases h
      exact Or.inl rfl
    · split at h
      · cases h
      · rename_i hlen hmethods hnoAuth
        cases h
        have hget : ∀ i < (input.getD 1 0).toNat + 2,
            (input.take ((input.getD 1 0).toNat + 2)).getD i 0 = input.getD i 0 := by
          intro i hi
          rw [List.getD_eq_getElem?_getD, List.getElem?_take_of_lt hi, List.getD_eq_getElem?_getD]
        refine Or.inr ⟨rfl, input.take ((input.getD 1 0).toNat + 2), ⟨?_, ?_, ?_⟩,
          (List.take_append_drop _ _).symm⟩
        · rw [hget 0 (by omega), hversion]
        · rw [hget 1 (by omega), List.length_take]
          omega
        · rw [List.drop_take, Nat.add_sub_cancel]
          exact not_not.mp hnoAuth

/-- **Progress without a decision** is the greeting. -/
theorem call_eq_go {input : List UInt8}
    (h : (dynamicPoller c T).call beyond s input = .go s' rest) :
    s.authDone = false ∧ s' = s.greeted ∧ ∃ g, Greeting g ∧ input = g ++ rest := by
  obtain ⟨hmore, hlt⟩ := callOf_eq_go h
  have hne : rest ≠ input := fun heq => lt_irrefl _ (heq ▸ hlt)
  unfold channelPreDynamic channelDecodeSocks5 at hmore
  split at hmore
  · cases hmore
    exact absurd rfl hne
  · split at hmore
    · exact absurd (channelDecodeSocks4_more hmore) hne
    · split at hmore
      · rename_i hversion
        split at hmore
        · exact absurd (socks5Request_more c T hmore) hne
        · rename_i hauth
          exact ⟨Bool.eq_false_iff.mpr hauth, (socks5Greeting_more hversion hmore).resolve_left hne⟩
      · cases hmore

/-- The channel has seen the greeting, or nothing of its input has been taken. -/
theorem at_cases {input : List UInt8} (h : (dynamicPoller c T).At { ep := e } l s input) :
    (s = { ep := e } ∧ input = l) ∨
      (s = Dynamic.greeted { ep := e } ∧ ∃ g, Greeting g ∧ l = g ++ input) := by
  induction h with
  | start => exact Or.inl ⟨rfl, rfl⟩
  | read t _ ih =>
    rcases ih with ⟨rfl, rfl⟩ | ⟨rfl, g, hg, rfl⟩
    · exact Or.inl ⟨rfl, rfl⟩
    · exact Or.inr ⟨rfl, g, hg, List.append_assoc _ _ _⟩
  | go _ hcall ih =>
    obtain ⟨hauth, rfl, g, hg, hinput⟩ := call_eq_go c T hcall
    rcases ih with ⟨rfl, rfl⟩ | ⟨rfl, -⟩
    · exact Or.inr ⟨rfl, g, hg, hinput⟩
    · cases hauth

/-! ## The cuts -/

/-- The length of the greeting the input begins with. -/
def greetingLength (l : List UInt8) : ℕ := (l.getD 1 0).toNat + 2

/-- Behind a greeting, a URL request has been read up to its fifth byte, but its URL is not
complete. -/
def UrlCut (l : List UInt8) : Prop :=
  let request := l.drop (greetingLength l)
  Greeting (l.take (greetingLength l)) ∧ 5 ≤ request.length ∧ request.getD 0 0 = 5 ∧
    request.getD 1 0 = 6 ∧ ¬ UrlComplete request

instance (g : List UInt8) : Decidable (Greeting g) :=
  decidable_of_iff (g.getD 0 0 = 5 ∧ g.length = (g.getD 1 0).toNat + 2 ∧ 0 ∈ g.drop 2)
    ⟨fun h => ⟨h.1, h.2.1, h.2.2⟩, fun h => ⟨h.version, h.length, h.noAuth⟩⟩

instance (l : List UInt8) : Decidable (UrlCut l) := inferInstanceAs (Decidable (_ ∧ _ ∧ _ ∧ _ ∧ _))

theorem greetingLength_append {g : List UInt8} (hg : Greeting g) (request : List UInt8) :
    greetingLength (g ++ request) = g.length := by
  rw [greetingLength, List.getD_append _ _ _ _ (by have := hg.length; omega), hg.length]

theorem urlCut_append {g : List UInt8} (hg : Greeting g) {request : List UInt8}
    (hlen : 5 ≤ request.length) (hversion : request.getD 0 0 = 5)
    (hcommand : request.getD 1 0 = 6) (hincomplete : ¬ UrlComplete request) :
    UrlCut (g ++ request) := by
  unfold UrlCut
  rw [greetingLength_append hg, List.drop_left, List.take_left]
  exact ⟨hg, hlen, hversion, hcommand, hincomplete⟩

/-- A new dynamic channel that gets its input in these reads. -/
def decodeReads (e : Endpoint σ β) (reads : List (Read (ℕ → UInt8) UInt8)) :
    Phase (Dynamic σ β) UInt8 (Fate σ β) :=
  (dynamicPoller c T).run { ep := e } reads

theorem call_start (e : Endpoint σ β) (beyond : ℕ → UInt8) :
    (dynamicPoller c T).call beyond { ep := e } [] = .more := rfl

/-- Reads that do not end inside a URL end at stable positions. -/
theorem stable_of_not_urlCut (h : e.g.stmode = .normal → ¬ UrlCut l) {input : List UInt8}
    (hat : (dynamicPoller c T).At { ep := e } l s input) : (dynamicPoller c T).Stable s input := by
  refine stable_of_urlComplete c T fun hcall => ?_
  rcases at_cases c T hat with ⟨rfl, -⟩ | ⟨rfl, g, hg, hl⟩
  · cases hcall.authDone
  · by_contra hincomplete
    refine h hcall.mode ?_
    rw [hl]
    exact urlCut_append hg hcall.length hcall.version hcall.command hincomplete

/-- The first call after a greeting. -/
theorem call_greeting (beyond : ℕ → UInt8) (hs : s.authDone = false) {g : List UInt8}
    (hg : Greeting g) (rest : List UInt8) :
    (dynamicPoller c T).call beyond s (g ++ rest) = .go s.greeted rest := by
  have hlen := hg.length
  have hmethods : 2 < g.length := by
    have := List.length_pos_of_mem hg.noAuth
    rw [List.length_drop] at this
    omega
  have hdrop : (g ++ rest).drop ((g.getD 1 0).toNat + 2) = rest := by
    rw [← hlen, List.drop_left]
  have hfound : 0 ∈ ((g ++ rest).drop 2).take (g.getD 1 0).toNat := by
    rw [slice_append (by omega), List.take_of_length_le (by rw [List.length_drop]; omega)]
    exact hg.noAuth
  have hpre : channelPreDynamic c T beyond s (g ++ rest) = some (.more, s.greeted, rest) := by
    unfold channelPreDynamic channelDecodeSocks5 socks5Greeting
    dsimp only
    rw [List.getD_append _ _ _ 0 (by omega), List.getD_append _ _ _ 1 (by omega), hg.version, hs,
      List.length_append, if_neg (by omega), if_neg (by decide), if_pos rfl,
      if_neg Bool.false_ne_true, if_neg (by omega), if_neg (by omega),
      if_neg (not_not.mpr hfound), hdrop]
    rfl
  change callOf _ (channelPreDynamic c T beyond s (g ++ rest)) = _
  rw [hpre, callOf_more, if_pos (by rw [List.length_append]; omega)]

/-- A URL request takes its URL from the memory at the time of the call. -/
theorem call_url (beyond : ℕ → UInt8) {input : List UInt8} (h : UrlCall s input)
    (hroom : c.Room 1 s.ep.pkt.snd) :
    ∃ ep, (dynamicPoller c T).call beyond s input = .stop (.dead { s with ep := ep }) input ∧
      ep.g.url = setUrl (memory input beyond) 3 := by
  have hlen := h.length
  have hcommand : memory input beyond 1 = 6 := by rw [memory_of_lt (by omega), h.command]
  obtain ⟨ep, hep⟩ : ∃ ep, socksControl c T (memory input beyond) s.ep = some ep := by
    obtain ⟨⟨bs, t⟩, hsend, -⟩ := hroom (urlFill (setUrl (memory input beyond) 3)) 0
      (urlPayload (setUrl (memory input beyond) 3)
        (c.arc4random s.ep.pkt.snd (urlFill (setUrl (memory input beyond) 3))).1)
    unfold socksControl startClientPage packetSendUrl packetSend Endpoint.withPkt
    dsimp only
    rw [hcommand, if_neg (by decide), if_neg (by decide), if_pos rfl, if_pos h.mode, hsend]
    exact ⟨_, rfl⟩
  refine ⟨ep, ?_, ?_⟩
  · change callOf _ (channelPreDynamic c T beyond s input) = _
    unfold channelPreDynamic channelDecodeSocks5 socks5Request
    rw [h.version, h.authDone, h.command, if_neg (by omega), if_neg (by decide), if_pos rfl,
      if_pos rfl, if_neg (by omega), if_pos (Or.inl (by decide)), hep]
    rfl
  · have hctl := congrArg Ctl.url (ctl_socksControl hep)
    unfold Ctl.socks at hctl
    rw [hcommand, if_neg (by decide), if_neg (by decide), if_pos ⟨rfl, h.mode⟩] at hctl
    exact hctl

/-- The reads of some pieces, all with the same memory behind them. -/
def readAll (beyond : ℕ → UInt8) (pieces : List (List UInt8)) : List (Read (ℕ → UInt8) UInt8) :=
  pieces.map fun piece => ⟨piece, beyond⟩

theorem input_readAll (beyond : ℕ → UInt8) (pieces : List (List UInt8)) :
    input (readAll beyond pieces) = pieces.flatten := by
  simp [input, readAll, Function.comp_def]

/-- After the first read that ends inside a URL, the URL is what the memory makes of it. -/
theorem decodeReads_urlCut (hroom : c.Room 1 e.pkt.snd) (hmode : e.g.stmode = .normal)
    {before after : List (List UInt8)} {piece g request : List UInt8} (hg : Greeting g)
    (heq : (before ++ [piece]).flatten = g ++ request) (hlen : 5 ≤ request.length)
    (hversion : request.getD 0 0 = 5) (hcommand : request.getD 1 0 = 6)
    (hbefore : ∀ pre, pre <+: before → ¬ UrlCut pre.flatten) (beyond : ℕ → UInt8) :
    ∃ s rest, decodeReads c T e (readAll beyond (before ++ [piece] ++ after)) =
      .stopped (.dead s) rest ∧ s.ep.g.url = setUrl (memory request beyond) 3 := by
  have hfirst : (dynamicPoller c T).run { ep := e } (readAll beyond (before ++ [piece])) =
      (dynamicPoller c T).settle beyond { ep := e } (g ++ request) := by
    rw [← heq, ← input_readAll beyond]
    unfold readAll
    rw [List.map_append]
    refine Poller.run_concat_eq_settle _ _ fun pre hpre s b hat =>
      stable_of_not_urlCut c T (fun _ => ?_) hat
    have hpieces := hpre.map Read.bytes
    rw [List.map_map, Function.comp_def, List.map_id'] at hpieces
    exact hbefore _ hpieces
  have hready : UrlCall (Dynamic.greeted { ep := e }) request :=
    ⟨rfl, hlen, hversion, hcommand, hmode⟩
  obtain ⟨ep, hcall, hurl⟩ := call_url c T beyond hready hroom
  rw [Poller.settle_go (call_greeting c T beyond rfl hg request),
    Poller.settle_stop hcall] at hfirst
  refine ⟨{ Dynamic.greeted { ep := e } with ep := ep }, request ++ input (readAll beyond after),
    ?_, hurl⟩
  unfold decodeReads
  rw [readAll, List.map_append, Poller.run, List.foldl_append, ← Poller.run, ← readAll, ← readAll,
    hfirst]
  exact Poller.foldl_feed_stopped _ _ _

/-- All ways of reading some pieces, with any memory behind the input at each read, end as one
read of the whole stream does. -/
def SameDecoding (e : Endpoint σ β) (pieces : List (List UInt8)) : Prop :=
  ∀ reads, reads.map Read.bytes = pieces → ∀ beyond,
    decodeReads c T e reads = decodeReads c T e [⟨pieces.flatten, beyond⟩]

/-- **SOCKS decoding does not depend on the cuts**, and not on the memory behind the input
either, if no read ends inside the URL of a URL request in normal mode; and only then, for a
client that can still send a packet under its keys. -/
theorem socks_cut_iff (e : Endpoint σ β) (pieces : List (List UInt8)) :
    ((e.g.stmode = .normal → ∀ pre, pre <+: pieces → ¬ UrlCut pre.flatten) →
      SameDecoding c T e pieces) ∧
    (c.Room 1 e.pkt.snd → SameDecoding c T e pieces →
      e.g.stmode = .normal → ∀ pre, pre <+: pieces → ¬ UrlCut pre.flatten) := by
  constructor
  · intro hcuts reads hreads beyond
    subst hreads
    have hwhole : decodeReads c T e [⟨(reads.map Read.bytes).flatten, beyond⟩] =
        (dynamicPoller c T).settle beyond { ep := e } (input reads) := rfl
    rw [hwhole]
    refine Poller.run_eq_settle (call_start c T e) reads (fun pre hpre s b hat => ?_) beyond
    exact stable_of_not_urlCut c T (fun hmode => hcuts hmode _ (hpre.map Read.bytes)) hat
  · -- the shortest prefix that ends inside a URL would leave two different URLs
    intro hroom hsame hmode pre
    induction hn : pre.length using Nat.strong_induction_on generalizing pre with
    | _ n ih =>
      rintro ⟨after, rfl⟩ ⟨hg, hlen, hversion, hcommand, hincomplete⟩
      cases pre using List.reverseRecOn with
      | nil => simp at hlen
      | append_singleton before piece =>
        have hbefore : ∀ pre, pre <+: before → ¬ UrlCut pre.flatten := by
          intro pre hpre
          refine ih pre.length ?_ pre rfl ?_
          · have := hpre.length_le
            rw [List.length_append, List.length_singleton] at hn
            omega
          · exact hpre.trans ((List.prefix_append _ _).trans (List.prefix_append _ _))
        have hurl : ∀ beyond, ∃ s rest, decodeReads c T e
            (readAll beyond (before ++ [piece] ++ after)) = .stopped (.dead s) rest ∧ _ :=
          decodeReads_urlCut c T hroom hmode hg (List.take_append_drop _ _).symm hlen hversion
            hcommand hbefore
        have hends : ¬ UrlEnds 3 _ := hincomplete
        obtain ⟨beyond, beyond', hne⟩ := exists_setUrl_ne hends
        obtain ⟨s, rest, hs, hsurl⟩ := hurl beyond
        obtain ⟨s', rest', hs', hsurl'⟩ := hurl beyond'
        have hall : ∀ beyond, decodeReads c T e (readAll beyond (before ++ [piece] ++ after)) =
            decodeReads c T e [⟨(before ++ [piece] ++ after).flatten, fun _ => 0⟩] :=
          fun beyond => hsame _ (by simp [readAll, Function.comp_def]) _
        rw [hall] at hs hs'
        obtain ⟨hfate, -⟩ := Phase.stopped.inj (hs.symm.trans hs')
        rw [Fate.dead.inj hfate, hsurl'] at hsurl
        exact hne hsurl

end Requests

/-- A greeting, and a URL request that comes in one piece: it is decoded as in one read.  If the
URL is cut, it is not. -/
theorem socks_cut_wholeUrl :
    decodeReads plainCodec noTables plainEndpoint
        [⟨[5, 1, 0], fun _ => 0⟩, ⟨[5, 6, 0, 97, 98, space], fun _ => 1⟩] =
      decodeReads plainCodec noTables plainEndpoint
        [⟨[5, 1, 0, 5, 6, 0, 97, 98, space], fun _ => 2⟩] ∧
    plainCodec.Room 1 plainEndpoint.pkt.snd ∧
    ¬ SameDecoding plainCodec noTables plainEndpoint [[5, 1, 0, 5, 6, 0, 97, 98], [99, space]] := by
  have hroom : plainCodec.Room 1 plainEndpoint.pkt.snd := room_packetCodec _ (by decide)
  refine ⟨?_, hroom, ?_⟩
  · have hinits : ∀ pre ∈ [[5, 1, 0], [5, 6, 0, 97, 98, space]].inits, ¬ UrlCut pre.flatten := by
      decide
    refine (socks_cut_iff plainCodec noTables plainEndpoint
      [[5, 1, 0], [5, 6, 0, 97, 98, space]]).1 (fun _ pre hpre => ?_) _ rfl _
    exact hinits pre ((List.mem_inits _ _).mpr hpre)
  · intro hsame
    have hcut : UrlCut [[5, 1, 0, 5, 6, 0, 97, 98]].flatten := by decide
    exact (socks_cut_iff plainCodec noTables plainEndpoint _).2 hroom hsame rfl _
      (List.prefix_append [[5, 1, 0, 5, 6, 0, 97, 98]] [[99, space]]) hcut

/-- The URL a channel has left in its endpoint. -/
def phaseUrl : Phase (Dynamic σ β) UInt8 (Fate σ β) → List UInt8
  | .stopped (.dead s) _ => s.ep.g.url
  | _ => []

/-- **A URL that is read in two pieces.**  In one read the page is `abc`; if a read ends
after its second byte, with zeros in the memory behind it, the page is `www.google.com`. -/
theorem socks_url_cut :
    phaseUrl (decodeReads plainCodec noTables plainEndpoint
      [⟨[5, 1, 0, 5, 6, 0, 97, 98, 99, space], fun _ => 0⟩]) = [97, 98, 99, space] ∧
    phaseUrl (decodeReads plainCodec noTables plainEndpoint
      [⟨[5, 1, 0, 5, 6, 0, 97, 98], fun _ => 0⟩, ⟨[99, space], fun _ => 0⟩]) = fallbackUrl := by
  decide +kernel

end CSBuFLO
