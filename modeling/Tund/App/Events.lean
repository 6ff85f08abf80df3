import Tund.Lib.Json
import Tund.Process

/-!
# JSON events (`app/events.c`)

The lines that a server prints for the GUI when a peer joins or leaves.  The name of a
peer is whatever the peer has sent; `event_json_string` escapes it.  `reads_escaped` says
that the JSON grammar reads the escaped text as the original bytes, and `decode_body`
that the whole line is an object of these strings.
-/

namespace Tund

open Text

/-! ### Texts of addresses -/

/-- `ntohs` -/
def ntohs (x : UInt16) : ℕ := Bytes.ofBe (Bytes.le 2 x.toNat)

/-- `ip_to_str_buf`: the dotted form of the four bytes in memory. -/
def ipToStrBuf (ip : UInt32) : Bytes :=
  let octet := fun i => numeral ((memOfU32 ip).getD i 0).toNat
  octet 0 ++ 46 :: (octet 1 ++ 46 :: (octet 2 ++ 46 :: octet 3))

/-- `INET_ADDRSTRLEN` -/
def tundIpStrLen : ℕ := 16

/-- `endpoint_text` of `app_event_peer_join`. -/
def endpointText (endpoint : SockAddr) : Bytes :=
  (ipToStrBuf endpoint.sinAddr ++ 58 :: numeral (ntohs endpoint.sinPort)).take (tundIpStrLen + 8 - 1)

/-! ### Lines -/

/-- A hexadecimal digit of `%x`. -/
def hexLower (d : ℕ) : UInt8 := if d < 10 then UInt8.ofNat (48 + d) else UInt8.ofNat (87 + d)

/-- One turn of the loop of `event_json_string`. -/
def eventJsonChar (c : UInt8) : Bytes :=
  if c = 92 then [92, 92]
  else if c = 34 then [92, 34]
  else if c = 8 then [92, 98]
  else if c = 12 then [92, 102]
  else if c = 10 then [92, 110]
  else if c = 13 then [92, 114]
  else if c = 9 then [92, 116]
  else if c < 0x20 then [92, 117, 48, 48, hexLower (c.toNat / 16), hexLower (c.toNat % 16)]
  else [c]

/-- `event_json_string` -/
def eventJsonString (value : Bytes) : Bytes :=
  34 :: (Bytes.cstr value).flatMap eventJsonChar ++ [34]

/-- What `app_event_peer_join` prints. -/
def appEventPeerJoin (name : Bytes) (virtIp : UInt32) (endpoint : SockAddr) : Bytes :=
  ascii "\x7b\"event\":\"peer_join\",\"name\":" ++ eventJsonString name ++
    ascii ",\"virtual_ip\":" ++ eventJsonString (ipToStrBuf virtIp) ++
    ascii ",\"endpoint\":" ++ eventJsonString (endpointText endpoint) ++ ascii "\x7d\n"

/-- What `app_event_peer_leave` prints. -/
def appEventPeerLeave (virtIp : UInt32) (reason : Bytes) : Bytes :=
  ascii "\x7b\"event\":\"peer_leave\",\"virtual_ip\":" ++ eventJsonString (ipToStrBuf virtIp) ++
    ascii ",\"reason\":" ++ eventJsonString reason ++ ascii "\x7d\n"

/-- The text of a reason. -/
def LeaveReason.text : LeaveReason → Bytes
  | .disconnect => ascii "disconnect"
  | .timeout => ascii "timeout"

/-- The line of an event. -/
def Event.line : Event → Bytes
  | .peerJoin name virtIp endpoint => appEventPeerJoin name virtIp endpoint
  | .peerLeave virtIp reason => appEventPeerLeave virtIp reason.text

/-! ### Strings are read back -/

/-- The escape of a control byte names it. -/
theorem hex4_hexLower {c : UInt8} (hc : c < 0x20) :
    Json.hex4 48 48 (hexLower (c.toNat / 16)) (hexLower (c.toNat % 16)) =
      some (UInt16.ofNat c.toNat) := by
  have hall : ∀ n < 32, Json.hex4 48 48 (hexLower (n / 16)) (hexLower (n % 16)) =
      some (UInt16.ofNat n) := by decide
  exact hall c.toNat hc

theorem reads_eventJsonChar (c : UInt8) {input s : Bytes} (h : Json.Reads input s) :
    Json.Reads (eventJsonChar c ++ input) (c :: s) := by
  unfold eventJsonChar
  split_ifs with h92 h34 h8 h12 h10 h13 h9 hlow
  · rw [h92]; exact h.letter rfl
  · rw [h34]; exact h.letter rfl
  · rw [h8]; exact h.letter rfl
  · rw [h12]; exact h.letter rfl
  · rw [h10]; exact h.letter rfl
  · rw [h13]; exact h.letter rfl
  · rw [h9]; exact h.letter rfl
  · have hlt : c.toNat < 32 := hlow
    have hu : (UInt16.ofNat c.toNat).toNat = c.toNat := by
      rw [UInt16.toNat_ofNat', Nat.mod_eq_of_lt (by omega)]
    have hcode := h.code (hex4_hexLower hlow) (by rw [hu]; omega)
    rwa [hu, UInt8.ofNat_toNat] at hcode
  · exact h.plain ⟨UInt8.not_lt.1 hlow, h34, h92⟩

/-- **Escaping.**  The JSON grammar reads an escaped string as it was. -/
theorem reads_escaped (s : Bytes) : Json.Reads (s.flatMap eventJsonChar ++ [34]) s := by
  induction s with
  | nil => exact Json.reads_nil
  | cons c s ih =>
    rw [List.flatMap_cons, List.append_assoc]
    exact reads_eventJsonChar c ih

/-- No byte of an escaped string is a control character. -/
theorem le_of_mem_eventJsonChar {c b : UInt8} (h : b ∈ eventJsonChar c) : 0x20 ≤ b := by
  have hhex : ∀ d, 0x20 ≤ hexLower (d % 16) := by
    intro d
    have hall : ∀ d < 16, 0x20 ≤ hexLower d := by decide
    exact hall (d % 16) (by omega)
  have htwo : ∀ x : UInt8, 0x20 ≤ x → b ∈ [92, x] → 0x20 ≤ b := by
    intro x hx hb
    simp only [List.mem_cons, List.not_mem_nil, or_false] at hb
    rcases hb with rfl | rfl
    · decide
    · exact hx
  unfold eventJsonChar at h
  split_ifs at h with h92 h34 h8 h12 h10 h13 h9 hlow
  · exact htwo _ (by decide) h
  · exact htwo _ (by decide) h
  · exact htwo _ (by decide) h
  · exact htwo _ (by decide) h
  · exact htwo _ (by decide) h
  · exact htwo _ (by decide) h
  · exact htwo _ (by decide) h
  · have hdiv : c.toNat / 16 = c.toNat / 16 % 16 := by
      have hlt : c.toNat < 32 := hlow
      omega
    rw [hdiv] at h
    simp only [List.mem_cons, List.not_mem_nil, or_false] at h
    rcases h with rfl | rfl | rfl | rfl | rfl | rfl
    · decide
    · decide
    · decide
    · decide
    · exact hhex _
    · exact hhex _
  · rw [List.mem_singleton.1 h]
    exact UInt8.not_lt.1 hlow

/-! ### Addresses -/

theorem mem_ipToStrBuf {ip : UInt32} {b : UInt8} (h : b ∈ ipToStrBuf ip) :
    isDigit b.toNat = true ∨ b = 46 := by
  simp only [ipToStrBuf, List.mem_append, List.mem_cons] at h
  rcases h with h | h | h | h | h | h | h
  · exact .inl (isDigit_of_mem_numeral h)
  · exact .inr h
  · exact .inl (isDigit_of_mem_numeral h)
  · exact .inr h
  · exact .inl (isDigit_of_mem_numeral h)
  · exact .inr h
  · exact .inl (isDigit_of_mem_numeral h)

theorem length_ipToStrBuf (ip : UInt32) : (ipToStrBuf ip).length ≤ 15 := by
  have hoctet : ∀ i, (numeral ((memOfU32 ip).getD i 0).toNat).length ≤ 3 := fun i =>
    length_numeral_le (by decide) (lt_of_lt_of_le (UInt8.toNat_lt _) (by decide))
  have h0 := hoctet 0
  have h1 := hoctet 1
  have h2 := hoctet 2
  have h3 := hoctet 3
  simp only [ipToStrBuf, List.length_append, List.length_cons]
  omega

/-- The buffer for the endpoint is never too short. -/
theorem endpointText_eq (endpoint : SockAddr) :
    endpointText endpoint =
      ipToStrBuf endpoint.sinAddr ++ 58 :: numeral (ntohs endpoint.sinPort) := by
  have hip := length_ipToStrBuf endpoint.sinAddr
  have hlt : ntohs endpoint.sinPort < 256 ^ 2 := by
    have h := Bytes.ofBe_lt (Bytes.le 2 endpoint.sinPort.toNat)
    rwa [Bytes.length_le] at h
  have hport : (numeral (ntohs endpoint.sinPort)).length ≤ 5 :=
    length_numeral_le (by decide) (lt_of_lt_of_le hlt (by decide))
  rw [endpointText, List.take_of_length_le]
  simp only [List.length_append, List.length_cons, tundIpStrLen]
  omega

/-- A text has no NUL if all its bytes are digits, dots or colons. -/
theorem cstr_of_address {s : Bytes} (h : ∀ b ∈ s, isDigit b.toNat = true ∨ b = 46 ∨ b = 58) :
    Bytes.cstr s = s := by
  apply Bytes.cstr_of_forall_ne
  rintro b hb rfl
  rcases h 0 hb with h | h | h
  · exact absurd h (by decide)
  · exact absurd h (by decide)
  · exact absurd h (by decide)

theorem cstr_ipToStrBuf (ip : UInt32) : Bytes.cstr (ipToStrBuf ip) = ipToStrBuf ip := by
  apply cstr_of_address
  intro b hb
  rcases mem_ipToStrBuf hb with h | h
  · exact .inl h
  · exact .inr (.inl h)

theorem cstr_endpointText (endpoint : SockAddr) :
    Bytes.cstr (endpointText endpoint) = endpointText endpoint := by
  apply cstr_of_address
  intro b hb
  rw [endpointText_eq, List.mem_append, List.mem_cons] at hb
  rcases hb with hb | hb | hb
  · rcases mem_ipToStrBuf hb with h | h
    · exact .inl h
    · exact .inr (.inl h)
  · exact .inr (.inr hb)
  · exact .inl (isDigit_of_mem_numeral hb)

/-- A text up to its first dot. -/
theorem append_dot_inj {a b x y : Bytes} (ha : 46 ∉ a) (hb : 46 ∉ b)
    (h : a ++ 46 :: x = b ++ 46 :: y) : a = b ∧ x = y := by
  have htake : ∀ {c z : Bytes}, 46 ∉ c → (c ++ 46 :: z).takeWhile (· ≠ 46) = c := by
    intro c z hc
    rw [List.takeWhile_append_of_pos]
    · simp
    · intro d hd
      simp only [ne_eq, decide_eq_true_eq]
      rintro rfl
      exact hc hd
  have hab : a = b := by rw [← htake (z := x) ha, h, htake hb]
  subst hab
  simpa using h

/-- Different addresses have different texts. -/
theorem ipToStrBuf_injective : Function.Injective ipToStrBuf := by
  intro ip ip' h
  have hdot : ∀ n, (46 : UInt8) ∉ numeral n := fun n hn => absurd (isDigit_of_mem_numeral hn) (by decide)
  have hbyte : ∀ {a b : UInt8}, numeral a.toNat = numeral b.toNat → a = b := fun hn =>
    UInt8.toNat_inj.1 (numeral_injective hn)
  simp only [ipToStrBuf] at h
  obtain ⟨h0, h⟩ := append_dot_inj (hdot _) (hdot _) h
  obtain ⟨h1, h⟩ := append_dot_inj (hdot _) (hdot _) h
  obtain ⟨h2, h3⟩ := append_dot_inj (hdot _) (hdot _) h
  have hmem : memOfU32 ip = memOfU32 ip' := by
    have hlen := length_memOfU32 ip
    have hlen' := length_memOfU32 ip'
    generalize memOfU32 ip = l at *
    generalize memOfU32 ip' = l' at *
    match l, l' with
    | [a, b, c, d], [a', b', c', d'] =>
      have ha : a = a' := hbyte h0
      have hb : b = b' := hbyte h1
      have hc : c = c' := hbyte h2
      have hd : d = d' := hbyte h3
      rw [ha, hb, hc, hd]
  rw [← u32OfMem_memOfU32 ip, hmem, u32OfMem_memOfU32]

/-! ### Lines are objects -/

/-- A member of an event: a plain key and an escaped string. -/
def eventMember (key : Bytes) (hkey : ∀ c ∈ key, Json.Plain c) (s : Bytes) : Json.Member where
  keyText := key ++ [34]
  key := key
  valueText := s.flatMap eventJsonChar ++ [34]
  value := s
  readsKey := Json.reads_plain hkey
  readsValue := reads_escaped s

/-- The members of a join. -/
def joinMembers (name : Bytes) (virtIp : UInt32) (endpoint : SockAddr) : List Json.Member :=
  [eventMember (ascii "event") (by decide +kernel) (ascii "peer_join"),
    eventMember (ascii "name") (by decide +kernel) (Bytes.cstr name),
    eventMember (ascii "virtual_ip") (by decide +kernel) (ipToStrBuf virtIp),
    eventMember (ascii "endpoint") (by decide +kernel) (endpointText endpoint)]

/-- The members of a leave. -/
def leaveMembers (virtIp : UInt32) (reason : Bytes) : List Json.Member :=
  [eventMember (ascii "event") (by decide +kernel) (ascii "peer_leave"),
    eventMember (ascii "virtual_ip") (by decide +kernel) (ipToStrBuf virtIp),
    eventMember (ascii "reason") (by decide +kernel) (Bytes.cstr reason)]

theorem appEventPeerJoin_eq (name : Bytes) (virtIp : UInt32) (endpoint : SockAddr) :
    appEventPeerJoin name virtIp endpoint =
      123 :: Json.printMembers (joinMembers name virtIp endpoint) ++ [10] := by
  have hopen : ascii "\x7b\"event\":\"peer_join\",\"name\":" =
      123 :: 34 :: (ascii "event" ++ 34 :: 58 :: 34 :: ((ascii "peer_join").flatMap eventJsonChar ++
        34 :: 44 :: 34 :: (ascii "name" ++ [34, 58]))) := by decide
  have hip : ascii ",\"virtual_ip\":" = 44 :: 34 :: (ascii "virtual_ip" ++ [34, 58]) := by decide
  have hend : ascii ",\"endpoint\":" = 44 :: 34 :: (ascii "endpoint" ++ [34, 58]) := by decide
  have hclose : ascii "\x7d\n" = [125, 10] := by decide
  rw [appEventPeerJoin, hopen, hip, hend, hclose, eventJsonString, eventJsonString, eventJsonString,
    cstr_ipToStrBuf, cstr_endpointText]
  simp only [joinMembers, Json.printMembers, Json.Member.print, eventMember, List.append_assoc,
    List.cons_append, List.nil_append]

theorem appEventPeerLeave_eq (virtIp : UInt32) (reason : Bytes) :
    appEventPeerLeave virtIp reason =
      123 :: Json.printMembers (leaveMembers virtIp reason) ++ [10] := by
  have hopen : ascii "\x7b\"event\":\"peer_leave\",\"virtual_ip\":" =
      123 :: 34 :: (ascii "event" ++ 34 :: 58 :: 34 :: ((ascii "peer_leave").flatMap eventJsonChar ++
        34 :: 44 :: 34 :: (ascii "virtual_ip" ++ [34, 58]))) := by decide
  have hreason : ascii ",\"reason\":" = 44 :: 34 :: (ascii "reason" ++ [34, 58]) := by decide
  have hclose : ascii "\x7d\n" = [125, 10] := by decide
  rw [appEventPeerLeave, hopen, hreason, hclose, eventJsonString, eventJsonString, cstr_ipToStrBuf]
  simp only [leaveMembers, Json.printMembers, Json.Member.print, eventMember, List.append_assoc,
    List.cons_append, List.nil_append]

/-- The line of an event before its newline. -/
def Event.body : Event → Bytes
  | .peerJoin name virtIp endpoint => 123 :: Json.printMembers (joinMembers name virtIp endpoint)
  | .peerLeave virtIp reason => 123 :: Json.printMembers (leaveMembers virtIp reason.text)

theorem Event.line_eq (e : Event) : e.line = e.body ++ [10] := by
  cases e with
  | peerJoin name virtIp endpoint => exact appEventPeerJoin_eq name virtIp endpoint
  | peerLeave virtIp reason => exact appEventPeerLeave_eq virtIp reason.text

/-- No byte of the members of an event is a control character. -/
theorem le_of_mem_printMembers {ms : List Json.Member} {b : UInt8}
    (hms : ∀ m ∈ ms, (∀ c ∈ m.keyText, 0x20 ≤ c) ∧ ∀ c ∈ m.valueText, 0x20 ≤ c)
    (h : b ∈ Json.printMembers ms) : 0x20 ≤ b := by
  have hprint : ∀ m ∈ ms, ∀ c ∈ m.print, 0x20 ≤ c := by
    intro m hm c hc
    simp only [Json.Member.print, List.mem_append, List.mem_cons] at hc
    rcases hc with (rfl | hc) | rfl | rfl | hc
    · decide
    · exact (hms m hm).1 c hc
    · decide
    · decide
    · exact (hms m hm).2 c hc
  clear hms
  induction ms using Json.printMembers.induct with
  | case1 =>
    rw [List.mem_singleton.1 h]
    decide
  | case2 m =>
    rw [Json.printMembers, List.mem_append, List.mem_singleton] at h
    rcases h with h | rfl
    · exact hprint m (by simp) b h
    · decide
  | case3 m m' ms ih =>
    rw [Json.printMembers, List.mem_append, List.mem_cons] at h
    rcases h with h | rfl | h
    · exact hprint m (by simp) b h
    · decide
    · exact ih h fun x hx => hprint x (List.mem_cons_of_mem _ hx)

theorem le_of_mem_body {e : Event} {b : UInt8} (h : b ∈ e.body) : 0x20 ≤ b := by
  have hmember : ∀ key hkey s, (∀ c ∈ (eventMember key hkey s).keyText, 0x20 ≤ c) ∧
      ∀ c ∈ (eventMember key hkey s).valueText, 0x20 ≤ c := by
    intro key hkey s
    constructor
    · intro c hc
      rcases List.mem_append.1 hc with hc | hc
      · exact (hkey c hc).1
      · rw [List.mem_singleton.1 hc]
        decide
    · intro c hc
      rcases List.mem_append.1 hc with hc | hc
      · obtain ⟨d, -, hd⟩ := List.mem_flatMap.1 hc
        exact le_of_mem_eventJsonChar hd
      · rw [List.mem_singleton.1 hc]
        decide
  cases e with
  | peerJoin name virtIp endpoint =>
    rcases List.mem_cons.1 h with rfl | h
    · decide
    · refine le_of_mem_printMembers (fun m hm => ?_) h
      simp only [joinMembers, List.mem_cons, List.not_mem_nil, or_false] at hm
      rcases hm with rfl | rfl | rfl | rfl <;> exact hmember _ _ _
  | peerLeave virtIp reason =>
    rcases List.mem_cons.1 h with rfl | h
    · decide
    · refine le_of_mem_printMembers (fun m hm => ?_) h
      simp only [leaveMembers, List.mem_cons, List.not_mem_nil, or_false] at hm
      rcases hm with rfl | rfl | rfl <;> exact hmember _ _ _

/-- What the JSON grammar makes of a line. -/
def Event.value : Event → Json.Value
  | .peerJoin name virtIp endpoint => .object
    [(ascii "event", .string (ascii "peer_join")), (ascii "name", .string (Bytes.cstr name)),
      (ascii "virtual_ip", .string (ipToStrBuf virtIp)),
      (ascii "endpoint", .string (endpointText endpoint))]
  | .peerLeave virtIp reason => .object
    [(ascii "event", .string (ascii "peer_leave")), (ascii "virtual_ip", .string (ipToStrBuf virtIp)),
      (ascii "reason", .string reason.text)]

theorem decode_body (e : Event) : Json.decode e.body = some e.value := by
  cases e with
  | peerJoin name virtIp endpoint => exact Json.decode_strings _ _
  | peerLeave virtIp reason =>
    have hreason : Bytes.cstr reason.text = reason.text := by cases reason <;> decide
    have hvalue : (leaveMembers virtIp reason.text).map Json.Member.read =
        [(ascii "event", .string (ascii "peer_leave")),
          (ascii "virtual_ip", .string (ipToStrBuf virtIp)),
          (ascii "reason", .string reason.text)] := by
      simp only [leaveMembers, List.map_cons, List.map_nil, Json.Member.read, eventMember, hreason]
    refine (Json.decode_strings _ _).trans ?_
    rw [Event.value, ← hvalue]
    rfl

end Tund
