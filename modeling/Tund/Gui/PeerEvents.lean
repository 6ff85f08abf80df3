import Tund.App.Events
import Tund.Gui.HostPeer

/-!
# The GUI reads the events (`gui/lib/core/host_peer.dart`, `peer_events.dart`)

The GUI cuts the output of the server into lines, decodes each line and keeps a map of
the peers by the text of their virtual IP.  `PeerTexts` is that map, with the strings as
bytes; `HostPeerTracker` is the same map by address, and `read_eq_tracker` relates
them.  `json_events_not_forgeable` is the result for bytes: the name of a peer, whatever
it is, reaches the GUI as it is and nothing else does.
-/

namespace Tund

open Text

/-! ### The map -/

/-- `class HostPeer` -/
structure PeerText where
  name : Bytes
  virtualIp : Bytes
  endpoint : Bytes

/-- The map `_peers` of `class HostPeerTracker`, by the text of the virtual IP. -/
abbrev PeerTexts := Bytes → Option PeerText

/-- `decoded[key]`; the last member of that name counts. -/
def field (members : List (Bytes × Json.Value)) (key : Bytes) : Option Json.Value :=
  (members.reverse.find? fun m => m.1 = key).map Prod.snd

/-- `applyJsonLine`; nothing when `jsonDecode` throws a `FormatException`. -/
def PeerTexts.applyJsonLine (peers : PeerTexts) (line : Bytes) : Option (Bool × PeerTexts) :=
  match Json.decode line with
  | none => none
  | some (.object members) =>
    match field members (ascii "virtual_ip") with
    | some (.string virtualIp) =>
      match field members (ascii "event") with
      | some (.string event) =>
        if event = ascii "peer_join" then
          match field members (ascii "name"), field members (ascii "endpoint") with
          | some (.string name), some (.string endpoint) =>
            some (true, Function.update peers virtualIp (some ⟨name, virtualIp, endpoint⟩))
          | _, _ => some (false, peers)
        else if event = ascii "peer_leave" then
          some (true, Function.update peers virtualIp none)
        else some (false, peers)
      | _ => some (false, peers)
    | _ => some (false, peers)
  | some _ => some (false, peers)

/-- `_applyJsonEvent` of a host: a line that is no JSON text goes to the log. -/
def PeerTexts.applyJsonEvent (peers : PeerTexts) (line : Bytes) : PeerTexts :=
  match peers.applyJsonLine line with
  | none => peers
  | some r => r.2

/-- `LineSplitter`: lines end with LF, CR or CRLF, and the last one may end with the input. -/
def lineSplitter : Bytes → Bytes → List Bytes
  | [], line => if line = [] then [] else [line]
  | 13 :: 10 :: rest, line => line :: lineSplitter rest []
  | c :: rest, line =>
    if c = 10 ∨ c = 13 then line :: lineSplitter rest [] else lineSplitter rest (line ++ [c])

/-- The map after the GUI has read an output. -/
def PeerTexts.read (output : Bytes) : PeerTexts :=
  (lineSplitter output []).foldl PeerTexts.applyJsonEvent fun _ => none

/-! ### Framing -/

theorem lineSplitter_append {line : Bytes} (hline : ∀ c ∈ line, 0x20 ≤ c) (acc rest : Bytes) :
    lineSplitter (line ++ 10 :: rest) acc = (acc ++ line) :: lineSplitter rest [] := by
  induction line generalizing acc with
  | nil =>
    rw [List.nil_append, List.append_nil, lineSplitter, if_pos (.inl rfl)]
    rintro rest' h
    cases h
  | cons c line ih =>
    have hc := hline c List.mem_cons_self
    have h10 : c ≠ 10 := by
      rintro rfl
      exact absurd hc (by decide)
    have h13 : c ≠ 13 := by
      rintro rfl
      exact absurd hc (by decide)
    rw [List.cons_append, lineSplitter, if_neg (by simp [h10, h13]),
      ih (fun d hd => hline d (List.mem_cons_of_mem _ hd))]
    · simp
    · intro rest' h
      exact fun _ => absurd h h13

/-- The lines of the output are the events. -/
theorem lineSplitter_events (es : List Event) :
    lineSplitter (es.flatMap Event.line) [] = es.map Event.body := by
  induction es with
  | nil => rfl
  | cons e es ih =>
    rw [List.flatMap_cons, Event.line_eq, List.append_assoc, List.singleton_append,
      lineSplitter_append (fun c hc => le_of_mem_body hc), ih]
    rfl

/-! ### Events -/

/-- The virtual IP that an event is about. -/
def Event.virtIp : Event → UInt32
  | .peerJoin _ virtIp _ => virtIp
  | .peerLeave virtIp _ => virtIp

/-- What an event leaves in the map under its virtual IP. -/
def Event.shown : Event → Option PeerText
  | .peerJoin name virtIp endpoint =>
    some ⟨Bytes.cstr name, ipToStrBuf virtIp, endpointText endpoint⟩
  | .peerLeave _ _ => none

/-- **One line.**  The GUI takes the line of an event and files it under the virtual IP. -/
theorem applyJsonLine_body (peers : PeerTexts) (e : Event) :
    peers.applyJsonLine e.body = some (true, Function.update peers (ipToStrBuf e.virtIp) e.shown) := by
  unfold PeerTexts.applyJsonLine
  rw [decode_body]
  cases e with
  | peerJoin name virtIp endpoint => rfl
  | peerLeave virtIp reason => rfl

theorem applyJsonEvent_body (peers : PeerTexts) (e : Event) :
    peers.applyJsonEvent e.body = Function.update peers (ipToStrBuf e.virtIp) e.shown := by
  rw [PeerTexts.applyJsonEvent, applyJsonLine_body]

/-- The map after the lines of some events. -/
theorem read_events (es : List Event) : PeerTexts.read (es.flatMap Event.line) =
    es.foldl (fun peers e => Function.update peers (ipToStrBuf e.virtIp) e.shown) fun _ => none := by
  rw [PeerTexts.read, lineSplitter_events, List.foldl_map]
  congr 1
  funext peers e
  exact applyJsonEvent_body peers e

theorem read_events_concat (es : List Event) (e : Event) :
    PeerTexts.read ((es ++ [e]).flatMap Event.line) =
      Function.update (PeerTexts.read (es.flatMap Event.line)) (ipToStrBuf e.virtIp) e.shown := by
  rw [read_events, read_events, List.foldl_append]
  rfl

/-- The map by address is the map by text. -/
theorem read_eq_tracker {es : List Event} (hnames : ∀ name v ep, .peerJoin name v ep ∈ es → 0 ∉ name)
    (v : UInt32) :
    PeerTexts.read (es.flatMap Event.line) (ipToStrBuf v) =
      (es.foldl HostPeerTracker.applyJsonLine (fun _ => none) v).map fun p =>
        ⟨p.name, ipToStrBuf v, endpointText p.endpoint⟩ := by
  induction es using List.reverseRecOn with
  | nil => rfl
  | append_singleton es e ih =>
    have hes := ih fun name v ep h => hnames name v ep (List.mem_append_left _ h)
    rw [read_events_concat, List.foldl_append, List.foldl_cons, List.foldl_nil]
    by_cases hv : e.virtIp = v
    · rw [← hv, Function.update_self]
      cases e with
      | peerJoin name virtIp ep =>
        have hname : Bytes.cstr name = name := by
          apply Bytes.cstr_of_forall_ne
          rintro b hb rfl
          exact hnames name virtIp ep (by simp) hb
        simp [HostPeerTracker.applyJsonLine, Event.virtIp, Event.shown, hname]
      | peerLeave virtIp reason => simp [HostPeerTracker.applyJsonLine, Event.virtIp, Event.shown]
    · rw [Function.update_of_ne fun h => hv (ipToStrBuf_injective h).symm, hes]
      cases e with
      | peerJoin name virtIp ep =>
        have hne : v ≠ virtIp := Ne.symm hv
        rw [HostPeerTracker.applyJsonLine, Function.update_of_ne hne]
      | peerLeave virtIp reason =>
        have hne : v ≠ virtIp := Ne.symm hv
        rw [HostPeerTracker.applyJsonLine, Function.update_of_ne hne]

/-- What is in the map: the joins that no later event about the same address follows. -/
theorem read_eq_some_iff (es : List Event) (k : Bytes) (p : PeerText) :
    PeerTexts.read (es.flatMap Event.line) k = some p ↔
      ∃ before e after, es = before ++ e :: after ∧ k = ipToStrBuf e.virtIp ∧ e.shown = some p ∧
        ∀ e' ∈ after, e'.virtIp ≠ e.virtIp := by
  induction es using List.reverseRecOn with
  | nil =>
    constructor
    · intro h
      cases h
    · rintro ⟨before, e, after, h, -⟩
      simp at h
  | append_singleton es e ih =>
    rw [read_events_concat]
    by_cases hk : k = ipToStrBuf e.virtIp
    · rw [hk, Function.update_self]
      constructor
      · intro h
        exact ⟨es, e, [], rfl, rfl, h, by simp⟩
      · rintro ⟨before, e', after, hes, hk', hshown, hafter⟩
        rcases List.eq_nil_or_concat after with rfl | ⟨after, last, rfl⟩
        · obtain ⟨-, heq⟩ := List.append_inj' hes rfl
          rw [List.cons.inj heq |>.1]
          exact hshown
        · -- the last event is about the same address
          have hlast : es ++ [e] = (before ++ e' :: after) ++ [last] := by simpa using hes
          obtain ⟨-, heq⟩ := List.append_inj' hlast rfl
          refine absurd ?_ (hafter last (by simp))
          rw [← (List.cons.inj heq).1]
          exact ipToStrBuf_injective hk'
    · rw [Function.update_of_ne hk, ih]
      constructor
      · rintro ⟨before, e', after, rfl, hk', hshown, hafter⟩
        refine ⟨before, e', after ++ [e], by simp, hk', hshown, fun x hx => ?_⟩
        rcases List.mem_append.1 hx with hx | hx
        · exact hafter x hx
        · rw [List.mem_singleton.1 hx]
          intro h
          exact hk (by rw [hk', h])
      · rintro ⟨before, e', after, hes, hk', hshown, hafter⟩
        rcases List.eq_nil_or_concat after with rfl | ⟨after, last, rfl⟩
        · obtain ⟨-, heq⟩ := List.append_inj' hes rfl
          rw [← (List.cons.inj heq).1] at hk'
          exact absurd hk' hk
        · have hlast : es ++ [e] = (before ++ e' :: after) ++ [last] := by simpa using hes
          obtain ⟨heq, -⟩ := List.append_inj' hlast rfl
          exact ⟨before, e', after, heq, hk', hshown, fun x hx => hafter x (by simp [hx])⟩

/-- **Events cannot be forged.**  For every name without NUL, address and endpoint, what
`app_event_peer_join` and `app_event_peer_leave` print is one line: a newline at its end and no
other byte below 0x20 in it.  Before the newline it is a JSON text of one object with exactly the
fields of the event, and the name in it is the name.  The GUI takes each such line, and after the
lines of any events its map holds exactly the joins that no later event about the same virtual IP
follows. -/
theorem json_events_not_forgeable :
    (∀ (name : Bytes) (virtIp : UInt32) (endpoint : SockAddr), 0 ∉ name →
      ∃ body, appEventPeerJoin name virtIp endpoint = body ++ [10] ∧ (∀ b ∈ body, 0x20 ≤ b) ∧
        Json.decode body = some (.object
          [(ascii "event", .string (ascii "peer_join")), (ascii "name", .string name),
            (ascii "virtual_ip", .string (ipToStrBuf virtIp)),
            (ascii "endpoint", .string (endpointText endpoint))])) ∧
    (∀ (virtIp : UInt32) (reason : LeaveReason),
      ∃ body, appEventPeerLeave virtIp reason.text = body ++ [10] ∧ (∀ b ∈ body, 0x20 ≤ b) ∧
        Json.decode body = some (.object
          [(ascii "event", .string (ascii "peer_leave")),
            (ascii "virtual_ip", .string (ipToStrBuf virtIp)),
            (ascii "reason", .string reason.text)])) ∧
    ∀ es : List Event, (∀ name v ep, .peerJoin name v ep ∈ es → 0 ∉ name) →
      (∀ e ∈ es, ∀ peers : PeerTexts, ∃ peers', e.line = e.body ++ [10] ∧
        peers.applyJsonLine e.body = some (true, peers')) ∧
      ∀ (k : Bytes) (p : PeerText), PeerTexts.read (es.flatMap Event.line) k = some p ↔
        ∃ before name v endpoint after, es = before ++ .peerJoin name v endpoint :: after ∧
          k = ipToStrBuf v ∧ p = ⟨name, ipToStrBuf v, endpointText endpoint⟩ ∧
          ∀ e ∈ after, e.virtIp ≠ v := by
  have hcstr : ∀ {name : Bytes}, 0 ∉ name → Bytes.cstr name = name := by
    intro name hname
    apply Bytes.cstr_of_forall_ne
    rintro b hb rfl
    exact hname hb
  refine ⟨fun name virtIp endpoint hname => ?_, fun virtIp reason => ?_, fun es hnames => ⟨?_, ?_⟩⟩
  · refine ⟨(Event.peerJoin name virtIp endpoint).body, (Event.peerJoin name virtIp endpoint).line_eq,
      fun b => le_of_mem_body, ?_⟩
    rw [decode_body, Event.value, hcstr hname]
  · exact ⟨(Event.peerLeave virtIp reason).body, (Event.peerLeave virtIp reason).line_eq,
      fun b => le_of_mem_body, decode_body _⟩
  · exact fun e _ peers => ⟨_, e.line_eq, applyJsonLine_body peers e⟩
  · intro k p
    rw [read_eq_some_iff]
    constructor
    · rintro ⟨before, e, after, hes, hk, hshown, hafter⟩
      cases e with
      | peerJoin name v endpoint =>
        have hname := hcstr (hnames name v endpoint (by rw [hes]; simp))
        rw [Event.shown, hname] at hshown
        exact ⟨before, name, v, endpoint, after, hes, hk, (Option.some.inj hshown).symm, hafter⟩
      | peerLeave v reason => cases hshown
    · rintro ⟨before, name, v, endpoint, after, hes, hk, rfl, hafter⟩
      have hname := hcstr (hnames name v endpoint (by rw [hes]; simp))
      refine ⟨before, _, after, hes, hk, ?_, hafter⟩
      rw [Event.shown, hname]

end Tund
