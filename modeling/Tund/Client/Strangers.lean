import Tund.Client.Window
import Tund.Protocol.Monocypher

/-!
# The handshake among strangers

`client_register` reads one datagram for each REGISTER it sends, whoever sent the
datagram, so datagrams from strangers use up its attempts.  Here the socket is a queue of
datagrams with the times at which they arrive (`Schedule`); an attempt that begins at time
`now` takes the head of the queue if it is there within five seconds, and else passes in
silence (`attempt`).

`attemptsFor` counts the attempts that a stretch of the queue costs: one for each datagram
and one for each complete period of silence before it.  The handshake succeeds exactly if
an acceptable reply is within reach of the attempts whose REGISTER could be sent
(`register_iff_inReach`), and strangers only ever move a reply further away
(`Among.reaches`).
-/

namespace Tund

/-- `TUND_REGISTER_TIMEOUT`, in milliseconds. -/
def tundRegisterTimeoutMs : ℕ := 5000

/-- A datagram and when it arrives, in milliseconds after the handshake has begun. -/
structure Arriving where
  time : ℕ
  wire : Bytes
  src : SockAddr

/-- What arrives at a socket, in order. -/
structure Schedule where
  queue : List Arriving
  sorted : queue.Pairwise fun a b => a.time ≤ b.time

/-- `platform_poll_one` and `net_recv` of an attempt that begins at `now`: what it meets, when it
is over, and what is left of the queue. -/
def attempt (now : ℕ) : List Arriving → Arrival × ℕ × List Arriving
  | [] => (.silence, now + tundRegisterTimeoutMs, [])
  | d :: rest =>
    if d.time ≤ now + tundRegisterTimeoutMs then (.datagram d.wire d.src, max now d.time, rest)
    else (.silence, now + tundRegisterTimeoutMs, d :: rest)

/-- What `n` attempts meet. -/
def attempts : ℕ → ℕ → List Arriving → List Arrival
  | 0, _, _ => []
  | n + 1, now, queue =>
    let a := attempt now queue
    a.1 :: attempts n a.2.1 a.2.2

/-- `client_register` on a schedule. -/
def clientRegisterOn (env : Env) (cli : Client) (io : Proc) (s : Schedule) : Bool × Client × Proc :=
  clientRegisterLoop env (attempts tundRegisterRetries 0 s.queue) cli io

/-! ### The cost of a stretch of the queue -/

/-- The complete periods of silence between `now` and `time`. -/
def silences (now time : ℕ) : ℕ := (time - now - 1) / tundRegisterTimeoutMs

/-- The attempts it takes to read all these datagrams. -/
def attemptsFor (now : ℕ) : List Arriving → ℕ
  | [] => 0
  | d :: rest => silences now d.time + 1 + attemptsFor (max now d.time) rest

/-- How many of `n` attempts get to send their REGISTER. -/
def registersSent (env : Env) (cli : Client) : ℕ → Proc → ℕ
  | 0, _ => 0
  | n + 1, io =>
    match sendMsg env io (.register cli.name.1) cli.serverAddr with
    | (false, _) => 0
    | (true, io) => registersSent env cli n io + 1

theorem silences_of_le {now time : ℕ} (h : time ≤ now + tundRegisterTimeoutMs) :
    silences now time = 0 := by
  unfold silences tundRegisterTimeoutMs at *
  omega

theorem silences_of_gt {now time : ℕ} (h : ¬ time ≤ now + tundRegisterTimeoutMs) :
    silences now time = silences (now + tundRegisterTimeoutMs) time + 1 := by
  unfold silences tundRegisterTimeoutMs at *
  omega

/-- Reading a stranger first does not make the rest cheaper by more than the stranger costs. -/
theorem attemptsFor_le_stranger (now : ℕ) (x d : Arriving) (rest : List Arriving)
    (h : x.time ≤ d.time) :
    attemptsFor now (d :: rest) ≤ attemptsFor now (x :: d :: rest) := by
  have hmax : max (max now x.time) d.time = max now d.time := by omega
  have hgap : silences now d.time ≤ silences now x.time + 1 + silences (max now x.time) d.time := by
    unfold silences tundRegisterTimeoutMs
    omega
  rw [attemptsFor, attemptsFor, attemptsFor, hmax]
  omega

/-! ### Replies -/

section Replies

variable {env : Env} {cli : Client}

/-- A reply that ends the handshake: from the server, authentic, under a number that the window
takes, and an ASSIGN of at least ten bytes. -/
def Acceptable (env : Env) (serverAddr : SockAddr) (w : ReplayWindow) (d : Arriving) : Prop :=
  d.src = serverAddr ∧ ∃ f, (netRecv env.aead env.key d.wire).bind readFrame = some f ∧
    (protoReplayAccept w f.sequence).1 = true ∧ f.type = MsgType.assign.code ∧
    10 ≤ f.payload.length

/-- The window after these datagrams. -/
def windowOver (env : Env) (serverAddr : SockAddr) (w : ReplayWindow) (queue : List Arriving) :
    ReplayWindow :=
  queue.foldl (fun w d => ((Arrival.datagram d.wire d.src).fromServer serverAddr).foldl
    (windowAfter env.aead env.key) w) w

/-- An acceptable reply in the queue that `n` attempts reach. -/
def Reaches (env : Env) (serverAddr : SockAddr) (n now : ℕ) (w : ReplayWindow)
    (queue : List Arriving) : Prop :=
  ∃ before d after, queue = before ++ d :: after ∧
    Acceptable env serverAddr (windowOver env serverAddr w before) d ∧
    attemptsFor now (before ++ [d]) ≤ n

/-- An acceptable reply is within reach of the attempts that get to send their REGISTER. -/
def InReach (env : Env) (cli : Client) (io : Proc) (s : Schedule) : Prop :=
  Reaches env cli.serverAddr (registersSent env cli tundRegisterRetries io) 0 cli.serverReplay s.queue

/-- An attempt ends the handshake exactly on an acceptable reply. -/
theorem clientAwait_datagram (env : Env) (cli : Client) (d : Arriving) :
    (Acceptable env cli.serverAddr cli.serverReplay d ∧
      (clientAwait env cli (.datagram d.wire d.src)).1 = some true) ∨
    (¬ Acceptable env cli.serverAddr cli.serverReplay d ∧
      clientAwait env cli (.datagram d.wire d.src) = (none, { cli with
        serverReplay := windowOver env cli.serverAddr cli.serverReplay [d] })) := by
  cases hrecv : netRecv env.aead env.key d.wire with
  | none =>
    have hwin : windowOver env cli.serverAddr cli.serverReplay [d] = cli.serverReplay := by
      simp only [windowOver, List.foldl_cons, List.foldl_nil, Arrival.fromServer]
      split_ifs
      · simp [windowAfter, hrecv]
      · rfl
    refine .inr ⟨?_, ?_⟩
    · rintro ⟨-, f, hf, -⟩
      rw [hrecv] at hf
      cases hf
    · simp only [clientAwait, hrecv, hwin]
  | some buf =>
    by_cases haddr : d.src = cli.serverAddr
    · have hequal : netAddrEqual d.src cli.serverAddr = true := netAddrEqual_iff.2 haddr
      have hwin : windowOver env cli.serverAddr cli.serverReplay [d] =
          windowAfter env.aead env.key cli.serverReplay d.wire := by
        simp [windowOver, Arrival.fromServer, haddr]
      rw [hwin, windowAfter, hrecv]
      simp only [clientAwait, hrecv, hequal, if_true, clientRegisterReply, Option.bind_some]
      cases hread : readFrame buf with
      | none =>
        refine .inr ⟨?_, rfl⟩
        rintro ⟨-, f, hf, -⟩
        rw [hrecv, Option.bind_some, hread] at hf
        cases hf
      | some f =>
        have hframe : ∀ f', (netRecv env.aead env.key d.wire).bind readFrame = some f' → f' = f := by
          intro f' hf'
          rw [hrecv, Option.bind_some, hread] at hf'
          exact (Option.some.inj hf').symm
        simp only
        rcases hacc : protoReplayAccept cli.serverReplay f.sequence with ⟨_ | _, replay⟩
        · refine .inr ⟨?_, rfl⟩
          rintro ⟨-, f', hf', htakes, -⟩
          rw [hframe f' hf', hacc] at htakes
          cases htakes
        · simp only
          split_ifs with htype
          · unfold handleAssign
            split_ifs with hlen
            · refine .inr ⟨?_, rfl⟩
              rintro ⟨-, f', hf', -, -, hlong⟩
              rw [hframe f' hf'] at hlong
              omega
            · exact .inl ⟨⟨haddr, f, by rw [hrecv, Option.bind_some, hread], by rw [hacc], htype,
                not_lt.1 hlen⟩, rfl⟩
          · refine .inr ⟨?_, rfl⟩
            rintro ⟨-, f', hf', -, htype', -⟩
            rw [hframe f' hf'] at htype'
            exact htype htype'
    · have hequal : netAddrEqual d.src cli.serverAddr = false := by
        rw [Bool.eq_false_iff, ne_eq, netAddrEqual_iff]
        exact haddr
      have hwin : windowOver env cli.serverAddr cli.serverReplay [d] = cli.serverReplay := by
        simp [windowOver, Arrival.fromServer, haddr]
      refine .inr ⟨fun h => haddr h.1, ?_⟩
      simp only [clientAwait, hrecv, hequal, hwin]
      rfl

/-- The client after its first acceptable reply. -/
def firstReply (env : Env) : Client → List Arriving → Option Client
  | _, [] => none
  | cli, d :: rest =>
    match clientAwait env cli (.datagram d.wire d.src) with
    | (some _, cli) => some cli
    | (none, cli) => firstReply env cli rest

theorem registersSent_window (cli : Client) (w : ReplayWindow) (n : ℕ) (io : Proc) :
    registersSent env { cli with serverReplay := w } n io = registersSent env cli n io := by
  induction n generalizing io with
  | zero => rfl
  | succ n ih =>
    rw [registersSent, registersSent]
    rcases sendMsg env io (.register cli.name.1) cli.serverAddr with ⟨_ | _, io'⟩
    · rfl
    · simp only [ih]

section Reaches

variable {serverAddr : SockAddr} {n now : ℕ} {w : ReplayWindow} {d : Arriving}
  {rest : List Arriving}

theorem not_reaches_nil : ¬ Reaches env serverAddr n now w [] := by
  rintro ⟨before, d, after, hq, -⟩
  cases before <;> cases hq

/-- The head of the queue is the reply, or the reply is behind it. -/
theorem reaches_cons :
    Reaches env serverAddr n now w (d :: rest) ↔
      Acceptable env serverAddr w d ∧ silences now d.time + 1 ≤ n ∨
      ∃ k, n = silences now d.time + 1 + k ∧
        Reaches env serverAddr k (max now d.time) (windowOver env serverAddr w [d]) rest := by
  constructor
  · rintro ⟨before, d', after, hq, hacc, hle⟩
    cases before with
    | nil =>
      obtain ⟨rfl, -⟩ := List.cons.inj hq
      rw [List.nil_append, attemptsFor, attemptsFor] at hle
      exact .inl ⟨hacc, hle⟩
    | cons x before =>
      obtain ⟨rfl, hrest⟩ := List.cons.inj hq
      rw [List.cons_append, attemptsFor] at hle
      exact .inr ⟨n - (silences now d.time + 1), by omega, before, d', after, hrest, hacc, by omega⟩
  · rintro (⟨hacc, hle⟩ | ⟨k, rfl, before, d', after, rfl, hacc, hle⟩)
    · refine ⟨[], d, rest, rfl, hacc, ?_⟩
      rw [List.nil_append, attemptsFor, attemptsFor]
      exact hle
    · refine ⟨d :: before, d', after, rfl, hacc, ?_⟩
      rw [List.cons_append, attemptsFor]
      omega

theorem not_reaches_zero {queue : List Arriving} : ¬ Reaches env serverAddr 0 now w queue := by
  cases queue with
  | nil => exact not_reaches_nil
  | cons d rest =>
    rw [reaches_cons]
    rintro (⟨-, hle⟩ | ⟨k, hk, -⟩) <;> omega

/-- A silent attempt. -/
theorem reaches_silence (h : ¬ d.time ≤ now + tundRegisterTimeoutMs) :
    Reaches env serverAddr (n + 1) now w (d :: rest) ↔
      Reaches env serverAddr n (now + tundRegisterTimeoutMs) w (d :: rest) := by
  have hmax : max (now + tundRegisterTimeoutMs) d.time = max now d.time := by
    unfold tundRegisterTimeoutMs at *
    omega
  have hcost := silences_of_gt h
  rw [reaches_cons, reaches_cons, hmax, hcost]
  constructor
  · rintro (⟨hacc, hle⟩ | ⟨k, hk, hr⟩)
    · exact .inl ⟨hacc, by omega⟩
    · exact .inr ⟨k, by omega, hr⟩
  · rintro (⟨hacc, hle⟩ | ⟨k, hk, hr⟩)
    · exact .inl ⟨hacc, by omega⟩
    · exact .inr ⟨k, by omega, hr⟩

/-- An attempt that reads a datagram which is no acceptable reply. -/
theorem reaches_read (h : d.time ≤ now + tundRegisterTimeoutMs)
    (hd : ¬ Acceptable env serverAddr w d) :
    Reaches env serverAddr (n + 1) now w (d :: rest) ↔
      Reaches env serverAddr n (max now d.time) (windowOver env serverAddr w [d]) rest := by
  rw [reaches_cons, silences_of_le h]
  constructor
  · rintro (⟨hacc, -⟩ | ⟨k, hk, hr⟩)
    · exact absurd hacc hd
    · obtain rfl : n = k := by omega
      exact hr
  · intro hr
    exact .inr ⟨n, by omega, hr⟩

end Reaches

/-- The handshake succeeds exactly if a reply is within reach, and then with the first reply. -/
theorem registerLoop_reaches (env : Env) (n now : ℕ) (queue : List Arriving) (cli : Client)
    (io : Proc) :
    ((clientRegisterLoop env (attempts n now queue) cli io).1 = true ↔
      Reaches env cli.serverAddr (registersSent env cli n io) now cli.serverReplay queue) ∧
    ((clientRegisterLoop env (attempts n now queue) cli io).1 = true →
      firstReply env cli queue = some (clientRegisterLoop env (attempts n now queue) cli io).2.1) := by
  induction n generalizing now queue cli io with
  | zero => exact ⟨⟨fun h => (by cases h), fun h => absurd h not_reaches_zero⟩, fun h => by cases h⟩
  | succ n ih =>
    rw [attempts, clientRegisterLoop, registersSent]
    rcases sendMsg env io (.register cli.name.1) cli.serverAddr with ⟨_ | _, io'⟩
    · exact ⟨⟨fun h => (by cases h), fun h => absurd h not_reaches_zero⟩, fun h => by cases h⟩
    simp only
    cases queue with
    | nil =>
      simp only [attempt, clientAwait]
      have h := ih (now + tundRegisterTimeoutMs) [] cli io'
      refine ⟨⟨fun hok => absurd (h.1.1 hok) not_reaches_nil, fun hr => absurd hr not_reaches_nil⟩,
        h.2⟩
    | cons d rest =>
      by_cases htime : d.time ≤ now + tundRegisterTimeoutMs
      · simp only [attempt, if_pos htime]
        rcases clientAwait_datagram env cli d with ⟨hacc, hawait⟩ | ⟨hno, hawait⟩
        · rcases hr : clientAwait env cli (.datagram d.wire d.src) with ⟨_ | _ | _, cli'⟩ <;>
            rw [hr] at hawait
          · cases hawait
          · cases hawait
          · refine ⟨⟨fun _ => reaches_cons.2 (.inl ⟨hacc, by rw [silences_of_le htime]; omega⟩),
              fun _ => rfl⟩, fun _ => ?_⟩
            rw [firstReply, hr]
        · rw [hawait, firstReply, hawait, reaches_read htime hno]
          have h := ih (max now d.time) rest
            { cli with serverReplay := windowOver env cli.serverAddr cli.serverReplay [d] } io'
          rw [registersSent_window] at h
          exact h
      · simp only [attempt, if_neg htime, clientAwait]
        rw [reaches_silence htime]
        exact ih (now + tundRegisterTimeoutMs) (d :: rest) cli io'

/-! ### Strangers -/

/-- The second queue is the first one with datagrams from other addresses among it. -/
inductive Among (serverAddr : SockAddr) : List Arriving → List Arriving → Prop
  | nil : Among serverAddr [] []
  | same (d : Arriving) {base all : List Arriving} (h : Among serverAddr base all) :
      Among serverAddr (d :: base) (d :: all)
  | stranger (x : Arriving) {base all : List Arriving} (hx : x.src ≠ serverAddr)
      (h : Among serverAddr base all) : Among serverAddr base (x :: all)

section Strangers

variable {serverAddr : SockAddr} {base all : List Arriving}

theorem Among.subset (h : Among serverAddr base all) : ∀ d ∈ base, d ∈ all := by
  induction h with
  | nil => simp
  | same d _ ih =>
    intro x hx
    rcases List.mem_cons.1 hx with rfl | hx
    · simp
    · exact List.mem_cons_of_mem _ (ih x hx)
  | stranger x _ _ ih => exact fun d hd => List.mem_cons_of_mem _ (ih d hd)

theorem windowOver_stranger {x : Arriving} (hx : x.src ≠ serverAddr) (w : ReplayWindow) :
    windowOver env serverAddr w [x] = w := by
  simp [windowOver, Arrival.fromServer, hx]

/-- Strangers do not touch the window, and a reply that is within reach among them is within reach
without them. -/
theorem Among.reaches (h : Among serverAddr base all)
    (hsorted : all.Pairwise fun a b => a.time ≤ b.time) {n now : ℕ} {w : ReplayWindow}
    (hr : Reaches env serverAddr n now w all) : Reaches env serverAddr n now w base := by
  induction h generalizing n now w with
  | nil => exact hr
  | same d h ih =>
    rcases reaches_cons.1 hr with ⟨hacc, hle⟩ | ⟨k, hk, hrest⟩
    · exact reaches_cons.2 (.inl ⟨hacc, hle⟩)
    · exact reaches_cons.2 (.inr ⟨k, hk, ih (List.pairwise_cons.1 hsorted).2 hrest⟩)
  | stranger x hx h ih =>
    obtain ⟨hfirst, htail⟩ := List.pairwise_cons.1 hsorted
    rcases reaches_cons.1 hr with ⟨hacc, -⟩ | ⟨k, rfl, hrest⟩
    · exact absurd hacc.1 hx
    rw [windowOver_stranger hx] at hrest
    obtain ⟨before, d, after, rfl, hacc, hle⟩ := ih htail hrest
    refine ⟨before, d, after, rfl, hacc, ?_⟩
    -- the stranger costs an attempt and saves at most one period of silence
    have hcost : attemptsFor now (before ++ [d]) ≤ attemptsFor now (x :: (before ++ [d])) := by
      cases before with
      | nil => exact attemptsFor_le_stranger now x d [] (hfirst d (h.subset d (by simp)))
      | cons y before =>
        exact attemptsFor_le_stranger now x y (before ++ [d]) (hfirst y (h.subset y (by simp)))
    rw [attemptsFor] at hcost
    omega

/-- The first acceptable reply is the same with strangers and without. -/
theorem Among.firstReply (h : Among serverAddr base all) {cli : Client}
    (haddr : cli.serverAddr = serverAddr) : firstReply env cli all = firstReply env cli base := by
  induction h generalizing cli with
  | nil => rfl
  | same d h ih =>
    rw [Tund.firstReply, Tund.firstReply]
    rcases clientAwait_datagram env cli d with ⟨-, hawait⟩ | ⟨-, hawait⟩
    · rcases hr : clientAwait env cli (.datagram d.wire d.src) with ⟨_ | _, cli'⟩
      · rw [hr] at hawait
        cases hawait
      · rfl
    · rw [hawait]
      exact ih haddr
  | stranger x hx h ih =>
    have hno : ¬ Acceptable env cli.serverAddr cli.serverReplay x := by
      rintro ⟨hsrc, -⟩
      exact hx (hsrc.trans haddr)
    rw [Tund.firstReply]
    rcases clientAwait_datagram env cli x with ⟨hacc, -⟩ | ⟨-, hawait⟩
    · exact absurd hacc hno
    · rw [hawait, windowOver_stranger (by rw [haddr]; exact hx)]
      exact ih haddr

end Strangers

/-! ### Addresses -/

/-- Only the attempt that succeeds changes the addresses. -/
theorem clientAwait_addresses (env : Env) (cli : Client) (arrival : Arrival)
    (h : (clientAwait env cli arrival).1 ≠ some true) :
    (clientAwait env cli arrival).2.virtIp = cli.virtIp ∧
      (clientAwait env cli arrival).2.netmask = cli.netmask := by
  cases arrival with
  | datagram wire src =>
    rcases clientAwait_datagram env cli ⟨0, wire, src⟩ with ⟨-, hok⟩ | ⟨-, hawait⟩
    · exact absurd hok h
    · rw [hawait]
      exact ⟨rfl, rfl⟩
  | _ => exact ⟨rfl, rfl⟩

theorem clientRegisterLoop_addresses (env : Env) (arrivals : List Arrival) (cli : Client)
    (io : Proc) (h : (clientRegisterLoop env arrivals cli io).1 = false) :
    (clientRegisterLoop env arrivals cli io).2.1.virtIp = cli.virtIp ∧
      (clientRegisterLoop env arrivals cli io).2.1.netmask = cli.netmask := by
  induction arrivals generalizing cli io with
  | nil => exact ⟨rfl, rfl⟩
  | cons arrival arrivals ih =>
    have hawait := clientAwait_addresses env cli arrival
    rw [clientRegisterLoop] at h ⊢
    rcases hs : sendMsg env io (.register cli.name.1) cli.serverAddr with ⟨_ | _, io'⟩ <;>
      simp only [hs] at h ⊢
    · exact ⟨trivial, trivial⟩
    rcases hr : clientAwait env cli arrival with ⟨_ | _ | _, cli'⟩ <;> rw [hr] at hawait <;>
      simp only [hr] at h ⊢
    · obtain ⟨hvip, hmask⟩ := hawait fun htrue => by cases htrue
      obtain ⟨hvip', hmask'⟩ := ih cli' io' h
      exact ⟨hvip'.trans hvip, hmask'.trans hmask⟩
    · exact hawait fun htrue => by cases htrue
    · cases h

end Replies

/-! ### Strangers and the result -/

/-- The handshake ends the same way and leaves the same addresses on both schedules. -/
def SameRegistration (env : Env) (cli : Client) (io : Proc) (base all : Schedule) : Prop :=
  (clientRegisterOn env cli io base).1 = (clientRegisterOn env cli io all).1 ∧
  (clientRegisterOn env cli io base).2.1.virtIp = (clientRegisterOn env cli io all).2.1.virtIp ∧
  (clientRegisterOn env cli io base).2.1.netmask = (clientRegisterOn env cli io all).2.1.netmask

theorem register_iff_inReach (env : Env) (cli : Client) (io : Proc) (s : Schedule) :
    (clientRegisterOn env cli io s).1 = true ↔ InReach env cli io s :=
  (registerLoop_reaches env tundRegisterRetries 0 s.queue cli io).1

/-- **Strangers and registration.**  Datagrams from other addresses leave result and addresses of
the handshake as they are exactly if, counting an attempt for each datagram and for each complete
period of silence before it, they do not move the server's reply out of reach.  In every run the
handshake changes the addresses only if it succeeds. -/
theorem register_strangers_exact (env : Env) (cli : Client) (io : Proc) :
    (∀ base all : Schedule, Among cli.serverAddr base.queue all.queue →
      (SameRegistration env cli io base all ↔
        (InReach env cli io base → InReach env cli io all))) ∧
    ∀ arrivals : ℕ → Arrival, (clientRegister env cli io arrivals).1 = false →
      (clientRegister env cli io arrivals).2.1.virtIp = cli.virtIp ∧
      (clientRegister env cli io arrivals).2.1.netmask = cli.netmask := by
  refine ⟨fun base all h => ?_, fun arrivals => clientRegisterLoop_addresses env _ cli io⟩
  have hbase := register_iff_inReach env cli io base
  have hall := register_iff_inReach env cli io all
  constructor
  · rintro ⟨hresult, -, -⟩ hr
    exact hall.1 (hresult ▸ hbase.2 hr)
  · intro hreach
    have hback : InReach env cli io all → InReach env cli io base := h.reaches all.sorted
    by_cases hr : InReach env cli io base
    · -- both read the same first reply
      have hok := hbase.2 hr
      have hok' := hall.2 (hreach hr)
      have hfirst := (registerLoop_reaches env tundRegisterRetries 0 base.queue cli io).2 hok
      have hfirst' := (registerLoop_reaches env tundRegisterRetries 0 all.queue cli io).2 hok'
      rw [h.firstReply rfl, hfirst] at hfirst'
      have hcli : (clientRegisterOn env cli io base).2.1 = (clientRegisterOn env cli io all).2.1 :=
        Option.some.inj hfirst'
      exact ⟨hok.trans hok'.symm, by rw [hcli], by rw [hcli]⟩
    · have hfail : (clientRegisterOn env cli io base).1 = false := by
        rw [← Bool.not_eq_true, hbase]
        exact hr
      have hfail' : (clientRegisterOn env cli io all).1 = false := by
        rw [← Bool.not_eq_true, hall]
        exact fun hr' => hr (hback hr')
      obtain ⟨hvip, hmask⟩ := clientRegisterLoop_addresses env _ cli io hfail
      obtain ⟨hvip', hmask'⟩ := clientRegisterLoop_addresses env _ cli io hfail'
      exact ⟨hfail.trans hfail'.symm, hvip.trans hvip'.symm, hmask.trans hmask'.symm⟩

/-! ### Strangers in front of the reply -/

/-- The host, the client and the server of the schedules below. -/
def strangerHost : Env := Env.plain 100 5

def strangerServer : SockAddr := ⟨2, 5, 5⟩

def strangerClient : Client := clientInit strangerServer [97]

/-- The server's ASSIGN. -/
def assignArriving : Arriving where
  time := 0
  wire := wireBytes monocypher plainKey MsgType.assign.code 1 (List.replicate tundNonceSize 0)
    (Msg.assign 1 2 1400).payload
  src := strangerServer

/-- One byte from somebody else. -/
def strangerArriving : Arriving := ⟨0, [0], ⟨2, 9, 9⟩⟩

theorem assignArriving_acceptable :
    Acceptable strangerHost strangerServer protoReplayReset assignArriving := by
  have hlen : (Msg.assign 1 2 1400).payload.length ≤ tundMaxPlaintext := by
    simp [Msg.payload, tundMaxPlaintext]
  have hn : (List.replicate tundNonceSize (0 : UInt8)).length = tundNonceSize := by simp
  refine ⟨rfl, ⟨MsgType.assign.code, (Msg.assign 1 2 1400).payload, 1⟩, ?_, ?_, rfl, ?_⟩
  · show (netRecv monocypher plainKey _).bind readFrame = _
    rw [assignArriving, netRecv_wireBytes hn hlen, Option.bind_some,
      readFrame_frameBytes (by decide) hn hlen]
  · decide +kernel
  · simp [Msg.payload]

theorem strangerArriving_not_acceptable (w : ReplayWindow) :
    ¬ Acceptable strangerHost strangerServer w strangerArriving := by
  rintro ⟨hsrc, -⟩
  have hne : strangerArriving.src ≠ strangerServer := by decide
  exact hne hsrc

theorem registersSent_stranger :
    registersSent strangerHost strangerClient tundRegisterRetries Proc.start = 3 := by
  decide +kernel

/-- The reply alone, and behind three datagrams of a stranger. -/
def replySchedule : Schedule := ⟨[assignArriving], List.pairwise_singleton _ _⟩

def crowdedSchedule : Schedule where
  queue := [strangerArriving, strangerArriving, strangerArriving, assignArriving]
  sorted := by decide

theorem replySchedule_inReach :
    InReach strangerHost strangerClient Proc.start replySchedule := by
  refine reaches_cons.2 (.inl ⟨assignArriving_acceptable, ?_⟩)
  rw [registersSent_stranger]
  decide

/-- Three datagrams of a stranger use up the attempts. -/
theorem strangers_use_up_attempts :
    ¬ ∀ (env : Env) (cli : Client) (io : Proc) (base all : Schedule),
      Among cli.serverAddr base.queue all.queue → SameRegistration env cli io base all := by
  intro hclaim
  have hx : strangerArriving.src ≠ strangerClient.serverAddr := by decide
  have hamong : Among strangerClient.serverAddr replySchedule.queue crowdedSchedule.queue :=
    .stranger _ hx (.stranger _ hx (.stranger _ hx (.same _ .nil)))
  obtain ⟨hresult, -, -⟩ := hclaim strangerHost strangerClient Proc.start _ _ hamong
  have hok := (register_iff_inReach _ _ _ _).2 replySchedule_inReach
  have hreach := (register_iff_inReach _ _ _ _).1 (hresult.symm.trans hok)
  rw [InReach, registersSent_stranger] at hreach
  -- each of the three costs an attempt
  have hno := strangerArriving_not_acceptable
  rcases reaches_cons.1 hreach with ⟨hacc, -⟩ | ⟨k₁, hk₁, hreach₁⟩
  · exact hno _ hacc
  rcases reaches_cons.1 hreach₁ with ⟨hacc, -⟩ | ⟨k₂, hk₂, hreach₂⟩
  · exact hno _ hacc
  rcases reaches_cons.1 hreach₂ with ⟨hacc, -⟩ | ⟨k₃, hk₃, hreach₃⟩
  · exact hno _ hacc
  obtain rfl : k₃ = 0 := by omega
  exact not_reaches_zero hreach₃

/-- Two datagrams of the stranger leave one attempt for the reply. -/
def busySchedule : Schedule := ⟨[strangerArriving, strangerArriving, assignArriving], by decide⟩

theorem busySchedule_inReach : InReach strangerHost strangerClient Proc.start busySchedule := by
  have hx : strangerArriving.src ≠ strangerClient.serverAddr := by decide
  rw [InReach, registersSent_stranger]
  refine reaches_cons.2 (.inr ⟨2, by decide, reaches_cons.2 (.inr ⟨1, by decide, ?_⟩)⟩)
  rw [windowOver_stranger hx, windowOver_stranger hx]
  exact reaches_cons.2 (.inl ⟨assignArriving_acceptable, by decide⟩)

theorem register_strangers_exact_busy :
    Among strangerClient.serverAddr replySchedule.queue busySchedule.queue ∧
      (clientRegisterOn strangerHost strangerClient Proc.start busySchedule).1 = true ∧
      SameRegistration strangerHost strangerClient Proc.start replySchedule busySchedule := by
  have hx : strangerArriving.src ≠ strangerClient.serverAddr := by decide
  have hamong : Among strangerClient.serverAddr replySchedule.queue busySchedule.queue :=
    .stranger _ hx (.stranger _ hx (.same _ .nil))
  have hsame := ((register_strangers_exact strangerHost strangerClient Proc.start).1 _ _ hamong).2
    fun _ => busySchedule_inReach
  exact ⟨hamong, (register_iff_inReach _ _ _ _).2 busySchedule_inReach, hsame⟩

end Tund
