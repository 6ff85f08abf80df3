import Tund.Lib.Bytes

/-!
# A TunD process and what surrounds it

`Env` is what the operating system and Monocypher supply while one handler runs: the
clocks, the results of the random source and of `sendto`, and the AEAD with the
network key.  `Proc` is the process-wide state that the protocol code touches
(`g_proto_next_sequence`, `g_running`) together with the record `out` of everything
the process has put out so far: datagrams given to `sendto`, packets written to the
TUN device, and JSON events.

Monocypher's AEAD is a parameter (`Aead`).  Its laws are the ones of
`crypto_aead_lock` and `crypto_aead_unlock`: the ciphertext is as long as the text,
the tag has 16 bytes, and unlock succeeds exactly on what lock produces.

Integers in memory are little-endian, as on every platform TunD builds for, so a
value kept in network byte order is the byte-swapped number (`htonl`) and its four
bytes in memory are the big-endian ones of the address.
-/

namespace Tund

/-! ### Addresses -/

/-- `struct sockaddr_in`; address and port are in network byte order. -/
structure SockAddr where
  sinFamily : UInt16
  sinAddr : UInt32
  sinPort : UInt16
  deriving DecidableEq

/-- `net_addr_equal`. -/
def netAddrEqual (a b : SockAddr) : Bool :=
  a.sinFamily = b.sinFamily && a.sinPort = b.sinPort && a.sinAddr = b.sinAddr

@[simp] theorem netAddrEqual_iff {a b : SockAddr} : netAddrEqual a b = true ↔ a = b := by
  cases a; cases b
  simp [netAddrEqual]
  tauto

/-- `htonl` and `ntohl`: the number whose memory holds the big-endian bytes of `x`. -/
def htonl (x : UInt32) : UInt32 := UInt32.ofNat (Bytes.ofLe (Bytes.be 4 x.toNat))

/-- The bytes `memcpy` takes from a `uint32_t`. -/
def memOfU32 (x : UInt32) : Bytes := Bytes.le 4 x.toNat

/-- The `uint32_t` that `memcpy` makes of four bytes. -/
def u32OfMem (b : Bytes) : UInt32 := UInt32.ofNat (Bytes.ofLe b)

@[simp] theorem length_memOfU32 (x : UInt32) : (memOfU32 x).length = 4 := by simp [memOfU32]

@[simp] theorem u32OfMem_memOfU32 (x : UInt32) : u32OfMem (memOfU32 x) = x := by
  have hx : x.toNat < 256 ^ 4 := x.toNat_lt
  rw [u32OfMem, memOfU32, Bytes.ofLe_le_of_lt hx, UInt32.ofNat_toNat]

/-- In memory, a value in network byte order is the big-endian form of the number. -/
theorem memOfU32_htonl (x : UInt32) : memOfU32 (htonl x) = Bytes.be 4 x.toNat := by
  have hlt : Bytes.ofLe (Bytes.be 4 x.toNat) < 2 ^ 32 := by
    simpa using Bytes.ofLe_lt (Bytes.be 4 x.toNat)
  have h := Bytes.le_ofLe (Bytes.be 4 x.toNat)
  rw [Bytes.length_be] at h
  rw [memOfU32, htonl, UInt32.toNat_ofNat_of_lt' hlt, h]

theorem htonl_injective : Function.Injective htonl := by
  intro x y h
  have hb : Bytes.be 4 x.toNat = Bytes.be 4 y.toNat := by
    rw [← memOfU32_htonl, ← memOfU32_htonl, h]
  have hx : x.toNat < 256 ^ 4 := x.toNat_lt
  have hy : y.toNat < 256 ^ 4 := y.toNat_lt
  apply UInt32.toNat_inj.1
  rw [← Bytes.ofBe_be_of_lt hx, hb, Bytes.ofBe_be_of_lt hy]

/-! ### The environment -/

/-- Monocypher's authenticated encryption: key, nonce, associated data, text. -/
structure Aead where
  /-- `crypto_aead_lock`: ciphertext and tag. -/
  lock : Bytes → Bytes → Bytes → Bytes → Bytes × Bytes
  /-- `crypto_aead_unlock` on ciphertext and tag; `none` is its nonzero result. -/
  unlock : Bytes → Bytes → Bytes → Bytes → Bytes → Option Bytes
  length_cipher : ∀ key nonce ad text, (lock key nonce ad text).1.length = text.length
  length_mac : ∀ key nonce ad text, (lock key nonce ad text).2.length = 16
  unlock_eq_some_iff : ∀ key nonce ad cipher mac text,
    unlock key nonce ad cipher mac = some text ↔ lock key nonce ad text = (cipher, mac)

/-- What one handler call gets from outside. -/
structure Env where
  aead : Aead
  /-- `g_crypto_key` -/
  key : Bytes
  /-- `time(NULL)` -/
  time : ℤ
  /-- `now_ms()` -/
  nowMs : UInt64
  /-- The outcome of the `k`-th outside call if it is to the random source: failure or bytes. -/
  random : ℕ → Option (ℕ → UInt8)
  /-- Whether the `k`-th outside call, if it is `sendto`, takes the whole datagram. -/
  sendto : ℕ → Bool
  /-- `g_json_events_active` -/
  jsonEvents : Bool

/-- The random source never fails. -/
def Env.RandomWorks (env : Env) : Prop := ∀ k, env.random k ≠ none

/-- The socket takes every datagram. -/
def Env.SendWorks (env : Env) : Prop := ∀ k, env.sendto k = true

/-! ### The process -/

/-- A datagram handed to `sendto`: `buf` is what the caller gave to `net_send`, `wire` its
encrypted form, `sent` the outcome. -/
structure Datagram where
  dest : SockAddr
  buf : Bytes
  wire : Bytes
  sent : Bool

/-- Why a peer left. -/
inductive LeaveReason
  | disconnect
  | timeout
  deriving DecidableEq

/-- A JSON event for the GUI, before it is printed. -/
inductive Event
  | peerJoin (name : Bytes) (virtIp : UInt32) (endpoint : SockAddr)
  | peerLeave (virtIp : UInt32) (reason : LeaveReason)
  deriving DecidableEq

/-- One output of a process. -/
inductive Out
  | datagram (d : Datagram)
  | tunWrite (pkt : Bytes)
  | event (e : Event)

/-- The process-wide state; `calls` counts the calls to the random source and to `sendto`. -/
structure Proc where
  /-- `g_proto_next_sequence` -/
  nextSequence : UInt64
  calls : ℕ
  /-- `g_running` -/
  running : Bool
  out : List Out

/-- A process that has just started. -/
def Proc.start : Proc := ⟨0, 0, true, []⟩

/-- `tun_write` -/
def tunWrite (io : Proc) (pkt : Bytes) : Proc := { io with out := io.out ++ [.tunWrite pkt] }

/-- `app_event_peer_join` and `app_event_peer_leave` -/
def appEvent (env : Env) (io : Proc) (e : Event) : Proc :=
  if env.jsonEvents then { io with out := io.out ++ [.event e] } else io

/-- `tund_request_stop` -/
def tundRequestStop (io : Proc) : Proc := { io with running := false }

/-- `proto_random_bytes` -/
def protoRandomBytes (env : Env) (io : Proc) (len : ℕ) : Option Bytes × Proc :=
  ((env.random io.calls).map fun f => (List.range len).map f, { io with calls := io.calls + 1 })

end Tund
