import Tund.Process

/-!
# The IPv4 gate

`proto_validate_ipv4_packet` decides which packets enter the virtual LAN; the packet
is given as its bytes, so the `len` of the source is the length of the list.
Addresses are returned as they lie in memory, in network byte order.
-/

namespace Tund

def tundSubnet : UInt32 := 0x0A090000
def tundNetmask : UInt32 := 0xFFFFFF00
def tundServerIp : UInt32 := 0x0A090001
def tundIpStart : UInt32 := 0x0A090002
def tundIpEnd : UInt32 := 0x0A0900FE

/-- `TUND_SUBNET | ~TUND_NETMASK` -/
def tundBroadcast : UInt32 := tundSubnet ||| ~~~tundNetmask

/-- The failures of `proto_validate_ipv4_packet`. -/
inductive Ipv4Error
  | tooShort
  | badVersion
  | badIhl
  | truncated
  | lengthMismatch
  | badSrc
  | badDst
  deriving DecidableEq

/-- `proto_get_dst_ip` -/
def protoGetDstIp (ipPkt : Bytes) : UInt32 :=
  if ipPkt.length < 20 then 0 else u32OfMem (Bytes.slice ipPkt 16 4)

/-- `proto_get_src_ip` -/
def protoGetSrcIp (ipPkt : Bytes) : UInt32 :=
  if ipPkt.length < 20 then 0 else u32OfMem (Bytes.slice ipPkt 12 4)

/-- `proto_validate_ipv4_packet`; `none` is `TUND_IPV4_OK`. -/
def protoValidateIpv4Packet (ipPkt : Bytes) : Option Ipv4Error :=
  let len := ipPkt.length
  if len < 20 then some .tooShort
  else if ipPkt.getD 0 0 >>> 4 ≠ 4 then some .badVersion
  else
    let ihl := ((ipPkt.getD 0 0 &&& 0x0F) * 4).toNat
    if ihl < 20 then some .badIhl
    else if len < ihl then some .truncated
    else
      let totalLen := Bytes.ofBe (Bytes.slice ipPkt 2 2)
      if totalLen < ihl then some .lengthMismatch
      else if len < totalLen then some .truncated
      else if totalLen ≠ len then some .lengthMismatch
      else
        let src := htonl (protoGetSrcIp ipPkt)
        let dst := htonl (protoGetDstIp ipPkt)
        if src &&& tundNetmask ≠ tundSubnet ∨ src = tundSubnet ∨ src = tundBroadcast then
          some .badSrc
        else if dst = tundSubnet then some .badDst
        else if dst ≠ tundBroadcast ∧ dst &&& tundNetmask ≠ tundSubnet then some .badDst
        else none

/-! ### Addresses in a packet -/

/-- An address read from memory has its four bytes as digits. -/
theorem toNat_htonl_u32OfMem {b : Bytes} (h : b.length = 4) :
    (htonl (u32OfMem b)).toNat = Bytes.ofBe b := by
  have hlt : Bytes.ofLe b < 2 ^ 32 := by simpa [h] using Bytes.ofLe_lt b
  have hmem : (u32OfMem b).toNat = Bytes.ofLe b := UInt32.toNat_ofNat_of_lt' hlt
  have hrev : Bytes.be 4 (Bytes.ofLe b) = b.reverse := by
    have hbe := Bytes.be_ofBe b.reverse
    rwa [List.length_reverse, h] at hbe
  have hlt' : Bytes.ofBe b < 2 ^ 32 := by simpa [h] using Bytes.ofBe_lt b
  rw [htonl, hmem, hrev, Bytes.ofLe, List.reverse_reverse, UInt32.toNat_ofNat_of_lt' hlt']

theorem toNat_and_netmask (x : UInt32) : (x &&& tundNetmask).toNat = x.toNat / 256 * 256 := by
  have hx : x.toNat < 2 ^ 32 := x.toNat_lt
  have hmask : tundNetmask.toNat = (2 ^ 24 - 1) <<< 8 := by decide
  have hround : x.toNat / 256 * 256 = x.toNat >>> 8 <<< 8 := by
    rw [Nat.shiftLeft_eq, Nat.shiftRight_eq_div_pow]
  rw [UInt32.toNat_and, hmask, hround]
  -- bit by bit: the mask keeps the bits from 8 to 31
  apply Nat.eq_of_testBit_eq
  intro i
  rw [Nat.testBit_and, Nat.testBit_shiftLeft, Nat.testBit_two_pow_sub_one, Nat.testBit_shiftLeft,
    Nat.testBit_shiftRight]
  by_cases hi : 8 ≤ i
  · by_cases hi' : i < 32
    · simp [hi, show i - 8 < 24 by omega, show 8 + (i - 8) = i by omega]
    · have hbit : x.toNat.testBit i = false :=
        Nat.testBit_lt_two_pow (lt_of_lt_of_le hx (Nat.pow_le_pow_right (by decide) (by omega)))
      simp [hi, hbit, show 8 + (i - 8) = i by omega]
  · simp [hi]

theorem ofBe_four (a b c d : UInt8) :
    Bytes.ofBe [a, b, c, d] = ((a.toNat * 256 + b.toNat) * 256 + c.toNat) * 256 + d.toNat := by
  simp [Bytes.ofBe]

/-- The bytes of an address in `10.9.0.0/24`. -/
theorem and_netmask_eq_subnet_iff {b : Bytes} (h : b.length = 4) :
    htonl (u32OfMem b) &&& tundNetmask = tundSubnet ↔ ∃ k : UInt8, b = [10, 9, 0, k] := by
  obtain ⟨x, y, z, k, rfl⟩ : ∃ x y z k, b = [x, y, z, k] := by
    match b, h with
    | [x, y, z, k], _ => exact ⟨x, y, z, k, rfl⟩
  have hy : y.toNat < 256 := y.toNat_lt
  have hz : z.toNat < 256 := z.toNat_lt
  have hk : k.toNat < 256 := k.toNat_lt
  rw [← UInt32.toNat_inj, toNat_and_netmask, toNat_htonl_u32OfMem h, ofBe_four]
  constructor
  · intro heq
    have hsub : tundSubnet.toNat = 0x0A090000 := rfl
    rw [hsub] at heq
    refine ⟨k, ?_⟩
    rw [show x = 10 from UInt8.toNat_inj.1 (by simp; omega),
      show y = 9 from UInt8.toNat_inj.1 (by simp; omega),
      show z = 0 from UInt8.toNat_inj.1 (by simp; omega)]
  · rintro ⟨k', heq⟩
    obtain ⟨rfl, rfl, rfl, rfl⟩ : x = 10 ∧ y = 9 ∧ z = 0 ∧ k = k' := by simpa using heq
    have hsub : tundSubnet.toNat = 0x0A090000 := rfl
    rw [hsub]
    have h10 : (10 : UInt8).toNat = 10 := rfl
    have h9 : (9 : UInt8).toNat = 9 := rfl
    have h0 : (0 : UInt8).toNat = 0 := rfl
    omega

/-- The number of an address `10.9.0.k`. -/
theorem htonl_subnet (k : UInt8) :
    htonl (u32OfMem [10, 9, 0, k]) = tundSubnet + UInt32.ofNat k.toNat := by
  have hk : k.toNat < 256 := k.toNat_lt
  have h10 : (10 : UInt8).toNat = 10 := rfl
  have h9 : (9 : UInt8).toNat = 9 := rfl
  have h0 : (0 : UInt8).toNat = 0 := rfl
  have hsub : tundSubnet.toNat = 0x0A090000 := rfl
  have hof : (UInt32.ofNat k.toNat).toNat = k.toNat :=
    UInt32.toNat_ofNat_of_lt' (by simp [UInt32.size]; omega)
  rw [← UInt32.toNat_inj, toNat_htonl_u32OfMem rfl, ofBe_four, UInt32.toNat_add, hof, hsub]
  omega

theorem htonl_subnet_eq_iff (k : UInt8) (n : ℕ) (hn : n < 256) :
    htonl (u32OfMem [10, 9, 0, k]) = tundSubnet + UInt32.ofNat n ↔ k.toNat = n := by
  have hk : k.toNat < 256 := k.toNat_lt
  have hsub : tundSubnet.toNat = 0x0A090000 := rfl
  have hof : ∀ m < 256, (UInt32.ofNat m).toNat = m :=
    fun m hm => UInt32.toNat_ofNat_of_lt' (by simp [UInt32.size]; omega)
  rw [htonl_subnet, ← UInt32.toNat_inj, UInt32.toNat_add, UInt32.toNat_add, hof _ hk, hof _ hn, hsub]
  omega

/-! ### The grammar -/

/-- The first byte of a packet: version and header length in words. -/
def ipVersion (ipPkt : Bytes) : ℕ := (ipPkt.getD 0 0).toNat / 16
def ipIhl (ipPkt : Bytes) : ℕ := (ipPkt.getD 0 0).toNat % 16

/-- The total-length field. -/
def ipTotalLength (ipPkt : Bytes) : ℕ := Bytes.ofBe (Bytes.slice ipPkt 2 2)

/-- A packet from a host of the virtual LAN to a host of it or to all. -/
structure LanPacket (ipPkt : Bytes) : Prop where
  header : 20 ≤ ipPkt.length
  version : ipVersion ipPkt = 4
  ihl : 5 ≤ ipIhl ipPkt
  options : 4 * ipIhl ipPkt ≤ ipPkt.length
  total : ipTotalLength ipPkt = ipPkt.length
  src : ∃ k : UInt8, 1 ≤ k.toNat ∧ k.toNat ≤ 254 ∧ Bytes.slice ipPkt 12 4 = [10, 9, 0, k]
  dst : ∃ k : UInt8, 1 ≤ k.toNat ∧ Bytes.slice ipPkt 16 4 = [10, 9, 0, k]

theorem shiftRight_four_eq_iff (x : UInt8) : x >>> 4 = 4 ↔ x.toNat / 16 = 4 := by
  have h4 : (4 : UInt8).toNat = 4 := rfl
  rw [← UInt8.toNat_inj, UInt8.toNat_shiftRight, h4, Nat.shiftRight_eq_div_pow]

theorem ihl_toNat (x : UInt8) : ((x &&& 0x0F) * 4).toNat = 4 * (x.toNat % 16) := by
  have hand : (x &&& 0x0F).toNat = x.toNat % 16 := by
    rw [UInt8.toNat_and]
    exact Nat.and_two_pow_sub_one_eq_mod x.toNat 4
  have h4 : (4 : UInt8).toNat = 4 := rfl
  rw [UInt8.toNat_mul, hand, h4]
  omega

/-- The conditions on the source address. -/
theorem src_ok_iff {b : Bytes} (h : b.length = 4) :
    ¬ (htonl (u32OfMem b) &&& tundNetmask ≠ tundSubnet ∨ htonl (u32OfMem b) = tundSubnet ∨
      htonl (u32OfMem b) = tundBroadcast) ↔
    ∃ k : UInt8, 1 ≤ k.toNat ∧ k.toNat ≤ 254 ∧ b = [10, 9, 0, k] := by
  have hsub : tundSubnet = tundSubnet + UInt32.ofNat 0 := by decide
  have hall : tundBroadcast = tundSubnet + UInt32.ofNat 255 := by decide
  push Not
  constructor
  · rintro ⟨hnet, hne, hne'⟩
    obtain ⟨k, rfl⟩ := (and_netmask_eq_subnet_iff h).1 hnet
    have hk : k.toNat < 256 := k.toNat_lt
    rw [hsub, ne_eq, htonl_subnet_eq_iff k 0 (by decide)] at hne
    rw [hall, ne_eq, htonl_subnet_eq_iff k 255 (by decide)] at hne'
    exact ⟨k, by omega, by omega, rfl⟩
  · rintro ⟨k, hlo, hhi, rfl⟩
    refine ⟨(and_netmask_eq_subnet_iff rfl).2 ⟨k, rfl⟩, ?_, ?_⟩
    · rw [hsub, ne_eq, htonl_subnet_eq_iff k 0 (by decide)]
      omega
    · rw [hall, ne_eq, htonl_subnet_eq_iff k 255 (by decide)]
      omega

/-- The conditions on the destination address. -/
theorem dst_ok_iff {b : Bytes} (h : b.length = 4) :
    (htonl (u32OfMem b) ≠ tundSubnet ∧ ¬ (htonl (u32OfMem b) ≠ tundBroadcast ∧
      htonl (u32OfMem b) &&& tundNetmask ≠ tundSubnet)) ↔
    ∃ k : UInt8, 1 ≤ k.toNat ∧ b = [10, 9, 0, k] := by
  have hsub : tundSubnet = tundSubnet + UInt32.ofNat 0 := by decide
  have hnet : tundBroadcast &&& tundNetmask = tundSubnet := by decide
  constructor
  · rintro ⟨hne, hor⟩
    have hin : htonl (u32OfMem b) &&& tundNetmask = tundSubnet := by
      by_contra hout
      apply hor
      constructor
      · intro hall
        rw [hall] at hout
        exact hout hnet
      · exact hout
    obtain ⟨k, rfl⟩ := (and_netmask_eq_subnet_iff h).1 hin
    rw [hsub, ne_eq, htonl_subnet_eq_iff k 0 (by decide)] at hne
    exact ⟨k, by omega, rfl⟩
  · rintro ⟨k, hlo, rfl⟩
    constructor
    · rw [hsub, ne_eq, htonl_subnet_eq_iff k 0 (by decide)]
      omega
    · exact fun hboth => hboth.2 ((and_netmask_eq_subnet_iff rfl).2 ⟨k, rfl⟩)

/-- **The gate.**  A packet is accepted exactly if it belongs to the virtual LAN. -/
theorem validate_eq_none_iff (ipPkt : Bytes) :
    protoValidateIpv4Packet ipPkt = none ↔ LanPacket ipPkt := by
  by_cases hshort : ipPkt.length < 20
  · simp only [protoValidateIpv4Packet, if_pos hshort]
    constructor
    · nofun
    · intro h
      have := h.header
      omega
  have hsrc : (Bytes.slice ipPkt 12 4).length = 4 := Bytes.length_slice (by omega)
  have hdst : (Bytes.slice ipPkt 16 4).length = 4 := Bytes.length_slice (by omega)
  have hS := src_ok_iff hsrc
  have hD := dst_ok_iff hdst
  have hver := shiftRight_four_eq_iff (ipPkt.getD 0 0)
  simp only [protoValidateIpv4Packet, if_neg hshort, protoGetSrcIp, protoGetDstIp, ihl_toNat]
  constructor
  · intro h
    split_ifs at h with h1 h2 h3 h4 h5 h6 h7 h8 h9
    refine ⟨by omega, ?_, ?_, ?_, ?_, hS.1 h7, hD.1 ⟨h8, h9⟩⟩
    · exact hver.1 (not_not.1 h1)
    · unfold ipIhl
      omega
    · unfold ipIhl
      omega
    · unfold ipTotalLength
      exact not_not.1 h6
  · rintro ⟨-, hv, hihl, hopt, htot, hs, hd⟩
    unfold ipIhl at hihl hopt
    unfold ipTotalLength at htot
    obtain ⟨hd1, hd2⟩ := hD.2 hd
    rw [if_neg (not_not.2 (hver.2 hv)), if_neg (by omega), if_neg (by omega), if_neg (by omega),
      if_neg (by omega), if_neg (not_not.2 htot), if_neg (hS.2 hs), if_neg hd1, if_neg hd2]

end Tund
