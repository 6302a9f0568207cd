import Doca.Common.FlowParser
import Mathlib.Data.List.TakeWhile

/-!
# All-reduce: the destination addresses

`dest_addresses_init` of `allreduce_core.c`, which takes the argument of `-a` apart.

* `elements` — the tokens that the calls of `strtok` give; `atoi` is that of the flow parser.

Principal result: `parsesBack_iff`.
-/

namespace Doca.AllReduce

open List Doca.Common

def elements (str : List UInt8) : List (List UInt8) := (str.splitOn 0x2c).filter (· ≠ [])

structure Address where
  ipAddressStr : List UInt8
  port : UInt16
  deriving DecidableEq

variable (destPort : UInt16)

/-- One element.  What stands in front of the first colon is copied into the 64 bytes of `ip_address_str`
    without a check. -/
def destAddress (str : List UInt8) : Address :=
  if 0x3a ∈ str then ⟨str.takeWhile (· ≠ 0x3a), .ofInt (atoi (str.dropWhile (· ≠ 0x3a)).tail)⟩
  else ⟨str.take 63, destPort⟩

def destAddressesInit (str : List UInt8) : List Address × Nat :=
  (elements str).foldl (fun s str => (s.1 ++ [destAddress destPort str], s.2 + 1)) ([], 0)

/-- A peer: an IPv4 or IPv6 address, of which the length and the absence of a comma is used, and
    possibly a port. -/
structure Peer where
  ip : List UInt8
  port : Option UInt16
  nonempty : ip ≠ []
  comma : 0x2c ∉ ip
  len : ip.length ≤ 45

def Peer.text (p : Peer) : List UInt8 :=
  p.ip ++ match p.port with
    | none => []
    | some port => 0x3a :: decimal port.toNat

variable (peers : List Peer)

def argument : List UInt8 := [0x2c].intercalate (peers.map Peer.text)

def ParsesBack : Prop :=
  destAddressesInit destPort (argument peers) =
    (peers.map fun p => ⟨p.ip, p.port.getD destPort⟩, peers.length)

theorem destAddressesInit_eq (str : List UInt8) :
    destAddressesInit destPort str = ((elements str).map (destAddress destPort), (elements str).length) := by
  have hloop : ∀ (l : List (List UInt8)) (s : List Address × Nat),
      l.foldl (fun s str => (s.1 ++ [destAddress destPort str], s.2 + 1)) s =
        (s.1 ++ l.map (destAddress destPort), s.2 + l.length) := by
    intro l
    induction l with
    | nil => simp
    | cons str rest ih =>
      intro s
      rw [foldl_cons, ih]
      simp [Nat.add_comm, Nat.add_left_comm]
  rw [destAddressesInit, hloop, nil_append, Nat.zero_add]

theorem comma_notMem_text (p : Peer) : 0x2c ∉ p.text := by
  rw [Peer.text, mem_append, not_or]
  refine ⟨p.comma, ?_⟩
  split
  · exact not_mem_nil
  · intro h
    have hdigit := isDigit_decimal _ _ ((mem_cons.mp h).resolve_left (by decide))
    exact absurd hdigit (by decide)

theorem elements_argument : elements (argument peers) = peers.map Peer.text := by
  cases peers with
  | nil => rfl
  | cons p rest =>
    have hcomma : ∀ l ∈ (p :: rest).map Peer.text, 0x2c ∉ l := by
      intro l hl
      obtain ⟨q, -, rfl⟩ := mem_map.mp hl
      exact comma_notMem_text q
    rw [elements, argument, splitOn_intercalate 0x2c hcomma (by simp), filter_eq_self]
    intro l hl
    obtain ⟨q, -, rfl⟩ := mem_map.mp hl
    simp [Peer.text, q.nonempty]

theorem destAddress_text_iff (p : Peer) :
    destAddress destPort p.text = ⟨p.ip, p.port.getD destPort⟩ ↔ 0x3a ∉ p.ip := by
  constructor
  · intro h hcolon
    have htext : 0x3a ∈ p.text := mem_append_left _ hcolon
    rw [destAddress, if_pos htext, Address.mk.injEq] at h
    rw [← h.1] at hcolon
    simpa using mem_takeWhile_imp hcolon
  · intro hcolon
    have hip : ∀ c ∈ p.ip, decide (c ≠ 0x3a) = true := fun c hc =>
      decide_eq_true (ne_of_mem_of_not_mem hc hcolon)
    unfold destAddress Peer.text
    cases p.port with
    | none =>
      have hlen := p.len
      simp [hcolon, take_of_length_le (show p.ip.length ≤ 63 by omega)]
    | some port =>
      have hlt := port.toNat_lt
      have hport : UInt16.ofInt (port.toNat : Int) = port := by
        rw [← UInt16.toNat_inj, UInt16.ofInt, UInt16.toNat_ofNat']
        omega
      dsimp only
      rw [if_pos (by simp), takeWhile_append_of_pos hip, dropWhile_append_of_pos hip]
      simp [atoi_decimal (show port.toNat < 2147483648 by omega), hport]

/-- **When the peers are read back**: an IPv6 address ends at its first colon. -/
theorem parsesBack_iff (destPort : UInt16) (peers : List Peer) :
    ParsesBack destPort peers ↔ ∀ p ∈ peers, 0x3a ∉ p.ip := by
  rw [ParsesBack, destAddressesInit_eq, elements_argument, length_map, map_map, Prod.mk.injEq,
    and_iff_left rfl, map_inj_left]
  simp only [Function.comp_apply, destAddress_text_iff]

/-- The IPv6 address `fe80::1` becomes its first group, with the port 0. -/
theorem ipv6_cut : destAddressesInit 5000 (argument [⟨[0x66, 0x65, 0x38, 0x30, 0x3a, 0x3a, 0x31], none,
    by decide, by decide, by decide⟩]) = ([⟨[0x66, 0x65, 0x38, 0x30], 0⟩], 1) := by
  decide

end Doca.AllReduce
