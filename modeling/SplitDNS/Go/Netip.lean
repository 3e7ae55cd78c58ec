import Mathlib.Data.Char
import Mathlib.Data.List.Lex
import Mathlib.Data.Prod.Lex
import Mathlib.Order.Lattice
import SplitDNS.Go.Strings

/-! # Addresses

Go's `netip.Addr`: the invalid zero value, an IPv4 address, or an IPv6 address
with an optional zone. Addresses are ordered by family, then by value, then by
zone. The scope predicates see through IPv4-mapped IPv6 addresses, except that
only the plain all-zero addresses are unspecified.
-/

namespace Go.Netip

inductive Addr where
  | invalid
  | v4 (bits : BitVec 32)
  | v6 (bits : BitVec 128) (zone : Str)
  deriving DecidableEq, Repr

/-- The octet of an IPv4 address at a position from the left. -/
def octet (b : BitVec 32) (i : ℕ) : ℕ := b.toNat / 256 ^ (3 - i) % 256

/-- The 16-bit group of an IPv6 address at a position from the left. -/
def group (b : BitVec 128) (i : ℕ) : ℕ := b.toNat / 65536 ^ (7 - i) % 65536

namespace Addr

def isValid : Addr → Bool
  | invalid => false
  | _ => true

def is4 : Addr → Bool
  | v4 _ => true
  | _ => false

def is6 : Addr → Bool
  | v6 _ _ => true
  | _ => false

def zone : Addr → Str
  | v6 _ z => z
  | _ => []

/-- `::ffff:0:0/96`. -/
def is4In6 : Addr → Bool
  | v6 b _ => b.toNat / 2 ^ 32 = 0xffff
  | _ => false

/-- The IPv4 address of an IPv4-mapped one, any other address as it is. -/
def unmap : Addr → Addr
  | v6 b z => if (v6 b z).is4In6 then v4 (b.setWidth 32) else v6 b z
  | a => a

def isUnspecified (a : Addr) : Bool := a = v4 0 || a = v6 0 []

def isLoopback (a : Addr) : Bool :=
  match a.unmap with
  | v4 b => octet b 0 = 127
  | v6 b _ => b = 1
  | invalid => false

def isMulticast (a : Addr) : Bool :=
  match a.unmap with
  | v4 b => octet b 0 / 16 = 14
  | v6 b _ => group b 0 / 256 = 0xff
  | invalid => false

def isLinkLocalUnicast (a : Addr) : Bool :=
  match a.unmap with
  | v4 b => octet b 0 = 169 && octet b 1 = 254
  | v6 b _ => group b 0 / 64 = 0xfe80 / 64
  | invalid => false

def isPrivate (a : Addr) : Bool :=
  match a.unmap with
  | v4 b => octet b 0 = 10 || (octet b 0 = 172 && octet b 1 / 16 = 1) ||
      (octet b 0 = 192 && octet b 1 = 168)
  | v6 b _ => group b 0 / 512 = 0xfc00 / 512
  | invalid => false

def isGlobalUnicast (a : Addr) : Bool :=
  a.isValid && !(a.unmap = v4 0) && !(a.unmap = v4 (BitVec.allOnes 32)) && !(a = v6 0 []) &&
    !a.isLoopback && !a.isMulticast && !a.isLinkLocalUnicast

theorem unmap_unmap (a : Addr) : a.unmap.unmap = a.unmap := by
  cases a with
  | invalid => rfl
  | v4 b => rfl
  | v6 b z =>
    by_cases h : (v6 b z).is4In6 = true
    · simp [unmap, h]
    · simp [unmap, h]

def key : Addr → ℕ ×ₗ ℕ ×ₗ Str
  | invalid => toLex (0, toLex (0, []))
  | v4 b => toLex (32, toLex (b.toNat, []))
  | v6 b z => toLex (128, toLex (b.toNat, z))

theorem key_injective : Function.Injective key := by
  intro a b h
  cases a <;> cases b <;> simp_all [key, BitVec.toNat_inj]

/-- `Addr.Compare`. -/
instance : LinearOrder Addr := LinearOrder.lift' key key_injective

end Addr

/-- `netip.AddrFromSlice`: four or sixteen bytes, the most significant first. -/
def addrFromSlice (ip : List UInt8) : Option Addr :=
  let value := ip.foldl (fun acc o => acc * 256 + o.toNat) 0
  if ip.length = 4 then some (.v4 (.ofNat 32 value))
  else if ip.length = 16 then some (.v6 (.ofNat 128 value) [])
  else none

structure Prefix where
  addr : Addr
  bits : ℕ

/-- `Prefix.Contains`: the families agree, and an address with a zone is in no prefix. -/
def Prefix.contains (p : Prefix) (a : Addr) : Bool :=
  match p.addr, a with
  | .v4 b, .v4 c => b.toNat / 2 ^ (32 - p.bits) = c.toNat / 2 ^ (32 - p.bits)
  | .v6 b _, .v6 c z => z = [] && b.toNat / 2 ^ (128 - p.bits) = c.toNat / 2 ^ (128 - p.bits)
  | _, _ => false

end Go.Netip
