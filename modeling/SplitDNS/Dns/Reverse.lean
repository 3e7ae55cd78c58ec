import SplitDNS.Go.NetipText

/-! # Reverse names

The names below `in-addr.arpa.` and `ip6.arpa.` under which the pointers of an
address are kept.
-/

namespace Dns

open Go Go.Netip Go.Strings

/-- The hexadecimal digit of an IPv6 address at a position from the right. -/
def nibble (b : BitVec 128) (i : ℕ) : Char := Nat.digitChar (b.toNat / 16 ^ i % 16)

/-- `dns.ReverseAddr`: only the text of an address without a zone has a reverse name. -/
def reverseAddr (s : Str) : Option Str :=
  match ((parseAddr s).filter (·.zone = [])).map Addr.unmap with
  | some (.v4 b) =>
    some (join ((List.range 4).map fun i => formatUint (octet b (3 - i))) '.' ++
      ".in-addr.arpa.".toList)
  | some (.v6 b _) =>
    some (join ((List.range 32).map fun i => [nibble b i]) '.' ++ ".ip6.arpa.".toList)
  | _ => none

example : reverseAddr "10.0.0.7".toList = some "7.0.0.10.in-addr.arpa.".toList := by decide

end Dns
