import SplitDNS.Go.Netip

/-! # Messages

The part of the DNS library that the program uses: record types and classes by
number and name, fully qualified names, messages and replies. Reading a record
from its text is left as a parameter, `NewRR`, since the program only builds the
text and passes on what comes back.
-/

namespace Dns

open Go Go.Netip Go.Strings

abbrev RRType := UInt16

def typeA : RRType := 1
def typeNS : RRType := 2
def typeCNAME : RRType := 5
def typeSOA : RRType := 6
def typePTR : RRType := 12
def typeHINFO : RRType := 13
def typeMX : RRType := 15
def typeTXT : RRType := 16
def typeAAAA : RRType := 28
def typeSRV : RRType := 33
def typeOPT : RRType := 41
def typeTLSA : RRType := 52
def typeSVCB : RRType := 64
def typeHTTPS : RRType := 65
def typeANY : RRType := 255
def typeCAA : RRType := 257

/-- `dns.TypeToString`. -/
def typeNames : List (RRType × String) :=
  [(0, "None"), (1, "A"), (2, "NS"), (3, "MD"), (4, "MF"), (5, "CNAME"), (6, "SOA"), (7, "MB"),
   (8, "MG"), (9, "MR"), (10, "NULL"), (12, "PTR"), (13, "HINFO"), (14, "MINFO"), (15, "MX"),
   (16, "TXT"), (17, "RP"), (18, "AFSDB"), (19, "X25"), (20, "ISDN"), (21, "RT"), (23, "NSAP-PTR"),
   (24, "SIG"), (25, "KEY"), (26, "PX"), (27, "GPOS"), (28, "AAAA"), (29, "LOC"), (30, "NXT"),
   (31, "EID"), (32, "NIMLOC"), (33, "SRV"), (34, "ATMA"), (35, "NAPTR"), (36, "KX"), (37, "CERT"),
   (39, "DNAME"), (41, "OPT"), (42, "APL"), (43, "DS"), (44, "SSHFP"), (45, "IPSECKEY"),
   (46, "RRSIG"), (47, "NSEC"), (48, "DNSKEY"), (49, "DHCID"), (50, "NSEC3"), (51, "NSEC3PARAM"),
   (52, "TLSA"), (53, "SMIMEA"), (55, "HIP"), (56, "NINFO"), (57, "RKEY"), (58, "TALINK"),
   (59, "CDS"), (60, "CDNSKEY"), (61, "OPENPGPKEY"), (62, "CSYNC"), (63, "ZONEMD"), (64, "SVCB"),
   (65, "HTTPS"), (99, "SPF"), (100, "UINFO"), (101, "UID"), (102, "GID"), (103, "UNSPEC"),
   (104, "NID"), (105, "L32"), (106, "L64"), (107, "LP"), (108, "EUI48"), (109, "EUI64"),
   (128, "NXNAME"), (249, "TKEY"), (250, "TSIG"), (251, "IXFR"), (252, "AXFR"), (253, "MAILB"),
   (254, "MAILA"), (255, "ANY"), (256, "URI"), (257, "CAA"), (258, "AVC"), (260, "AMTRELAY"),
   (261, "RESINFO"), (32768, "TA"), (32769, "DLV"), (65535, "Reserved")]

/-- The name of a type, empty for a number without one. -/
def typeToString (t : RRType) : Str := ((typeNames.lookup t).map String.toList).getD []

def stringToType (s : Str) : Option RRType :=
  (typeNames.find? fun p => p.2.toList = s).map Prod.fst

def classINET : UInt16 := 1

def classToString (c : UInt16) : Str :=
  ((([(1, "IN"), (2, "CS"), (3, "CH"), (4, "HS"), (254, "NONE"), (255, "ANY")] :
    List (UInt16 × String)).lookup c).map String.toList).getD []

def isFqdn (s : Str) : Bool :=
  match s.reverse with
  | '.' :: r => (r.takeWhile (· = '\\')).length % 2 = 0
  | _ => false

def fqdn (s : Str) : Str := if isFqdn s then s else s ++ ['.']

theorem dot_suffix_of_isFqdn {s : Str} (h : isFqdn s = true) : ['.'] <:+ s := by
  unfold isFqdn at h
  split at h
  next r hr => exact ⟨r.reverse, by rw [← List.reverse_cons, ← hr, List.reverse_reverse]⟩
  · cases h

theorem dot_suffix_fqdn (s : Str) : ['.'] <:+ fqdn s := by
  unfold fqdn
  split_ifs with hf
  · exact dot_suffix_of_isFqdn hf
  · exact List.suffix_append _ _

theorem fqdn_of_not_suffix {s : Str} (h : ¬ ['.'] <:+ s) : fqdn s = s ++ ['.'] :=
  if_neg fun hf => h (dot_suffix_of_isFqdn hf)

theorem trimSuffix_fqdn {s : Str} (h : ¬ ['.'] <:+ s) : trimSuffix (fqdn s) ['.'] = s := by
  rw [fqdn_of_not_suffix h, trimSuffix_append]

theorem isFqdn_toLower (s : Str) : isFqdn (toLower s) = isFqdn s := by
  have hdot : ∀ c : Char, c.toLower = '.' ↔ c = '.' := fun c =>
    toLower_char_eq_iff (by decide) (by decide)
  have hslash : ((fun c : Char => decide (c = '\\')) ∘ Char.toLower) = fun c => decide (c = '\\') :=
    funext fun c => decide_eq_decide.mpr (toLower_char_eq_iff (by decide) (by decide))
  unfold isFqdn toLower
  rw [← List.map_reverse]
  rcases s.reverse with _ | ⟨c, r⟩
  · rfl
  · by_cases hc : c = '.'
    · subst hc
      change decide (((r.map Char.toLower).takeWhile (· = '\\')).length % 2 = 0) = _
      rw [List.takeWhile_map, List.length_map, hslash]
      rfl
    · have hc' : c.toLower ≠ '.' := fun h => hc ((hdot c).mp h)
      rw [List.map_cons]
      split
      next h => exact absurd (List.cons_eq_cons.mp h).1 hc'
      next =>
        split
        next h => exact absurd (List.cons_eq_cons.mp h).1 hc
        · rfl

theorem fqdn_toLower (s : Str) : fqdn (toLower s) = toLower (fqdn s) := by
  rw [fqdn, fqdn, isFqdn_toLower]
  split_ifs
  · rfl
  · rw [toLower, toLower, List.map_append]
    rfl

theorem toLower_fqdn_eq_iff (s : Str) : toLower (fqdn s) = fqdn s ↔ toLower s = s := by
  rw [fqdn]
  split_ifs
  · rfl
  · rw [toLower, List.map_append]
    exact List.append_left_inj ['.']

/-- `dns.RR_Header`. -/
structure Header where
  name : Str
  rrtype : RRType
  cls : UInt16
  ttl : UInt32
  deriving DecidableEq, Repr

inductive SVCBKeyValue where
  | alpn (protocols : List Str)
  | port (port : UInt16)
  | dohPath (template : Str)
  | ipv4Hint (hint : List Addr)
  | ipv6Hint (hint : List Addr)
  deriving DecidableEq, Repr

/-- The data of a record: of the kinds the program builds or looks into, or as its text. -/
inductive RData where
  | a (addr : Addr)
  | aaaa (addr : Addr)
  | ptr (target : Str)
  | soa (ns mbox : Str) (serial refresh retry expire minttl : UInt32)
  | opt
  | srv (priority weight port : UInt16) (target : Str)
  | txt (strings : List Str)
  | hinfo (cpu os : Str)
  | svcb (priority : UInt16) (target : Str) (value : List SVCBKeyValue)
  | text (rdata : Str)
  deriving DecidableEq, Repr

/-- A concrete record behind the `dns.RR` interface. -/
structure Record where
  hdr : Header
  data : RData
  deriving DecidableEq, Repr

/-- A value of the `dns.RR` interface, which may be nil. -/
abbrev RR := Option Record

/-- `dns.NewRR`: an error, nil for a text without a record, or the record. -/
abbrev NewRR := Str → Except Str RR

/-- A response code, the ones from four on counted from there. -/
inductive Rcode where
  | success
  | formatError
  | serverFailure
  | nameError
  | other (n : ℕ)
  deriving DecidableEq, Repr

structure Question where
  name : Str
  qtype : RRType
  qclass : UInt16
  deriving DecidableEq, Repr

/-- `dns.Msg` with the header bits that replies copy or set. -/
structure Msg where
  id : UInt16 := 0
  response : Bool := false
  opcode : ℕ := 0
  authoritative : Bool := false
  truncated : Bool := false
  recursionDesired : Bool := false
  recursionAvailable : Bool := false
  checkingDisabled : Bool := false
  rcode : Rcode := .success
  question : List Question := []
  answer : List RR := []
  ns : List RR := []
  extra : List RR := []
  deriving DecidableEq, Repr

def setReply (request : Msg) : Msg where
  id := request.id
  response := true
  opcode := request.opcode
  recursionDesired := request.opcode = 0 && request.recursionDesired
  checkingDisabled := request.opcode = 0 && request.checkingDisabled
  question := request.question.take 1

def setRcode (request : Msg) (rcode : Rcode) : Msg := { setReply request with rcode := rcode }

def addresses (rrs : List RR) : List RR :=
  rrs.filter fun rr => rr.any fun r => r.hdr.rrtype = typeA || r.hdr.rrtype = typeAAAA

end Dns
