import SplitDNS.Forwarder.Queries
import SplitDNS.Go.HostPort

/-! # The configured upstreams

A server of the configuration is an address, with or without a port, and after an
`@` the name its certificate is for. It becomes one upstream over TLS and one over
plain UDP.
-/

namespace SplitDNS.Forwarder

open Go

/-- The names in the certificates of well-known resolvers. -/
def dotNames : List (Str × Str) :=
  [("1.1.1.1", "cloudflare-dns.com"), ("1.0.0.1", "cloudflare-dns.com"),
    ("2606:4700:4700::1111", "cloudflare-dns.com"), ("2606:4700:4700::1001", "cloudflare-dns.com"),
    ("8.8.8.8", "dns.google"), ("8.8.4.4", "dns.google"),
    ("2001:4860:4860::8888", "dns.google"), ("2001:4860:4860::8844", "dns.google"),
    ("9.9.9.9", "dns.quad9.net"), ("149.112.112.112", "dns.quad9.net")].map
      fun (ip, name) => (ip.toList, name.toList)

/-- The parts of a configured server: its address, its port and its name. -/
structure Target where
  ip : Str
  port : Str
  name : Str
  deriving DecidableEq, Repr

def parseServer (s : Str) : Target :=
  let host := s.takeWhile (· ≠ '@')
  let sni := (s.dropWhile (· ≠ '@')).tail
  let (ip, port) := (splitHostPort host).getD (host, [])
  ⟨ip, port, if sni = [] then (dotNames.lookup ip).getD [] else sni⟩

/-- The port for TLS: the one given, unless it is the one for plain DNS. -/
def Target.dotPort (t : Target) : Str :=
  if t.port = [] ∨ t.port = "53".toList then "853".toList else t.port

def Target.primary (t : Target) : Upstream where
  addr := joinHostPort t.ip t.dotPort
  net := "tcp-tls".toList
  serverName := t.name

def Target.fallback (t : Target) : Upstream where
  addr := joinHostPort t.ip "53".toList
  net := "udp".toList

theorem nets_of_targets (ts : List Target) :
    ∀ u ∈ ts.map Target.primary ++ ts.map Target.fallback, '|' ∉ u.net := by
  intro u hu
  rcases List.mem_append.mp hu with hu | hu <;> obtain ⟨t, -, rfl⟩ := List.mem_map.mp hu
  · simp [Target.primary]
  · simp [Target.fallback]

/-- The forwarder for the configured servers, if there are any. -/
def build (servers : List Str) (cleartext breaker : Bool) : Option Setup :=
  let targets := servers.map parseServer
  if targets.map Target.primary = [] then none
  else some
    { primary := targets.map Target.primary
      fallback := targets.map Target.fallback
      cleartext := cleartext
      breakerEnabled := breaker
      nets := nets_of_targets targets }

/-- The forwarder for one well-known server, with the fallback. -/
def oneServer : Setup where
  primary := [parseServer "1.1.1.1".toList].map Target.primary
  fallback := [parseServer "1.1.1.1".toList].map Target.fallback
  cleartext := true
  nets := nets_of_targets _

variable {servers : List Str} {cleartext breaker : Bool} {f : Setup}

theorem build_eq_some (h : build servers cleartext breaker = some f) :
    f.primary = (servers.map parseServer).map Target.primary ∧
      f.fallback = (servers.map parseServer).map Target.fallback ∧ f.cleartext = cleartext ∧
      f.breakerEnabled = breaker := by
  simp only [build] at h
  split_ifs at h
  cases h
  exact ⟨rfl, rfl, rfl, rfl⟩

end SplitDNS.Forwarder
