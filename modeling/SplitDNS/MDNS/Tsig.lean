import SplitDNS.Dns.Tsig
import SplitDNS.Go.Maps
import SplitDNS.Go.Strings

/-! # The signature verifier

Announcements may be signed. A packet is trusted when its trailing record names
a configured key, its code and signed time verify, and the code was not accepted
before. The codes are remembered with the time of their first receipt, for a
retention derived from the fudge of whichever packet is being checked.
-/

namespace SplitDNS.MDNS

open Go Go.Strings Dns

def canonKeyName (name : Str) : Str := toLower (trimSuffix (trimSpace name) ['.']) ++ ['.']

def tsigSeenCap : ℕ := 1024

structure SigVerifier where
  secrets : Map Str Str
  seen : Map Str Time := ∅

/-- `NewSigVerifier`; without keys there is no verifier. -/
def newSigVerifier (secrets : Map Str Str) (ord : RangeOrder Str Str) : Option SigVerifier :=
  if secrets.entries = [] then none
  else some
    { secrets := (ord.visit secrets).foldl (fun cp p => cp.insert (canonKeyName p.1) p.2) ∅ }

/-- Twice the fudge, at least half a minute and at most ten minutes. -/
def retention (fudge : Duration) : Duration := min (max (2 * fudge) (30 * second)) (10 * minute)

namespace SigVerifier

/-- The codes that a check with the given retention still knows. -/
def remembered (v : SigVerifier) (retain : Duration) (now : Time) : Map Str Time :=
  v.seen.deleteIf fun _ ts => retain < now - ts

/-- Whether the code is seen for the first time, and the verifier that remembers it. -/
def freshMAC (v : SigVerifier) (mac : Str) (fudge : Duration) (now : Time) : SigVerifier × Bool :=
  if mac = [] then (v, false)
  else
    let seen := v.remembered (retention fudge) now
    if mac ∈ seen then ({ v with seen }, false)
    else ({ v with seen :=
      if seen.entries.length < tsigSeenCap then seen.insert mac now else seen },
      true)

variable {B : Type*} (scheme : TsigScheme B)

/-- The signature record of a packet whose key is known and whose signature verifies. -/
def authenticate (v : SigVerifier) (b : B) (now : Time) : Option Tsig :=
  (scheme.tsig b).filter fun t =>
    (v.secrets.lookup (canonKeyName t.name)).any fun secret => tsigVerify scheme b secret (unix now)

def verify (v : SigVerifier) (b : B) (now : Time) : SigVerifier × Bool :=
  match v.authenticate scheme b now with
  | none => (v, false)
  | some t => v.freshMAC t.mac (t.fudge.toNat * second) now

end SigVerifier

end SplitDNS.MDNS
