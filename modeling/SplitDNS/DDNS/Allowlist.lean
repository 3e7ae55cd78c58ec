import SplitDNS.DDNS.Writer
import SplitDNS.Mirror.Snapshot

/-! # The allowlist of the writer

One list of the configuration says which names may be written and which names
are kept from the hosts of the local network. The writer takes an entry as it
stands, the snapshot without the white space around it, so that an entry with
white space protects a name that the writer does not change.
-/

namespace SplitDNS.DDNS

open Go Go.Strings Dns Model Mirror

/-- The text is the name up to letter case, with or without the dot at its end. -/
def Spelled (s n : Str) : Prop := toLower s = toLower n ∨ toLower s = toLower n ++ ['.']

section Allowlist

variable {dryRun : Bool} {rate : Duration} {cfg : Config.DDNSConfig} {s n e : Str}

end Allowlist

end SplitDNS.DDNS
