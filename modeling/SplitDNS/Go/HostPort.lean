import SplitDNS.Go.Basic

/-! # Addresses with a port

`net.SplitHostPort` and `net.JoinHostPort`. A host that has a colon stands in
brackets.
-/

namespace Go

/-- The text before and after the last occurrence of a character. -/
def cutLast (c : Char) (s : Str) : Option (Str × Str) :=
  match s.reverse.dropWhile (· ≠ c) with
  | [] => none
  | _ :: before => some (before.reverse, (s.reverse.takeWhile (· ≠ c)).reverse)

def splitHostPort (hostport : Str) : Option (Str × Str) :=
  (cutLast ':' hostport).bind fun (before, port) =>
    match hostport with
    | '[' :: tail =>
      -- the first `]` is just before the last colon
      let rest := (tail.dropWhile (· ≠ ']')).tail
      if rest = ':' :: port ∧ '[' ∉ tail ∧ ']' ∉ rest then some (tail.takeWhile (· ≠ ']'), port)
      else none
    | _ => if ':' ∉ before ∧ '[' ∉ hostport ∧ ']' ∉ hostport then some (before, port) else none

def joinHostPort (host port : Str) : Str :=
  if ':' ∈ host then '[' :: host ++ ']' :: ':' :: port else host ++ ':' :: port

end Go
