import Mathlib.Data.List.Infix
import Mathlib.Data.List.Count

/-!
# Domain names

`util/dnsname`: the suffix test on names with or without a dot at the end.  A name is the list
of its characters.
-/

namespace Multiport.Dns

/-- A name as it is written. -/
abbrev Name := List Char

/-! ## Suffixes of names -/

/-- `strings.TrimSuffix`. -/
def trimSuffix (s suffix : Name) : Name :=
  if suffix.isSuffixOf s then s.take (s.length - suffix.length) else s

/-- `strings.TrimPrefix`. -/
def trimPrefix (s pre : Name) : Name := if pre.isPrefixOf s then s.drop pre.length else s

/-- `dnsname.HasSuffix`. -/
def hasSuffix (name suffix : Name) : Bool :=
  let name := trimSuffix name ['.']
  let suffix := trimPrefix (trimSuffix suffix ['.']) ['.']
  let nameBase := trimSuffix name suffix
  nameBase.length < name.length && ['.'].isSuffixOf nameBase

end Multiport.Dns
