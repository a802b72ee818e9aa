import Inferna.Lib.Url

/-!
# The upstream guard

`services/upstream_guard.py`: which addresses a worker may register and the gateway
may connect to.  A target is reduced to its host, the host to addresses, and these
are checked against an allowlist or the blocked networks; the answer is the address
to connect to, so that no second DNS lookup decides.

The resolver is a parameter: an answer is a failure, a refused name, or the
addresses in the order `getaddrinfo` gives them.

## Main definitions

* `GuardError` — why a target is refused.
* `GuardSettings` — the environment and the allowlist.
* `extractHost`, `resolveHostIps`, `ipIsBlocked`, `ipAllowedByAllowlist`,
  `hostnameInAllowlist`.
* `resolveAndValidate` — `resolve_and_validate`.
-/

namespace Inferna

/-- Why a target is refused.  Each is a `ValueError`. -/
inductive GuardError
  | emptyTarget
  | invalidTarget (target : List Char) (e : UrlError)
  | missingHostname (target : List Char)
  | invalidName (host : List Char)
  | notInAllowlist (host : List Char)
  | blockedAddress (host : List Char) (ip : IpAddress)
  | unresolvableAllowlisted (host : List Char)
  | unresolvableNotAllowlisted (host : List Char)
  | nonAllowlistedAddress (host : List Char) (ip : IpAddress)
  | unresolvableInProduction (host : List Char)
  deriving DecidableEq, Repr

/-- What the guard reads from the settings. -/
structure GuardSettings where
  environment : String := "development"
  gatewayUpstreamAllowlist : List Char := []

/-- `gateway_upstream_allowlist_entries`. -/
def GuardSettings.entries (s : GuardSettings) : List (List Char) :=
  ((s.gatewayUpstreamAllowlist.splitOn ',').map Text.strip).filter (· ≠ [])

/-- An answer of the resolver. -/
inductive DnsAnswer
  /-- `socket.gaierror`. -/
  | failure
  /-- The name cannot be encoded, which is a `ValueError`. -/
  | invalidName
  /-- The addresses of the answer, as texts. -/
  | addresses (texts : List (List Char))
  deriving DecidableEq, Repr

/-! ### Hosts -/

/-- Split a text at the first `"://"`. -/
def splitAtScheme : List Char → Option (List Char × List Char)
  | ':' :: '/' :: '/' :: rest => some ([], rest)
  | c :: cs => (splitAtScheme cs).map fun p => (c :: p.1, p.2)
  | [] => none

/-- The part of a target in which the fallback looks for a host. -/
def fallbackCandidate (raw : List Char) : List Char :=
  match splitAtScheme raw with
  | some (_, rest) => Text.strip (Text.before '#' (Text.before '?' (Text.before '/' rest)))
  | none => Text.strip raw

/-- The address between brackets at the start of a candidate. -/
def bracketedIp : List Char → Option (List Char)
  | '[' :: rest =>
    ((Text.partition ']' rest).map Prod.fst).filter fun ip => (ipAddress ip).isSome
  | _ => none

/-- What stands before the port of a candidate. -/
def beforePort (u : Unicode) (candidate : List Char) : Option (List Char) :=
  match Text.rpartition ':' candidate with
  | some (host, port) =>
    if candidate.count ':' = 1 ∧ port ≠ [] ∧ port.all u.isDigit then some host else none
  | none => none

/-- The host of a target for which `urlsplit` finds none: a bare address, or what
stands before a port. -/
def fallbackHost (u : Unicode) (target raw : List Char) : Except GuardError (List Char) :=
  match bracketedIp (fallbackCandidate raw) with
  | some ip => .ok ip
  | none =>
    if (ipAddress (fallbackCandidate raw)).isSome then .ok (fallbackCandidate raw)
    else
      match beforePort u (fallbackCandidate raw) with
      | some host => .ok host
      | none => .error (.missingHostname target)

/-- `_extract_host`. -/
def extractHost (u : Unicode) (target : List Char) : Except GuardError (List Char) :=
  let raw := Text.strip target
  if raw = [] then .error .emptyTarget
  else
    let parseTarget := if (splitAtScheme raw).isSome then raw else "http://".toList ++ raw
    match urlsplit u parseTarget with
    | .error e => .error (.invalidTarget target e)
    | .ok parsed =>
      match parsed.hostname u with
      | some (c :: cs) => .ok (c :: cs)
      | _ => fallbackHost u target raw

/-- `resolve_host_ips`: the addresses of an answer, each once; a failure is no
address. -/
def resolveHostIps (dns : List Char → DnsAnswer) (host : List Char) :
    Except GuardError (List IpAddress) :=
  match dns host with
  | .failure => .ok []
  | .invalidName => .error (.invalidName host)
  | .addresses texts =>
    .ok ((texts.filterMap ipAddress).foldl (fun out ip => if ip ∈ out then out else out ++ [ip]) [])

/-! ### Policies -/

/-- `_unwrap_ipv4_mapped`. -/
def unwrapIpv4Mapped (ip : IpAddress) : IpAddress := ip.ipv4Mapped.getD ip

/-- `_BLOCKED_NETWORKS`. -/
def blockedNetworks : List IpNetwork :=
  ["127.0.0.0/8", "::1/128", "169.254.0.0/16", "fe80::/10", "10.0.0.0/8", "172.16.0.0/12",
    "192.168.0.0/16", "fc00::/7", "0.0.0.0/8", "::/128", "255.255.255.255/32", "224.0.0.0/4",
    "ff00::/8"].filterMap fun s => ipNetwork s.toList

/-- `_ip_is_blocked`. -/
def ipIsBlocked (ip : IpAddress) : Bool :=
  blockedNetworks.any fun net => net.contains (unwrapIpv4Mapped ip)

/-- An entry of the allowlist matches the address. -/
def entryMatches (ip : IpAddress) (entry : List Char) : Bool :=
  if '/' ∈ entry then (ipNetwork entry).any (·.contains ip) else ipAddress entry = some ip

/-- `_ip_allowed_by_allowlist`. -/
def ipAllowedByAllowlist (ip : IpAddress) (allowlist : List (List Char)) : Bool :=
  allowlist.any (entryMatches ip)

/-- `host.lower().rstrip(".")`. -/
def hostNorm (u : Unicode) (host : List Char) : List Char :=
  ((u.lower host).reverse.dropWhile (· = '.')).reverse

/-- The entry is a host name, and it is this one. -/
def entryNames (u : Unicode) (host entry : List Char) : Bool :=
  '/' ∉ entry ∧ ipAddress entry = none ∧ hostNorm u host = hostNorm u entry

/-- `hostname_in_allowlist`. -/
def hostnameInAllowlist (u : Unicode) (host : List Char) (s : GuardSettings) : Bool :=
  s.entries.any (entryNames u host)

/-- `_prefer_ipv4`: the first IPv4 address, else the first address. -/
def preferIpv4 (ip : IpAddress) (ips : List IpAddress) : IpAddress :=
  ((ip :: ips).find? fun ip => match ip with
    | .v4 _ => true
    | .v6 _ _ => false).getD ip

/-- `_ip_to_pin`. -/
def ipToPin : IpAddress → List Char
  | .v4 v => IpAddress.text (.v4 v)
  | .v6 v zone => '[' :: IpAddress.text (.v6 v zone) ++ [']']

/-! ### `resolve_and_validate` -/

/-- The path of a literal address. -/
def validateLiteral (s : GuardSettings) (host : List Char) (literal : IpAddress) :
    Except GuardError (List Char) :=
  let ip := unwrapIpv4Mapped literal
  if s.entries ≠ [] then
    if ipAllowedByAllowlist ip s.entries then .ok (ipToPin ip) else .error (.notInAllowlist host)
  else if s.environment = "development" then .ok (ipToPin ip)
  else if ipIsBlocked ip then .error (.blockedAddress host ip)
  else .ok (ipToPin ip)

/-- Every address must pass; the first that does not is reported. -/
def checkAll (ok : IpAddress → Bool) (err : IpAddress → GuardError) (ips : List IpAddress) :
    Except GuardError Unit :=
  match ips.find? fun ip => !ok (unwrapIpv4Mapped ip) with
  | some ip => .error (err (unwrapIpv4Mapped ip))
  | none => .ok ()

/-- The path of a host name under an allowlist. -/
def validateListed (u : Unicode) (dns : List Char → DnsAnswer) (s : GuardSettings)
    (host : List Char) : Except GuardError (List Char) := do
  let ips ← resolveHostIps dns host
  if hostnameInAllowlist u host s then
    match ips with
    | ip :: ips => return ipToPin (preferIpv4 ip ips)
    | [] =>
      -- no address to pin
      if s.environment = "production" then throw (.unresolvableAllowlisted host)
      else return host
  else
    match ips with
    | [] => throw (.unresolvableNotAllowlisted host)
    | ip :: ips =>
      checkAll (ipAllowedByAllowlist · s.entries) (.nonAllowlistedAddress host) (ip :: ips)
      return ipToPin (preferIpv4 ip ips)

/-- The path of a host name without an allowlist. -/
def validateUnlisted (dns : List Char → DnsAnswer) (s : GuardSettings) (host : List Char) :
    Except GuardError (List Char) := do
  let ips ← resolveHostIps dns host
  if s.environment = "development" then
    match ips with
    | ip :: ips => return ipToPin (preferIpv4 ip ips)
    | [] => return host
  else
    match ips with
    | [] => throw (.unresolvableInProduction host)
    | ip :: ips =>
      checkAll (fun ip => !ipIsBlocked ip) (.blockedAddress host) (ip :: ips)
      return ipToPin (preferIpv4 ip ips)

/-- `resolve_and_validate`. -/
def resolveAndValidate (u : Unicode) (dns : List Char → DnsAnswer) (s : GuardSettings)
    (target : List Char) : Except GuardError (List Char) := do
  let host ← extractHost u target
  match ipAddress host with
  | some literal => validateLiteral s host literal
  | none =>
    if s.entries ≠ [] then validateListed u dns s host else validateUnlisted dns s host

end Inferna
