import Inferna.UpstreamGuard

/-!
# What the upstream guard lets through

Outside development the guard is to answer with an address that its policy allows,
and never with a name.  One branch does not: an allowlisted name without an address
is refused only when the environment is `production`.

## Main definitions

* `AddressOk`, `PinSafe` — an address the policy allows, and an answer that is one.
* `LeaksName` — the targets for which a name is answered.

## Main results

* `host_ne_ipToPin` — a host that is no literal address is the text of none.
* `pinSafe_iff` — **outside development the guard is safe exactly on the targets that
  do not leak.**
* `staging_leaks_name` — such a target.
-/

namespace Inferna

variable {u : Unicode} {dns : List Char → DnsAnswer} {s : GuardSettings}

/-- The policy allows the address for the host: under an allowlist it is matched by
an address or network entry, or it was resolved for an allowlisted name; without
one it is not blocked. -/
def AddressOk (u : Unicode) (dns : List Char → DnsAnswer) (s : GuardSettings) (host : List Char)
    (ip : IpAddress) : Prop :=
  if s.entries ≠ [] then
    ipAllowedByAllowlist (unwrapIpv4Mapped ip) s.entries = true ∨
      (hostnameInAllowlist u host s = true ∧ ∃ ips, resolveHostIps dns host = .ok ips ∧ ip ∈ ips)
  else ipIsBlocked ip = false

/-- The answer is the text of an address that the policy allows, and so are all
addresses of a name that is not itself allowlisted. -/
def PinSafe (u : Unicode) (dns : List Char → DnsAnswer) (s : GuardSettings)
    (target pin : List Char) : Prop :=
  ∃ host, extractHost u target = .ok host ∧
    (∃ ip, pin = ipToPin ip ∧ AddressOk u dns s host ip) ∧
    (ipAddress host = none → hostnameInAllowlist u host s = false →
      ∀ ips, resolveHostIps dns host = .ok ips → ∀ ip ∈ ips, AddressOk u dns s host ip)

/-- The environment is not `production`, and the target is an allowlisted name for
which there is no address. -/
def LeaksName (u : Unicode) (dns : List Char → DnsAnswer) (s : GuardSettings)
    (target : List Char) : Prop :=
  s.environment ≠ "production" ∧ ∃ host, extractHost u target = .ok host ∧
    ipAddress host = none ∧ hostnameInAllowlist u host s = true ∧ resolveHostIps dns host = .ok []

/-! ### Hosts are no pins -/

/-- What stands before the one colon of a candidate has none. -/
theorem notMem_of_rpartition {s a b : List Char} (h : Text.rpartition ':' s = some (a, b))
    (hone : s.count ':' = 1) : ':' ∉ a := by
  unfold Text.rpartition at h
  obtain ⟨⟨x, y⟩, hp, hq⟩ := Option.map_eq_some_iff.mp h
  injection hq with ha hb
  subst ha
  have hs : s = y.reverse ++ ':' :: x.reverse := by
    have hrev := congrArg List.reverse (Text.partition_eq_some hp).1
    rw [List.reverse_reverse, List.reverse_append, List.reverse_cons] at hrev
    rw [hrev, List.append_assoc]
    rfl
  intro hmem
  have hpos : 0 < y.reverse.count ':' := List.count_pos_iff.mpr hmem
  rw [hs, List.count_append, List.count_cons_self] at hone
  omega

theorem beforePort_ok {candidate host : List Char} (h : beforePort u candidate = some host) :
    ':' ∉ host := by
  unfold beforePort at h
  split at h
  · rename_i hpart
    split at h
    · rename_i hcount
      injection h with h
      exact h ▸ notMem_of_rpartition hpart hcount.1
    · cases h
  · cases h

theorem bracketedIp_ok {candidate ip : List Char} (h : bracketedIp candidate = some ip) :
    (ipAddress ip).isSome = true := by
  unfold bracketedIp at h
  split at h
  · exact (Option.filter_eq_some_iff.mp h).2
  · cases h

/-- The fallback answers with an address, or with a text without a colon. -/
theorem fallbackHost_ok {target raw host : List Char} (h : fallbackHost u target raw = .ok host) :
    (ipAddress host).isSome = true ∨ ':' ∉ host := by
  unfold fallbackHost at h
  split at h
  · rename_i hip
    injection h with h
    exact Or.inl (h ▸ bracketedIp_ok hip)
  split at h
  · rename_i hip
    injection h with h
    exact Or.inl (h ▸ hip)
  split at h
  · rename_i hport
    injection h with h
    exact Or.inr (h ▸ beforePort_ok hport)
  · cases h

/-- **A host that is no literal address is the text of none.** -/
theorem host_ne_ipToPin {target host : List Char} (h : extractHost u target = .ok host)
    (hlit : ipAddress host = none) (ip : IpAddress) : host ≠ ipToPin ip := by
  intro heq
  cases ip with
  | v4 v =>
    -- the text of an IPv4 address is a literal
    have hsome := isSome_ipAddress_text v
    rw [← show host = IpAddress.text (.v4 v) from heq, hlit] at hsome
    cases hsome
  | v6 v zone =>
    have hcolon : ':' ∈ host := by
      rw [heq]
      exact List.mem_cons_of_mem _ (List.mem_append_left _ (colon_mem_text v zone))
    unfold extractHost at h
    simp only at h
    split at h
    · cases h
    split at h
    · cases h
    rename_i parsed hsplit
    split at h
    · rename_i c cs hname
      injection h with h
      -- no host name starts with the bracket of an IPv6 pin
      refine hostname_head hsplit hname ?_
      rw [h, heq]
      rfl
    · rcases fallbackHost_ok h with hsome | hnot
      · rw [hlit] at hsome
        cases hsome
      · exact hnot hcolon

/-! ### The branches -/

theorem unwrap_unwrap (ip : IpAddress) :
    unwrapIpv4Mapped (unwrapIpv4Mapped ip) = unwrapIpv4Mapped ip := by
  unfold unwrapIpv4Mapped
  cases h : ip.ipv4Mapped with
  | none => rw [Option.getD_none, h]; rfl
  | some ip' =>
    rw [Option.getD_some]
    cases ip with
    | v4 v => cases h
    | v6 v zone =>
      simp only [IpAddress.ipv4Mapped] at h
      split at h
      · injection h with h
        subst h
        rfl
      · cases h

theorem ipIsBlocked_unwrap (ip : IpAddress) :
    ipIsBlocked (unwrapIpv4Mapped ip) = ipIsBlocked ip := by
  unfold ipIsBlocked
  rw [unwrap_unwrap]

theorem preferIpv4_mem (ip : IpAddress) (ips : List IpAddress) :
    preferIpv4 ip ips ∈ ip :: ips := by
  unfold preferIpv4
  cases h : List.find? _ (ip :: ips) with
  | none => exact List.mem_cons_self
  | some ip' => exact List.mem_of_find?_eq_some h

theorem checkAll_ok {ok : IpAddress → Bool} {err : IpAddress → GuardError} {ips : List IpAddress}
    (h : checkAll ok err ips = .ok ()) : ∀ ip ∈ ips, ok (unwrapIpv4Mapped ip) = true := by
  unfold checkAll at h
  split at h
  · cases h
  · rename_i hnone
    intro ip hip
    have hnot := List.find?_eq_none.mp hnone ip hip
    simpa using hnot

/-- The path of a literal address is safe. -/
theorem pinSafe_literal {target host pin : List Char} {literal : IpAddress}
    (henv : s.environment ≠ "development") (hhost : extractHost u target = .ok host)
    (hlit : ipAddress host = some literal) (h : validateLiteral s host literal = .ok pin) :
    PinSafe u dns s target pin := by
  refine ⟨host, hhost, ?_, fun hnone => by rw [hlit] at hnone; cases hnone⟩
  unfold validateLiteral at h
  simp only at h
  split at h
  · rename_i hlist
    split at h
    · rename_i hallowed
      injection h with h
      refine ⟨_, h.symm, ?_⟩
      unfold AddressOk
      rw [if_pos hlist, unwrap_unwrap]
      exact Or.inl hallowed
    · cases h
  · rename_i hlist
    split at h
    · cases h
    · rename_i hblocked
      injection h with h
      refine ⟨_, h.symm, ?_⟩
      unfold AddressOk
      rw [if_neg hlist]
      rw [ipIsBlocked_unwrap] at hblocked ⊢
      simpa using hblocked

/-- What the path of a listed name comes to. -/
theorem validateListed_ok {host pin : List Char} (h : validateListed u dns s host = .ok pin) :
    ∃ ips, resolveHostIps dns host = .ok ips ∧
      ((ips = [] ∧ hostnameInAllowlist u host s = true ∧ s.environment ≠ "production" ∧ pin = host) ∨
      ((∃ ip ∈ ips, pin = ipToPin ip) ∧
        (hostnameInAllowlist u host s = false →
          ∀ ip ∈ ips, ipAllowedByAllowlist (unwrapIpv4Mapped ip) s.entries = true))) := by
  unfold validateListed at h
  simp only [bind, Except.bind] at h
  split at h
  · cases h
  rename_i ips hips
  refine ⟨ips, hips, ?_⟩
  split at h
  · rename_i hname
    split at h
    · injection h with h
      refine Or.inr ⟨⟨_, preferIpv4_mem _ _, h.symm⟩, fun hno => ?_⟩
      rw [hname] at hno
      cases hno
    · split at h
      · cases h
      · rename_i hprod
        injection h with h
        exact Or.inl ⟨rfl, hname, hprod, h.symm⟩
  · split at h
    · cases h
    · split at h
      · cases h
      · rename_i hall
        injection h with h
        exact Or.inr ⟨⟨_, preferIpv4_mem _ _, h.symm⟩, fun _ => checkAll_ok hall⟩

/-- What the path of a name without an allowlist comes to. -/
theorem validateUnlisted_ok {host pin : List Char} (henv : s.environment ≠ "development")
    (h : validateUnlisted dns s host = .ok pin) :
    ∃ ips, resolveHostIps dns host = .ok ips ∧ (∃ ip ∈ ips, pin = ipToPin ip) ∧
      ∀ ip ∈ ips, ipIsBlocked ip = false := by
  unfold validateUnlisted at h
  simp only [bind, Except.bind] at h
  split at h
  · cases h
  rename_i ips hips
  rw [if_neg henv] at h
  split at h
  · cases h
  · split at h
    · cases h
    · rename_i hall
      injection h with h
      refine ⟨_, hips, ⟨_, preferIpv4_mem _ _, h.symm⟩, fun ip hip => ?_⟩
      have hok := checkAll_ok hall ip hip
      rw [ipIsBlocked_unwrap] at hok
      simpa using hok

/-! ### Outside development -/

/-- A listed name whose answer is one of its addresses is safe. -/
theorem pinSafe_listed {target host pin : List Char} {ips : List IpAddress}
    (hhost : extractHost u target = .ok host) (hlist : s.entries ≠ [])
    (hips : resolveHostIps dns host = .ok ips) (hpin : ∃ ip ∈ ips, pin = ipToPin ip)
    (hall : hostnameInAllowlist u host s = false →
      ∀ ip ∈ ips, ipAllowedByAllowlist (unwrapIpv4Mapped ip) s.entries = true) :
    PinSafe u dns s target pin := by
  obtain ⟨ip, hip, rfl⟩ := hpin
  refine ⟨host, hhost, ⟨ip, rfl, ?_⟩, fun _ hno ips' hips' ip' hip' => ?_⟩
  · unfold AddressOk
    rw [if_pos hlist]
    cases hname : hostnameInAllowlist u host s with
    | true => exact Or.inr ⟨rfl, ips, hips, hip⟩
    | false => exact Or.inl (hall hname ip hip)
  · rw [hips] at hips'
    injection hips' with hips'
    subst hips'
    unfold AddressOk
    rw [if_pos hlist]
    exact Or.inl (hall hno ip' hip')

/-- A name that is answered with one of its addresses, none of them blocked, is safe. -/
theorem pinSafe_unlisted {target host pin : List Char} {ips : List IpAddress}
    (hhost : extractHost u target = .ok host) (hlist : ¬ s.entries ≠ [])
    (hips : resolveHostIps dns host = .ok ips) (hpin : ∃ ip ∈ ips, pin = ipToPin ip)
    (hall : ∀ ip ∈ ips, ipIsBlocked ip = false) : PinSafe u dns s target pin := by
  obtain ⟨ip, hip, rfl⟩ := hpin
  refine ⟨host, hhost, ⟨ip, rfl, ?_⟩, fun _ _ ips' hips' ip' hip' => ?_⟩
  · unfold AddressOk
    rw [if_neg hlist]
    exact hall ip hip
  · rw [hips] at hips'
    injection hips' with hips'
    subst hips'
    unfold AddressOk
    rw [if_neg hlist]
    exact hall ip' hip'

/-- A name of the allowlist is none when there is no allowlist. -/
theorem entries_ne_nil {host : List Char} (h : hostnameInAllowlist u host s = true) :
    s.entries ≠ [] := by
  intro hnil
  unfold hostnameInAllowlist at h
  rw [hnil] at h
  cases h

/-- A leaking target is answered with its own host. -/
theorem resolveAndValidate_of_leaks {target host : List Char} (henv : s.environment ≠ "production")
    (hhost : extractHost u target = .ok host) (hlit : ipAddress host = none)
    (hname : hostnameInAllowlist u host s = true) (hnone : resolveHostIps dns host = .ok []) :
    resolveAndValidate u dns s target = .ok host := by
  unfold resolveAndValidate validateListed
  rw [hhost]
  simp only [bind, Except.bind, hlit, if_pos (entries_ne_nil hname), hnone, hname, if_pos,
    if_neg henv]
  rfl

/-- A safe answer is no name. -/
theorem not_pinSafe_host {target host : List Char} (hhost : extractHost u target = .ok host)
    (hlit : ipAddress host = none) : ¬ PinSafe u dns s target host := by
  rintro ⟨host', hhost', ⟨ip, hpin, -⟩, -⟩
  exact host_ne_ipToPin hhost hlit ip hpin

/-- **Outside development the guard is safe exactly on the targets that do not leak.** -/
theorem pinSafe_iff (henv : s.environment ≠ "development") (target : List Char) :
    (∀ pin, resolveAndValidate u dns s target = .ok pin → PinSafe u dns s target pin) ↔
      ¬ LeaksName u dns s target := by
  constructor
  · rintro hsafe ⟨hprod, host, hhost, hlit, hname, hnone⟩
    have hpin := hsafe host (resolveAndValidate_of_leaks hprod hhost hlit hname hnone)
    exact not_pinSafe_host hhost hlit hpin
  · intro hleak pin h
    unfold resolveAndValidate at h
    simp only [bind, Except.bind] at h
    split at h
    · cases h
    rename_i host hhost
    split at h
    · rename_i literal hlit
      exact pinSafe_literal henv hhost hlit h
    · rename_i hlit
      split at h
      · rename_i hlist
        obtain ⟨ips, hips, ⟨rfl, hname, hprod, rfl⟩ | ⟨hpin, hall⟩⟩ := validateListed_ok h
        · exact (hleak ⟨hprod, _, hhost, hlit, hname, hips⟩).elim
        · exact pinSafe_listed hhost hlist hips hpin hall
      · rename_i hlist
        obtain ⟨ips, hips, hpin, hall⟩ := validateUnlisted_ok henv h
        exact pinSafe_unlisted hhost hlist hips hpin hall

/-- A staging server that allows the name `gpu-node` and the network `10.1.0.0/16`. -/
def stagingGuard : GuardSettings where
  environment := "staging"
  gatewayUpstreamAllowlist := "gpu-node, 10.1.0.0/16".toList

/-- A resolver that knows one name. -/
def oneName (host : List Char) : DnsAnswer :=
  if host = "gpu-node".toList then .addresses ["10.1.0.7".toList] else .failure

theorem pinSafe_iff_staging :
    stagingGuard.environment ≠ "development" ∧
    resolveAndValidate Unicode.ascii oneName stagingGuard "http://gpu-node".toList =
      .ok "10.1.0.7".toList ∧
    PinSafe Unicode.ascii oneName stagingGuard "http://gpu-node".toList "10.1.0.7".toList := by
  have hanswer : resolveAndValidate Unicode.ascii oneName stagingGuard "http://gpu-node".toList =
      .ok "10.1.0.7".toList := by decide +kernel
  refine ⟨by decide, hanswer, (pinSafe_iff (by decide) _).mpr ?_ _ hanswer⟩
  rintro ⟨-, host, hhost, -, -, hnone⟩
  have hname : extractHost Unicode.ascii "http://gpu-node".toList = .ok "gpu-node".toList := by
    decide +kernel
  rw [hname] at hhost
  injection hhost with hhost
  subst hhost
  revert hnone
  decide +kernel

/-- **A staging server passes an allowlisted name on that has no address.** -/
theorem staging_leaks_name :
    ¬ ∀ (dns : List Char → DnsAnswer) (s : GuardSettings) (target : List Char),
      s.environment ≠ "development" → ∀ pin,
        resolveAndValidate Unicode.ascii dns s target = .ok pin →
          PinSafe Unicode.ascii dns s target pin := by
  intro hsafe
  have hanswer : resolveAndValidate Unicode.ascii (fun _ => .failure) stagingGuard
      "http://gpu-node".toList = .ok "gpu-node".toList := by decide +kernel
  have hname : extractHost Unicode.ascii "http://gpu-node".toList = .ok "gpu-node".toList := by
    decide +kernel
  exact not_pinSafe_host hname (by decide +kernel) (hsafe _ stagingGuard _ (by decide) _ hanswer)

end Inferna
