import Inferna.Lib.Text
import Mathlib.Data.List.Basic
import Mathlib.Algebra.Order.Ring.Nat

/-!
# Addresses and networks

The textual forms of IPv4 and IPv6 addresses and networks, read and written as the
`ipaddress` module of the Python standard library does: decimal octets without
leading zeros, hextets with one `::` and an IPv4 tail, zone ids, and prefixes as a
length, a netmask or a hostmask.

## Main definitions

* `IpAddress`, `IpNetwork` — an address with its version, and a network.
* `ipAddress`, `ipNetwork` — `ip_address(s)` and `ip_network(s, strict=False)`.
* `IpAddress.ipv4Mapped`, `IpNetwork.contains`, `IpAddress.text`.

## Main results

* `isSome_ipAddress_text` — the text of an IPv4 address is read as an address.
* `colon_mem_text` — the text of an IPv6 address has a colon.
* `ipAddress_bracket` — no address starts with a bracket.
-/

/-- An address.  A zone id is kept as it was written. -/
inductive IpAddress
  | v4 (value : BitVec 32)
  | v6 (value : BitVec 128) (zone : Option (List Char))
  deriving DecidableEq, Repr

/-- A network: its address, with the host bits cleared, and its netmask. -/
inductive IpNetwork
  | v4 (network mask : BitVec 32)
  | v6 (network mask : BitVec 128)
  deriving DecidableEq, Repr

namespace Ip

/-! ### Reading addresses -/

/-- One octet of a dotted quad. -/
def parseOctet (s : List Char) : Option ℕ :=
  if ¬ Text.isDigits s ∨ 3 < s.length ∨ (s ≠ ['0'] ∧ s.head? = some '0') ∨
      255 < Text.digitsValue s then none
  else some (Text.digitsValue s)

/-- The value of four octets. -/
def quad : List ℕ → Option (BitVec 32)
  | [a, b, c, d] => some (BitVec.ofNat 32 (((a * 256 + b) * 256 + c) * 256 + d))
  | _ => none

/-- `IPv4Address(s)`. -/
def ipv4 (s : List Char) : Option (BitVec 32) :=
  if '/' ∈ s then none else ((s.splitOn '.').mapM parseOctet).bind quad

/-- A hexadecimal digit. -/
def isHex (c : Char) : Bool :=
  c.isDigit || ('a' ≤ c && c ≤ 'f') || ('A' ≤ c && c ≤ 'F')

/-- The value of a hexadecimal digit. -/
def hexDigit (c : Char) : ℕ :=
  if c.isDigit then c.toNat - '0'.toNat
  else if 'a' ≤ c then c.toNat - 'a'.toNat + 10 else c.toNat - 'A'.toNat + 10

/-- One group of an IPv6 address. -/
def parseHextet (s : List Char) : Option ℕ :=
  if s.isEmpty ∨ ¬ s.all isHex ∨ 4 < s.length then none
  else some (s.foldl (fun n c => 16 * n + hexDigit c) 0)

/-- The parts of an IPv6 address, with an IPv4 tail written as two groups. -/
def expandTail (parts : List (List Char)) : Option (List (List Char)) :=
  match parts.getLast? with
  | none => none
  | some last =>
    if '.' ∈ last then
      (ipv4 last).map fun (v : BitVec 32) => parts.dropLast ++
        [Nat.toDigits 16 (v >>> 16).toNat, Nat.toDigits 16 (v.toNat % 65536)]
    else some parts

/-- Where a `::` skips groups: the empty parts between the first and the last. -/
def skips (parts : List (List Char)) : List ℕ :=
  (List.range' 1 (parts.length - 2)).filter fun i => (parts.getD i []).isEmpty

/-- The groups of an IPv6 address whose `::` stands at part `i`. -/
def skippedGroups (parts : List (List Char)) (i : ℕ) : Option (List ℕ) :=
  let first := (parts.headD []).isEmpty
  let last := (parts.getLastD []).isEmpty
  let hi := if first then i - 1 else i
  let lo := if last then parts.length - i - 2 else parts.length - i - 1
  -- an empty first or last part must belong to the `::`
  if (first ∧ hi ≠ 0) ∨ (last ∧ lo ≠ 0) ∨ 7 < hi + lo then none
  else do
    let above ← (parts.take hi).mapM parseHextet
    let below ← (parts.drop (parts.length - lo)).mapM parseHextet
    return above ++ List.replicate (8 - (hi + lo)) 0 ++ below

/-- The eight groups of an IPv6 address. -/
def hextets (parts : List (List Char)) : Option (List ℕ) :=
  if 9 < parts.length then none
  else
    match skips parts with
    | [] => if parts.length ≠ 8 then none else parts.mapM parseHextet
    | [i] => skippedGroups parts i
    | _ => none

/-- The value of an IPv6 address without its zone. -/
def ipv6Value (s : List Char) : Option (BitVec 128) :=
  let parts := s.splitOn ':'
  if parts.length < 3 then none
  else ((expandTail parts).bind hextets).map fun groups =>
    BitVec.ofNat 128 (groups.foldl (fun n g => n * 65536 + g) 0)

/-- `IPv6Address(s)`: a zone id stands behind a `%`. -/
def ipv6 (s : List Char) : Option IpAddress :=
  if '/' ∈ s then none
  else
    match Text.partition '%' s with
    | none => (ipv6Value s).map fun v => .v6 v none
    | some (address, zone) =>
      if zone = [] ∨ '%' ∈ zone then none
      else (ipv6Value address).map fun v => .v6 v (some zone)

end Ip

/-- `ip_address(s)`. -/
def ipAddress (s : List Char) : Option IpAddress :=
  match Ip.ipv4 s with
  | some v => some (.v4 v)
  | none => Ip.ipv6 s

/-- `ip.ipv4_mapped`. -/
def IpAddress.ipv4Mapped : IpAddress → Option IpAddress
  | .v4 _ => none
  | .v6 v _ => if v >>> 32 = 0xffff then some (.v4 (v.truncate 32)) else none

/-! ### Networks -/

namespace Ip

/-- The netmask of a prefix length. -/
def netmask (w p : ℕ) : BitVec w := BitVec.allOnes w <<< (w - p)

/-- A prefix length in decimal digits. -/
def prefixLength (w : ℕ) (s : List Char) : Option ℕ :=
  if ¬ Text.isDigits s ∨ w < Text.digitsValue s then none else some (Text.digitsValue s)

/-- The prefix of a netmask, or of a hostmask. -/
def prefixOfMask (s : List Char) : Option ℕ :=
  (ipv4 s).bind fun v =>
    match (List.range 33).find? fun p => netmask 32 p = v with
    | some p => some p
    | none => (List.range 33).find? fun p => netmask 32 p = ~~~v

/-- The part of `IPv4Network` behind the slash. -/
def prefix4 (s : List Char) : Option ℕ :=
  match prefixLength 32 s with
  | some p => some p
  | none => prefixOfMask s

/-- `IPv4Network(s, strict=False)`. -/
def network4 (s : List Char) : Option IpNetwork :=
  let make (address : List Char) (p : Option ℕ) : Option IpNetwork :=
    (ipv4 address).bind fun v => p.map fun p => .v4 (v &&& netmask 32 p) (netmask 32 p)
  match s.splitOn '/' with
  | [address] => make address (some 32)
  | [address, p] => make address (prefix4 p)
  | _ => none

/-- `IPv6Network(s, strict=False)`. -/
def network6 (s : List Char) : Option IpNetwork :=
  let make (address : List Char) (p : Option ℕ) : Option IpNetwork :=
    match ipv6 address with
    | some (.v6 v _) => p.map fun p => .v6 (v &&& netmask 128 p) (netmask 128 p)
    | _ => none
  match s.splitOn '/' with
  | [address] => make address (some 128)
  | [address, p] => make address (prefixLength 128 p)
  | _ => none

end Ip

/-- `ip_network(s, strict=False)`. -/
def ipNetwork (s : List Char) : Option IpNetwork :=
  match Ip.network4 s with
  | some n => some n
  | none => Ip.network6 s

/-- `ip in net`: never for another version. -/
def IpNetwork.contains : IpNetwork → IpAddress → Bool
  | .v4 network mask, .v4 v => v &&& mask = network
  | .v6 network mask, .v6 v _ => v &&& mask = network
  | _, _ => false

/-! ### Writing addresses -/

namespace Ip

/-- The octets of an IPv4 address. -/
def octets (v : BitVec 32) : List ℕ :=
  [v.toNat / 2 ^ 24 % 256, v.toNat / 2 ^ 16 % 256, v.toNat / 2 ^ 8 % 256, v.toNat % 256]

/-- The groups of an IPv6 address, in hexadecimal. -/
def groups (v : BitVec 128) : List (List Char) :=
  (List.range 8).map fun i => Nat.toDigits 16 (v.toNat / 2 ^ (16 * (7 - i)) % 65536)

/-- The search for the longest run of zero groups: its start and length, and the
length of the run that ends here. -/
structure ZeroRun where
  start : ℕ := 0
  length : ℕ := 0
  current : ℕ := 0

/-- One group of the search. -/
def ZeroRun.step (z : ZeroRun) (group : List Char × ℕ) : ZeroRun :=
  if group.1 = ['0'] then
    if z.length < z.current + 1 then ⟨group.2 - z.current, z.current + 1, z.current + 1⟩
    else { z with current := z.current + 1 }
  else { z with current := 0 }

/-- `_compress_hextets`: the first longest run of at least two zeros becomes `::`. -/
def compress (parts : List (List Char)) : List (List Char) :=
  let z := parts.zipIdx.foldl ZeroRun.step {}
  if 1 < z.length then
    let all := if z.start + z.length = parts.length then parts ++ [[]] else parts
    let spliced := all.take z.start ++ [] :: all.drop (z.start + z.length)
    if z.start = 0 then [] :: spliced else spliced
  else parts

end Ip

/-- `str(ip)`. -/
def IpAddress.text : IpAddress → List Char
  | .v4 v => ['.'].intercalate ((Ip.octets v).map (Nat.toDigits 10))
  | .v6 v zone =>
    [':'].intercalate (Ip.compress (Ip.groups v)) ++ (zone.map ('%' :: ·)).getD []

/-! ### What the texts look like -/

namespace Ip

/-- The text of an octet is read back. -/
theorem parseOctet_toDigits {n : ℕ} (h : n < 256) : parseOctet (Nat.toDigits 10 n) = some n := by
  have hall : ∀ k : Fin 256, parseOctet (Nat.toDigits 10 k.val) = some k.val := by decide +kernel
  exact hall ⟨n, h⟩

theorem octets_lt (v : BitVec 32) : ∀ n ∈ octets v, n < 256 := by
  intro n hn
  simp only [octets, List.mem_cons, List.not_mem_nil, or_false] at hn
  omega

/-- A character that is no digit is in no octet. -/
theorem notMem_octet {v : BitVec 32} {c : Char} (hc : c.isDigit = false) :
    ∀ s ∈ (octets v).map (Nat.toDigits 10), c ∉ s := by
  intro s hs hmem
  obtain ⟨n, -, rfl⟩ := List.mem_map.mp hs
  have hdigit := Nat.isDigit_of_mem_toDigits (by decide) (by decide) hmem
  rw [hc] at hdigit
  cases hdigit

theorem notMem_intercalate {sep c : Char} (hne : c ≠ sep) : ∀ (ss : List (List Char)),
    (∀ s ∈ ss, c ∉ s) → c ∉ [sep].intercalate ss := by
  intro ss
  induction ss with
  | nil => intro _ h; exact absurd h List.not_mem_nil
  | cons s ss ih =>
    intro hss hmem
    cases ss with
    | nil =>
      rw [List.intercalate_singleton] at hmem
      exact hss s List.mem_cons_self hmem
    | cons t ts =>
      rw [List.intercalate_cons_cons, List.mem_append, List.mem_append, List.mem_singleton] at hmem
      rcases hmem with (hmem | hmem) | hmem
      · exact hss s List.mem_cons_self hmem
      · exact hne hmem
      · exact ih (fun x hx => hss x (List.mem_cons_of_mem _ hx)) hmem

theorem mapM_parseOctet : ∀ (ns : List ℕ), (∀ n ∈ ns, n < 256) →
    (ns.map (Nat.toDigits 10)).mapM parseOctet = some ns := by
  intro ns
  induction ns with
  | nil => intro _; rfl
  | cons n ns ih =>
    intro h
    rw [List.map_cons, List.mapM_cons, parseOctet_toDigits (h n List.mem_cons_self),
      ih fun k hk => h k (List.mem_cons_of_mem _ hk)]
    rfl

end Ip

/-- **The text of an IPv4 address is read as an address.** -/
theorem isSome_ipAddress_text (v : BitVec 32) :
    (ipAddress (IpAddress.text (.v4 v))).isSome = true := by
  have hslash : '/' ∉ IpAddress.text (.v4 v) :=
    Ip.notMem_intercalate (by decide) _ (Ip.notMem_octet rfl)
  have hsplit : (IpAddress.text (.v4 v)).splitOn '.' = (Ip.octets v).map (Nat.toDigits 10) :=
    List.splitOn_intercalate '.' (Ip.notMem_octet rfl) (by simp [Ip.octets])
  have hread : ∃ v', Ip.ipv4 (IpAddress.text (.v4 v)) = some v' := by
    unfold Ip.ipv4
    rw [if_neg hslash, hsplit, Ip.mapM_parseOctet _ (Ip.octets_lt v)]
    exact ⟨_, rfl⟩
  obtain ⟨v', hv'⟩ := hread
  unfold ipAddress
  rw [hv']
  rfl

namespace Ip

theorem sep_mem_intercalate {sep : Char} {ss : List (List Char)} (h : 2 ≤ ss.length) :
    sep ∈ [sep].intercalate ss := by
  match ss, h with
  | s :: t :: ts, _ =>
    rw [List.intercalate_cons_cons]
    simp

theorem two_le_length_compress {parts : List (List Char)} (h : 2 ≤ parts.length) :
    2 ≤ (compress parts).length := by
  unfold compress
  simp only
  split
  · split
    · rw [List.length_cons, List.length_append, List.length_cons]
      omega
    · -- something stands before the run
      rename_i hstart
      rw [List.length_append, List.length_cons, List.length_take]
      split
      · rw [List.length_append]
        omega
      · omega
  · exact h

end Ip

/-- **The text of an IPv6 address has a colon.** -/
theorem colon_mem_text (v : BitVec 128) (zone : Option (List Char)) :
    ':' ∈ IpAddress.text (.v6 v zone) := by
  have hlen : 2 ≤ (Ip.compress (Ip.groups v)).length :=
    Ip.two_le_length_compress (by simp [Ip.groups])
  exact List.mem_append_left _ (Ip.sep_mem_intercalate hlen)

namespace Ip

theorem parseHextet_bracket (s : List Char) : parseHextet ('[' :: s) = none := by
  unfold parseHextet
  rw [if_pos]
  right
  left
  simp [isHex]

theorem parseOctet_bracket (s : List Char) : parseOctet ('[' :: s) = none := by
  unfold parseOctet
  rw [if_pos]
  left
  simp [Text.isDigits]

/-- The first part of a text that starts with another character than the separator. -/
theorem splitOn_cons_of_ne {sep c : Char} (hne : c ≠ sep) (s : List Char) :
    ∃ p ps, (c :: s).splitOn sep = (c :: p) :: ps := by
  rw [List.splitOn_cons_eq_if_modifyHead, if_neg (by simpa using hne)]
  cases hs : s.splitOn sep with
  | nil => exact absurd hs (List.splitOn_ne_nil sep s)
  | cons p ps => exact ⟨p, ps, rfl⟩

/-- The groups of an address whose first part cannot be read are not read. -/
theorem hextets_bracket (s : List Char) (parts : List (List Char)) :
    hextets (('[' :: s) :: parts) = none := by
  unfold hextets
  split
  · rfl
  split
  · split
    · rfl
    · rw [List.mapM_cons, parseHextet_bracket]
      rfl
  · rename_i i hskips
    -- the `::` stands behind the first part
    have hi : 1 ≤ i := by
      have hmem : i ∈ skips (('[' :: s) :: parts) := hskips ▸ List.mem_singleton.mpr rfl
      exact (List.mem_range'_1.mp (List.mem_of_mem_filter hmem)).1
    obtain ⟨k, rfl⟩ : ∃ k, i = k + 1 := ⟨i - 1, by omega⟩
    unfold skippedGroups
    simp only [List.headD_cons, List.isEmpty_cons, Bool.false_eq_true, if_false]
    rw [List.take_succ_cons, List.mapM_cons, parseHextet_bracket]
    split_ifs <;> rfl
  · rfl

theorem ipv6Value_bracket (s : List Char) : ipv6Value ('[' :: s) = none := by
  obtain ⟨p, ps, hparts⟩ := splitOn_cons_of_ne (show '[' ≠ ':' by decide) s
  unfold ipv6Value
  simp only [hparts]
  split
  · rfl
  rename_i hlen
  have htail : (expandTail (('[' :: p) :: ps)).bind hextets = none := by
    unfold expandTail
    split
    · rfl
    split
    · -- the IPv4 tail is not the first part
      obtain ⟨q, qs, rfl⟩ : ∃ q qs, ps = q :: qs := by
        cases ps with
        | nil => simp at hlen
        | cons q qs => exact ⟨q, qs, rfl⟩
      rw [List.dropLast_cons_cons]
      cases ipv4 _ with
      | none => rfl
      | some v => exact hextets_bracket p _
    · exact hextets_bracket p ps
  rw [htail]
  rfl

theorem ipv4_bracket (s : List Char) : ipv4 ('[' :: s) = none := by
  obtain ⟨p, ps, hparts⟩ := splitOn_cons_of_ne (show '[' ≠ '.' by decide) s
  unfold ipv4
  split
  · rfl
  · rw [hparts, List.mapM_cons, parseOctet_bracket]
    rfl

end Ip

/-- **No address starts with a bracket.** -/
theorem ipAddress_bracket (s : List Char) : ipAddress ('[' :: s) = none := by
  unfold ipAddress
  rw [Ip.ipv4_bracket]
  simp only
  unfold Ip.ipv6
  split
  · rfl
  split
  · rw [Ip.ipv6Value_bracket]
    rfl
  · rename_i address zone hpart
    -- what stands before the zone starts with the bracket as well
    have hhead : ∃ t, address = '[' :: t := by
      simp only [Text.partition] at hpart
      obtain ⟨q, -, hq⟩ := Option.map_eq_some_iff.mp hpart
      injection hq with hq _
      exact ⟨_, hq.symm⟩
    obtain ⟨t, rfl⟩ := hhead
    split
    · rfl
    · rw [Ip.ipv6Value_bracket]
      rfl
