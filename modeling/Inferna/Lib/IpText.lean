import Inferna.Lib.Url
import Mathlib.Tactic

/-!
# The texts of addresses

Which texts are read as addresses, and that what is written is read again.  An IPv4 address has one
text.  An IPv6 address without a zone is written with small digits and its longest run of zero
groups left out; reading does not look at the case of a digit.

## Main results

* `Ip.text_of_ipv4` — a text read as an IPv4 address is the text of that address.
* `isLiteralChar_of_ipAddress` — the characters of an address without a zone.
* `ipAddress_asciiLower` — lower case does not change the address.
* `ipAddress_text` — **the text of an address is read as that address.**
* `Ip.IsLiteral.text`, `Ip.IsLiteral.lowerHost` — a literal that can stand in a URL stays one when
  its address is written again, and when a host name is lowered.
-/

namespace Ip

/-! ### IPv4 -/

/-- A decimal digit is the text of its value. -/
theorem digit_eq {c : Char} (h : c.isDigit = true) : ∃ d < 10, c = Nat.digitChar d := by
  rw [Char.isDigit_iff_toNat, show '0'.toNat = 48 from rfl, show '9'.toNat = 57 from rfl] at h
  refine ⟨c.toNat - 48, by omega, Char.toNat_inj.mp ?_⟩
  rw [Nat.toNat_digitChar_of_lt_ten (by omega)]
  omega

/-- A numeral behind the text of a number is the text of what both make. -/
theorem toDigits_append_digits {s : List Char} (hs : s.all Char.isDigit = true) :
    ∀ {n : ℕ}, 0 < n → Nat.toDigits 10 n ++ s =
      Nat.toDigits 10 (s.foldl (fun n c => 10 * n + (c.toNat - '0'.toNat)) n) := by
  induction s with
  | nil => exact fun _ => List.append_nil _
  | cons c s ih =>
    intro n hn
    rw [List.all_cons, Bool.and_eq_true] at hs
    obtain ⟨d, hd, rfl⟩ := digit_eq hs.1
    have hvalue : (Nat.digitChar d).toNat - '0'.toNat = d := by
      rw [Nat.toNat_digitChar_of_lt_ten hd, show '0'.toNat = 48 from rfl]
      omega
    rw [List.foldl_cons, hvalue, ← ih hs.2 (by omega), List.append_cons,
      ← Nat.toDigits_append_toDigits (by decide) hn hd, Nat.toDigits_of_lt_base hd]

/-- An octet has one text. -/
theorem toDigits_of_parseOctet {s : List Char} {n : ℕ} (h : parseOctet s = some n) :
    Nat.toDigits 10 n = s := by
  unfold parseOctet at h
  split at h
  · cases h
  · rename_i hs
    obtain rfl := Option.some.inj h
    rw [not_or, not_or, not_or, not_not] at hs
    obtain ⟨hdigits, -, hzero, -⟩ := hs
    rw [Text.isDigits, Bool.and_eq_true] at hdigits
    cases s with
    | nil => cases hdigits.1
    | cons c s =>
      replace hdigits := hdigits.2
      rw [List.all_cons, Bool.and_eq_true] at hdigits
      obtain ⟨d, hd, rfl⟩ := digit_eq hdigits.1
      have hvalue : (Nat.digitChar d).toNat - '0'.toNat = d := by
        rw [Nat.toNat_digitChar_of_lt_ten hd, show '0'.toNat = 48 from rfl]
        omega
      rw [Text.digitsValue, List.foldl_cons, hvalue, Nat.mul_zero, Nat.zero_add]
      rcases Nat.eq_zero_or_pos d with rfl | hpos
      · -- a leading zero stands alone
        have hs : s = [] := by
          by_contra hs
          exact hzero ⟨by simpa using hs, rfl⟩
        subst hs
        rfl
      · rw [← toDigits_append_digits hdigits.2 hpos, Nat.toDigits_of_lt_base hd]
        rfl

theorem parseOctet_lt {s : List Char} {n : ℕ} (h : parseOctet s = some n) : n < 256 := by
  unfold parseOctet at h
  split at h
  · cases h
  · rename_i hs
    obtain rfl := Option.some.inj h
    simp only [not_or] at hs
    omega

theorem mapM_parseOctet_eq_some : ∀ {parts : List (List Char)} {ns : List ℕ},
    parts.mapM parseOctet = some ns → parts = ns.map (Nat.toDigits 10) ∧ ∀ n ∈ ns, n < 256
  | [], _ => by
    intro h
    obtain rfl := Option.some.inj h
    exact ⟨rfl, fun _ h => absurd h List.not_mem_nil⟩
  | s :: parts, _ => by
    intro h
    rw [List.mapM_cons] at h
    obtain ⟨n, hn, h⟩ := Option.bind_eq_some_iff.mp h
    obtain ⟨ns, hns, h⟩ := Option.bind_eq_some_iff.mp h
    obtain rfl := Option.some.inj h
    obtain ⟨rfl, hlt⟩ := mapM_parseOctet_eq_some hns
    refine ⟨by rw [List.map_cons, toDigits_of_parseOctet hn], fun m hm => ?_⟩
    rcases List.mem_cons.mp hm with rfl | hm
    · exact parseOctet_lt hn
    · exact hlt m hm

/-- The octets of a quad. -/
theorem octets_quad {ns : List ℕ} {v : BitVec 32} (hlt : ∀ n ∈ ns, n < 256)
    (h : quad ns = some v) : octets v = ns := by
  match ns with
  | [a, b, c, d] =>
    obtain rfl := Option.some.inj h
    simp only [List.mem_cons, List.not_mem_nil, or_false, forall_eq_or_imp, forall_eq] at hlt
    obtain ⟨ha, hb, hc, hd⟩ := hlt
    have htoNat : (BitVec.ofNat 32 (((a * 256 + b) * 256 + c) * 256 + d)).toNat =
        ((a * 256 + b) * 256 + c) * 256 + d := by
      rw [BitVec.toNat_ofNat, Nat.mod_eq_of_lt (by omega)]
    simp only [octets, htoNat, List.cons.injEq, and_true]
    omega

theorem quad_octets (v : BitVec 32) : quad (octets v) = some v := by
  have hlt := v.isLt
  rw [octets, quad, Option.some.injEq]
  refine BitVec.eq_of_toNat_eq ?_
  rw [BitVec.toNat_ofNat]
  omega

/-- The text of an IPv4 address is read as that address. -/
theorem ipv4_text (v : BitVec 32) : ipv4 (IpAddress.text (.v4 v)) = some v := by
  have hslash : '/' ∉ IpAddress.text (.v4 v) := notMem_intercalate (by decide) _ (notMem_octet rfl)
  have hsplit : (IpAddress.text (.v4 v)).splitOn '.' = (octets v).map (Nat.toDigits 10) :=
    List.splitOn_intercalate '.' (notMem_octet rfl) (by simp [octets])
  unfold ipv4
  rw [if_neg hslash, hsplit, mapM_parseOctet _ (octets_lt v), Option.bind_some, quad_octets]

/-- **An IPv4 address has one text.** -/
theorem text_of_ipv4 {s : List Char} {v : BitVec 32} (h : ipv4 s = some v) :
    s = IpAddress.text (.v4 v) := by
  unfold ipv4 at h
  split at h
  · cases h
  · obtain ⟨ns, hns, hquad⟩ := Option.bind_eq_some_iff.mp h
    obtain ⟨hparts, hlt⟩ := mapM_parseOctet_eq_some hns
    rw [IpAddress.text, octets_quad hlt hquad, ← hparts, List.intercalate_splitOn]

/-! ### Characters -/

/-- The characters of an address without a zone. -/
def isLiteralChar (c : Char) : Bool := isHex c || c = '.' || c = ':'

theorem mem_intercalate {sep c : Char} : ∀ {ss : List (List Char)},
    c ∈ [sep].intercalate ss → c = sep ∨ ∃ s ∈ ss, c ∈ s
  | [] => fun h => absurd h List.not_mem_nil
  | [s] => fun h => by
    rw [List.intercalate_singleton] at h
    exact Or.inr ⟨s, List.mem_cons_self, h⟩
  | s :: t :: ss => fun h => by
    rw [List.intercalate_cons_cons, List.mem_append, List.mem_append, List.mem_singleton] at h
    rcases h with (h | h) | h
    · exact Or.inr ⟨s, List.mem_cons_self, h⟩
    · exact Or.inl h
    · rcases mem_intercalate h with h | ⟨r, hr, h⟩
      · exact Or.inl h
      · exact Or.inr ⟨r, List.mem_cons_of_mem _ hr, h⟩

theorem isHex_of_isDigit {c : Char} (h : c.isDigit = true) : isHex c = true := by
  rw [isHex, h]
  rfl

/-- An IPv4 address has digits and dots. -/
theorem mem_of_ipv4 {s : List Char} {v : BitVec 32} (h : ipv4 s = some v) {c : Char} (hc : c ∈ s) :
    c = '.' ∨ c.isDigit = true := by
  rw [text_of_ipv4 h] at hc
  refine (mem_intercalate hc).imp id ?_
  rintro ⟨t, ht, hct⟩
  by_contra hno
  exact notMem_octet (by simpa using hno) t ht hct

theorem all_isHex_of_parseHextet {s : List Char} {n : ℕ} (h : parseHextet s = some n) :
    s.all isHex = true := by
  unfold parseHextet at h
  split at h
  · cases h
  · rename_i hs
    rw [not_or, not_or, not_not] at hs
    exact hs.2.1

theorem all_isHex_of_mapM : ∀ {parts : List (List Char)} {ns : List ℕ},
    parts.mapM parseHextet = some ns → ∀ p ∈ parts, p.all isHex = true
  | [], _ => fun _ _ hp => absurd hp List.not_mem_nil
  | s :: parts, _ => fun h p hp => by
    rw [List.mapM_cons] at h
    obtain ⟨n, hn, h⟩ := Option.bind_eq_some_iff.mp h
    obtain ⟨ns, hns, -⟩ := Option.bind_eq_some_iff.mp h
    rcases List.mem_cons.mp hp with rfl | hp
    · exact all_isHex_of_parseHextet hn
    · exact all_isHex_of_mapM hns p hp

/-- What the groups around a `::` are read from: `hi` parts before it and `lo` parts behind it. -/
theorem skippedGroups_eq_some {parts : List (List Char)} {i : ℕ} {gs : List ℕ}
    (h : skippedGroups parts i = some gs) : ∃ hi lo above below,
      hi = (if (parts.headD []).isEmpty then i - 1 else i) ∧
      lo = (if (parts.getLastD []).isEmpty then parts.length - i - 2 else parts.length - i - 1) ∧
      ((parts.headD []).isEmpty → hi = 0) ∧ ((parts.getLastD []).isEmpty → lo = 0) ∧
      (parts.take hi).mapM parseHextet = some above ∧
      (parts.drop (parts.length - lo)).mapM parseHextet = some below ∧
      gs = above ++ List.replicate (8 - (hi + lo)) 0 ++ below := by
  unfold skippedGroups at h
  dsimp only at h
  generalize hhi : (if (parts.headD []).isEmpty then i - 1 else i) = hi at h
  generalize hlo : (if (parts.getLastD []).isEmpty then parts.length - i - 2
    else parts.length - i - 1) = lo at h
  split at h
  · cases h
  · rename_i hno
    rw [not_or, not_or, not_and, not_and, not_not, not_not] at hno
    obtain ⟨above, habove, h⟩ := Option.bind_eq_some_iff.mp h
    obtain ⟨below, hbelow, h⟩ := Option.bind_eq_some_iff.mp h
    exact ⟨hi, lo, above, below, rfl, rfl, hno.1, hno.2.1, habove, hbelow, (Option.some.inj h).symm⟩

/-- The parts around a `::` are read, or empty. -/
theorem all_isHex_of_skippedGroups {parts : List (List Char)} {i : ℕ} {gs : List ℕ}
    (hi1 : 1 ≤ i) (hlen : i + 1 < parts.length) (hempty : parts.getD i [] = [])
    (h : skippedGroups parts i = some gs) : ∀ p ∈ parts, p.all isHex = true := by
  intro p hp
  obtain ⟨k, hk, rfl⟩ := List.getElem_of_mem hp
  obtain ⟨hi, lo, above, below, hhi, hlo, hfirst, hlast, habove, hbelow, -⟩ :=
    skippedGroups_eq_some h
  by_cases h1 : k < hi
  · exact all_isHex_of_mapM habove _ (List.mem_take_iff_getElem.mpr ⟨k, by omega, rfl⟩)
  by_cases h2 : parts.length - lo ≤ k
  · refine all_isHex_of_mapM hbelow _ (List.mem_drop_iff_getElem.mpr
      ⟨k - (parts.length - lo), by omega, ?_⟩)
    congr 1
    omega
  -- between the two there are only the empty parts of the `::`
  have hcases : k = i ∨ (k = 0 ∧ (parts.headD []).isEmpty) ∨
      (k + 1 = parts.length ∧ (parts.getLastD []).isEmpty) := by
    by_cases hf : (parts.headD []).isEmpty
    · have hhi0 := hfirst hf
      rw [if_pos hf] at hhi
      by_cases hl : (parts.getLastD []).isEmpty
      · have hlo0 := hlast hl
        rw [if_pos hl] at hlo
        simp only [hf, hl, and_true]
        omega
      · rw [if_neg hl] at hlo
        simp only [hf, and_true]
        omega
    · rw [if_neg hf] at hhi
      by_cases hl : (parts.getLastD []).isEmpty
      · have hlo0 := hlast hl
        rw [if_pos hl] at hlo
        simp only [hl, and_true]
        omega
      · rw [if_neg hl] at hlo
        omega
  have hnil : parts[k] = [] := by
    rcases hcases with rfl | ⟨rfl, hhead⟩ | ⟨hk', hlast'⟩
    · rwa [List.getD_eq_getElem?_getD, List.getElem?_eq_getElem hk, Option.getD_some] at hempty
    · cases parts with
      | nil => cases hk
      | cons p ps => exact List.isEmpty_iff.mp hhead
    · have hne : parts ≠ [] := List.ne_nil_of_length_pos (by omega)
      rw [List.getLastD_eq_getLast?, List.getLast?_eq_some_getLast hne, Option.getD_some,
        List.isEmpty_iff, List.getLast_eq_getElem] at hlast'
      rw [← hlast']
      congr 1
      omega
  rw [hnil]
  rfl

theorem all_isHex_of_hextets {parts : List (List Char)} {gs : List ℕ}
    (h : hextets parts = some gs) : ∀ p ∈ parts, p.all isHex = true := by
  unfold hextets at h
  split at h
  · cases h
  split at h
  · split at h
    · cases h
    · exact all_isHex_of_mapM h
  · rename_i i hskips
    have hmem : i ∈ skips parts := hskips ▸ List.mem_singleton.mpr rfl
    obtain ⟨hrange, hempty⟩ := List.mem_filter.mp hmem
    have hi := List.mem_range'_1.mp hrange
    exact all_isHex_of_skippedGroups hi.1 (by omega) (List.isEmpty_iff.mp hempty) h
  · cases h

/-- The parts of an IPv6 address have hexadecimal digits, and the last one may have dots. -/
theorem isLiteralChar_of_expandTail {parts ps : List (List Char)} {gs : List ℕ}
    (h : expandTail parts = some ps) (hgs : hextets ps = some gs) :
    ∀ p ∈ parts, ∀ c ∈ p, isLiteralChar c = true := by
  have hhex := all_isHex_of_hextets hgs
  have hchar : ∀ p ∈ ps, ∀ c ∈ p, isLiteralChar c = true := fun p hp c hc => by
    rw [isLiteralChar, List.all_eq_true.mp (hhex p hp) c hc]
    rfl
  unfold expandTail at h
  split at h
  · cases h
  rename_i last hlast
  split at h
  · obtain ⟨v, hv, rfl⟩ := Option.map_eq_some_iff.mp h
    intro p hp c hc
    obtain ⟨init, rfl⟩ := List.getLast?_eq_some_iff.mp hlast
    rcases List.mem_append.mp hp with hp | hp
    · refine hchar p (List.mem_append_left _ ?_) c hc
      rwa [List.dropLast_concat]
    · rw [List.mem_singleton.mp hp] at hc
      rcases mem_of_ipv4 hv hc with rfl | hdigit
      · rfl
      · rw [isLiteralChar, isHex_of_isDigit hdigit]
        rfl
  · obtain rfl := Option.some.inj h
    exact hchar

theorem isLiteralChar_of_ipv6Value {s : List Char} {v : BitVec 128} (h : ipv6Value s = some v)
    {c : Char} (hc : c ∈ s) : isLiteralChar c = true := by
  unfold ipv6Value at h
  dsimp only at h
  split at h
  · cases h
  obtain ⟨gs, hgs, -⟩ := Option.map_eq_some_iff.mp h
  obtain ⟨ps, hps, hgs⟩ := Option.bind_eq_some_iff.mp hgs
  have hjoin : [':'].intercalate (s.splitOn ':') = s := List.intercalate_splitOn ':'
  rw [← hjoin] at hc
  rcases mem_intercalate hc with rfl | ⟨p, hp, hcp⟩
  · rfl
  · exact isLiteralChar_of_expandTail hps hgs p hp c hcp

end Ip

/-- An address without a zone, as the text of one. -/
theorem ipAddress_cases {s : List Char} {ip : IpAddress} (h : ipAddress s = some ip)
    (hzone : '%' ∉ s) : (∃ v, ip = .v4 v ∧ Ip.ipv4 s = some v) ∨
      ∃ v, ip = .v6 v none ∧ Ip.ipv4 s = none ∧ Ip.ipv6Value s = some v ∧ '/' ∉ s := by
  unfold ipAddress at h
  split at h
  · rename_i v hv
    exact Or.inl ⟨v, (Option.some.inj h).symm, hv⟩
  · rename_i hnone
    right
    unfold Ip.ipv6 at h
    rw [(Text.partition_eq_none_iff _ _).mpr hzone] at h
    split at h
    · cases h
    · rename_i hslash
      obtain ⟨v, hv, rfl⟩ := Option.map_eq_some_iff.mp h
      exact ⟨v, rfl, hnone, hv, hslash⟩

/-- **The characters of an address without a zone.** -/
theorem isLiteralChar_of_ipAddress {s : List Char} {ip : IpAddress} (h : ipAddress s = some ip)
    (hzone : '%' ∉ s) {c : Char} (hc : c ∈ s) : Ip.isLiteralChar c = true := by
  rcases ipAddress_cases h hzone with ⟨v, -, hv⟩ | ⟨v, -, -, hv, -⟩
  · rcases Ip.mem_of_ipv4 hv hc with rfl | hdigit
    · rfl
    · rw [Ip.isLiteralChar, Ip.isHex_of_isDigit hdigit]
      rfl
  · exact Ip.isLiteralChar_of_ipv6Value hv hc

/-! ### Lower case -/

namespace Ip

/-- Only a mark or a digit has it as its small letter. -/
theorem eq_of_toLower_eq {c d : Char} (h : c.toLower = d) (hd : d.toNat < 97) : c = d := by
  rcases c.toLower_cases with hl | ⟨h65, -, hl⟩
  · rw [← h, hl]
  · rw [h] at hl
    omega

theorem toLower_eq_iff {c d : Char} (hd : d.toNat < 65) : c.toLower = d ↔ c = d := by
  constructor
  · exact fun h => eq_of_toLower_eq h (by omega)
  · rintro rfl
    rcases c.toLower_cases with hl | ⟨h65, -, -⟩
    · exact hl
    · omega

theorem mem_asciiLower_iff {s : List Char} {d : Char} (hd : d.toNat < 65) :
    d ∈ Text.asciiLower s ↔ d ∈ s := by
  rw [Text.asciiLower, List.mem_map]
  constructor
  · rintro ⟨c, hc, hl⟩
    rwa [← (toLower_eq_iff hd).mp hl]
  · exact fun h => ⟨d, h, (toLower_eq_iff hd).mpr rfl⟩

theorem splitOn_asciiLower {sep : Char} (hsep : sep.toNat < 65) (s : List Char) :
    (Text.asciiLower s).splitOn sep = (s.splitOn sep).map Text.asciiLower := by
  induction s with
  | nil => rfl
  | cons c s ih =>
    have hcons : Text.asciiLower (c :: s) = c.toLower :: Text.asciiLower s := rfl
    rw [hcons, List.splitOn_cons_eq_if_modifyHead, List.splitOn_cons_eq_if_modifyHead, ih]
    by_cases hc : c = sep
    · have hl : c.toLower = sep := (toLower_eq_iff hsep).mpr hc
      rw [if_pos (by simpa using hl), if_pos (by simpa using hc)]
      rfl
    · have hl : ¬ c.toLower = sep := fun hl => hc ((toLower_eq_iff hsep).mp hl)
      rw [if_neg (by simpa using hl), if_neg (by simpa using hc)]
      cases s.splitOn sep <;> rfl

/-- The digits of an IPv4 address have no other case. -/
theorem ipv4_asciiLower (s : List Char) : ipv4 (Text.asciiLower s) = ipv4 s := by
  have hdot : ∀ {c : Char}, c = '.' ∨ c.isDigit = true → c.toNat < 58 := by
    rintro c (rfl | h)
    · decide
    · rw [Char.isDigit_iff_toNat, show '9'.toNat = 57 from rfl] at h
      omega
  -- a text whose lower case is an address is its lower case
  have hsame : ∀ {v}, ipv4 (Text.asciiLower s) = some v → Text.asciiLower s = s := by
    intro v hv
    refine (List.map_congr_left fun c hc => ?_).trans (List.map_id s)
    have hlt := hdot (mem_of_ipv4 hv (List.mem_map.mpr ⟨c, hc, rfl⟩))
    exact (eq_of_toLower_eq rfl (by omega)).symm
  cases hv : ipv4 s with
  | some v =>
    have hl : Text.asciiLower s = s := by
      refine (List.map_congr_left fun c hc => ?_).trans (List.map_id s)
      have hlt := hdot (mem_of_ipv4 hv hc)
      rcases c.toLower_cases with hl | ⟨h65, -, -⟩
      · exact hl
      · omega
    rw [hl, hv]
  | none =>
    cases hv' : ipv4 (Text.asciiLower s) with
    | none => rfl
    | some v => rw [hsame hv', hv] at hv'; cases hv'

theorem isHex_iff (c : Char) : isHex c = true ↔ (48 ≤ c.toNat ∧ c.toNat ≤ 57) ∨
    (97 ≤ c.toNat ∧ c.toNat ≤ 102) ∨ (65 ≤ c.toNat ∧ c.toNat ≤ 70) := by
  have hle : ∀ a b : Char, a ≤ b ↔ a.toNat ≤ b.toNat := fun _ _ => Iff.rfl
  simp only [isHex, Bool.or_eq_true, Bool.and_eq_true, decide_eq_true_eq, Char.isDigit_iff_toNat,
    hle, or_assoc]
  rfl

theorem isHex_toLower (c : Char) : isHex c.toLower = isHex c := by
  rw [Bool.eq_iff_iff, isHex_iff, isHex_iff]
  rcases c.toLower_cases with hl | ⟨h65, h90, hl⟩
  · rw [hl]
  · rw [hl]
    omega

theorem hexDigit_toLower (c : Char) : hexDigit c.toLower = hexDigit c := by
  rcases c.toLower_cases with hl | ⟨h65, h90, hl⟩
  · rw [hl]
  · have hle : ∀ a b : Char, a ≤ b ↔ a.toNat ≤ b.toNat := fun _ _ => Iff.rfl
    have hdigit : ∀ d : Char, 65 ≤ d.toNat → ¬ d.isDigit = true := fun d hd hdig => by
      rw [Char.isDigit_iff_toNat, show '9'.toNat = 57 from rfl] at hdig
      omega
    have hsmall : 'a' ≤ c.toLower := (hle _ _).mpr (by rw [hl, show 'a'.toNat = 97 from rfl]; omega)
    have hcap : ¬ 'a' ≤ c := fun hc => by
      rw [hle, show 'a'.toNat = 97 from rfl] at hc
      omega
    unfold hexDigit
    rw [if_neg (hdigit _ (by omega)), if_neg (hdigit _ h65), if_pos hsmall, if_neg hcap, hl]
    rfl

theorem parseHextet_asciiLower (s : List Char) :
    parseHextet (Text.asciiLower s) = parseHextet s := by
  have hall : (Text.asciiLower s).all isHex = s.all isHex := by
    rw [Text.asciiLower, List.all_map]
    exact congrArg (s.all ·) (funext isHex_toLower)
  have hfold : (Text.asciiLower s).foldl (fun n c => 16 * n + hexDigit c) 0 =
      s.foldl (fun n c => 16 * n + hexDigit c) 0 := by
    rw [Text.asciiLower, List.foldl_map]
    simp only [hexDigit_toLower]
  unfold parseHextet
  rw [hall, hfold, Text.asciiLower, List.length_map, List.isEmpty_map]

theorem isEmpty_asciiLower (s : List Char) : (Text.asciiLower s).isEmpty = s.isEmpty := by
  rw [Text.asciiLower, List.isEmpty_map]

theorem mapM_parseHextet_asciiLower (parts : List (List Char)) :
    (parts.map Text.asciiLower).mapM parseHextet = parts.mapM parseHextet := by
  rw [List.mapM_map]
  exact congrArg (parts.mapM ·) (funext parseHextet_asciiLower)

theorem hextets_asciiLower (parts : List (List Char)) :
    hextets (parts.map Text.asciiLower) = hextets parts := by
  have hgetD : ∀ i, (parts.map Text.asciiLower).getD i [] = Text.asciiLower (parts.getD i []) := by
    intro i
    rw [List.getD_eq_getElem?_getD, List.getD_eq_getElem?_getD, List.getElem?_map]
    cases parts[i]? <;> rfl
  have hskips : skips (parts.map Text.asciiLower) = skips parts := by
    unfold skips
    simp only [List.length_map, hgetD, isEmpty_asciiLower]
  have hhead : (parts.map Text.asciiLower).headD [] = Text.asciiLower (parts.headD []) := by
    cases parts <;> rfl
  have hlast : (parts.map Text.asciiLower).getLastD [] = Text.asciiLower (parts.getLastD []) := by
    rw [List.getLastD_eq_getLast?, List.getLastD_eq_getLast?, List.getLast?_map]
    cases parts.getLast? <;> rfl
  have hgroups : ∀ i, skippedGroups (parts.map Text.asciiLower) i = skippedGroups parts i := by
    intro i
    unfold skippedGroups
    simp only [List.length_map, hhead, hlast, isEmpty_asciiLower, ← List.map_take, ← List.map_drop,
      mapM_parseHextet_asciiLower]
  unfold hextets
  simp only [List.length_map, hskips, hgroups, mapM_parseHextet_asciiLower]

/-- The hexadecimal digits that are written are small. -/
theorem asciiLower_toDigits (n : ℕ) : Text.asciiLower (Nat.toDigits 16 n) = Nat.toDigits 16 n := by
  have hdigit : ∀ d < 16, (Nat.digitChar d).toLower = Nat.digitChar d := by decide
  induction n using Nat.strongRecOn with
  | ind n ih =>
    rcases Nat.lt_or_ge n 16 with h | h
    · rw [Nat.toDigits_of_lt_base h]
      exact congrArg ([·]) (hdigit n h)
    · rw [Nat.toDigits_of_base_le (by decide) h, Text.asciiLower, List.map_append]
      exact congrArg₂ (· ++ ·) (ih (n / 16) (by omega))
        (congrArg ([·]) (hdigit (n % 16) (by omega)))

theorem expandTail_asciiLower (parts : List (List Char)) :
    expandTail (parts.map Text.asciiLower) =
      (expandTail parts).map (List.map Text.asciiLower) := by
  unfold expandTail
  rw [List.getLast?_map]
  cases parts.getLast? with
  | none => rfl
  | some last =>
    simp only [Option.map_some, mem_asciiLower_iff (show '.'.toNat < 65 by decide), ipv4_asciiLower]
    split
    · rw [Option.map_map]
      congr 1
      funext v
      simp only [Function.comp_apply, List.map_append, List.map_dropLast, List.map_cons,
        List.map_nil, asciiLower_toDigits]
    · rfl

theorem ipv6Value_asciiLower (s : List Char) : ipv6Value (Text.asciiLower s) = ipv6Value s := by
  unfold ipv6Value
  simp only [splitOn_asciiLower (show ':'.toNat < 65 by decide), List.length_map,
    expandTail_asciiLower]
  cases expandTail (s.splitOn ':') with
  | none => rfl
  | some ps => rw [Option.map_some, Option.bind_some, Option.bind_some, hextets_asciiLower]

end Ip

/-- **Lower case does not change an address without a zone.** -/
theorem ipAddress_asciiLower {s : List Char} (hzone : '%' ∉ s) :
    ipAddress (Text.asciiLower s) = ipAddress s := by
  have hzone' : '%' ∉ Text.asciiLower s := fun h =>
    hzone ((Ip.mem_asciiLower_iff (by decide)).mp h)
  unfold ipAddress Ip.ipv6
  rw [Ip.ipv4_asciiLower, (Text.partition_eq_none_iff _ _).mpr hzone,
    (Text.partition_eq_none_iff _ _).mpr hzone', Ip.ipv6Value_asciiLower]
  simp only [Ip.mem_asciiLower_iff (show '/'.toNat < 65 by decide)]

/-! ### Writing and reading -/

namespace Ip

theorem isHex_digitChar : ∀ d < 16, isHex (Nat.digitChar d) = true := by decide

theorem hexDigit_digitChar : ∀ d < 16, hexDigit (Nat.digitChar d) = d := by decide

theorem all_isHex_toDigits (n : ℕ) : (Nat.toDigits 16 n).all isHex = true := by
  induction n using Nat.strongRecOn with
  | ind n ih =>
    rcases Nat.lt_or_ge n 16 with h | h
    · rw [Nat.toDigits_of_lt_base h, List.all_cons, isHex_digitChar n h]
      rfl
    · rw [Nat.toDigits_of_base_le (by decide) h, List.all_append, ih (n / 16) (by omega),
        List.all_cons, isHex_digitChar _ (Nat.mod_lt n (by decide))]
      rfl

theorem foldl_toDigits (n : ℕ) :
    (Nat.toDigits 16 n).foldl (fun n c => 16 * n + hexDigit c) 0 = n := by
  induction n using Nat.strongRecOn with
  | ind n ih =>
    rcases Nat.lt_or_ge n 16 with h | h
    · rw [Nat.toDigits_of_lt_base h, List.foldl_cons, List.foldl_nil, hexDigit_digitChar n h]
      omega
    · rw [Nat.toDigits_of_base_le (by decide) h, List.foldl_append, ih (n / 16) (by omega),
        List.foldl_cons, List.foldl_nil, hexDigit_digitChar _ (Nat.mod_lt n (by decide))]
      omega

/-- A group that is written is read. -/
theorem parseHextet_toDigits {n : ℕ} (h : n < 65536) :
    parseHextet (Nat.toDigits 16 n) = some n := by
  have hlen : (Nat.toDigits 16 n).length ≤ 4 :=
    (Nat.length_toDigits_le_iff (by decide) (by decide)).mpr (by norm_num; exact h)
  unfold parseHextet
  rw [if_neg, foldl_toDigits]
  rw [not_or, not_or, not_not]
  refine ⟨?_, all_isHex_toDigits n, by omega⟩
  simp [Nat.toDigits_ne_nil]

/-- The groups of an IPv6 address, as numbers. -/
def groupValues (v : BitVec 128) : List ℕ :=
  (List.range 8).map fun i => v.toNat / 2 ^ (16 * (7 - i)) % 65536

theorem groups_eq (v : BitVec 128) : groups v = (groupValues v).map (Nat.toDigits 16) := by
  rw [groups, groupValues, List.map_map]
  rfl

theorem groupValues_lt (v : BitVec 128) : ∀ n ∈ groupValues v, n < 65536 := by
  intro n hn
  obtain ⟨i, -, rfl⟩ := List.mem_map.mp hn
  exact Nat.mod_lt _ (by decide)

/-- The groups make up the address. -/
theorem foldl_groupValues (v : BitVec 128) :
    BitVec.ofNat 128 ((groupValues v).foldl (fun n g => n * 65536 + g) 0) = v := by
  have hlt := v.isLt
  refine BitVec.eq_of_toNat_eq ?_
  rw [BitVec.toNat_ofNat]
  have hlist : groupValues v = [v.toNat / 2 ^ 112 % 65536, v.toNat / 2 ^ 96 % 65536,
      v.toNat / 2 ^ 80 % 65536, v.toNat / 2 ^ 64 % 65536, v.toNat / 2 ^ 48 % 65536,
      v.toNat / 2 ^ 32 % 65536, v.toNat / 2 ^ 16 % 65536, v.toNat % 65536] := by
    simp [groupValues, List.range_succ]
  rw [hlist]
  simp only [List.foldl_cons, List.foldl_nil]
  omega

theorem mapM_parseHextet_toDigits : ∀ (ns : List ℕ), (∀ n ∈ ns, n < 65536) →
    (ns.map (Nat.toDigits 16)).mapM parseHextet = some ns
  | [], _ => rfl
  | n :: ns, h => by
    rw [List.map_cons, List.mapM_cons, parseHextet_toDigits (h n List.mem_cons_self),
      mapM_parseHextet_toDigits ns fun k hk => h k (List.mem_cons_of_mem _ hk)]
    rfl

/-! The run of zeros -/

/-- What the search for the longest run has found: entries of `['0']`. -/
structure ZeroRun.Sound (z : ZeroRun) (parts : List (List Char)) : Prop where
  current_le : z.current ≤ parts.length
  current_zero : ∀ k, parts.length - z.current ≤ k → k < parts.length → parts[k]? = some ['0']
  run_le : z.start + z.length ≤ parts.length
  run_zero : ∀ k, z.start ≤ k → k < z.start + z.length → parts[k]? = some ['0']

/-- One more entry keeps what has been found. -/
theorem ZeroRun.Sound.step {z : ZeroRun} {parts : List (List Char)} (h : z.Sound parts)
    (p : List Char) : (z.step (p, parts.length)).Sound (parts ++ [p]) := by
  obtain ⟨hcur, hcurz, hrun, hrunz⟩ := h
  have hlen : (parts ++ [p]).length = parts.length + 1 := by simp
  have hold : ∀ {k}, k < parts.length → (parts ++ [p])[k]? = parts[k]? :=
    fun hk => List.getElem?_append_left hk
  have hkept : ∀ k, z.start ≤ k → k < z.start + z.length → (parts ++ [p])[k]? = some ['0'] := by
    intro k hk hk'
    rw [hold (by omega)]
    exact hrunz k hk hk'
  rw [ZeroRun.step]
  dsimp only
  split
  · rename_i hp
    -- the run that ends here is one longer
    have hext : ∀ k, parts.length - z.current ≤ k → k < parts.length + 1 →
        (parts ++ [p])[k]? = some ['0'] := by
      intro k hk hk'
      rcases Nat.lt_succ_iff_lt_or_eq.mp hk' with h | rfl
      · rw [hold h]
        exact hcurz k hk h
      · rw [hp, List.getElem?_concat_length]
    split
    · constructor <;> dsimp only
      · omega
      · exact fun k hk hk' => hext k (by omega) (by omega)
      · omega
      · exact fun k hk hk' => hext k hk (by omega)
    · constructor <;> dsimp only
      · omega
      · exact fun k hk hk' => hext k (by omega) (by omega)
      · omega
      · exact hkept
  · constructor <;> dsimp only
    · omega
    · omega
    · omega
    · exact hkept

theorem zeroRun_sound (parts : List (List Char)) :
    ZeroRun.Sound (parts.zipIdx.foldl ZeroRun.step {}) parts := by
  induction parts using List.reverseRecOn with
  | nil => exact ⟨le_rfl, fun k _ hk => absurd hk (Nat.not_lt_zero k), le_rfl,
      fun k _ hk => absurd hk (Nat.not_lt_zero k)⟩
  | append_singleton parts p ih =>
    rw [List.zipIdx_append, List.foldl_append]
    simpa only [List.zipIdx_cons, List.zipIdx_nil, List.foldl_cons, List.foldl_nil, Nat.zero_add]
      using ih.step p

/-! A `::` -/

/-- The empty part of a `::` is the only one between the first and the last. -/
theorem skips_eq {pre post : List (List Char)} (hpre : pre ≠ []) (hpost : post ≠ [])
    (h1 : ∀ p ∈ pre.tail, p ≠ []) (h2 : ∀ p ∈ post.dropLast, p ≠ []) :
    skips (pre ++ [] :: post) = [pre.length] := by
  have hp := List.length_pos_iff.mpr hpre
  have hq := List.length_pos_iff.mpr hpost
  have hlen : (pre ++ [] :: post).length - 2 = (pre.length - 1) + (1 + (post.length - 1)) := by
    rw [List.length_append, List.length_cons]
    omega
  unfold skips
  rw [hlen, ← List.range'_append_1, ← List.range'_append_1, List.filter_append, List.filter_append]
  have hbefore : (List.range' 1 (pre.length - 1)).filter
      (fun i => ((pre ++ [] :: post).getD i []).isEmpty) = [] := by
    rw [List.filter_eq_nil_iff]
    intro i hi hempty
    have hi' := List.mem_range'_1.mp hi
    rw [List.getD_eq_getElem?_getD, List.getElem?_append_left (by omega),
      List.getElem?_eq_getElem (by omega), Option.getD_some, List.isEmpty_iff] at hempty
    refine h1 pre[i] ?_ hempty
    rw [← List.drop_one]
    exact List.mem_drop_iff_getElem.mpr ⟨i - 1, by omega, by congr 1; omega⟩
  have hbehind : (List.range' (1 + (pre.length - 1) + 1) (post.length - 1)).filter
      (fun i => ((pre ++ [] :: post).getD i []).isEmpty) = [] := by
    rw [List.filter_eq_nil_iff]
    intro i hi hempty
    have hi' := List.mem_range'_1.mp hi
    obtain ⟨k, rfl⟩ : ∃ k, i = pre.length + (k + 1) := ⟨i - pre.length - 1, by omega⟩
    rw [List.getD_eq_getElem?_getD, List.getElem?_append_right (by omega), Nat.add_sub_cancel_left,
      List.getElem?_cons_succ, List.getElem?_eq_getElem (by omega), Option.getD_some,
      List.isEmpty_iff] at hempty
    refine h2 post[k] ?_ hempty
    rw [List.dropLast_eq_take]
    exact List.mem_take_iff_getElem.mpr ⟨k, by omega, rfl⟩
  have hat : (List.range' (1 + (pre.length - 1)) 1).filter
      (fun i => ((pre ++ [] :: post).getD i []).isEmpty) = [pre.length] := by
    rw [show 1 + (pre.length - 1) = pre.length by omega]
    simp
  rw [hbefore, hat, hbehind]
  rfl

/-- The part of a `::` before or behind the groups: empty at an end of the address. -/
def orEmpty (ps : List (List Char)) : List (List Char) := if ps = [] then [[]] else ps

theorem orEmpty_ne_nil (ps : List (List Char)) : orEmpty ps ≠ [] := by
  unfold orEmpty
  split
  · exact List.cons_ne_nil _ _
  · assumption

theorem orEmpty_of_ne_nil {ps : List (List Char)} (h : ps ≠ []) : orEmpty ps = ps := if_neg h

theorem forall_mem_tail_orEmpty {ps : List (List Char)} (h : ∀ p ∈ ps, p ≠ []) :
    ∀ p ∈ (orEmpty ps).tail, p ≠ [] := by
  cases ps with
  | nil => exact fun _ hp => absurd hp List.not_mem_nil
  | cons q ps => exact fun p hp => h p (List.mem_of_mem_tail hp)

theorem forall_mem_dropLast_orEmpty {ps : List (List Char)} (h : ∀ p ∈ ps, p ≠ []) :
    ∀ p ∈ (orEmpty ps).dropLast, p ≠ [] := by
  cases ps with
  | nil => exact fun _ hp => absurd hp List.not_mem_nil
  | cons q ps => exact fun p hp => h p (List.dropLast_subset _ hp)

/-- The two ends of an address with a `::` are empty where nothing stands beside it. -/
theorem ends_orEmpty {above below : List (List Char)} (ha : ∀ p ∈ above, p ≠ [])
    (hb : ∀ p ∈ below, p ≠ []) :
    ((orEmpty above ++ [] :: orEmpty below).headD []).isEmpty = decide (above = []) ∧
      ((orEmpty above ++ [] :: orEmpty below).getLastD []).isEmpty = decide (below = []) := by
  constructor
  · cases above with
    | nil => rfl
    | cons p ps => simpa [orEmpty] using ha p List.mem_cons_self
  · rw [List.getLastD_eq_getLast?, List.append_cons, List.getLast?_append]
    rcases List.eq_nil_or_concat' below with rfl | ⟨init, p, rfl⟩
    · rfl
    · have hp := hb p (by simp)
      simp [orEmpty, hp]

/-- The parts above and below a `::` are cut out of the address. -/
theorem cut_orEmpty (above below : List (List Char)) :
    (orEmpty above ++ [] :: orEmpty below).take above.length = above ∧
      (orEmpty above ++ [] :: orEmpty below).drop
        ((orEmpty above ++ [] :: orEmpty below).length - below.length) = below := by
  constructor
  · by_cases h : above = []
    · rw [h]
      rfl
    · rw [orEmpty_of_ne_nil h, List.take_left]
  · by_cases h : below = []
    · subst h
      exact List.drop_eq_nil_of_le (by simp)
    · rw [List.append_cons, orEmpty_of_ne_nil h, List.length_append, Nat.add_sub_cancel,
        List.drop_left]

theorem skippedGroups_orEmpty {above below : List (List Char)} {as bs : List ℕ}
    (ha : ∀ p ∈ above, p ≠ []) (hb : ∀ p ∈ below, p ≠ [])
    (hlen : above.length + below.length ≤ 6) (has : above.mapM parseHextet = some as)
    (hbs : below.mapM parseHextet = some bs) :
    skippedGroups (orEmpty above ++ [] :: orEmpty below) (orEmpty above).length =
      some (as ++ List.replicate (8 - (above.length + below.length)) 0 ++ bs) := by
  obtain ⟨hfirst, hlast⟩ := ends_orEmpty ha hb
  obtain ⟨htake, hdrop⟩ := cut_orEmpty above below
  have hhi : (if decide (above = []) then (orEmpty above).length - 1
      else (orEmpty above).length) = above.length := by
    unfold orEmpty
    by_cases h : above = [] <;> simp [h]
  have hlo : (if decide (below = []) then
        (orEmpty above ++ [] :: orEmpty below).length - (orEmpty above).length - 2
      else (orEmpty above ++ [] :: orEmpty below).length - (orEmpty above).length - 1) =
        below.length := by
    rw [List.length_append, Nat.add_sub_cancel_left, List.length_cons]
    unfold orEmpty
    by_cases h : below = [] <;> simp [h]
  unfold skippedGroups
  simp only [hfirst, hlast, hhi, hlo, htake, hdrop, has, hbs]
  rw [if_neg]
  · rfl
  · simp only [decide_eq_true_eq, not_or, not_and, not_not]
    exact ⟨fun h => by rw [h]; rfl, fun h => by rw [h]; rfl, by omega⟩

/-- **The groups around a `::` are read, with zeros between them.** -/
theorem hextets_skipped {above below : List (List Char)} {as bs : List ℕ}
    (ha : ∀ p ∈ above, p ≠ []) (hb : ∀ p ∈ below, p ≠ [])
    (hlen : above.length + below.length ≤ 6) (has : above.mapM parseHextet = some as)
    (hbs : below.mapM parseHextet = some bs) :
    hextets (orEmpty above ++ [] :: orEmpty below) =
      some (as ++ List.replicate (8 - (above.length + below.length)) 0 ++ bs) := by
  have hskips : skips (orEmpty above ++ [] :: orEmpty below) = [(orEmpty above).length] :=
    skips_eq (orEmpty_ne_nil _) (orEmpty_ne_nil _) (forall_mem_tail_orEmpty ha)
      (forall_mem_dropLast_orEmpty hb)
  unfold hextets
  rw [if_neg, hskips]
  · exact skippedGroups_orEmpty ha hb hlen has hbs
  · unfold orEmpty
    split <;> split <;> simp_all <;> omega

/-- The compressed groups, around the run that is left out. -/
theorem compress_eq (parts : List (List Char)) :
    (∃ start n, 1 < n ∧ start + n ≤ parts.length ∧
      (∀ k, start ≤ k → k < start + n → parts[k]? = some ['0']) ∧
      compress parts = orEmpty (parts.take start) ++ [] :: orEmpty (parts.drop (start + n))) ∨
    compress parts = parts := by
  have hsound := zeroRun_sound parts
  unfold compress
  dsimp only
  generalize parts.zipIdx.foldl ZeroRun.step {} = z at *
  by_cases hrun : 1 < z.length
  · left
    refine ⟨z.start, z.length, hrun, hsound.run_le, hsound.run_zero, ?_⟩
    have hle := hsound.run_le
    rw [if_pos hrun]
    have htake : (if z.start + z.length = parts.length then parts ++ [[]] else parts).take z.start =
        parts.take z.start := by
      split
      · exact List.take_append_of_le_length (by omega)
      · rfl
    have hdrop : (if z.start + z.length = parts.length then parts ++ [[]] else parts).drop
        (z.start + z.length) = orEmpty (parts.drop (z.start + z.length)) := by
      unfold orEmpty
      split
      · rename_i h
        rw [h, List.drop_left, List.drop_length, if_pos rfl]
      · rw [if_neg]
        intro hnil
        have := List.drop_eq_nil_iff.mp hnil
        omega
    rw [htake, hdrop]
    unfold orEmpty
    by_cases hstart : z.start = 0
    · simp [hstart]
    · have hne : parts.take z.start ≠ [] := by
        intro hnil
        have := List.take_eq_nil_iff.mp hnil
        rcases this with h | h
        · exact hstart h
        · rw [h, List.length_nil] at hle
          omega
      rw [if_neg hstart, if_neg hne]
  · right
    rw [if_neg hrun]

theorem eq_zero_of_toDigits {n : ℕ} (h : Nat.toDigits 16 n = ['0']) : n = 0 := by
  rw [← foldl_toDigits n, h]
  rfl

/-- A run of groups that are written `0` is a run of zeros. -/
theorem eq_take_zeros_drop {ns : List ℕ} {start n : ℕ} (hle : start + n ≤ ns.length)
    (hzero : ∀ k, start ≤ k → k < start + n → (ns.map (Nat.toDigits 16))[k]? = some ['0']) :
    ns = ns.take start ++ List.replicate n 0 ++ ns.drop (start + n) := by
  have hmid : (ns.drop start).take n = List.replicate n 0 := by
    refine List.eq_replicate_iff.mpr ⟨by rw [List.length_take, List.length_drop]; omega, ?_⟩
    intro m hm
    obtain ⟨k, hk, rfl⟩ := List.mem_take_iff_getElem.mp hm
    rw [List.length_drop] at hk
    have hk' := hzero (start + k) (by omega) (by omega)
    rw [List.getElem?_map, List.getElem?_eq_getElem (by omega), Option.map_some,
      Option.some.injEq] at hk'
    rw [List.getElem_drop]
    exact eq_zero_of_toDigits hk'
  rw [← hmid, List.append_assoc, ← List.drop_drop, List.take_append_drop, List.take_append_drop]

/-- The written groups are read. -/
theorem hextets_compress (v : BitVec 128) :
    hextets (compress (groups v)) = some (groupValues v) := by
  have hdigits : ∀ ns : List ℕ, ∀ p ∈ ns.map (Nat.toDigits 16), p ≠ [] := by
    intro ns p hp
    obtain ⟨n, -, rfl⟩ := List.mem_map.mp hp
    exact Nat.toDigits_ne_nil
  have hlen : (groupValues v).length = 8 := by simp [groupValues]
  have hlt := groupValues_lt v
  rcases compress_eq (groups v) with ⟨start, n, hn, hle, hzero, heq⟩ | heq
  · rw [groups_eq] at heq hle hzero
    rw [List.length_map] at hle
    rw [groups_eq, heq, ← List.map_take, ← List.map_drop,
      hextets_skipped (hdigits _) (hdigits _) ?_
        (mapM_parseHextet_toDigits _ fun m hm => hlt m (List.mem_of_mem_take hm))
        (mapM_parseHextet_toDigits _ fun m hm => hlt m (List.mem_of_mem_drop hm)),
      Option.some.injEq]
    · conv_rhs => rw [eq_take_zeros_drop hle hzero]
      congr 3
      simp only [List.length_map, List.length_take, List.length_drop]
      omega
    · simp only [List.length_map, List.length_take, List.length_drop]
      omega
  · -- no group is left out
    have hskips : skips (groups v) = [] := by
      unfold skips
      rw [List.filter_eq_nil_iff]
      intro i hi hempty
      have hi' := List.mem_range'_1.mp hi
      rw [groups_eq] at hempty hi'
      rw [List.getD_eq_getElem?_getD, List.getElem?_eq_getElem (by omega), Option.getD_some,
        List.isEmpty_iff] at hempty
      exact hdigits _ _ (List.getElem_mem _) hempty
    have hlen' : (groups v).length = 8 := by rw [groups_eq, List.length_map, hlen]
    rw [heq]
    unfold hextets
    rw [if_neg (by omega), hskips]
    simp only [hlen', ne_eq, not_true_eq_false, if_false]
    rw [groups_eq, mapM_parseHextet_toDigits _ hlt]

/-- A part of the text of an IPv6 address has hexadecimal digits only. -/
theorem all_isHex_of_mem_compress {v : BitVec 128} {p : List Char}
    (hp : p ∈ compress (groups v)) : p.all isHex = true :=
  all_isHex_of_hextets (hextets_compress v) p hp

theorem three_le_length_compress (v : BitVec 128) : 3 ≤ (compress (groups v)).length := by
  have hlen : (groups v).length = 8 := by simp [groups]
  rcases compress_eq (groups v) with ⟨start, n, hn, hle, -, heq⟩ | heq
  · have horEmpty : ∀ ps, 1 ≤ (orEmpty ps).length := fun ps =>
      List.length_pos_iff.mpr (orEmpty_ne_nil ps)
    have h1 := horEmpty ((groups v).take start)
    have h2 := horEmpty ((groups v).drop (start + n))
    rw [heq, List.length_append, List.length_cons]
    omega
  · rw [heq, hlen]
    omega

/-- The text of an IPv6 address is read as that address. -/
theorem ipv6Value_text (v : BitVec 128) : ipv6Value (IpAddress.text (.v6 v none)) = some v := by
  have hnot : ∀ {c : Char}, isHex c = false → ∀ p ∈ compress (groups v), c ∉ p := by
    intro c hc p hp hmem
    rw [List.all_eq_true.mp (all_isHex_of_mem_compress hp) c hmem] at hc
    cases hc
  have hne : compress (groups v) ≠ [] :=
    List.ne_nil_of_length_pos (by have := three_le_length_compress v; omega)
  have hsplit : (IpAddress.text (.v6 v none)).splitOn ':' = compress (groups v) := by
    rw [IpAddress.text, Option.map_none, Option.getD_none, List.append_nil]
    exact List.splitOn_intercalate ':' (hnot rfl) hne
  have htail : expandTail (compress (groups v)) = some (compress (groups v)) := by
    unfold expandTail
    rw [List.getLast?_eq_some_getLast hne]
    exact if_neg (hnot rfl _ (List.getLast_mem hne))
  unfold ipv6Value
  dsimp only
  rw [hsplit, if_neg (by have := three_le_length_compress v; omega), htail, Option.bind_some,
    hextets_compress, Option.map_some, foldl_groupValues]

theorem ipv4_eq_none_of_colon {s : List Char} (h : ':' ∈ s) : ipv4 s = none := by
  cases hv : ipv4 s with
  | none => rfl
  | some v => rcases mem_of_ipv4 hv h with h | h <;> cases h

theorem notMem_text {v : BitVec 128} {c : Char} (hc : isHex c = false) (hcolon : c ≠ ':') :
    c ∉ IpAddress.text (.v6 v none) := by
  rw [IpAddress.text, Option.map_none, Option.getD_none, List.append_nil]
  intro hmem
  rcases mem_intercalate hmem with h | ⟨p, hp, hcp⟩
  · exact hcolon h
  · rw [List.all_eq_true.mp (all_isHex_of_mem_compress hp) c hcp] at hc
    cases hc

end Ip

/-- **The text of an address without a zone is read as that address.** -/
theorem ipAddress_text : ∀ {ip : IpAddress}, (∀ v zone, ip ≠ .v6 v (some zone)) →
    ipAddress ip.text = some ip
  | .v4 v, _ => by
    unfold ipAddress
    rw [Ip.ipv4_text]
  | .v6 v none, _ => by
    unfold ipAddress Ip.ipv6
    rw [Ip.ipv4_eq_none_of_colon (colon_mem_text v none), if_neg (Ip.notMem_text rfl (by decide)),
      (Text.partition_eq_none_iff _ _).mpr (Ip.notMem_text rfl (by decide)), Ip.ipv6Value_text]
    rfl
  | .v6 v (some zone), h => absurd rfl (h v zone)

/-! ### Zones -/

/-- An address with a zone, as the text of one. -/
theorem ipAddress_zoned {name zone : List Char} {ip : IpAddress} (hname : '%' ∉ name) :
    ipAddress (name ++ '%' :: zone) = some ip ↔
      '/' ∉ name ++ '%' :: zone ∧ zone ≠ [] ∧ '%' ∉ zone ∧
        ∃ v, Ip.ipv6Value name = some v ∧ ip = .v6 v (some zone) := by
  have hv4 : Ip.ipv4 (name ++ '%' :: zone) = none := by
    cases hv : Ip.ipv4 (name ++ '%' :: zone) with
    | none => rfl
    | some v =>
      rcases Ip.mem_of_ipv4 hv (show '%' ∈ name ++ '%' :: zone by simp) with h | h <;> cases h
  unfold ipAddress Ip.ipv6
  rw [hv4, Text.partition_append _ hname]
  dsimp only
  constructor
  · intro h
    split at h
    · cases h
    · rename_i hslash
      split at h
      · cases h
      · rename_i hzone
        obtain ⟨v, hv, rfl⟩ := Option.map_eq_some_iff.mp h
        exact ⟨hslash, (not_or.mp hzone).1, (not_or.mp hzone).2, v, hv, rfl⟩
  · rintro ⟨hslash, hne, hzone, v, hv, rfl⟩
    rw [if_neg hslash, if_neg (not_or.mpr ⟨hne, hzone⟩), hv]
    rfl

namespace Ip

/-- The characters that a URL leaves as they are. -/
def isUnreserved (c : Char) : Bool := c.isAlphanum || c = '-' || c = '.' || c = '_' || c = '~'

/-- The characters of a literal in a URL. -/
def isHostChar (c : Char) : Bool := isUnreserved c || c = ':' || c = '%'

/-- A text is read as an address, and its zone, if it has one, can stand in a URL. -/
structure IsLiteral (s : List Char) (ip : IpAddress) : Prop where
  reads : ipAddress s = some ip
  zone : ∀ name zone, Text.partition '%' s = some (name, zone) → ∀ c ∈ zone, isUnreserved c = true

/-- The texts of the literals: without a zone, and with one. -/
theorem isLiteral_cases {s : List Char} {ip : IpAddress} (h : IsLiteral s ip) :
    ('%' ∉ s ∧ ∀ v z, ip ≠ .v6 v (some z)) ∨
      ∃ name zone v, s = name ++ '%' :: zone ∧ '%' ∉ name ∧ ip = .v6 v (some zone) := by
  cases hp : Text.partition '%' s with
  | none =>
    have hnot := (Text.partition_eq_none_iff _ _).mp hp
    refine Or.inl ⟨hnot, ?_⟩
    rintro v z rfl
    rcases ipAddress_cases h.reads hnot with ⟨_, heq, -⟩ | ⟨_, heq, -⟩ <;> cases heq
  | some p =>
    obtain ⟨rfl, hname⟩ := Text.partition_eq_some hp
    obtain ⟨-, -, -, v, -, rfl⟩ := (ipAddress_zoned hname).mp h.reads
    exact Or.inr ⟨p.1, p.2, v, rfl, hname, rfl⟩

theorem isUnreserved_of_isHex {c : Char} (h : isHex c = true) : isUnreserved c = true := by
  have hnum : c.isAlphanum = true := by
    rw [isHex_iff] at h
    delta Char.isAlphanum Char.isAlpha Char.isUpper Char.isLower
    simp only [Bool.or_eq_true, Bool.and_eq_true, decide_eq_true_eq, Char.isDigit_iff_toNat,
      ge_iff_le, UInt32.le_iff_toNat_le]
    have h1 : 'A'.val.toNat = 65 := rfl
    have h2 : 'Z'.val.toNat = 90 := rfl
    have h3 : 'a'.val.toNat = 97 := rfl
    have h4 : 'z'.val.toNat = 122 := rfl
    have h5 : '0'.toNat = 48 := rfl
    have h6 : '9'.toNat = 57 := rfl
    have hnat : c.toNat = c.val.toNat := rfl
    omega
  rw [isUnreserved, hnum]
  rfl

theorem isHostChar_of_isLiteralChar {c : Char} (h : isLiteralChar c = true) :
    isHostChar c = true := by
  simp only [isLiteralChar, Bool.or_eq_true, decide_eq_true_eq] at h
  rcases h with (h | rfl) | rfl
  · rw [isHostChar, isUnreserved_of_isHex h]
    rfl
  · rfl
  · rfl

theorem isHostChar_of_ipv6Value {s : List Char} {v : BitVec 128} (h : ipv6Value s = some v)
    {c : Char} (hc : c ∈ s) : isHostChar c = true :=
  isHostChar_of_isLiteralChar (isLiteralChar_of_ipv6Value h hc)

/-- **The characters of a literal.** -/
theorem IsLiteral.isHostChar {s : List Char} {ip : IpAddress} (h : IsLiteral s ip) {c : Char}
    (hc : c ∈ s) : isHostChar c = true := by
  rcases isLiteral_cases h with ⟨hnot, -⟩ | ⟨name, zone, v, rfl, hname, rfl⟩
  · exact isHostChar_of_isLiteralChar (isLiteralChar_of_ipAddress h.reads hnot hc)
  · obtain ⟨-, -, -, v', hv, -⟩ := (ipAddress_zoned hname).mp h.reads
    rcases List.mem_append.mp hc with hc | hc
    · exact isHostChar_of_ipv6Value hv hc
    · rcases List.mem_cons.mp hc with rfl | hc
      · rfl
      · rw [Ip.isHostChar, h.zone name zone (Text.partition_append _ hname) c hc]
        rfl

theorem colon_mem_of_ipv6Value {s : List Char} {v : BitVec 128} (h : ipv6Value s = some v) :
    ':' ∈ s := by
  by_contra hnot
  unfold ipv6Value at h
  dsimp only at h
  rw [List.splitOn_eq_singleton hnot, if_pos (by simp)] at h
  cases h

/-- A literal has a colon if it is an IPv6 address. -/
theorem IsLiteral.colon_mem {s : List Char} {v : BitVec 128} {zone : Option (List Char)}
    (h : IsLiteral s (.v6 v zone)) : ':' ∈ s := by
  rcases isLiteral_cases h with ⟨hnot, -⟩ | ⟨name, zone, v, rfl, hname, -⟩
  · rcases ipAddress_cases h.reads hnot with ⟨_, heq, -⟩ | ⟨_, -, -, hv, -⟩
    · cases heq
    · exact colon_mem_of_ipv6Value hv
  · obtain ⟨-, -, -, v', hv, -⟩ := (ipAddress_zoned hname).mp h.reads
    exact List.mem_append_left _ (colon_mem_of_ipv6Value hv)

/-- The text of an IPv4 address is its only literal. -/
theorem IsLiteral.eq_text {s : List Char} {v : BitVec 32} (h : IsLiteral s (.v4 v)) :
    s = IpAddress.text (.v4 v) := by
  rcases isLiteral_cases h with ⟨hnot, -⟩ | ⟨_, _, _, -, -, heq⟩
  · rcases ipAddress_cases h.reads hnot with ⟨_, heq, hv⟩ | ⟨_, heq, -⟩
    · cases heq
      exact text_of_ipv4 hv
    · cases heq
  · cases heq

theorem colon_notMem_text (v : BitVec 32) : ':' ∉ IpAddress.text (.v4 v) :=
  notMem_intercalate (by decide) _ (notMem_octet rfl)

theorem isLiteral_text_v4 (v : BitVec 32) : IsLiteral (IpAddress.text (.v4 v)) (.v4 v) where
  reads := ipAddress_text fun _ _ => IpAddress.noConfusion
  zone name zone hp := by
    have hmem : '%' ∈ IpAddress.text (.v4 v) := by
      rw [(Text.partition_eq_some hp).1]
      simp
    exact absurd hmem (notMem_intercalate (by decide) _ (notMem_octet rfl))

/-- **The text of an address that has a literal is one.** -/
theorem IsLiteral.text {s : List Char} {ip : IpAddress} (h : IsLiteral s ip) :
    IsLiteral ip.text ip := by
  rcases isLiteral_cases h with ⟨hnot, hnozone⟩ | ⟨name, zone, v, rfl, hname, rfl⟩
  · refine ⟨ipAddress_text hnozone, fun name zone hp => ?_⟩
    have hmem : '%' ∈ ip.text := by
      rw [(Text.partition_eq_some hp).1]
      simp
    match ip with
    | .v4 v => exact absurd hmem (notMem_intercalate (by decide) _ (notMem_octet rfl))
    | .v6 v none => exact absurd hmem (notMem_text rfl (by decide))
    | .v6 v (some z) => exact absurd rfl (hnozone v z)
  · obtain ⟨hslash, hne, hzone, -⟩ := (ipAddress_zoned hname).mp h.reads
    have htext : IpAddress.text (.v6 v (some zone)) =
        IpAddress.text (.v6 v none) ++ '%' :: zone := by
      simp only [IpAddress.text, Option.map_some, Option.getD_some, Option.map_none,
        Option.getD_none, List.append_nil]
    have hpercent : '%' ∉ IpAddress.text (.v6 v none) := notMem_text rfl (by decide)
    have hslash' : '/' ∉ IpAddress.text (.v6 v none) := notMem_text rfl (by decide)
    rw [htext]
    refine ⟨(ipAddress_zoned hpercent).mpr ⟨?_, hne, hzone, v, ipv6Value_text v, rfl⟩, ?_⟩
    · rw [List.mem_append, not_or]
      exact ⟨hslash', fun hmem => hslash (List.mem_append_right _ hmem)⟩
    · intro name' zone' hp
      rw [Text.partition_append _ hpercent] at hp
      cases hp
      exact h.zone name zone (Text.partition_append _ hname)

end Ip

/-- Lower case as documented, on the texts of ASCII characters. -/
def Unicode.LowersAscii (u : Unicode) : Prop :=
  ∀ s, (∀ c ∈ s, c.toNat < 128) → u.lower s = Text.asciiLower s

theorem Unicode.ascii_lowersAscii : Unicode.ascii.LowersAscii := fun _ _ => rfl

namespace Ip

theorem toNat_lt_of_isUnreserved {c : Char} (h : isUnreserved c = true) : c.toNat < 128 := by
  delta isUnreserved Char.isAlphanum Char.isAlpha Char.isUpper Char.isLower at h
  simp only [Char.isDigit_iff_toNat, Bool.or_eq_true, Bool.and_eq_true, decide_eq_true_eq,
    ge_iff_le, UInt32.le_iff_toNat_le] at h
  have h2 : 'Z'.val.toNat = 90 := rfl
  have h4 : 'z'.val.toNat = 122 := rfl
  have h6 : '9'.toNat = 57 := rfl
  have hnat : c.toNat = c.val.toNat := rfl
  rcases h with ((((h | h) | rfl) | rfl) | rfl) | rfl
  · omega
  · omega
  all_goals decide

theorem toNat_lt_of_isHostChar {c : Char} (h : isHostChar c = true) : c.toNat < 128 := by
  simp only [isHostChar, Bool.or_eq_true, decide_eq_true_eq] at h
  rcases h with (h | rfl) | rfl
  · exact toNat_lt_of_isUnreserved h
  all_goals decide

/-- **A literal stays one of the same address when a host name is lowered.** -/
theorem IsLiteral.lowerHost {u : Unicode} (hu : u.LowersAscii) {s : List Char} {ip : IpAddress}
    (h : IsLiteral s ip) : IsLiteral (Url.lowerHost u s) ip := by
  have hlt : ∀ c ∈ s, c.toNat < 128 := fun c hc => toNat_lt_of_isHostChar (h.isHostChar hc)
  rcases isLiteral_cases h with ⟨hnot, -⟩ | ⟨name, zone, v, rfl, hname, rfl⟩
  · have hlower : Url.lowerHost u s = Text.asciiLower s := by
      rw [Url.lowerHost, (Text.partition_eq_none_iff _ _).mpr hnot]
      exact hu s hlt
    have hnot' : '%' ∉ Text.asciiLower s := fun hmem =>
      hnot ((mem_asciiLower_iff (by decide)).mp hmem)
    rw [hlower]
    refine ⟨by rw [ipAddress_asciiLower hnot, h.reads], fun name zone hp => ?_⟩
    rw [(Text.partition_eq_none_iff _ _).mpr hnot'] at hp
    cases hp
  · obtain ⟨hslash, hne, hzone, v', hv, heq⟩ := (ipAddress_zoned hname).mp h.reads
    have hlower : Url.lowerHost u (name ++ '%' :: zone) = Text.asciiLower name ++ '%' :: zone := by
      rw [Url.lowerHost, Text.partition_append _ hname]
      exact congrArg (· ++ '%' :: zone) (hu name fun c hc => hlt c (List.mem_append_left _ hc))
    have hname' : '%' ∉ Text.asciiLower name := fun hmem =>
      hname ((mem_asciiLower_iff (by decide)).mp hmem)
    rw [hlower]
    refine ⟨(ipAddress_zoned hname').mpr ⟨?_, hne, hzone, v', ?_, heq⟩, ?_⟩
    · rw [List.mem_append, not_or] at hslash ⊢
      exact ⟨fun hmem => hslash.1 ((mem_asciiLower_iff (by decide)).mp hmem), hslash.2⟩
    · rw [ipv6Value_asciiLower, hv]
    · intro name'' zone'' hp
      rw [Text.partition_append _ hname'] at hp
      cases hp
      exact h.zone name zone (Text.partition_append _ hname)

/-- What stands before the first colon of an IPv6 address has hexadecimal digits only. -/
theorem isHex_before {s : List Char} {v : BitVec 128} (h : ipv6Value s = some v) :
    ∀ c ∈ Text.before ':' s, isHex c = true := by
  have hcolon := colon_mem_of_ipv6Value h
  cases hp : Text.partition ':' s with
  | none => exact absurd hcolon ((Text.partition_eq_none_iff _ _).mp hp)
  | some p =>
    obtain ⟨rfl, hnot⟩ := Text.partition_eq_some hp
    have hbefore : Text.before ':' (p.1 ++ ':' :: p.2) = p.1 := by
      rw [Text.before, hp]
      rfl
    unfold ipv6Value at h
    dsimp only at h
    rw [List.splitOn_append_cons_self_of_not_mem hnot] at h
    split at h
    · cases h
    obtain ⟨gs, hgs, -⟩ := Option.map_eq_some_iff.mp h
    obtain ⟨ps, hps, hgs⟩ := Option.bind_eq_some_iff.mp hgs
    -- the tail is expanded behind the first part
    have hmem : p.1 ∈ ps := by
      unfold expandTail at hps
      split at hps
      · cases hps
      split at hps
      · obtain ⟨w, -, rfl⟩ := Option.map_eq_some_iff.mp hps
        refine List.mem_append_left _ ?_
        rw [List.dropLast_cons_of_ne_nil (List.splitOn_ne_nil _ _)]
        exact List.mem_cons_self
      · obtain rfl := Option.some.inj hps
        exact List.mem_cons_self
    rw [hbefore]
    exact List.all_eq_true.mp (all_isHex_of_hextets hgs p.1 hmem)

/-- **What stands before the first colon of an IPv6 literal is no address.** -/
theorem IsLiteral.ipAddress_before {s : List Char} {v : BitVec 128} {zone : Option (List Char)}
    (h : IsLiteral s (.v6 v zone)) :
    (∀ c ∈ Text.before ':' s, isHex c = true) ∧ ipAddress (Text.before ':' s) = none := by
  have hhex : ∀ c ∈ Text.before ':' s, isHex c = true := by
    rcases isLiteral_cases h with ⟨hnot, -⟩ | ⟨name, zone, v, rfl, hname, -⟩
    · rcases ipAddress_cases h.reads hnot with ⟨_, heq, -⟩ | ⟨_, -, -, hv, -⟩
      · cases heq
      · exact isHex_before hv
    · obtain ⟨-, -, -, v', hv, -⟩ := (ipAddress_zoned hname).mp h.reads
      have hcolon := colon_mem_of_ipv6Value hv
      have hbefore : Text.before ':' (name ++ '%' :: zone) = Text.before ':' name := by
        cases hp : Text.partition ':' name with
        | none => exact absurd hcolon ((Text.partition_eq_none_iff _ _).mp hp)
        | some p =>
          obtain ⟨rfl, hp1⟩ := Text.partition_eq_some hp
          rw [Text.before, Text.before, hp, List.append_assoc, List.cons_append,
            Text.partition_append _ hp1]
          rfl
      rw [hbefore]
      exact isHex_before hv
  refine ⟨hhex, ?_⟩
  have hpercent : '%' ∉ Text.before ':' s := fun hmem => by cases hhex _ hmem
  cases hread : ipAddress (Text.before ':' s) with
  | none => rfl
  | some ip =>
    rcases ipAddress_cases hread hpercent with ⟨w, -, hw⟩ | ⟨w, -, -, hw, -⟩
    · -- an IPv4 address has a dot
      have hdot : '.' ∈ Text.before ':' s := by
        rw [text_of_ipv4 hw]
        exact sep_mem_intercalate (by simp [octets])
      cases hhex _ hdot
    · exact absurd (colon_mem_of_ipv6Value hw) (Text.notMem_before _ _)

end Ip
