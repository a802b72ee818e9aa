import Inferna.Lib.Ipaddress
import Mathlib.Data.List.TakeDrop
import Mathlib.Data.List.TakeWhile

/-!
# Splitting URLs

`urllib.parse.urlsplit` of the Python standard library, from the text to the host
name: leading controls and blanks go, tabs and newlines go, the scheme and the
network location are cut off, a bracketed host must be an IPv6 address, and the host
name is lowered up to a zone id.

What the character database of the interpreter answers is the structure `Unicode`.

## Main definitions

* `Unicode` — lower case, normalisation and digits.
* `urlsplit`, `SplitResult.hostname`, `SplitResult.userinfo`, `SplitResult.port`.
* `Unicode.Lawful` — what the database keeps to.
* `Url.webUrl` — a URL of a scheme and a host.

## Main results

* `hostname_head` — no host name of a split URL starts with a bracket.
* `urlsplit_webUrl` — such a URL splits into the two again.
* `Url.lowerHost_lowerHost`, `Url.checkNetloc_lowerHost` — lowering a host is done once, and
  keeps it through the checks.
-/

/-- What the character database answers.  Lowering a text makes no bracket. -/
structure Unicode where
  /-- `s.lower()`. -/
  lower : List Char → List Char
  /-- `unicodedata.normalize('NFKC', s)`. -/
  nfkc : List Char → List Char
  /-- `c.isdigit()`. -/
  isDigit : Char → Bool
  lower_head : ∀ s, (lower s).head? = some '[' → s.head? = some '['

/-- A capital letter becomes a small one, and other characters stay. -/
theorem Char.toLower_cases (c : Char) :
    c.toLower = c ∨ (65 ≤ c.toNat ∧ c.toNat ≤ 90 ∧ c.toLower.toNat = c.toNat + 32) := by
  unfold Char.toLower
  split
  · rename_i hcap
    right
    simp only [ge_iff_le, UInt32.le_iff_toNat_le] at hcap
    have h65 : 'A'.val.toNat = 65 := rfl
    have h90 : 'Z'.val.toNat = 90 := rfl
    have h32 : ('a'.val - 'A'.val).toNat = 32 := rfl
    have hadd : (c.val + ('a'.val - 'A'.val)).toNat = c.val.toNat + 32 := by
      rw [UInt32.toNat_add]
      omega
    have hnat : c.toNat = c.val.toNat := rfl
    exact ⟨by omega, by omega, hadd⟩
  · exact .inl rfl

/-- The database on ASCII texts. -/
def Unicode.ascii : Unicode where
  lower := Text.asciiLower
  nfkc := id
  isDigit := Char.isDigit
  lower_head s h := by
    cases s with
    | nil => exact h
    | cons c s =>
      simp only [Text.asciiLower, List.map_cons, List.head?_cons, Option.some.injEq] at h ⊢
      rcases c.toLower_cases with hc | ⟨h65, -, hc⟩
      · rw [← hc, h]
      · -- the bracket is no small letter
        rw [h, show '['.toNat = 91 from rfl] at hc
        omega

/-- Why a URL is refused. -/
inductive UrlError
  | invalidIpv6Url
  | invalidIpvFuture
  | invalidHost
  | ipv4InBrackets
  | invalidUnderNfkc
  deriving DecidableEq, Repr

/-- `SplitResult`. -/
structure SplitResult where
  scheme : List Char
  netloc : List Char
  path : List Char
  query : List Char
  fragment : List Char
  deriving DecidableEq, Repr

namespace Url

/-- `_UNSAFE_URL_BYTES_TO_REMOVE`. -/
def isUnsafe (c : Char) : Bool := c = '\t' || c = '\r' || c = '\n'

/-- The leading characters that go, and those that go everywhere. -/
def cleaned (url : List Char) : List Char :=
  (url.dropWhile fun c => c.toNat ≤ 32).filter fun c => !isUnsafe c

/-- `scheme_chars`. -/
def isSchemeChar (c : Char) : Bool := c.isAlphanum || c = '+' || c = '-' || c = '.'

/-- The scheme, lowered, and the rest. -/
def splitScheme (url : List Char) : List Char × List Char :=
  match Text.partition ':' url with
  | some (c :: scheme, rest) =>
    if c.isAlpha ∧ (c :: scheme).all isSchemeChar then (Text.asciiLower (c :: scheme), rest)
    else ([], url)
  | _ => ([], url)

/-- A character that ends the network location. -/
def endsNetloc (c : Char) : Bool := c = '/' || c = '?' || c = '#'

/-- The host and port: what stands behind the last `@`. -/
def hostinfo (netloc : List Char) : List Char :=
  ((Text.rpartition '@' netloc).map (·.2)).getD netloc

/-- `_check_bracketed_host`: an IPvFuture or an IPv6 address. -/
def checkBracketedHost (host : List Char) : Except UrlError Unit :=
  if host.head? = some 'v' then
    match Text.partition '.' (host.drop 1) with
    | some (version, rest) =>
      if version ≠ [] ∧ version.all Ip.isHex ∧ rest ≠ [] ∧ '\n' ∉ rest then .ok ()
      else .error .invalidIpvFuture
    | none => .error .invalidIpvFuture
  else
    match ipAddress host with
    | none => .error .invalidHost
    | some (.v4 _) => .error .ipv4InBrackets
    | some (.v6 _ _) => .ok ()

/-- `_check_bracketed_netloc`: nothing before the bracket, and only a port behind it. -/
def checkBracketedNetloc (netloc : List Char) : Except UrlError Unit :=
  match Text.partition '[' (hostinfo netloc) with
  | some (before, bracketed) =>
    if before ≠ [] then .error .invalidIpv6Url
    else
      match Text.partition ']' bracketed with
      | some (host, port) =>
        if port ≠ [] ∧ port.head? ≠ some ':' then .error .invalidIpv6Url
        else checkBracketedHost host
      | none => checkBracketedHost bracketed
  | none => checkBracketedHost (Text.before ':' (hostinfo netloc))

/-- Brackets come in pairs, around an IPv6 address. -/
def checkBrackets (netloc : List Char) : Except UrlError Unit :=
  if ('[' ∈ netloc ∧ ']' ∉ netloc) ∨ (']' ∈ netloc ∧ '[' ∉ netloc) then .error .invalidIpv6Url
  else if '[' ∈ netloc then checkBracketedNetloc netloc
  else .ok ()

/-- `_checknetloc`: normalisation makes no delimiter. -/
def checkNetloc (u : Unicode) (netloc : List Char) : Except UrlError Unit :=
  let kept := netloc.filter fun c => !(c = '@' || c = ':' || c = '#' || c = '?')
  if netloc.all (·.toNat < 128) ∨ u.nfkc kept = kept then .ok ()
  else if (u.nfkc kept).any fun c => endsNetloc c || c = '@' || c = ':' then
    .error .invalidUnderNfkc
  else .ok ()

end Url

/-- `urlsplit(url)`. -/
def urlsplit (u : Unicode) (url : List Char) : Except UrlError SplitResult := do
  let (scheme, rest) := Url.splitScheme (Url.cleaned url)
  let (netloc, rest) :=
    match rest with
    | '/' :: '/' :: rest => rest.span fun c => !Url.endsNetloc c
    | _ => ([], rest)
  Url.checkBrackets netloc
  let (rest, fragment) := (Text.partition '#' rest).getD (rest, [])
  let (path, query) := (Text.partition '?' rest).getD (rest, [])
  Url.checkNetloc u netloc
  return ⟨scheme, netloc, path, query, fragment⟩

/-- The host part of the network location. -/
def SplitResult.host (r : SplitResult) : List Char :=
  match Text.partition '[' (Url.hostinfo r.netloc) with
  | some (_, bracketed) => Text.before ']' bracketed
  | none => Text.before ':' (Url.hostinfo r.netloc)

/-- `r.hostname`: the host, lowered up to its zone id. -/
def SplitResult.hostname (u : Unicode) (r : SplitResult) : Option (List Char) :=
  if r.host = [] then none
  else
    match Text.partition '%' r.host with
    | some (name, zone) => some (u.lower name ++ '%' :: zone)
    | none => some (u.lower r.host)

/-- `r.username` and `r.password`, each empty when there is none. -/
def SplitResult.userinfo (r : SplitResult) : List Char × List Char :=
  match Text.rpartition '@' r.netloc with
  | some (info, _) => (Text.partition ':' info).getD (info, [])
  | none => ([], [])

/-- The text of the port, empty when there is none. -/
def SplitResult.portText (r : SplitResult) : List Char :=
  let behindColon (s : List Char) := ((Text.partition ':' s).map Prod.snd).getD []
  match Text.partition '[' (Url.hostinfo r.netloc) with
  | some (_, bracketed) => behindColon (((Text.partition ']' bracketed).map Prod.snd).getD [])
  | none => behindColon (Url.hostinfo r.netloc)

/-- Why a port is refused. -/
inductive PortError
  | notAnInteger
  | outOfRange
  deriving DecidableEq, Repr

/-- `r.port`. -/
def SplitResult.port (r : SplitResult) : Except PortError (Option ℕ) :=
  if r.portText = [] then .ok none
  else if !Text.isDigits r.portText || Text.maxStrDigits < r.portText.length then
    .error .notAnInteger
  else if Text.digitsValue r.portText ≤ 65535 then .ok (some (Text.digitsValue r.portText))
  else .error .outOfRange

/-! ### Parts of a URL that splits -/

namespace Url

theorem splitScheme_subset (url : List Char) : (splitScheme url).2 ⊆ url := by
  rw [splitScheme]
  split
  · rename_i c scheme rest hp
    split
    · intro d hd
      rw [(Text.partition_eq_some hp).1]
      exact List.mem_append_right _ (List.mem_cons_of_mem _ hd)
    · exact List.Subset.refl _
  · exact List.Subset.refl _

theorem isUnsafe_of_mem_cleaned {url : List Char} {c : Char} (h : c ∈ cleaned url) :
    isUnsafe c = false := by
  simpa using (List.mem_filter.mp h).2

end Url

/-- What is known of a URL that splits. -/
theorem urlsplit_ok {u : Unicode} {url : List Char} {r : SplitResult}
    (h : urlsplit u url = .ok r) :
    Url.checkBrackets r.netloc = .ok () ∧ Url.checkNetloc u r.netloc = .ok () ∧
      ∀ c ∈ r.netloc, Url.endsNetloc c = false ∧ Url.isUnsafe c = false := by
  rw [urlsplit] at h
  simp only [bind, Except.bind] at h
  split at h
  · cases h
  rename_i hb
  split at h
  · cases h
  rename_i hn
  cases h
  refine ⟨hb, hn, ?_⟩
  intro c hc
  dsimp only at hc
  split at hc
  · rename_i rest hrest
    rw [List.span_eq_takeWhile_dropWhile] at hc
    have hmem : c ∈ Url.cleaned url := by
      refine Url.splitScheme_subset _ ?_
      rw [hrest]
      exact List.mem_cons_of_mem _ (List.mem_cons_of_mem _ (List.takeWhile_subset _ hc))
    exact ⟨by simpa using List.mem_takeWhile_imp hc, Url.isUnsafe_of_mem_cleaned hmem⟩
  · cases hc

/-! ### Host names -/

namespace Url

theorem head_of_prefix {a : List Char} (b : List Char) (h : a.head? = some '[') :
    (a ++ b).head? = some '[' := by
  cases a with
  | nil => cases h
  | cons c a => exact h

/-- What stands before a separator starts as the whole does. -/
theorem head_before {sep : Char} {s : List Char} (h : (Text.before sep s).head? = some '[') :
    s.head? = some '[' := by
  unfold Text.before at h
  cases hp : Text.partition sep s with
  | none =>
    rw [hp] at h
    exact h
  | some p =>
    rw [hp] at h
    rw [(Text.partition_eq_some hp).1]
    exact head_of_prefix _ h

/-- A bracketed host that passes the check starts with no further bracket. -/
theorem head_of_checkBracketedHost {host : List Char} (h : checkBracketedHost host = .ok ()) :
    host.head? ≠ some '[' := by
  intro hhead
  obtain ⟨t, rfl⟩ : ∃ t, host = '[' :: t := by
    cases host with
    | nil => cases hhead
    | cons c t => exact ⟨t, by rw [Option.some.inj hhead]⟩
  have hv : ¬ ('[' :: t).head? = some 'v' := by simp
  unfold checkBracketedHost at h
  rw [if_neg hv, ipAddress_bracket] at h
  cases h

theorem hostinfo_subset (netloc : List Char) : hostinfo netloc ⊆ netloc := by
  unfold hostinfo Text.rpartition
  cases hp : Text.partition '@' netloc.reverse with
  | none => exact List.Subset.refl _
  | some p =>
    intro c hc
    have hsplit := (Text.partition_eq_some hp).1
    rw [← List.mem_reverse, hsplit]
    exact List.mem_append_left _ (List.mem_reverse.mp hc)

/-- A host that passes the checks starts with no bracket. -/
theorem head_of_checkBrackets {r : SplitResult} (h : checkBrackets r.netloc = .ok ()) :
    r.host.head? ≠ some '[' := by
  intro hhead
  unfold SplitResult.host at hhead
  cases hp : Text.partition '[' (hostinfo r.netloc) with
  | none =>
    -- no bracket at all
    rw [hp] at hhead
    have hnot := (Text.partition_eq_none_iff '[' (hostinfo r.netloc)).mp hp
    exact hnot (List.mem_of_mem_head? (head_before hhead))
  | some p =>
    obtain ⟨before, bracketed⟩ := p
    rw [hp] at hhead
    have hopen : '[' ∈ r.netloc := by
      refine hostinfo_subset r.netloc ?_
      rw [(Text.partition_eq_some hp).1]
      simp
    unfold checkBrackets at h
    split at h
    · cases h
    unfold checkBracketedNetloc at h
    rw [hp] at h
    simp only at h hhead
    split at h
    · cases h
    unfold Text.before at hhead
    cases hq : Text.partition ']' bracketed with
    | none =>
      rw [hq] at h hhead
      exact head_of_checkBracketedHost h hhead
    | some q =>
      rw [hq] at h hhead
      simp only at h
      split at h
      · cases h
      · exact head_of_checkBracketedHost h hhead

end Url

/-- **No host name of a split URL starts with a bracket.** -/
theorem hostname_head {u : Unicode} {url : List Char} {r : SplitResult}
    (h : urlsplit u url = .ok r) {host : List Char} (hhost : r.hostname u = some host) :
    host.head? ≠ some '[' := by
  intro hhead
  refine Url.head_of_checkBrackets (urlsplit_ok h).1 ?_
  unfold SplitResult.hostname at hhost
  split at hhost
  · cases hhost
  split at hhost
  · rename_i name zone hpart
    injection hhost with hhost
    subst hhost
    have hname : (u.lower name).head? = some '[' := by
      cases hl : u.lower name with
      | nil => rw [hl] at hhead; simp at hhead
      | cons c cs => rw [hl] at hhead; exact hhead
    rw [(Text.partition_eq_some hpart).1]
    exact Url.head_of_prefix _ (u.lower_head name hname)
  · injection hhost with hhost
    subst hhost
    exact u.lower_head _ hhead

/-! ### A database that is lawful -/

/-- The characters that a host, a port and their surroundings are told apart by. -/
def Url.isMark (c : Char) : Bool :=
  c = '%' || c = '@' || c = ':' || c = '[' || c = ']' || Url.endsNetloc c || Url.isUnsafe c

/-- The delimiters that normalisation must not make. -/
def Url.isDelim (c : Char) : Bool := Url.endsNetloc c || c = '@' || c = ':'

/-- What the character database of the interpreter keeps to: lowering is done once, loses no
text and neither makes nor takes away a mark; normalisation leaves ASCII alone and makes a
delimiter only of a character that stands for one, and lowering makes no such character. -/
structure Unicode.Lawful (u : Unicode) : Prop where
  lower_lower : ∀ s, u.lower (u.lower s) = u.lower s
  lower_ne_nil : ∀ s, s ≠ [] → u.lower s ≠ []
  mem_lower : ∀ s c, Url.isMark c = true → (c ∈ u.lower s ↔ c ∈ s)
  nfkc_ascii : ∀ c : Char, c.toNat < 128 → u.nfkc [c] = [c]
  mem_nfkc : ∀ s c, Url.isDelim c = true → (c ∈ u.nfkc s ↔ ∃ d ∈ s, c ∈ u.nfkc [d])
  nfkc_lower : ∀ s c d, Url.isDelim c = true → d ∈ u.lower s → c ∈ u.nfkc [d] →
    ∃ e ∈ s, c ∈ u.nfkc [e]

theorem Url.not_letter_of_isMark {c : Char} (h : isMark c = true) :
    ¬ (65 ≤ c.toNat ∧ c.toNat ≤ 90) ∧ ¬ (97 ≤ c.toNat ∧ c.toNat ≤ 122) := by
  simp only [isMark, endsNetloc, isUnsafe, Bool.or_eq_true, decide_eq_true_eq] at h
  rcases h with (((((h | h) | h) | h) | h) | (h | h) | h) | (h | h) | h
  all_goals
    subst h
    decide

theorem Url.isMark_of_isDelim {c : Char} (h : isDelim c = true) : isMark c = true := by
  simp only [isDelim, isMark, Bool.or_eq_true] at h ⊢
  tauto

theorem Url.mem_asciiLower_iff {c : Char} (s : List Char) (h : isMark c = true) :
    c ∈ Text.asciiLower s ↔ c ∈ s := by
  obtain ⟨hcap, hsmall⟩ := not_letter_of_isMark h
  rw [Text.asciiLower, List.mem_map]
  constructor
  · rintro ⟨d, hd, hdc⟩
    rcases d.toLower_cases with hl | ⟨h65, h90, hl⟩
    · rwa [← hdc, hl]
    · rw [hdc] at hl
      omega
  · intro hc
    refine ⟨c, hc, ?_⟩
    rcases c.toLower_cases with hl | ⟨h65, h90, -⟩
    · exact hl
    · exact absurd ⟨h65, h90⟩ hcap

theorem Unicode.ascii_lawful : Unicode.ascii.Lawful where
  lower_lower s := by
    change (s.map Char.toLower).map Char.toLower = s.map Char.toLower
    rw [List.map_map]
    refine List.map_congr_left fun c _ => ?_
    rcases c.toLower.toLower_cases with h | ⟨h65, h90, -⟩
    · exact h
    · -- a small letter is no capital one
      rcases c.toLower_cases with hc | ⟨h65', h90', hc⟩
      · rw [Function.comp_apply, hc, hc]
      · omega
  lower_ne_nil s h := by simpa [Unicode.ascii, Text.asciiLower] using h
  mem_lower s c h := Url.mem_asciiLower_iff s h
  nfkc_ascii c _ := rfl
  mem_nfkc s c _ := by simp [Unicode.ascii]
  nfkc_lower s c d hc hd hcd := by
    have hcd : c = d := List.mem_singleton.mp hcd
    subst hcd
    exact ⟨c, (Url.mem_asciiLower_iff s (Url.isMark_of_isDelim hc)).mp hd, hcd⟩

/-! ### A scheme and a host -/

/-- The schemes of the web. -/
def Url.IsWeb (scheme : List Char) : Prop := scheme = "http".toList ∨ scheme = "https".toList

/-- A scheme and a host. -/
def Url.webUrl (scheme host : List Char) : List Char := scheme ++ "://".toList ++ host

theorem Url.cleaned_webUrl {scheme host : List Char} (hs : IsWeb scheme)
    (hh : ∀ c ∈ host, isUnsafe c = false) : cleaned (webUrl scheme host) = webUrl scheme host := by
  rcases hs with rfl | rfl
  · simpa [cleaned, webUrl, isUnsafe] using hh
  · simpa [cleaned, webUrl, isUnsafe] using hh

theorem Url.splitScheme_webUrl {scheme : List Char} (host : List Char) (hs : IsWeb scheme) :
    splitScheme (webUrl scheme host) = (scheme, '/' :: '/' :: host) := by
  have hcolon : ':' ∉ scheme := by rcases hs with rfl | rfl <;> decide
  have hpart : Text.partition ':' (webUrl scheme host) = some (scheme, '/' :: '/' :: host) := by
    rw [webUrl, List.append_assoc]
    exact Text.partition_append _ hcolon
  rw [splitScheme, hpart]
  rcases hs with rfl | rfl <;> rfl

/-- A URL of a scheme and a host splits into the two, if the host passes the checks. -/
theorem urlsplit_webUrl (u : Unicode) {scheme host : List Char} (hs : Url.IsWeb scheme)
    (hh : ∀ c ∈ host, Url.endsNetloc c = false ∧ Url.isUnsafe c = false) :
    urlsplit u (Url.webUrl scheme host) = do
      Url.checkBrackets host
      Url.checkNetloc u host
      return ⟨scheme, host, [], [], []⟩ := by
  have hspan : host.span (fun c => !Url.endsNetloc c) = (host, []) := by
    rw [List.span_eq_takeWhile_dropWhile]
    have hall : ∀ c ∈ host, (!Url.endsNetloc c) = true := fun c hc => by rw [(hh c hc).1]; rfl
    rw [List.takeWhile_eq_self_iff.mpr hall, List.dropWhile_eq_nil_iff.mpr hall]
  rw [urlsplit, Url.cleaned_webUrl hs fun c hc => (hh c hc).2, Url.splitScheme_webUrl host hs]
  simp only [hspan]
  rfl

/-! ### The host name of a URL with no user -/

namespace Url

variable {u : Unicode}

/-- The host, lowered up to its zone id. -/
def lowerHost (u : Unicode) (host : List Char) : List Char :=
  match Text.partition '%' host with
  | some (name, zone) => u.lower name ++ '%' :: zone
  | none => u.lower host

theorem hostname_eq (u : Unicode) (r : SplitResult) :
    r.hostname u = if r.host = [] then none else some (lowerHost u r.host) := by
  rw [SplitResult.hostname, lowerHost]
  cases Text.partition '%' r.host <;> rfl

theorem mem_lowerHost_iff (hu : u.Lawful) {c : Char} (hc : isMark c = true) (host : List Char) :
    c ∈ lowerHost u host ↔ c ∈ host := by
  rw [lowerHost]
  cases hp : Text.partition '%' host with
  | none => exact hu.mem_lower host c hc
  | some p =>
    rw [(Text.partition_eq_some hp).1]
    simp only [List.mem_append, hu.mem_lower p.1 c hc]

theorem lowerHost_ne_nil (hu : u.Lawful) {host : List Char} (h : host ≠ []) :
    lowerHost u host ≠ [] := by
  rw [lowerHost]
  split
  · exact List.append_ne_nil_of_right_ne_nil _ (List.cons_ne_nil _ _)
  · exact hu.lower_ne_nil host h

theorem lowerHost_lowerHost (hu : u.Lawful) (host : List Char) :
    lowerHost u (lowerHost u host) = lowerHost u host := by
  cases hp : Text.partition '%' host with
  | none =>
    have hnot := (Text.partition_eq_none_iff '%' host).mp hp
    have hlower : Text.partition '%' (u.lower host) = none := by
      rw [Text.partition_eq_none_iff, hu.mem_lower host '%' rfl]
      exact hnot
    have hl : lowerHost u host = u.lower host := by rw [lowerHost, hp]
    rw [hl, lowerHost, hlower]
    exact hu.lower_lower host
  | some p =>
    have hnot : '%' ∉ u.lower p.1 := by
      rw [hu.mem_lower p.1 '%' rfl]
      exact (Text.partition_eq_some hp).2
    have hl : lowerHost u host = u.lower p.1 ++ '%' :: p.2 := by rw [lowerHost, hp]
    rw [hl, lowerHost, Text.partition_append _ hnot]
    exact congrArg (· ++ '%' :: p.2) (hu.lower_lower p.1)

/-- What stands for a delimiter in the lowered host did so before. -/
theorem nfkc_lowerHost (hu : u.Lawful) {host : List Char} {c d : Char} (hc : isDelim c = true)
    (hd : d ∈ lowerHost u host) (hcd : c ∈ u.nfkc [d]) : ∃ e ∈ host, c ∈ u.nfkc [e] := by
  rw [lowerHost] at hd
  cases hp : Text.partition '%' host with
  | none =>
    rw [hp] at hd
    exact hu.nfkc_lower host c d hc hd hcd
  | some p =>
    rw [hp] at hd
    rw [(Text.partition_eq_some hp).1]
    rcases List.mem_append.mp hd with hd | hd
    · obtain ⟨e, he, hce⟩ := hu.nfkc_lower p.1 c d hc hd hcd
      exact ⟨e, List.mem_append_left _ he, hce⟩
    · exact ⟨d, List.mem_append_right _ hd, hcd⟩

/-- A network location that passes the check holds no character that stands for a
delimiter, but for the delimiters themselves. -/
theorem nfkc_of_checkNetloc (hu : u.Lawful) {netloc : List Char}
    (h : checkNetloc u netloc = .ok ()) (hslash : ∀ c ∈ netloc, endsNetloc c = false) {c e : Char}
    (hc : isDelim c = true) (he : e ∈ netloc) (hcolon : isDelim e = false) : c ∉ u.nfkc [e] := by
  intro hce
  -- `e` is among the characters the check looks at
  have hkept : e ∈ netloc.filter fun c => !(c = '@' || c = ':' || c = '#' || c = '?') := by
    refine List.mem_filter.mpr ⟨he, ?_⟩
    simp only [isDelim, endsNetloc, Bool.or_eq_false_iff, decide_eq_false_iff_not] at hcolon
    simp [hcolon]
  have hmem := (hu.mem_nfkc _ c hc).mpr ⟨e, hkept, hce⟩
  rw [checkNetloc] at h
  split at h
  · rename_i hok
    rcases hok with hascii | hsame
    · -- an ASCII character stands for itself
      have he128 : e.toNat < 128 := by simpa using List.all_eq_true.mp hascii e he
      rw [hu.nfkc_ascii e he128, List.mem_singleton] at hce
      rw [hce, hcolon] at hc
      cases hc
    · rw [hsame, List.mem_filter] at hmem
      have hends := hslash c hmem.1
      simp only [isDelim, hends, Bool.false_or, Bool.or_eq_true, decide_eq_true_eq] at hc
      rcases hc with rfl | rfl
      · exact absurd hmem.2 (by decide)
      · exact absurd hmem.2 (by decide)
  · split at h
    · cases h
    · rename_i hany
      exact hany (List.any_eq_true.mpr ⟨c, hmem, hc⟩)

/-- The lowered host passes the check that the network location passed. -/
theorem checkNetloc_lowerHost (hu : u.Lawful) {netloc host : List Char}
    (h : checkNetloc u netloc = .ok ()) (hslash : ∀ c ∈ netloc, endsNetloc c = false)
    (hsub : host ⊆ netloc) (hdelim : ∀ c ∈ host, isDelim c = false) :
    checkNetloc u (lowerHost u host) = .ok () := by
  rw [checkNetloc]
  split
  · rfl
  · split
    · rename_i hany
      obtain ⟨c, hmem, hc⟩ := List.any_eq_true.mp hany
      obtain ⟨d, hd, hcd⟩ := (hu.mem_nfkc _ c hc).mp hmem
      obtain ⟨e, he, hce⟩ := nfkc_lowerHost hu hc (List.mem_of_mem_filter hd) hcd
      exact absurd hce (nfkc_of_checkNetloc hu h hslash hc (hsub he) (hdelim e he))
    · rfl

/-! ### The characters of a host -/

theorem host_subset (r : SplitResult) : r.host ⊆ hostinfo r.netloc := by
  rw [SplitResult.host]
  cases hp : Text.partition '[' (hostinfo r.netloc) with
  | none => exact Text.before_subset _ _
  | some p =>
    intro c hc
    rw [(Text.partition_eq_some hp).1]
    exact List.mem_append_right _ (List.mem_cons_of_mem _ (Text.before_subset _ _ hc))

theorem at_notMem_hostinfo (netloc : List Char) : '@' ∉ hostinfo netloc := by
  rw [hostinfo]
  cases hp : Text.rpartition '@' netloc with
  | none => exact (Text.rpartition_eq_none_iff '@' netloc).mp hp
  | some p => exact (Text.rpartition_eq_some hp).2

/-- Without a user and a password there are only `:` and `@` before the host. -/
theorem mem_hostinfo_of_userinfo {r : SplitResult} (h1 : r.userinfo.1 = [])
    (h2 : r.userinfo.2 = []) {c : Char} (hc : c ∈ r.netloc) (hat : c ≠ '@') (hcolon : c ≠ ':') :
    c ∈ hostinfo r.netloc := by
  rw [SplitResult.userinfo] at h1 h2
  rw [hostinfo]
  cases hp : Text.rpartition '@' r.netloc with
  | none => exact hc
  | some p =>
    rw [hp] at h1 h2
    dsimp only at h1 h2
    rw [(Text.rpartition_eq_some hp).1, List.mem_append, List.mem_cons] at hc
    rcases hc with hc | hc | hc
    · -- the user information is empty, or a colon
      exfalso
      cases hq : Text.partition ':' p.1 with
      | none =>
        rw [hq] at h1
        rw [show p.1 = [] from h1] at hc
        cases hc
      | some q =>
        rw [hq] at h1 h2
        rw [(Text.partition_eq_some hq).1, show q.1 = [] from h1, show q.2 = [] from h2] at hc
        exact hcolon (List.mem_singleton.mp hc)
    · exact absurd hc hat
    · exact hc

/-- A host without brackets has no colon. -/
theorem colon_notMem_host {r : SplitResult} (h : '[' ∉ hostinfo r.netloc) : ':' ∉ r.host := by
  rw [SplitResult.host, (Text.partition_eq_none_iff _ _).mpr h]
  exact Text.notMem_before _ _

/-- The host of a URL with no user has no closing bracket. -/
theorem bracket_notMem_host {r : SplitResult} (hb : checkBrackets r.netloc = .ok ())
    (h1 : r.userinfo.1 = []) (h2 : r.userinfo.2 = []) : ']' ∉ r.host := by
  rw [SplitResult.host]
  cases hp : Text.partition '[' (hostinfo r.netloc) with
  | some p => exact Text.notMem_before _ _
  | none =>
    -- no bracket opens, so none closes
    intro hmem
    have hclose : ']' ∈ r.netloc := hostinfo_subset _ (Text.before_subset _ _ hmem)
    have hopen : '[' ∉ r.netloc := fun ho =>
      (Text.partition_eq_none_iff _ _).mp hp
        (mem_hostinfo_of_userinfo h1 h2 ho (by decide) (by decide))
    rw [checkBrackets, if_pos (.inr ⟨hclose, hopen⟩)] at hb
    cases hb

theorem hostinfo_of_notMem {netloc : List Char} (h : '@' ∉ netloc) :
    hostinfo netloc = netloc := by
  rw [hostinfo, (Text.rpartition_eq_none_iff _ _).mpr h]
  rfl

end Url
