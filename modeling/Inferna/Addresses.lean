import Inferna.UpstreamGuard
import Inferna.Scheduler

/-!
# Worker addresses

The address a worker registers is read by three parsers: `normalize_worker_address` turns
it into a scheme and a host name, `_extract_host` finds the host that is checked and proxied
to, and `rendezvous_host` the host that the ranks of a parallel group dial.

## Main definitions

* `normalizeWorkerAddress` — `normalize_worker_address`.
* `validateWorkerAddress` — `validate_worker_address`.
* `addressHost` — the host name `urlsplit` gives for an address.

## Main results

* `same_host` — the three parsers agree on the normalised address, exactly when its host has
  no colon, no bracket and no white space at its end.
-/

namespace Inferna

/-- Why an address is refused.  Each is a `ValueError`. -/
inductive AddressError
  | invalid (raw : List Char) (e : UrlError)
  | unsupportedScheme (scheme : List Char)
  | missingHostname
  | userinfo
  | path (path : List Char)
  | query
  | fragment
  | invalidPort (e : PortError)
  | port
  deriving DecidableEq, Repr

/-- A text with `http://` before it when it has no scheme. -/
def withScheme (s : List Char) : List Char :=
  if (splitAtScheme s).isSome then s else "http://".toList ++ s

/-- `normalize_worker_address` on what `urlsplit` gives. -/
def normalizeParsed (u : Unicode) (parsed : SplitResult) : Except AddressError (List Char) :=
  let scheme := Text.asciiLower parsed.scheme
  if scheme ≠ "http".toList ∧ scheme ≠ "https".toList then .error (.unsupportedScheme scheme)
  else if parsed.hostname u = none ∨ parsed.hostname u = some [] then .error .missingHostname
  else if parsed.userinfo.1 ≠ [] ∨ parsed.userinfo.2 ≠ [] then .error .userinfo
  else if parsed.path ≠ [] ∧ parsed.path ≠ ['/'] then .error (.path parsed.path)
  else if parsed.query ≠ [] then .error .query
  else if parsed.fragment ≠ [] then .error .fragment
  else
    match parsed.port with
    | .error e => .error (.invalidPort e)
    | .ok (some _) => .error .port
    | .ok none => .ok (Url.webUrl scheme ((parsed.hostname u).getD []))

/-- `normalize_worker_address`. -/
def normalizeWorkerAddress (u : Unicode) (raw : List Char) : Except AddressError (List Char) :=
  let s := Text.strip raw
  if s = [] then .ok []
  else
    match urlsplit u (withScheme s) with
    | .error e => .error (.invalid raw e)
    | .ok parsed => normalizeParsed u parsed

/-- `validate_worker_address`. -/
def validateWorkerAddress (u : Unicode) (dns : List Char → DnsAnswer) (settings : GuardSettings)
    (raw : List Char) : Except (AddressError ⊕ GuardError) (List Char) :=
  match normalizeWorkerAddress u raw with
  | .error e => .error (.inl e)
  | .ok [] => .ok []
  | .ok normalized =>
    match resolveAndValidate u dns settings normalized with
    | .error e => .error (.inr e)
    | .ok _ => .ok normalized

/-- The host name of an address. -/
def addressHost (u : Unicode) (raw : List Char) : Option (List Char) :=
  match urlsplit u (withScheme (Text.strip raw)) with
  | .error _ => none
  | .ok parsed => parsed.hostname u

/-! ### Addresses that are accepted -/

/-- A split address that is accepted: a web scheme, a host name and no user. -/
structure Accepted (u : Unicode) (r : SplitResult) (scheme host : List Char) : Prop where
  scheme_eq : scheme = Text.asciiLower r.scheme
  web : Url.IsWeb scheme
  hostname : r.hostname u = some host
  user : r.userinfo.1 = []
  password : r.userinfo.2 = []

theorem normalizeParsed_ok {u : Unicode} {r : SplitResult} {s : List Char}
    (h : normalizeParsed u r = .ok s) :
    ∃ scheme host, Accepted u r scheme host ∧ s = Url.webUrl scheme host := by
  rw [normalizeParsed] at h
  split at h
  · cases h
  rename_i hscheme
  split at h
  · cases h
  rename_i hhost
  split at h
  · cases h
  rename_i huser
  split at h
  · cases h
  split at h
  · cases h
  split at h
  · cases h
  split at h
  · cases h
  · cases h
  simp only [not_or, not_not] at huser
  obtain ⟨host, hname⟩ := Option.ne_none_iff_exists'.mp (not_or.mp hhost).1
  rw [hname] at h
  cases h
  refine ⟨_, host, ⟨rfl, ?_, hname, huser.1, huser.2⟩, rfl⟩
  rw [Url.IsWeb]
  tauto

theorem normalizeWorkerAddress_ok {u : Unicode} {raw s : List Char}
    (h : normalizeWorkerAddress u raw = .ok s) (hne : s ≠ []) :
    ∃ r, urlsplit u (withScheme (Text.strip raw)) = .ok r ∧ normalizeParsed u r = .ok s := by
  rw [normalizeWorkerAddress] at h
  split at h
  · cases h
    exact absurd rfl hne
  · split at h
    · cases h
    · rename_i r hr
      exact ⟨r, hr, h⟩

/-- An address that a worker registers is normalised, and the guard has let it through. -/
theorem validateWorkerAddress_ok {u : Unicode} {dns : List Char → DnsAnswer}
    {settings : GuardSettings} {raw s : List Char}
    (h : validateWorkerAddress u dns settings raw = .ok s) (hne : s ≠ []) :
    normalizeWorkerAddress u raw = .ok s ∧
      ∃ pin, resolveAndValidate u dns settings s = .ok pin := by
  rw [validateWorkerAddress] at h
  split at h
  · cases h
  · cases h
    exact absurd rfl hne
  · rename_i normalized _ hn
    split at h
    · cases h
    · rename_i pin hpin
      cases h
      exact ⟨hn, pin, hpin⟩

/-! ### The host of an accepted address -/

/-- What the first reading tells of the host name. -/
structure PlainHost (u : Unicode) (host : List Char) : Prop where
  ne_nil : host ≠ []
  /-- It lies within the network location. -/
  inside : ∀ c ∈ host, Url.endsNetloc c = false ∧ Url.isUnsafe c = false
  noAt : '@' ∉ host
  noBracket : ']' ∉ host
  lowered : Url.lowerHost u host = host
  /-- Without a colon, it passes the check of the network location again. -/
  netloc : ':' ∉ host → Url.checkNetloc u host = .ok ()

theorem Accepted.plainHost {u : Unicode} (hu : u.Lawful) {url : List Char} {r : SplitResult}
    {scheme host : List Char} (hr : urlsplit u url = .ok r) (h : Accepted u r scheme host) :
    PlainHost u host := by
  obtain ⟨hbrackets, hnetloc, hinside⟩ := urlsplit_ok hr
  have hname := h.hostname
  rw [Url.hostname_eq] at hname
  split at hname
  · cases hname
  rename_i hne
  cases hname
  have hsub : r.host ⊆ r.netloc := fun c hc => Url.hostinfo_subset _ (Url.host_subset r hc)
  -- a mark of the lowered host is one of the host
  have hmark : ∀ c ∈ Url.lowerHost u r.host, Url.isMark c = true → c ∈ r.host :=
    fun c hc hm => (Url.mem_lowerHost_iff hu hm r.host).mp hc
  refine ⟨Url.lowerHost_ne_nil hu hne, ?_, ?_, ?_, Url.lowerHost_lowerHost hu r.host, ?_⟩
  · intro c hc
    by_contra hbad
    have hm : Url.isMark c = true := by
      rw [← Bool.or_eq_false_iff, Bool.not_eq_false] at hbad
      rw [Url.isMark, Bool.or_assoc, hbad, Bool.or_true]
    exact hbad (hinside c (hsub (hmark c hc hm)))
  · intro hat
    exact Url.at_notMem_hostinfo _ (Url.host_subset r (hmark _ hat rfl))
  · intro hclose
    exact Url.bracket_notMem_host hbrackets h.user h.password (hmark _ hclose rfl)
  · intro hcolon
    refine Url.checkNetloc_lowerHost hu hnetloc (fun c hc => (hinside c hc).1) hsub ?_
    intro c hc
    by_contra hdelim
    rw [Bool.not_eq_false, Url.isDelim, (hinside c (hsub hc)).1, Bool.false_or, Bool.or_eq_true,
      decide_eq_true_eq, decide_eq_true_eq] at hdelim
    rcases hdelim with rfl | rfl
    · exact Url.at_notMem_hostinfo _ (Url.host_subset r hc)
    · exact hcolon ((Url.mem_lowerHost_iff hu rfl r.host).mpr hc)

/-! ### Reading a normalised address -/

theorem strip_webUrl {scheme : List Char} (hs : Url.IsWeb scheme) (host : List Char) :
    Text.strip (Url.webUrl scheme host) = Url.webUrl scheme (host.rdropWhile Text.isSpace) := by
  rcases hs with rfl | rfl
  · exact @Text.stripBy_append Text.isSpace 'h' '/' "ttp:/".toList host (by decide) (by decide)
  · exact @Text.stripBy_append Text.isSpace 'h' '/' "ttps:/".toList host (by decide) (by decide)

theorem withScheme_webUrl {scheme : List Char} (hs : Url.IsWeb scheme) (host : List Char) :
    withScheme (Url.webUrl scheme host) = Url.webUrl scheme host := by
  rw [withScheme, if_pos]
  rcases hs with rfl | rfl <;> rfl

theorem webUrl_ne_nil (scheme host : List Char) : Url.webUrl scheme host ≠ [] := by
  simp [Url.webUrl]

/-- The host can be told from a URL of a scheme and a host. -/
theorem host_of_webUrl_eq {scheme scheme' host host' : List Char} (hs : Url.IsWeb scheme)
    (hs' : Url.IsWeb scheme') (h : Url.webUrl scheme host = Url.webUrl scheme' host') :
    host = host' := by
  have hsplit := congrArg Url.splitScheme h
  rw [Url.splitScheme_webUrl host hs, Url.splitScheme_webUrl host' hs'] at hsplit
  simpa using congrArg Prod.snd hsplit

section Plain

variable {u : Unicode} {scheme host : List Char}

theorem urlsplit_plain (hs : Url.IsWeb scheme) (h : PlainHost u host) (hcolon : ':' ∉ host)
    (hopen : '[' ∉ host) :
    urlsplit u (Url.webUrl scheme host) = .ok ⟨scheme, host, [], [], []⟩ := by
  have hbrackets : Url.checkBrackets host = .ok () := by
    rw [Url.checkBrackets, if_neg (by simp [hopen, h.noBracket]), if_neg hopen]
  rw [urlsplit_webUrl u hs h.inside, hbrackets, h.netloc hcolon]
  rfl

theorem host_plain (h : PlainHost u host) (hcolon : ':' ∉ host) (hopen : '[' ∉ host) :
    (⟨scheme, host, [], [], []⟩ : SplitResult).host = host := by
  rw [SplitResult.host, Url.hostinfo_of_notMem h.noAt, (Text.partition_eq_none_iff _ _).mpr hopen]
  exact Text.before_of_notMem hcolon

theorem hostname_plain (h : PlainHost u host) (hcolon : ':' ∉ host) (hopen : '[' ∉ host) :
    (⟨scheme, host, [], [], []⟩ : SplitResult).hostname u = some host := by
  rw [Url.hostname_eq, host_plain h hcolon hopen, if_neg h.ne_nil, h.lowered]

theorem extractHost_plain (hs : Url.IsWeb scheme) (h : PlainHost u host) (hcolon : ':' ∉ host)
    (hopen : '[' ∉ host) (hlast : host.rdropWhile Text.isSpace = host) :
    extractHost u (Url.webUrl scheme host) = .ok host := by
  have hstrip : Text.strip (Url.webUrl scheme host) = Url.webUrl scheme host := by
    rw [strip_webUrl hs, hlast]
  have hparse := withScheme_webUrl hs host
  rw [withScheme] at hparse
  rw [extractHost]
  simp only [hstrip, webUrl_ne_nil, if_false, hparse, urlsplit_plain hs h hcolon hopen,
    hostname_plain h hcolon hopen]
  obtain ⟨c, cs, rfl⟩ := List.exists_cons_of_ne_nil h.ne_nil
  rfl

theorem normalize_plain (hs : Url.IsWeb scheme) (h : PlainHost u host) (hcolon : ':' ∉ host)
    (hopen : '[' ∉ host) (hlast : host.rdropWhile Text.isSpace = host) :
    normalizeWorkerAddress u (Url.webUrl scheme host) = .ok (Url.webUrl scheme host) := by
  have hstrip : Text.strip (Url.webUrl scheme host) = Url.webUrl scheme host := by
    rw [strip_webUrl hs, hlast]
  have huser : (⟨scheme, host, [], [], []⟩ : SplitResult).userinfo = ([], []) := by
    rw [SplitResult.userinfo, (Text.rpartition_eq_none_iff _ _).mpr h.noAt]
  have hport : (⟨scheme, host, [], [], []⟩ : SplitResult).port = .ok none := by
    rw [SplitResult.port, if_pos]
    rw [SplitResult.portText, Url.hostinfo_of_notMem h.noAt,
      (Text.partition_eq_none_iff _ _).mpr hopen]
    simp only [(Text.partition_eq_none_iff _ _).mpr hcolon]
    rfl
  have hlower : Text.asciiLower scheme = scheme := by rcases hs with rfl | rfl <;> rfl
  rw [normalizeWorkerAddress]
  simp only [hstrip, webUrl_ne_nil, if_false, withScheme_webUrl hs,
    urlsplit_plain hs h hcolon hopen]
  have hweb : ¬ (scheme ≠ "http".toList ∧ scheme ≠ "https".toList) := by
    rw [Url.IsWeb] at hs
    tauto
  rw [normalizeParsed]
  simp only [hlower]
  rw [if_neg hweb]
  simp [hostname_plain h hcolon hopen, huser, hport, h.ne_nil]

/-- Only a text with a slash starts with a scheme. -/
theorem dropPrefixCI_of_notMem {pre s : List Char} (hpre : '/' ∈ pre) (hs : '/' ∉ s) :
    Text.dropPrefixCI pre s = s := by
  rw [Text.dropPrefixCI, if_neg]
  intro hprefix
  have hmem := (List.isPrefixOf_iff_prefix.mp hprefix).subset hpre
  exact hs ((Url.mem_asciiLower_iff s rfl).mp hmem)

theorem dropPrefixCI_webUrl (hs : Url.IsWeb scheme) (hslash : '/' ∉ host) :
    Text.dropPrefixCI "https://".toList
      (Text.dropPrefixCI "http://".toList (Url.webUrl scheme host)) = host := by
  rcases hs with rfl | rfl
  · have hdrop : Text.dropPrefixCI "http://".toList (Url.webUrl "http".toList host) = host := rfl
    rw [hdrop]
    exact dropPrefixCI_of_notMem (by decide) hslash
  · rfl

theorem bareHost_of_notMem {isDigit : Char → Bool} (hopen : '[' ∉ host) (hcolon : ':' ∉ host) :
    bareHost isDigit host = host := by
  rw [bareHost.eq_def]
  split
  · exact absurd List.mem_cons_self hopen
  · rw [(Text.rpartition_eq_none_iff _ _).mpr hcolon]

/-- The dialled host is the host, less the white space at its end. -/
theorem rendezvousHostBy_webUrl (isDigit : Char → Bool) (hs : Url.IsWeb scheme)
    (h : PlainHost u host) (hcolon : ':' ∉ host) (hopen : '[' ∉ host) (fallback : String) :
    rendezvousHostBy isDigit (some (String.ofList (Url.webUrl scheme host))) fallback =
      String.ofList (host.rdropWhile Text.isSpace) := by
  have hsub : host.rdropWhile Text.isSpace ⊆ host := (List.rdropWhile_prefix _ _).subset
  have hends : ∀ c, Url.endsNetloc c = true → c ∉ host.rdropWhile Text.isSpace := by
    intro c hc hmem
    rw [(h.inside c (hsub hmem)).1] at hc
    cases hc
  have hraw : Text.strip ((some (String.ofList (Url.webUrl scheme host))).getD "").toList =
      Url.webUrl scheme (host.rdropWhile Text.isSpace) := by
    rw [Option.getD_some, String.toList_ofList, strip_webUrl hs]
  have hfull : (Url.webUrl scheme (host.rdropWhile Text.isSpace)).isEmpty = false :=
    List.isEmpty_eq_false_iff.mpr (webUrl_ne_nil _ _)
  rw [rendezvousHostBy, hraw, hfull, if_neg Bool.false_ne_true,
    dropPrefixCI_webUrl hs (hends '/' rfl), Text.before_of_notMem (hends '/' rfl),
    Text.before_of_notMem (hends '?' rfl), Text.before_of_notMem (hends '#' rfl),
    bareHost_of_notMem (fun hmem => hopen (hsub hmem)) fun hmem => hcolon (hsub hmem)]

end Plain

/-- The agreement of the three parsers on an address and its host. -/
def SameHost (u : Unicode) (s host : List Char) : Prop :=
  extractHost u s = .ok host ∧
    (∀ fallback, rendezvousHostBy u.isDigit (some (String.ofList s)) fallback =
      String.ofList host) ∧
    normalizeWorkerAddress u s = .ok s

theorem netloc_of_urlsplit_webUrl {u : Unicode} {scheme host : List Char} {r : SplitResult}
    (hs : Url.IsWeb scheme)
    (hh : ∀ c ∈ host, Url.endsNetloc c = false ∧ Url.isUnsafe c = false)
    (hr : urlsplit u (Url.webUrl scheme host) = .ok r) : r.netloc = host := by
  rw [urlsplit_webUrl u hs hh] at hr
  simp only [bind, Except.bind] at hr
  split at hr
  · cases hr
  split at hr
  · cases hr
  cases hr
  rfl

/-- An address that is normalised to itself has neither a colon nor a bracket in its host. -/
theorem plain_of_normalize {u : Unicode} (hu : u.Lawful) {scheme host : List Char}
    (hs : Url.IsWeb scheme) (h : PlainHost u host)
    (hn : normalizeWorkerAddress u (Url.webUrl scheme host) = .ok (Url.webUrl scheme host)) :
    ':' ∉ host ∧ '[' ∉ host := by
  obtain ⟨r, hr, hparsed⟩ := normalizeWorkerAddress_ok hn (webUrl_ne_nil _ _)
  obtain ⟨scheme', host', hacc, heq⟩ := normalizeParsed_ok hparsed
  obtain rfl := host_of_webUrl_eq hs hacc.web heq
  -- the second reading is of the stripped text, and finds the host again
  have hsub : host.rdropWhile Text.isSpace ⊆ host := (List.rdropWhile_prefix _ _).subset
  rw [strip_webUrl hs, withScheme_webUrl hs] at hr
  have hnet : r.netloc = host.rdropWhile Text.isSpace :=
    netloc_of_urlsplit_webUrl hs (fun c hc => h.inside c (hsub hc)) hr
  have hclose : ']' ∉ r.netloc := fun hmem => h.noBracket (hsub (hnet ▸ hmem))
  have hopen : '[' ∉ r.netloc := by
    intro hmem
    have hb := (urlsplit_ok hr).1
    rw [Url.checkBrackets, if_pos (.inl ⟨hmem, hclose⟩)] at hb
    cases hb
  have hopen' : '[' ∉ Url.hostinfo r.netloc := fun hmem => hopen (Url.hostinfo_subset _ hmem)
  have hname := hacc.hostname
  rw [Url.hostname_eq] at hname
  split at hname
  · cases hname
  have hlower : Url.lowerHost u r.host = host := Option.some.inj hname
  rw [← hlower, Url.mem_lowerHost_iff hu rfl, Url.mem_lowerHost_iff hu rfl]
  exact ⟨Url.colon_notMem_host hopen', fun hmem => hopen' (Url.host_subset r hmem)⟩

/-- **The three parsers agree on the host of a normalised address exactly when it has no
colon, no bracket and no white space at its end.** -/
theorem same_host {u : Unicode} (hu : u.Lawful) {raw s host : List Char}
    (hs : normalizeWorkerAddress u raw = .ok s) (hne : s ≠ [])
    (hhost : addressHost u raw = some host) :
    SameHost u s host ↔
      ':' ∉ host ∧ '[' ∉ host ∧ ∀ c, host.getLast? = some c → Text.isSpace c = false := by
  obtain ⟨r, hr, hparsed⟩ := normalizeWorkerAddress_ok hs hne
  obtain ⟨scheme, host', hacc, rfl⟩ := normalizeParsed_ok hparsed
  rw [addressHost, hr] at hhost
  obtain rfl : host' = host := Option.some.inj (hacc.hostname.symm.trans hhost)
  have hplain := hacc.plainHost hu hr
  have hlast : (∀ c, host'.getLast? = some c → Text.isSpace c = false) ↔
      host'.rdropWhile Text.isSpace = host' := by
    rw [List.rdropWhile_eq_self_iff]
    constructor
    · intro h hne'
      rw [h _ (List.getLast?_eq_some_getLast hne')]
      exact Bool.false_ne_true
    · intro h c hc
      have hne' : host' ≠ [] := hplain.ne_nil
      rw [← (List.getLast_eq_iff_getLast?_eq_some hne').mpr hc]
      exact Bool.eq_false_iff.mpr (h hne')
  constructor
  · rintro ⟨-, hdial, hnorm⟩
    obtain ⟨hcolon, hopen⟩ := plain_of_normalize hu hacc.web hplain hnorm
    have hd := hdial ""
    rw [rendezvousHostBy_webUrl u.isDigit hacc.web hplain hcolon hopen] at hd
    exact ⟨hcolon, hopen, hlast.mpr (String.ofList_injective hd)⟩
  · rintro ⟨hcolon, hopen, hl⟩
    rw [hlast] at hl
    refine ⟨extractHost_plain hacc.web hplain hcolon hopen hl, fun fallback => ?_,
      normalize_plain hacc.web hplain hcolon hopen hl⟩
    rw [rendezvousHostBy_webUrl u.isDigit hacc.web hplain hcolon hopen, hl]

theorem same_host_sample :
    SameHost Unicode.ascii "http://worker1.lan".toList "worker1.lan".toList := by
  have hs : normalizeWorkerAddress Unicode.ascii " Worker1.LAN:/".toList =
      .ok "http://worker1.lan".toList := rfl
  refine (same_host Unicode.ascii_lawful hs (by decide) rfl).mpr ⟨by decide, by decide, ?_⟩
  intro c hc
  cases hc
  rfl

/-- The brackets of an IPv6 address are lost, and the rest is read as a host and a port. -/
theorem ipv6_host_lost :
    ¬ ∀ (u : Unicode), u.Lawful → ∀ (raw s host : List Char),
      normalizeWorkerAddress u raw = .ok s → s ≠ [] → addressHost u raw = some host →
        SameHost u s host := by
  intro h
  have hsame := h Unicode.ascii Unicode.ascii_lawful "[fe80::1]".toList "http://fe80::1".toList
    "fe80::1".toList rfl (by decide) rfl
  cases hsame.1

end Inferna
