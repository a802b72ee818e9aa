import Inferna.Gateway
import Inferna.Addresses
import Inferna.PinSafety
import Inferna.Lib.IpText

/-!
# Literal addresses over http and https

A worker's address that is a literal IP address needs no resolver, and the pinned address is the
one that was written.  Over http the gateway connects to the pin.  Over https it compares the text
of the pin with the text of the host: these are the same for IPv4 only, since the pin of an IPv6
address is in brackets and the host is not, and the pin of an IPv4-mapped one is an IPv4 address.
An IPv6 literal is then taken for a name that has to be trusted.

## Main definitions

* `spelled` — a literal as the host of a URL, in brackets or bare.
* `Denotes` — an authority is read as an address and a port.
* `Routes` — the resolved target stands for an address.

## Main results

* `routes_spell` — a literal in its place in a URL is read again.
* `literals_agree_iff` — **both schemes route a literal exactly when it is an IPv4 address, or an
  IPv6 one that is read as such and whose text is trusted as a name.**
-/

namespace Inferna

open Ip (IsLiteral isHostChar)

/-- A literal as the host of a URL, in brackets or bare. -/
def spelled (bracketed : Bool) (a : List Char) : List Char :=
  if bracketed then '[' :: a ++ [']'] else a

/-- The worker, at another address. -/
def Worker.withAddress (w : Worker) (url : List Char) : Worker :=
  { w with address := some (String.ofList url) }

/-- The authority is read as the address, IPv4-mapped ones unwrapped, and the port. -/
def Denotes (u : Unicode) (scheme authority : List Char) (ip : IpAddress) (port : ℕ) : Prop :=
  ∃ r host, urlsplit u (Url.webUrl scheme authority) = .ok r ∧ r.netloc = authority ∧
    r.hostname u = some host ∧ (ipAddress host).map unwrapIpv4Mapped = some (unwrapIpv4Mapped ip) ∧
    r.portText = (toString port).toList

/-- The step of a request after the answer of the resolver gives it a target, and its authority
denotes the address. -/
def Routes (u : Unicode) (settings : GuardSettings) (s : Routing) (q : Request) (inst : Instance)
    (worker : Worker) (answer : DnsAnswer) (scheme : List Char) (ip : IpAddress) (port : ℕ) :
    Prop :=
  ∃ authority, Denotes u scheme authority ip port ∧
    resume u settings s { q with phase := .validate inst worker } (.resolved answer) =
      (s, { q with phase := .quota inst worker (Url.webUrl scheme authority ++ q.path ++
        if q.query = [] then [] else '?' :: q.query) })

/-! ### The place of a literal in a URL -/

/-- The text of an address in its place: an IPv6 one in brackets. -/
def inPlace (ip : IpAddress) (x : List Char) : List Char :=
  match ip with
  | .v4 _ => x
  | .v6 _ _ => '[' :: x ++ [']']

theorem ipToPin_eq (ip : IpAddress) : ipToPin ip = inPlace ip ip.text := by cases ip <;> rfl

theorem ne_of_isHostChar {c d : Char} (h : isHostChar c = true) (hd : isHostChar d = false) :
    c ≠ d := by
  rintro rfl
  rw [h] at hd
  cases hd

theorem isDigit_isHostChar {c : Char} (h : c.isDigit = true) : isHostChar c = true := by
  rw [isHostChar, Ip.isUnreserved, Char.isAlphanum, h, Bool.or_true]
  rfl

/-- A character of a host or a bracket is no delimiter of the network location. -/
theorem inside_of_isHostChar {c : Char} (h : isHostChar c = true ∨ c = '[' ∨ c = ']') :
    (Url.endsNetloc c = false ∧ Url.isUnsafe c = false) ∧ c.toNat < 128 ∧ c ≠ '@' ∧
      Text.isSpace c = false := by
  rcases h with h | rfl | rfl
  · have hne : ∀ {d}, isHostChar d = false → c ≠ d := fun hd => ne_of_isHostChar h hd
    have hspace : Text.isSpace c = false := by
      have h128 := Ip.toNat_lt_of_isHostChar h
      have hall : ∀ n : Fin 128, Text.isSpace (Char.ofNat n) = true →
          isHostChar (Char.ofNat n) = false := by decide
      by_contra hs
      have hc := hall ⟨c.toNat, h128⟩
      rw [Char.ofNat_toNat, h] at hc
      cases hc (by simpa using hs)
    refine ⟨⟨?_, ?_⟩, Ip.toNat_lt_of_isHostChar h, hne rfl, hspace⟩
    · rw [Url.endsNetloc, decide_eq_false (hne rfl), decide_eq_false (hne rfl),
        decide_eq_false (hne rfl)]
      rfl
    · rw [Url.isUnsafe, decide_eq_false (hne rfl), decide_eq_false (hne rfl),
        decide_eq_false (hne rfl)]
      rfl
  all_goals exact ⟨⟨rfl, rfl⟩, by decide, by decide, rfl⟩

section Place

variable {u : Unicode} {scheme x port : List Char} {ip : IpAddress}

theorem literal_ne_nil (h : IsLiteral x ip) : x ≠ [] := by
  rintro rfl
  have hread := h.reads
  rw [show ipAddress [] = none from rfl] at hread
  cases hread

/-- What is not a host character is not in a literal. -/
theorem notMem_literal (h : IsLiteral x ip) {c : Char} (hc : isHostChar c = false) : c ∉ x := by
  intro hmem
  rw [h.isHostChar hmem] at hc
  cases hc

theorem isSpace_literal (h : IsLiteral x ip) : ∀ c ∈ x, Text.isSpace c = false := fun _ hc =>
  (inside_of_isHostChar (Or.inl (h.isHostChar hc))).2.2.2

/-- An IPv6 literal is not taken for an address of a future version. -/
theorem checkBracketedHost_literal {v : BitVec 128} {zone : Option (List Char)}
    (h : IsLiteral x (.v6 v zone)) : Url.checkBracketedHost x = .ok () := by
  have hfirst : x.head? ≠ some 'v' := by
    intro hv
    have hbefore := h.ipAddress_before.1
    obtain ⟨t, rfl⟩ : ∃ t, x = 'v' :: t := by
      cases x with
      | nil => cases hv
      | cons c t => exact ⟨t, by rw [Option.some.inj hv]⟩
    have hmem : 'v' ∈ Text.before ':' ('v' :: t) := by
      rw [Text.before, Text.partition, if_neg (by decide)]
      cases Text.partition ':' t <;> exact List.mem_cons_self
    cases hbefore 'v' hmem
  rw [Url.checkBracketedHost, if_neg hfirst, h.reads]

theorem mem_inPlace {c : Char} (hc : c ∈ inPlace ip x) : c ∈ x ∨ c = '[' ∨ c = ']' := by
  cases ip with
  | v4 v => exact Or.inl hc
  | v6 v zone =>
    simp only [inPlace, List.cons_append, List.mem_cons, List.mem_append, List.not_mem_nil,
      or_false] at hc
    tauto

/-- A port, with its colon, or nothing. -/
structure IsPort (port : List Char) : Prop where
  head : port ≠ [] → port.head? = some ':'
  chars : ∀ c ∈ port, isHostChar c = true

theorem isPort_nil : IsPort [] := ⟨fun h => absurd rfl h, fun _ h => absurd h List.not_mem_nil⟩

theorem isPort_toString (n : ℕ) : IsPort (':' :: (toString n).toList) where
  head _ := rfl
  chars c hc := by
    rcases List.mem_cons.mp hc with rfl | hc
    · rfl
    · exact isDigit_isHostChar (Text.isDigit_of_mem_toString hc)

theorem IsPort.notMem (hp : IsPort port) {c : Char} (hc : isHostChar c = false) : c ∉ port := by
  intro hmem
  rw [hp.chars c hmem] at hc
  cases hc

theorem IsPort.before (hp : IsPort port) {x : List Char} (hx : ':' ∉ x) :
    Text.before ':' (x ++ port) = x := by
  cases port with
  | nil => rw [List.append_nil, Text.before_of_notMem hx]
  | cons c rest =>
    obtain rfl := Option.some.inj (hp.head (List.cons_ne_nil _ _))
    rw [Text.before, Text.partition_append _ hx]
    rfl

/-- What stands behind the first colon is the port. -/
theorem IsPort.after (hp : IsPort port) {x : List Char} (hx : ':' ∉ x) :
    ((Text.partition ':' (x ++ port)).map (·.2)).getD [] = port.drop 1 := by
  cases port with
  | nil =>
    rw [List.append_nil, (Text.partition_eq_none_iff _ _).mpr hx]
    rfl
  | cons c rest =>
    obtain rfl := Option.some.inj (hp.head (List.cons_ne_nil _ _))
    rw [Text.partition_append _ hx]
    rfl

/-- The parts of a network location made of a literal and a port. -/
structure HostPlaced (r : SplitResult) (x port : List Char) : Prop where
  host : r.host = x
  portText : r.portText = port.drop 1

theorem checkBrackets_plain (hopen : '[' ∉ x) (hclose : ']' ∉ x) :
    Url.checkBrackets x = .ok () := by
  rw [Url.checkBrackets, if_neg (by simp [hopen, hclose]), if_neg hopen]

/-- In brackets, all depends on the host. -/
theorem checkBrackets_bracketed (hat : '@' ∉ '[' :: (x ++ ']' :: port)) (hclose : ']' ∉ x)
    (hp : IsPort port) :
    Url.checkBrackets ('[' :: (x ++ ']' :: port)) = Url.checkBracketedHost x := by
  have hpart : Text.partition '[' ('[' :: (x ++ ']' :: port)) = some ([], x ++ ']' :: port) := rfl
  have hpart' : Text.partition ']' (x ++ ']' :: port) = some (x, port) :=
    Text.partition_append _ hclose
  rw [Url.checkBrackets, if_neg (by simp), if_pos List.mem_cons_self, Url.checkBracketedNetloc,
    Url.hostinfo_of_notMem hat, hpart]
  simp only [hpart', ne_eq, not_true_eq_false, if_false]
  rw [if_neg fun hno => hno.2 (hp.head hno.1)]

theorem hostPlaced_v4 {v : BitVec 32} (h : IsLiteral x (.v4 v)) (hp : IsPort port)
    (hat : '@' ∉ x ++ port) : HostPlaced ⟨scheme, x ++ port, [], [], []⟩ x port := by
  have hcolon : ':' ∉ x := h.eq_text ▸ Ip.colon_notMem_text v
  have hopen : Text.partition '[' (x ++ port) = none := by
    rw [Text.partition_eq_none_iff, List.mem_append, not_or]
    exact ⟨notMem_literal h rfl, hp.notMem rfl⟩
  constructor
  · rw [SplitResult.host, Url.hostinfo_of_notMem hat, hopen]
    exact hp.before hcolon
  · rw [SplitResult.portText, Url.hostinfo_of_notMem hat, hopen]
    exact hp.after hcolon

theorem hostPlaced_v6 {v : BitVec 128} {zone : Option (List Char)} (h : IsLiteral x (.v6 v zone))
    (hp : IsPort port) (hat : '@' ∉ '[' :: (x ++ ']' :: port)) :
    HostPlaced ⟨scheme, '[' :: (x ++ ']' :: port), [], [], []⟩ x port := by
  have hopen : Text.partition '[' ('[' :: (x ++ ']' :: port)) = some ([], x ++ ']' :: port) := rfl
  have hclose : Text.partition ']' (x ++ ']' :: port) = some (x, port) :=
    Text.partition_append _ (notMem_literal h rfl)
  constructor
  · rw [SplitResult.host, Url.hostinfo_of_notMem hat, hopen]
    simp only [Text.before, hclose]
    rfl
  · rw [SplitResult.portText, Url.hostinfo_of_notMem hat, hopen]
    simp only [hclose, Option.map_some, Option.getD_some]
    exact hp.after List.not_mem_nil

/-- **A literal in its place is found again.** -/
theorem urlsplit_inPlace (hs : Url.IsWeb scheme) (h : IsLiteral x ip) (hp : IsPort port) :
    urlsplit u (Url.webUrl scheme (inPlace ip x ++ port)) =
      .ok ⟨scheme, inPlace ip x ++ port, [], [], []⟩ ∧
    HostPlaced ⟨scheme, inPlace ip x ++ port, [], [], []⟩ x port := by
  have hchar : ∀ c ∈ inPlace ip x ++ port, isHostChar c = true ∨ c = '[' ∨ c = ']' := by
    intro c hc
    rcases List.mem_append.mp hc with hc | hc
    · exact (mem_inPlace hc).imp h.isHostChar id
    · exact Or.inl (hp.chars c hc)
  have hat : '@' ∉ inPlace ip x ++ port := fun hmem =>
    (inside_of_isHostChar (hchar _ hmem)).2.2.1 rfl
  have hnet : Url.checkNetloc u (inPlace ip x ++ port) = .ok () := by
    rw [Url.checkNetloc, if_pos (Or.inl ?_)]
    exact List.all_eq_true.mpr fun c hc => decide_eq_true (inside_of_isHostChar (hchar c hc)).2.1
  have hparts : Url.checkBrackets (inPlace ip x ++ port) = .ok () ∧
      HostPlaced ⟨scheme, inPlace ip x ++ port, [], [], []⟩ x port := by
    cases ip with
    | v4 v =>
      refine ⟨checkBrackets_plain ?_ ?_, hostPlaced_v4 h hp hat⟩
      · exact List.not_mem_append (notMem_literal h rfl) (hp.notMem rfl)
      · exact List.not_mem_append (notMem_literal h rfl) (hp.notMem rfl)
    | v6 v zone =>
      have heq : inPlace (.v6 v zone) x ++ port = '[' :: (x ++ ']' :: port) := by
        simp [inPlace]
      rw [heq] at hat ⊢
      refine ⟨?_, hostPlaced_v6 h hp hat⟩
      rw [checkBrackets_bracketed hat (notMem_literal h rfl) hp, checkBracketedHost_literal h]
  refine ⟨?_, hparts.2⟩
  rw [urlsplit_webUrl u hs fun c hc => (inside_of_isHostChar (hchar c hc)).1, hparts.1, hnet]
  rfl

theorem denotes_inPlace (hu : u.LowersAscii) (hs : Url.IsWeb scheme) (h : IsLiteral x ip)
    {ip' : IpAddress} (hip : unwrapIpv4Mapped ip = unwrapIpv4Mapped ip') (n : ℕ) :
    Denotes u scheme (inPlace ip x ++ ':' :: (toString n).toList) ip' n := by
  obtain ⟨hsplit, hplaced⟩ := @urlsplit_inPlace u scheme x _ ip hs h (isPort_toString n)
  refine ⟨_, Url.lowerHost u x, hsplit, rfl, ?_, ?_, hplaced.portText⟩
  · rw [Url.hostname_eq, hplaced.host, if_neg (literal_ne_nil h)]
  · rw [(h.lowerHost hu).reads, Option.map_some, hip]

/-! ### The host of a literal -/

theorem rdropWhile_isSpace (h : ∀ c ∈ x, Text.isSpace c = false) :
    x.rdropWhile Text.isSpace = x := by
  rw [List.rdropWhile_eq_self_iff]
  intro hne
  rw [h _ (List.getLast_mem hne)]
  exact Bool.false_ne_true

/-- The host of a URL that needs neither a scheme nor stripping. -/
theorem extractHost_eq (hs : Url.IsWeb scheme) (hlast : ∀ c ∈ x, Text.isSpace c = false) :
    extractHost u (Url.webUrl scheme x) =
      match urlsplit u (Url.webUrl scheme x) with
      | .error e => .error (.invalidTarget (Url.webUrl scheme x) e)
      | .ok parsed =>
        match parsed.hostname u with
        | some (c :: cs) => .ok (c :: cs)
        | _ => fallbackHost u (Url.webUrl scheme x) (Url.webUrl scheme x) := by
  have hstrip : Text.strip (Url.webUrl scheme x) = Url.webUrl scheme x := by
    rw [strip_webUrl hs, rdropWhile_isSpace hlast]
  have hparse := withScheme_webUrl hs x
  rw [withScheme] at hparse
  unfold extractHost
  dsimp only
  rewrite [hstrip, if_neg (webUrl_ne_nil scheme x), hparse]
  rfl

/-- The host of a URL whose network location splits. -/
theorem extractHost_webUrl (hs : Url.IsWeb scheme) (hlast : ∀ c ∈ x, Text.isSpace c = false)
    {r : SplitResult} (hr : urlsplit u (Url.webUrl scheme x) = .ok r) {c : Char} {cs : List Char}
    (hname : r.hostname u = some (c :: cs)) :
    extractHost u (Url.webUrl scheme x) = .ok (c :: cs) := by
  rw [extractHost_eq hs hlast, hr]
  dsimp only
  rw [hname]

theorem lowerHost_ne_nil (hu : u.LowersAscii) (h : IsLiteral x ip) : Url.lowerHost u x ≠ [] :=
  literal_ne_nil (h.lowerHost hu)

/-- The host of a literal in its place. -/
theorem extractHost_inPlace (hu : u.LowersAscii) (hs : Url.IsWeb scheme) (h : IsLiteral x ip) :
    extractHost u (Url.webUrl scheme (inPlace ip x)) = .ok (Url.lowerHost u x) := by
  obtain ⟨hsplit, hplaced⟩ := @urlsplit_inPlace u scheme x [] ip hs h isPort_nil
  rw [List.append_nil] at hsplit hplaced
  obtain ⟨c, cs, hhost⟩ := List.exists_cons_of_ne_nil (lowerHost_ne_nil hu h)
  rw [hhost]
  refine extractHost_webUrl hs (fun d hd => ?_) hsplit ?_
  · exact (inside_of_isHostChar ((mem_inPlace hd).imp h.isHostChar id)).2.2.2
  · rw [Url.hostname_eq, hplaced.host, if_neg (literal_ne_nil h), hhost]

/-- A bare literal splits at its first colon. -/
theorem urlsplit_bare (hs : Url.IsWeb scheme) (h : IsLiteral x ip) :
    urlsplit u (Url.webUrl scheme x) = .ok ⟨scheme, x, [], [], []⟩ ∧
      (⟨scheme, x, [], [], []⟩ : SplitResult).host = Text.before ':' x := by
  have hchar : ∀ {c}, c ∈ x → (Url.endsNetloc c = false ∧ Url.isUnsafe c = false) ∧
      c.toNat < 128 ∧ c ≠ '@' ∧ Text.isSpace c = false :=
    fun hc => inside_of_isHostChar (Or.inl (h.isHostChar hc))
  have hbrackets : Url.checkBrackets x = .ok () :=
    checkBrackets_plain (notMem_literal h rfl) (notMem_literal h rfl)
  have hnet : Url.checkNetloc u x = .ok () := by
    rw [Url.checkNetloc, if_pos (Or.inl ?_)]
    exact List.all_eq_true.mpr fun c hc => decide_eq_true (hchar hc).2.1
  constructor
  · rw [urlsplit_webUrl u hs fun c hc => (hchar hc).1, hbrackets, hnet]
    rfl
  · rw [SplitResult.host, Url.hostinfo_of_notMem fun hmem => (hchar hmem).2.2.1 rfl,
      (Text.partition_eq_none_iff _ _).mpr (notMem_literal h rfl)]

/-- What is read as the host of a bare IPv6 literal, when something stands before its first
colon, is a text of hexadecimal digits. -/
theorem extractHost_bare (hu : u.LowersAscii) (hs : Url.IsWeb scheme) {v : BitVec 128}
    {zone : Option (List Char)} (h : IsLiteral x (.v6 v zone)) (hfirst : x.head? ≠ some ':') :
    extractHost u (Url.webUrl scheme x) = .ok (Text.asciiLower (Text.before ':' x)) := by
  obtain ⟨hsplit, hhost⟩ := @urlsplit_bare u scheme x _ hs h
  obtain ⟨hhex, -⟩ := h.ipAddress_before
  have hpercent : '%' ∉ Text.before ':' x := fun hmem => by cases hhex _ hmem
  have hlower : Url.lowerHost u (Text.before ':' x) = Text.asciiLower (Text.before ':' x) := by
    rw [Url.lowerHost, (Text.partition_eq_none_iff _ _).mpr hpercent]
    exact hu _ fun c hc => Ip.toNat_lt_of_isHostChar
      (h.isHostChar (Text.before_subset _ _ hc))
  have hne : Text.before ':' x ≠ [] := by
    intro hnil
    cases x with
    | nil => exact literal_ne_nil h rfl
    | cons c t =>
      have hc : c ≠ ':' := fun hc => hfirst (by rw [hc]; rfl)
      rw [Text.before, Text.partition, if_neg hc] at hnil
      cases hp : Text.partition ':' t with
      | none => rw [hp] at hnil; cases hnil
      | some p => rw [hp] at hnil; cases hnil
  have hne' : Text.asciiLower (Text.before ':' x) ≠ [] := by
    rwa [Text.asciiLower, Ne, List.map_eq_nil_iff]
  obtain ⟨c, cs, hcons⟩ := List.exists_cons_of_ne_nil hne'
  rw [hcons]
  refine extractHost_webUrl hs (isSpace_literal h) hsplit ?_
  rw [Url.hostname_eq, hhost, if_neg hne, hlower, hcons]

theorem strip_literal (h : IsLiteral x ip) : Text.strip x = x := by
  have hfirst : x.dropWhile Text.isSpace = x := by
    cases x with
    | nil => rfl
    | cons c t =>
      rw [List.dropWhile_cons, if_neg (by simp [isSpace_literal h c List.mem_cons_self])]
  rw [Text.strip, Text.stripBy, hfirst]
  exact rdropWhile_isSpace (isSpace_literal h)

theorem splitAtScheme_webUrl (hs : Url.IsWeb scheme) (host : List Char) :
    splitAtScheme (Url.webUrl scheme host) = some (scheme, host) := by
  rcases hs with rfl | rfl <;> rfl

/-- A bare literal that starts with a colon is found by the fallback. -/
theorem extractHost_colon (hs : Url.IsWeb scheme) (h : IsLiteral x ip)
    (hfirst : x.head? = some ':') : extractHost u (Url.webUrl scheme x) = .ok x := by
  obtain ⟨hsplit, hhost⟩ := @urlsplit_bare u scheme x _ hs h
  have hbefore : Text.before ':' x = [] := by
    cases x with
    | nil => cases hfirst
    | cons c t =>
      obtain rfl := Option.some.inj hfirst
      rfl
  have hname : (⟨scheme, x, [], [], []⟩ : SplitResult).hostname u = none := by
    rw [Url.hostname_eq, hhost, if_pos hbefore]
  have hno : ∀ {c}, isHostChar c = false → c ∉ x := fun hc => notMem_literal h hc
  have hcandidate : fallbackCandidate (Url.webUrl scheme x) = x := by
    rw [fallbackCandidate, splitAtScheme_webUrl hs]
    change Text.strip (Text.before '#' (Text.before '?' (Text.before '/' x))) = x
    rw [Text.before_of_notMem (hno (c := '/') rfl), Text.before_of_notMem (hno (c := '?') rfl),
      Text.before_of_notMem (hno (c := '#') rfl), strip_literal h]
  have hbracket : bracketedIp x = none := by
    cases x with
    | nil => cases hfirst
    | cons c t =>
      obtain rfl := Option.some.inj hfirst
      rfl
  rw [extractHost_eq hs (isSpace_literal h), hsplit]
  dsimp only
  rw [hname]
  dsimp only
  rw [fallbackHost, hcandidate, hbracket]
  simp only [h.reads, Option.isSome_some, if_true]

end Place

/-! ### The step of the gateway -/

section Step

variable {u : Unicode} {settings : GuardSettings} {s : Routing} {q : Request} {inst : Instance}
  {worker : Worker} {answer : DnsAnswer} {scheme x host pin : List Char} {ip : IpAddress} {port : ℕ}

/-- A target that is pinned has a host. -/
theorem extractHost_of_pin {dns : List Char → DnsAnswer} {target : List Char}
    (h : resolveAndValidate u dns settings target = .ok pin) :
    ∃ host, extractHost u target = .ok host := by
  cases hhost : extractHost u target with
  | ok host => exact ⟨host, rfl⟩
  | error e =>
    rw [resolveAndValidate, hhost] at h
    cases h

/-- The guard looks at nothing but the host of a target. -/
theorem resolveAndValidate_congr {dns : List Char → DnsAnswer} {t t' : List Char}
    (h : extractHost u t = extractHost u t') :
    resolveAndValidate u dns settings t = resolveAndValidate u dns settings t' := by
  rw [resolveAndValidate, resolveAndValidate, h]

theorem rawHost_withAddress (w : Worker) (scheme x : List Char) :
    rawHost (w.withAddress (Url.webUrl scheme x)) = Url.webUrl scheme x := by
  have hne : String.ofList (Url.webUrl scheme x) ≠ "" := fun h =>
    webUrl_ne_nil scheme x (String.ofList_injective h)
  rw [rawHost, Worker.withAddress]
  simp only [hne, if_false, String.toList_ofList]

theorem schemeOf_webUrl (hu : u.LowersAscii) (hs : Url.IsWeb scheme) (x : List Char) :
    schemeOf u (Url.webUrl scheme x) = scheme := by
  rw [schemeOf, splitAtScheme_webUrl hs]
  rcases hs with rfl | rfl
  · exact hu _ (Text.forall_mem_of_all rfl)
  · exact hu _ (Text.forall_mem_of_all rfl)

/-- **The target of a validated address is that of the host to connect to.** -/
theorem routes_iff (hu : u.LowersAscii) (hs : Url.IsWeb scheme) (hport : inst.port = some port)
    (hpin : resolveAndValidate u (fun _ => answer) settings (Url.webUrl scheme x) = .ok pin) :
    Routes u settings s q inst (worker.withAddress (Url.webUrl scheme x)) answer scheme ip port ↔
      ∃ h, connectHost u settings (Url.webUrl scheme x) pin = .ok h ∧
        Denotes u scheme (h ++ ':' :: (toString port).toList) ip port := by
  have hstep : resume u settings s
      { q with phase := .validate inst (worker.withAddress (Url.webUrl scheme x)) }
      (.resolved answer) = validateTarget u settings s
        { q with phase := .validate inst (worker.withAddress (Url.webUrl scheme x)) } inst
        (worker.withAddress (Url.webUrl scheme x)) answer := rfl
  unfold Routes
  rw [hstep, validateTarget]
  simp only [rawHost_withAddress, hpin]
  cases hconn : connectHost u settings (Url.webUrl scheme x) pin with
  | error e =>
    simp only [reduceCtorEq, false_and, exists_false, iff_false, not_exists, not_and]
    intro authority _ heq
    -- the request is over, or waits for the lock
    have hphase := congrArg (fun r => r.2.phase) heq
    simp only [releaseAndEnd] at hphase
    split at hphase
    · cases hphase
    · unfold endRequest at hphase
      split at hphase <;> cases hphase
  | ok h =>
    have htarget : targetUrl u (Url.webUrl scheme x) h inst.port q.path q.query =
        Url.webUrl scheme (h ++ ':' :: (toString port).toList) ++ q.path ++
          if q.query = [] then [] else '?' :: q.query := by
      rw [targetUrl, schemeOf_webUrl hu hs, hport, Url.webUrl]
      simp only [Option.map_some, Option.getD_some, List.append_assoc]
    simp only [Except.ok.injEq, exists_eq_left', htarget]
    constructor
    · rintro ⟨authority, hden, heq⟩
      have hphase := congrArg (fun r => r.2.phase) heq
      have hurl := (Phase.quota.inj hphase).2.2
      have hauth := host_of_webUrl_eq hs hs
        (List.append_cancel_right (List.append_cancel_right hurl))
      rwa [hauth]
    · exact fun hden => ⟨_, hden, rfl⟩

theorem connectHost_http (hu : u.LowersAscii) (x pin : List Char) :
    connectHost u settings (Url.webUrl "http".toList x) pin = .ok pin := by
  rw [connectHost, schemeOf_webUrl hu (Or.inl rfl), if_neg (by decide)]

/-- A host that is trusted as a name. -/
def TrustedName (u : Unicode) (settings : GuardSettings) (host : List Char) : Prop :=
  settings.environment = "development" ∨ hostnameInAllowlist u host settings = true

theorem connectHost_https (hu : u.LowersAscii)
    (hhost : extractHost u (Url.webUrl "https".toList x) = .ok host) (hne : pin ≠ host)
    (h : List Char) :
    connectHost u settings (Url.webUrl "https".toList x) pin = .ok h ↔
      TrustedName u settings host ∧ bracketV6 host = h := by
  rw [connectHost, schemeOf_webUrl hu (Or.inr rfl), if_pos rfl, hhost]
  dsimp only
  rw [if_neg hne, TrustedName]
  split
  · rename_i htrust
    simp [htrust]
  · rename_i htrust
    simp [htrust]

/-! #### The cases of a literal -/

/-- The guard passes the pin of a literal that it accepts. -/
theorem pin_of_literal {target : List Char} (hhost : extractHost u target = .ok host)
    (hread : ipAddress host = some ip)
    (hpin : resolveAndValidate u (fun _ => answer) settings target = .ok pin) :
    pin = ipToPin (unwrapIpv4Mapped ip) := by
  rw [resolveAndValidate, hhost] at hpin
  simp only [bind, Except.bind, hread] at hpin
  unfold validateLiteral at hpin
  dsimp only at hpin
  split at hpin
  · split at hpin
    · exact (Except.ok.inj hpin).symm
    · cases hpin
  · split at hpin
    · exact (Except.ok.inj hpin).symm
    · split at hpin
      · cases hpin
      · exact (Except.ok.inj hpin).symm

/-- The address behind the brackets, or the one that was mapped, has a text in its place. -/
theorem literal_unwrap (h : IsLiteral x ip) :
    IsLiteral (unwrapIpv4Mapped ip).text (unwrapIpv4Mapped ip) := by
  cases hm : ip.ipv4Mapped with
  | none =>
    have hself : unwrapIpv4Mapped ip = ip := by rw [unwrapIpv4Mapped, hm, Option.getD_none]
    rw [hself]
    exact h.text
  | some ip' =>
    have hv4 : ∃ v, ip' = .v4 v := by
      cases ip with
      | v4 v => cases hm
      | v6 v zone =>
        simp only [IpAddress.ipv4Mapped] at hm
        split at hm
        · exact ⟨_, (Option.some.inj hm).symm⟩
        · cases hm
    obtain ⟨v, rfl⟩ := hv4
    rw [unwrapIpv4Mapped, hm, Option.getD_some]
    exact Ip.isLiteral_text_v4 v

/-- A pin denotes the address it was made from. -/
theorem denotes_pin (hu : u.LowersAscii) (hs : Url.IsWeb scheme) (h : IsLiteral x ip) (n : ℕ) :
    Denotes u scheme (ipToPin (unwrapIpv4Mapped ip) ++ ':' :: (toString n).toList) ip n := by
  rw [ipToPin_eq]
  exact denotes_inPlace hu hs (literal_unwrap h) (unwrap_unwrap ip) n

/-- The host of a literal is as trusted as the literal. -/
theorem trustedName_lowerHost (hu : u.LowersAscii) (h : IsLiteral x ip) :
    TrustedName u settings (Url.lowerHost u x) ↔ TrustedName u settings x := by
  have hascii : ∀ {y}, IsLiteral y ip → u.lower y = Text.asciiLower y := fun hy =>
    hu _ fun c hc => Ip.toNat_lt_of_isHostChar (hy.isHostChar hc)
  have htwice : ∀ t, Text.asciiLower (Text.asciiLower t) = Text.asciiLower t :=
    Unicode.ascii_lawful.lower_lower
  have hlower : u.lower (Url.lowerHost u x) = u.lower x := by
    rw [hascii (h.lowerHost hu), hascii h, Url.lowerHost]
    cases hp : Text.partition '%' x with
    | none =>
      dsimp only
      rw [hascii h, htwice]
    | some p =>
      obtain ⟨rfl, -⟩ := Text.partition_eq_some hp
      have hname : u.lower p.1 = Text.asciiLower p.1 := hu _ fun c hc =>
        Ip.toNat_lt_of_isHostChar (h.isHostChar (List.mem_append_left _ hc))
      have happend : ∀ a b, Text.asciiLower (a ++ b) = Text.asciiLower a ++ Text.asciiLower b :=
        fun _ _ => List.map_append
      dsimp only
      rw [hname, happend, happend, htwice]
  unfold TrustedName hostnameInAllowlist
  have hentry : entryNames u (Url.lowerHost u x) = entryNames u x := by
    funext entry
    unfold entryNames hostNorm
    rw [hlower]
  rw [hentry]

/-- No IPv4 literal stands in brackets. -/
theorem extractHost_bracketed_v4 (hs : Url.IsWeb scheme) {v : BitVec 32}
    (h : IsLiteral x (.v4 v)) :
    extractHost u (Url.webUrl scheme ('[' :: x ++ [']'])) ≠ .ok host := by
  have hchar : ∀ c ∈ '[' :: x ++ [']'], isHostChar c = true ∨ c = '[' ∨ c = ']' := by
    intro c hc
    simp only [List.cons_append, List.mem_cons, List.mem_append, List.not_mem_nil, or_false] at hc
    rcases hc with rfl | hc | rfl
    · exact Or.inr (Or.inl rfl)
    · exact Or.inl (h.isHostChar hc)
    · exact Or.inr (Or.inr rfl)
  have hat : '@' ∉ '[' :: x ++ [']'] := fun hmem =>
    (inside_of_isHostChar (hchar _ hmem)).2.2.1 rfl
  have hfirst : x.head? ≠ some 'v' := by
    intro hhead
    have hv4 : Ip.ipv4 x = some v := by
      rw [h.eq_text]
      exact Ip.ipv4_text v
    rcases Ip.mem_of_ipv4 hv4 (List.mem_of_mem_head? hhead) with hd | hd <;> cases hd
  have hbad : Url.checkBracketedHost x = .error .ipv4InBrackets := by
    rw [Url.checkBracketedHost, if_neg hfirst, h.reads]
  have hbrackets : Url.checkBrackets ('[' :: x ++ [']']) = .error .ipv4InBrackets :=
    (checkBrackets_bracketed hat (notMem_literal h rfl) isPort_nil).trans hbad
  have hsplit : urlsplit u (Url.webUrl scheme ('[' :: x ++ [']'])) =
      .error .ipv4InBrackets := by
    rw [urlsplit_webUrl u hs fun c hc => (inside_of_isHostChar (hchar c hc)).1, hbrackets]
    rfl
  rw [extractHost_eq hs fun c hc => (inside_of_isHostChar (hchar c hc)).2.2.2, hsplit]
  exact fun heq => by cases heq

/-- An IPv4 literal is routed by both schemes. -/
theorem routes_v4 (hu : u.LowersAscii) (hs : Url.IsWeb scheme) (hport : inst.port = some port)
    {v : BitVec 32} (h : IsLiteral x (.v4 v))
    (hpin : resolveAndValidate u (fun _ => answer) settings (Url.webUrl scheme x) = .ok pin) :
    Routes u settings s q inst (worker.withAddress (Url.webUrl scheme x)) answer scheme (.v4 v)
      port := by
  have hhost : extractHost u (Url.webUrl scheme x) = .ok x := by
    have hlower : Url.lowerHost u x = x := (h.lowerHost hu).eq_text.trans h.eq_text.symm
    have hplace := extractHost_inPlace hu hs h
    rwa [hlower] at hplace
  obtain rfl := pin_of_literal hhost h.reads hpin
  refine (routes_iff hu hs hport hpin).mpr ⟨_, ?_, denotes_pin hu hs h port⟩
  have hsame : ipToPin (unwrapIpv4Mapped (.v4 v)) = x := h.eq_text.symm
  rw [connectHost, hhost]
  dsimp only
  rw [if_pos hsame, ite_self]

/-- **An IPv6 literal is routed over http, and over https when it is trusted as a name.** -/
theorem routes_v6_iff (hu : u.LowersAscii) (hs : Url.IsWeb scheme) (hport : inst.port = some port)
    {v : BitVec 128} {zone : Option (List Char)} (h : IsLiteral host (.v6 v zone))
    (hhost : extractHost u (Url.webUrl scheme x) = .ok host)
    (hpin : resolveAndValidate u (fun _ => answer) settings (Url.webUrl scheme x) = .ok pin) :
    Routes u settings s q inst (worker.withAddress (Url.webUrl scheme x)) answer scheme
      (.v6 v zone) port ↔ scheme = "http".toList ∨ TrustedName u settings host := by
  obtain rfl := pin_of_literal hhost h.reads hpin
  rw [routes_iff hu hs hport hpin]
  rcases hs with rfl | rfl
  · simp only [connectHost_http hu, true_or, iff_true]
    exact ⟨_, rfl, denotes_pin hu (Or.inl rfl) h port⟩
  · -- the pin is in brackets, or has no colon
    have hne : ipToPin (unwrapIpv4Mapped (.v6 v zone)) ≠ host := by
      intro heq
      have hcolon : ':' ∈ host := h.colon_mem
      cases hip : unwrapIpv4Mapped (.v6 v zone) with
      | v4 w =>
        rw [hip] at heq
        rw [← heq] at hcolon
        exact Ip.colon_notMem_text w hcolon
      | v6 w z =>
        rw [hip] at heq
        have hopen : '[' ∈ host := heq ▸ List.mem_cons_self
        cases h.isHostChar hopen
    have hbracket : bracketV6 host = inPlace (.v6 v zone) host := by
      rw [bracketV6, h.reads, if_pos ⟨rfl, h.colon_mem⟩]
      rfl
    have hno : ¬ "https".toList = "http".toList := by decide
    simp only [connectHost_https hu hhost hne, hno, false_or]
    constructor
    · rintro ⟨_, ⟨htrust, -⟩, -⟩
      exact htrust
    · intro htrust
      refine ⟨_, ⟨htrust, rfl⟩, ?_⟩
      rw [hbracket]
      exact denotes_inPlace hu (Or.inr rfl) h rfl port

/-- A literal that is read as an IPv6 address is routed by both schemes exactly if it is trusted as
a name. -/
theorem routes_both_v6_iff (hu : u.LowersAscii) (hport : inst.port = some port) {v : BitVec 128}
    {zone : Option (List Char)} (h : IsLiteral host (.v6 v zone))
    (hhost : ∀ {scheme}, Url.IsWeb scheme → extractHost u (Url.webUrl scheme x) = .ok host)
    (hpin : ∀ scheme, Url.IsWeb scheme →
      resolveAndValidate u (fun _ => answer) settings (Url.webUrl scheme x) = .ok pin) :
    (∀ scheme, Url.IsWeb scheme → Routes u settings s q inst
      (worker.withAddress (Url.webUrl scheme x)) answer scheme (.v6 v zone) port) ↔
      TrustedName u settings host := by
  constructor
  · intro hall
    have hhttps : Url.IsWeb "https".toList := Or.inr rfl
    have hroute := hall _ hhttps
    rw [routes_v6_iff hu hhttps hport h (hhost hhttps) (hpin _ hhttps)] at hroute
    exact hroute.resolve_left (by decide)
  · exact fun htrust scheme hs =>
      (routes_v6_iff hu hs hport h (hhost hs) (hpin scheme hs)).mpr (Or.inr htrust)

/-- A host that is no address is connected to as it is. -/
theorem connectHost_unread (hu : u.LowersAscii)
    (hhost : extractHost u (Url.webUrl "https".toList x) = .ok host)
    (hread : ipAddress host = none) {h : List Char}
    (hconn : connectHost u settings (Url.webUrl "https".toList x) pin = .ok h) : h = host := by
  by_cases hpin : pin = host
  · rw [connectHost, schemeOf_webUrl hu (Or.inr rfl), if_pos rfl, hhost] at hconn
    dsimp only at hconn
    rw [if_pos hpin] at hconn
    exact (Except.ok.inj hconn).symm.trans hpin
  · rw [← ((connectHost_https hu hhost hpin h).mp hconn).2, bracketV6, hread]
    rfl

/-- **A bare IPv6 literal that is read up to its first colon is not routed over https.** -/
theorem not_routes_bare (hu : u.LowersAscii) (hport : inst.port = some port) {v : BitVec 128}
    {zone : Option (List Char)} (h : IsLiteral x (.v6 v zone)) (hfirst : x.head? ≠ some ':')
    (hpin : resolveAndValidate u (fun _ => answer) settings
      (Url.webUrl "https".toList x) = .ok pin) :
    ¬ Routes u settings s q inst (worker.withAddress (Url.webUrl "https".toList x)) answer
      "https".toList (.v6 v zone) port := by
  have hs : Url.IsWeb "https".toList := Or.inr rfl
  have hhost := extractHost_bare hu hs h hfirst
  obtain ⟨hhex, hnone⟩ := h.ipAddress_before
  rw [routes_iff hu hs hport hpin]
  rintro ⟨h', hconn, r, name, -, hnetloc, hname, hread, -⟩
  generalize hp : Text.before ':' x = p at hhost hhex hnone
  have hpercent : '%' ∉ p := fun hmem => by cases hhex _ hmem
  have hhexl : ∀ c ∈ Text.asciiLower p, Ip.isHex c = true := by
    intro c hmem
    obtain ⟨d, hd, rfl⟩ := List.mem_map.mp hmem
    rw [Ip.isHex_toLower, hhex d hd]
  have hno : ∀ {c}, Ip.isHex c = false → c ∉ Text.asciiLower p := by
    intro c hc hmem
    rw [hhexl c hmem] at hc
    cases hc
  have hread' : ipAddress (Text.asciiLower p) = none := by
    rw [ipAddress_asciiLower hpercent, hnone]
  -- whether the pin is the name itself or not, the name is what the target has
  obtain rfl := connectHost_unread hu hhost hread' hconn
  have hport' := isPort_toString port
  have hhost' : r.host = Text.asciiLower p := by
    have hat : '@' ∉ r.netloc := by
      rw [hnetloc]
      exact List.not_mem_append (hno rfl) (hport'.notMem rfl)
    have hopen : '[' ∉ r.netloc := by
      rw [hnetloc]
      exact List.not_mem_append (hno rfl) (hport'.notMem rfl)
    rw [SplitResult.host, Url.hostinfo_of_notMem hat, (Text.partition_eq_none_iff _ _).mpr hopen,
      hnetloc]
    exact hport'.before (hno rfl)
  rw [Url.hostname_eq, hhost'] at hname
  split at hname
  · cases hname
  have hlower : Url.lowerHost u (Text.asciiLower p) = Text.asciiLower (Text.asciiLower p) := by
    rw [Url.lowerHost, (Text.partition_eq_none_iff _ _).mpr (hno rfl)]
    exact hu _ fun c hc => Ip.toNat_lt_of_isUnreserved (Ip.isUnreserved_of_isHex (hhexl c hc))
  rw [← Option.some.inj hname, hlower, ipAddress_asciiLower (hno rfl), hread'] at hread
  cases hread

/-- **Both schemes route a literal exactly when it is an IPv4 address, or an IPv6 one that is read
as such and whose text is trusted as a name.** -/
theorem literals_agree_iff (hu : u.LowersAscii) {a : List Char} (ha : IsLiteral a ip)
    (bracketed : Bool) (hport : inst.port = some port)
    (hok : ∃ pin, resolveAndValidate u (fun _ => answer) settings
      (Url.webUrl "http".toList (spelled bracketed a)) = .ok pin) :
    (∀ scheme, Url.IsWeb scheme →
      Routes u settings s q inst
        (worker.withAddress (Url.webUrl scheme (spelled bracketed a))) answer scheme ip port) ↔
      ':' ∉ a ∨ ((bracketed = true ∨ a.head? = some ':') ∧ TrustedName u settings a) := by
  obtain ⟨pin, hpin⟩ := hok
  have hhttp : Url.IsWeb "http".toList := Or.inl rfl
  have hhttps : Url.IsWeb "https".toList := Or.inr rfl
  -- the host does not depend on the scheme, and neither does the pin
  have hsame : ∀ {host}, (∀ {scheme}, Url.IsWeb scheme →
      extractHost u (Url.webUrl scheme (spelled bracketed a)) = .ok host) → ∀ scheme,
        Url.IsWeb scheme → resolveAndValidate u (fun _ => answer) settings
          (Url.webUrl scheme (spelled bracketed a)) = .ok pin := by
    intro host hhost scheme hs
    rw [← hpin]
    exact resolveAndValidate_congr ((hhost hs).trans (hhost hhttp).symm)
  cases ip with
  | v4 v =>
    have hcolon : ':' ∉ a := ha.eq_text ▸ Ip.colon_notMem_text v
    simp only [hcolon, not_false_eq_true, true_or, iff_true]
    cases bracketed with
    | true =>
      -- the guard has not accepted it
      obtain ⟨host, hhost⟩ := extractHost_of_pin hpin
      exact absurd hhost (extractHost_bracketed_v4 hhttp ha)
    | false =>
      have hhost : ∀ {scheme}, Url.IsWeb scheme →
          extractHost u (Url.webUrl scheme (spelled false a)) = .ok (Url.lowerHost u a) :=
        fun hs => extractHost_inPlace hu hs ha
      exact fun scheme hs => routes_v4 hu hs hport ha (hsame hhost scheme hs)
  | v6 v zone =>
    have hcolon : ':' ∈ a := ha.colon_mem
    simp only [hcolon, not_true_eq_false, false_or]
    cases bracketed with
    | true =>
      have hhost : ∀ {scheme}, Url.IsWeb scheme →
          extractHost u (Url.webUrl scheme (spelled true a)) = .ok (Url.lowerHost u a) :=
        fun hs => extractHost_inPlace hu hs ha
      rw [routes_both_v6_iff hu hport (ha.lowerHost hu) hhost (hsame hhost),
        trustedName_lowerHost hu ha]
      simp only [true_or, true_and]
    | false =>
      by_cases hfirst : a.head? = some ':'
      · have hhost : ∀ {scheme}, Url.IsWeb scheme →
            extractHost u (Url.webUrl scheme (spelled false a)) = .ok a :=
          fun hs => extractHost_colon hs ha hfirst
        rw [routes_both_v6_iff hu hport ha hhost (hsame hhost)]
        simp only [hfirst, or_true, true_and]
      · simp only [hfirst, Bool.false_eq_true, or_self, false_and, iff_false]
        intro hall
        exact not_routes_bare hu hport ha hfirst
          (hsame (fun hs => extractHost_bare hu hs ha hfirst) _ hhttps) (hall _ hhttps)

end Step

/-- An instance behind port 8010. -/
def portInstance : Instance where
  id := 7
  modelId := 1
  clusterId := 1
  workerId := some 2
  deploymentId := 3
  engine := .vllm
  profile := .latency
  gpuIndexes := [0]
  port := some 8010

/-- Its worker. -/
def portWorker : Worker where
  id := 2
  clusterId := 1
  name := "w"
  hostname := "w"
  state := .connected
  tokenHash := "h"

theorem literals_agree_listed :
    Unicode.ascii.LowersAscii ∧ IsLiteral "10.1.0.7".toList (.v4 0x0A010007) ∧
      portInstance.port = some 8010 ∧
      (∃ pin, resolveAndValidate Unicode.ascii (fun _ => .failure) stagingGuard
        (Url.webUrl "http".toList (spelled false "10.1.0.7".toList)) = .ok pin) ∧
      ∀ scheme, Url.IsWeb scheme → Routes Unicode.ascii stagingGuard {}
        ⟨"m", "/v1/models".toList, [], .model, [], []⟩ portInstance
        (portWorker.withAddress (Url.webUrl scheme (spelled false "10.1.0.7".toList))) .failure
        scheme (.v4 0x0A010007) 8010 := by
  have hlit : IsLiteral "10.1.0.7".toList (.v4 0x0A010007) := by
    have htext : IpAddress.text (.v4 0x0A010007) = "10.1.0.7".toList := by decide
    exact htext ▸ Ip.isLiteral_text_v4 _
  have hok : ∃ pin, resolveAndValidate Unicode.ascii (fun _ => .failure) stagingGuard
      (Url.webUrl "http".toList (spelled false "10.1.0.7".toList)) = .ok pin :=
    ⟨"10.1.0.7".toList, by decide +kernel⟩
  exact ⟨Unicode.ascii_lowersAscii, hlit, rfl, hok,
    (literals_agree_iff Unicode.ascii_lowersAscii hlit false rfl hok).mpr (Or.inl (by decide))⟩

/-- **In production an IPv6 literal is routed over http and refused over https.** -/
theorem https_refuses_literal :
    ¬ ∀ (u : Unicode), u.LowersAscii → ∀ (a : List Char) (ip : IpAddress), IsLiteral a ip →
      ∀ (bracketed : Bool) (settings : GuardSettings) (answer : DnsAnswer) (s : Routing)
        (q : Request) (inst : Instance) (worker : Worker) (port : ℕ), inst.port = some port →
      (∀ scheme, Url.IsWeb scheme → ∃ pin, resolveAndValidate u (fun _ => answer) settings
        (Url.webUrl scheme (spelled bracketed a)) = .ok pin) →
      ∀ scheme, Url.IsWeb scheme → Routes u settings s q inst
        (worker.withAddress (Url.webUrl scheme (spelled bracketed a))) answer scheme ip port := by
  intro hall
  have hlit : IsLiteral "2001:db8::1".toList
      (.v6 0x20010db8000000000000000000000001 none) := by
    refine ⟨by decide +kernel, fun name zone hp => ?_⟩
    rw [(Text.partition_eq_none_iff _ _).mpr (by decide)] at hp
    cases hp
  have hs : Url.IsWeb "https".toList := Or.inr rfl
  have hok : ∀ scheme, Url.IsWeb scheme → ∃ pin, resolveAndValidate Unicode.ascii
      (fun _ => .failure) { environment := "production" }
      (Url.webUrl scheme (spelled true "2001:db8::1".toList)) = .ok pin := by
    rintro scheme (rfl | rfl)
    · exact ⟨"[2001:db8::1]".toList, by decide +kernel⟩
    · exact ⟨"[2001:db8::1]".toList, by decide +kernel⟩
  have hroute := hall Unicode.ascii Unicode.ascii_lowersAscii _ _ hlit true
    { environment := "production" } .failure {} ⟨"m", "/v1/models".toList, [], .model, [], []⟩
    portInstance portWorker 8010 rfl hok "https".toList hs
  obtain ⟨pin, hpin⟩ := hok _ hs
  have htrust := (routes_v6_iff Unicode.ascii_lowersAscii hs rfl
    (hlit.lowerHost Unicode.ascii_lowersAscii)
    (extractHost_inPlace Unicode.ascii_lowersAscii hs hlit) hpin).mp hroute
  revert htrust
  rw [TrustedName]
  decide +kernel

end Inferna
