import Inferna.Lib.Text
import Mathlib.Tactic

/-!
# Parameters of a header

The value of a header such as `form-data; name="a"; filename="b"`: a text and parameters behind
it, each with a token or a quoted string.  Inside the quotes a backslash takes the next character
as it is.

A search for `key="…"` does not know where a quoted string begins.  It stops at the first quote
behind a text that ends with `key=`, which may be the end of a longer key or the end of a quoted
string.

## Main definitions

* `Param`, `Param.text` — a parameter and how it is written.
* `paramValue` — the value of the parameter of a name.
* `findQuoted` — the first `key="…"` of a text, searched from left to right.
* `Param.stops` — the search ends at this parameter.

## Main results

* `findQuoted_eq_some_iff` — **which value the search finds.**
-/

namespace HeaderText

/-! ### Quoted strings -/

/-- What stands between the quotes: a quote or a backslash only behind a backslash. -/
def isQuoted : List Char → Bool
  | [] => true
  | '\\' :: _ :: s => isQuoted s
  | c :: s => c != '\\' && c != '"' && isQuoted s

/-- The text that is quoted. -/
def unquote : List Char → List Char
  | '\\' :: c :: s => c :: unquote s
  | c :: s => c :: unquote s
  | [] => []

/-- The value of a parameter. -/
inductive ParamValue
  | token (text : List Char)
  | quoted (raw : List Char)
  deriving DecidableEq, Repr

/-- The value can be written. -/
def ParamValue.Ok : ParamValue → Prop
  | .token text => '"' ∉ text
  | .quoted raw => isQuoted raw = true

/-- A character between two parameters. -/
def isSep (c : Char) : Bool := c = ';' || c = ' ' || c = '\t'

/-- A parameter, with what separates it from the text before it. -/
structure Param where
  sep : List Char
  key : List Char
  value : ParamValue
  sep_ne_nil : sep ≠ []
  sep_chars : ∀ c ∈ sep, isSep c = true
  key_chars : '"' ∉ key
  value_ok : value.Ok

namespace Param

/-- The parameter as it is written. -/
def text (p : Param) : List Char :=
  p.sep ++ p.key ++ '=' :: match p.value with
    | .token text => text
    | .quoted raw => '"' :: raw ++ ['"']

/-- The value that is meant. -/
def content (p : Param) : List Char :=
  match p.value with
  | .token text => text
  | .quoted raw => unquote raw

/-- A search for `key="` ends here: the parameter's own key ends with it, or its quoted string
ends with `key=`. -/
def stops (key : List Char) (p : Param) : Bool :=
  match p.value with
  | .token _ => false
  | .quoted raw => key.isSuffixOf p.key || (key ++ ['=']).isSuffixOf raw

end Param

/-- The value of the parameter of a name. -/
def paramValue (name : List Char) (params : List Param) : Option (List Char) :=
  (params.find? (·.key = name)).map Param.content

/-- What stands between the quotes of `key="…"` at the start of a text. -/
def quotedAt (key s : List Char) : Option (List Char) :=
  (s.dropPrefix? (key ++ ['=', '"'])).bind fun r => (Text.partition '"' r).map Prod.fst

/-- What stands between the quotes of the first `key="…"`. -/
def findQuoted (key : List Char) : List Char → Option (List Char)
  | [] => none
  | c :: cs => (quotedAt key (c :: cs)).or (findQuoted key cs)

/-! ### The search -/

/-- A name as it can be searched for. -/
structure IsKey (key : List Char) : Prop where
  ne_nil : key ≠ []
  noQuote : '"' ∉ key
  noSep : ∀ c ∈ key, isSep c = false
  noEquals : '=' ∉ key

variable {key : List Char}

theorem IsKey.quote_notMem (h : IsKey key) : '"' ∉ key ++ ['='] := by
  simp [h.noQuote]

/-- The pattern matches at the start of a text up to its first quote. -/
theorem quotedAt_quote (h : IsKey key) {b : List Char} (hb : '"' ∉ b) (rest : List Char) :
    quotedAt key (b ++ '"' :: rest) =
      if b = key ++ ['='] then (Text.partition '"' rest).map Prod.fst else none := by
  unfold quotedAt
  cases hdrop : (b ++ '"' :: rest).dropPrefix? (key ++ ['=', '"']) with
  | none =>
    rw [Option.bind_none, if_neg]
    rintro rfl
    have hsome : (key ++ ['='] ++ '"' :: rest).dropPrefix? (key ++ ['=', '"']) = some rest :=
      List.dropPrefix?_eq_some_iff.mpr ⟨key ++ ['=', '"'], by simp, by simp⟩
    rw [hsome] at hdrop
    cases hdrop
  | some r =>
    obtain ⟨pre, hsplit, hpre⟩ := List.dropPrefix?_eq_some_iff.mp hdrop
    obtain rfl : pre = key ++ ['=', '"'] := by simpa using hpre
    rw [show key ++ ['=', '"'] ++ r = (key ++ ['=']) ++ '"' :: r by simp] at hsplit
    -- both sides split at their first quote
    have hpart := congrArg (Text.partition '"') hsplit
    rw [Text.partition_append _ hb, Text.partition_append _ h.quote_notMem] at hpart
    cases hpart
    rw [if_pos rfl, Option.bind_some]

/-- A text without a quote has nothing quoted. -/
theorem findQuoted_of_notMem : ∀ {s : List Char}, '"' ∉ s → findQuoted key s = none
  | [], _ => rfl
  | c :: cs, hs => by
    have hnone : quotedAt key (c :: cs) = none := by
      unfold quotedAt
      cases hdrop : (c :: cs).dropPrefix? (key ++ ['=', '"']) with
      | none => rfl
      | some r =>
        obtain ⟨pre, hsplit, hpre⟩ := List.dropPrefix?_eq_some_iff.mp hdrop
        obtain rfl : pre = key ++ ['=', '"'] := by simpa using hpre
        rw [hsplit] at hs
        exact absurd (by simp) hs
    rw [findQuoted, hnone, Option.none_or]
    exact findQuoted_of_notMem fun hmem => hs (List.mem_cons_of_mem _ hmem)

/-- **The search from a text up to its first quote.** -/
theorem findQuoted_quote (h : IsKey key) : ∀ {b : List Char}, '"' ∉ b → ∀ rest : List Char,
    findQuoted key (b ++ '"' :: rest) =
      if key ++ ['='] <:+ b then (Text.partition '"' rest).map Prod.fst else findQuoted key rest
  | [], hb, rest => by
    have hno : ¬ key ++ ['='] <:+ [] := by simp
    have hne : ¬ [] = key ++ ['='] := by simp
    have hat := quotedAt_quote h hb rest
    rw [List.nil_append, if_neg hne] at hat
    rw [List.nil_append, findQuoted, hat, if_neg hno, Option.none_or]
  | c :: b, hb, rest => by
    have hb' : '"' ∉ b := fun hmem => hb (List.mem_cons_of_mem _ hmem)
    have hat := quotedAt_quote h hb rest
    rw [List.cons_append] at hat
    rw [List.cons_append, findQuoted, hat, findQuoted_quote h hb' rest]
    by_cases heq : c :: b = key ++ ['=']
    · rw [if_pos heq, if_pos (List.suffix_cons_iff.mpr (Or.inl heq.symm))]
      cases hp : Text.partition '"' rest with
      | some p => rfl
      | none =>
        -- no second quote comes
        rw [Option.map_none, Option.none_or]
        split
        · rfl
        · exact findQuoted_of_notMem ((Text.partition_eq_none_iff _ _).mp hp)
    · have hiff : key ++ ['='] <:+ c :: b ↔ key ++ ['='] <:+ b :=
        List.suffix_cons_iff.trans ⟨fun hor => hor.resolve_left fun he => heq he.symm, Or.inr⟩
      rw [if_neg heq, Option.none_or]
      simp only [hiff]

/-- A suffix without a character lies behind any place where it stands. -/
theorem suffix_append_cons_iff {t : List Char} {c : Char} (ht : c ∉ t) (a s : List Char) :
    t <:+ a ++ c :: s ↔ t <:+ s := by
  constructor
  · intro h
    rcases List.suffix_or_suffix_of_suffix h (List.suffix_append a (c :: s)) with hts | hst
    · rcases List.suffix_cons_iff.mp hts with rfl | hts
      · exact absurd List.mem_cons_self ht
      · exact hts
    · exact absurd (hst.subset List.mem_cons_self) ht
  · exact fun h => h.trans ((List.suffix_cons c s).trans (List.suffix_append a _))

theorem suffix_concat_self_iff {t s : List Char} {c : Char} : t ++ [c] <:+ s ++ [c] ↔ t <:+ s := by
  constructor
  · rintro ⟨r, hr⟩
    rw [← List.append_assoc] at hr
    exact ⟨r, List.append_cancel_right hr⟩
  · rintro ⟨r, rfl⟩
    exact ⟨r, List.append_assoc r t [c] ▸ rfl⟩

/-- **The search from a text that goes on with a quoted string, up to its closing quote.** -/
theorem findQuoted_quoted (h : IsKey key) : ∀ {raw : List Char}, isQuoted raw = true →
    ∀ {b : List Char}, '"' ∉ b → ∀ rest : List Char,
      findQuoted key (b ++ (raw ++ '"' :: rest)) =
        if key ++ ['='] <:+ b ++ raw then (Text.partition '"' rest).map Prod.fst
        else findQuoted key rest := by
  intro raw
  induction raw using isQuoted.induct with
  | case1 =>
    intro _ b hb rest
    rw [List.append_nil]
    exact findQuoted_quote h hb rest
  | case2 c s ih =>
    intro hraw b hb rest
    rw [isQuoted] at hraw
    by_cases hc : c = '"'
    · subst hc
      have hb' : '"' ∉ b ++ ['\\'] := by simp [hb]
      -- a backslash stands before the quote
      have hno : ¬ key ++ ['='] <:+ b ++ ['\\'] := by
        rintro ⟨r, hr⟩
        rw [← List.append_assoc] at hr
        cases (List.append_inj' hr rfl).2
      have hsuffix : key ++ ['='] <:+ b ++ '\\' :: '"' :: s ↔ key ++ ['='] <:+ s := by
        rw [show b ++ '\\' :: '"' :: s = (b ++ ['\\']) ++ '"' :: s by simp]
        exact suffix_append_cons_iff h.quote_notMem _ s
      have hsplit : b ++ ('\\' :: '"' :: s ++ '"' :: rest) =
          (b ++ ['\\']) ++ '"' :: (s ++ '"' :: rest) := by simp
      have ih' := ih hraw List.not_mem_nil rest
      rw [List.nil_append, List.nil_append] at ih'
      rw [hsplit, findQuoted_quote h hb', if_neg hno, ih']
      simp only [hsuffix]
    · have hb' : '"' ∉ b ++ ['\\', c] := by
        simp only [List.mem_append, List.mem_cons, List.not_mem_nil, or_false, not_or]
        exact ⟨hb, by decide, fun hq => hc hq.symm⟩
      have ih' := ih hraw hb' rest
      simpa only [List.append_assoc, List.cons_append, List.nil_append] using ih'
  | case3 c s hne ih =>
    intro hraw b hb rest
    have hparts : c ≠ '"' ∧ isQuoted s = true := by
      rw [isQuoted] at hraw
      · simp only [Bool.and_eq_true, bne_iff_ne] at hraw
        exact ⟨hraw.1.2, hraw.2⟩
      · exact hne
    have hb' : '"' ∉ b ++ [c] := by
      simp only [List.mem_append, List.mem_singleton, not_or]
      exact ⟨hb, fun hq => hparts.1 hq.symm⟩
    have ih' := ih hparts.2 hb' rest
    simpa only [List.append_assoc, List.cons_append, List.nil_append] using ih'

/-- A value that could be an answer: it begins with no separator, and has nothing to be quoted. -/
structure IsPlain (value : List Char) : Prop where
  ne_nil : value ≠ []
  head : ∀ c, value.head? = some c → isSep c = false
  noQuote : '"' ∉ value
  noBackslash : '\\' ∉ value

/-- A quote in a quoted string stands behind a backslash. -/
theorem backslash_mem_before {raw : List Char} (hraw : isQuoted raw = true) (hmem : '"' ∈ raw) :
    '\\' ∈ Text.before '"' raw := by
  induction raw using isQuoted.induct with
  | case1 => exact absurd hmem List.not_mem_nil
  | case2 c s ih =>
    rw [Text.before, Text.partition, if_neg (by decide)]
    cases Text.partition '"' (c :: s) <;> exact List.mem_cons_self
  | case3 c s hne ih =>
    rw [isQuoted] at hraw
    · simp only [Bool.and_eq_true, bne_iff_ne] at hraw
      rcases List.mem_cons.mp hmem with rfl | hmem
      · exact absurd rfl hraw.1.2
      · have hin := ih hraw.2 hmem
        rw [Text.before] at hin ⊢
        rw [Text.partition, if_neg hraw.1.2]
        cases hp : Text.partition '"' s with
        | none => exact absurd hmem ((Text.partition_eq_none_iff _ _).mp hp)
        | some p =>
          rw [hp] at hin
          exact List.mem_cons_of_mem _ hin
    · exact hne

/-- A plain value stands before the first quote of no other quoted string. -/
theorem before_eq_iff {raw value : List Char} (hraw : isQuoted raw = true) (hv : IsPlain value) :
    Text.before '"' raw = value ↔ raw = value := by
  by_cases hmem : '"' ∈ raw
  · refine iff_of_false ?_ ?_
    · rintro rfl
      exact hv.noBackslash (backslash_mem_before hraw hmem)
    · rintro rfl
      exact hv.noQuote hmem
  · rw [Text.before_of_notMem hmem]

/-- Up to the first quote of a text with a quote behind it. -/
theorem partition_quote (raw rest : List Char) :
    (Text.partition '"' (raw ++ '"' :: rest)).map Prod.fst = some (Text.before '"' raw) := by
  rw [Text.before]
  cases hp : Text.partition '"' raw with
  | none =>
    rw [Text.partition_append _ ((Text.partition_eq_none_iff _ _).mp hp)]
    rfl
  | some p =>
    obtain ⟨hraw, hnot⟩ := Text.partition_eq_some hp
    rw [hraw, List.append_assoc, List.cons_append, Text.partition_append _ hnot]
    rfl

/-- What follows a parameter up to the next quote begins with a separator. -/
theorem partition_params_ne {value : List Char} (hv : IsPlain value) (params : List Param) :
    (Text.partition '"' (params.flatMap Param.text)).map Prod.fst ≠ some value := by
  intro heq
  obtain ⟨⟨v, w⟩, hp, rfl⟩ := Option.map_eq_some_iff.mp heq
  obtain ⟨htext, -⟩ := Text.partition_eq_some hp
  obtain ⟨c, v, rfl⟩ := List.exists_cons_of_ne_nil hv.ne_nil
  cases params with
  | nil => cases htext
  | cons p params =>
    obtain ⟨d, sep, hsep⟩ := List.exists_cons_of_ne_nil p.sep_ne_nil
    have hd : isSep d = true := p.sep_chars d (hsep ▸ List.mem_cons_self)
    rw [List.flatMap_cons, Param.text, hsep] at htext
    obtain rfl : d = c := List.head_eq_of_cons_eq htext
    rw [hv.head d rfl] at hd
    cases hd

/-! ### The parameters -/

theorem Param.quote_notMem_sep (p : Param) : '"' ∉ p.sep := fun hmem => by
  cases p.sep_chars _ hmem

theorem Param.isQuoted_of_quoted {p : Param} {raw : List Char} (hvalue : p.value = .quoted raw) :
    isQuoted raw = true := by
  have hok := p.value_ok
  rwa [hvalue] at hok

theorem Param.quote_notMem_token {p : Param} {t : List Char} (hvalue : p.value = .token t) :
    '"' ∉ p.text := by
  have ht : '"' ∉ t := by
    have hok := p.value_ok
    rwa [hvalue] at hok
  rw [Param.text, hvalue]
  simp [p.quote_notMem_sep, p.key_chars, ht]

theorem Param.stops_quoted {p : Param} {raw : List Char} (hvalue : p.value = .quoted raw) :
    p.stops key = true ↔ key <:+ p.key ∨ key ++ ['='] <:+ raw := by
  rw [Param.stops, hvalue]
  simp only [Bool.or_eq_true, List.isSuffixOf_iff_suffix]

/-- What stands before the quotes of a parameter ends with the key of the parameter. -/
theorem block_suffix_iff (h : IsKey key) (lead : List Char) (p : Param) :
    key ++ ['='] <:+ lead ++ p.sep ++ p.key ++ ['='] ↔ key <:+ p.key := by
  rw [suffix_concat_self_iff]
  obtain ⟨init, c, hc⟩ := (List.eq_nil_or_concat' p.sep).resolve_left p.sep_ne_nil
  have hcsep : isSep c = true := p.sep_chars c (by rw [hc]; simp)
  rw [hc, show lead ++ (init ++ [c]) ++ p.key = (lead ++ init) ++ c :: p.key by simp]
  refine suffix_append_cons_iff (fun hmem => ?_) _ _
  rw [h.noSep c hmem] at hcsep
  cases hcsep

/-- **The search over a quoted parameter** finds it, stops at its closing quote, or goes on behind
it. -/
theorem findQuoted_param (h : IsKey key) {lead : List Char} (hlead : '"' ∉ lead) {p : Param}
    {raw : List Char} (hvalue : p.value = .quoted raw) (rest : List Char) :
    findQuoted key (lead ++ (p.text ++ rest)) =
      if key <:+ p.key then some (Text.before '"' raw)
      else if key ++ ['='] <:+ raw then (Text.partition '"' rest).map Prod.fst
      else findQuoted key rest := by
  have hblock : '"' ∉ lead ++ p.sep ++ p.key ++ ['='] := by
    simp [hlead, p.quote_notMem_sep, p.key_chars]
  have htext : lead ++ (p.text ++ rest) =
      (lead ++ p.sep ++ p.key ++ ['=']) ++ '"' :: (raw ++ '"' :: rest) := by
    rw [Param.text, hvalue]
    simp
  have hbehind := findQuoted_quoted h (Param.isQuoted_of_quoted hvalue) List.not_mem_nil rest
  rw [List.nil_append, List.nil_append] at hbehind
  rw [htext, findQuoted_quote h hblock, partition_quote, hbehind]
  simp only [block_suffix_iff h]

/-- **The search finds the quoted string of the first parameter that it stops at, if this ends with
the key that is searched for.** -/
theorem findQuoted_eq_some_iff (h : IsKey key) {value : List Char} (hv : IsPlain value) :
    ∀ {lead : List Char}, '"' ∉ lead → ∀ params : List Param,
      findQuoted key (lead ++ params.flatMap Param.text) = some value ↔
        ∃ p, params.find? (Param.stops key) = some p ∧ key <:+ p.key ∧ p.value = .quoted value := by
  intro lead hlead params
  induction params generalizing lead with
  | nil =>
    rw [List.flatMap_nil, List.append_nil, findQuoted_of_notMem hlead]
    simp
  | cons p params ih =>
    rw [List.flatMap_cons, List.find?_cons]
    cases hvalue : p.value with
    | token t =>
      have hstops : p.stops key = false := by rw [Param.stops, hvalue]
      have hlead' : '"' ∉ lead ++ p.text :=
        List.not_mem_append hlead (Param.quote_notMem_token hvalue)
      rw [← List.append_assoc, ih hlead', hstops]
    | quoted raw =>
      rw [findQuoted_param h hlead hvalue]
      by_cases hends : key <:+ p.key
      · have hstops : p.stops key = true := (Param.stops_quoted hvalue).mpr (Or.inl hends)
        rw [if_pos hends, Option.some.injEq,
          before_eq_iff (Param.isQuoted_of_quoted hvalue) hv, hstops]
        constructor
        · rintro rfl
          exact ⟨p, rfl, hends, hvalue⟩
        · rintro ⟨q, hq, -, hval⟩
          obtain rfl := Option.some.inj hq
          exact ParamValue.quoted.inj (hvalue.symm.trans hval)
      · rw [if_neg hends]
        by_cases hraw : key ++ ['='] <:+ raw
        · -- the search stops at the end of the quoted string
          have hstops : p.stops key = true := (Param.stops_quoted hvalue).mpr (Or.inr hraw)
          rw [if_pos hraw, hstops]
          refine iff_of_false (partition_params_ne hv params) ?_
          rintro ⟨q, hq, hkey, -⟩
          obtain rfl := Option.some.inj hq
          exact hends hkey
        · have hstops : p.stops key = false := Bool.eq_false_iff.mpr fun hs =>
            ((Param.stops_quoted hvalue).mp hs).elim hends hraw
          rw [if_neg hraw, hstops]
          exact ih List.not_mem_nil

end HeaderText
