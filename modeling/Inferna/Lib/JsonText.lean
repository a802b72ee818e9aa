import Inferna.Lib.JsonDump

/-!
# The text that a value takes up

A scanner reads a value from the front of a text.  The characters that it takes up are read as
the same value wherever else they stand, provided that what follows them does not lengthen a
number; and a bracketed value is read back in front of anything at all, since its last character
is the bracket that closes it.  A deeper stack makes no difference to what was read.

## Main definitions

* `Json.EndsNumber` — a character that no number goes on with.
* `Json.Rereads` — what one scanner reads from a text, another reads from the characters it took.

## Main results

* `Json.scanItems_rereads` — items and members, up to the bracket that closes them.
* `Json.scanOnce_rereads` — **every value.**
* `Json.scanOnce_object` — **an object is read from its first brace to its last**, whatever
  stands behind it.
-/

namespace Json

/-- No number goes on with the character. -/
structure EndsNumber (c : Char) : Prop where
  digit : c.isDigit = false
  dot : c ≠ '.'
  lower : c ≠ 'e'
  upper : c ≠ 'E'

theorem endsNumber_of_isWs {c : Char} (h : isWs c = true) : EndsNumber c := by
  simp only [isWs, Bool.or_eq_true, decide_eq_true_eq] at h
  rcases h with ((rfl | rfl) | rfl) | rfl <;> constructor <;> decide

theorem endsNumber_comma : EndsNumber ',' := by constructor <;> decide

theorem endsNumber_bracket : EndsNumber ']' := by constructor <;> decide

theorem endsNumber_brace : EndsNumber '}' := by constructor <;> decide

/-- What `item` reads from a text, `item'` reads from the characters that `item` took up. -/
def Rereads {α : Type} (item item' : List Char → Scan α) : Prop :=
  ∀ s v rest, item s = .ok (v, rest) → ∃ u, u ≠ [] ∧ s = u ++ rest ∧
    ∀ c cs, EndsNumber c → item' (u ++ c :: cs) = .ok (v, c :: cs)

/-! ### White space -/

/-- White space is skipped up to a character that is none, whatever stands behind it. -/
theorem skipWs_split {s u rest : List Char} (hu : u ≠ []) (h : skipWs s = u ++ rest) :
    ∃ ws, s = ws ++ (u ++ rest) ∧ (∀ c ∈ ws, isWs c = true) ∧
      ∀ t, skipWs (ws ++ (u ++ t)) = u ++ t := by
  obtain ⟨d, ds, rfl⟩ := List.exists_cons_of_ne_nil hu
  have hd : isWs d = false := by
    have := List.head?_dropWhile_not isWs s
    rw [skipWs] at h
    simpa [h] using this
  refine ⟨s.takeWhile isWs, ?_, fun c hc => List.mem_takeWhile_imp hc, fun t => ?_⟩
  · rw [← h, skipWs, List.takeWhile_append_dropWhile]
  · rw [skipWs, List.dropWhile_append_of_pos fun c hc => List.mem_takeWhile_imp hc,
      List.cons_append, List.dropWhile_cons_of_neg (by simp [hd])]

/-! ### Strings -/

/-- A string ends with its quote. -/
theorem scanUnits_rereads {s : List Char} : ∀ {xs : List ℕ} {rest : List Char},
    scanUnits s = some (xs, rest) →
      ∃ u, s = u ++ '"' :: rest ∧ ∀ t, scanUnits (u ++ '"' :: t) = some (xs, t) := by
  fun_induction scanUnits s with
  | case1 => intro xs rest h; cases h
  | case2 cs =>
    intro xs rest h
    cases h
    exact ⟨[], rfl, fun t => rfl⟩
  | case3 a b c d cs ih =>
    intro xs rest h
    obtain ⟨n, ys, hn, hr, rfl⟩ := eq_of_consUnit h
    obtain ⟨u, rfl, hu⟩ := ih hr
    refine ⟨'\\' :: 'u' :: a :: b :: c :: d :: u, rfl, fun t => ?_⟩
    simp only [List.cons_append, scanUnits, hu, hn]
    rfl
  | case4 e cs _ ih =>
    intro xs rest h
    obtain ⟨n, ys, hn, hr, rfl⟩ := eq_of_consUnit h
    obtain ⟨u, rfl, hu⟩ := ih hr
    have he : e ≠ 'u' := by
      rintro rfl
      cases hn
    refine ⟨'\\' :: e :: u, rfl, fun t => ?_⟩
    simp only [List.cons_append, scanUnits_escape he, hu, hn]
    rfl
  | case5 c cs hquote _ _ ih =>
    intro xs rest h
    obtain ⟨n, ys, hn, hr, rfl⟩ := eq_of_consUnit h
    obtain ⟨u, rfl, hu⟩ := ih hr
    have hslash : c ≠ '\\' := by
      rintro rfl
      cases hn
    refine ⟨c :: u, rfl, fun t => ?_⟩
    simp only [List.cons_append, scanUnits_plain hquote hslash, hu, hn]
    rfl

theorem scanString_rereads {s rest : List Char} {xs : List ℕ}
    (h : scanString s = .ok (xs, rest)) :
    ∃ u, s = u ++ '"' :: rest ∧ ∀ t, scanString (u ++ '"' :: t) = .ok (xs, t) := by
  obtain ⟨ys, hunits, rfl⟩ := scanString_cases h
  obtain ⟨u, hs, hu⟩ := scanUnits_rereads hunits
  refine ⟨u, hs, fun t => ?_⟩
  rw [scanString, hu]

/-! ### Numbers -/

theorem scanFrac_rereads {s ds rest : List Char} (h : scanFrac s = some (ds, rest)) :
    s = '.' :: ds ++ rest ∧ ∀ c cs, c.isDigit = false →
      scanFrac ('.' :: ds ++ c :: cs) = some (ds, c :: cs) := by
  rw [scanFrac.eq_def] at h
  split at h
  · rename_i d cs
    split at h
    · rename_i hd
      cases h
      refine ⟨?_, fun c cs' hc => scanFrac_digits (List.cons_ne_nil _ _) ?_ hc cs'⟩
      · simp only [List.cons_append, List.takeWhile_append_dropWhile]
      · exact List.forall_mem_cons.mpr ⟨hd, fun x hx => List.mem_takeWhile_imp hx⟩
    · cases h
  · cases h

/-- The sign of an exponent, in front of its digits. -/
theorem scanSign_rereads (s : List Char) {d : Char} {ds : List Char}
    (hs : (scanSign s).2.takeWhile Char.isDigit = d :: ds) :
    ∃ sgn, s = sgn ++ (scanSign s).2 ∧
      ∀ t, scanSign (sgn ++ (d :: ds ++ t)) = ((scanSign s).1, d :: ds ++ t) := by
  have hd : d.isDigit = true := by
    have hmem : d ∈ (scanSign s).2.takeWhile Char.isDigit := by
      rw [hs]
      exact List.mem_cons_self
    exact List.mem_takeWhile_imp hmem
  rw [scanSign.eq_def]
  split
  · exact ⟨['-'], rfl, fun t => rfl⟩
  · exact ⟨['+'], rfl, fun t => rfl⟩
  · refine ⟨[], rfl, fun t => ?_⟩
    -- a digit is no sign
    have hminus : d ≠ '-' := by
      rintro rfl
      cases hd
    have hplus : d ≠ '+' := by
      rintro rfl
      cases hd
    simp only [List.nil_append, List.cons_append]
    rw [scanSign.eq_def]
    split <;> simp_all

theorem scanExp_rereads {s rest : List Char} {e : ℤ} (h : scanExp s = some (e, rest)) :
    ∃ x u, (x = 'e' ∨ x = 'E') ∧ s = x :: u ++ rest ∧ ∀ c cs, c.isDigit = false →
      scanExp (x :: u ++ c :: cs) = some (e, c :: cs) := by
  cases s with
  | nil => cases h
  | cons x xs =>
    rw [scanExp] at h
    split at h
    · rename_i hx
      simp only [Bool.and_eq_true, Bool.or_eq_true, decide_eq_true_eq] at hx
      cases h
      obtain ⟨d, ds, hds⟩ : ∃ d ds, (scanSign xs).2.takeWhile Char.isDigit = d :: ds := by
        apply List.exists_cons_of_ne_nil
        intro hnil
        simp [hnil] at hx
      obtain ⟨sgn, hxs, hsgn⟩ := scanSign_rereads xs hds
      have hdigits : ∀ y ∈ d :: ds, y.isDigit = true := by
        rw [← hds]
        exact fun y hy => List.mem_takeWhile_imp hy
      refine ⟨x, sgn ++ d :: ds, hx.1, ?_, fun c cs hc => ?_⟩
      · have hsplit : d :: ds ++ (scanSign xs).2.dropWhile Char.isDigit = (scanSign xs).2 := by
          rw [← hds, List.takeWhile_append_dropWhile]
        rw [List.cons_append, List.append_assoc, hsplit, ← hxs]
      · obtain ⟨htake, hdrop⟩ := span_digits hdigits hc cs
        have hx' : (decide (x = 'e') || decide (x = 'E')) = true := by
          simpa using hx.1
        rw [List.cons_append, List.append_assoc, scanExp, hsgn]
        simp only [htake, hdrop, hx', hds]
        rfl
    · cases h

theorem not_digit_of_exponent {x : Char} (hx : x = 'e' ∨ x = 'E') :
    x.isDigit = false ∧ x ≠ '.' := by
  rcases hx with rfl | rfl <;> decide

/-- What follows the digits of the integral part, and how it begins. -/
theorem numberTail_rereads {neg : Bool} {digits s rest : List Char} {v : Json}
    (h : numberTail neg digits s = .ok (v, rest)) :
    ∃ u, s = u ++ rest ∧ ∀ c cs, EndsNumber c →
      (∃ d ds, u ++ c :: cs = d :: ds ∧ d.isDigit = false) ∧
        numberTail neg digits (u ++ c :: cs) = .ok (v, c :: cs) := by
  have hexp : ∀ c cs, EndsNumber c → scanExp (c :: cs) = none := by
    intro c cs hc
    rw [scanExp]
    simp [hc.lower, hc.upper]
  rw [numberTail] at h
  split at h
  · split at h
    · cases h
    · rename_i hlen
      cases h
      refine ⟨[], rfl, fun c cs hc => ⟨⟨c, cs, rfl, hc.digit⟩, ?_⟩⟩
      rewrite [List.nil_append, numberTail_stop hc.dot hc.lower hc.upper, if_neg hlen]
      rfl
  · rename_i ds r hf he
    cases h
    obtain ⟨hs, hread⟩ := scanFrac_rereads hf
    refine ⟨'.' :: ds, hs, fun c cs hc => ⟨⟨'.', _, rfl, rfl⟩, ?_⟩⟩
    rw [numberTail, hread c cs hc.digit]
    simp only [Option.elim_some, hexp c cs hc]
  · rename_i e r hf he
    cases h
    rw [hf, Option.elim_none] at he
    obtain ⟨x, u, hx, hs, hread⟩ := scanExp_rereads he
    obtain ⟨hdigit, hdot⟩ := not_digit_of_exponent hx
    refine ⟨x :: u, hs, fun c cs hc => ⟨⟨x, _, rfl, hdigit⟩, ?_⟩⟩
    rw [numberTail, List.cons_append, scanFrac_of_ne hdot, Option.elim_none, ← List.cons_append,
      hread c cs hc.digit]
  · rename_i ds r e r' hf he
    cases h
    rw [hf, Option.elim_some] at he
    obtain ⟨hs, hfrac⟩ := scanFrac_rereads hf
    obtain ⟨x, u, hx, rfl, hread⟩ := scanExp_rereads he
    obtain ⟨hdigit, -⟩ := not_digit_of_exponent hx
    refine ⟨'.' :: ds ++ x :: u, by rw [hs, List.append_assoc], fun c cs hc =>
      ⟨⟨'.', _, rfl, rfl⟩, ?_⟩⟩
    have happ : '.' :: ds ++ x :: u ++ c :: cs = '.' :: ds ++ x :: (u ++ c :: cs) := by
      simp
    rw [numberTail, happ, hfrac x _ hdigit, Option.elim_some, ← List.cons_append,
      hread c cs hc.digit]

theorem scanDigits_rereads {neg : Bool} {s rest : List Char} {v : Json}
    (h : scanDigits neg s = .ok (v, rest)) :
    ∃ d u, d.isDigit = true ∧ s = d :: u ++ rest ∧ ∀ c cs, EndsNumber c →
      scanDigits neg (d :: u ++ c :: cs) = .ok (v, c :: cs) := by
  cases s with
  | nil => cases h
  | cons d s =>
    rw [scanDigits] at h
    split at h
    · rename_i hd
      obtain ⟨u, rfl, hu⟩ := numberTail_rereads h
      refine ⟨d, u, by rw [hd]; rfl, rfl, fun c cs hc => ?_⟩
      rw [List.cons_append, scanDigits, if_pos hd, (hu c cs hc).2]
    · rename_i hzero
      split at h
      · rename_i hd
        obtain ⟨u, hs, hu⟩ := numberTail_rereads h
        refine ⟨d, s.takeWhile Char.isDigit ++ u, hd, ?_, fun c cs hc => ?_⟩
        · rw [List.cons_append, List.append_assoc, ← hs, List.takeWhile_append_dropWhile]
        · obtain ⟨⟨x, xs, hx, hdigit⟩, hread⟩ := hu c cs hc
          obtain ⟨htake, hdrop⟩ :=
            span_digits (fun y hy => List.mem_takeWhile_imp hy : ∀ y ∈ s.takeWhile Char.isDigit,
              y.isDigit = true) hdigit xs
          rw [List.cons_append, List.append_assoc, hx, scanDigits, if_neg hzero, if_pos hd, htake,
            hdrop, ← hx, hread]
      · cases h

/-! ### Values -/

/-- What a literal stands for does not depend on what follows it; a number has to end. -/
theorem scanLeaf_rereads : Rereads scanLeaf scanLeaf := by
  intro s v rest h
  rw [scanLeaf.eq_def] at h
  split at h
  case h_1 cs =>
    obtain ⟨xs, hs, rfl⟩ := eq_ok_of_map h
    obtain ⟨u, rfl, hu⟩ := scanString_rereads hs
    refine ⟨'"' :: (u ++ ['"']), List.cons_ne_nil _ _, by simp, fun c cs _ => ?_⟩
    have happ : '"' :: (u ++ ['"']) ++ c :: cs = '"' :: (u ++ '"' :: (c :: cs)) := by
      simp
    rw [happ, scanLeaf, hu]
    rfl
  case h_8 cs _ =>
    obtain ⟨d, u, hd, rfl, hu⟩ := scanDigits_rereads h
    refine ⟨'-' :: d :: u, List.cons_ne_nil _ _, rfl, fun c cs hc => ?_⟩
    rw [List.cons_append, List.cons_append, scanLeaf_minus hd, ← List.cons_append, hu c cs hc]
  case h_9 =>
    obtain ⟨d, u, hd, rfl, hu⟩ := scanDigits_rereads h
    refine ⟨d :: u, List.cons_ne_nil _ _, rfl, fun c cs hc => ?_⟩
    rw [List.cons_append, scanLeaf_of_isDigit hd, ← List.cons_append, hu c cs hc]
  case h_2 => cases h; exact ⟨"null".toList, by decide, rfl, fun _ _ _ => rfl⟩
  case h_3 => cases h; exact ⟨"true".toList, by decide, rfl, fun _ _ _ => rfl⟩
  case h_4 => cases h; exact ⟨"false".toList, by decide, rfl, fun _ _ _ => rfl⟩
  case h_5 => cases h; exact ⟨"NaN".toList, by decide, rfl, fun _ _ _ => rfl⟩
  case h_6 => cases h; exact ⟨"Infinity".toList, by decide, rfl, fun _ _ _ => rfl⟩
  case h_7 => cases h; exact ⟨"-Infinity".toList, by decide, rfl, fun _ _ _ => rfl⟩

/-- What is read as a leaf is read so at any depth. -/
theorem scanOnce_of_scanLeaf {s : List Char} {r : Json × List Char} (h : scanLeaf s = .ok r)
    (depth : ℕ) : scanOnce depth s = .ok r := by
  have harr : ∀ cs, s ≠ '[' :: cs := by
    rintro cs rfl
    cases h
  have hobj : ∀ cs, s ≠ '{' :: cs := by
    rintro cs rfl
    cases h
  cases depth with
  | zero =>
    rw [scanOnce.eq_def]
    split <;> simp_all
  | succ depth =>
    rw [scanOnce.eq_def]
    split <;> simp_all

/-- A member ends where its value does. -/
theorem scanMember_rereads {value value' : List Char → Scan Json} (h : Rereads value value') :
    Rereads (scanMember value) (scanMember value') := by
  intro s m rest hs
  obtain ⟨cs, r, r', rfl, hkey, hcolon, hvalue⟩ := scanMember_cases hs
  obtain ⟨u, hu, hsplit, hread⟩ := h _ _ _ hvalue
  obtain ⟨k, rfl, hk⟩ := scanString_rereads hkey
  obtain ⟨ws, hr, -, hws⟩ := skipWs_split (u := [':']) (List.cons_ne_nil _ _) hcolon
  obtain ⟨ws', hr', -, hws'⟩ := skipWs_split hu hsplit
  refine ⟨'"' :: (k ++ '"' :: (ws ++ ':' :: (ws' ++ u))), List.cons_ne_nil _ _, ?_, ?_⟩
  · rw [hr, hr']
    simp
  · intro c cs hc
    have happ : '"' :: (k ++ '"' :: (ws ++ ':' :: (ws' ++ u))) ++ c :: cs =
        '"' :: (k ++ '"' :: (ws ++ ':' :: (ws' ++ (u ++ c :: cs)))) := by
      simp
    have hskip : skipWs (ws ++ ':' :: (ws' ++ (u ++ c :: cs))) =
        ':' :: (ws' ++ (u ++ c :: cs)) := hws _
    rw [happ, scanMember, hk]
    simp only [hskip, hws', hread c cs hc]
    rfl

/-! ### Items -/

/-- What stands between an item and what ends it does not lengthen the item. -/
theorem exists_endsNumber {ws : List Char} (hws : ∀ c ∈ ws, isWs c = true) {c : Char}
    (hc : EndsNumber c) (t : List Char) : ∃ d ds, ws ++ c :: t = d :: ds ∧ EndsNumber d := by
  cases ws with
  | nil => exact ⟨c, t, rfl, hc⟩
  | cons w ws => exact ⟨w, ws ++ c :: t, rfl, endsNumber_of_isWs (hws w List.mem_cons_self)⟩

section Items

variable {α : Type} {close : Char} {item item' : List Char → Scan α}

/-- The last item, with white space in front of the bracket. -/
theorem sepBy_last {u ws : List Char} {v : α} (hclose : EndsNumber close)
    (hread : ∀ c cs, EndsNumber c → item (u ++ c :: cs) = .ok (v, c :: cs))
    (hws : ∀ c ∈ ws, isWs c = true) {t : List Char} (hskip : skipWs (ws ++ close :: t) = close :: t)
    (n : ℕ) : sepBy close item (n + 1) (u ++ (ws ++ close :: t)) = .ok ([v], t) := by
  obtain ⟨d, ds, hd, hends⟩ := exists_endsNumber hws hclose t
  rw [hd] at hskip ⊢
  rw [sepBy, hread d ds hends]
  simp only [hskip, if_true]

/-- An item, with white space in front of the comma. -/
theorem sepBy_next {u ws : List Char} {v : α} (hcomma : ',' ≠ close)
    (hread : ∀ c cs, EndsNumber c → item (u ++ c :: cs) = .ok (v, c :: cs))
    (hws : ∀ c ∈ ws, isWs c = true) {t : List Char} (hskip : skipWs (ws ++ ',' :: t) = ',' :: t)
    (n : ℕ) : sepBy close item (n + 1) (u ++ (ws ++ ',' :: t)) =
      (sepBy close item n (skipWs t)).map fun p => (v :: p.1, p.2) := by
  obtain ⟨d, ds, hd, hends⟩ := exists_endsNumber hws endsNumber_comma t
  rw [hd] at hskip ⊢
  rw [sepBy, hread d ds hends]
  simp only [hskip, if_neg hcomma, if_true]

/-- Items end with the bracket that closes them, and are read in fewer steps than they have
characters. -/
theorem sepBy_rereads (hclose : EndsNumber close) (hcomma : ',' ≠ close)
    (h : Rereads item item') : ∀ {fuel : ℕ} {s rest : List Char} {vs : List α},
      sepBy close item fuel s = .ok (vs, rest) →
        ∃ u, s = u ++ close :: rest ∧ ∀ n t, u.length < n →
          sepBy close item' n (u ++ close :: t) = .ok (vs, t) := by
  intro fuel
  induction fuel with
  | zero => intro s rest vs hs; cases hs
  | succ fuel ih =>
    intro s rest vs hs
    obtain ⟨m, v, r, hm, hitem, htail⟩ := sepBy_cases hs
    obtain rfl := Nat.succ.inj hm
    obtain ⟨u, -, rfl, hread⟩ := h _ _ _ hitem
    rcases htail with ⟨hskip, rfl⟩ | ⟨cs, ws, hskip, hrest, rfl⟩
    · obtain ⟨ws, rfl, hws, hskips⟩ := skipWs_split (u := [close]) (List.cons_ne_nil _ _) hskip
      refine ⟨u ++ ws, by simp, fun n t hn => ?_⟩
      obtain ⟨n, rfl⟩ : ∃ k, n = k + 1 := ⟨n - 1, by omega⟩
      rw [List.append_assoc]
      exact sepBy_last hclose hread hws (hskips t) n
    · obtain ⟨u', hs', hread'⟩ := ih hrest
      obtain ⟨ws₁, rfl, hws₁, hskips₁⟩ := skipWs_split (u := [',']) (List.cons_ne_nil _ _) hskip
      have hsplit : skipWs cs = (u' ++ [close]) ++ rest := by
        rw [hs', List.append_assoc, List.singleton_append]
      obtain ⟨ws₂, rfl, -, hskips₂⟩ := skipWs_split (by simp) hsplit
      refine ⟨u ++ (ws₁ ++ ',' :: (ws₂ ++ u')), by simp, fun n t hn => ?_⟩
      obtain ⟨n, rfl⟩ : ∃ k, n = k + 1 := ⟨n - 1, by omega⟩
      -- an item and a comma are gone, so the steps are enough for the rest
      have hlt : u'.length < n := by
        simp only [List.length_append, List.length_cons] at hn
        omega
      have hbehind : skipWs (ws₂ ++ (u' ++ close :: t)) = u' ++ close :: t := by
        simpa using hskips₂ t
      have happ : u ++ (ws₁ ++ ',' :: (ws₂ ++ u')) ++ close :: t =
          u ++ (ws₁ ++ ',' :: (ws₂ ++ (u' ++ close :: t))) := by
        simp
      have hcut : skipWs (ws₁ ++ ',' :: (ws₂ ++ (u' ++ close :: t))) =
          ',' :: (ws₂ ++ (u' ++ close :: t)) := hskips₁ _
      rw [happ, sepBy_next hcomma hread hws₁ hcut, hbehind, hread' n t hlt]
      rfl

/-- The inside of an array or an object ends with its bracket. -/
theorem scanItems_rereads (hclose : EndsNumber close) (hcomma : ',' ≠ close)
    (h : Rereads item item') {s rest : List Char} {vs : List α}
    (hs : scanItems close item s = .ok (vs, rest)) :
    ∃ u, s = u ++ close :: rest ∧ ∀ t, scanItems close item' (u ++ close :: t) = .ok (vs, t) := by
  rcases scanItems_cases hs with ⟨hskip, rfl⟩ | ⟨c, cs, hskip, hc, hitems⟩
  · obtain ⟨ws, rfl, -, hskips⟩ := skipWs_split (u := [close]) (List.cons_ne_nil _ _) hskip
    refine ⟨ws, rfl, fun t => ?_⟩
    have hskip' : skipWs (ws ++ close :: t) = close :: t := hskips t
    rw [scanItems]
    simp only [hskip', if_true]
  · obtain ⟨u, hu, hread⟩ := sepBy_rereads hclose hcomma h hitems
    -- the first item begins with `c`, which is not the bracket
    obtain ⟨u, rfl⟩ : ∃ u', u = c :: u' := by
      cases u with
      | nil => exact absurd (List.cons.inj hu).1 hc
      | cons d u => exact ⟨u, by rw [(List.cons.inj hu).1]⟩
    obtain ⟨ws, rfl, -, hskips⟩ :=
      skipWs_split (u := c :: u) (List.cons_ne_nil _ _) (hskip.trans hu)
    refine ⟨ws ++ c :: u, by simp, fun t => ?_⟩
    have hskip' : skipWs (ws ++ c :: u ++ close :: t) = c :: (u ++ close :: t) := by
      rw [List.append_assoc]
      exact hskips _
    have hlt : (c :: u).length < (c :: (u ++ close :: t)).length := by
      simp only [List.length_cons, List.length_append]
      omega
    rw [scanItems]
    simp only [hskip', if_neg hc]
    exact hread _ t hlt

end Items

theorem array_rereads {depth depth' : ℕ} (h : Rereads (scanOnce depth) (scanOnce depth'))
    {s rest : List Char} {vs : List Json}
    (hs : scanItems ']' (scanOnce depth) s = .ok (vs, rest)) :
    ∃ u, s = u ++ ']' :: rest ∧
      ∀ t, scanOnce (depth' + 1) ('[' :: (u ++ ']' :: t)) = .ok (.arr vs, t) := by
  obtain ⟨u, hu, hread⟩ := scanItems_rereads endsNumber_bracket (by decide) h hs
  refine ⟨u, hu, fun t => ?_⟩
  rw [scanOnce, hread]
  rfl

theorem object_rereads {depth depth' : ℕ} (h : Rereads (scanOnce depth) (scanOnce depth'))
    {s rest : List Char} {ms : List (List ℕ × Json)}
    (hs : scanItems '}' (scanMember (scanOnce depth)) s = .ok (ms, rest)) :
    ∃ u, s = u ++ '}' :: rest ∧
      ∀ t, scanOnce (depth' + 1) ('{' :: (u ++ '}' :: t)) = .ok (.obj ms, t) := by
  obtain ⟨u, hu, hread⟩ :=
    scanItems_rereads endsNumber_brace (by decide) (scanMember_rereads h) hs
  refine ⟨u, hu, fun t => ?_⟩
  rw [scanOnce, hread]
  rfl

/-- What is read in front of anything is read in front of what ends a number. -/
theorem exists_of_bracketed {α : Type} {opening close : Char} {u : List Char} {v : α}
    {scan : List Char → Scan α}
    (hread : ∀ t, scan (opening :: (u ++ close :: t)) = .ok (v, t)) (rest : List Char) :
    ∃ w, w ≠ [] ∧ opening :: (u ++ close :: rest) = w ++ rest ∧
      ∀ c cs, EndsNumber c → scan (w ++ c :: cs) = .ok (v, c :: cs) := by
  refine ⟨opening :: (u ++ [close]), List.cons_ne_nil _ _, by simp, fun c cs _ => ?_⟩
  have happ : opening :: (u ++ [close]) ++ c :: cs = opening :: (u ++ close :: (c :: cs)) := by
    simp
  rw [happ, hread]

/-- **Every value is read from the characters it takes up**, on any deeper stack. -/
theorem scanOnce_rereads : ∀ {depth depth' : ℕ}, depth ≤ depth' →
    Rereads (scanOnce depth) (scanOnce depth') := by
  have hleaf : ∀ {s v rest} (depth' : ℕ), scanLeaf s = .ok (v, rest) → ∃ u, u ≠ [] ∧
      s = u ++ rest ∧ ∀ c cs, EndsNumber c →
        scanOnce depth' (u ++ c :: cs) = .ok (v, c :: cs) := by
    intro s v rest depth' h
    obtain ⟨u, hu, hs, hread⟩ := scanLeaf_rereads _ _ _ h
    exact ⟨u, hu, hs, fun c cs hc => scanOnce_of_scanLeaf (hread c cs hc) depth'⟩
  intro depth
  induction depth with
  | zero =>
    intro depth' _ s v rest h
    rcases scanOnce_cases h with h | ⟨n, -, -, hn, -⟩ | ⟨n, -, -, hn, -⟩
    · exact hleaf depth' h
    · cases hn
    · cases hn
  | succ depth ih =>
    intro depth' hle s v rest h
    obtain ⟨depth', rfl⟩ : ∃ k, depth' = k + 1 := ⟨depth' - 1, by omega⟩
    have hitem := ih (Nat.le_of_succ_le_succ hle)
    rcases scanOnce_cases h with h | ⟨n, cs, vs, hn, rfl, rfl, hs⟩ | ⟨n, cs, ms, hn, rfl, rfl, hs⟩
    · exact hleaf _ h
    · obtain rfl := Nat.succ.inj hn
      obtain ⟨u, rfl, hread⟩ := array_rereads hitem hs
      exact exists_of_bracketed hread rest
    · obtain rfl := Nat.succ.inj hn
      obtain ⟨u, rfl, hread⟩ := object_rereads hitem hs
      exact exists_of_bracketed hread rest

/-- An object is no leaf. -/
theorem scanLeaf_ne_object (s : List Char) (ms : List (List ℕ × Json)) (rest : List Char) :
    scanLeaf s ≠ .ok (.obj ms, rest) := fun h => scanLeaf_scanned h 0

/-- **An object is read from its first brace to its last**, whatever stands behind it and
however deep the stack. -/
theorem scanOnce_object {depth : ℕ} {s rest : List Char} {ms : List (List ℕ × Json)}
    (h : scanOnce depth s = .ok (.obj ms, rest)) :
    ∃ u, s = '{' :: (u ++ '}' :: rest) ∧ ∀ depth', depth ≤ depth' → ∀ t,
      scanOnce depth' ('{' :: (u ++ '}' :: t)) = .ok (.obj ms, t) := by
  rcases scanOnce_cases h with h | ⟨n, cs, vs, -, -, hv, -⟩ | ⟨n, cs, ms', rfl, rfl, hv, hs⟩
  · exact absurd h (scanLeaf_ne_object s ms rest)
  · cases hv
  · cases hv
    obtain ⟨u, rfl, -⟩ := object_rereads (scanOnce_rereads le_rfl) hs
    refine ⟨u, rfl, fun depth' hle => ?_⟩
    obtain ⟨depth', rfl⟩ : ∃ k, depth' = k + 1 := ⟨depth' - 1, by omega⟩
    obtain ⟨u', hu, hread⟩ := object_rereads (scanOnce_rereads (Nat.le_of_succ_le_succ hle)) hs
    -- the characters taken up are those in front of the rest
    obtain rfl := List.append_cancel_right hu
    exact hread

/-- Two stacks do not read different objects from one text. -/
theorem scanOnce_object_unique {depth depth' : ℕ} {s rest rest' : List Char}
    {ms ms' : List (List ℕ × Json)} (h : scanOnce depth s = .ok (.obj ms, rest))
    (h' : scanOnce depth' s = .ok (.obj ms', rest')) : ms = ms' := by
  obtain ⟨u, hs, hread⟩ := scanOnce_object h
  obtain ⟨u', hs', hread'⟩ := scanOnce_object h'
  have hdeep := hread (max depth depth') (le_max_left _ _) rest
  have hdeep' := hread' (max depth depth') (le_max_right _ _) rest'
  rw [← hs] at hdeep
  rw [← hs', hdeep] at hdeep'
  injection hdeep' with hpair
  injection hpair with hobj
  injection hobj

theorem scanOnce_brace {depth : ℕ} {s rest : List Char} {v : Json}
    (h : scanOnce depth ('{' :: s) = .ok (v, rest)) : ∃ ms, v = .obj ms := by
  rcases scanOnce_cases h with h | ⟨n, cs, vs, -, hs, -, -⟩ | ⟨n, cs, ms, -, -, hv, -⟩
  · cases h
  · cases hs
  · exact ⟨ms, hv⟩

/-- A text from a brace to a brace that can be read is an object, and nothing else. -/
theorem loads_object {depth : ℕ} {x : List Char} {v : Json}
    (h : loads depth ('{' :: (x ++ ['}'])) = .ok v) :
    ∃ ms, v = .obj ms ∧ ∀ t, scanOnce depth ('{' :: (x ++ '}' :: t)) = .ok (.obj ms, t) := by
  have hbom : ¬ ('{' :: (x ++ ['}'])).head? = some '\uFEFF' := by
    rw [List.head?_cons]
    decide
  rw [loads, if_neg hbom] at h
  have hskip : skipWs ('{' :: (x ++ ['}'])) = '{' :: (x ++ ['}']) := rfl
  rw [hskip] at h
  split at h
  · cases h
  · rename_i w rest hs
    split at h
    · rename_i hrest
      cases h
      obtain ⟨ms, rfl⟩ := scanOnce_brace hs
      obtain ⟨u, hu, hread⟩ := scanOnce_object hs
      -- the last character is a brace, so there is no white space behind the object
      have hnil : rest = [] := by
        rcases List.eq_nil_or_concat rest with hnil | ⟨init, c, rfl⟩
        · exact hnil
        · have hlast : x ++ ['}'] = (u ++ '}' :: init) ++ [c] := by
            rw [(List.cons.inj hu).2]
            simp
          have hc : c = '}' := (List.cons.inj (List.append_inj' hlast rfl).2).1.symm
          have hall := List.dropWhile_eq_nil_iff.mp (List.isEmpty_iff.mp hrest) c
            (by simp)
          rw [hc] at hall
          cases hall
      subst hnil
      obtain rfl : x = u := List.append_cancel_right (List.cons.inj hu).2
      exact ⟨ms, rfl, hread depth le_rfl⟩
    · cases h

end Json
