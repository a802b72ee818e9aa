import Inferna.Endpoints
import Inferna.Relay
import Inferna.Lib.HeaderParams

/-!
# The model of a multipart form

`_extract_multipart_model` of `api/gateway.py` looks for the form field `model` with the callbacks of
a multipart parser.  The parser reports the headers and the data of a part in pieces; the callbacks
collect them in local variables, and at the end of a header look for `name="…"` in the text of the
disposition.

The parser is not part of the repository.  Here it is a function from the body to its callbacks, and
what it reports of a well-formed body is `Reports`.

## Main definitions

* `Callback`, `MultipartState.on` — the callbacks and the local variables.
* `extractMultipartModel` — `_extract_multipart_model`.
* `PartHead`, `FormPart` — a part of a form, with well-formed headers.
* `Reports` — the callbacks of a form, in any pieces.
* `PartHead.named`, `PartHead.reads` — the part has the name `model`, and the search finds it.

## Main results

* `run_reports` — the pieces do not matter, and nothing is left from one part to the next.
* `multipart_model_iff` — **the form field is found, whatever the parts contain, exactly when the
  last part that is named `model` or is read as such is both.**
-/

namespace Inferna

open HeaderText (Param)

/-! ### The callbacks -/

/-- A callback of the parser, with the bytes it is given. -/
inductive Callback
  | partBegin
  | headerField (data : List UInt8)
  | headerValue (data : List UInt8)
  | headerEnd
  | headersFinished
  | partData (data : List UInt8)
  | partEnd
  | bodyEnd
  deriving DecidableEq, Repr

/-- The local variables of `_extract_multipart_model`. -/
structure MultipartState where
  model : Option (List Char) := none
  fieldName : Option (List Char) := none
  inHeaders : Bool := true
  headerField : List UInt8 := []
  headerValue : List UInt8 := []
  partData : List UInt8 := []

/-- The header is a `content-disposition`. -/
def isDisposition (u : Unicode) (field : List UInt8) : Bool :=
  u.lower (Text.strip (Text.decodeReplace field)) = "content-disposition".toList

/-- The field name after a header. -/
def nameAfter (u : Unicode) (fieldName : Option (List Char)) (header : List UInt8 × List UInt8) :
    Option (List Char) :=
  if isDisposition u header.1 then
    -- no match leaves the name as it is
    (HeaderText.findQuoted "name".toList (Text.decodeReplace header.2)).or fieldName
  else fieldName

/-- What a callback does. -/
def MultipartState.on (u : Unicode) (s : MultipartState) : Callback → MultipartState
  | .partBegin => { s with fieldName := none, inHeaders := true }
  | .headerField data =>
    if s.inHeaders then { s with headerField := s.headerField ++ data } else s
  | .headerValue data =>
    if s.inHeaders then { s with headerValue := s.headerValue ++ data } else s
  | .headerEnd =>
    if s.inHeaders then
      { s with
        fieldName := nameAfter u s.fieldName (s.headerField, s.headerValue)
        headerField := []
        headerValue := [] }
    else s
  | .headersFinished => { s with inHeaders := false }
  | .partData data =>
    if s.fieldName = some "model".toList then { s with partData := s.partData ++ data } else s
  | .partEnd =>
    { s with
      model := if s.fieldName = some "model".toList then some (Text.decodeReplace s.partData)
        else s.model
      partData := [] }
  | .bodyEnd => s

/-- What is taken from the library. -/
structure MultipartEnv where
  unicode : Unicode
  /-- The parameter `boundary` that `parse_options_header` finds in a content type. -/
  boundary : List Char → Option (List UInt8)
  /-- The callbacks of `parser.write(raw_body)`, and whether it raises after them. -/
  write : List UInt8 → List UInt8 → List Callback × Bool

/-- `_extract_multipart_model`. -/
def extractMultipartModel (env : MultipartEnv) (contentType : List Char) (rawBody : List UInt8) :
    MultipartAnswer :=
  match env.boundary contentType with
  | none => .field none
  | some boundary =>
    if boundary = [] then .field none
    else
      let written := env.write boundary rawBody
      if written.2 then .malformed
      else .field (((written.1.foldl (MultipartState.on env.unicode) {}).model).map String.ofList)

/-! ### Forms -/

/-- The headers of a part: a disposition with its parameters, and other headers around it. -/
structure PartHead (u : Unicode) where
  before : List (List UInt8 × List UInt8)
  field : List UInt8
  value : List UInt8
  after : List (List UInt8 × List UInt8)
  /-- The text before the parameters. -/
  kind : List Char
  params : List Param
  kind_chars : '"' ∉ kind
  field_ok : isDisposition u field = true
  value_ok : Text.decodeReplace value = kind ++ params.flatMap Param.text
  others : ∀ h ∈ before ++ after, isDisposition u h.1 = false

/-- A part of a form. -/
structure FormPart (u : Unicode) where
  head : PartHead u
  content : List UInt8

namespace PartHead

variable {u : Unicode}

/-- The headers in their order. -/
def headers (h : PartHead u) : List (List UInt8 × List UInt8) :=
  h.before ++ (h.field, h.value) :: h.after

/-- The parameter `name` of the part is `model`. -/
def named (h : PartHead u) : Bool :=
  HeaderText.paramValue "name".toList h.params = some "model".toList

/-- The first parameter whose key ends with `name`, or whose quoted string ends with `name=`, has
such a key and is quoted as `model`. -/
def reads (h : PartHead u) : Bool :=
  match h.params.find? (Param.stops "name".toList) with
  | some p => "name".toList.isSuffixOf p.key && p.value = .quoted "model".toList
  | none => false

end PartHead

/-- The value of the form field: that of the last part with the name. -/
def modelField {u : Unicode} (parts : List (FormPart u)) : Option (List Char) :=
  (parts.reverse.find? (·.head.named)).map fun p => Text.decodeReplace p.content

/-- The last part that has the name or is read as such has both. -/
def LastAgrees {u : Unicode} (heads : List (PartHead u)) : Prop :=
  ∀ h, heads.reverse.find? (fun h => h.named || h.reads) = some h →
    h.named = true ∧ h.reads = true

/-! ### What the parser reports -/

/-- A header, in pieces. -/
def ReportsHeader (header : List UInt8 × List UInt8) (callbacks : List Callback) : Prop :=
  ∃ fields values : List (List UInt8), fields.flatten = header.1 ∧ values.flatten = header.2 ∧
    callbacks = fields.map .headerField ++ values.map .headerValue ++ [.headerEnd]

/-- A part, its headers and its data in pieces. -/
def ReportsPart {u : Unicode} (part : FormPart u) (callbacks : List Callback) : Prop :=
  ∃ (headers : List (List Callback)) (pieces : List (List UInt8)),
    List.Forall₂ ReportsHeader part.head.headers headers ∧ pieces.flatten = part.content ∧
      callbacks = .partBegin :: headers.flatten ++ .headersFinished :: pieces.map .partData ++
        [.partEnd]

/-- A form, part after part. -/
def Reports {u : Unicode} (parts : List (FormPart u)) (callbacks : List Callback) : Prop :=
  ∃ each : List (List Callback), List.Forall₂ ReportsPart parts each ∧
    callbacks = each.flatten ++ [.bodyEnd]

/-! ### The run of the callbacks -/

section Run

variable {u : Unicode} {s : MultipartState}

/-- A callback that adds its piece to what has been collected adds them all. -/
theorem run_pieces {report : List UInt8 → Callback} {after : List UInt8 → MultipartState}
    (hstep : ∀ got piece, (after got).on u (report piece) = after (got ++ piece))
    (got : List UInt8) (pieces : List (List UInt8)) :
    (pieces.map report).foldl (MultipartState.on u) (after got) =
      after (got ++ pieces.flatten) := by
  induction pieces generalizing got with
  | nil => rw [List.flatten_nil, List.append_nil, List.map_nil, List.foldl_nil]
  | cons piece pieces ih =>
    rw [List.map_cons, List.foldl_cons, hstep, ih, List.append_assoc, List.flatten_cons]

theorem run_headerField (h : s.inHeaders = true) (pieces : List (List UInt8)) :
    (pieces.map Callback.headerField).foldl (MultipartState.on u) s =
      { s with headerField := s.headerField ++ pieces.flatten } :=
  @run_pieces u .headerField (fun got => { s with headerField := got })
    (fun _ _ => if_pos h) s.headerField pieces

theorem run_headerValue (h : s.inHeaders = true) (pieces : List (List UInt8)) :
    (pieces.map Callback.headerValue).foldl (MultipartState.on u) s =
      { s with headerValue := s.headerValue ++ pieces.flatten } :=
  @run_pieces u .headerValue (fun got => { s with headerValue := got })
    (fun _ _ => if_pos h) s.headerValue pieces

/-- Data is kept for the field `model` only. -/
theorem run_partData (pieces : List (List UInt8)) :
    (pieces.map Callback.partData).foldl (MultipartState.on u) s =
      if s.fieldName = some "model".toList then { s with partData := s.partData ++ pieces.flatten }
      else s := by
  by_cases hname : s.fieldName = some "model".toList
  · rw [if_pos hname]
    exact @run_pieces u .partData (fun got => { s with partData := got })
      (fun _ _ => if_pos hname) s.partData pieces
  · rw [if_neg hname]
    exact @run_pieces u .partData (fun _ => s) (fun _ _ => if_neg hname) [] pieces

/-- Between two headers nothing is collected. -/
structure AtHeader (s : MultipartState) : Prop where
  inHeaders : s.inHeaders = true
  headerField : s.headerField = []
  headerValue : s.headerValue = []

theorem run_header {header : List UInt8 × List UInt8} {callbacks : List Callback} (hs : AtHeader s)
    (h : ReportsHeader header callbacks) :
    callbacks.foldl (MultipartState.on u) s =
      { s with fieldName := nameAfter u s.fieldName header } := by
  obtain ⟨fields, values, hfield, hvalue, rfl⟩ := h
  obtain ⟨model, fieldName, inHeaders, headerField, headerValue, partData⟩ := s
  obtain ⟨rfl, rfl, rfl⟩ : inHeaders = true ∧ headerField = [] ∧ headerValue = [] :=
    ⟨hs.1, hs.2, hs.3⟩
  rw [List.foldl_append, List.foldl_append, run_headerField rfl, run_headerValue rfl, hfield,
    hvalue]
  rfl

theorem run_headers {headers : List (List UInt8 × List UInt8)} {each : List (List Callback)}
    (hs : AtHeader s) (h : List.Forall₂ ReportsHeader headers each) :
    each.flatten.foldl (MultipartState.on u) s =
      { s with fieldName := headers.foldl (nameAfter u) s.fieldName } := by
  induction h generalizing s with
  | nil => rfl
  | cons hhead _ ih =>
    rw [List.flatten_cons, List.foldl_append, run_header hs hhead]
    exact ih ⟨hs.inHeaders, hs.headerField, hs.headerValue⟩

/-- The name that is read of a part. -/
def PartHead.readName (h : PartHead u) : Option (List Char) := h.headers.foldl (nameAfter u) none

/-- Between two parts nothing is collected. -/
structure AtPart (s : MultipartState) : Prop where
  headerField : s.headerField = []
  headerValue : s.headerValue = []
  partData : s.partData = []

theorem run_part {part : FormPart u} {callbacks : List Callback} (hs : AtPart s)
    (h : ReportsPart part callbacks) :
    callbacks.foldl (MultipartState.on u) s =
      { s with
        model := if part.head.readName = some "model".toList then
          some (Text.decodeReplace part.content) else s.model
        fieldName := part.head.readName
        inHeaders := false } := by
  obtain ⟨headers, pieces, hheaders, hpieces, rfl⟩ := h
  have hbegin : AtHeader (s.on u .partBegin) := ⟨rfl, hs.headerField, hs.headerValue⟩
  have hhead : (Callback.partBegin :: headers.flatten).foldl (MultipartState.on u) s =
      { s.on u .partBegin with fieldName := part.head.readName } := run_headers hbegin hheaders
  obtain ⟨model, fieldName, inHeaders, headerField, headerValue, partData⟩ := s
  obtain rfl : partData = [] := hs.partData
  rw [List.foldl_append, List.foldl_append, hhead]
  simp only [List.foldl_cons, List.foldl_nil, run_partData]
  by_cases hread : part.head.readName = some "model".toList
  · simp only [MultipartState.on, hread, if_true, List.nil_append, hpieces]
  · simp only [MultipartState.on, hread, if_false]

end Run

/-! ### The name of a part -/

theorem foldl_nameAfter_of_others {u : Unicode} {headers : List (List UInt8 × List UInt8)}
    (h : ∀ header ∈ headers, isDisposition u header.1 = false) (fieldName : Option (List Char)) :
    headers.foldl (nameAfter u) fieldName = fieldName := by
  induction headers with
  | nil => rfl
  | cons header headers ih =>
    have hskip : nameAfter u fieldName header = fieldName := by
      rw [nameAfter, h header List.mem_cons_self, if_neg Bool.false_ne_true]
    rw [List.foldl_cons, hskip]
    exact ih fun x hx => h x (List.mem_cons_of_mem _ hx)

/-- The name that is read is found in the text of the disposition. -/
theorem readName_eq {u : Unicode} (h : PartHead u) :
    h.readName = HeaderText.findQuoted "name".toList (h.kind ++ h.params.flatMap Param.text) := by
  have hbefore := foldl_nameAfter_of_others
    (fun x hx => h.others x (List.mem_append_left _ hx)) none
  rw [PartHead.readName, PartHead.headers, List.foldl_append, List.foldl_cons, hbefore, nameAfter,
    if_pos h.field_ok, Option.or_none, h.value_ok]
  exact foldl_nameAfter_of_others (fun x hx => h.others x (List.mem_append_right _ hx)) _

theorem isKey_name : HeaderText.IsKey "name".toList :=
  ⟨by decide, by decide, Text.forall_mem_of_all rfl, by decide⟩

theorem isPlain_model : HeaderText.IsPlain "model".toList where
  ne_nil := by decide
  head := by
    intro c hc
    cases hc
    rfl
  noQuote := by decide
  noBackslash := by decide

/-- **The field is taken for `model` when the search stops at a parameter quoted so.** -/
theorem readName_eq_model_iff {u : Unicode} (h : PartHead u) :
    h.readName = some "model".toList ↔ h.reads = true := by
  rw [readName_eq, HeaderText.findQuoted_eq_some_iff isKey_name isPlain_model h.kind_chars,
    PartHead.reads]
  constructor
  · rintro ⟨p, hfind, hkey, hvalue⟩
    rw [hfind]
    dsimp only
    rw [List.isSuffixOf_iff_suffix.mpr hkey, Bool.true_and]
    exact decide_eq_true hvalue
  · intro hreads
    split at hreads
    · rename_i p hfind
      rw [Bool.and_eq_true, List.isSuffixOf_iff_suffix, decide_eq_true_eq] at hreads
      exact ⟨p, hfind, hreads.1, hreads.2⟩
    · cases hreads

/-! ### Forms -/

section Form

variable {u : Unicode}

/-- **The model after the callbacks of a form is the data of the last part that is read as the
field, in whatever pieces it is reported.** -/
theorem run_reports {parts : List (FormPart u)} {callbacks : List Callback}
    (h : Reports parts callbacks) :
    (callbacks.foldl (MultipartState.on u) {}).model =
      (parts.reverse.find? (·.head.reads)).map fun p => Text.decodeReplace p.content := by
  obtain ⟨each, heach, rfl⟩ := h
  have hrun : ∀ {s : MultipartState}, AtPart s →
      (each.flatten.foldl (MultipartState.on u) s).model =
        ((parts.reverse.find? (·.head.reads)).map fun p => Text.decodeReplace p.content).or
          s.model := by
    induction heach with
    | nil => exact fun _ => rfl
    | @cons part callbacks parts each hpart _ ih =>
      intro s hs
      have hnext : AtPart { s with
          model := if part.head.readName = some "model".toList then
            some (Text.decodeReplace part.content) else s.model
          fieldName := part.head.readName
          inHeaders := false } := ⟨hs.headerField, hs.headerValue, hs.partData⟩
      rw [List.flatten_cons, List.foldl_append, run_part hs hpart, ih hnext, List.reverse_cons,
        List.find?_append]
      cases hfind : parts.reverse.find? (·.head.reads) with
      | some p => rfl
      | none =>
        -- the data of the last part so far
        simp only [readName_eq_model_iff, Option.map_none, Option.none_or, List.find?_cons]
        cases hread : part.head.reads with
        | true => rfl
        | false => rfl
  rw [List.foldl_append, List.foldl_cons, List.foldl_nil]
  exact (hrun ⟨rfl, rfl, rfl⟩).trans (Option.or_none)

/-- Two properties have the same last bearer, if the last that has either has both. -/
theorem find?_eq_of_or {α : Type} {p q : α → Bool} : ∀ (l : List α),
    (∀ x, l.find? (fun x => p x || q x) = some x → p x = true ∧ q x = true) →
      l.find? p = l.find? q
  | [], _ => rfl
  | x :: l, h => by
    rw [List.find?_cons, List.find?_cons]
    cases hor : p x || q x with
    | true =>
      obtain ⟨hp, hq⟩ := h x (by rw [List.find?_cons, hor])
      rw [hp, hq]
    | false =>
      obtain ⟨hp, hq⟩ := Bool.or_eq_false_iff.mp hor
      rw [hp, hq]
      refine find?_eq_of_or l fun y hy => h y ?_
      rw [List.find?_cons, hor]
      exact hy

/-- The callbacks of a form in whole pieces. -/
def wholeCallbacks (parts : List (FormPart u)) : List Callback :=
  (parts.map fun part =>
    .partBegin :: (part.head.headers.map fun h =>
      [Callback.headerField h.1, .headerValue h.2, .headerEnd]).flatten ++
        .headersFinished :: [part.content].map .partData ++ [.partEnd]).flatten ++ [.bodyEnd]

theorem reports_wholeCallbacks (parts : List (FormPart u)) :
    Reports parts (wholeCallbacks parts) := by
  refine ⟨_, ?_, rfl⟩
  rw [List.forall₂_map_right_iff]
  refine List.forall₂_same.mpr fun part _ => ⟨_, [part.content], ?_, by simp, rfl⟩
  rw [List.forall₂_map_right_iff]
  exact List.forall₂_same.mpr fun h _ => ⟨[h.1], [h.2], by simp, by simp, rfl⟩

theorem extractMultipartModel_eq {parts : List (FormPart u)} {env : MultipartEnv}
    {contentType : List Char} {rawBody boundary : List UInt8} {callbacks : List Callback}
    (hu : env.unicode = u) (hboundary : env.boundary contentType = some boundary)
    (hne : boundary ≠ []) (hwrite : env.write boundary rawBody = (callbacks, false))
    (h : Reports parts callbacks) :
    extractMultipartModel env contentType rawBody =
      .field (((parts.reverse.find? (·.head.reads)).map fun p =>
        Text.decodeReplace p.content).map String.ofList) := by
  subst hu
  rw [extractMultipartModel, hboundary]
  dsimp only
  rw [if_neg hne, hwrite, if_neg Bool.false_ne_true, run_reports h]

/-- A part that holds `A`, behind parts that hold `B` and before some that are not looked for. -/
theorem find?_marked (q : PartHead u → Bool) (h : PartHead u) {after : List (PartHead u)}
    (hafter : ∀ x ∈ after, q x = false) (before : List (PartHead u)) :
    ((((before.map (FormPart.mk · [66])) ++
      ⟨h, [65]⟩ :: after.map (FormPart.mk · [66])).reverse.find? fun p => q p.head).map
        fun p => Text.decodeReplace p.content) = some ['A'] ↔ q h = true := by
  have hnone : (after.map (FormPart.mk · [66])).reverse.find? (fun p => q p.head) = none := by
    rw [List.find?_eq_none]
    intro p hp
    obtain ⟨x, hx, rfl⟩ := List.mem_map.mp (List.mem_reverse.mp hp)
    rw [hafter x hx]
    exact Bool.false_ne_true
  rw [List.reverse_append, List.reverse_cons, List.append_assoc, List.find?_append, hnone,
    Option.none_or, List.singleton_append, List.find?_cons]
  cases hq : q h with
  | true => exact iff_of_true rfl rfl
  | false =>
    refine iff_of_false ?_ Bool.false_ne_true
    intro hsome
    obtain ⟨p, hp, hcontent⟩ := Option.map_eq_some_iff.mp hsome
    have hmem := List.mem_reverse.mp (List.mem_of_find?_eq_some hp)
    obtain ⟨x, -, rfl⟩ := List.mem_map.mp hmem
    have hother : Text.decodeReplace [66] ≠ ['A'] := by decide
    exact hother hcontent

/-- **The form field is found, whatever the parts contain and in whatever pieces they come, exactly
when the last part that is named `model` or is read as such is both.** -/
theorem multipart_model_iff (heads : List (PartHead u)) :
    (∀ parts : List (FormPart u), parts.map FormPart.head = heads →
      ∀ (env : MultipartEnv) (contentType : List Char) (rawBody boundary : List UInt8)
        (callbacks : List Callback), env.unicode = u → env.boundary contentType = some boundary →
        boundary ≠ [] → env.write boundary rawBody = (callbacks, false) → Reports parts callbacks →
          extractMultipartModel env contentType rawBody =
            .field ((modelField parts).map String.ofList)) ↔ LastAgrees heads := by
  constructor
  · intro hall h hlast
    obtain ⟨hor, after, before, hsplit, hafter⟩ := List.find?_eq_some_iff_append.mp hlast
    have hheads : heads = before.reverse ++ h :: after.reverse := by
      rw [← List.reverse_reverse heads, hsplit]
      simp
    have hid : ∀ l : List (PartHead u), (l.map (FormPart.mk · [66])).map FormPart.head = l := by
      intro l
      rw [List.map_map]
      exact List.map_id l
    -- the part in question is told from the others by what it contains
    have hfield := hall (before.reverse.map (FormPart.mk · [66]) ++
        ⟨h, [65]⟩ :: after.reverse.map (FormPart.mk · [66]))
      (by rw [List.map_append, List.map_cons, hid, hid, hheads])
      ⟨u, fun _ => some [0], fun _ _ => (wholeCallbacks _, false)⟩ [] [] [0] _ rfl rfl (by simp) rfl
      (reports_wholeCallbacks _)
    rw [extractMultipartModel_eq rfl rfl (by simp) rfl (reports_wholeCallbacks _)] at hfield
    have hsame := Option.map_injective (fun _ _ heq => String.ofList_injective heq)
      (MultipartAnswer.field.inj hfield)
    rw [modelField] at hsame
    have hno : ∀ x ∈ after.reverse, PartHead.named x = false ∧ PartHead.reads x = false :=
      fun x hx => by simpa using hafter x (List.mem_reverse.mp hx)
    have hreads := find?_marked PartHead.reads h (fun x hx => (hno x hx).2) before.reverse
    have hnamed := find?_marked PartHead.named h (fun x hx => (hno x hx).1) before.reverse
    rw [hsame] at hreads
    have hboth : h.named = true ↔ h.reads = true := hnamed.symm.trans hreads
    rcases Bool.or_eq_true_iff.mp hor with hn | hr
    · exact ⟨hn, hboth.mp hn⟩
    · exact ⟨hboth.mpr hr, hr⟩
  · rintro hlast parts rfl env contentType rawBody boundary callbacks hu hboundary hne hwrite
      hreport
    rw [extractMultipartModel_eq hu hboundary hne hwrite hreport, modelField,
      find?_eq_of_or (p := fun p => p.head.named) (q := fun p => p.head.reads) parts.reverse]
    intro p hp
    refine hlast p.head ?_
    rw [← List.map_reverse, List.find?_map]
    exact congrArg (Option.map FormPart.head) hp

end Form

/-! ### A file that is called as the field -/

/-- A parameter of two texts, behind a semicolon. -/
def quotedParam (key raw : List Char) (hkey : '"' ∉ key) (hraw : HeaderText.isQuoted raw = true) :
    Param where
  sep := "; ".toList
  key := key
  value := .quoted raw
  sep_ne_nil := by decide
  sep_chars := Text.forall_mem_of_all rfl
  key_chars := hkey
  value_ok := hraw

/-- The headers of a file with the name `model`, its own name first. -/
def fileHead : PartHead Unicode.ascii where
  before := []
  field := asciiBytes "Content-Disposition"
  value := asciiBytes "form-data; filename=\"model\"; name=\"file\""
  after := [(asciiBytes "Content-Type", asciiBytes "audio/wav")]
  kind := "form-data".toList
  params := [quotedParam "filename".toList "model".toList (by decide) (by decide),
    quotedParam "name".toList "file".toList (by decide) (by decide)]
  kind_chars := by decide
  field_ok := by decide
  value_ok := by decide
  others := by decide

/-- **The content of a file is taken for the model.** -/
theorem filename_taken_for_field :
    ¬ ∀ (u : Unicode) (parts : List (FormPart u)) (env : MultipartEnv) (contentType : List Char)
      (rawBody boundary : List UInt8) (callbacks : List Callback), env.unicode = u →
      env.boundary contentType = some boundary → boundary ≠ [] →
      env.write boundary rawBody = (callbacks, false) → Reports parts callbacks →
        extractMultipartModel env contentType rawBody =
          .field ((modelField parts).map String.ofList) := by
  intro hall
  have hfield := hall Unicode.ascii [⟨fileHead, asciiBytes "whisper"⟩]
    ⟨Unicode.ascii, fun _ => some [45], fun _ _ => (wholeCallbacks _, false)⟩ [] [] [45] _ rfl rfl
    (by simp) rfl (reports_wholeCallbacks _)
  rw [extractMultipartModel_eq rfl rfl (by simp) rfl (reports_wholeCallbacks _)] at hfield
  revert hfield
  decide

end Inferna
