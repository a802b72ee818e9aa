import Inferna.Endpoints
import Inferna.PrefixCache
import Inferna.Relay
import Inferna.Lib.PyText

/-!
# The digests of a request

Before `_proxy` chooses an instance it computes the prefix digests of the body: those of the text
that `prompt_text` makes of the chat messages, or else those of `input`.  The body is whatever JSON
the client has sent.

Two things go wrong.  A loop over `messages` that is a number or `true` is a `TypeError`, and a
lone surrogate, which an escape puts into a string, has no encoding, so that hashing a text with
one is a `UnicodeEncodeError`.  Neither is caught, and the request fails before it reaches
`_resolve_target`.

## Main definitions

* `promptText` — `prompt_text`.
* `payloadDigests`, `proxyDigests` — the digests of a parsed body, and of the bytes.
* `DigestsFit` — the bodies whose digests can be computed.

## Main results

* `promptText_encodes_iff` — when the text of the messages is one of characters.
* `payloadDigests_ok_iff` — when a parsed body has digests.
* `proxyDigests_ok_iff` — **the request goes on exactly when its body fits.**
-/

namespace Inferna

/-! ### The text of the messages -/

/-- The value as a dictionary. -/
def asDict : Json → Option (List (List ℕ × Json))
  | .obj members => some members
  | _ => none

/-- `obj.get(key, default)`. -/
def memberOr (members : List (List ℕ × Json)) (key : String) (default : Json) : Json :=
  match members.reverse.find? fun m => m.1 = Json.codePoints key with
  | some m => m.2
  | none => default

section

variable (py : PyText)

/-- `str(value)`. -/
def strText (v : Json) : Except Exc (List ℕ) :=
  match py.str v with
  | none => .error (.other "RecursionError")
  | some text => .ok text

/-- The content of a message: a string, or the texts of its parts. -/
def contentText : Json → Except Exc (List ℕ)
  | .str s => .ok s
  | .arr parts =>
    ((parts.filterMap asDict).mapM fun part => strText py (memberOr part "text" (.str []))).map
      (Json.codePoints " ").intercalate
  | _ => .ok []

/-- One entry of `parts`. -/
def messageText (message : List (List ℕ × Json)) : Except Exc (List ℕ) := do
  let role ← strText py (memberOr message "role" (.str []))
  let content ← contentText py (Json.get message "content")
  return role ++ ':'.toNat :: content

/-- The messages that are dictionaries.  A string and a dictionary are looped over as well, with
strings as their items. -/
def chatMessages : Json → List (List (List ℕ × Json))
  | .arr items => items.filterMap asDict
  | _ => []

/-- What `for message in messages` loops over. -/
def loopMessages (messages : Json) : Except Exc (List (List (List ℕ × Json))) :=
  if messages.truthy then
    match messages with
    | .str _ => .ok []
    | .obj _ => .ok []
    | .arr items => .ok (chatMessages (.arr items))
    | _ => .error (.other "TypeError")
  else .ok []

/-- `prompt_text`. -/
def promptText (messages : Json) : Except Exc (List ℕ) := do
  let dicts ← loopMessages messages
  let parts ← dicts.mapM (messageText py)
  return (Json.codePoints "\n").intercalate parts

/-! ### The digests -/

variable (hash : BlockHash)

/-- `blocks` of a text. -/
def textDigests (text : List ℕ) : Except Exc (List Digest) :=
  match blocks hash prefixBlockChars text with
  | none => .error (.other "UnicodeEncodeError")
  | some digests => .ok digests

/-- The digests of `input`. -/
def inputDigests : Json → Except Exc (List Digest)
  | .null => .ok []
  | input => strText py input >>= textDigests hash

/-- The digests of a parsed body. -/
def payloadDigests (payload : List (List ℕ × Json)) : Except Exc (List Digest) := do
  let digests ← promptText py (Json.get payload "messages") >>= textDigests hash
  if digests.isEmpty then inputDigests py hash (Json.get payload "input") else return digests

/-- `json.loads(raw_body)`. -/
def loadsBody (env : DoorEnv) (raw : List UInt8) : Except Json.LoadsError Json :=
  match env.decode raw with
  | none => .error .decode
  | some text => Json.loads env.depth text

/-- The digests that `_proxy` computes of a body. -/
def proxyDigests (env : DoorEnv) (h : HttpRequest) (raw : List UInt8) :
    Except Exc (List Digest) :=
  if h.isOfType env.unicode "application/json" then
    match loadsBody env raw with
    | .error .decode => .ok []
    | .error .intTooLong => .error (.other "ValueError")
    | .error .recursion => .error (.other "RecursionError")
    | .ok (.obj payload) => payloadDigests py hash payload
    | .ok _ => .ok []
  else .ok []

/-- What the preparations of `_proxy` raise. -/
def raisedBy {α : Type} : Except Exc α → Option Exc
  | .error e => some e
  | .ok _ => none

/-! ### The bodies that fit -/

/-- A content whose text is one of characters. -/
def ContentFits : Json → Prop
  | .str s => ∀ c ∈ s, c.isValidChar
  | .arr parts => ∀ part ∈ parts.filterMap asDict, py.Shown (memberOr part "text" (.str []))
  | _ => True

/-- A message whose text is one of characters. -/
def MessageFits (message : List (List ℕ × Json)) : Prop :=
  py.Shown (memberOr message "role" (.str [])) ∧ ContentFits py (Json.get message "content")

/-- A body whose digests can be computed: its `messages` can be looped over, no string that is
hashed has a lone surrogate, and no other value that is hashed is nested too deep. -/
def DigestsFit (payload : List (List ℕ × Json)) : Prop :=
  Loopable (Json.get payload "messages") ∧
    (∀ message ∈ chatMessages (Json.get payload "messages"), MessageFits py message) ∧
    (chatMessages (Json.get payload "messages") = [] → Json.get payload "input" ≠ .null →
      py.Shown (Json.get payload "input"))

/-! ### Texts of characters -/

/-- A text is computed, and it is one of characters. -/
def Encodes (x : Except Exc (List ℕ)) : Prop := ∃ text, x = .ok text ∧ ∀ c ∈ text, c.isValidChar

theorem encodes_ok (text : List ℕ) : Encodes (.ok text) ↔ ∀ c ∈ text, c.isValidChar := by
  simp [Encodes]

/-- A text is put together from two, with a separator between them. -/
theorem encodes_append {sep : ℕ} (hsep : sep.isValidChar) (x y : Except Exc (List ℕ)) :
    Encodes (do
      let a ← x
      let b ← y
      return a ++ sep :: b) ↔ Encodes x ∧ Encodes y := by
  cases x with
  | error e => exact iff_of_false (by rintro ⟨_, h, -⟩; cases h) (by rintro ⟨⟨_, h, -⟩, -⟩; cases h)
  | ok a =>
    cases y with
    | error e =>
      exact iff_of_false (by rintro ⟨_, h, -⟩; cases h) (by rintro ⟨-, _, h, -⟩; cases h)
    | ok b =>
      rw [encodes_ok, encodes_ok]
      refine (encodes_ok (a ++ sep :: b)).trans ?_
      rw [List.forall_mem_append, List.forall_mem_cons]
      simp [hsep]

/-- A text is put together from those of a list. -/
theorem encodes_intercalate {α : Type} {sep : List ℕ} (hsep : ∀ c ∈ sep, c.isValidChar)
    (f : α → Except Exc (List ℕ)) (l : List α) :
    Encodes ((l.mapM f).map sep.intercalate) ↔ ∀ a ∈ l, Encodes (f a) := by
  -- the texts of the list, all computed or none
  have hall : (∃ texts, l.mapM f = .ok texts ∧ ∀ t ∈ texts, ∀ c ∈ t, c.isValidChar) ↔
      ∀ a ∈ l, Encodes (f a) := by
    induction l with
    | nil => exact iff_of_true ⟨[], rfl, by simp⟩ (by simp)
    | cons a l ih =>
      rw [List.mapM_cons, List.forall_mem_cons, ← ih]
      cases hf : f a with
      | error e =>
        exact iff_of_false (by rintro ⟨_, h, -⟩; cases h) (by rintro ⟨⟨_, h, -⟩, -⟩; cases h)
      | ok t =>
        rw [encodes_ok]
        cases hl : l.mapM f with
        | error e =>
          exact iff_of_false (by rintro ⟨_, h, -⟩; cases h) (by rintro ⟨-, _, h, -⟩; cases h)
        | ok texts =>
          constructor
          · rintro ⟨_, h, hvalid⟩
            cases h
            rw [List.forall_mem_cons] at hvalid
            exact ⟨hvalid.1, texts, rfl, hvalid.2⟩
          · rintro ⟨ht, _, h, hvalid⟩
            cases h
            exact ⟨t :: texts, rfl, List.forall_mem_cons.mpr ⟨ht, hvalid⟩⟩
  rw [← hall]
  cases l.mapM f with
  | error e => exact iff_of_false (by rintro ⟨_, h, -⟩; cases h) (by rintro ⟨_, h, -⟩; cases h)
  | ok texts =>
    refine (encodes_ok (sep.intercalate texts)).trans ?_
    rw [Text.forall_mem_intercalate hsep]
    exact ⟨fun h => ⟨texts, rfl, h⟩, fun ⟨_, heq, h⟩ => by cases heq; exact h⟩

theorem strText_encodes_iff (v : Json) : Encodes (strText py v) ↔ py.Shown v := by
  rw [← py.exists_str_iff, strText]
  cases py.str v with
  | none => simp [Encodes]
  | some text => simp [Encodes]

theorem contentText_encodes_iff (content : Json) :
    Encodes (contentText py content) ↔ ContentFits py content := by
  cases content with
  | str s => exact encodes_ok s
  | arr parts =>
    refine (encodes_intercalate (by decide) _ _).trans ?_
    exact forall₂_congr fun part _ => strText_encodes_iff py _
  | _ => simp [contentText, ContentFits, Encodes]

theorem messageText_encodes_iff (message : List (List ℕ × Json)) :
    Encodes (messageText py message) ↔ MessageFits py message := by
  refine (encodes_append (by decide) _ _).trans ?_
  rw [strText_encodes_iff, contentText_encodes_iff, MessageFits]

/-! ### The prompt -/

theorem loopMessages_eq (messages : Json) :
    loopMessages messages = .ok (chatMessages messages) ∧ Loopable messages ∨
      loopMessages messages = .error (.other "TypeError") ∧ ¬ Loopable messages := by
  cases messages with
  | null => simp [loopMessages, chatMessages, Json.truthy, Loopable]
  | bool b => cases b <;> simp [loopMessages, chatMessages, Json.truthy, Loopable]
  | int n => by_cases hn : n = 0 <;> simp [loopMessages, chatMessages, Json.truthy, Loopable, hn]
  | float neg m e =>
    cases hz : Json.roundsToZero m e <;> simp [loopMessages, chatMessages, Json.truthy, Loopable, hz]
  | nan => simp [loopMessages, Json.truthy, Loopable]
  | infinity neg => simp [loopMessages, Json.truthy, Loopable]
  | str s => simp [loopMessages, chatMessages, Loopable]
  | arr items => cases items <;> simp [loopMessages, chatMessages, Json.truthy, Loopable]
  | obj members => simp [loopMessages, chatMessages, Loopable]

/-- The text of the messages, when they can be looped over. -/
theorem promptText_eq {messages : Json} (h : Loopable messages) :
    promptText py messages =
      ((chatMessages messages).mapM (messageText py)).map (Json.codePoints "\n").intercalate := by
  obtain ⟨heq, -⟩ | ⟨-, hnot⟩ := loopMessages_eq messages
  · rw [promptText, heq]
    rfl
  · exact absurd h hnot

/-- **When the text of the messages is one of characters.** -/
theorem promptText_encodes_iff (messages : Json) :
    Encodes (promptText py messages) ↔
      Loopable messages ∧ ∀ message ∈ chatMessages messages, MessageFits py message := by
  obtain ⟨-, hloop⟩ | ⟨heq, hnot⟩ := loopMessages_eq messages
  · rw [promptText_eq py hloop, encodes_intercalate (by decide), and_iff_right hloop]
    exact forall₂_congr fun message _ => messageText_encodes_iff py message
  · refine iff_of_false ?_ fun h => hnot h.1
    rintro ⟨text, h, -⟩
    rw [promptText, heq] at h
    cases h

theorem messageText_ne_nil {message : List (List ℕ × Json)} {text : List ℕ}
    (h : messageText py message = .ok text) : text ≠ [] := by
  rw [messageText] at h
  cases hrole : strText py (memberOr message "role" (.str [])) with
  | error e => rw [hrole] at h; cases h
  | ok role =>
    cases hcontent : contentText py (Json.get message "content") with
    | error e => rw [hrole, hcontent] at h; cases h
    | ok content =>
      rw [hrole, hcontent] at h
      cases h
      simp

/-- The text is empty exactly when no message is a dictionary. -/
theorem promptText_eq_nil_iff {messages : Json} {text : List ℕ}
    (h : promptText py messages = .ok text) : text = [] ↔ chatMessages messages = [] := by
  obtain ⟨-, hloop⟩ | ⟨heq, -⟩ := loopMessages_eq messages
  · rw [promptText_eq py hloop] at h
    cases hdicts : chatMessages messages with
    | nil =>
      rw [hdicts] at h
      cases h
      simp
    | cons message dicts =>
      rw [hdicts, List.mapM_cons] at h
      cases hm : messageText py message with
      | error e => rw [hm] at h; cases h
      | ok t =>
        cases hrest : dicts.mapM (messageText py) with
        | error e => rw [hm, hrest] at h; cases h
        | ok texts =>
          rw [hm, hrest] at h
          cases h
          have ht := messageText_ne_nil py hm
          cases texts with
          | nil => simpa using ht
          | cons t' texts => simp [List.intercalate_cons_cons, ht]
  · rw [promptText, heq] at h
    cases h

/-! ### The digests of a body -/

theorem textDigests_ok_iff (text : List ℕ) :
    (∃ digests, textDigests hash text = .ok digests) ↔ ∀ c ∈ text, c.isValidChar := by
  rw [← blocks_isSome_iff (by decide : 0 < prefixBlockChars), textDigests]
  cases blocks hash prefixBlockChars text with
  | none => simp
  | some digests => simp

theorem textDigests_eq_nil_iff {text : List ℕ} {digests : List Digest}
    (h : textDigests hash text = .ok digests) : digests = [] ↔ text = [] := by
  rw [textDigests] at h
  cases hb : blocks hash prefixBlockChars text with
  | none => rw [hb] at h; cases h
  | some ds =>
    rw [hb] at h
    cases h
    exact blocks_eq_nil_iff (by decide) hb

/-- A text has digests exactly when it is computed and is one of characters. -/
theorem bind_textDigests_ok_iff (x : Except Exc (List ℕ)) :
    (∃ digests, x >>= textDigests hash = .ok digests) ↔ Encodes x := by
  cases x with
  | error e => exact iff_of_false (by rintro ⟨_, h⟩; cases h) (by rintro ⟨_, h, -⟩; cases h)
  | ok text => exact (textDigests_ok_iff hash text).trans (encodes_ok text).symm

theorem inputDigests_ok_iff (input : Json) :
    (∃ digests, inputDigests py hash input = .ok digests) ↔ (input ≠ .null → py.Shown input) := by
  rw [← strText_encodes_iff, ← bind_textDigests_ok_iff hash]
  cases input with
  | null => simp [inputDigests]
  | _ => simp [inputDigests]

/-- **A parsed body has digests exactly when it fits.** -/
theorem payloadDigests_ok_iff (payload : List (List ℕ × Json)) :
    (∃ digests, payloadDigests py hash payload = .ok digests) ↔ DigestsFit py payload := by
  have hmessages := bind_textDigests_ok_iff hash (promptText py (Json.get payload "messages"))
  rw [promptText_encodes_iff] at hmessages
  rw [DigestsFit, ← and_assoc, ← hmessages, payloadDigests]
  cases hds : promptText py (Json.get payload "messages") >>= textDigests hash with
  | error e => exact iff_of_false (by rintro ⟨_, h⟩; cases h) (by rintro ⟨⟨_, h⟩, -⟩; cases h)
  | ok digests =>
    -- there are none exactly when no message is a dictionary
    have hnil : digests = [] ↔ chatMessages (Json.get payload "messages") = [] := by
      cases htext : promptText py (Json.get payload "messages") with
      | error e => rw [htext] at hds; cases hds
      | ok text =>
        rw [htext] at hds
        exact (textDigests_eq_nil_iff hash hds).trans (promptText_eq_nil_iff py htext)
    rw [and_iff_right ⟨digests, rfl⟩, ← hnil, ← inputDigests_ok_iff py hash]
    cases digests with
    | nil => simp [bind, Except.bind]
    | cons d ds => simp [bind, Except.bind, pure, Except.pure]

/-! ### Requests -/

/-- What is raised keeps a request from `_resolve_target`. -/
theorem startProxy_raisedBy_iff {α : Type} (name : String) (x : Except Exc α) :
    startProxy (.ok name) (raisedBy x) = .ok (.proxy name) ↔ ∃ a, x = .ok a := by
  cases x with
  | error e => simp [startProxy, raisedBy]
  | ok a => simp [startProxy, raisedBy]

/-- **Which requests go on**: an `application/json` request whose body is JSON gets its digests,
and with the name of a model goes on to `_resolve_target`, exactly when the body fits, if it is an
object; `raw` is the body with or without the stream options. -/
theorem proxyDigests_ok_iff (env : DoorEnv) (h : HttpRequest) {raw : List UInt8} {v : Json}
    (htype : h.isOfType env.unicode "application/json" = true)
    (hbody : loadsBody env raw = .ok v) :
    ((∃ digests, proxyDigests py hash env h raw = .ok digests) ↔
        ∀ payload, v = .obj payload → DigestsFit py payload) ∧
      ∀ body name, jsonModel env body >>= chooseModel h = .ok name →
        (extractModel env h body (raisedBy (proxyDigests py hash env h raw)) = .ok (.proxy name) ↔
          ∀ payload, v = .obj payload → DigestsFit py payload) := by
  have hdigests : (∃ digests, proxyDigests py hash env h raw = .ok digests) ↔
      ∀ payload, v = .obj payload → DigestsFit py payload := by
    rw [proxyDigests, if_pos htype, hbody]
    cases v with
    | obj payload => simpa using payloadDigests_ok_iff py hash payload
    | _ => simp
  refine ⟨hdigests, fun body name hname => ?_⟩
  rw [extractModel, if_pos htype, hname, startProxy_raisedBy_iff, hdigests]

end

/-- Characters of ASCII are printed, floats are not known. -/
def plainText : PyText where
  float _ _ _ := []
  printable c := c.toNat < 0x7F
  levels := 900

/-- A door whose bodies are ASCII. -/
def asciiDoor : DoorEnv where
  unicode := Unicode.ascii
  guard := { environment := "production" }
  decode raw := some (raw.map fun b => Char.ofNat b.toNat)
  depth := 900

/-- A chat request. -/
def chatRequest : HttpRequest where
  endpoint := .chatCompletions
  contentType := "application/json".toList

/-- A message of two letters. -/
def chatBody : List UInt8 :=
  asciiBytes "\x7b\"model\": \"m\", \"messages\": [\x7b\"content\": \"ab\"\x7d]\x7d"

/-- Its request goes on. -/
theorem chat_goes_on :
    extractModel asciiDoor chatRequest chatBody
        (raisedBy (proxyDigests plainText fewDigests asciiDoor chatRequest chatBody)) =
      .ok (.proxy "m") := by
  refine ((proxyDigests_ok_iff plainText fewDigests asciiDoor chatRequest rfl rfl).2 chatBody "m"
    rfl).mpr fun payload hpayload => ?_
  cases hpayload
  refine ⟨trivial, fun message hmessage => ?_, fun hnone => by cases hnone⟩
  obtain rfl := List.mem_singleton.mp hmessage
  refine ⟨fun c hc => absurd hc List.not_mem_nil, ?_⟩
  change ∀ c ∈ Json.codePoints "ab", c.isValidChar
  decide

/-- A message with a lone surrogate. -/
def surrogateBody : List UInt8 :=
  asciiBytes "\x7b\"model\": \"m\", \"messages\": [\x7b\"content\": \"\\ud800\"\x7d]\x7d"

/-- It is read, and it cannot be hashed. -/
theorem surrogate_not_hashed :
    ¬ ∀ (py : PyText) (hash : BlockHash) (env : DoorEnv) (h : HttpRequest) (raw : List UInt8)
      (v : Json), h.isOfType env.unicode "application/json" = true → loadsBody env raw = .ok v →
        ∃ digests, proxyDigests py hash env h raw = .ok digests := by
  intro h
  obtain ⟨digests, hds⟩ := h plainText fewDigests asciiDoor chatRequest surrogateBody
    (.obj [(Json.codePoints "model", .str (Json.codePoints "m")),
      (Json.codePoints "messages", .arr [.obj [(Json.codePoints "content", .str [0xD800])]])])
    rfl rfl
  have herror : proxyDigests plainText fewDigests asciiDoor chatRequest surrogateBody =
      .error (.other "UnicodeEncodeError") := rfl
  rw [herror] at hds
  cases hds

end Inferna
