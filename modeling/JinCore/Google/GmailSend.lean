import JinCore.Google.RateLimit
import JinCore.Js.Base64
import JinCore.Js.Utf8
import JinCore.Security.InjectionSanitizer
import Mathlib.Data.List.DropRight

/-!
# A mail that is sent (`google-gmail-client.service.ts`)

* `assertNoHeaderInjection`, `rawEmail`, `encodedMessage`, `sendEmail`;
* `decode_encodedMessage`   the message is read back from its unpadded base64url;
* `readMail`                a reader of mails: the lines up to the first empty one, and the rest;
* `SentAsApproved`, `sent_as_approved`.
-/

namespace Google
open JsString Common

/-! ## the message -/

def GoogleGmailApiError (message : JsString) : JinError where
  message := lit "Error en Gmail API: " ++ message
  code := lit "GOOGLE_GMAIL_API_ERROR"
  httpStatus := some 502

/-- `/[\r\n]/` -/
def hasLineBreak (value : JsString) : Bool := value.units.any fun u => u = 0x0D || u = 0x0A

def headerInjectionError (field : JsString) : JinError :=
  GoogleGmailApiError (field
    ++ lit " contiene caracteres no permitidos (posible inyección de headers)")

def assertNoHeaderInjection (value field : JsString) : Except JinError Unit :=
  if hasLineBreak value then .error (headerInjectionError field) else .ok ()

def CRLF : JsString := lit "\r\n"

def rawLines (recipient subject body : JsString) : List JsString :=
  [lit "To: " ++ recipient, lit "Subject: " ++ subject, lit "Content-Type: text/plain; charset=utf-8",
    lit "MIME-Version: 1.0", lit "", body]

def rawEmail (recipient subject body : JsString) : JsString :=
  Security.joinWith CRLF (rawLines recipient subject body)

/-- `.replace(/\+/g, '-').replace(/\//g, '_')` -/
def urlUnit (u : UInt16) : UInt16 := if u = 0x2B then 0x2D else if u = 0x2F then 0x5F else u

/-- the padding at the end is dropped -/
def encodedMessage (rawEmail : JsString) : JsString :=
  ⟨((Base64.encode rawEmail.utf8).units.map urlUnit).rdropWhile fun u => u = 0x3D⟩

/-! ## a call -/

/-- what `gmail.users.messages.send` gets -/
structure GmailMessage where
  raw : JsString
  threadId : Option JsString
  deriving DecidableEq, Repr

/-- `res.data` -/
structure SentMessage where
  id : Option JsString
  threadId : Option JsString
  deriving DecidableEq, Repr

/-- a domain error, or another one with its message -/
inductive Thrown where
  | jin (error : JinError)
  | other (message : JsString)
  deriving DecidableEq, Repr

def Thrown.caught : Thrown → JinError
  | .jin error => error
  | .other message => GoogleGmailApiError message

structure SendCall where
  requestTimestamps : List Int
  /-- the message that Gmail was called with -/
  submitted : Option GmailMessage
  outcome : Except JinError (JsString × JsString)

/-- the body of the `try` -/
def submit (gmailApi : Except Thrown Unit) (send : GmailMessage → Except Thrown SentMessage)
    (requestBody : GmailMessage) (requestTimestamps : List Int) : SendCall :=
  match gmailApi with
  | .error thrown => ⟨requestTimestamps, none, .error thrown.caught⟩
  | .ok () =>
    match send requestBody with
    | .error thrown => ⟨requestTimestamps, some requestBody, .error thrown.caught⟩
    | .ok data =>
      ⟨requestTimestamps, some requestBody, .ok (data.id.getD (lit ""), data.threadId.getD (lit ""))⟩

/-- `now` is the clock, `gmailApi` what `getGmailApi` does, and `send` what Gmail answers -/
def sendEmail (now : Int) (requestTimestamps : List Int) (gmailApi : Except Thrown Unit)
    (send : GmailMessage → Except Thrown SentMessage) (recipient subject body : JsString)
    (threadId : Option JsString) : SendCall :=
  match assertNoHeaderInjection recipient (lit "Destinatario (to)") with
  | .error error => ⟨requestTimestamps, none, .error error⟩
  | .ok () =>
    match assertNoHeaderInjection subject (lit "Asunto (subject)") with
    | .error error => ⟨requestTimestamps, none, .error error⟩
    | .ok () =>
      match checkRateLimit gmailRateLimit now requestTimestamps with
      | (live, some error) => ⟨live, none, .error error⟩
      | (live, none) =>
        submit gmailApi send ⟨encodedMessage (rawEmail recipient subject body), truthy threadId⟩ live

/-! ## the encoding -/

/-- the digits of the URL alphabet -/
def isUrlDigit (u : UInt16) : Bool := (Base64.alphabet.map urlUnit).contains u

theorem urlUnit_digit {n : Nat} (h : n < 64) :
    isUrlDigit (urlUnit (Base64.digit n)) = true ∧ urlUnit (Base64.digit n) ≠ 0x3D ∧
      Base64.value (urlUnit (Base64.digit n)) = some n := by
  have hall : ∀ n < 64, isUrlDigit (urlUnit (Base64.digit n)) = true ∧
      urlUnit (Base64.digit n) ≠ 0x3D ∧ Base64.value (urlUnit (Base64.digit n)) = some n := by
    decide +kernel
  exact hall n h

theorem units_encodedMessage (rawEmail : JsString) : (encodedMessage rawEmail).units
    = (Base64.sextets rawEmail.utf8).map fun n => urlUnit (Base64.digit n) := by
  have hsextets := Base64.sextets_lt rawEmail.utf8
  have hpadding (n : Nat) : ((Base64.padding n).map urlUnit).reverse = Base64.padding n := by
    rw [Base64.padding, List.map_replicate, List.reverse_replicate]
    rfl
  show ((_ ++ _ : List UInt16).map urlUnit).rdropWhile _ = _
  rw [List.map_append, List.map_map, List.rdropWhile, List.reverse_append, hpadding,
    List.dropWhile_append_of_pos, List.reverse_eq_iff]
  · show List.dropWhile _ _ = ((Base64.sextets rawEmail.utf8).map (urlUnit ∘ Base64.digit)).reverse
    rw [List.dropWhile_eq_self_iff]
    intro hpos hlast
    have hmem := List.mem_reverse.mp (List.getElem_mem hpos)
    obtain ⟨n, hn, heq⟩ := List.mem_map.mp hmem
    rw [← heq] at hlast
    exact (urlUnit_digit (hsextets n hn)).2.1 (of_decide_eq_true hlast)
  · intro u hu
    rw [List.eq_of_mem_replicate hu]
    rfl

theorem isUrlDigit_encodedMessage (rawEmail : JsString) :
    ∀ u ∈ (encodedMessage rawEmail).units, isUrlDigit u = true := by
  rw [units_encodedMessage]
  intro u hu
  obtain ⟨n, hn, rfl⟩ := List.mem_map.mp hu
  exact (urlUnit_digit (Base64.sextets_lt _ n hn)).1

/-- **the message is read back, whatever its length** -/
theorem decode_encodedMessage (rawEmail : JsString) :
    Base64.decode (encodedMessage rawEmail) = rawEmail.utf8 := by
  rw [Base64.decode, units_encodedMessage, List.filterMap_map]
  have hdigits : (Base64.sextets rawEmail.utf8).filterMap
      (Base64.value ∘ fun n => urlUnit (Base64.digit n)) = Base64.sextets rawEmail.utf8 := by
    refine (List.filterMap_congr fun n hn => ?_).trans List.filterMap_some
    exact (urlUnit_digit (Base64.sextets_lt _ n hn)).2.2
  rw [hdigits, Base64.unsextets_sextets]

/-! ## a reader of mails -/

/-- the lines up to the first empty one, and what comes after it; `line` is the line so far, and a
line ends in CR LF -/
def readMail (line : List UInt8) : List UInt8 → Option (List (List UInt8) × List UInt8)
  | [] => none
  | [_] => none
  | b :: c :: bytes =>
    if b = 0x0D ∧ c = 0x0A then
      if line = [] then some ([], bytes)
      else (readMail [] bytes).map fun mail => (line :: mail.1, mail.2)
    else readMail (line ++ [b]) (c :: bytes)

theorem readMail_line {text line : List UInt8} (h : 0x0D ∉ text) (rest : List UInt8) :
    readMail line (text ++ 0x0D :: 0x0A :: rest)
      = if line ++ text = [] then some ([], rest)
        else (readMail [] rest).map fun mail => ((line ++ text) :: mail.1, mail.2) := by
  induction text generalizing line with
  | nil => rw [List.append_nil]; rfl
  | cons b text ih =>
    rw [List.mem_cons, not_or] at h
    obtain ⟨c, tail, htail⟩ : ∃ c tail, text ++ 0x0D :: 0x0A :: rest = c :: tail :=
      List.exists_cons_of_ne_nil (by simp)
    have hstep : readMail line (b :: text ++ 0x0D :: 0x0A :: rest)
        = readMail (line ++ [b]) (text ++ 0x0D :: 0x0A :: rest) := by
      rw [List.cons_append, htail, readMail, if_neg]
      exact fun hb => h.1 hb.1.symm
    rw [hstep, ih h.2, List.append_assoc, List.singleton_append]

/-- a line that is not empty -/
theorem readMail_cons {text : List UInt8} (hne : text ≠ []) (h : 0x0D ∉ text) (rest : List UInt8) :
    readMail [] (text ++ 0x0D :: 0x0A :: rest)
      = (readMail [] rest).map fun mail => (text :: mail.1, mail.2) := by
  rw [readMail_line h, List.nil_append, if_neg hne]

theorem readMail_empty (rest : List UInt8) : readMail [] (0x0D :: 0x0A :: rest) = some ([], rest) := rfl

/-! ## what is sent -/

theorem notMem_of_not_hasLineBreak {value : JsString} (h : hasLineBreak value = false) :
    (0x0D : UInt16) ∉ value.units ∧ (0x0A : UInt16) ∉ value.units := by
  rw [hasLineBreak, List.any_eq_false] at h
  exact ⟨fun hmem => h _ hmem (by decide), fun hmem => h _ hmem (by decide)⟩

/-- a header line ends with its CR LF -/
theorem utf8_line (line rest : JsString) :
    (line ++ CRLF ++ rest).utf8 = line.utf8 ++ 0x0D :: 0x0A :: rest.utf8 := by
  have hassoc : line ++ CRLF ++ rest = line ++ (CRLF ++ rest) := ext_units (List.append_assoc _ _ _)
  have hcrlf : (CRLF ++ rest).utf8 = 0x0D :: 0x0A :: rest.utf8 := by
    show utf8Chars (decode (0x0D :: 0x0A :: rest.units)) = _
    rw [decode_cons_of_not_lead (by decide), decode_cons_of_not_lead (by decide)]
    rfl
  rw [hassoc, utf8_append, hcrlf]
  intro v hv
  cases hv
  rfl

/-- the header lines of a mail -/
def headers (recipient subject : JsString) : List (List UInt8) :=
  [(lit "To: " ++ recipient).utf8, (lit "Subject: " ++ subject).utf8,
    (lit "Content-Type: text/plain; charset=utf-8").utf8, (lit "MIME-Version: 1.0").utf8]

section
variable {recipient subject : JsString}

theorem utf8_rawEmail (recipient subject body : JsString) : (rawEmail recipient subject body).utf8
    = (lit "To: " ++ recipient).utf8 ++ 0x0D :: 0x0A :: ((lit "Subject: " ++ subject).utf8
      ++ 0x0D :: 0x0A :: ((lit "Content-Type: text/plain; charset=utf-8").utf8
      ++ 0x0D :: 0x0A :: ((lit "MIME-Version: 1.0").utf8 ++ 0x0D :: 0x0A :: 0x0D :: 0x0A ::
        body.utf8))) := by
  rw [rawEmail, rawLines]
  simp only [Security.joinWith, utf8_line]
  rfl

theorem header_clean {name value : JsString} (hname : hasLineBreak name = false)
    (hvalue : hasLineBreak value = false) :
    (0x0D : UInt8) ∉ (name ++ value).utf8 ∧ (0x0A : UInt8) ∉ (name ++ value).utf8 := by
  obtain ⟨hcr, hlf⟩ := notMem_of_not_hasLineBreak hname
  obtain ⟨hcr', hlf'⟩ := notMem_of_not_hasLineBreak hvalue
  constructor
  · refine notMem_utf8 (by decide) fun hmem => ?_
    exact (List.mem_append.mp hmem).elim hcr hcr'
  · refine notMem_utf8 (by decide) fun hmem => ?_
    exact (List.mem_append.mp hmem).elim hlf hlf'

theorem headers_clean (hto : hasLineBreak recipient = false) (hsubject : hasLineBreak subject = false) :
    ∀ line ∈ headers recipient subject, (0x0D : UInt8) ∉ line ∧ (0x0A : UInt8) ∉ line := by
  intro line hline
  simp only [headers, List.mem_cons, List.not_mem_nil, or_false] at hline
  rcases hline with rfl | rfl | rfl | rfl
  · exact header_clean (by decide) hto
  · exact header_clean (by decide) hsubject
  · exact ⟨by decide, by decide⟩
  · exact ⟨by decide, by decide⟩

theorem headers_ne_nil (recipient subject : JsString) : ∀ line ∈ headers recipient subject, line ≠ [] := by
  intro line hline
  simp only [headers, List.mem_cons, List.not_mem_nil, or_false] at hline
  rcases hline with rfl | rfl | rfl | rfl
  · exact utf8_ne_nil (List.append_ne_nil_of_left_ne_nil (by decide) _)
  · exact utf8_ne_nil (List.append_ne_nil_of_left_ne_nil (by decide) _)
  · exact utf8_ne_nil (by decide)
  · exact utf8_ne_nil (by decide)

theorem readMail_lines {lines : List (List UInt8)} (hne : ∀ line ∈ lines, line ≠ [])
    (hclean : ∀ line ∈ lines, (0x0D : UInt8) ∉ line) (rest : List UInt8) :
    readMail [] (lines.foldr (fun line bytes => line ++ 0x0D :: 0x0A :: bytes)
      (0x0D :: 0x0A :: rest)) = some (lines, rest) := by
  induction lines with
  | nil => rfl
  | cons line lines ih =>
    rw [List.foldr_cons, readMail_cons (hne _ List.mem_cons_self) (hclean _ List.mem_cons_self),
      ih (fun l hl => hne l (List.mem_cons_of_mem _ hl))
        (fun l hl => hclean l (List.mem_cons_of_mem _ hl))]
    rfl

theorem readMail_rawEmail (hto : hasLineBreak recipient = false)
    (hsubject : hasLineBreak subject = false) (body : JsString) :
    readMail [] (rawEmail recipient subject body).utf8
      = some (headers recipient subject, body.utf8) := by
  rw [utf8_rawEmail]
  exact readMail_lines (headers_ne_nil recipient subject)
    (fun line hline => (headers_clean hto hsubject line hline).1) body.utf8

end

/-- a mail has the headers and the body that were approved, and no others -/
structure Approved (recipient subject body raw : JsString) : Prop where
  /-- `raw` is unpadded base64url -/
  digits : ∀ u ∈ raw.units, isUrlDigit u = true
  mail : readMail [] (Base64.decode raw) = some (headers recipient subject, body.utf8)
  /-- nor is there another line for a reader that ends a line at a lone CR or LF -/
  lines : ∀ line ∈ headers recipient subject, (0x0D : UInt8) ∉ line ∧ (0x0A : UInt8) ∉ line

/-- what one call of `sendEmail` does -/
structure SentAsApproved (now : Int) (requestTimestamps : List Int) (gmailApi : Except Thrown Unit)
    (recipient subject body : JsString) (call : SendCall) : Prop where
  /-- whatever reaches Gmail is the mail that was approved -/
  approved : ∀ message, call.submitted = some message → Approved recipient subject body message.raw
  /-- a line break in the recipient or the subject is refused before the limit and Gmail are touched -/
  refused : hasLineBreak recipient = true ∨ hasLineBreak subject = true →
    call.requestTimestamps = requestTimestamps ∧ call.submitted = none ∧
      ∃ field, call.outcome = .error (headerInjectionError field)
  /-- without one the mail is submitted, unless the limit is reached or there is no client -/
  accepted : hasLineBreak recipient = false → hasLineBreak subject = false →
    (checkRateLimit gmailRateLimit now requestTimestamps).2 = none → gmailApi = .ok () →
      ∃ message, call.submitted = some message

section
variable {now : Int} {requestTimestamps : List Int} {gmailApi : Except Thrown Unit}
  {send : GmailMessage → Except Thrown SentMessage} {recipient subject body : JsString}
  {threadId : Option JsString}

theorem submitted_submit {requestBody message : GmailMessage}
    (h : (submit gmailApi send requestBody requestTimestamps).submitted = some message) :
    message = requestBody := by
  simp only [submit] at h
  split at h
  · cases h
  · split at h
    · cases h
      rfl
    · cases h
      rfl

theorem submit_ok (requestBody : GmailMessage) :
    (submit (.ok ()) send requestBody requestTimestamps).submitted = some requestBody := by
  simp only [submit]
  cases send requestBody with
  | error thrown => rfl
  | ok data => rfl

theorem assertNoHeaderInjection_clean {value : JsString} (h : hasLineBreak value = false)
    (field : JsString) : assertNoHeaderInjection value field = .ok () := by
  rw [assertNoHeaderInjection, h]
  rfl

theorem assertNoHeaderInjection_break {value : JsString} (h : hasLineBreak value = true)
    (field : JsString) : assertNoHeaderInjection value field = .error (headerInjectionError field) := by
  rw [assertNoHeaderInjection, if_pos h]

theorem sendEmail_refused (h : hasLineBreak recipient = true ∨ hasLineBreak subject = true) :
    ∃ field, sendEmail now requestTimestamps gmailApi send recipient subject body threadId
      = ⟨requestTimestamps, none, .error (headerInjectionError field)⟩ := by
  rw [sendEmail]
  cases hto : hasLineBreak recipient with
  | true =>
    rw [assertNoHeaderInjection_break hto]
    exact ⟨_, rfl⟩
  | false =>
    rw [hto] at h
    rw [assertNoHeaderInjection_clean hto,
      assertNoHeaderInjection_break (h.resolve_left Bool.false_ne_true)]
    exact ⟨_, rfl⟩

theorem sendEmail_clean (hto : hasLineBreak recipient = false)
    (hsubject : hasLineBreak subject = false) :
    sendEmail now requestTimestamps gmailApi send recipient subject body threadId
      = match checkRateLimit gmailRateLimit now requestTimestamps with
        | (live, some error) => ⟨live, none, .error error⟩
        | (live, none) => submit gmailApi send
            ⟨encodedMessage (rawEmail recipient subject body), truthy threadId⟩ live := by
  rw [sendEmail, assertNoHeaderInjection_clean hto, assertNoHeaderInjection_clean hsubject]

end

/-- **a mail that is sent has the headers and the body that were approved** -/
theorem sent_as_approved (now : Int) (requestTimestamps : List Int) (gmailApi : Except Thrown Unit)
    (send : GmailMessage → Except Thrown SentMessage) (recipient subject body : JsString)
    (threadId : Option JsString) :
    SentAsApproved now requestTimestamps gmailApi recipient subject body
      (sendEmail now requestTimestamps gmailApi send recipient subject body threadId) := by
  cases hbreak : hasLineBreak recipient || hasLineBreak subject with
  | true =>
    rw [Bool.or_eq_true] at hbreak
    obtain ⟨field, heq⟩ := @sendEmail_refused now requestTimestamps gmailApi send recipient subject
      body threadId hbreak
    rw [heq]
    refine ⟨fun message hsubmitted => (nomatch hsubmitted), fun _ => ⟨rfl, rfl, field, rfl⟩,
      fun hto hsubject => ?_⟩
    rw [hto, hsubject] at hbreak
    exact absurd hbreak (by decide)
  | false =>
    obtain ⟨hto, hsubject⟩ := Bool.or_eq_false_iff.mp hbreak
    rw [sendEmail_clean hto hsubject]
    refine ⟨fun message hsubmitted => ?_, fun h => ?_, fun _ _ hlimit hapi => ?_⟩
    · split at hsubmitted
      · cases hsubmitted
      · rw [submitted_submit hsubmitted]
        refine ⟨isUrlDigit_encodedMessage _, ?_, headers_clean hto hsubject⟩
        rw [decode_encodedMessage]
        exact readMail_rawEmail hto hsubject body
    · rw [hto, hsubject] at h
      exact absurd h (by decide)
    · split
      · next hcheck =>
        rw [hcheck] at hlimit
        cases hlimit
      · rw [hapi]
        exact ⟨_, submit_ok _⟩

end Google
