import OpenMigrate.Url.Lossy

namespace OpenMigrate.Files

open Url

section Source

/-- What the server answers to one request. -/
structure Answer where
  status : ℕ
  bytes : Bytes

/-- The helper's answer: the body is `await response.text()`. -/
structure HttpResponse where
  status : ℕ
  body : List Char

def rateLimited (status : ℕ) : Bool := status == 429 || status == 503

/-- The request and its retries, with what the server answers in turn; none where it never settles. Both branches read
the body before they look at the status, and only the one with a limiter retries. -/
def makeRequest (throttleLimiter : Bool) : List Answer → Option HttpResponse
  | [] => none
  | answer :: answers =>
    if throttleLimiter && rateLimited answer.status then makeRequest throttleLimiter answers
    else some ⟨answer.status, responseText answer.bytes⟩

/-- `GraphDriveSource.fetchFileContent` -/
def driveFileContent (throttleLimiter : Bool) (answers : List Answer) : Option (Except String Bytes) :=
  (makeRequest throttleLimiter answers).map fun response =>
    if response.status ≠ 200 then
      .error s!"Failed to download file: {response.status} - {String.ofList response.body}"
    else .ok (utf8 response.body)

/-- `GraphDriveSource.fetch`; `stringified` is the item as JSON. -/
def driveFetch (throttleLimiter : Bool) (sourceRef stringified : String) (answers : List Answer) :
    Option (Except String Bytes) :=
  if sourceRef = "" then some (.error s!"Item missing sourceRef: {stringified}")
  else driveFileContent throttleLimiter answers

/-- `WebdavFileSource.fetchFileContent`; a client of one's own may give no bytes. -/
def webdavFileContent (givesBytes : Bool) (url : String) (answer : Answer) : Except String Bytes :=
  if answer.status = 200 ∨ answer.status = 204 then
    if givesBytes then .ok answer.bytes
    else
      .error (s!"HTTP client returned no bodyBytes for {url}; file content cannot be read " ++
        "without corrupting non-UTF-8 files.")
  else .error s!"Failed to fetch file content: {answer.status}"

/-- `WebdavFileSource.fetch`; one request, at the href that `resolveHref` makes a URL. -/
def webdavFetch (givesBytes : Bool) (resolveHref : String → String) (sourceRef path : String) (answer : Answer) :
    Except String Bytes :=
  if sourceRef = "" then .error s!"WebDAV file has no sourceRef and cannot be fetched: {path}"
  else webdavFileContent givesBytes (resolveHref sourceRef) answer

end Source

section Exact

variable {b : Bytes} {answers : List Answer} {throttleLimiter : Bool}

/-- The server sends the file where it sends a file at all. -/
def Serves (b : Bytes) (answer : Answer) : Prop := answer.status = 200 ∨ answer.status = 204 → answer.bytes = b

theorem makeRequest_answer {response : HttpResponse} (h : makeRequest throttleLimiter answers = some response) :
    ∃ answer ∈ answers, response = ⟨answer.status, responseText answer.bytes⟩ := by
  induction answers with
  | nil => cases h
  | cons answer answers ih =>
    rw [makeRequest] at h
    split at h
    · obtain ⟨later, hlater, rfl⟩ := ih h
      exact ⟨later, List.mem_cons_of_mem answer hlater, rfl⟩
    · cases h
      exact ⟨answer, List.mem_cons_self, rfl⟩

theorem driveFetch_content {sourceRef stringified : String} {content : Bytes} (hserves : ∀ answer ∈ answers, Serves b answer)
    (h : driveFetch throttleLimiter sourceRef stringified answers = some (.ok content)) :
    content = utf8 (responseText b) := by
  rw [driveFetch] at h
  split at h
  · cases h
  · obtain ⟨response, hresponse, hcontent⟩ := Option.map_eq_some_iff.mp h
    obtain ⟨answer, hanswer, rfl⟩ := makeRequest_answer hresponse
    split at hcontent
    · cases hcontent
    · rename_i hstatus
      cases hcontent
      rw [hserves answer hanswer (.inl (not_not.mp hstatus))]

theorem webdavFetch_content {givesBytes : Bool} {resolveHref : String → String} {sourceRef path : String}
    {answer : Answer} {content : Bytes} (hserves : Serves b answer)
    (h : webdavFetch givesBytes resolveHref sourceRef path answer = .ok content) : content = b := by
  rw [webdavFetch] at h
  split at h
  · cases h
  · rw [webdavFileContent] at h
    split at h
    · rename_i hstatus
      split at h
      · cases h
        exact hserves hstatus
      · cases h
    · cases h

/-- The file comes as it is from the drive source. -/
def DriveExact (b : Bytes) : Prop :=
  ∀ throttleLimiter sourceRef stringified answers content, (∀ answer ∈ answers, Serves b answer) →
    driveFetch throttleLimiter sourceRef stringified answers = some (.ok content) → content = b

/-- And from the WebDAV source. -/
def WebdavExact (b : Bytes) : Prop :=
  ∀ givesBytes resolveHref sourceRef path answer content, Serves b answer →
    webdavFetch givesBytes resolveHref sourceRef path answer = .ok content → content = b

theorem fetch_exact_iff (b : Bytes) :
    DriveExact b ∧ WebdavExact b ↔ ∃ text, utf8 text = b ∧ text.head? ≠ some byteOrderMark := by
  rw [← utf8_responseText_iff]
  constructor
  · rintro ⟨hdrive, -⟩
    apply hdrive false "id" "\x7b\x7d" [⟨200, b⟩]
    · intro answer hanswer _
      rw [List.mem_singleton.mp hanswer]
    · rfl
  · intro h
    constructor
    · intro throttleLimiter sourceRef stringified answers content hserves hfetch
      rw [driveFetch_content hserves hfetch, h]
    · intro givesBytes resolveHref sourceRef path answer content hserves hfetch
      exact webdavFetch_content hserves hfetch

/-- The first bytes of a JPEG image, after one retry. -/
theorem image_corrupted :
    driveFetch true "id" "\x7b\x7d" [⟨429, []⟩, ⟨200, [0xFF, 0xD8, 0xFF, 0xE0]⟩] =
        some (.ok [0xEF, 0xBF, 0xBD, 0xEF, 0xBF, 0xBD, 0xEF, 0xBF, 0xBD, 0xEF, 0xBF, 0xBD]) ∧
      ¬ DriveExact [0xFF, 0xD8, 0xFF, 0xE0] := by
  have hfetch : driveFetch true "id" "\x7b\x7d" [⟨429, []⟩, ⟨200, [0xFF, 0xD8, 0xFF, 0xE0]⟩] =
      some (.ok [0xEF, 0xBF, 0xBD, 0xEF, 0xBF, 0xBD, 0xEF, 0xBF, 0xBD, 0xEF, 0xBF, 0xBD]) := by
    rfl
  refine ⟨hfetch, ?_⟩
  intro hexact
  have hsame := hexact _ _ _ _ _ ?_ hfetch
  · cases hsame
  · intro answer hanswer hstatus
    simp only [List.mem_cons, List.not_mem_nil, or_false] at hanswer
    obtain rfl | rfl := hanswer
    · simp at hstatus
    · rfl

end Exact

end OpenMigrate.Files
